import HierarchicalTuring.Proofs.Analysis.Order
import HierarchicalTuring.Proofs.Analysis.Search

/-! # Unreachable states are reported exactly

* `Machine.Unreached m name`: transitions through states of the machine do not lead from its start
  state to the state with this name.
* A finding lists such names in the order of their bytes, and each of them once
  (`Machine.WellFormed.pairwise_of_unreachableStates`), so they determine it
  (`Project.WellFormed.unreachableStates_mem_analyze_iff`).
* `Project.unreachable_states_reported_exactly` puts this together.
-/

set_option autoImplicit false

namespace HierarchicalTuring

/-- Nothing leads from the start state to the state with this name. -/
def Machine.Unreached (m : Machine) (name : String) : Prop :=
  ∃ h state, m.stateAt? h = some state ∧ state.name = name ∧ ¬ m.Reachable h

namespace Machine

variable {m : Machine} {found : List String}

/-! ## The names of one machine -/

theorem unreachableStates?_eq_some_iff : m.unreachableStates? = some found ↔
    ∃ start state, m.start? = some (start, state) ∧
      (m.states.entries.filter fun entry => entry.1 ∉ m.visited start).map
        (fun entry => entry.2.name) = found := by
  simp only [unreachableStates?, bind, Option.bind_eq_some_iff, pure, Option.some.injEq,
    Prod.exists]

theorem WellFormed.exists_start?_iff_exists_live (hm : m.WellFormed) :
    (∃ entry, m.start? = some entry) ↔ ∃ state ∈ m.states.live, state.name = startStateName := by
  constructor
  · rintro ⟨⟨h, state⟩, hstart⟩
    obtain ⟨hstate, hname⟩ := hm.start?_eq_some_iff.mp hstart
    exact ⟨state, mem_live_of_stateAt? hstate, hname⟩
  · rintro ⟨state, hlive, hname⟩
    obtain ⟨h, hstate⟩ := exists_stateAt?_of_mem_live hlive
    exact ⟨(h, state), hm.start?_eq_some_iff.mpr ⟨hstate, hname⟩⟩

theorem WellFormed.nodup_unreachableStates (hm : m.WellFormed)
    (hfound : m.unreachableStates? = some found) : found.Nodup := by
  obtain ⟨start, _, -, rfl⟩ := unreachableStates?_eq_some_iff.mp hfound
  have hnames : (m.states.entries.map fun entry => entry.2.name).Nodup := by
    have hnodup := hm.indexed.nodup_names
    rw [Store.names, ← Store.map_snd_entries, List.map_map] at hnodup
    exact hnodup
  exact hnames.sublist (List.filter_sublist.map _)

theorem WellFormed.pairwise_of_unreachableStates (hm : m.WellFormed)
    (hfound : m.unreachableStates? = some found) :
    (found.mergeSort fun a b => decide (a ≤ b)).Pairwise (· < ·) := by
  have hsorted : (found.mergeSort fun a b => decide (a ≤ b)).Pairwise
      fun a b => decide (a ≤ b) = true :=
    List.pairwise_mergeSort (fun a b c hab hbc => by
      simpa using String.le_trans (of_decide_eq_true hab) (of_decide_eq_true hbc))
      (fun a b => by simpa using String.le_total a b) found
  have hnodup : (found.mergeSort fun a b => decide (a ≤ b)).Nodup :=
    (List.mergeSort_perm _ _).nodup_iff.mpr (hm.nodup_unreachableStates hfound)
  exact (hsorted.and hnodup).imp fun h => lt_of_le_of_ne (of_decide_eq_true h.1) h.2

end Machine

namespace Project

variable {p : Project} {machine : String} {names : List String}

/-! ## Findings -/

theorem WellFormed.unreachableStates_mem_analyze_iff (hp : p.WellFormed) :
    .unreachableStates machine names ∈ p.analyze ↔ ∃ m ∈ p.machines.live, m.name = machine ∧
      (∃ state ∈ m.states.live, state.name = startStateName) ∧ names ≠ [] ∧
      names.Pairwise (· < ·) ∧ ∀ name, name ∈ names ↔ m.Unreached name := by
  rw [unreachableStates_mem_analyze]
  refine exists_congr fun m => and_congr_right fun hm => ?_
  have hwf : m.WellFormed := hp.live m hm
  constructor
  · rintro ⟨found, hfound, hne, hname, rfl⟩
    obtain ⟨start, state, hstart, -⟩ := Machine.unreachableStates?_eq_some_iff.mp hfound
    refine ⟨hname, hwf.exists_start?_iff_exists_live.mp ⟨_, hstart⟩, fun hnil => hne ?_,
      hwf.pairwise_of_unreachableStates hfound, fun name => ?_⟩
    · exact List.Perm.nil_eq (hnil ▸ List.mergeSort_perm found _) |>.symm
    · exact List.mem_mergeSort.trans (Machine.mem_unreachableStates_iff hfound)
  · rintro ⟨hname, hstart, hne, hsorted, hmem⟩
    obtain ⟨⟨start, state⟩, hstart⟩ := hwf.exists_start?_iff_exists_live.mpr hstart
    have hfound := Machine.unreachableStates?_eq_some_iff.mpr ⟨start, state, hstart, rfl⟩
    have hsame := eq_of_pairwise_of_mem_iff String.lt_asymm
      (hwf.pairwise_of_unreachableStates hfound) hsorted fun name =>
        List.mem_mergeSort.trans ((Machine.mem_unreachableStates_iff hfound).trans (hmem name).symm)
    refine ⟨_, hfound, fun hnil => hne ?_, hname, hsame⟩
    rw [← hsame, hnil, List.mergeSort_nil]

/-- A report has one finding at most about the unreachable states of a machine. -/
theorem WellFormed.eq_of_unreachableStates_mem_analyze (hp : p.WellFormed) {names' : List String}
    (h : .unreachableStates machine names ∈ p.analyze)
    (h' : .unreachableStates machine names' ∈ p.analyze) : names' = names := by
  obtain ⟨m, hm, hname, -, -, hsorted, hmem⟩ := hp.unreachableStates_mem_analyze_iff.mp h
  obtain ⟨m', hm', hname', -, -, hsorted', hmem'⟩ := hp.unreachableStates_mem_analyze_iff.mp h'
  cases hp.machine_eq_of_name_eq hm hm' (hname.trans hname'.symm)
  exact eq_of_pairwise_of_mem_iff String.lt_asymm hsorted' hsorted fun name =>
    (hmem' name).trans (hmem name).symm

/-- A report finds unreachable states in a machine exactly when the machine has a start state and one
of its states is not reached from there. There is one such finding, and it lists these states, each of
them once, by the bytes of their names. -/
theorem unreachable_states_reported_exactly {identity : Identity} (hp : p.Built identity) :
    (∀ m ∈ p.machines.live, (∃ names, .unreachableStates m.name names ∈ p.analyze) ↔
      (∃ state ∈ m.states.live, state.name = startStateName) ∧
        ∃ h state, m.stateAt? h = some state ∧ ¬ m.Reachable h) ∧
    ∀ machine names, .unreachableStates machine names ∈ p.analyze →
      p.analyze.count (.unreachableStates machine names) = 1 ∧
      (∀ names', .unreachableStates machine names' ∈ p.analyze → names' = names) ∧
      names.Pairwise (fun a b => bytes a < bytes b) ∧
      ∃ m, p.machine? machine = some m ∧ ∀ name, name ∈ names ↔ m.Unreached name := by
  have hwf := hp.wellFormed
  refine ⟨fun m hm => ⟨?_, ?_⟩, fun machine names hfinding =>
    ⟨List.count_eq_one_of_mem (nodup_analyze hwf) hfinding,
      fun names' => hwf.eq_of_unreachableStates_mem_analyze hfinding, ?_⟩⟩
  · rintro ⟨names, hfinding⟩
    obtain ⟨m', hm', hname, hstart, hne, -, hmem⟩ :=
      hwf.unreachableStates_mem_analyze_iff.mp hfinding
    cases hwf.machine_eq_of_name_eq hm' hm hname
    obtain ⟨name, hlisted⟩ := List.exists_mem_of_ne_nil names hne
    obtain ⟨h, state, hstate, -, hnot⟩ := (hmem name).mp hlisted
    exact ⟨hstart, h, state, hstate, hnot⟩
  · rintro ⟨hstart, h, state, hstate, hnot⟩
    obtain ⟨⟨start, first⟩, hfirst⟩ := (hwf.live m hm).exists_start?_iff_exists_live.mpr hstart
    have hfound := Machine.unreachableStates?_eq_some_iff.mpr ⟨start, first, hfirst, rfl⟩
    have hlisted := (Machine.mem_unreachableStates_iff hfound).mpr ⟨h, state, hstate, rfl, hnot⟩
    exact ⟨_, unreachableStates_mem_analyze.mpr
      ⟨m, hm, _, hfound, List.ne_nil_of_mem hlisted, rfl, rfl⟩⟩
  · obtain ⟨m, hm, hname, -, -, hsorted, hmem⟩ := hwf.unreachableStates_mem_analyze_iff.mp hfinding
    exact ⟨hsorted.imp fun hlt => bytes_lt_bytes_iff.mpr hlt,
      m, hwf.machine?_eq_some_iff.mpr ⟨hm, hname⟩, hmem⟩

/-- Of the machine `main`, the states `start` and `port` lead to each other, and so do `island` and
`atoll`. The other transitions of `port` lead to the slot of a removed state, and to the slot that is
that of `island`, but of another machine. -/
def islandSample : Project × Identity :=
  [Edit.addMachine "main",
    .editMachine "main" (.addState "wreck"),
    .editMachine "main" (.addState "island"),
    .editMachine "main" (.addState "start"),
    .editMachine "main" (.addState "port"),
    .editMachine "main" (.addState "atoll"),
    .editMachine "main" (.removeState "wreck"),
    .editMachine "main" (.addTransition "start" "port" "1" none .right),
    .editMachine "main" (.addTransition "port" "start" "1" none .left),
    .editMachine "main" (.editState "port" (.addTransition ⟨1, 0⟩ "2" none .stay)),
    .editMachine "main" (.editState "port" (.addTransition ⟨2, 1⟩ "3" none .stay)),
    .editMachine "main" (.addTransition "island" "atoll" "1" none .right),
    .editMachine "main" (.addTransition "atoll" "island" "1" none .right),
    .editMachine "main" (.addTransition "atoll" "port" "2" none .right)].foldl
    (fun built edit => edit.apply built) (Project.new 0, 1)

theorem built_islandSample : islandSample.1.Built islandSample.2 :=
  (Built.new 0).foldl_edit _

theorem mergeSort_islands :
    (["island", "atoll"].mergeSort fun a b => decide (a ≤ b)) = ["atoll", "island"] := by
  simp [List.mergeSort, List.MergeSort.Internal.splitInTwo]

theorem islands_mem_analyze :
    .unreachableStates "main" ["atoll", "island"] ∈ islandSample.1.analyze := by
  have hwf := built_islandSample.wellFormed
  let m := (islandSample.1.machine? "main").get rfl
  have hm : islandSample.1.machine? "main" = some m := rfl
  have hlive : m ∈ islandSample.1.machines.live := (hwf.machine?_eq_some_iff.mp hm).1
  have hfound : m.unreachableStates? = some ["island", "atoll"] := by decide +kernel
  exact unreachableStates_mem_analyze.mpr ⟨m, hlive, _, hfound, by simp, rfl, mergeSort_islands⟩

/-- Nothing leads to the two states that lead to each other, and this is what is found. -/
theorem unreachable_of_islandSample :
    .unreachableStates "main" ["atoll", "island"] ∈ islandSample.1.analyze ∧
    islandSample.1.analyze.count (.unreachableStates "main" ["atoll", "island"]) = 1 ∧
    ∀ names, .unreachableStates "main" names ∈ islandSample.1.analyze →
      names = ["atoll", "island"] := by
  obtain ⟨hcount, honly, -⟩ :=
    (unreachable_states_reported_exactly built_islandSample).2 _ _ islands_mem_analyze
  exact ⟨islands_mem_analyze, hcount, honly⟩

end Project

end HierarchicalTuring
