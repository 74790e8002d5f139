import HierarchicalTuring.Analysis.Basic
import HierarchicalTuring.Proofs.Project.WellFormed
import HierarchicalTuring.Proofs.Store.Roster
import Mathlib

/-! # The search for reachable states

The depth-first search visits the handles that can be reached, and no others.

* `Search.remaining` bounds the pops that are left: a visit takes the transitions of its state out of
  `Search.pending` and puts no more than these on the stack. The stack is empty in the end
  (`stack_run`).
* `Search.Covers` is what every pop keeps: only reachable handles are met, and what a visited handle
  leads to is visited or waits on the stack.
* `Machine.mem_visited_iff` follows, and with it what the analysis calls unreachable
  (`Machine.mem_unreachableStates_iff`, `Project.unreachableStates_mem_analyze`).
-/

set_option autoImplicit false

namespace HierarchicalTuring

namespace Search

variable {m : Machine} {search : Search} {first h : Handle}

theorem mem_destinations {destination : Handle} : destination ∈ destinations m h ↔
    ∃ state id t, m.stateAt? h = some state ∧ (id, t) ∈ state.transitions ∧
      t.destination = destination := by
  unfold destinations
  cases m.stateAt? h with
  | none => simp
  | some state => simp

/-! ## The stack runs empty -/

/-- The number of transitions stored in states that were not visited. -/
def pending (m : Machine) (visited : List Handle) : Nat :=
  (m.states.entries.map fun entry =>
    if entry.1 ∈ visited then 0 else entry.2.transitions.length).sum

theorem pending_nil (m : Machine) : pending m [] = m.transitionTotal := by
  unfold pending Machine.transitionTotal
  rw [List.length_flatMap, ← Store.map_snd_entries, List.map_map]
  simp [Function.comp_def]

/-- A visit takes the transitions of its state away from what is pending. -/
theorem pending_cons (hnew : h ∉ search.visited) :
    pending m (h :: search.visited) + (destinations m h).length ≤ pending m search.visited := by
  have hle : ∀ l : List (Handle × State),
      (l.map fun entry =>
        if entry.1 ∈ h :: search.visited then 0 else entry.2.transitions.length).sum ≤
      (l.map fun entry =>
        if entry.1 ∈ search.visited then 0 else entry.2.transitions.length).sum := by
    intro l
    refine List.sum_le_sum fun entry _ => ?_
    by_cases hold : entry.1 ∈ search.visited
    · rw [if_pos (List.mem_cons_of_mem _ hold)]
      exact Nat.zero_le _
    · rw [if_neg hold]
      split
      · exact Nat.zero_le _
      · exact Nat.le_refl _
  unfold pending destinations
  cases hstate : m.stateAt? h with
  | none => exact hle m.states.entries
  | some state =>
    obtain ⟨before, after, hentries⟩ := List.append_of_mem (Store.mem_entries.mpr hstate)
    have hbefore := hle before
    have hafter := hle after
    rw [hentries]
    simp only [List.map_append, List.map_cons, List.sum_append, List.sum_cons, List.length_map,
      if_pos List.mem_cons_self, if_neg hnew]
    omega

/-- A bound for the pops that empty the stack. -/
def remaining (m : Machine) (search : Search) : Nat :=
  search.stack.length + pending m search.visited

theorem remaining_pop (hstack : search.stack ≠ []) :
    remaining m (search.pop m) + 1 ≤ remaining m search := by
  unfold pop remaining
  cases hs : search.stack with
  | nil => exact absurd hs hstack
  | cons h rest =>
    by_cases hold : h ∈ search.visited
    · simp only [if_pos hold, List.length_cons]
      omega
    · have hpending := pending_cons (m := m) hold
      have hfound := List.length_filter_le
        (fun destination => decide (destination ∉ h :: search.visited)) (destinations m h)
      simp only [if_neg hold, List.length_append, List.length_reverse, List.length_cons]
      omega

theorem run_of_stack_eq_nil (hstack : search.stack = []) (count : Nat) :
    search.run m count = search := by
  induction count with
  | zero => rfl
  | succ count ih =>
    have hpop : search.pop m = search := by simp only [pop, hstack]
    rw [run, hpop, ih]

theorem stack_run {count : Nat} (hcount : remaining m search ≤ count) :
    (search.run m count).stack = [] := by
  induction count generalizing search with
  | zero =>
    unfold remaining at hcount
    exact List.length_eq_zero_iff.mp (show search.stack.length = 0 by omega)
  | succ count ih =>
    by_cases hstack : search.stack = []
    · rw [run_of_stack_eq_nil hstack, hstack]
    · have hpop := remaining_pop (m := m) hstack
      exact ih (by omega)

/-! ## What is visited -/

/-- Only reachable handles were met. The first one was met, and so was what visited handles lead to. -/
structure Covers (m : Machine) (first : Handle) (search : Search) : Prop where
  reachable : ∀ h, h ∈ search.visited ∨ h ∈ search.stack → m.Reachable h
  first_met : first ∈ search.visited ∨ first ∈ search.stack
  closed : ∀ h ∈ search.visited, ∀ destination ∈ destinations m h,
    destination ∈ search.visited ∨ destination ∈ search.stack

theorem Covers.start {state : State} (hstart : m.start? = some (first, state)) :
    Covers m first ⟨[], [first]⟩ where
  reachable := by
    rintro h (hmem | hmem)
    · cases hmem
    · rw [List.mem_singleton.mp hmem]
      exact .start hstart
  first_met := .inr List.mem_cons_self
  closed := fun _ hmem => absurd hmem List.not_mem_nil

theorem Covers.pop (hc : Covers m first search) : Covers m first (search.pop m) := by
  obtain ⟨visited, stack⟩ := search
  cases stack with
  | nil => exact hc
  | cons h rest =>
    unfold Search.pop
    by_cases hold : h ∈ visited
    · simp only [if_pos hold]
      -- The handle that leaves the stack was visited before.
      have hmet : ∀ {h' : Handle}, h' ∈ visited ∨ h' ∈ h :: rest → h' ∈ visited ∨ h' ∈ rest := by
        rintro h' (hmem | hmem)
        · exact .inl hmem
        · rcases List.mem_cons.mp hmem with rfl | hrest
          · exact .inl hold
          · exact .inr hrest
      exact ⟨fun h' hmem => hc.reachable h' (hmem.imp_right (List.mem_cons_of_mem h)),
        hmet hc.first_met, fun h' hmem destination hd => hmet (hc.closed h' hmem destination hd)⟩
    · simp only [if_neg hold]
      have hreachable : m.Reachable h := hc.reachable h (.inr List.mem_cons_self)
      have hmet : ∀ {h' : Handle}, h' ∈ visited ∨ h' ∈ h :: rest → h' ∈ h :: visited ∨ h' ∈
          ((destinations m h).filter fun destination => destination ∉ h :: visited).reverse ++
            rest := by
        rintro h' (hmem | hmem)
        · exact .inl (List.mem_cons_of_mem h hmem)
        · rcases List.mem_cons.mp hmem with rfl | hrest
          · exact .inl List.mem_cons_self
          · exact .inr (List.mem_append_right _ hrest)
      refine ⟨?_, hmet hc.first_met, ?_⟩
      · rintro h' (hmem | hmem)
        · rcases List.mem_cons.mp hmem with rfl | hvisited
          · exact hreachable
          · exact hc.reachable h' (.inl hvisited)
        · rcases List.mem_append.mp hmem with hfound | hrest
          · have hdestination := (List.mem_filter.mp (List.mem_reverse.mp hfound)).1
            obtain ⟨state, id, t, hstate, hstored, rfl⟩ := mem_destinations.mp hdestination
            exact .follow hreachable hstate hstored
          · exact hc.reachable h' (.inr (List.mem_cons_of_mem h hrest))
      · intro h' hmem destination hdestination
        rcases List.mem_cons.mp hmem with rfl | hvisited
        · by_cases hknown : destination ∈ h' :: visited
          · exact .inl hknown
          · exact .inr (List.mem_append_left _ (List.mem_reverse.mpr
              (List.mem_filter.mpr ⟨hdestination, decide_eq_true hknown⟩)))
        · exact hmet (hc.closed h' hvisited destination hdestination)

theorem Covers.run (hc : Covers m first search) (count : Nat) :
    Covers m first (search.run m count) := by
  induction count generalizing search with
  | zero => exact hc
  | succ count ih => exact ih hc.pop

end Search

namespace Machine

variable {m : Machine} {start h : Handle} {state : State}

theorem mem_visited_iff (hstart : m.start? = some (start, state)) :
    h ∈ m.visited start ↔ m.Reachable h := by
  have hcovers := (Search.Covers.start hstart).run (1 + m.transitionTotal)
  have hstack : (Search.run m ⟨[], [start]⟩ (1 + m.transitionTotal)).stack = [] := by
    refine Search.stack_run (Nat.le_of_eq ?_)
    rw [Search.remaining, Search.pending_nil, List.length_singleton]
  have hmet : ∀ {h' : Handle}, h' ∈ m.visited start ∨
      h' ∈ (Search.run m ⟨[], [start]⟩ (1 + m.transitionTotal)).stack → h' ∈ m.visited start := by
    rintro h' (hmem | hmem)
    · exact hmem
    · rw [hstack] at hmem
      cases hmem
  refine ⟨fun hmem => hcovers.reachable h (.inl hmem), fun hreachable => ?_⟩
  induction hreachable with
  | start hfound =>
    rw [hstart] at hfound
    cases hfound
    exact hmet hcovers.first_met
  | follow _ hfound hstored ih =>
    exact hmet (hcovers.closed _ ih _ (Search.mem_destinations.mpr ⟨_, _, _, hfound, hstored, rfl⟩))

/-! ## What the analysis calls unreachable -/

theorem mem_unreachableStates_iff {names : List String} (hnames : m.unreachableStates? = some names)
    {name : String} : name ∈ names ↔
      ∃ h state, m.stateAt? h = some state ∧ state.name = name ∧ ¬ m.Reachable h := by
  simp only [unreachableStates?, bind, Option.bind_eq_some_iff, pure, Option.some.injEq,
    Prod.exists] at hnames
  obtain ⟨start, found, hstart, rfl⟩ := hnames
  simp only [List.mem_map, List.mem_filter, decide_eq_true_eq, mem_visited_iff hstart, Prod.exists]
  constructor
  · rintro ⟨h, state, ⟨hmem, hnot⟩, hname⟩
    exact ⟨h, state, Store.mem_entries.mp hmem, hname, hnot⟩
  · rintro ⟨h, state, hstate, hname, hnot⟩
    exact ⟨h, state, ⟨Store.mem_entries.mpr hstate, hnot⟩, hname⟩

end Machine

namespace Project

variable {p : Project} {machine : String} {names : List String}

theorem unreachableStates_mem_analyze : .unreachableStates machine names ∈ p.analyze ↔
    ∃ m ∈ p.machines.live, ∃ found, m.unreachableStates? = some found ∧ found ≠ [] ∧
      m.name = machine ∧ (found.mergeSort fun a b => decide (a ≤ b)) = names := by
  rw [mem_analyze]
  simp [missingStartStates, unknownSubmachines, unknownCall?, unreachableStates, unreachableIssue?,
    submachineCycles, Option.bind_eq_some_iff]

/-- A state that is called unreachable is one of a machine that can be entered. -/
theorem WellFormed.unreachable_of_mem_analyze (hp : p.WellFormed) {state : String}
    (hfinding : .unreachableStates machine names ∈ p.analyze) (hstate : state ∈ names) :
    ∃ m, p.machine? machine = some m ∧ (∃ found, m.start? = some found) ∧
      ∃ h s, m.stateAt? h = some s ∧ s.name = state ∧ ¬ m.Reachable h := by
  obtain ⟨m, hm, found, hfound, -, hname, rfl⟩ := unreachableStates_mem_analyze.mp hfinding
  refine ⟨m, hp.machine?_eq_some_iff.mpr ⟨hm, hname⟩, ?_, ?_⟩
  · unfold Machine.unreachableStates? at hfound
    obtain ⟨first, hfirst, -⟩ := Option.bind_eq_some_iff.mp hfound
    exact ⟨first, hfirst⟩
  · exact (Machine.mem_unreachableStates_iff hfound).mp (List.mem_mergeSort.mp hstate)

end Project

end HierarchicalTuring
