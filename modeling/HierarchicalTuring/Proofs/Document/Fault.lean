import HierarchicalTuring.Proofs.Document.Description

/-! # What is wrong with documents

* `TransitionDocument.fault?` is the first thing wrong with a transition: its destination, what it
  writes, its move, an empty input, and a character that an earlier transition of the state reads,
  in this order. `MachineDocument.faults` lists the faults of a document by the order of its states
  and of their transitions.
* A document is valid exactly if nothing is wrong with it (`MachineDocument.faults_eq_nil_iff`).
* `exists_first_fault`: in front of the first fault of a list of transitions nothing is wrong.
-/

set_option autoImplicit false

namespace HierarchicalTuring

namespace TransitionDocument

variable {t u v : TransitionDocument}

/-- The transitions are the same, up to repeated characters, or read no common character. -/
def Compatible (t u : TransitionDocument) : Prop :=
  t.normal = u.normal ∨ t.Apart u

theorem Apart.symm (h : t.Apart u) : u.Apart t :=
  fun c hc hc' => h c hc' hc

theorem Compatible.refl (t : TransitionDocument) : t.Compatible t :=
  .inl rfl

theorem Compatible.symm (h : t.Compatible u) : u.Compatible t :=
  h.imp Eq.symm Apart.symm

theorem Compatible.of_normal_eq (h : t.normal = u.normal) (hu : u.Compatible v) :
    t.Compatible v := by
  refine hu.imp h.trans fun hapart c hc => hapart c ?_
  rw [← mem_input_normal, ← h]
  exact mem_input_normal.mpr hc

/-- The first thing wrong with a transition of a state that has the earlier ones. -/
def fault? (states : NameMap StateDocument) (state : String) (earlier : List TransitionDocument)
    (t : TransitionDocument) : Option MachineFault :=
  if (states.find? t.destination).isNone then
    some (.unknownDestination state t.destination)
  else
    match t.writes state with
    | .error fault => some fault
    | .ok _ =>
      if (Direction.ofCode? t.move).isNone then some (.unknownMove state t.move)
      else if t.input.toList = [] then some (.refusedTransition state .emptyInput)
      else if ∃ u ∈ earlier, t.normal = u.normal then none
      else
        (t.normal.input.toList.find? fun c => ∃ u ∈ earlier, c ∈ u.input.toList).map fun c =>
          .refusedTransition state (.inputInUse c)

theorem valid_iff {states : NameMap StateDocument} (state : String) : t.Valid states ↔
    (states.find? t.destination).isSome ∧ (∃ output, t.writes state = .ok output) ∧
      (Direction.ofCode? t.move).isSome ∧ t.input.toList ≠ [] := by
  rw [exists_writes_iff, Option.isSome_iff_exists, Option.isSome_iff_exists]
  simp only [Direction.ofCode?_eq_some_iff]
  exact ⟨fun h => ⟨h.destination, h.output, h.move, h.input⟩,
    fun ⟨hdestination, houtput, hmove, hinput⟩ => ⟨hdestination, houtput, hmove, hinput⟩⟩

theorem find?_clash_eq_none_iff {earlier : List TransitionDocument} :
    (t.normal.input.toList.find? fun c => ∃ u ∈ earlier, c ∈ u.input.toList) = none ↔
      ∀ u ∈ earlier, t.Apart u := by
  rw [List.find?_eq_none]
  simp only [mem_input_normal, decide_eq_true_eq, not_exists, not_and]
  exact ⟨fun h u hu c hc => h c hc u hu, fun h c hc u hu => h u hu c hc⟩

theorem fault?_eq_none_iff {states : NameMap StateDocument} {state : String}
    {earlier : List TransitionDocument} : t.fault? states state earlier = none ↔
      t.Valid states ∧ ((∃ u ∈ earlier, t.normal = u.normal) ∨ ∀ u ∈ earlier, t.Apart u) := by
  rw [valid_iff state]
  unfold fault?
  cases hdestination : states.find? t.destination with
  | none => simp
  | some d =>
    cases houtput : t.writes state with
    | error fault => simp
    | ok output =>
      cases hmove : Direction.ofCode? t.move with
      | none => simp
      | some direction =>
        by_cases hinput : t.input.toList = []
        · simp [hinput]
        by_cases hsame : ∃ u ∈ earlier, t.normal = u.normal
        · simp [hinput, hsame]
        · simp only [Option.isNone_some, Bool.false_eq_true, if_false, hinput, hsame]
          rw [Option.map_eq_none_iff, find?_clash_eq_none_iff]
          exact ⟨fun hapart => ⟨⟨rfl, ⟨output, rfl⟩, rfl, hinput⟩, .inr hapart⟩,
            fun h => h.2.resolve_left id⟩

end TransitionDocument

/-! ## Documents -/

/-- The faults of the transitions of a state that come behind the earlier ones. -/
def StateDocument.faultsFrom (states : NameMap StateDocument) (state : String) :
    List TransitionDocument → List TransitionDocument → List MachineFault
  | _, [] => []
  | earlier, t :: rest =>
    (t.fault? states state earlier).toList ++ faultsFrom states state (earlier ++ [t]) rest

/-- Everything wrong with a document, state by state in the order of their names. -/
def MachineDocument.faults (d : MachineDocument) : List MachineFault :=
  d.states.entries.flatMap fun entry =>
    StateDocument.faultsFrom d.states entry.1 [] entry.2.transitions

namespace StateDocument

variable {states : NameMap StateDocument} {state : String}

theorem faultsFrom_eq_nil_iff {earlier rest : List TransitionDocument}
    (hearlier : ∀ t ∈ earlier, ∀ u ∈ earlier, t.Compatible u) :
    faultsFrom states state earlier rest = [] ↔
      (∀ t ∈ rest, t.Valid states) ∧ ∀ t ∈ rest, ∀ u ∈ earlier ++ rest, t.Compatible u := by
  -- A transition without a fault joins the earlier ones, which stay compatible with each other.
  induction rest generalizing earlier with
  | nil => simp [faultsFrom]
  | cons t rest ih =>
    rw [faultsFrom, List.append_eq_nil_iff, Option.toList_eq_nil_iff,
      TransitionDocument.fault?_eq_none_iff]
    constructor
    · rintro ⟨⟨hvalid, hcases⟩, hrest⟩
      have ht : ∀ u ∈ earlier, t.Compatible u := by
        rcases hcases with ⟨v, hv, hsame⟩ | hapart
        · exact fun u hu => .of_normal_eq hsame (hearlier v hv u hu)
        · exact fun u hu => .inr (hapart u hu)
      have hearlier' : ∀ v ∈ earlier ++ [t], ∀ u ∈ earlier ++ [t], v.Compatible u := by
        simp only [List.mem_append, List.mem_singleton]
        rintro v (hv | rfl) u (hu | rfl)
        · exact hearlier v hv u hu
        · exact (ht v hv).symm
        · exact ht u hu
        · exact .refl u
      obtain ⟨hvalid', hcompatible⟩ := (ih hearlier').mp hrest
      rw [List.append_assoc, List.singleton_append] at hcompatible
      refine ⟨List.forall_mem_cons.mpr ⟨hvalid, hvalid'⟩,
        List.forall_mem_cons.mpr ⟨fun u hu => ?_, hcompatible⟩⟩
      rcases List.mem_append.mp hu with hold | hnew
      · exact ht u hold
      rcases List.mem_cons.mp hnew with rfl | hlater
      · exact .refl u
      · exact (hcompatible u hlater t (by simp)).symm
    · rintro ⟨hvalid, hcompatible⟩
      obtain ⟨ht, hvalid'⟩ := List.forall_mem_cons.mp hvalid
      obtain ⟨hcompatible, hcompatible'⟩ := List.forall_mem_cons.mp hcompatible
      have htearlier : ∀ u ∈ earlier, t.Compatible u := fun u hu =>
        hcompatible u (List.mem_append_left _ hu)
      refine ⟨⟨ht, ?_⟩, (ih ?_).mpr ⟨hvalid', ?_⟩⟩
      · by_cases hsame : ∃ u ∈ earlier, t.normal = u.normal
        · exact .inl hsame
        · exact .inr fun u hu => (htearlier u hu).resolve_left fun heq => hsame ⟨u, hu, heq⟩
      · simp only [List.mem_append, List.mem_singleton]
        rintro v (hv | rfl) u (hu | rfl)
        · exact hearlier v hv u hu
        · exact (htearlier v hv).symm
        · exact htearlier u hu
        · exact .refl u
      · rw [List.append_assoc, List.singleton_append]
        exact hcompatible'

theorem faultsFrom_nil_eq_nil_iff {l : List TransitionDocument} :
    faultsFrom states state [] l = [] ↔
      (∀ t ∈ l, t.Valid states) ∧ ∀ t ∈ l, ∀ u ∈ l, t.Compatible u :=
  faultsFrom_eq_nil_iff fun _ h => absurd h List.not_mem_nil

theorem exists_first_fault {earlier rest : List TransitionDocument} {fault : MachineFault}
    (h : (faultsFrom states state earlier rest).head? = some fault) :
    ∃ good t after, rest = good ++ t :: after ∧ faultsFrom states state earlier good = [] ∧
      t.fault? states state (earlier ++ good) = some fault := by
  induction rest generalizing earlier with
  | nil => cases h
  | cons t rest ih =>
    rw [faultsFrom] at h
    cases ht : t.fault? states state earlier with
    | some fault' =>
      rw [ht] at h
      cases h
      exact ⟨[], t, rest, rfl, rfl, by rwa [List.append_nil]⟩
    | none =>
      rw [ht] at h
      obtain ⟨good, u, after, rfl, hgood, hu⟩ := ih h
      refine ⟨t :: good, u, after, rfl, ?_, ?_⟩
      · rw [faultsFrom, ht]
        exact hgood
      · rwa [List.append_assoc] at hu

end StateDocument

namespace MachineDocument

variable {d : MachineDocument}

theorem faults_eq_nil_iff : d.faults = [] ↔ d.Valid := by
  unfold faults
  simp only [List.flatMap_eq_nil_iff, StateDocument.faultsFrom_nil_eq_nil_iff]
  exact ⟨fun h => ⟨fun entry he => (h entry he).1, fun entry he => (h entry he).2⟩,
    fun h entry he => ⟨h.transition entry he, h.apart entry he⟩⟩

theorem exists_first_fault {fault : MachineFault} (h : d.faults.head? = some fault) :
    ∃ before entry after, d.states.entries = before ++ entry :: after ∧
      (∀ other ∈ before,
        StateDocument.faultsFrom d.states other.1 [] other.2.transitions = []) ∧
      (StateDocument.faultsFrom d.states entry.1 [] entry.2.transitions).head? = some fault := by
  rw [faults, List.head?_flatMap, List.findSome?_eq_some_iff] at h
  obtain ⟨before, entry, after, hentries, hfault, hbefore⟩ := h
  exact ⟨before, entry, after, hentries,
    fun other hother => List.head?_eq_none_iff.mp (hbefore other hother), hfault⟩

end MachineDocument

end HierarchicalTuring
