import HierarchicalTuring.Proofs.Simulation.Dangling
import HierarchicalTuring.Proofs.Store.Lifetime

/-! # Copies that are edited apart

A copy of a store keeps its identity, and each of the two counts its new slots for itself. So a
handle that one of them gives out after the copy was made names a slot of the other one as well.

* `Store.additions` are the entities that come into a store under some operations, in the order of
  their slots. Each is an `Addition`, with what happens to it afterwards.
* `Indexed.resolve?_run_of_new`: a handle of a slot beyond those of the copied store stands for what
  is left of the addition that took this slot.
* `handle_in_other_copy`: so a handle of one copy stands for nothing in the other one only as long as
  this has added no more entities than the first one had, or has removed the one in that slot.
* `Simulation.step_into_other_copy`: only then is a step along such a handle reported as dangling.
  Otherwise it leads to a state that has nothing to do with it
  (`Project.copy_runs_to_unrelated_state`).
-/

set_option autoImplicit false

namespace HierarchicalTuring

variable {α : Type} [Named α]

namespace Store

/-! ## What comes into a store -/

/-- The entity that an operation puts into a new slot of a store. -/
def Edit.added? (s : Store α) : Edit α → Option α
  | add entity => if s.contains (Named.name entity) then none else some entity
  | _ => none

/-- An entity that came into a store, with the store as it was then and the operations that followed
on it. -/
structure Addition (α : Type) [Named α] where
  entity : α
  store : Store α
  later : List (Edit α)

/-- What is left in the end of an entity that came into a store under a handle. -/
def Addition.left? (addition : Addition α) (h : Handle) : Option α :=
  addition.store.follow h addition.later (some addition.entity)

/-- What comes into a store under some operations, in the order of the new slots. -/
def additions : Store α → List (Edit α) → List (Addition α)
  | _, [] => []
  | s, edit :: edits =>
    ((edit.added? s).map fun entity => ⟨entity, edit.apply s, edits⟩).toList ++
      additions (edit.apply s) edits

variable {s : Store α} {h : Handle}

/-- An operation adds an entity in the next slot, or it leaves the number of slots as it is. -/
theorem Indexed.added?_cases (hs : s.Indexed) (edit : Edit α) :
    (edit.added? s = none ∧ (edit.apply s).slots.length = s.slots.length) ∨
    ∃ entity, edit.added? s = some entity ∧
      s.add entity = .ok (s.handleAt s.slots.length, edit.apply s) ∧
      (edit.apply s).slots.length = s.slots.length + 1 := by
  cases edit with
  | add entity =>
    cases hcontains : s.contains (Named.name entity) with
    | true =>
      have hrefused := Store.add_eq_error_iff.mpr ⟨hcontains, rfl⟩
      exact .inl ⟨if_pos hcontains, by simp only [Edit.apply, hrefused]⟩
    | false =>
      have hadd := add_eq_ok_iff.mpr ⟨hcontains, rfl, rfl⟩
      refine .inr ⟨entity, if_neg (by simp [hcontains]), ?_, ?_⟩
      · simp only [Edit.apply, hadd]
      · simp only [Edit.apply, hadd]
        exact List.length_append
  | remove name =>
    refine .inl ⟨rfl, ?_⟩
    simp only [Edit.apply]
    split
    · next hremove =>
      obtain ⟨-, -, rfl⟩ := hs.remove?_eq_some_iff.mp hremove
      exact List.length_set
    · rfl
  | rename handle name =>
    refine .inl ⟨rfl, ?_⟩
    simp only [Edit.apply]
    split
    · next hrename =>
      obtain ⟨-, _, -, rfl⟩ := rename_eq_ok_iff.mp hrename
      exact List.length_set
    · rfl
  | modify name change =>
    refine .inl ⟨rfl, ?_⟩
    simp only [Edit.apply]
    cases hmodify : s.modify? name change.apply with
    | none => rfl
    | some t =>
      obtain ⟨_, _, -, -, rfl⟩ := hs.modify?_eq_some_iff.mp hmodify
      exact List.length_set
  | modifyAt handle change =>
    refine .inl ⟨rfl, ?_⟩
    simp only [Edit.apply]
    cases hmodify : s.modifyAt? handle change.apply with
    | none => rfl
    | some t =>
      obtain ⟨_, -, rfl⟩ := modifyAt?_eq_some_iff.mp hmodify
      exact List.length_set
  | modifyAll change => exact .inl ⟨rfl, List.length_map _⟩

theorem additions_cons_of_none {edit : Edit α} (hnone : edit.added? s = none)
    (edits : List (Edit α)) : s.additions (edit :: edits) = (edit.apply s).additions edits := by
  rw [additions, hnone]
  rfl

theorem additions_cons_of_some {edit : Edit α} {entity : α} (hsome : edit.added? s = some entity)
    (edits : List (Edit α)) : s.additions (edit :: edits) =
      ⟨entity, edit.apply s, edits⟩ :: (edit.apply s).additions edits := by
  rw [additions, hsome]
  rfl

theorem Indexed.length_slots_run (hs : s.Indexed) (edits : List (Edit α)) :
    (s.run edits).slots.length = s.slots.length + (s.additions edits).length := by
  induction edits generalizing s with
  | nil => rfl
  | cons edit edits ih =>
    rw [run_cons, ih (edit.indexed_apply hs)]
    rcases hs.added?_cases edit with ⟨hnone, hlength⟩ | ⟨entity, hsome, -, hlength⟩
    · rw [additions_cons_of_none hnone, hlength]
    · rw [additions_cons_of_some hsome, hlength, List.length_cons]
      omega

omit [Named α] in
theorem resolve?_of_length_le (hlength : s.slots.length ≤ h.slot) : s.resolve? h = none := by
  cases hresolve : s.resolve? h with
  | none => rfl
  | some entity =>
    have hslot := (HasIssued.of_resolve? hresolve).2
    omega

/-- A handle of the `k`-th new slot stands for what is left of the `k`-th addition. -/
theorem Indexed.resolve?_run_of_new (hs : s.Indexed) (hid : h.identity = s.identity) {k : Nat}
    (hslot : h.slot = s.slots.length + k) (edits : List (Edit α)) :
    (s.run edits).resolve? h = ((s.additions edits)[k]?).bind fun addition => addition.left? h := by
  induction edits generalizing s k with
  | nil => exact resolve?_of_length_le (hslot ▸ Nat.le_add_right _ k)
  | cons edit edits ih =>
    have hs' := edit.indexed_apply hs
    have hid' : h.identity = (edit.apply s).identity := hid.trans (hs.fields_apply edit).1.symm
    rw [run_cons]
    rcases hs.added?_cases edit with ⟨hnone, hlength⟩ | ⟨entity, hsome, hadd, hlength⟩
    · rw [additions_cons_of_none hnone]
      exact ih hs' hid' (by omega)
    rw [additions_cons_of_some hsome]
    cases k with
    | zero =>
      -- The slot is the one that the addition takes, so the handle is the one it gives out.
      have hhandle : h = s.handleAt s.slots.length := resolve?_handle_iff.mpr ⟨hid, hslot⟩
      have hresolve : (edit.apply s).resolve? h = some entity := by
        rw [resolve?_of_add hadd, if_pos hhandle]
      rw [hs'.resolve?_run (.of_resolve? hresolve), hresolve]
      rfl
    | succ k => exact ih hs' hid' (by omega)

/-! ## Two copies -/

variable {mine : List (Edit α)} {entity : α} {t : Store α}

/-- What a handle that one copy gives out stands for in the other one: both copies number their
additions alike. -/
theorem Indexed.resolve?_apart (hs : s.Indexed) (hadd : (s.run mine).add entity = .ok (h, t))
    (yours : List (Edit α)) :
    (s.run yours).resolve? h = ((s.additions yours)[(s.additions mine).length]?).bind
      fun addition => addition.left? h := by
  obtain ⟨-, rfl, -⟩ := add_eq_ok_iff.mp hadd
  exact hs.resolve?_run_of_new (hs.identity_run mine) (hs.length_slots_run mine) yours

/-- A store is copied, the two copies are edited apart, and one of them gives out the handle of an
entity that it adds. In the other copy the handle stands for what is left there of the entity that
this copy added after as many others, so for nothing if it added no more than these, or has removed
it. Handles from before stand for their entities in both copies, and this is none of them. -/
theorem handle_in_other_copy {identity : Identity} {shared : List (Edit α)}
    (hs : (Store.empty identity).run shared = s)
    (hadd : (s.run mine).add entity = .ok (h, t)) (yours : List (Edit α)) :
    (∀ found, (s.run yours).resolve? h = some found ↔
      ∃ addition, (s.additions yours)[(s.additions mine).length]? = some addition ∧
        addition.left? h = some found) ∧
    ((s.additions yours).length ≤ (s.additions mine).length →
      (s.run yours).resolve? h = none) ∧
    ∀ old before, s.resolve? old = some before → old ≠ h ∧
      (s.run yours).resolve? old = s.follow old yours (some before) := by
  have hindexed : s.Indexed := hs ▸ (Indexed.empty identity).run shared
  have hvalue := hindexed.resolve?_apart hadd yours
  refine ⟨fun found => ?_, fun hfew => ?_, fun old before hold => ⟨?_, ?_⟩⟩
  · rw [hvalue, Option.bind_eq_some_iff]
  · rw [hvalue, List.getElem?_eq_none hfew]
    rfl
  · rintro rfl
    obtain ⟨-, hnew, -⟩ := add_eq_ok_iff.mp hadd
    have hslot := (HasIssued.of_resolve? hold).2
    have hlength := hindexed.length_slots_run mine
    have hat := (resolve?_handle_iff.mp hnew).2
    omega
  · rw [hindexed.resolve?_run (.of_resolve? hold), hold]

/-- The handle of `a`, which one copy adds beside the shared `start`, stands for `b` in a copy that
adds `b`, and for nothing in one that adds no state or has removed `b`. -/
theorem handle_in_copies_of_sample : ∃ s t : Store State,
    (Store.empty 0).run [.add (State.new "start")] = s ∧
    s.add (State.new "a") = .ok (⟨0, 1⟩, t) ∧
    (s.run [.add (State.new "b")]).resolve? ⟨0, 1⟩ = some (State.new "b") ∧
    (s.run [.remove "start"]).resolve? ⟨0, 1⟩ = none ∧
    (s.run [.add (State.new "b"), .remove "b"]).resolve? ⟨0, 1⟩ = none := by
  let s : Store State := (Store.empty 0).run [.add (State.new "start")]
  let t : Store State := ⟨0, s.slots ++ [some (State.new "a")], s.index.insert "a" 1⟩
  have hadd : (s.run []).add (State.new "a") = .ok (⟨0, 1⟩, t) := rfl
  obtain ⟨hfound, -⟩ := handle_in_other_copy rfl hadd [.add (State.new "b")]
  obtain ⟨-, hfew, -⟩ := handle_in_other_copy rfl hadd [.remove "start"]
  obtain ⟨hgone, -⟩ := handle_in_other_copy rfl hadd [.add (State.new "b"), .remove "b"]
  refine ⟨s, t, rfl, hadd, (hfound _).mpr ⟨_, rfl, rfl⟩, hfew (Nat.le_refl 0), ?_⟩
  rw [Option.eq_none_iff_forall_ne_some]
  rintro found hresolve
  obtain ⟨addition, haddition, hleft⟩ := (hgone found).mp hresolve
  cases haddition
  cases hleft

end Store

/-! ## Machines -/

namespace Simulation

/-- A transition in one copy of a machine leads to a state that was added to another copy. A step
along it reports that exactly if nothing is left, in the copy that runs, of the state that this copy
added after as many others. -/
theorem step_into_other_copy {s : Store State} (hs : s.Indexed) {mine yours : List (Store.Edit State)}
    {state : State} {h : Handle} {t : Store State}
    (hadd : (s.run mine).add state = .ok (h, t)) {x : Simulation} (hrunning : x.status = .running)
    (hstates : x.current.machine.states = s.run yours) {transition : Transition}
    (hread : x.current.state.transitionFor? x.head.read = some transition)
    (hleads : transition.destination = h) :
    x.step = (.error (.danglingDestination x.current.state.name x.current.machine.name), x) ↔
      ∀ addition, (s.additions yours)[(s.additions mine).length]? = some addition →
        addition.left? h = none := by
  have hapart := hs.resolve?_apart hadd yours
  rw [← hstates, ← hleads] at hapart
  rw [← hleads, ← Option.bind_eq_none_iff, ← hapart, ← Machine.stateAt?]
  constructor
  · intro hstep
    obtain ⟨-, taken, htaken, ⟨hnone, -, -⟩ | ⟨destination, -, hsettle⟩⟩ := step_error_cases hstep
    · rw [hread] at htaken
      cases htaken
      exact hnone
    · exact absurd hsettle (settle_ne_dangling _ _ _ _)
  · intro hnone
    simp only [step_of_running hrunning, hread, hnone]

end Simulation

namespace Project

/-- The machine `m` has its start state only. -/
def forked : Project × Identity :=
  [Edit.addMachine "m", .editMachine "m" (.addState "start")].foldl
    (fun built edit => edit.apply built) (Project.new 0, 1)

/-- A copy of `forked` to which the state `b` was added and then a transition along a handle that
another copy gave out. -/
def forkedCopy : Project × Identity :=
  [Edit.editMachine "m" (.addState "b"),
    .editMachine "m" (.editState "start" (.addTransition ⟨1, 1⟩ "x" none .right))].foldl
    (fun built edit => edit.apply built) forked

/-- The handle of a state `a` that was added to one copy stands for `b` in the other one, and a run
of this copy goes from its start state to `b` along it, without any report. -/
theorem copy_runs_to_unrelated_state : ∃ m original copy s t,
    forked.1.machine? "m" = some m ∧ m.addState "a" = .ok (⟨1, 1⟩, original) ∧
    m.stateAt? ⟨1, 1⟩ = none ∧ original.stateAt? ⟨1, 1⟩ = some (State.new "a") ∧
    forkedCopy.1.machine? "m" = some copy ∧ copy.stateAt? ⟨1, 1⟩ = some (State.new "b") ∧
    Simulation.start forkedCopy.1 "m" (.ofText "x" '_') = .ok s ∧
    s.step = (.ok .proceeds, t) ∧ t.current.state = State.new "b" := by
  let s := ((Simulation.start forkedCopy.1 "m" (.ofText "x" '_')).toOption).get rfl
  exact ⟨_, _, _, s, _, rfl, rfl, rfl, rfl, rfl, rfl, rfl, rfl, rfl⟩

end Project

end HierarchicalTuring
