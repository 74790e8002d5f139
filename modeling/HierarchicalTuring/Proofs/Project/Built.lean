import HierarchicalTuring.Proofs.Document.Building

/-! # Projects that can be built

* `State.Edit`, `Machine.Edit` and `Project.Edit` are the changes that can be made to a project, an
  edited part given by its name or by a handle. A change that is refused, or that has nothing to
  work on, leaves everything as it was. A transition may be made with any handle.
* `Project.Built next p`: changes made to an empty project, or to one that documents describe, lead
  to `p`, and the identities from `next` on are free. A copy of a project is the same value, so a
  project built from a copy is built as well.
* `Built.wellFormed`: every index of such a project is right.
-/

set_option autoImplicit false

namespace HierarchicalTuring

/-! ## Changes -/

/-- A change of one state. -/
inductive State.Edit where
  | setAccepting (accepting : Bool)
  | setSubmachine (submachine : Option String)
  | setPosition (position : Position)
  | addTransition (destination : Handle) (input : String) (output : Option Char)
      (direction : Direction)
  | removeTransition (id : TransitionId)

def State.Edit.apply : State.Edit → State → State
  | setAccepting accepting, s => s.setAccepting accepting
  | setSubmachine submachine, s => s.setSubmachine submachine
  | setPosition position, s => s.setPosition position
  | addTransition destination input output direction, s =>
    match s.addTransition (.make destination input output direction) with
    | .ok (_, changed) => changed
    | .error _ => s
  | removeTransition id, s => s.withoutTransition id

/-- A change of one machine. -/
inductive Machine.Edit where
  | addState (name : String)
  | renameState (name newName : String)
  | removeState (name : String)
  | addTransition (source destination input : String) (output : Option Char)
      (direction : Direction)
  | editState (name : String) (edit : State.Edit)
  | editStateAt (h : Handle) (edit : State.Edit)

def Machine.Edit.apply : Machine.Edit → Machine → Machine
  | addState name, m =>
    match m.addState name with
    | .ok (_, changed) => changed
    | .error _ => m
  | renameState name newName, m =>
    match m.renameState name newName with
    | .ok changed => changed
    | .error _ => m
  | removeState name, m =>
    match m.removeState? name with
    | some (_, changed) => changed
    | none => m
  | addTransition source destination input output direction, m =>
    match m.addTransition source destination input output direction with
    | .ok (_, changed) => changed
    | .error _ => m
  | editState name edit, m => (m.modifyState? name edit.apply).getD m
  | editStateAt h edit, m => (m.modifyStateAt? h edit.apply).getD m

/-- A change of a project. -/
inductive Project.Edit where
  | addMachine (name : String)
  | renameMachine (name newName : String)
  | removeMachine (name : String)
  | editMachine (name : String) (edit : Machine.Edit)
  | editMachineAt (h : Handle) (edit : Machine.Edit)

/-- The project after a change. A machine that is added takes the next free identity, also when its
name is refused. -/
def Project.Edit.apply : Project.Edit → Project × Identity → Project × Identity
  | addMachine name, (p, next) =>
    match p.addMachine next name with
    | .ok (_, changed) => (changed, next + 1)
    | .error _ => (p, next + 1)
  | renameMachine name newName, (p, next) =>
    match p.renameMachine name newName with
    | .ok changed => (changed, next)
    | .error _ => (p, next)
  | removeMachine name, (p, next) =>
    match p.removeMachine? name with
    | some (_, changed) => (changed, next)
    | none => (p, next)
  | editMachine name edit, (p, next) => ((p.modifyMachine? name edit.apply).getD p, next)
  | editMachineAt h edit, (p, next) => ((p.modifyMachineAt? h edit.apply).getD p, next)

/-- The project can be built, and the identities from `next` on are free. -/
inductive Project.Built : Identity → Project → Prop
  | new (identity : Identity) : Built (identity + 1) (Project.new identity)
  | described {next next' : Identity} {documents : ProjectDocument} {p : Project} :
      Project.ofDocuments next documents = .ok (p, next') → Built next' p
  | edited {next : Identity} {p : Project} (edit : Edit) :
      Built next p → Built (edit.apply (p, next)).2 (edit.apply (p, next)).1
  | later {next next' : Identity} {p : Project} : Built next p → next ≤ next' → Built next' p

/-! ## What changes keep -/

theorem State.Edit.name_apply (edit : State.Edit) (s : State) : (edit.apply s).name = s.name := by
  cases edit with
  | addTransition destination input output direction =>
    simp only [apply]
    split
    · next hadd => exact (State.fields_of_addTransition hadd).1
    · rfl
  | removeTransition id => exact State.name_withoutTransition s id
  | _ => rfl

theorem State.Edit.indexed_apply (edit : State.Edit) {s : State} (hs : s.Indexed) :
    (edit.apply s).Indexed := by
  cases edit with
  | addTransition destination input output direction =>
    simp only [apply]
    split
    · next hadd => exact hs.addTransition (Transition.nodup_input_make _ _ _ _) hadd
    · exact hs
  | removeTransition id => exact hs.withoutTransition id
  | _ => exact hs.congr rfl rfl rfl

theorem Machine.Edit.name_apply (edit : Machine.Edit) (m : Machine) :
    (edit.apply m).name = m.name := by
  cases edit with
  | addState name =>
    simp only [apply]
    split
    · next hadd =>
      obtain ⟨⟨_, _⟩, -, hm'⟩ := bind_eq_ok_iff.mp hadd
      cases hm'
      rfl
    · rfl
  | renameState name newName =>
    simp only [apply]
    split
    · next hrename =>
      unfold Machine.renameState at hrename
      split at hrename
      · cases hrename
      · obtain ⟨_, -, hm'⟩ := bind_eq_ok_iff.mp hrename
        cases hm'
        rfl
    · rfl
  | removeState name =>
    simp only [apply]
    split
    · next hremove =>
      simp only [removeState?, bind, Option.bind_eq_some_iff, pure, Option.some.injEq,
        Prod.mk.injEq] at hremove
      obtain ⟨_, -, -, rfl⟩ := hremove
      rfl
    · rfl
  | addTransition source destination input output direction =>
    simp only [apply]
    split
    · next hadd =>
      unfold Machine.addTransition at hadd
      split at hadd
      · cases hadd
      split at hadd
      · cases hadd
      obtain ⟨_, -, hm'⟩ := bind_eq_ok_iff.mp hadd
      cases hm'
      exact Machine.name_getD_modifyState? _ _ _
    · rfl
  | editState name edit => exact Machine.name_getD_modifyState? _ _ _
  | editStateAt h edit =>
    simp only [apply, modifyStateAt?]
    cases m.states.modifyAt? h edit.apply <;> rfl

theorem Machine.Edit.wellFormed_apply (edit : Machine.Edit) {m : Machine} (hm : m.WellFormed) :
    (edit.apply m).WellFormed := by
  cases edit with
  | addState name =>
    simp only [apply]
    split
    · next hadd => exact hm.insertState (State.Indexed.new name) hadd
    · exact hm
  | renameState name newName =>
    simp only [apply]
    split
    · next hrename => exact hm.renameState hrename
    · exact hm
  | removeState name =>
    simp only [apply]
    split
    · next hremove => exact hm.removeState hremove
    · exact hm
  | addTransition source destination input output direction =>
    simp only [apply]
    split
    · next hadd => exact hm.addTransition hadd
    · exact hm
  | editState name edit =>
    simp only [apply]
    cases hmodify : m.modifyState? name edit.apply with
    | none => exact hm
    | some m' => exact hm.modifyState edit.name_apply (fun _ => edit.indexed_apply) hmodify
  | editStateAt h edit =>
    simp only [apply]
    cases hmodify : m.modifyStateAt? h edit.apply with
    | none => exact hm
    | some m' => exact hm.modifyStateAt edit.name_apply (fun _ => edit.indexed_apply) hmodify

theorem Project.Edit.wellFormed_apply (edit : Project.Edit) {p : Project} (next : Identity)
    (hp : p.WellFormed) : (edit.apply (p, next)).1.WellFormed := by
  cases edit with
  | addMachine name =>
    simp only [apply]
    split
    · next hadd => exact hp.insertMachine (Machine.WellFormed.new next name) hadd
    · exact hp
  | renameMachine name newName =>
    simp only [apply]
    split
    · next hrename => exact hp.renameMachine hrename
    · exact hp
  | removeMachine name =>
    simp only [apply]
    split
    · next hremove => exact hp.removeMachine hremove
    · exact hp
  | editMachine name edit =>
    simp only [apply]
    cases hmodify : p.modifyMachine? name edit.apply with
    | none => exact hp
    | some q => exact hp.modifyMachine edit.name_apply (fun _ => edit.wellFormed_apply) hmodify
  | editMachineAt h edit =>
    simp only [apply]
    cases hmodify : p.modifyMachineAt? h edit.apply with
    | none => exact hp
    | some q => exact hp.modifyMachineAt edit.name_apply (fun _ => edit.wellFormed_apply) hmodify

namespace Project.Built

variable {next : Identity} {p : Project}

theorem wellFormed (h : Project.Built next p) : p.WellFormed := by
  induction h with
  | new identity => exact WellFormed.new identity
  | described h => exact (ofDocuments_keeps h).1
  | @edited next p edit _ ih => exact edit.wellFormed_apply next ih
  | later _ _ ih => exact ih

/-- Changes made one after the other. -/
theorem foldl_edit (h : Project.Built next p) (edits : List Edit) :
    Project.Built (edits.foldl (fun built edit => edit.apply built) (p, next)).2
      (edits.foldl (fun built edit => edit.apply built) (p, next)).1 := by
  induction edits generalizing next p with
  | nil => exact h
  | cons edit edits ih => exact ih (h.edited edit)

end Project.Built

/-! ## A project made by changes -/

/-- The machine `main` reads a one and calls `pair`, which reads two more. One of its states was
renamed and another one was removed again. -/
def Project.sample : Project × Identity :=
  [Edit.addMachine "main",
    .editMachine "main" (.addState "spare"),
    .editMachine "main" (.addState "start"),
    .editMachine "main" (.addState "wait"),
    .editMachine "main" (.addState "done"),
    .editMachine "main" (.editState "done" (.setAccepting true)),
    .editMachine "main" (.addTransition "start" "wait" "1" (some '0') .right),
    .editMachine "main" (.addTransition "wait" "done" "+" none .stay),
    .editMachine "main" (.addTransition "start" "spare" "+" none .left),
    .editMachine "main" (.removeState "spare"),
    .editMachine "main" (.renameState "wait" "call"),
    .editMachine "main" (.editState "call" (.setSubmachine (some "pair"))),
    .addMachine "pair",
    .editMachine "pair" (.addState "start"),
    .editMachine "pair" (.addState "second"),
    .editMachine "pair" (.addState "end"),
    .editMachine "pair" (.editState "end" (.setAccepting true)),
    .editMachine "pair" (.addTransition "start" "second" "1" none .right),
    .editMachine "pair" (.addTransition "second" "end" "1" none .right)].foldl
    (fun built edit => edit.apply built) (Project.new 0, 1)

theorem Project.built_sample : Project.sample.1.Built Project.sample.2 :=
  (Built.new 0).foldl_edit _

theorem Project.closed_sample : Project.sample.1.Closed := by
  unfold Project.Closed Machine.Closed
  decide

end HierarchicalTuring
