import HierarchicalTuring.Proofs.Project.InPlace
import HierarchicalTuring.Proofs.State.Scan
import HierarchicalTuring.Proofs.Store.Edit

/-! # Refused edits

When an edit is refused, why, and that nothing is changed then.

* `Store.AddRefused`, `Store.RenameRefused`, `Store.RenameNamedRefused` and `State.AdditionRefused`
  are the reasons for which the operations on stores and states are refused, `State.Edit.Refused`,
  `Machine.Edit.Refused` and `Project.Edit.Refused` those of every change. All of them are about the
  names that are there and the transitions that are stored, not about an index.
* `Store.RefusesSafely`: adding and renaming in place do what the operations of the store say, are
  refused for these reasons only, and then change nothing.
* `Project.Built.refused_edits_change_nothing`: so does every change of a project, and so does every
  store.
-/

set_option autoImplicit false

namespace HierarchicalTuring

namespace Store

variable {α : Type}

/-! ## Stores -/

section Refused

variable {s : Store α} {result : α → Except ModelError Unit} {change : α → α} {e : ModelError}
  (hchange : ∀ entity, result entity = .error e → change entity = entity)

include hchange

/-- A change that leaves its entity as it was leaves the store as it was. -/
theorem change_in_place_eq_self {place? : Option (Nat × α)}
    (hplace : ∀ place, place? = some place → s.slot? place.1 = some place.2)
    (h : (place?.map Prod.snd).elim (.ok ()) result = .error e) :
    (place?.map fun place => s.put place.1 (change place.2)).getD s = s := by
  cases place? with
  | none => rfl
  | some place =>
    have hsame : change place.2 = place.2 := hchange place.2 h
    show s.put place.1 (change place.2) = s
    rw [hsame, put_self (hplace place rfl)]

theorem getD_modify?_eq_self {name : String}
    (h : (s.get? name).elim (.ok ()) result = .error e) : (s.modify? name change).getD s = s := by
  rw [get?_eq_placeNamed?] at h
  rw [modify?_eq_placeNamed?]
  exact change_in_place_eq_self hchange (fun _ => slot?_of_placeNamed?) h

theorem getD_modifyAt?_eq_self {handle : Handle}
    (h : (s.resolve? handle).elim (.ok ()) result = .error e) :
    (s.modifyAt? handle change).getD s = s := by
  rw [resolve?_eq_placeOf?] at h
  rw [modifyAt?_eq_placeOf?]
  exact change_in_place_eq_self hchange (fun _ => slot?_of_placeOf?) h

end Refused

variable [Named α]

inductive AddRefused (s : Store α) (name : String) : ModelError → Prop
  | nameInUse : name ∈ s.names → AddRefused s name (.nameInUse name)

/-- Why what a handle stands for is not renamed. The new name is looked at first. -/
inductive RenameRefused (s : Store α) (h : Handle) (newName : String) : ModelError → Prop
  | nameInUse : newName ∈ s.names → RenameRefused s h newName (.nameInUse newName)
  | notFound : newName ∉ s.names → s.resolve? h = none →
      RenameRefused s h newName (.notFound h.text)

/-- Why the entity with a name is not renamed. The old name is looked at first. -/
inductive RenameNamedRefused (s : Store α) (name newName : String) : ModelError → Prop
  | notFound : name ∉ s.names → RenameNamedRefused s name newName (.notFound name)
  | nameInUse : name ∈ s.names → newName ∈ s.names →
      RenameNamedRefused s name newName (.nameInUse newName)

namespace Indexed

variable {s : Store α} {name newName : String} {e : ModelError}

theorem contains_iff_mem_names (hs : s.Indexed) : s.contains name = true ↔ name ∈ s.names :=
  (Index.mem_keys_iff s.index name).symm.trans hs.mem_keys_iff

theorem handleOf?_eq_none_iff (hs : s.Indexed) : s.handleOf? name = none ↔ name ∉ s.names := by
  rw [handleOf?, Option.map_eq_none_iff, Index.find?_eq_none_iff, hs.mem_keys_iff]

theorem add_eq_error_iff (hs : s.Indexed) {entity : α} :
    s.add entity = .error e ↔ s.AddRefused (Named.name entity) e := by
  rw [Store.add_eq_error_iff, hs.contains_iff_mem_names]
  constructor
  · rintro ⟨hname, rfl⟩
    exact .nameInUse hname
  · intro h
    cases h with
    | nameInUse hname => exact ⟨hname, rfl⟩

theorem rename_eq_error_iff (hs : s.Indexed) {h : Handle} :
    s.rename h newName = .error e ↔ s.RenameRefused h newName e := by
  unfold rename
  by_cases hname : newName ∈ s.names
  · rw [if_pos (hs.contains_iff_mem_names.mpr hname)]
    constructor
    · intro he
      cases he
      exact .nameInUse hname
    · intro he
      cases he with
      | nameInUse _ => rfl
      | notFound hfree _ => exact absurd hname hfree
  · rw [if_neg (mt hs.contains_iff_mem_names.mp hname)]
    cases hresolve : s.resolve? h with
    | none =>
      constructor
      · intro he
        cases he
        exact .notFound hname hresolve
      · intro he
        cases he with
        | nameInUse hused => exact absurd hused hname
        | notFound _ _ => rfl
    | some entity =>
      constructor
      · intro he
        cases he
      · intro he
        cases he with
        | nameInUse hused => exact absurd hused hname
        | notFound _ hnone => exact absurd (hresolve.symm.trans hnone) (Option.some_ne_none _)

theorem renameNamed_eq_error_iff (hs : s.Indexed) :
    s.renameNamed name newName = .error e ↔ s.RenameNamedRefused name newName e := by
  unfold renameNamed
  cases hhandle : s.handleOf? name with
  | none =>
    have hname : name ∉ s.names := hs.handleOf?_eq_none_iff.mp hhandle
    constructor
    · intro he
      cases he
      exact .notFound hname
    · intro he
      cases he with
      | notFound _ => rfl
      | nameInUse hlive _ => exact absurd hlive hname
  | some h =>
    obtain ⟨entity, hresolve, hentity⟩ := hs.handleOf?_eq_some_iff.mp hhandle
    have hname : name ∈ s.names :=
      List.mem_map.mpr ⟨entity, mem_live_of_resolve? hresolve, hentity⟩
    refine hs.rename_eq_error_iff.trans ⟨fun he => ?_, fun he => ?_⟩
    · cases he with
      | nameInUse hused => exact .nameInUse hname hused
      | notFound _ hnone => exact absurd (hresolve.symm.trans hnone) (Option.some_ne_none _)
    · cases he with
      | notFound hfree => exact absurd hname hfree
      | nameInUse _ hused => exact .nameInUse hused

end Indexed

/-- Adding and renaming come to what the operations say, and change nothing when refused. -/
structure RefusesSafely (s : Store α) : Prop where
  exec_add : ∀ entity, (addInPlace entity).exec s = Procedure.outcome s (s.add entity)
  exec_rename : ∀ h newName, (renameInPlace h newName).exec s =
    Procedure.outcome s ((s.rename h newName).map fun t => ((), t))
  add : ∀ entity, (addInPlace entity).Refuses s (s.AddRefused (Named.name entity))
  rename : ∀ h newName, (renameInPlace h newName).Refuses s (s.RenameRefused h newName)

theorem Indexed.refusesSafely {s : Store α} (hs : s.Indexed) : s.RefusesSafely where
  exec_add := exec_addInPlace s
  exec_rename := exec_renameInPlace s
  add entity :=
    Procedure.refuses_of_outcome (exec_addInPlace s entity) fun _ => hs.add_eq_error_iff
  rename h newName := Procedure.refuses_of_outcome (exec_renameInPlace s h newName) fun _ =>
    map_eq_error_iff.trans hs.rename_eq_error_iff

end Store

theorem elim_ok_eq_error_iff {α : Type} {found : Option α} {result : α → Except ModelError Unit}
    {e : ModelError} :
    found.elim (.ok ()) result = .error e ↔ ∃ a, found = some a ∧ result a = .error e := by
  cases found <;> simp

/-! ## States -/

namespace State

/-- Why a transition is not added. An equal one that is there already is no reason. -/
inductive AdditionRefused (s : State) (t : Transition) : ModelError → Prop
  | emptyInput : t.input = [] → AdditionRefused s t .emptyInput
  | inputInUse {c : Char} : (∀ id, (id, t) ∉ s.transitions) → t.input.find? s.claims = some c →
      AdditionRefused s t (.inputInUse c)

inductive Edit.Refused (s : State) : State.Edit → ModelError → Prop
  | addTransition {destination : Handle} {input : String} {output : Option Char}
      {direction : Direction} {e : ModelError} :
      s.AdditionRefused (.make destination input output direction) e →
      Refused s (.addTransition destination input output direction) e

theorem Indexed.addTransition_eq_error_iff {s : State} (hs : s.Indexed) {t : Transition}
    {e : ModelError} : s.addTransition t = .error e ↔ s.AdditionRefused t e := by
  constructor
  · intro he
    cases e with
    | emptyInput => exact .emptyInput (addTransition_eq_emptyInput_iff.mp he)
    | inputInUse c =>
      obtain ⟨hnew, hclaimed⟩ := hs.addTransition_eq_inputInUse_iff.mp he
      exact .inputInUse hnew hclaimed
    | _ =>
      unfold State.addTransition at he
      repeat' split at he
      all_goals cases he
  · intro he
    cases he with
    | emptyInput hinput => exact addTransition_eq_emptyInput_iff.mpr hinput
    | inputInUse hnew hclaimed =>
      exact hs.addTransition_eq_inputInUse_iff.mpr ⟨hnew, hclaimed⟩

theorem Edit.apply_of_refused {edit : State.Edit} {s : State} {e : ModelError}
    (h : edit.result s = .error e) : edit.apply s = s := by
  cases edit with
  | addTransition destination input output direction =>
    simp only [apply, map_eq_error_iff.mp h]
  | _ => cases h

theorem Edit.result_eq_error_iff {edit : State.Edit} {s : State} (hs : s.Indexed)
    {e : ModelError} : edit.result s = .error e ↔ edit.Refused s e := by
  cases edit with
  | addTransition destination input output direction =>
    refine map_eq_error_iff.trans (hs.addTransition_eq_error_iff.trans ⟨.addTransition, ?_⟩)
    intro h
    cases h with
    | addTransition hadd => exact hadd
  | _ =>
    constructor
    · intro h
      cases h
    · intro h
      cases h

end State

/-! ## Machines -/

namespace Machine

theorem getD_map_states {m : Machine} {states? : Option (Store State)}
    (h : states?.getD m.states = m.states) :
    (states?.bind fun states => some { m with states := states }).getD m = m := by
  cases states? with
  | none => rfl
  | some states => exact congrArg (fun left => { m with states := left }) h

/-- Why a change of a machine is refused. For an edge, the destination is looked at before the
source, and the source before its transitions. -/
inductive Edit.Refused (m : Machine) : Machine.Edit → ModelError → Prop
  | addState {name : String} {e : ModelError} :
      m.states.AddRefused name e → Refused m (.addState name) e
  | renameState {name newName : String} {e : ModelError} :
      m.states.RenameNamedRefused name newName e → Refused m (.renameState name newName) e
  | noDestination {source destination input : String} {output : Option Char}
      {direction : Direction} :
      destination ∉ m.stateNames →
      Refused m (.addTransition source destination input output direction) (.notFound destination)
  | noSource {source destination input : String} {output : Option Char} {direction : Direction} :
      destination ∈ m.stateNames → source ∉ m.stateNames →
      Refused m (.addTransition source destination input output direction) (.notFound source)
  | addTransition {source destination input : String} {output : Option Char}
      {direction : Direction} {h : Handle} {target state : State} {e : ModelError} :
      m.stateAt? h = some target → target.name = destination →
      state ∈ m.states.live → state.name = source →
      state.AdditionRefused (.make h input output direction) e →
      Refused m (.addTransition source destination input output direction) e
  | editState {name : String} {edit : State.Edit} {state : State} {e : ModelError} :
      state ∈ m.states.live → state.name = name → edit.Refused state e →
      Refused m (.editState name edit) e
  | editStateAt {h : Handle} {edit : State.Edit} {state : State} {e : ModelError} :
      m.stateAt? h = some state → edit.Refused state e → Refused m (.editStateAt h edit) e

variable {m : Machine} {e : ModelError}

theorem mem_stateNames {name : String} :
    name ∈ m.stateNames ↔ ∃ state ∈ m.states.live, state.name = name :=
  List.mem_map

theorem WellFormed.addTransition_eq_error_iff (hm : m.WellFormed)
    {source destination input : String} {output : Option Char} {direction : Direction} :
    m.addTransition source destination input output direction = .error e ↔
      Edit.Refused m (.addTransition source destination input output direction) e := by
  unfold Machine.addTransition
  cases hhandle : m.stateHandle? destination with
  | none =>
    have hdestination : destination ∉ m.stateNames := hm.indexed.handleOf?_eq_none_iff.mp hhandle
    constructor
    · intro he
      cases he
      exact .noDestination hdestination
    · intro he
      cases he with
      | noDestination _ => rfl
      | noSource hlive _ => exact absurd hlive hdestination
      | addTransition htarget hname _ _ _ =>
        exact absurd (mem_stateNames.mpr ⟨_, mem_live_of_stateAt? htarget, hname⟩) hdestination
  | some h =>
    obtain ⟨target, htarget, hname⟩ := hm.stateHandle?_eq_some_iff.mp hhandle
    have hdestination : destination ∈ m.stateNames :=
      mem_stateNames.mpr ⟨target, mem_live_of_stateAt? htarget, hname⟩
    cases hstate : m.state? source with
    | none =>
      have hsource : source ∉ m.stateNames := by
        rw [mem_stateNames]
        rintro ⟨state, hlive, hstatename⟩
        rw [hm.state?_eq_some_iff.mpr ⟨hlive, hstatename⟩] at hstate
        cases hstate
      constructor
      · intro he
        cases he
        exact .noSource hdestination hsource
      · intro he
        cases he with
        | noDestination hmissing => exact absurd hdestination hmissing
        | noSource _ _ => rfl
        | addTransition _ _ hlive hstatename _ =>
          exact absurd (mem_stateNames.mpr ⟨_, hlive, hstatename⟩) hsource
    | some state =>
      obtain ⟨hlive, hstatename⟩ := hm.state?_eq_some_iff.mp hstate
      have hadd := (hm.live state hlive).addTransition_eq_error_iff
        (t := .make h input output direction) (e := e)
      constructor
      · intro he
        refine .addTransition htarget hname hlive hstatename (hadd.mp ?_)
        exact map_eq_error_iff.mp he
      · intro he
        cases he with
        | noDestination hmissing => exact absurd hdestination hmissing
        | noSource _ hmissing =>
          exact absurd (mem_stateNames.mpr ⟨state, hlive, hstatename⟩) hmissing
        -- Names are distinct, so the handle and the source are the ones that were found.
        | addTransition htarget' hname' hlive' hstatename' hrefused =>
          have hh := hm.stateHandle?_eq_some_iff.mpr ⟨_, htarget', hname'⟩
          have hs := hm.state?_eq_some_iff.mpr ⟨hlive', hstatename'⟩
          rw [hhandle] at hh
          rw [hstate] at hs
          cases hh
          cases hs
          exact map_eq_error_iff.mpr (hadd.mpr hrefused)

theorem Edit.apply_of_refused {edit : Machine.Edit} (h : edit.result m = .error e) :
    edit.apply m = m := by
  cases edit with
  | addState name => simp only [apply, map_eq_error_iff.mp h]
  | renameState name newName => simp only [apply, map_eq_error_iff.mp h]
  | addTransition source destination input output direction =>
    simp only [apply, map_eq_error_iff.mp h]
  | removeState name => cases h
  | editState name edit =>
    exact getD_map_states (Store.getD_modify?_eq_self (fun _ => edit.apply_of_refused) h)
  | editStateAt handle edit =>
    exact getD_map_states (Store.getD_modifyAt?_eq_self (fun _ => edit.apply_of_refused) h)

theorem Edit.result_eq_error_iff {edit : Machine.Edit} (hm : m.WellFormed) :
    edit.result m = .error e ↔ edit.Refused m e := by
  cases edit with
  | addState name =>
    rw [result, addState_eq_add, map_eq_error_iff, map_eq_error_iff, hm.indexed.add_eq_error_iff]
    refine ⟨.addState, fun h => ?_⟩
    cases h with
    | addState hrefused => exact hrefused
  | renameState name newName =>
    rw [result, renameState_eq_renameNamed, map_eq_error_iff, map_eq_error_iff,
      hm.indexed.renameNamed_eq_error_iff]
    refine ⟨.renameState, fun h => ?_⟩
    cases h with
    | renameState hrefused => exact hrefused
  | addTransition source destination input output direction =>
    exact map_eq_error_iff.trans hm.addTransition_eq_error_iff
  | removeState name =>
    constructor
    · intro h
      cases h
    · intro h
      cases h
  | editState name edit =>
    rw [result, elim_ok_eq_error_iff]
    constructor
    · rintro ⟨state, hstate, hresult⟩
      obtain ⟨hlive, hname⟩ := hm.state?_eq_some_iff.mp hstate
      exact .editState hlive hname ((edit.result_eq_error_iff (hm.live state hlive)).mp hresult)
    · intro h
      cases h with
      | @editState _ _ state _ hlive hname hrefused =>
        exact ⟨state, hm.state?_eq_some_iff.mpr ⟨hlive, hname⟩,
          (edit.result_eq_error_iff (hm.live state hlive)).mpr hrefused⟩
  | editStateAt handle edit =>
    rw [result, elim_ok_eq_error_iff]
    constructor
    · rintro ⟨state, hstate, hresult⟩
      exact .editStateAt hstate
        ((edit.result_eq_error_iff (hm.indexed_of_stateAt? hstate)).mp hresult)
    · intro h
      cases h with
      | @editStateAt _ _ state _ hstate hrefused =>
        exact ⟨state, hstate,
          (edit.result_eq_error_iff (hm.indexed_of_stateAt? hstate)).mpr hrefused⟩

end Machine

/-! ## Projects -/

namespace Project

inductive Edit.Refused (p : Project) : Project.Edit → ModelError → Prop
  | addMachine {name : String} {e : ModelError} :
      p.machines.AddRefused name e → Refused p (.addMachine name) e
  | renameMachine {name newName : String} {e : ModelError} :
      p.machines.RenameNamedRefused name newName e → Refused p (.renameMachine name newName) e
  | editMachine {name : String} {edit : Machine.Edit} {m : Machine} {e : ModelError} :
      m ∈ p.machines.live → m.name = name → edit.Refused m e → Refused p (.editMachine name edit) e
  | editMachineAt {h : Handle} {edit : Machine.Edit} {m : Machine} {e : ModelError} :
      p.machineAt? h = some m → edit.Refused m e → Refused p (.editMachineAt h edit) e

variable {p : Project} {next : Identity} {e : ModelError}

theorem getD_map_machines {machines? : Option (Store Machine)}
    (h : machines?.getD p.machines = p.machines) :
    (machines?.bind fun machines => some (⟨machines⟩ : Project)).getD p = p := by
  cases machines? with
  | none => rfl
  | some machines => exact congrArg Project.mk h

theorem Edit.apply_of_refused {edit : Project.Edit} (h : edit.result next p = .error e) :
    (edit.apply (p, next)).1 = p := by
  cases edit with
  | addMachine name => simp only [apply, map_eq_error_iff.mp h]
  | renameMachine name newName => simp only [apply, map_eq_error_iff.mp h]
  | removeMachine name => cases h
  | editMachine name edit =>
    exact getD_map_machines (Store.getD_modify?_eq_self (fun _ => edit.apply_of_refused) h)
  | editMachineAt handle edit =>
    exact getD_map_machines (Store.getD_modifyAt?_eq_self (fun _ => edit.apply_of_refused) h)

theorem Edit.result_eq_error_iff {edit : Project.Edit} (hp : p.WellFormed) :
    edit.result next p = .error e ↔ edit.Refused p e := by
  cases edit with
  | addMachine name =>
    rw [result, addMachine_eq_add, map_eq_error_iff, map_eq_error_iff, hp.indexed.add_eq_error_iff]
    refine ⟨.addMachine, fun h => ?_⟩
    cases h with
    | addMachine hrefused => exact hrefused
  | renameMachine name newName =>
    rw [result, renameMachine_eq_renameNamed, map_eq_error_iff, map_eq_error_iff,
      hp.indexed.renameNamed_eq_error_iff]
    refine ⟨.renameMachine, fun h => ?_⟩
    cases h with
    | renameMachine hrefused => exact hrefused
  | removeMachine name =>
    constructor
    · intro h
      cases h
    · intro h
      cases h
  | editMachine name edit =>
    rw [result, elim_ok_eq_error_iff]
    constructor
    · rintro ⟨m, hm, hresult⟩
      obtain ⟨hlive, hname⟩ := hp.machine?_eq_some_iff.mp hm
      exact .editMachine hlive hname ((edit.result_eq_error_iff (hp.live m hlive)).mp hresult)
    · intro h
      cases h with
      | @editMachine _ _ m _ hlive hname hrefused =>
        exact ⟨m, hp.machine?_eq_some_iff.mpr ⟨hlive, hname⟩,
          (edit.result_eq_error_iff (hp.live m hlive)).mpr hrefused⟩
  | editMachineAt handle edit =>
    rw [result, elim_ok_eq_error_iff]
    constructor
    · rintro ⟨m, hm, hresult⟩
      have hwf := hp.live m (Store.mem_live_of_resolve? hm)
      exact .editMachineAt hm ((edit.result_eq_error_iff hwf).mp hresult)
    · intro h
      cases h with
      | @editMachineAt _ _ m _ hm hrefused =>
        have hwf := hp.live m (Store.mem_live_of_resolve? hm)
        exact ⟨m, hm, (edit.result_eq_error_iff hwf).mpr hrefused⟩

/-- A change of a project that can be built does in place what the operations on values say. It is
refused exactly for its reasons, and then everything is as before. So are adding and renaming in
each of its stores, and in any other store. -/
theorem Built.refused_edits_change_nothing (hp : p.Built next) :
    (∀ edit : Project.Edit,
      (edit.perform next).exec p = (edit.result next p, (edit.apply (p, next)).1) ∧
      (edit.perform next).Refuses p (edit.Refused p)) ∧
    p.machines.RefusesSafely ∧ (∀ m ∈ p.machines.live, m.states.RefusesSafely) ∧
    ∀ {α : Type} [Named α] (identity : Identity) (edits : List (Store.Edit α)),
      ((Store.empty identity).run edits).RefusesSafely := by
  have hwf : p.WellFormed := hp.wellFormed
  refine ⟨fun edit => ⟨edit.exec_perform next p, ?_⟩, hwf.indexed.refusesSafely, ?_, ?_⟩
  · exact Procedure.refuses_of_exec (edit.exec_perform next p) (fun _ => edit.apply_of_refused)
      fun _ => edit.result_eq_error_iff hwf
  · intro m hm
    exact Store.Indexed.refusesSafely (hwf.live m hm).indexed
  · intro α _ identity edits
    exact (Store.Indexed.run (Store.Indexed.empty identity) edits).refusesSafely

/-- The `+` could be read, but the `1` is read already. Neither end of the second edge is there, and
the destination is missed first. A machine's own name is in use. -/
theorem refused_edits_of_sample : sample.1.Built sample.2 ∧
    ((Edit.editMachine "main" (.addTransition "start" "done" "+1" none .left)).perform
      sample.2).exec sample.1 = (.error (.inputInUse '1'), sample.1) ∧
    ((Edit.editMachine "main" (.addTransition "gone" "lost" "" none .left)).perform
      sample.2).exec sample.1 = (.error (.notFound "lost"), sample.1) ∧
    ((Edit.renameMachine "pair" "pair").perform sample.2).exec sample.1 =
      (.error (.nameInUse "pair"), sample.1) := by
  obtain ⟨hedits, -⟩ := built_sample.refused_edits_change_nothing
  have hrefused : ∀ (edit : Edit) (e : ModelError), edit.result sample.2 sample.1 = .error e →
      (edit.perform sample.2).exec sample.1 = (.error e, sample.1) := by
    intro edit e hresult
    obtain ⟨hexec, hrefuses⟩ := hedits edit
    have herror : ((edit.perform sample.2).exec sample.1).1 = .error e := by
      rw [hexec, hresult]
    exact Prod.ext herror (hrefuses.unchanged e herror)
  exact ⟨built_sample, hrefused _ _ (by decide), hrefused _ _ (by decide),
    hrefused _ _ (by decide)⟩

end Project

end HierarchicalTuring
