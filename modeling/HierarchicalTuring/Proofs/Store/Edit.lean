import HierarchicalTuring.Proofs.Store.Indexed

/-! # Operations on stores

* `Store.Edit` is any operation that may change a store. One that is refused, or that finds nothing
  to work on, leaves the store as it is. A change in place keeps the name of the entity, so it is a
  `Store.InPlace`. `Store.run` applies operations one after the other.
* `add_eq_ok_iff`, `Indexed.remove?_eq_some_iff`, `rename_eq_ok_iff`, `Indexed.modify?_eq_some_iff`
  and `modifyAt?_eq_some_iff` say when an operation goes well and what it leaves, and
  `resolve?_of_add`, `resolve?_of_remove`, `resolve?_of_rename`, `resolve?_put` and
  `resolve?_mapEntities` what every handle stands for afterwards.
* Operations keep the index right (`Indexed.run`).
-/

set_option autoImplicit false

namespace HierarchicalTuring

namespace Store

variable {α : Type}

/-! ## What handles stand for after an operation -/

section Resolving

variable {s t : Store α} {h : Handle} {entity : α}

theorem resolve?_handle_iff {slot : Nat} : h = s.handleAt slot ↔
    h.identity = s.identity ∧ h.slot = slot := by
  cases h
  simp [handleAt]

/-- A handle of this identity stands for what is in its slot. -/
theorem resolve?_eq_slot? (hid : h.identity = s.identity) : s.resolve? h = s.slot? h.slot := by
  unfold resolve? issued
  rw [if_pos (decide_eq_true hid)]

theorem resolve?_of_set {slot : Nat} (hslot : slot < s.slots.length) (contents : Option α)
    (index : Index String) (handle : Handle) :
    resolve? ⟨s.identity, s.slots.set slot contents, index⟩ handle =
      if handle = s.handleAt slot then contents else s.resolve? handle := by
  have hset := slot?_set hslot contents index handle.slot
  by_cases hid : handle.identity = s.identity
  · rw [resolve?_eq_slot? (by exact hid), hset, resolve?_eq_slot? hid]
    exact if_congr (by rw [resolve?_handle_iff, and_iff_right hid]) rfl rfl
  · have hne : handle ≠ s.handleAt slot := fun heq => hid (resolve?_handle_iff.mp heq).1
    rw [if_neg hne, resolve?_of_identity_ne hid, resolve?_of_identity_ne (by exact hid)]

theorem resolve?_put {slot : Nat} (hslot : slot < s.slots.length) (changed : α)
    (handle : Handle) : (s.put slot changed).resolve? handle =
      if handle = s.handleAt slot then some changed else s.resolve? handle :=
  resolve?_of_set hslot (some changed) s.index handle

theorem resolve?_put_of_ne (hresolve : s.resolve? h = some entity) (changed : α) {handle : Handle}
    (hne : handle ≠ h) : (s.put h.slot changed).resolve? handle = s.resolve? handle := by
  obtain ⟨hhandle, hslot⟩ := resolve?_eq_some_iff.mp hresolve
  rw [resolve?_put (slot?_lt hslot), ← hhandle, if_neg hne]

theorem resolve?_mapEntities (s : Store α) (change : α → α) (handle : Handle) :
    (s.mapEntities change).resolve? handle = (s.resolve? handle).map change := by
  by_cases hid : handle.identity = s.identity
  · rw [resolve?_eq_slot? (by exact hid), resolve?_eq_slot? hid, slot?_mapEntities]
  · rw [resolve?_of_identity_ne hid, resolve?_of_identity_ne (by exact hid)]
    rfl

theorem modifyAt?_eq_some_iff {change : α → α} : s.modifyAt? h change = some t ↔
    ∃ found, s.resolve? h = some found ∧ t = s.put h.slot (change found) := by
  simp only [modifyAt?, bind, Option.bind_eq_some_iff, pure, Option.some.injEq]
  exact exists_congr fun found => and_congr_right fun _ => eq_comm

variable [Named α]

theorem add_eq_ok_iff : s.add entity = .ok (h, t) ↔ s.contains (Named.name entity) = false ∧
    h = s.handleAt s.slots.length ∧
    t = ⟨s.identity, s.slots ++ [some entity],
      s.index.insert (Named.name entity) s.slots.length⟩ := by
  unfold add
  split
  · next hcontains => simp [hcontains]
  · next hfree =>
    rw [Bool.not_eq_true] at hfree
    simp only [Except.ok.injEq, Prod.mk.injEq, hfree, true_and]
    exact and_congr eq_comm eq_comm

theorem resolve?_of_add (hadd : s.add entity = .ok (h, t)) (handle : Handle) :
    t.resolve? handle = if handle = h then some entity else s.resolve? handle := by
  have hslot := slot?_add hadd handle.slot
  obtain ⟨-, rfl, rfl⟩ := add_eq_ok_iff.mp hadd
  by_cases hid : handle.identity = s.identity
  · rw [resolve?_eq_slot? (by exact hid), hslot, resolve?_eq_slot? hid]
    exact if_congr (by rw [resolve?_handle_iff, and_iff_right hid]) rfl rfl
  · have hne : handle ≠ s.handleAt s.slots.length := fun heq => hid (resolve?_handle_iff.mp heq).1
    rw [if_neg hne, resolve?_of_identity_ne hid, resolve?_of_identity_ne (by exact hid)]

theorem Indexed.remove?_eq_some_iff (hs : s.Indexed) {name : String} :
    s.remove? name = some (h, entity, t) ↔ s.resolve? h = some entity ∧ Named.name entity = name ∧
      t = ⟨s.identity, s.slots.set h.slot none, s.index.erase name⟩ := by
  simp only [remove?, bind, Option.bind_eq_some_iff, pure, Option.some.injEq, Prod.mk.injEq]
  constructor
  · rintro ⟨slot, hfind, found, hslot, rfl, rfl, rfl⟩
    obtain ⟨_, hfound, hname⟩ := (hs.find?_eq_some_iff name slot).mp hfind
    rw [hslot] at hfound
    cases hfound
    exact ⟨(s.resolve?_handleAt slot).trans hslot, hname, rfl⟩
  · rintro ⟨hresolve, hname, rfl⟩
    obtain ⟨hhandle, hslot⟩ := resolve?_eq_some_iff.mp hresolve
    exact ⟨h.slot, (hs.find?_eq_some_iff name h.slot).mpr ⟨entity, hslot, hname⟩, entity, hslot,
      hhandle.symm, rfl, rfl⟩

theorem resolve?_of_remove (hs : s.Indexed) {name : String}
    (hremove : s.remove? name = some (h, entity, t)) (handle : Handle) :
    t.resolve? handle = if handle = h then none else s.resolve? handle := by
  obtain ⟨hresolve, -, rfl⟩ := hs.remove?_eq_some_iff.mp hremove
  obtain ⟨hhandle, hslot⟩ := resolve?_eq_some_iff.mp hresolve
  have hset := resolve?_of_set (slot?_lt hslot) none (s.index.erase name) handle
  rw [← hhandle] at hset
  exact hset

theorem rename_eq_ok_iff {name : String} : s.rename h name = .ok t ↔ s.contains name = false ∧
    ∃ entity, s.resolve? h = some entity ∧
      t = ⟨s.identity, s.slots.set h.slot (some (Named.withName entity name)),
        (s.index.erase (Named.name entity)).insert name h.slot⟩ := by
  unfold rename
  split
  · next hcontains => simp [hcontains]
  · next hfree =>
    rw [Bool.not_eq_true] at hfree
    cases hresolve : s.resolve? h with
    | none => simp
    | some entity => simp [hfree, eq_comm]

theorem resolve?_of_rename {name : String} (hrename : s.rename h name = .ok t) (handle : Handle) :
    t.resolve? handle = if handle = h then (s.resolve? h).map (Named.withName · name)
      else s.resolve? handle := by
  obtain ⟨-, entity, hresolve, rfl⟩ := rename_eq_ok_iff.mp hrename
  obtain ⟨hhandle, hslot⟩ := resolve?_eq_some_iff.mp hresolve
  have hset := resolve?_of_set (slot?_lt hslot) (some (Named.withName entity name))
    ((s.index.erase (Named.name entity)).insert name h.slot) handle
  rw [← hhandle] at hset
  rw [hset, hresolve]
  rfl

/-- The old name is free after a renaming, and the new one is the entity's. -/
theorem Indexed.get?_of_rename (hs : s.Indexed) {name : String} (hrename : s.rename h name = .ok t)
    (hresolve : s.resolve? h = some entity) (other : String) :
    t.get? other = if other = name then some (Named.withName entity name)
      else if other = Named.name entity then none else s.get? other := by
  obtain ⟨-, found, hfound, rfl⟩ := rename_eq_ok_iff.mp hrename
  rw [hresolve] at hfound
  cases hfound
  have hslot := (resolve?_eq_some_iff.mp hresolve).2
  have hset := slot?_set (slot?_lt hslot) (some (Named.withName entity name))
    ((s.index.erase (Named.name entity)).insert name h.slot)
  unfold get?
  rw [Index.find?_insert, Index.find?_erase]
  split
  · rw [Option.bind_some, hset, if_pos rfl]
  next hother =>
  split
  · rfl
  next hne =>
  refine Option.bind_congr fun slot hfind => ?_
  rw [hset, if_neg]
  rintro rfl
  obtain ⟨found, hfound, hname⟩ := (hs.find?_eq_some_iff other h.slot).mp hfind
  rw [hslot] at hfound
  cases hfound
  exact hne hname.symm

theorem Indexed.modify?_eq_some_iff (hs : s.Indexed) {name : String} {change : α → α} :
    s.modify? name change = some t ↔ ∃ handle found, s.resolve? handle = some found ∧
      Named.name found = name ∧ t = s.put handle.slot (change found) := by
  simp only [modify?, bind, Option.bind_eq_some_iff, pure, Option.some.injEq]
  constructor
  · rintro ⟨slot, hfind, found, hslot, rfl⟩
    obtain ⟨_, hfound, hname⟩ := (hs.find?_eq_some_iff name slot).mp hfind
    rw [hslot] at hfound
    cases hfound
    exact ⟨s.handleAt slot, found, (s.resolve?_handleAt slot).trans hslot, hname, rfl⟩
  · rintro ⟨handle, found, hresolve, hname, rfl⟩
    obtain ⟨-, hslot⟩ := resolve?_eq_some_iff.mp hresolve
    exact ⟨handle.slot, (hs.find?_eq_some_iff name handle.slot).mpr ⟨found, hslot, hname⟩, found,
      hslot, rfl⟩

theorem Indexed.contains_iff_resolve? (hs : s.Indexed) {name : String} :
    s.contains name = true ↔ ∃ handle found, s.resolve? handle = some found ∧
      Named.name found = name := by
  rw [hs.contains_eq_true_iff]
  constructor
  · rintro ⟨found, hlive, hname⟩
    obtain ⟨slot, hslot⟩ := mem_live.mp hlive
    exact ⟨s.handleAt slot, found, (s.resolve?_handleAt slot).trans hslot, hname⟩
  · rintro ⟨handle, found, hresolve, hname⟩
    exact ⟨found, mem_live_of_resolve? hresolve, hname⟩

theorem Indexed.handle_eq_of_name_eq (hs : s.Indexed) {handle handle' : Handle} {other : α}
    (hresolve : s.resolve? handle = some entity) (hresolve' : s.resolve? handle' = some other)
    (hname : Named.name entity = Named.name other) : handle = handle' := by
  obtain ⟨hhandle, hslot⟩ := resolve?_eq_some_iff.mp hresolve
  obtain ⟨hhandle', hslot'⟩ := resolve?_eq_some_iff.mp hresolve'
  rw [hhandle, hhandle', hs.slot_eq_of_name_eq hslot hslot' hname]

end Resolving

/-! ## Operations -/

variable [Named α]

/-- A change of an entity that keeps its name. -/
structure InPlace (α : Type) [Named α] where
  apply : α → α
  name_apply : ∀ entity, Named.name (apply entity) = Named.name entity

/-- An operation that may change a store. To treat the entities one by one, each in a way of its
own, is to change one after the other by its handle. -/
inductive Edit (α : Type) [Named α] where
  | add (entity : α)
  | remove (name : String)
  | rename (h : Handle) (name : String)
  | modify (name : String) (change : InPlace α)
  | modifyAt (h : Handle) (change : InPlace α)
  | modifyAll (change : InPlace α)

/-- The store after an operation. -/
def Edit.apply : Edit α → Store α → Store α
  | add entity, s =>
    match s.add entity with
    | .ok (_, t) => t
    | .error _ => s
  | remove name, s =>
    match s.remove? name with
    | some (_, _, t) => t
    | none => s
  | rename h name, s =>
    match s.rename h name with
    | .ok t => t
    | .error _ => s
  | modify name change, s => (s.modify? name change.apply).getD s
  | modifyAt h change, s => (s.modifyAt? h change.apply).getD s
  | modifyAll change, s => s.mapEntities change.apply

/-- The store after some operations. -/
def run (s : Store α) (edits : List (Edit α)) : Store α :=
  edits.foldl (fun s edit => edit.apply s) s

@[simp] theorem run_nil (s : Store α) : s.run [] = s := rfl

theorem run_cons (s : Store α) (edit : Edit α) (edits : List (Edit α)) :
    s.run (edit :: edits) = (edit.apply s).run edits := rfl

theorem run_append (s : Store α) (edits edits' : List (Edit α)) :
    s.run (edits ++ edits') = (s.run edits).run edits' :=
  List.foldl_append

theorem Indexed.empty (identity : Identity) : (Store.empty identity : Store α).Indexed :=
  (Sound.empty (P := fun _ => True) identity).indexed

theorem Edit.indexed_apply (edit : Edit α) {s : Store α} (hs : s.Indexed) :
    (edit.apply s).Indexed := by
  have hsound : s.Sound fun _ => True := ⟨hs, fun _ _ => trivial⟩
  cases edit with
  | add entity =>
    simp only [apply]
    split
    · next hadd => exact (hsound.add trivial hadd).indexed
    · exact hs
  | remove name =>
    simp only [apply]
    split
    · next hremove => exact (hsound.remove hremove).indexed
    · exact hs
  | rename h name =>
    simp only [apply]
    split
    · next hrename => exact (hsound.rename (fun _ _ _ => trivial) hrename).indexed
    · exact hs
  | modify name change =>
    simp only [apply]
    cases hmodify : s.modify? name change.apply with
    | none => exact hs
    | some t => exact (hsound.modify change.name_apply (fun _ _ => trivial) hmodify).indexed
  | modifyAt h change =>
    simp only [apply]
    cases hmodify : s.modifyAt? h change.apply with
    | none => exact hs
    | some t => exact (hsound.modifyAt change.name_apply (fun _ _ => trivial) hmodify).indexed
  | modifyAll change => exact (hsound.mapEntities change.name_apply fun _ _ => trivial).indexed

theorem Indexed.run {s : Store α} (hs : s.Indexed) (edits : List (Edit α)) :
    (s.run edits).Indexed := by
  induction edits generalizing s with
  | nil => exact hs
  | cons edit edits ih => exact ih (edit.indexed_apply hs)

end Store

end HierarchicalTuring
