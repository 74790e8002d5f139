import HierarchicalTuring.Store.Basic
import Mathlib.Data.List.Nodup
import Mathlib.Data.List.Perm.Basic

/-! # Stores whose index is right

* `Store.Indexed`: the index maps a name to a slot exactly when the slot holds an entity of that
  name, and no name is there twice. `Store.Sound P` adds that every entity has the property `P`.
* Every operation keeps a store sound (`Sound.empty`, `Sound.add`, `Sound.remove`, `Sound.rename`,
  `Sound.modify`, `Sound.modifyAt`, `Sound.mapEntities`).
* In such a store a look-up is a search among the entities (`Indexed.get?_eq_some_iff`), names are
  distinct (`Indexed.nodup_names`), and the size is the number of entities (`Indexed.size_eq`).
-/

set_option autoImplicit false

namespace HierarchicalTuring

namespace Index

variable {κ : Type} [DecidableEq κ]

theorem nodup_keys_erase {index : Index κ} (h : index.keys.Nodup) (key : κ) :
    (index.erase key).keys.Nodup :=
  h.sublist (List.filter_sublist.map Prod.fst)

theorem find?_eq_none_iff {index : Index κ} {key : κ} :
    index.find? key = none ↔ key ∉ index.keys := by
  rw [mem_keys_iff, contains, Bool.not_eq_true, Option.isSome_eq_false_iff,
    Option.isNone_iff_eq_none]

theorem nodup_keys_insert {index : Index κ} (h : index.keys.Nodup) (key : κ) (value : Nat) :
    (index.insert key value).keys.Nodup := by
  have hfree : key ∉ (index.erase key).keys := by
    rw [← find?_eq_none_iff, find?_erase, if_pos rfl]
  have hkeys : (index.insert key value).keys = (index.erase key).keys ++ [key] := by
    simp [insert, keys]
  rw [hkeys, List.nodup_append]
  refine ⟨nodup_keys_erase h key, List.nodup_singleton key, ?_⟩
  rintro a ha b hb rfl
  rw [List.mem_singleton] at hb
  exact hfree (hb ▸ ha)

end Index

namespace Store

variable {α : Type}

theorem find?_eq_some_of_unique {l : List α} {p : α → Bool} {a : α} (ha : a ∈ l)
    (hp : p a = true) (hunique : ∀ b ∈ l, p b = true → b = a) : l.find? p = some a := by
  obtain ⟨b, hb⟩ := Option.isSome_iff_exists.mp (List.find?_isSome.mpr ⟨a, ha, hp⟩)
  rw [hb, hunique b (List.mem_of_find?_eq_some hb) (List.find?_some hb)]

/-! ## Slots -/

theorem slot?_eq_some_iff {s : Store α} {slot : Nat} {entity : α} :
    s.slot? slot = some entity ↔ s.slots[slot]? = some (some entity) := by
  unfold slot?
  rcases s.slots[slot]? with _ | _ | other <;> simp

theorem mem_live {s : Store α} {entity : α} :
    entity ∈ s.live ↔ ∃ slot, s.slot? slot = some entity := by
  unfold live
  rw [List.mem_filterMap]
  simp only [slot?_eq_some_iff, id, exists_eq_right, List.mem_iff_getElem?]

theorem slot?_lt {s : Store α} {slot : Nat} {entity : α} (h : s.slot? slot = some entity) :
    slot < s.slots.length :=
  (List.getElem?_eq_some_iff.mp (slot?_eq_some_iff.mp h)).1

/-- What is in the slots after one of them was given other contents. -/
theorem slot?_set {s : Store α} {slot : Nat} (h : slot < s.slots.length) (contents : Option α)
    (index : Index String) (other : Nat) :
    slot? ⟨s.identity, s.slots.set slot contents, index⟩ other =
      if other = slot then contents else s.slot? other := by
  unfold slot?
  by_cases hother : other = slot
  · subst hother
    simp [h]
  · simp [hother, Ne.symm hother]

theorem slot?_put {s : Store α} {slot : Nat} (h : slot < s.slots.length) (entity : α)
    (other : Nat) :
    (s.put slot entity).slot? other = if other = slot then some entity else s.slot? other :=
  slot?_set h (some entity) s.index other

theorem mem_live_put {s : Store α} {slot : Nat} (h : slot < s.slots.length)
    {entity other : α} (hlive : other ∈ (s.put slot entity).live) :
    other = entity ∨ other ∈ s.live := by
  obtain ⟨slot', hslot'⟩ := mem_live.mp hlive
  rw [slot?_put h] at hslot'
  split at hslot'
  · cases hslot'
    exact .inl rfl
  · exact .inr (mem_live.mpr ⟨slot', hslot'⟩)

/-- Replacing an entity changes no handle's resolving. -/
theorem isSome_resolve?_put {s : Store α} {slot : Nat} {entity : α}
    (h : s.slot? slot = some entity) (changed : α) (handle : Handle) :
    ((s.put slot changed).resolve? handle).isSome = (s.resolve? handle).isSome := by
  have hput := slot?_put (slot?_lt h) changed handle.slot
  show (if s.issued handle then (s.put slot changed).slot? handle.slot else none).isSome = _
  unfold resolve?
  rw [hput]
  by_cases hslot : handle.slot = slot
  · rw [if_pos hslot, hslot, h]
    split <;> rfl
  · rw [if_neg hslot]

theorem slot?_mapEntities (s : Store α) (change : α → α) (slot : Nat) :
    (s.mapEntities change).slot? slot = (s.slot? slot).map change := by
  unfold slot? mapEntities
  rw [List.getElem?_map]
  rcases s.slots[slot]? with _ | _ | entity <;> rfl

theorem resolve?_eq_some_iff {s : Store α} {h : Handle} {entity : α} :
    s.resolve? h = some entity ↔ h = s.handleAt h.slot ∧ s.slot? h.slot = some entity := by
  unfold resolve? issued
  by_cases hid : h.identity = s.identity
  · rw [if_pos (by simpa using hid)]
    constructor
    · intro hslot
      exact ⟨by rw [handleAt, ← hid], hslot⟩
    · exact fun hslot => hslot.2
  · rw [if_neg (by simpa using hid)]
    constructor
    · intro hnone
      cases hnone
    · rintro ⟨hh, -⟩
      exact absurd (congrArg Handle.identity hh) hid

theorem mem_live_of_resolve? {s : Store α} {h : Handle} {entity : α}
    (hresolve : s.resolve? h = some entity) : entity ∈ s.live :=
  mem_live.mpr ⟨h.slot, (resolve?_eq_some_iff.mp hresolve).2⟩

/-! ## The index -/

variable [Named α]

/-- Handles stand for entities of the same names after an entity was changed. -/
theorem name_resolve?_put {s : Store α} {slot : Nat} {entity changed : α}
    (h : s.slot? slot = some entity) (hname : Named.name changed = Named.name entity)
    (handle : Handle) :
    ((s.put slot changed).resolve? handle).map Named.name =
      (s.resolve? handle).map Named.name := by
  have hput := slot?_put (slot?_lt h) changed handle.slot
  show (if s.issued handle then (s.put slot changed).slot? handle.slot else none).map _ = _
  unfold resolve?
  rw [hput]
  by_cases hslot : handle.slot = slot
  · rw [if_pos hslot, hslot, h]
    split
    · exact congrArg some hname
    · rfl
  · rw [if_neg hslot]

theorem live_add {s t : Store α} {entity : α} {h : Handle} (hadd : s.add entity = .ok (h, t)) :
    t.live = s.live ++ [entity] := by
  unfold add at hadd
  split at hadd
  · cases hadd
  · cases hadd
    simp [live]

/-- A handle that resolves does so after an addition, to the same entity. -/
theorem resolve?_add {s t : Store α} {entity other : α} {h handle : Handle}
    (hadd : s.add entity = .ok (h, t)) (hother : s.resolve? handle = some other) :
    t.resolve? handle = some other := by
  obtain ⟨hhandle, hslot⟩ := resolve?_eq_some_iff.mp hother
  have hne : handle.slot ≠ s.slots.length := Nat.ne_of_lt (slot?_lt hslot)
  refine resolve?_eq_some_iff.mpr ⟨?_, ?_⟩
  · rw [hhandle]
    unfold add at hadd
    split at hadd
    · cases hadd
    · cases hadd
      rfl
  · rw [slot?_add hadd, if_neg hne]
    exact hslot

/-- The index maps a name to a slot exactly when the slot holds an entity of that name. -/
structure Indexed (s : Store α) : Prop where
  nodup_keys : s.index.keys.Nodup
  find?_eq_some_iff : ∀ name slot, s.index.find? name = some slot ↔
    ∃ entity, s.slot? slot = some entity ∧ Named.name entity = name

namespace Indexed

variable {s : Store α} {name : String} {entity : α}

theorem get?_eq_some_iff (h : s.Indexed) :
    s.get? name = some entity ↔ entity ∈ s.live ∧ Named.name entity = name := by
  unfold get?
  rw [Option.bind_eq_some_iff]
  constructor
  · rintro ⟨slot, hfind, hslot⟩
    obtain ⟨other, hother, hname⟩ := (h.find?_eq_some_iff name slot).mp hfind
    rw [hslot] at hother
    cases hother
    exact ⟨mem_live.mpr ⟨slot, hslot⟩, hname⟩
  · rintro ⟨hlive, hname⟩
    obtain ⟨slot, hslot⟩ := mem_live.mp hlive
    exact ⟨slot, (h.find?_eq_some_iff name slot).mpr ⟨entity, hslot, hname⟩, hslot⟩

theorem slot_eq_of_name_eq (h : s.Indexed) {slot slot' : Nat} {other : α}
    (hslot : s.slot? slot = some entity) (hslot' : s.slot? slot' = some other)
    (hname : Named.name entity = Named.name other) : slot = slot' := by
  have hfind := (h.find?_eq_some_iff _ slot).mpr ⟨entity, hslot, rfl⟩
  have hfind' := (h.find?_eq_some_iff _ slot').mpr ⟨other, hslot', rfl⟩
  rw [hname, hfind'] at hfind
  exact (Option.some.inj hfind).symm

theorem handleOf?_eq_some_iff (h : s.Indexed) {handle : Handle} :
    s.handleOf? name = some handle ↔
      ∃ entity, s.resolve? handle = some entity ∧ Named.name entity = name := by
  unfold handleOf?
  rw [Option.map_eq_some_iff]
  constructor
  · rintro ⟨slot, hfind, rfl⟩
    obtain ⟨entity, hslot, hname⟩ := (h.find?_eq_some_iff name slot).mp hfind
    exact ⟨entity, by rw [resolve?_handleAt]; exact hslot, hname⟩
  · rintro ⟨entity, hresolve, hname⟩
    obtain ⟨hhandle, hslot⟩ := resolve?_eq_some_iff.mp hresolve
    exact ⟨handle.slot, (h.find?_eq_some_iff name handle.slot).mpr ⟨entity, hslot, hname⟩,
      hhandle.symm⟩

theorem contains_eq_true_iff (h : s.Indexed) :
    s.contains name = true ↔ ∃ entity ∈ s.live, Named.name entity = name := by
  unfold contains Index.contains
  rw [Option.isSome_iff_exists]
  constructor
  · rintro ⟨slot, hfind⟩
    obtain ⟨entity, hslot, hname⟩ := (h.find?_eq_some_iff name slot).mp hfind
    exact ⟨entity, mem_live.mpr ⟨slot, hslot⟩, hname⟩
  · rintro ⟨entity, hlive, hname⟩
    obtain ⟨slot, hslot⟩ := mem_live.mp hlive
    exact ⟨slot, (h.find?_eq_some_iff name slot).mpr ⟨entity, hslot, hname⟩⟩

theorem mem_keys_iff (h : s.Indexed) : name ∈ s.index.keys ↔ name ∈ s.names := by
  rw [Index.mem_keys_iff]
  exact h.contains_eq_true_iff.trans (by simp [names])

theorem nodup_names (h : s.Indexed) : s.names.Nodup := by
  unfold names live
  rw [List.Nodup, List.pairwise_map, List.pairwise_filterMap, List.pairwise_iff_getElem]
  intro i j hi hj hij entity hentity other hother hname
  have hslot : s.slot? i = some entity := by
    simpa [slot?, List.getElem?_eq_getElem hi] using hentity
  have hslot' : s.slot? j = some other := by
    simpa [slot?, List.getElem?_eq_getElem hj] using hother
  exact absurd (h.slot_eq_of_name_eq hslot hslot' hname) (Nat.ne_of_lt hij)

/-- Putting an entity of the same name in a slot changes one look-up by name. -/
theorem get?_put (h : s.Indexed) {slot : Nat} (hslot : s.slot? slot = some entity) (changed : α)
    (other : String) :
    (s.put slot changed).get? other =
      if other = Named.name entity then some changed else s.get? other := by
  have hput := slot?_put (slot?_lt hslot) changed
  have hfind := (h.find?_eq_some_iff _ slot).mpr ⟨entity, hslot, rfl⟩
  show (s.index.find? other).bind (s.put slot changed).slot? = _
  by_cases hother : other = Named.name entity
  · rw [if_pos hother, hother, hfind, Option.bind_some, hput, if_pos rfl]
  · rw [if_neg hother]
    show _ = (s.index.find? other).bind s.slot?
    refine Option.bind_congr fun slot' hslot' => ?_
    rw [hput, if_neg]
    rintro rfl
    obtain ⟨found, hfound, hname⟩ := (h.find?_eq_some_iff other slot').mp hslot'
    rw [hslot] at hfound
    cases hfound
    exact hother hname.symm

theorem exists_add (h : s.Indexed) (hfree : Named.name entity ∉ s.names) :
    ∃ handle t, s.add entity = .ok (handle, t) := by
  have hcontains : ¬ s.contains (Named.name entity) = true := by
    rw [h.contains_eq_true_iff]
    exact fun ⟨other, hlive, hname⟩ => hfree (List.mem_map.mpr ⟨other, hlive, hname⟩)
  exact ⟨_, _, if_neg hcontains⟩

theorem size_eq (h : s.Indexed) : s.size = s.live.length := by
  have hperm : s.index.keys.Perm s.names :=
    (List.perm_ext_iff_of_nodup h.nodup_keys h.nodup_names).mpr fun name => h.mem_keys_iff
  have hlength := hperm.length_eq
  simpa [Index.keys, names, size, Index.size] using hlength

end Indexed

/-! ## Stores all of whose entities have a property -/

/-- The index is right, and every entity has a property. -/
structure Sound (P : α → Prop) (s : Store α) : Prop where
  indexed : s.Indexed
  live : ∀ entity ∈ s.live, P entity

namespace Sound

variable {P : α → Prop} {s t : Store α}

theorem empty (identity : Identity) : Sound P (Store.empty identity : Store α) where
  indexed := ⟨List.nodup_nil, by simp [Store.empty, slot?]⟩
  live := by simp [Store.empty, Store.live]

theorem add (hs : s.Sound P) {entity : α} (hentity : P entity) {h : Handle}
    (hadd : s.add entity = .ok (h, t)) : t.Sound P := by
  have hslot := slot?_add hadd
  unfold Store.add at hadd
  split at hadd
  · cases hadd
  next hfree =>
  cases hadd
  have hend : s.slot? s.slots.length = none := by simp [slot?]
  have hnone : s.index.find? (Named.name entity) = none := by
    simpa [contains, Index.contains] using hfree
  refine ⟨⟨Index.nodup_keys_insert hs.indexed.nodup_keys _ _, fun name slot => ?_⟩, ?_⟩
  · rw [Index.find?_insert, hslot]
    by_cases hname : name = Named.name entity
    · subst hname
      rw [if_pos rfl]
      constructor
      · intro heq
        cases heq
        exact ⟨entity, if_pos rfl, rfl⟩
      · rintro ⟨other, hother, hname⟩
        by_cases heq : slot = s.slots.length
        · rw [heq]
        -- An entity of that name in an old slot would have been in the index.
        · rw [if_neg heq] at hother
          rw [(hs.indexed.find?_eq_some_iff _ _).mpr ⟨other, hother, hname⟩] at hnone
          cases hnone
    · rw [if_neg hname, hs.indexed.find?_eq_some_iff]
      by_cases heq : slot = s.slots.length
      · subst heq
        rw [if_pos rfl, hend]
        constructor
        · rintro ⟨other, hother, -⟩
          cases hother
        · rintro ⟨other, hother, rfl⟩
          cases hother
          exact absurd rfl hname
      · rw [if_neg heq]
  · intro other hother
    obtain ⟨slot, hother⟩ := mem_live.mp hother
    rw [hslot] at hother
    split at hother
    · cases hother
      exact hentity
    · exact hs.live other (mem_live.mpr ⟨slot, hother⟩)

theorem remove (hs : s.Sound P) {name : String} {h : Handle} {entity : α}
    (hremove : s.remove? name = some (h, entity, t)) : t.Sound P := by
  simp only [remove?, bind, Option.bind_eq_some_iff, pure, Option.some.injEq,
    Prod.mk.injEq] at hremove
  obtain ⟨slot, hfind, found, hslot, -, -, rfl⟩ := hremove
  have hset := slot?_set (slot?_lt hslot) none (s.index.erase name)
  obtain ⟨_, hfound, hname⟩ := (hs.indexed.find?_eq_some_iff name slot).mp hfind
  rw [hslot] at hfound
  cases hfound
  refine ⟨⟨Index.nodup_keys_erase hs.indexed.nodup_keys name, fun other slot' => ?_⟩, ?_⟩
  · rw [Index.find?_erase, hset]
    by_cases hother : other = name
    · subst hother
      rw [if_pos rfl]
      constructor
      · intro hnone
        cases hnone
      · rintro ⟨entity', hentity', hname'⟩
        split at hentity'
        · cases hentity'
        next hne =>
        exact absurd (hs.indexed.slot_eq_of_name_eq hentity' hslot (hname'.trans hname.symm)) hne
    · rw [if_neg hother, hs.indexed.find?_eq_some_iff]
      by_cases heq : slot' = slot
      · subst heq
        rw [if_pos rfl, hslot]
        constructor
        · rintro ⟨entity', hentity', hname'⟩
          cases hentity'
          exact absurd (hname'.symm.trans hname) hother
        · rintro ⟨entity', hentity', -⟩
          cases hentity'
      · rw [if_neg heq]
  · intro other hother
    obtain ⟨slot', hother⟩ := mem_live.mp hother
    rw [hset] at hother
    split at hother
    · cases hother
    · exact hs.live other (mem_live.mpr ⟨slot', hother⟩)

/-- An entity may be replaced by one of the same name. -/
theorem put (hs : s.Sound P) {slot : Nat} {entity changed : α}
    (hslot : s.slot? slot = some entity) (hname : Named.name changed = Named.name entity)
    (hchanged : P changed) : (s.put slot changed).Sound P := by
  have hput := slot?_put (slot?_lt hslot) changed
  refine ⟨⟨hs.indexed.nodup_keys, fun name slot' => ?_⟩, ?_⟩
  · show s.index.find? name = some slot' ↔ _
    rw [hs.indexed.find?_eq_some_iff, hput]
    by_cases heq : slot' = slot
    · subst heq
      rw [if_pos rfl, hslot]
      simp [hname]
    · rw [if_neg heq]
  · intro other hother
    rcases mem_live_put (slot?_lt hslot) hother with rfl | hold
    · exact hchanged
    · exact hs.live other hold

theorem modify (hs : s.Sound P) {name : String} {change : α → α}
    (hname : ∀ entity, Named.name (change entity) = Named.name entity)
    (hchange : ∀ entity, P entity → P (change entity))
    (hmodify : s.modify? name change = some t) : t.Sound P := by
  simp only [modify?, bind, Option.bind_eq_some_iff, pure, Option.some.injEq] at hmodify
  obtain ⟨slot, -, entity, hslot, rfl⟩ := hmodify
  exact hs.put hslot (hname entity) (hchange entity (hs.live entity (mem_live.mpr ⟨slot, hslot⟩)))

theorem modifyAt (hs : s.Sound P) {h : Handle} {change : α → α}
    (hname : ∀ entity, Named.name (change entity) = Named.name entity)
    (hchange : ∀ entity, P entity → P (change entity))
    (hmodify : s.modifyAt? h change = some t) : t.Sound P := by
  simp only [modifyAt?, bind, Option.bind_eq_some_iff, pure, Option.some.injEq] at hmodify
  obtain ⟨entity, hresolve, rfl⟩ := hmodify
  exact hs.put (resolve?_eq_some_iff.mp hresolve).2 (hname entity)
    (hchange entity (hs.live entity (mem_live_of_resolve? hresolve)))

theorem mapEntities (hs : s.Sound P) {change : α → α}
    (hname : ∀ entity, Named.name (change entity) = Named.name entity)
    (hchange : ∀ entity, P entity → P (change entity)) : (s.mapEntities change).Sound P := by
  refine ⟨⟨hs.indexed.nodup_keys, fun name slot => ?_⟩, ?_⟩
  · show s.index.find? name = some slot ↔ _
    rw [hs.indexed.find?_eq_some_iff, slot?_mapEntities]
    simp [hname]
  · intro other hother
    obtain ⟨slot, hother⟩ := mem_live.mp hother
    rw [slot?_mapEntities, Option.map_eq_some_iff] at hother
    obtain ⟨entity, hslot, rfl⟩ := hother
    exact hchange entity (hs.live entity (mem_live.mpr ⟨slot, hslot⟩))

theorem rename (hs : s.Sound P)
    (hrenamed : ∀ entity name, P entity → P (Named.withName entity name))
    {h : Handle} {name : String} (hrename : s.rename h name = .ok t) : t.Sound P := by
  unfold Store.rename at hrename
  split at hrename
  · cases hrename
  next hfree =>
  split at hrename
  · cases hrename
  next entity hresolve =>
  cases hrename
  have hslot := (resolve?_eq_some_iff.mp hresolve).2
  have hset := slot?_set (slot?_lt hslot) (some (Named.withName entity name))
    ((s.index.erase (Named.name entity)).insert name h.slot)
  have hnone : s.index.find? name = none := by
    simpa [contains, Index.contains] using hfree
  refine ⟨⟨Index.nodup_keys_insert (Index.nodup_keys_erase hs.indexed.nodup_keys _) _ _,
    fun other slot => ?_⟩, ?_⟩
  · rw [Index.find?_insert, Index.find?_erase, hset]
    by_cases heq : slot = h.slot
    · subst heq
      simp only [if_true, Option.some.injEq, exists_eq_left', Named.name_withName]
      by_cases hother : other = name
      · simp [hother]
      · rw [if_neg hother]
        constructor
        · intro hfind
          split at hfind
          · cases hfind
          next hne =>
          obtain ⟨found, hfound, hname⟩ := (hs.indexed.find?_eq_some_iff other h.slot).mp hfind
          rw [hslot] at hfound
          cases hfound
          exact absurd hname.symm hne
        · exact fun hname => absurd hname.symm hother
    · rw [if_neg heq, ← hs.indexed.find?_eq_some_iff]
      by_cases hother : other = name
      · subst hother
        rw [if_pos rfl, hnone]
        simp [Ne.symm heq]
      · rw [if_neg hother]
        split
        · next hold =>
          have hfind := (hs.indexed.find?_eq_some_iff _ h.slot).mpr ⟨entity, hslot, rfl⟩
          rw [hold, hfind]
          simp [Ne.symm heq]
        · rfl
  · intro other hother
    obtain ⟨slot, hother⟩ := mem_live.mp hother
    rw [hset] at hother
    split at hother
    · cases hother
      exact hrenamed entity name (hs.live entity (mem_live.mpr ⟨h.slot, hslot⟩))
    · exact hs.live other (mem_live.mpr ⟨slot, hother⟩)

end Sound

end Store

end HierarchicalTuring
