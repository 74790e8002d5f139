import HierarchicalTuring.Proofs.Store.Edit

/-! # A store is a list of named entities

* `Roster` is the plain list that a store stands for: entities with their handles in the order of
  addition. Every look-up searches it from the front, and `Edit.onRoster` is an operation on it.
* `Store.roster` is the list of a store. A list of entities in the order of their slots that holds
  what the handles of a store stand for is its list (`entries_eq_of_resolve?`), so an operation on
  a store is the operation on its list (`Edit.roster_apply`).
* `run_represents_roster`: a store and a list that undergo the same operations stay together and
  give the same answers.
-/

set_option autoImplicit false

namespace HierarchicalTuring

/-- Entities in the order of addition, each with the handle it was given. -/
structure Roster (α : Type) where
  identity : Identity
  /-- How many handles were given out. -/
  issued : Nat
  entries : List (Handle × α)

namespace Roster

variable {α : Type} [Named α]

/-- A list that holds nothing. -/
def empty (identity : Identity) : Roster α :=
  ⟨identity, 0, []⟩

/-- The first entity with a name. -/
def find? (r : Roster α) (name : String) : Option (Handle × α) :=
  r.entries.find? fun entry => Named.name entry.2 = name

/-- The first entity with a handle. -/
def findAt? (r : Roster α) (h : Handle) : Option (Handle × α) :=
  r.entries.find? fun entry => entry.1 = h

/-- Changes the entity with a handle where it stands. -/
def replaceAt (r : Roster α) (h : Handle) (change : α → α) : Roster α :=
  { r with entries := r.entries.map fun entry =>
      if entry.1 = h then (entry.1, change entry.2) else entry }

/-- Appends an entity, unless its name is in the list. -/
def add (r : Roster α) (entity : α) : Except ModelError (Handle × Roster α) :=
  if (r.find? (Named.name entity)).isSome then .error (.nameInUse (Named.name entity))
  else
    .ok (⟨r.identity, r.issued⟩,
      { r with issued := r.issued + 1, entries := r.entries ++ [(⟨r.identity, r.issued⟩, entity)] })

/-- Takes out the entity with a name. -/
def remove? (r : Roster α) (name : String) : Option (Handle × α × Roster α) :=
  (r.find? name).map fun found => (found.1, found.2,
    { r with entries := r.entries.filter fun entry => Named.name entry.2 ≠ name })

/-- Gives the entity with a handle another name, unless that is in the list. -/
def rename (r : Roster α) (h : Handle) (name : String) : Except ModelError (Roster α) :=
  if (r.find? name).isSome then .error (.nameInUse name)
  else
    match r.findAt? h with
    | none => .error (.notFound h.text)
    | some _ => .ok (r.replaceAt h (Named.withName · name))

/-- Changes the entity with a name where it stands. -/
def modify? (r : Roster α) (name : String) (change : α → α) : Option (Roster α) :=
  (r.find? name).map fun found => r.replaceAt found.1 change

/-- Changes the entity with a handle where it stands. -/
def modifyAt? (r : Roster α) (h : Handle) (change : α → α) : Option (Roster α) :=
  (r.findAt? h).map fun found => r.replaceAt found.1 change

/-- Changes every entity where it stands. -/
def mapEntities (r : Roster α) (change : α → α) : Roster α :=
  { r with entries := r.entries.map fun entry => (entry.1, change entry.2) }

omit [Named α] in
theorem mem_replaceAt {r : Roster α} {h h' : Handle} {change : α → α} {entity : α} :
    (h', entity) ∈ (r.replaceAt h change).entries ↔
      if h' = h then ∃ old, (h, old) ∈ r.entries ∧ change old = entity
      else (h', entity) ∈ r.entries := by
  unfold replaceAt
  rw [List.mem_map]
  by_cases hh : h' = h
  · rw [if_pos hh, hh]
    constructor
    · rintro ⟨⟨found, old⟩, hmem, heq⟩
      by_cases hfound : found = h
      · rw [if_pos hfound, hfound] at heq
        exact ⟨old, hfound ▸ hmem, congrArg Prod.snd heq⟩
      · rw [if_neg hfound] at heq
        exact absurd (congrArg Prod.fst heq) hfound
    · rintro ⟨old, hmem, rfl⟩
      exact ⟨(h, old), hmem, if_pos rfl⟩
  · rw [if_neg hh]
    constructor
    · rintro ⟨⟨found, old⟩, hmem, heq⟩
      by_cases hfound : found = h
      · rw [if_pos hfound, hfound] at heq
        exact absurd (congrArg Prod.fst heq).symm hh
      · rw [if_neg hfound] at heq
        exact heq ▸ hmem
    · exact fun hmem => ⟨(h', entity), hmem, if_neg hh⟩

omit [Named α] in
theorem pairwise_replaceAt {r : Roster α} (h : Handle) (change : α → α)
    (hsorted : r.entries.Pairwise fun a b => a.1.slot < b.1.slot) :
    (r.replaceAt h change).entries.Pairwise fun a b => a.1.slot < b.1.slot := by
  unfold replaceAt
  rw [List.pairwise_map]
  refine hsorted.imp fun hlt => ?_
  split <;> split <;> exact hlt

end Roster

namespace Store

variable {α : Type}

/-- An operation on a list. -/
def Edit.onRoster [Named α] : Edit α → Roster α → Roster α
  | add entity, r =>
    match r.add entity with
    | .ok (_, r') => r'
    | .error _ => r
  | remove name, r =>
    match r.remove? name with
    | some (_, _, r') => r'
    | none => r
  | rename h name, r =>
    match r.rename h name with
    | .ok r' => r'
    | .error _ => r
  | modify name change, r => (r.modify? name change.apply).getD r
  | modifyAt h change, r => (r.modifyAt? h change.apply).getD r
  | modifyAll change, r => r.mapEntities change.apply

/-! ## Entities in the order of their slots -/

theorem le_of_mem_occupied {start : Nat} {l : List (Option α)} {entry : Nat × α}
    (h : entry ∈ occupied start l) : start ≤ entry.1 := by
  induction l generalizing start with
  | nil => cases h
  | cons slot rest ih =>
    cases slot with
    | none => exact Nat.le_of_succ_le (ih h)
    | some entity =>
      rcases List.mem_cons.mp h with rfl | hrest
      · exact Nat.le_refl start
      · exact Nat.le_of_succ_le (ih hrest)

theorem pairwise_occupied (start : Nat) (l : List (Option α)) :
    (occupied start l).Pairwise fun a b => a.1 < b.1 := by
  induction l generalizing start with
  | nil => exact List.Pairwise.nil
  | cons slot rest ih =>
    cases slot with
    | none => exact ih (start + 1)
    | some entity => exact List.pairwise_cons.mpr ⟨fun _ h => le_of_mem_occupied h, ih (start + 1)⟩

theorem map_snd_occupied (start : Nat) (l : List (Option α)) :
    (occupied start l).map Prod.snd = l.filterMap id := by
  induction l generalizing start with
  | nil => rfl
  | cons slot rest ih =>
    cases slot with
    | none => exact ih (start + 1)
    | some entity => exact congrArg (entity :: ·) (ih (start + 1))

theorem mem_occupied_iff (start slot : Nat) {l : List (Option α)} {entity : α} :
    (start + slot, entity) ∈ occupied start l ↔ l[slot]? = some (some entity) := by
  induction l generalizing start slot with
  | nil => simp [occupied]
  | cons first rest ih =>
    cases slot with
    | zero =>
      -- The later slots have greater numbers.
      have hlater : (start + 0, entity) ∉ occupied (start + 1) rest := fun h =>
        absurd (le_of_mem_occupied h) (by simp)
      cases first with
      | none => simpa [occupied] using hlater
      | some other =>
        refine List.mem_cons.trans ((or_iff_left hlater).trans ?_)
        simp [eq_comm]
    | succ slot =>
      have hslot : start + (slot + 1) = start + 1 + slot := by omega
      rw [List.getElem?_cons_succ, ← ih (start + 1) slot, hslot]
      cases first with
      | none => rfl
      | some other =>
        refine List.mem_cons.trans (or_iff_right fun heq => ?_)
        have hstart := congrArg Prod.fst heq
        simp only at hstart
        omega

theorem mem_entries {s : Store α} {h : Handle} {entity : α} :
    (h, entity) ∈ s.entries ↔ s.resolve? h = some entity := by
  have hslot : (h.slot, entity) ∈ occupied 0 s.slots ↔ s.slot? h.slot = some entity := by
    rw [slot?_eq_some_iff, ← mem_occupied_iff 0, Nat.zero_add]
  unfold entries
  rw [List.mem_map, resolve?_eq_some_iff, ← hslot]
  constructor
  · rintro ⟨⟨slot, found⟩, hmem, heq⟩
    cases heq
    exact ⟨rfl, hmem⟩
  · rintro ⟨hhandle, hmem⟩
    exact ⟨(h.slot, entity), hmem, Prod.ext hhandle.symm rfl⟩

theorem pairwise_entries (s : Store α) :
    s.entries.Pairwise fun a b => a.1.slot < b.1.slot := by
  unfold entries
  rw [List.pairwise_map]
  exact pairwise_occupied 0 s.slots

theorem map_snd_entries (s : Store α) : s.entries.map Prod.snd = s.live := by
  unfold entries
  rw [List.map_map]
  exact map_snd_occupied 0 s.slots

/-- Only one list holds the entities of a store in the order of their slots. -/
theorem entries_eq_of_resolve? {s : Store α} {l : List (Handle × α)}
    (hsorted : l.Pairwise fun a b => a.1.slot < b.1.slot)
    (hmem : ∀ h entity, (h, entity) ∈ l ↔ s.resolve? h = some entity) : s.entries = l := by
  have hnodup : ∀ {l : List (Handle × α)}, l.Pairwise (fun a b => a.1.slot < b.1.slot) → l.Nodup :=
    fun hl => hl.imp fun hlt heq => absurd hlt (by rw [heq]; exact Nat.lt_irrefl _)
  have hperm : s.entries.Perm l :=
    (List.perm_ext_iff_of_nodup (hnodup s.pairwise_entries) (hnodup hsorted)).mpr
      fun entry => mem_entries.trans (hmem entry.1 entry.2).symm
  refine hperm.eq_of_pairwise ?_ s.pairwise_entries hsorted
  intro a b _ _ hlt hgt
  exact absurd hgt (Nat.lt_asymm hlt)

/-! ## The list of a store -/

/-- The list that a store stands for. -/
def roster (s : Store α) : Roster α :=
  ⟨s.identity, s.slots.length, s.entries⟩

variable {s : Store α}

theorem findAt?_roster_eq_some_iff {h h' : Handle} {entity : α} :
    s.roster.findAt? h = some (h', entity) ↔ h' = h ∧ s.resolve? h = some entity := by
  constructor
  · intro hfind
    have hh : h' = h := by simpa using List.find?_some hfind
    exact ⟨hh, hh ▸ mem_entries.mp (List.mem_of_find?_eq_some hfind)⟩
  · rintro ⟨rfl, hresolve⟩
    refine find?_eq_some_of_unique (mem_entries.mpr hresolve) (by simp) fun found hfound hh => ?_
    have hh : found.1 = h' := by simpa using hh
    have hother := mem_entries.mp hfound
    rw [hh, hresolve] at hother
    exact Prod.ext hh (Option.some.inj hother).symm

theorem findAt?_roster_eq_none_iff {h : Handle} :
    s.roster.findAt? h = none ↔ s.resolve? h = none := by
  simp only [Option.eq_none_iff_forall_ne_some, ne_eq, Prod.forall, findAt?_roster_eq_some_iff]
  exact ⟨fun hnone entity hresolve => hnone h entity ⟨rfl, hresolve⟩,
    fun hnone _ entity hfound => hnone entity hfound.2⟩

/-! ## Changes in place -/

theorem roster_put {h : Handle} {entity : α} (hresolve : s.resolve? h = some entity)
    (change : α → α) : (s.put h.slot (change entity)).roster = s.roster.replaceAt h change := by
  obtain ⟨hhandle, hslot⟩ := resolve?_eq_some_iff.mp hresolve
  have hput := resolve?_put (slot?_lt hslot) (change entity)
  have hlength : (s.put h.slot (change entity)).slots.length = s.slots.length := List.length_set
  have hentries : (s.put h.slot (change entity)).entries =
      (s.roster.replaceAt h change).entries := by
    refine entries_eq_of_resolve? (Roster.pairwise_replaceAt h change s.pairwise_entries)
      fun h' other => ?_
    rw [Roster.mem_replaceAt, hput, ← hhandle]
    split
    · simp only [roster, mem_entries, hresolve, Option.some.injEq, exists_eq_left']
    · exact mem_entries
  unfold roster at hentries ⊢
  rw [hlength, hentries]
  rfl

theorem modifyAt?_roster (h : Handle) (change : α → α) :
    (s.modifyAt? h change).map roster = s.roster.modifyAt? h change := by
  unfold Roster.modifyAt? Store.modifyAt?
  cases hresolve : s.resolve? h with
  | none =>
    rw [findAt?_roster_eq_none_iff.mpr hresolve]
    rfl
  | some entity =>
    rw [findAt?_roster_eq_some_iff.mpr ⟨rfl, hresolve⟩]
    exact congrArg some (roster_put hresolve change)

theorem roster_mapEntities (change : α → α) :
    (s.mapEntities change).roster = s.roster.mapEntities change := by
  have hentries : (s.mapEntities change).entries =
      s.entries.map fun entry => (entry.1, change entry.2) := by
    refine entries_eq_of_resolve? ?_ fun h other => ?_
    · rw [List.pairwise_map]
      exact s.pairwise_entries
    · rw [resolve?_mapEntities, List.mem_map, Option.map_eq_some_iff]
      simp only [Prod.exists, Prod.mk.injEq, mem_entries]
      exact ⟨fun ⟨_, e, h, h', h''⟩ => ⟨e, h' ▸ h, h''⟩, fun ⟨e, h, h'⟩ => ⟨_, e, h, rfl, h'⟩⟩
  have hlength : (s.mapEntities change).slots.length = s.slots.length := List.length_map _
  unfold roster
  rw [hentries, hlength]
  rfl

/-! ## Searching by name -/

variable [Named α]

theorem Indexed.find?_roster_eq_some_iff (hs : s.Indexed) {name : String} {h : Handle}
    {entity : α} : s.roster.find? name = some (h, entity) ↔
      s.resolve? h = some entity ∧ Named.name entity = name := by
  constructor
  · intro hfind
    have hname : Named.name entity = name := by simpa using List.find?_some hfind
    exact ⟨mem_entries.mp (List.mem_of_find?_eq_some hfind), hname⟩
  · rintro ⟨hresolve, hname⟩
    refine find?_eq_some_of_unique (mem_entries.mpr hresolve) (decide_eq_true hname)
      fun found hfound hname' => ?_
    -- Names are distinct, so what the search finds first is the entity itself.
    have hother := mem_entries.mp hfound
    have hh := hs.handle_eq_of_name_eq hother hresolve ((of_decide_eq_true hname').trans hname.symm)
    rw [hh, hresolve] at hother
    exact Prod.ext hh (Option.some.inj hother).symm

theorem Indexed.contains_eq (hs : s.Indexed) (name : String) :
    s.contains name = (s.roster.find? name).isSome := by
  rw [Bool.eq_iff_iff, hs.contains_iff_resolve?, Option.isSome_iff_exists]
  simp only [Prod.exists, hs.find?_roster_eq_some_iff]

theorem Indexed.handleOf?_eq (hs : s.Indexed) (name : String) :
    s.handleOf? name = (s.roster.find? name).map Prod.fst := by
  refine Option.ext fun h => ?_
  rw [hs.handleOf?_eq_some_iff, Option.map_eq_some_iff]
  simp only [Prod.exists, hs.find?_roster_eq_some_iff, exists_and_right, exists_eq_right]

theorem Indexed.get?_eq (hs : s.Indexed) (name : String) :
    s.get? name = (s.roster.find? name).map Prod.snd := by
  refine Option.ext fun entity => ?_
  rw [hs.get?_eq_some_iff, Option.map_eq_some_iff, ← map_snd_entries, List.mem_map]
  simp only [Prod.exists, hs.find?_roster_eq_some_iff, mem_entries, exists_eq_right,
    exists_and_right]

/-! ## Operations on a store and on its list -/

omit [Named α] in
theorem resolve?_next (s : Store α) : s.resolve? (s.handleAt s.slots.length) = none := by
  simp [slot?]

theorem Indexed.add_roster (hs : s.Indexed) (entity : α) :
    (s.add entity).map (fun added => (added.1, added.2.roster)) = s.roster.add entity := by
  unfold Roster.add
  rw [← hs.contains_eq]
  cases hadd : s.add entity with
  | error e =>
    obtain ⟨hcontains, rfl⟩ := add_eq_error_iff.mp hadd
    rw [if_pos hcontains]
    rfl
  | ok added =>
    obtain ⟨h, t⟩ := added
    have hresolve := resolve?_of_add hadd
    obtain ⟨hfree, rfl, ht⟩ := add_eq_ok_iff.mp hadd
    have hentries : t.entries = s.entries ++ [(s.handleAt s.slots.length, entity)] := by
      refine entries_eq_of_resolve? ?_ fun h other => ?_
      · refine List.pairwise_append.mpr ⟨s.pairwise_entries, List.pairwise_singleton _ _, ?_⟩
        intro entry hentry new hnew
        rw [List.mem_singleton.mp hnew]
        exact slot?_lt (resolve?_eq_some_iff.mp (mem_entries.mp hentry)).2
      · rw [List.mem_append, mem_entries, List.mem_singleton, hresolve, Prod.mk.injEq]
        by_cases hh : h = s.handleAt s.slots.length
        · rw [if_pos hh, hh, s.resolve?_next]
          simp [eq_comm]
        · rw [if_neg hh]
          exact or_iff_left fun heq => hh heq.1
    have hlength : t.slots.length = s.slots.length + 1 := by
      rw [ht]
      exact List.length_append
    have hid : t.identity = s.identity := by rw [ht]
    rw [if_neg (by rw [hfree]; exact Bool.false_ne_true)]
    show Except.ok (s.handleAt s.slots.length, Roster.mk t.identity t.slots.length t.entries) = _
    rw [hid, hlength, hentries]
    rfl

theorem Indexed.remove?_roster (hs : s.Indexed) (name : String) :
    (s.remove? name).map (fun removed => (removed.1, removed.2.1, removed.2.2.roster)) =
      s.roster.remove? name := by
  unfold Roster.remove?
  cases hfind : s.roster.find? name with
  | none =>
    have hnone : s.remove? name = none := by
      rw [Option.eq_none_iff_forall_ne_some]
      rintro ⟨h, entity, t⟩ hremove
      obtain ⟨hresolve, hname, -⟩ := hs.remove?_eq_some_iff.mp hremove
      rw [hs.find?_roster_eq_some_iff.mpr ⟨hresolve, hname⟩] at hfind
      cases hfind
    rw [hnone]
    rfl
  | some found =>
    obtain ⟨h, entity⟩ := found
    obtain ⟨hresolve, hname⟩ := hs.find?_roster_eq_some_iff.mp hfind
    have hremove := hs.remove?_eq_some_iff.mpr ⟨hresolve, hname, rfl⟩
    have hafter := resolve?_of_remove hs hremove
    have hentries : entries ⟨s.identity, s.slots.set h.slot none, s.index.erase name⟩ =
        s.entries.filter fun entry => Named.name entry.2 ≠ name := by
      refine entries_eq_of_resolve? (s.pairwise_entries.filter _) fun h' other => ?_
      rw [List.mem_filter, mem_entries, hafter, decide_eq_true_iff]
      by_cases hh : h' = h
      · rw [if_pos hh, hh, hresolve]
        simp only [Option.some.injEq, reduceCtorEq, iff_false, not_and, not_not]
        rintro rfl
        exact hname
      · rw [if_neg hh]
        refine and_iff_left_of_imp fun hother hname' => hh ?_
        exact hs.handle_eq_of_name_eq hother hresolve (hname'.trans hname.symm)
    rw [hremove]
    simp only [Option.map_some, roster, hentries, List.length_set]

theorem Indexed.rename_roster (hs : s.Indexed) (h : Handle) (name : String) :
    (s.rename h name).map roster = s.roster.rename h name := by
  unfold Roster.rename Store.rename
  rw [← hs.contains_eq]
  by_cases hcontains : s.contains name = true
  · rw [if_pos hcontains, if_pos hcontains]
    rfl
  · rw [if_neg hcontains, if_neg hcontains]
    cases hresolve : s.resolve? h with
    | none =>
      rw [findAt?_roster_eq_none_iff.mpr hresolve]
      rfl
    | some entity =>
      rw [findAt?_roster_eq_some_iff.mpr ⟨rfl, hresolve⟩]
      -- The list does not see the index, which is all that tells a renaming from a change in place.
      exact congrArg Except.ok (roster_put hresolve (Named.withName · name))

theorem Indexed.size_of_rename (hs : s.Indexed) {t : Store α} (ht : t.Indexed) {h : Handle}
    {name : String} (hrename : s.rename h name = .ok t) : t.size = s.size := by
  rw [ht.size_eq, hs.size_eq, ← map_snd_entries, ← map_snd_entries, List.length_map,
    List.length_map]
  obtain ⟨-, entity, hresolve, rfl⟩ := rename_eq_ok_iff.mp hrename
  have hlength := congrArg (fun r => r.entries.length)
    (roster_put hresolve (Named.withName · name))
  exact hlength.trans (List.length_map _)

theorem Indexed.modify?_roster (hs : s.Indexed) (name : String) (change : α → α) :
    (s.modify? name change).map roster = s.roster.modify? name change := by
  unfold Roster.modify?
  cases hfind : s.roster.find? name with
  | none =>
    have hnone : s.modify? name change = none := by
      rw [Option.eq_none_iff_forall_ne_some]
      intro t hmodify
      obtain ⟨h, entity, hresolve, hname, -⟩ := hs.modify?_eq_some_iff.mp hmodify
      rw [hs.find?_roster_eq_some_iff.mpr ⟨hresolve, hname⟩] at hfind
      cases hfind
    rw [hnone]
    rfl
  | some found =>
    obtain ⟨h, entity⟩ := found
    obtain ⟨hresolve, hname⟩ := hs.find?_roster_eq_some_iff.mp hfind
    rw [hs.modify?_eq_some_iff.mpr ⟨h, entity, hresolve, hname, rfl⟩]
    exact congrArg some (roster_put hresolve change)

theorem Edit.roster_apply (edit : Edit α) (hs : s.Indexed) :
    (edit.apply s).roster = edit.onRoster s.roster := by
  cases edit with
  | add entity =>
    simp only [apply, onRoster, ← hs.add_roster]
    cases s.add entity <;> rfl
  | remove name =>
    simp only [apply, onRoster, ← hs.remove?_roster]
    cases s.remove? name <;> rfl
  | rename h name =>
    simp only [apply, onRoster, ← hs.rename_roster]
    cases s.rename h name <;> rfl
  | modify name change =>
    simp only [apply, onRoster, ← hs.modify?_roster]
    cases s.modify? name change.apply <;> rfl
  | modifyAt h change =>
    simp only [apply, onRoster, ← modifyAt?_roster]
    cases s.modifyAt? h change.apply <;> rfl
  | modifyAll change => exact roster_mapEntities change.apply

theorem Indexed.roster_run (hs : s.Indexed) (edits : List (Edit α)) :
    (s.run edits).roster = edits.foldl (fun r edit => edit.onRoster r) s.roster := by
  induction edits generalizing s with
  | nil => rfl
  | cons edit edits ih =>
    rw [run_cons, ih (edit.indexed_apply hs), edit.roster_apply hs]
    rfl

/-- A store shows what a list holds and answers every question and every operation as the list
does. -/
structure Represents (s : Store α) (r : Roster α) : Prop where
  entries : s.entries = r.entries
  names : s.names = r.entries.map fun entry => Named.name entry.2
  size : s.size = r.entries.length
  get? : ∀ name, s.get? name = (r.find? name).map Prod.snd
  handleOf? : ∀ name, s.handleOf? name = (r.find? name).map Prod.fst
  contains : ∀ name, s.contains name = (r.find? name).isSome
  resolve? : ∀ h, s.resolve? h = (r.findAt? h).map Prod.snd
  add : ∀ entity, (s.add entity).map (fun added => (added.1, added.2.roster)) = r.add entity
  remove? : ∀ name, (s.remove? name).map (fun removed =>
    (removed.1, removed.2.1, removed.2.2.roster)) = r.remove? name
  rename : ∀ h name, (s.rename h name).map roster = r.rename h name
  modify? : ∀ name change, (s.modify? name change).map roster = r.modify? name change
  modifyAt? : ∀ h change, (s.modifyAt? h change).map roster = r.modifyAt? h change

theorem names_eq (s : Store α) : s.names = s.entries.map fun entry => Named.name entry.2 := by
  unfold names
  rw [← map_snd_entries, List.map_map]
  rfl

omit [Named α] in
theorem resolve?_eq (h : Handle) : s.resolve? h = (s.roster.findAt? h).map Prod.snd := by
  refine Option.ext fun entity => ?_
  rw [Option.map_eq_some_iff]
  simp only [Prod.exists, findAt?_roster_eq_some_iff, exists_eq_right, exists_and_right,
    exists_eq, true_and]

theorem Indexed.represents (hs : s.Indexed) : s.Represents s.roster where
  entries := rfl
  names := s.names_eq
  size := by
    rw [hs.size_eq, ← map_snd_entries]
    exact List.length_map _
  get? := hs.get?_eq
  handleOf? := hs.handleOf?_eq
  contains := hs.contains_eq
  resolve? := resolve?_eq
  add := hs.add_roster
  remove? := hs.remove?_roster
  rename := hs.rename_roster
  modify? := hs.modify?_roster
  modifyAt? := modifyAt?_roster

/-- After any operations the index leads from the names to the slots of their entities, and the
store is the list that the same operations make: names are distinct, look-ups are searches, and
entities come one by one in the order of addition, wherever a renaming or a change found them. -/
theorem run_represents_roster (identity : Identity) (edits : List (Edit α)) :
    let s := (empty identity : Store α).run edits
    let r := edits.foldl (fun r edit => edit.onRoster r) (Roster.empty identity)
    (∀ name slot, s.index.find? name = some slot ↔
      ∃ inRange : slot < s.slots.length, ∃ entity,
        s.slots[slot] = some entity ∧ Named.name entity = name) ∧
    s.names.Nodup ∧
    s.Represents r ∧
    s.size = s.slots.countP Option.isSome ∧
    s.entries.map Prod.snd = s.slots.filterMap id ∧
    s.entries.Pairwise fun a b => a.1.slot < b.1.slot := by
  intro s r
  have hs : s.Indexed := (Indexed.empty identity).run edits
  have hr : s.roster = r := (Indexed.empty identity).roster_run edits
  refine ⟨fun name slot => ?_, hs.nodup_names, hr ▸ hs.represents, ?_, s.map_snd_entries,
    s.pairwise_entries⟩
  · rw [hs.find?_eq_some_iff]
    simp only [slot?_eq_some_iff, List.getElem?_eq_some_iff]
    exact ⟨fun ⟨entity, ⟨hlt, hslot⟩, hname⟩ => ⟨hlt, entity, hslot, hname⟩,
      fun ⟨hlt, entity, hslot, hname⟩ => ⟨entity, ⟨hlt, hslot⟩, hname⟩⟩
  · rw [hs.size_eq]
    exact List.length_filterMap_eq_countP

end Store

end HierarchicalTuring
