import HierarchicalTuring.Proofs.Store.Roster
import HierarchicalTuring.State

/-! # Handles for life

* `Edit.effect` is what one operation does to one entity, which its handle tells apart from the
  others, and `Store.follow` what some operations do to it. A handle stands for its entity so
  followed (`Indexed.resolve?_run`), and for nothing once the entity was removed.
* `Stores` are all stores that were ever made, each with the number of its creation; copies share
  the number of what they are copies of. `Stores.Line` leads from a store to itself and its copies
  later on, with the operations on the way.
* `handle_for_life`: along every line a handle follows its entity, and in the stores of other
  creations it stands for nothing.
-/

set_option autoImplicit false

namespace HierarchicalTuring

variable {α : Type} [Named α]

namespace Store

/-! ## One entity under the operations on its store -/

/-- What an operation on a store does to the entity that a handle stands for. -/
def Edit.effect (s : Store α) (h : Handle) (entity : α) : Edit α → Option α
  | add _ => some entity
  | remove name => if Named.name entity = name then none else some entity
  | rename handle name =>
    some (if handle = h ∧ s.contains name = false then Named.withName entity name else entity)
  | modify name change =>
    some (if Named.name entity = name then change.apply entity else entity)
  | modifyAt handle change => some (if handle = h then change.apply entity else entity)
  | modifyAll change => some (change.apply entity)

/-- What operations on a store make of the entity that a handle stands for. Once it was removed it
stays so. -/
def follow (h : Handle) : Store α → List (Edit α) → Option α → Option α
  | _, [], entity => entity
  | s, edit :: edits, entity =>
    follow h (edit.apply s) edits (entity.bind fun entity => edit.effect s h entity)

theorem follow_none (h : Handle) (s : Store α) (edits : List (Edit α)) :
    s.follow h edits none = none := by
  induction edits generalizing s with
  | nil => rfl
  | cons edit edits ih => exact ih (edit.apply s)

theorem follow_append (h : Handle) (s : Store α) (edits edits' : List (Edit α))
    (entity : Option α) : s.follow h (edits ++ edits') entity =
      (s.run edits).follow h edits' (s.follow h edits entity) := by
  induction edits generalizing s entity with
  | nil => rfl
  | cons edit edits ih => exact ih (edit.apply s) _

omit [Named α] in
theorem bind_some_self {entity : Option α} : (entity.bind fun e => some e) = entity := by
  cases entity <;> rfl

/-- The handle was given out by the store, or by the one that it is a copy of. -/
def HasIssued (s : Store α) (h : Handle) : Prop :=
  h.identity = s.identity ∧ h.slot < s.slots.length

omit [Named α] in
theorem HasIssued.of_resolve? {s : Store α} {h : Handle} {entity : α}
    (hresolve : s.resolve? h = some entity) : s.HasIssued h := by
  obtain ⟨hhandle, hslot⟩ := resolve?_eq_some_iff.mp hresolve
  exact ⟨(resolve?_handle_iff.mp hhandle).1, slot?_lt hslot⟩

section Step

variable {s : Store α} {h : Handle}

theorem resolve?_after_add (hissued : s.HasIssued h) (entity : α) :
    ((Edit.add entity).apply s).resolve? h = s.resolve? h := by
  simp only [Edit.apply]
  split
  · next h' t hadd =>
    have hne : h ≠ h' := by
      rintro rfl
      obtain ⟨-, hlast, -⟩ := add_eq_ok_iff.mp hadd
      have hslot := hissued.2
      rw [(resolve?_handle_iff.mp hlast).2] at hslot
      exact Nat.lt_irrefl _ hslot
    rw [resolve?_of_add hadd, if_neg hne]
  · rfl

theorem resolve?_after_remove (hs : s.Indexed) (name : String) :
    ((Edit.remove name).apply s).resolve? h =
      (s.resolve? h).bind fun entity => (Edit.remove name).effect s h entity := by
  simp only [Edit.apply, Edit.effect]
  cases hremove : s.remove? name with
  | none =>
    cases hresolve : s.resolve? h with
    | none => rfl
    | some entity =>
      have hname : Named.name entity ≠ name := by
        intro hname
        rw [hs.remove?_eq_some_iff.mpr ⟨hresolve, hname, rfl⟩] at hremove
        cases hremove
      rw [Option.bind_some, if_neg hname]
  | some removed =>
    obtain ⟨h', entity', t⟩ := removed
    obtain ⟨hresolve', hname', -⟩ := hs.remove?_eq_some_iff.mp hremove
    show t.resolve? h = _
    rw [resolve?_of_remove hs hremove]
    by_cases hh : h = h'
    · rw [if_pos hh, hh, hresolve', Option.bind_some, if_pos hname']
    · rw [if_neg hh]
      cases hresolve : s.resolve? h with
      | none => rfl
      | some entity =>
        have hname : Named.name entity ≠ name := fun hname =>
          hh (hs.handle_eq_of_name_eq hresolve hresolve' (hname.trans hname'.symm))
        rw [Option.bind_some, if_neg hname]

theorem resolve?_after_rename (handle : Handle) (name : String) :
    ((Edit.rename handle name).apply s).resolve? h =
      (s.resolve? h).bind fun entity => (Edit.rename handle name).effect s h entity := by
  simp only [Edit.apply, Edit.effect]
  cases hresolve : s.resolve? h with
  | none =>
    rw [Option.bind_none]
    split
    · next t hrename =>
      rw [resolve?_of_rename hrename]
      split
      · next hh => rw [← hh, hresolve]; rfl
      · exact hresolve
    · exact hresolve
  | some entity =>
    rw [Option.bind_some]
    by_cases hrenamed : handle = h ∧ s.contains name = false
    · obtain ⟨rfl, hfree⟩ := hrenamed
      have hrename := rename_eq_ok_iff.mpr ⟨hfree, entity, hresolve, rfl⟩
      rw [hrename, if_pos ⟨rfl, hfree⟩]
      show resolve? _ handle = _
      rw [resolve?_of_rename hrename, if_pos rfl, hresolve]
      rfl
    · rw [if_neg hrenamed]
      split
      · next t hrename =>
        have hfree := (rename_eq_ok_iff.mp hrename).1
        rw [resolve?_of_rename hrename, if_neg fun hh => hrenamed ⟨hh.symm, hfree⟩]
        exact hresolve
      · exact hresolve

omit [Named α] in
theorem resolve?_put_entity {handle : Handle} {old : α} (hold : s.resolve? handle = some old)
    (change : α → α) : (s.put handle.slot (change old)).resolve? h =
      (s.resolve? h).map fun entity => if handle = h then change entity else entity := by
  obtain ⟨hhandle, hslot⟩ := resolve?_eq_some_iff.mp hold
  rw [resolve?_put (slot?_lt hslot), ← hhandle]
  by_cases hh : h = handle
  · rw [if_pos hh, hh, hold, Option.map_some, if_pos rfl]
  · rw [if_neg hh]
    simp only [if_neg (Ne.symm hh), Option.map_id']

theorem resolve?_after_modify (hs : s.Indexed) (name : String) (change : InPlace α) :
    ((Edit.modify name change).apply s).resolve? h =
      (s.resolve? h).bind fun entity => (Edit.modify name change).effect s h entity := by
  simp only [Edit.apply, Edit.effect]
  cases hmodify : s.modify? name change.apply with
  | none =>
    cases hresolve : s.resolve? h with
    | none => exact hresolve
    | some entity =>
      have hname : Named.name entity ≠ name := by
        intro hname
        rw [hs.modify?_eq_some_iff.mpr ⟨h, entity, hresolve, hname, rfl⟩] at hmodify
        cases hmodify
      rw [Option.bind_some, if_neg hname]
      exact hresolve
  | some t =>
    obtain ⟨handle, old, hold, hname, rfl⟩ := hs.modify?_eq_some_iff.mp hmodify
    rw [Option.getD_some, resolve?_put_entity hold]
    cases hresolve : s.resolve? h with
    | none => rfl
    | some entity =>
      have hsame : handle = h ↔ Named.name entity = name := by
        constructor
        · rintro rfl
          rw [hold] at hresolve
          exact Option.some.inj hresolve ▸ hname
        · exact fun hname' => hs.handle_eq_of_name_eq hold hresolve (hname.trans hname'.symm)
      exact congrArg some (if_congr hsame rfl rfl)

theorem resolve?_after_modifyAt (handle : Handle) (change : InPlace α) :
    ((Edit.modifyAt handle change).apply s).resolve? h =
      (s.resolve? h).bind fun entity => (Edit.modifyAt handle change).effect s h entity := by
  simp only [Edit.apply, Edit.effect]
  cases hmodify : s.modifyAt? handle change.apply with
  | none =>
    cases hresolve : s.resolve? h with
    | none => exact hresolve
    | some entity =>
      have hne : handle ≠ h := by
        rintro rfl
        rw [modifyAt?_eq_some_iff.mpr ⟨entity, hresolve, rfl⟩] at hmodify
        cases hmodify
      rw [Option.bind_some, if_neg hne]
      exact hresolve
  | some t =>
    obtain ⟨old, hold, rfl⟩ := modifyAt?_eq_some_iff.mp hmodify
    rw [Option.getD_some, resolve?_put_entity hold]
    cases s.resolve? h <;> rfl

/-- What a handle stands for after an operation. -/
theorem Indexed.resolve?_apply (hs : s.Indexed) (hissued : s.HasIssued h) (edit : Edit α) :
    (edit.apply s).resolve? h = (s.resolve? h).bind fun entity => edit.effect s h entity := by
  cases edit with
  | add entity => exact (resolve?_after_add hissued entity).trans bind_some_self.symm
  | remove name => exact resolve?_after_remove hs name
  | rename handle name => exact resolve?_after_rename handle name
  | modify name change => exact resolve?_after_modify hs name change
  | modifyAt handle change => exact resolve?_after_modifyAt handle change
  | modifyAll change =>
    refine (resolve?_mapEntities s change.apply h).trans ?_
    cases s.resolve? h <;> rfl

theorem exists_rename_eq_error (hnone : s.resolve? h = none) (name : String) :
    ∃ e, s.rename h name = .error e := by
  unfold rename
  split
  · exact ⟨_, rfl⟩
  · rw [hnone]
    exact ⟨_, rfl⟩

/-- No operation changes the identity of a store or takes a slot away. -/
theorem Indexed.fields_apply (hs : s.Indexed) (edit : Edit α) :
    (edit.apply s).identity = s.identity ∧ s.slots.length ≤ (edit.apply s).slots.length := by
  have hsame : s.identity = s.identity ∧ s.slots.length ≤ s.slots.length := ⟨rfl, Nat.le_refl _⟩
  cases edit with
  | add entity =>
    simp only [Edit.apply]
    split
    · next hadd =>
      obtain ⟨-, -, rfl⟩ := add_eq_ok_iff.mp hadd
      exact ⟨rfl, by simp⟩
    · exact hsame
  | remove name =>
    simp only [Edit.apply]
    split
    · next hremove =>
      obtain ⟨-, -, rfl⟩ := hs.remove?_eq_some_iff.mp hremove
      exact ⟨rfl, by simp⟩
    · exact hsame
  | rename handle name =>
    simp only [Edit.apply]
    split
    · next hrename =>
      obtain ⟨-, _, -, rfl⟩ := rename_eq_ok_iff.mp hrename
      exact ⟨rfl, by simp⟩
    · exact hsame
  | modify name change =>
    simp only [Edit.apply]
    cases hmodify : s.modify? name change.apply with
    | none => exact hsame
    | some t =>
      obtain ⟨_, _, -, -, rfl⟩ := hs.modify?_eq_some_iff.mp hmodify
      exact ⟨rfl, by simp [put]⟩
  | modifyAt handle change =>
    simp only [Edit.apply]
    cases hmodify : s.modifyAt? handle change.apply with
    | none => exact hsame
    | some t =>
      obtain ⟨_, -, rfl⟩ := modifyAt?_eq_some_iff.mp hmodify
      exact ⟨rfl, by simp [put]⟩
  | modifyAll change => exact ⟨rfl, by simp [Edit.apply, mapEntities]⟩

theorem Indexed.hasIssued_apply (hs : s.Indexed) (hissued : s.HasIssued h) (edit : Edit α) :
    (edit.apply s).HasIssued h := by
  obtain ⟨hid, hlength⟩ := hs.fields_apply edit
  exact ⟨hissued.1.trans hid.symm, Nat.lt_of_lt_of_le hissued.2 hlength⟩

theorem Indexed.identity_run (hs : s.Indexed) (edits : List (Edit α)) :
    (s.run edits).identity = s.identity := by
  induction edits generalizing s with
  | nil => rfl
  | cons edit edits ih =>
    rw [run_cons, ih (edit.indexed_apply hs)]
    exact (hs.fields_apply edit).1

/-- What a handle stands for after some operations: its entity, followed through them. -/
theorem Indexed.resolve?_run (hs : s.Indexed) (hissued : s.HasIssued h) (edits : List (Edit α)) :
    (s.run edits).resolve? h = s.follow h edits (s.resolve? h) := by
  induction edits generalizing s with
  | nil => rfl
  | cons edit edits ih =>
    rw [run_cons, ih (edit.indexed_apply hs) (hs.hasIssued_apply hissued edit),
      hs.resolve?_apply hissued edit]
    rfl

end Step

/-! ## Giving out handles -/

/-- The ways in which a store gives out the handle of an entity that it holds. -/
inductive Issues (s : Store α) (h : Handle) (entity : α) : Prop
  /-- The entity was just added. -/
  | added {before : Store α} : before.add entity = .ok (h, s) → Issues s h entity
  /-- The entity was looked up by a name. -/
  | found {name : String} : s.handleOf? name = some h → s.get? name = some entity →
    Issues s h entity
  /-- All entities were listed. -/
  | listed : (h, entity) ∈ s.entries → Issues s h entity

theorem Indexed.resolve?_of_issues {s : Store α} {h : Handle} {entity : α} (hs : s.Indexed)
    (hissues : s.Issues h entity) : s.resolve? h = some entity := by
  cases hissues with
  | added hadd => rw [resolve?_of_add hadd, if_pos rfl]
  | found hhandle hget =>
    rw [hs.handleOf?_eq, Option.map_eq_some_iff] at hhandle
    obtain ⟨⟨_, other⟩, hfind, rfl⟩ := hhandle
    rw [hs.get?_eq, hfind] at hget
    cases hget
    exact (hs.find?_roster_eq_some_iff.mp hfind).1
  | listed hmem => exact mem_entries.mp hmem

end Store

/-! ## All stores that were ever made -/

/-- Stores in the order in which they were made, each with the number of the creation that it, or
what it is a copy of, comes from. -/
structure Stores (α : Type) where
  all : List (Nat × Store α)
  /-- How many stores were created rather than copied. -/
  created : Nat
  /-- The next free identity. -/
  next : Identity

/-- Something that happens to stores. -/
inductive Stores.Event (α : Type) [Named α] where
  | create
  /-- A store of other entities is created and takes an identity. -/
  | createOther
  | copy (place : Nat)
  | edit (place : Nat) (edit : Store.Edit α)

namespace Stores

/-- No store was made yet. -/
def start : Stores α :=
  ⟨[], 0, 0⟩

/-- The stores after an event. One that names no store changes nothing. -/
def step (w : Stores α) : Event α → Stores α
  | .create => ⟨w.all ++ [(w.created, .empty w.next)], w.created + 1, w.next + 1⟩
  | .createOther => { w with next := w.next + 1 }
  | .copy place => { w with all := w.all ++ (w.all[place]?).toList }
  | .edit place edit =>
    { w with all := w.all.modify place fun store => (store.1, edit.apply store.2) }

/-- The stores after a history. -/
def run (w : Stores α) (events : List (Event α)) : Stores α :=
  events.foldl step w

/-- The operations that an event makes on the store at a place. -/
def Event.editsOf (place : Nat) : Event α → List (Store.Edit α)
  | .edit place' change => if place' = place then [change] else []
  | _ => []

/-- `w.Line place events place' edits`: what stands at one place of `w` stands, after some events,
at another one as well, be it the same store or a copy of it that was made on the way. It
underwent `edits`, those on the store before it was copied included. -/
inductive Line : Stores α → Nat → List (Event α) → Nat → List (Store.Edit α) → Prop
  | here (w : Stores α) (place : Nat) : Line w place [] place []
  | stays {w : Stores α} {place : Nat} (event : Event α) {events : List (Event α)}
      {place' : Nat} {edits : List (Store.Edit α)} :
      Line (w.step event) place events place' edits →
      Line w place (event :: events) place' (event.editsOf place ++ edits)
  | copied {w : Stores α} {place : Nat} {events : List (Event α)} {place' : Nat}
      {edits : List (Store.Edit α)} :
      Line (w.step (.copy place)) w.all.length events place' edits →
      Line w place (.copy place :: events) place' edits

theorem run_append (w : Stores α) (events events' : List (Event α)) :
    w.run (events ++ events') = (w.run events).run events' :=
  List.foldl_append

/-- An event leaves the store at a place there, with the operations it makes on it. -/
theorem getElem?_step {w : Stores α} {place n : Nat} {s : Store α}
    (hs : w.all[place]? = some (n, s)) (event : Event α) :
    (w.step event).all[place]? = some (n, s.run (event.editsOf place)) := by
  have hplace : place < w.all.length := (List.getElem?_eq_some_iff.mp hs).1
  cases event with
  | create => exact (List.getElem?_append_left hplace).trans hs
  | createOther => exact hs
  | copy place' => exact (List.getElem?_append_left hplace).trans hs
  | edit place' edit =>
    simp only [step, Event.editsOf, List.getElem?_modify, hs]
    split <;> rfl

theorem getElem?_step_copy {w : Stores α} {place n : Nat} {s : Store α}
    (hs : w.all[place]? = some (n, s)) :
    (w.step (.copy place)).all[w.all.length]? = some (n, s) := by
  simp only [step, hs]
  exact List.getElem?_concat_length

theorem Line.getElem? {w : Stores α} {place place' n : Nat} {s : Store α}
    {events : List (Event α)} {edits : List (Store.Edit α)}
    (hline : w.Line place events place' edits) (hs : w.all[place]? = some (n, s)) :
    (w.run events).all[place']? = some (n, s.run edits) := by
  induction hline generalizing s with
  | here => exact hs
  | stays event _ ih =>
    rw [Store.run_append]
    exact ih (getElem?_step hs event)
  | copied _ ih => exact ih (getElem?_step_copy hs)

theorem exists_line (w : Stores α) (place : Nat) (events : List (Event α)) :
    ∃ edits, w.Line place events place edits := by
  induction events generalizing w with
  | nil => exact ⟨[], .here w place⟩
  | cons event events ih =>
    obtain ⟨edits, hline⟩ := ih (w.step event)
    exact ⟨event.editsOf place ++ edits, .stays event hline⟩

/-! ## Identities -/

/-- Every store's index is right, and identities tell stores of different creations apart. -/
structure Sound (w : Stores α) : Prop where
  indexed : ∀ entry ∈ w.all, entry.2.Indexed
  created : ∀ entry ∈ w.all, entry.1 < w.created
  next : ∀ entry ∈ w.all, entry.2.identity < w.next
  identity : ∀ a ∈ w.all, ∀ b ∈ w.all, a.2.identity = b.2.identity ↔ a.1 = b.1

theorem Sound.start : (Stores.start : Stores α).Sound := by
  constructor <;> exact fun _ h => absurd h List.not_mem_nil

/-- Stores that go back to sound ones, with their numbers and identities, are sound. -/
theorem Sound.of_earlier {w w' : Stores α} (hw : w.Sound) (hcreated : w.created ≤ w'.created)
    (hnext : w.next ≤ w'.next)
    (hearlier : ∀ entry ∈ w'.all, entry.2.Indexed ∧
      ∃ old ∈ w.all, old.1 = entry.1 ∧ old.2.identity = entry.2.identity) : w'.Sound where
  indexed entry hentry := (hearlier entry hentry).1
  created entry hentry := by
    obtain ⟨-, old, hold, hnumber, -⟩ := hearlier entry hentry
    exact hnumber ▸ Nat.lt_of_lt_of_le (hw.created old hold) hcreated
  next entry hentry := by
    obtain ⟨-, old, hold, -, hid⟩ := hearlier entry hentry
    exact hid ▸ Nat.lt_of_lt_of_le (hw.next old hold) hnext
  identity a ha b hb := by
    obtain ⟨-, a', ha', hnumber, hid⟩ := hearlier a ha
    obtain ⟨-, b', hb', hnumber', hid'⟩ := hearlier b hb
    rw [← hnumber, ← hnumber', ← hid, ← hid']
    exact hw.identity a' ha' b' hb'

theorem Sound.create {w : Stores α} (hw : w.Sound) : (w.step .create).Sound := by
  have hcases : ∀ entry ∈ (w.step .create).all,
      entry ∈ w.all ∨ entry = (w.created, Store.empty w.next) := fun entry hentry =>
    (List.mem_append.mp hentry).imp_right List.mem_singleton.mp
  refine ⟨fun entry hentry => ?_, fun entry hentry => ?_, fun entry hentry => ?_,
    fun a ha b hb => ?_⟩
  · rcases hcases entry hentry with hold | rfl
    · exact hw.indexed entry hold
    · exact Store.Indexed.empty w.next
  · rcases hcases entry hentry with hold | rfl
    · exact Nat.lt_succ_of_lt (hw.created entry hold)
    · exact Nat.lt_succ_self w.created
  · rcases hcases entry hentry with hold | rfl
    · exact Nat.lt_succ_of_lt (hw.next entry hold)
    · exact Nat.lt_succ_self w.next
  · -- Number and identity of the new store are both greater than all before.
    rcases hcases a ha with hold | rfl
    · rcases hcases b hb with hold' | rfl
      · exact hw.identity a hold b hold'
      · exact iff_of_false (Nat.ne_of_lt (hw.next a hold)) (Nat.ne_of_lt (hw.created a hold))
    · rcases hcases b hb with hold' | rfl
      · exact iff_of_false (Nat.ne_of_gt (hw.next b hold')) (Nat.ne_of_gt (hw.created b hold'))
      · exact iff_of_true rfl rfl

theorem Sound.step {w : Stores α} (hw : w.Sound) (event : Event α) : (w.step event).Sound := by
  cases event with
  | create => exact hw.create
  | createOther =>
    exact hw.of_earlier (Nat.le_refl _) (Nat.le_succ _) fun entry hentry =>
      ⟨hw.indexed entry hentry, entry, hentry, rfl, rfl⟩
  | copy place =>
    refine hw.of_earlier (Nat.le_refl _) (Nat.le_refl _) fun entry hentry => ?_
    have hold : entry ∈ w.all := by
      rcases List.mem_append.mp hentry with hold | hcopy
      · exact hold
      · exact List.mem_of_getElem? (Option.mem_toList.mp hcopy)
    exact ⟨hw.indexed entry hold, entry, hold, rfl, rfl⟩
  | edit place edit =>
    refine hw.of_earlier (Nat.le_refl _) (Nat.le_refl _) fun entry hentry => ?_
    obtain ⟨place', hplace'⟩ := List.mem_iff_getElem?.mp hentry
    simp only [Stores.step, List.getElem?_modify, Option.map_eq_map,
      Option.map_eq_some_iff] at hplace'
    obtain ⟨old, hold, rfl⟩ := hplace'
    have hmem := List.mem_of_getElem? hold
    have hindexed := hw.indexed old hmem
    split
    · exact ⟨edit.indexed_apply hindexed, old, hmem, rfl, (hindexed.fields_apply edit).1.symm⟩
    · exact ⟨hindexed, old, hmem, rfl, rfl⟩

theorem Sound.run {w : Stores α} (hw : w.Sound) (events : List (Event α)) :
    (w.run events).Sound := by
  induction events generalizing w with
  | nil => exact hw
  | cons event events ih => exact ih (hw.step event)

/-! ## Handles for life -/

/-- The history `before` leads to a store that gives out the handle of an entity, and `after` is
what happens then. In the store itself and in every copy of it the handle stands for the entity,
followed through the operations on this copy alone, and from its removal on for nothing. A store
stands apart exactly if it comes from another creation; there the handle stands for nothing, and
renaming by it is refused. -/
theorem handle_for_life {before after : List (Event α)} {place n : Nat} {s : Store α} {h : Handle}
    {entity : α} (hs : (start.run before).all[place]? = some (n, s))
    (hissues : s.Issues h entity) :
    (∀ place' edits, (start.run before).Line place after place' edits →
      ∃ t, (start.run (before ++ after)).all[place']? = some (n, t) ∧
        t.resolve? h = s.follow h edits (some entity) ∧
        ∀ first rest, edits = first ++ rest → s.follow h first (some entity) = none →
          t.resolve? h = none) ∧
    ∀ m t, (m, t) ∈ (start.run (before ++ after)).all →
      (t.identity ≠ h.identity ↔ m ≠ n) ∧
      (t.identity ≠ h.identity → t.resolve? h = none ∧
        ∀ name, (∃ e, t.rename h name = .error e) ∧ (Store.Edit.rename h name).apply t = t) := by
  have hbefore : (start.run before).Sound := Sound.start.run before
  have hafter : (start.run (before ++ after)).Sound := Sound.start.run (before ++ after)
  have hindexed : s.Indexed := hbefore.indexed _ (List.mem_of_getElem? hs)
  have hresolve := hindexed.resolve?_of_issues hissues
  have hissued := Store.HasIssued.of_resolve? hresolve
  refine ⟨fun place' edits hline => ?_, fun m t ht => ⟨?_, fun hid => ?_⟩⟩
  · have hfollow := hindexed.resolve?_run hissued edits
    rw [hresolve] at hfollow
    refine ⟨s.run edits, ?_, hfollow, fun first rest hedits hremoved => ?_⟩
    · rw [run_append]
      exact hline.getElem? hs
    · rw [hfollow, hedits, Store.follow_append, hremoved, Store.follow_none]
  · -- The store itself is still there, with its number and its identity.
    obtain ⟨edits, hline⟩ := exists_line (start.run before) place after
    have hstill := List.mem_of_getElem? (hline.getElem? hs)
    rw [← run_append] at hstill
    rw [hissued.1, ← hindexed.identity_run edits]
    exact not_congr (hafter.identity _ ht _ hstill)
  · have hnone := Store.resolve?_of_identity_ne (Ne.symm hid)
    refine ⟨hnone, fun name => ?_⟩
    obtain ⟨e, hrefused⟩ := Store.exists_rename_eq_error hnone name
    refine ⟨⟨e, hrefused⟩, ?_⟩
    simp only [Store.Edit.apply, hrefused]

/-- The state `a` is in the first of two stores. A copy of the first one removes it and adds another
state of its name, while the first one renames it and makes it accepting. -/
def sample : List (Event State) × List (Event State) :=
  ([.create, .edit 0 (.add (State.new "a")), .createOther, .create],
    [.copy 0, .edit 2 (.remove "a"), .edit 2 (.add (State.new "a")), .edit 0 (.rename ⟨0, 0⟩ "b"),
      .edit 0 (.modify "b" ⟨(State.setAccepting · true), fun _ => rfl⟩)])

theorem handle_of_sample : ∃ s original copy other,
    (start.run sample.1).all[0]? = some (0, s) ∧ s.Issues ⟨0, 0⟩ (State.new "a") ∧
    (start.run (sample.1 ++ sample.2)).all = [(0, original), (1, other), (0, copy)] ∧
    original.resolve? ⟨0, 0⟩ = some ((Named.withName (State.new "a") "b").setAccepting true) ∧
    copy.resolve? ⟨0, 0⟩ = none ∧ copy.contains "a" = true ∧
    other.identity ≠ 0 ∧ other.resolve? ⟨0, 0⟩ = none := by
  let s := (((start.run sample.1).all[0]?).get rfl).2
  let last := (start.run (sample.1 ++ sample.2)).all
  let original := ((last[0]?).get rfl).2
  let other := ((last[1]?).get rfl).2
  let copy := ((last[2]?).get rfl).2
  have hissues : s.Issues ⟨0, 0⟩ (State.new "a") := .listed List.mem_cons_self
  have hall : last = [(0, original), (1, other), (0, copy)] := rfl
  have hs : (start.run sample.1).all[0]? = some (0, s) := rfl
  obtain ⟨hlines, hothers⟩ := @handle_for_life State _ sample.1 sample.2 _ _ _ _ _ hs hissues
  obtain ⟨t, ht, hgone, -⟩ := hlines 2 _
    (.copied (.stays _ (.stays _ (.stays _ (.stays _ (.here _ 2))))))
  cases ht
  obtain ⟨t, ht, hstill, -⟩ := hlines 0 _
    (.stays _ (.stays _ (.stays _ (.stays _ (.stays _ (.here _ 0))))))
  cases ht
  have hother : (1, other) ∈ last := List.mem_of_getElem? (i := 1) rfl
  obtain ⟨hid, hforeign⟩ := hothers 1 other hother
  exact ⟨s, original, copy, other, hs, hissues, hall, hstill, hgone, rfl,
    hid.mpr Nat.one_ne_zero, (hforeign (hid.mpr Nat.one_ne_zero)).1⟩

end Stores

end HierarchicalTuring
