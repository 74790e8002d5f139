import HierarchicalTuring.Error
import HierarchicalTuring.Index
import HierarchicalTuring.Store.Handle

/-! # Stores of named entities

A store keeps entities in slots, in the order of their addition, beside an index from names to
slots. Removal empties a slot for good, so a handle never comes to mean another entity of the same
store.

* `Named` is what an entity has to offer: a name, and a way to change it.
* `Store.add`, `Store.remove?`, `Store.rename` keep slots and index in step; `Store.modify?` and
  `Store.modifyAt?` change an entity in place.
* `Store.get?` and `Store.handleOf?` go through the index, `Store.resolve?` through the slots.
* `Store.live` is the store as a list: its entities in the order of addition.
-/

set_option autoImplicit false

namespace HierarchicalTuring

/-- Entities that carry a changeable name. -/
class Named (α : Type) where
  name : α → String
  withName : α → String → α
  name_withName : ∀ (entity : α) (name' : String), name (withName entity name') = name'

/-- Entities in slots, with an index from their names. -/
structure Store (α : Type) where
  identity : Identity
  slots : List (Option α)
  index : Index String
deriving Repr

namespace Store

variable {α : Type}

/-- A store that holds nothing. -/
def empty (identity : Identity) : Store α :=
  ⟨identity, [], .empty⟩

/-- The handle of a slot of this store. -/
def handleAt (s : Store α) (slot : Nat) : Handle :=
  ⟨s.identity, slot⟩

/-- The entity in a slot, if the slot was used and is not emptied. -/
def slot? (s : Store α) (slot : Nat) : Option α :=
  (s.slots[slot]?).join

/-! ## Looking up -/

/-- The handle of the entity with a name. -/
def handleOf? (s : Store α) (name : String) : Option Handle :=
  (s.index.find? name).map s.handleAt

/-- The entity with a name. -/
def get? (s : Store α) (name : String) : Option α :=
  (s.index.find? name).bind s.slot?

/-- Whether a name is claimed. -/
def contains (s : Store α) (name : String) : Bool :=
  s.index.contains name

/-- Whether a handle was issued under this store's identity. -/
def issued (s : Store α) (h : Handle) : Bool :=
  h.identity = s.identity

/-- The entity a handle stands for, while it is in the store. -/
def resolve? (s : Store α) (h : Handle) : Option α :=
  if s.issued h then s.slot? h.slot else none

/-- The number of claimed names. -/
def size (s : Store α) : Nat :=
  s.index.size

/-- Whether no name is claimed. -/
def isEmpty (s : Store α) : Bool :=
  s.size = 0

/-- Slots with their numbers, counted from `start`, the empty ones left out. -/
def occupied (start : Nat) : List (Option α) → List (Nat × α)
  | [] => []
  | none :: rest => occupied (start + 1) rest
  | some entity :: rest => (start, entity) :: occupied (start + 1) rest

/-- All entities with their handles, in the order of addition. -/
def entries (s : Store α) : List (Handle × α) :=
  (occupied 0 s.slots).map fun (slot, entity) => (s.handleAt slot, entity)

/-- All entities, in the order of addition. -/
def live (s : Store α) : List α :=
  s.slots.filterMap id

/-! ## Handles and slots -/

@[simp] theorem resolve?_handleAt (s : Store α) (slot : Nat) :
    s.resolve? (s.handleAt slot) = s.slot? slot := by
  simp [resolve?, issued, handleAt]

theorem resolve?_of_identity_ne {s : Store α} {h : Handle} (hne : h.identity ≠ s.identity) :
    s.resolve? h = none := by
  simp [resolve?, issued, hne]

/-! ## Changing entities in place -/

/-- Replaces the entity of a used slot. -/
def put (s : Store α) (slot : Nat) (entity : α) : Store α :=
  { s with slots := s.slots.set slot (some entity) }

/-- Changes the entity with a name. The change has to keep the name. -/
def modify? (s : Store α) (name : String) (change : α → α) : Option (Store α) := do
  let slot ← s.index.find? name
  let entity ← s.slot? slot
  return s.put slot (change entity)

/-- Changes the entity a handle stands for. The change has to keep the name. -/
def modifyAt? (s : Store α) (h : Handle) (change : α → α) : Option (Store α) := do
  let entity ← s.resolve? h
  return s.put h.slot (change entity)

/-- Changes every entity. The change has to keep the names. -/
def mapEntities (s : Store α) (change : α → α) : Store α :=
  { s with slots := s.slots.map fun slot => slot.map change }

/-! ## Adding, removing, renaming -/

variable [Named α]

/-- The names of all entities, in the order of addition. -/
def names (s : Store α) : List String :=
  s.live.map Named.name

/-- Adds an entity under its name, unless the name is claimed. -/
def add (s : Store α) (entity : α) : Except ModelError (Handle × Store α) :=
  if s.contains (Named.name entity) then
    .error (.nameInUse (Named.name entity))
  else
    .ok (s.handleAt s.slots.length,
      { s with
        slots := s.slots ++ [some entity]
        index := s.index.insert (Named.name entity) s.slots.length })

/-- Takes the entity with a name out of the store and empties its slot. -/
def remove? (s : Store α) (name : String) : Option (Handle × α × Store α) := do
  let slot ← s.index.find? name
  let entity ← s.slot? slot
  return (s.handleAt slot, entity,
    { s with slots := s.slots.set slot none, index := s.index.erase name })

/-- Renames the entity a handle stands for. The new name has to be free, so an entity's own name
is refused as well, and that is found out before the handle is looked at. -/
def rename (s : Store α) (h : Handle) (name : String) : Except ModelError (Store α) :=
  if s.contains name then
    .error (.nameInUse name)
  else
    match s.resolve? h with
    | none => .error (.notFound h.text)
    | some entity =>
      .ok { s with
        slots := s.slots.set h.slot (some (Named.withName entity name))
        index := (s.index.erase (Named.name entity)).insert name h.slot }

/-! ## What the operations say -/

theorem add_eq_error_iff {s : Store α} {entity : α} {e : ModelError} :
    s.add entity = .error e ↔
      s.contains (Named.name entity) = true ∧ e = .nameInUse (Named.name entity) := by
  unfold add
  split
  · next h => exact ⟨fun he => ⟨h, by cases he; rfl⟩, fun he => by rw [he.2]⟩
  · next h => exact ⟨nofun, fun he => absurd he.1 h⟩

theorem slot?_add {s t : Store α} {entity : α} {h : Handle} (hadd : s.add entity = .ok (h, t))
    (slot : Nat) : t.slot? slot = if slot = s.slots.length then some entity else s.slot? slot := by
  unfold add at hadd
  split at hadd
  · cases hadd
  · cases hadd
    unfold slot?
    rw [List.getElem?_append]
    rcases Nat.lt_trichotomy slot s.slots.length with hlt | heq | hgt
    · simp [hlt, Nat.ne_of_lt hlt]
    · simp [heq]
    · have : ¬ slot < s.slots.length := by omega
      have hne : ¬ slot - s.slots.length = 0 := by omega
      simp [this, Nat.ne_of_gt hgt, hne]

end Store

end HierarchicalTuring
