/-! # Maps from names

* `NameMap β` is a finite map from names, kept as a list in the order of the names' code points.
  Sortedness is part of the type, so maps with the same entries are equal, and an object written
  from a map has its keys in order.
* `NameMap.insert` replaces the value of a key that is present. `NameMap.ofList` inserts one entry
  after the other, so the last value of a repeated key stays.
-/

set_option autoImplicit false

namespace HierarchicalTuring

/-- Entries with strictly increasing names. -/
def NamesIncrease {β : Type} (entries : List (String × β)) : Prop :=
  entries.Pairwise fun a b => a.1 < b.1

/-- A finite map from names. -/
structure NameMap (β : Type) where
  entries : List (String × β)
  increase : NamesIncrease entries

namespace NameMap

variable {β : Type}

@[ext] theorem ext {a b : NameMap β} (h : a.entries = b.entries) : a = b := by
  cases a; cases b; cases h; rfl

instance [DecidableEq β] : DecidableEq (NameMap β) := fun a b =>
  decidable_of_iff (a.entries = b.entries) ⟨ext, fun h => by rw [h]⟩

/-- The map without entries. -/
def empty : NameMap β :=
  ⟨[], List.Pairwise.nil⟩

instance : Inhabited (NameMap β) := ⟨empty⟩

/-- Sorted entries with a value put in at its place. -/
def insertInto (name : String) (value : β) : List (String × β) → List (String × β)
  | [] => [(name, value)]
  | entry :: rest =>
    if name < entry.1 then (name, value) :: entry :: rest
    else if name = entry.1 then (name, value) :: rest
    else entry :: insertInto name value rest

theorem mem_insertInto {name : String} {value : β} {entries : List (String × β)}
    {entry : String × β} (h : entry ∈ insertInto name value entries) :
    entry = (name, value) ∨ entry ∈ entries := by
  induction entries with
  | nil => simpa [insertInto] using h
  | cons first rest ih =>
    unfold insertInto at h
    split at h
    · simpa using h
    · split at h
      · rcases List.mem_cons.mp h with h | h
        · exact .inl h
        · exact .inr (List.mem_cons_of_mem _ h)
      · rcases List.mem_cons.mp h with h | h
        · exact .inr (h ▸ List.mem_cons_self)
        · rcases ih h with h | h
          · exact .inl h
          · exact .inr (List.mem_cons_of_mem _ h)

theorem increase_insertInto {name : String} {value : β} {entries : List (String × β)}
    (h : NamesIncrease entries) : NamesIncrease (insertInto name value entries) := by
  induction entries with
  | nil => exact List.pairwise_singleton _ _
  | cons first rest ih =>
    have hrest := List.pairwise_cons.mp h
    unfold insertInto
    split
    · next hlt =>
      refine List.pairwise_cons.mpr ⟨fun entry hentry => ?_, h⟩
      rcases List.mem_cons.mp hentry with rfl | hentry
      · exact hlt
      · exact String.lt_trans hlt (hrest.1 entry hentry)
    · next hlt =>
      split
      · next heq =>
        exact List.pairwise_cons.mpr ⟨fun entry hentry => heq ▸ hrest.1 entry hentry, hrest.2⟩
      · next hne =>
        refine List.pairwise_cons.mpr ⟨fun entry hentry => ?_, ih hrest.2⟩
        rcases mem_insertInto hentry with rfl | hentry
        · rcases String.le_total first.1 name with hle | hle
          · exact String.not_le.mp fun hge => hne (String.le_antisymm hge hle)
          · exact absurd (String.not_le.mp fun hge => hne (String.le_antisymm hle hge)) hlt
        · exact hrest.1 entry hentry

/-- The map with a value for a name, whatever value the name had before. -/
def insert (m : NameMap β) (name : String) (value : β) : NameMap β :=
  ⟨insertInto name value m.entries, increase_insertInto m.increase⟩

/-- The map with these entries, of which later ones replace earlier ones of the same name. -/
def ofList (entries : List (String × β)) : NameMap β :=
  entries.foldl (fun m entry => m.insert entry.1 entry.2) empty

/-- The value of a name. -/
def find? (m : NameMap β) (name : String) : Option β :=
  (m.entries.find? fun entry => entry.1 = name).map Prod.snd

/-- The names in order. -/
def names (m : NameMap β) : List String :=
  m.entries.map Prod.fst

theorem names_pairwise (m : NameMap β) : m.names.Pairwise (· < ·) := by
  have := m.increase
  unfold NamesIncrease at this
  unfold names
  rw [List.pairwise_map]
  exact this

end NameMap

end HierarchicalTuring
