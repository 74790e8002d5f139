/-! # Indices

* `Index κ` maps keys to natural numbers, each key at most once at a time. A store uses one from
  names to slots, a state one from characters to transition numbers.
* `find?_insert` and `find?_erase` say what each change does to every look-up, and `mem_keys_iff`
  that the keys are those that are found.
-/

set_option autoImplicit false

namespace HierarchicalTuring

/-- A finite map from keys to natural numbers. -/
structure Index (κ : Type) where
  entries : List (κ × Nat)
deriving DecidableEq, Repr

namespace Index

variable {κ : Type} [DecidableEq κ]

/-- The index without keys. -/
def empty : Index κ :=
  ⟨[]⟩

instance : Inhabited (Index κ) := ⟨empty⟩

/-- The number a key is mapped to. -/
def find? (index : Index κ) (key : κ) : Option Nat :=
  (index.entries.find? fun entry => entry.1 = key).map Prod.snd

/-- Whether a key is claimed. -/
def contains (index : Index κ) (key : κ) : Bool :=
  (index.find? key).isSome

/-- Frees a key. -/
def erase (index : Index κ) (key : κ) : Index κ :=
  ⟨index.entries.filter fun entry => entry.1 ≠ key⟩

/-- Maps a key to a number, whatever it was mapped to before. -/
def insert (index : Index κ) (key : κ) (value : Nat) : Index κ :=
  ⟨(index.erase key).entries ++ [(key, value)]⟩

/-- Maps each of the keys to one number. -/
def insertAll (index : Index κ) (keys : List κ) (value : Nat) : Index κ :=
  keys.foldl (fun index key => index.insert key value) index

/-- The claimed keys. -/
def keys (index : Index κ) : List κ :=
  index.entries.map Prod.fst

/-- The number of claimed keys. -/
def size (index : Index κ) : Nat :=
  index.entries.length

/-! ## Look-ups after a change -/

@[simp] theorem find?_empty (key : κ) : (empty : Index κ).find? key = none := rfl

theorem find?_erase (index : Index κ) (key other : κ) :
    (index.erase key).find? other = if other = key then none else index.find? other := by
  unfold erase find?
  simp only
  induction index.entries with
  | nil => simp
  | cons entry rest ih =>
    by_cases hkey : entry.1 = key
    · by_cases hother : other = key
      · rw [List.filter_cons_of_neg (by simp [hkey]), ih, if_pos hother, if_pos hother]
      · have hne : ¬ entry.1 = other := fun h => hother (h ▸ hkey)
        rw [List.filter_cons_of_neg (by simp [hkey]), ih, if_neg hother, if_neg hother,
          List.find?_cons_of_neg (by simp [hne])]
    · rw [List.filter_cons_of_pos (by simp [hkey])]
      by_cases he : entry.1 = other
      · have hother : ¬ other = key := fun h => hkey (he.trans h)
        simp [he, hother]
      · rw [List.find?_cons_of_neg (by simp [he]), List.find?_cons_of_neg (by simp [he]), ih]

theorem find?_insert (index : Index κ) (key other : κ) (value : Nat) :
    (index.insert key value).find? other
      = if other = key then some value else index.find? other := by
  have herase := find?_erase index key other
  unfold insert
  unfold find? at herase ⊢
  rw [List.find?_append]
  by_cases hother : other = key
  · subst hother
    rw [if_pos rfl, Option.map_eq_none_iff] at herase
    simp [herase]
  · rw [if_neg hother] at herase ⊢
    have hne : ¬ key = other := fun h => hother h.symm
    rw [← herase]
    cases (index.erase key).entries.find? _ <;> simp [hne]

theorem mem_keys_iff (index : Index κ) (key : κ) :
    key ∈ index.keys ↔ index.contains key = true := by
  simp [keys, contains, find?, Option.isSome_map, List.find?_isSome]

end Index

end HierarchicalTuring
