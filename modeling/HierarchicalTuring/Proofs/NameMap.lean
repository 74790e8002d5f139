import HierarchicalTuring.NameMap
import Mathlib.Data.List.Sort

/-! # What a map from names holds

* `NameMap.find?_eq_some_iff`: looking a name up is finding its entry. Maps with the same look-ups
  are equal (`ext_find?`).
* `NameMap.find?_insert` says what an insertion does to every look-up, and `mem_ofList_iff` what a
  map made from entries with distinct names holds.
* `NameMap.Related R` compares maps with the same names value by value.
-/

set_option autoImplicit false

namespace HierarchicalTuring

namespace NameMap

variable {β γ : Type}

theorem nodup_names (m : NameMap β) : m.names.Nodup :=
  m.names_pairwise.imp String.ne_of_lt

theorem mem_insertInto_iff {name : String} {value : β} {entries : List (String × β)}
    (h : NamesIncrease entries) {entry : String × β} :
    entry ∈ insertInto name value entries ↔
      entry = (name, value) ∨ (entry ∈ entries ∧ entry.1 ≠ name) := by
  induction entries with
  | nil => simp [insertInto]
  | cons first rest ih =>
    have hrest := List.pairwise_cons.mp h
    unfold insertInto
    split
    · next hlt =>
      have hne : ∀ other ∈ first :: rest, other.1 ≠ name := by
        intro other hother
        rcases List.mem_cons.mp hother with rfl | hother
        · exact (String.ne_of_lt hlt).symm
        · exact (String.ne_of_lt (String.lt_trans hlt (hrest.1 other hother))).symm
      rw [List.mem_cons]
      exact or_congr_right ⟨fun hmem => ⟨hmem, hne entry hmem⟩, And.left⟩
    · split
      · next heq =>
        have hne : ∀ other ∈ rest, other.1 ≠ name := by
          intro other hother
          rw [heq]
          exact (String.ne_of_lt (hrest.1 other hother)).symm
        rw [List.mem_cons, List.mem_cons]
        refine or_congr_right ⟨fun hmem => ⟨.inr hmem, hne entry hmem⟩, ?_⟩
        rintro ⟨rfl | hmem, hname⟩
        · exact absurd heq.symm hname
        · exact hmem
      · next hne =>
        rw [List.mem_cons, List.mem_cons, ih hrest.2]
        constructor
        · rintro (rfl | rfl | ⟨hmem, hname⟩)
          · exact .inr ⟨.inl rfl, fun heq => hne heq.symm⟩
          · exact .inl rfl
          · exact .inr ⟨.inr hmem, hname⟩
        · rintro (rfl | ⟨rfl | hmem, hname⟩)
          · exact .inr (.inl rfl)
          · exact .inl rfl
          · exact .inr (.inr ⟨hmem, hname⟩)

/-! ## Look-ups -/

theorem eq_of_mem {m : NameMap β} {name : String} {value value' : β}
    (h : (name, value) ∈ m.entries) (h' : (name, value') ∈ m.entries) : value = value' :=
  congrArg Prod.snd (List.inj_on_of_nodup_map m.nodup_names h h' rfl)

theorem find?_eq_some_iff {m : NameMap β} {name : String} {value : β} :
    m.find? name = some value ↔ (name, value) ∈ m.entries := by
  unfold find?
  rw [Option.map_eq_some_iff]
  constructor
  · rintro ⟨⟨name', value'⟩, hfind, rfl⟩
    have hname : name' = name := by simpa using List.find?_some hfind
    exact hname ▸ List.mem_of_find?_eq_some hfind
  · intro hmem
    have hsome : (m.entries.find? fun entry => entry.1 = name).isSome = true := by
      rw [List.find?_isSome]
      exact ⟨_, hmem, by simp⟩
    obtain ⟨⟨name', value'⟩, hfind⟩ := Option.isSome_iff_exists.mp hsome
    have hname : name' = name := by simpa using List.find?_some hfind
    subst hname
    exact ⟨_, hfind, eq_of_mem (List.mem_of_find?_eq_some hfind) hmem⟩

theorem find?_eq_none_iff {m : NameMap β} {name : String} :
    m.find? name = none ↔ name ∉ m.names := by
  unfold find? names
  rw [Option.map_eq_none_iff, List.find?_eq_none, List.mem_map]
  simp only [decide_eq_true_eq, not_exists, not_and]

theorem ext_find? {a b : NameMap β} (h : ∀ name, a.find? name = b.find? name) : a = b := by
  have hmem : ∀ entry, entry ∈ a.entries ↔ entry ∈ b.entries := by
    rintro ⟨name, value⟩
    rw [← find?_eq_some_iff, ← find?_eq_some_iff, h]
  have hperm : a.entries.Perm b.entries :=
    (List.perm_ext_iff_of_nodup a.nodup_names.of_map b.nodup_names.of_map).mpr hmem
  refine ext (hperm.eq_of_pairwise ?_ a.increase b.increase)
  intro first second _ _ hlt hgt
  exact absurd hgt (String.lt_asymm hlt)

theorem find?_insert (m : NameMap β) (name other : String) (value : β) :
    (m.insert name value).find? other = if other = name then some value else m.find? other := by
  refine Option.ext fun found => ?_
  rw [find?_eq_some_iff, insert, mem_insertInto_iff m.increase]
  by_cases hother : other = name
  · subst hother
    simp [eq_comm]
  · simp [hother, find?_eq_some_iff]

/-! ## Maps made from entries -/

theorem mem_foldl_insert_iff {entries : List (String × β)} (h : (entries.map Prod.fst).Nodup)
    (m : NameMap β) {entry : String × β} :
    entry ∈ (entries.foldl (fun m entry => m.insert entry.1 entry.2) m).entries ↔
      entry ∈ entries ∨ (entry ∈ m.entries ∧ entry.1 ∉ entries.map Prod.fst) := by
  induction entries generalizing m with
  | nil => simp
  | cons first rest ih =>
    rw [List.map_cons, List.nodup_cons] at h
    rw [List.foldl_cons, ih h.2, insert, mem_insertInto_iff m.increase, List.mem_cons,
      List.map_cons, List.mem_cons, not_or]
    constructor
    · rintro (hrest | ⟨rfl | ⟨hmem, hne⟩, hnot⟩)
      · exact .inl (.inr hrest)
      · exact .inl (.inl rfl)
      · exact .inr ⟨hmem, hne, hnot⟩
    · rintro ((rfl | hrest) | ⟨hmem, hne, hnot⟩)
      · exact .inr ⟨.inl rfl, h.1⟩
      · exact .inl hrest
      · exact .inr ⟨.inr ⟨hmem, hne⟩, hnot⟩

theorem mem_of_mem_ofList {entries : List (String × β)} {entry : String × β}
    (h : entry ∈ (ofList entries).entries) : entry ∈ entries := by
  have hfold : ∀ (entries : List (String × β)) (m : NameMap β),
      entry ∈ (entries.foldl (fun m entry => m.insert entry.1 entry.2) m).entries →
        entry ∈ entries ∨ entry ∈ m.entries := by
    intro entries
    induction entries with
    | nil => exact fun _ => .inr
    | cons first rest ih =>
      intro m hmem
      rcases ih _ hmem with hrest | hinsert
      · exact .inl (List.mem_cons_of_mem _ hrest)
      · rcases mem_insertInto hinsert with rfl | hold
        · exact .inl List.mem_cons_self
        · exact .inr hold
  exact (hfold entries empty h).resolve_right List.not_mem_nil

theorem mem_ofList_iff {entries : List (String × β)} (h : (entries.map Prod.fst).Nodup)
    {entry : String × β} : entry ∈ (ofList entries).entries ↔ entry ∈ entries := by
  rw [ofList, mem_foldl_insert_iff h]
  simp [empty]

theorem find?_ofList_eq_some_iff {entries : List (String × β)} (h : (entries.map Prod.fst).Nodup)
    {name : String} {value : β} :
    (ofList entries).find? name = some value ↔ (name, value) ∈ entries := by
  rw [find?_eq_some_iff, mem_ofList_iff h]

theorem perm_ofList {entries : List (String × β)} (h : (entries.map Prod.fst).Nodup) :
    (ofList entries).entries.Perm entries :=
  (List.perm_ext_iff_of_nodup (nodup_names _).of_map h.of_map).mpr fun _ => mem_ofList_iff h

theorem ofList_of_perm {entries entries' : List (String × β)} (h : (entries.map Prod.fst).Nodup)
    (hperm : entries'.Perm entries) : ofList entries' = ofList entries :=
  ext_find? fun name => Option.ext fun value => by
    rw [find?_ofList_eq_some_iff h, find?_ofList_eq_some_iff ((hperm.map Prod.fst).nodup_iff.mpr h),
      hperm.mem_iff]

theorem ofList_entries (m : NameMap β) : ofList m.entries = m :=
  ext_find? fun name => Option.ext fun value => by
    rw [find?_ofList_eq_some_iff m.nodup_names, find?_eq_some_iff]

/-- The last entry of a name counts. -/
theorem find?_ofList (entries : List (String × β)) (name : String) :
    (ofList entries).find? name =
      (entries.reverse.find? fun entry => entry.1 = name).map Prod.snd := by
  rw [ofList, List.foldl_eq_foldr_reverse]
  induction entries.reverse with
  | nil => rfl
  | cons entry rest ih =>
    rw [List.foldr_cons, find?_insert, ih]
    by_cases hname : entry.1 = name
    · rw [if_pos hname.symm, List.find?_cons_of_pos (by simpa using hname)]
      rfl
    · rw [if_neg (Ne.symm hname), List.find?_cons_of_neg (by simpa using hname)]

theorem mem_names_ofList {entries : List (String × β)} {name : String} :
    name ∈ (ofList entries).names ↔ name ∈ entries.map Prod.fst := by
  rw [← not_iff_not, ← find?_eq_none_iff, find?_ofList, Option.map_eq_none_iff,
    List.find?_eq_none, List.mem_map]
  simp only [List.mem_reverse, decide_eq_true_eq, not_exists, not_and]

/-- Entries that may repeat, but not with another value, make a map of just these entries. -/
theorem find?_ofList_of_unique {entries : List (String × β)}
    (h : ∀ entry ∈ entries, ∀ other ∈ entries, entry.1 = other.1 → entry = other) {name : String}
    {value : β} : (ofList entries).find? name = some value ↔ (name, value) ∈ entries := by
  rw [find?_ofList, Option.map_eq_some_iff]
  constructor
  · rintro ⟨⟨name', value'⟩, hfind, rfl⟩
    have hname : name' = name := by simpa using List.find?_some hfind
    exact hname ▸ List.mem_reverse.mp (List.mem_of_find?_eq_some hfind)
  · intro hmem
    have hsome : (entries.reverse.find? fun entry => entry.1 = name).isSome = true := by
      rw [List.find?_isSome]
      exact ⟨_, List.mem_reverse.mpr hmem, by simp⟩
    obtain ⟨found, hfind⟩ := Option.isSome_iff_exists.mp hsome
    have hname : found.1 = name := by simpa using List.find?_some hfind
    have hfound := List.mem_reverse.mp (List.mem_of_find?_eq_some hfind)
    exact ⟨found, hfind, congrArg Prod.snd (h found hfound _ hmem hname)⟩

/-! ## Changing every value -/

/-- The map with every value changed. -/
def map (change : β → γ) (m : NameMap β) : NameMap γ where
  entries := m.entries.map fun entry => (entry.1, change entry.2)
  increase := by
    unfold NamesIncrease
    rw [List.pairwise_map]
    exact m.increase

theorem find?_map (change : β → γ) (m : NameMap β) (name : String) :
    (m.map change).find? name = (m.find? name).map change := by
  simp only [find?, map, List.find?_map, Option.map_map]
  rfl

/-! ## Maps with the same names -/

/-- The maps have the same names, with related values. -/
def Related (R : β → γ → Prop) (a : NameMap β) (b : NameMap γ) : Prop :=
  List.Forall₂ (fun x y => x.1 = y.1 ∧ R x.2 y.2) a.entries b.entries

instance {R : β → γ → Prop} [∀ x y, Decidable (R x y)] (a : NameMap β) (b : NameMap γ) :
    Decidable (a.Related R b) :=
  inferInstanceAs (Decidable (List.Forall₂ _ a.entries b.entries))

theorem Related.refl {R : β → β → Prop} (hR : ∀ x, R x x) (a : NameMap β) : a.Related R a :=
  List.forall₂_same.mpr fun x _ => ⟨rfl, hR x.2⟩

theorem Related.symm {R : β → β → Prop} (hR : ∀ {x y}, R x y → R y x) {a b : NameMap β}
    (h : a.Related R b) : b.Related R a :=
  h.flip.imp fun _ _ hxy => ⟨hxy.1.symm, hR hxy.2⟩

theorem Related.exists_find? {R : β → γ → Prop} {a : NameMap β} {b : NameMap γ}
    (h : a.Related R b) {name : String} {x : β} (hx : a.find? name = some x) :
    ∃ y, b.find? name = some y ∧ R x y := by
  have hentries : List.Forall₂ (fun x y => x.1 = y.1 ∧ R x.2 y.2) a.entries b.entries := h
  simp only [find?_eq_some_iff] at hx ⊢
  generalize a.entries = left, b.entries = right at hx hentries ⊢
  induction hentries with
  | nil => cases hx
  | @cons entry entry' _ _ hentry _ ih =>
    rcases List.mem_cons.mp hx with rfl | hx
    · exact ⟨entry'.2, List.mem_cons.mpr (.inl (Prod.ext hentry.1 rfl)), hentry.2⟩
    · obtain ⟨y, hy, hxy⟩ := ih hx
      exact ⟨y, List.mem_cons_of_mem _ hy, hxy⟩

end NameMap

end HierarchicalTuring
