import HierarchicalTuring.Json.Value
import HierarchicalTuring.Proofs.NameMap
import HierarchicalTuring.Proofs.Result
import Mathlib

/-! # Values are read as they are written

* `Binary64.ReadsBack x`: the double is written with digits that are read as this double. Most
  doubles are; digits are evaluated in double arithmetic, which may end at a neighbour.
* `Value.doubles` are the doubles in a value.
* `Value.ofTree_toTree`: a value that was read is written as a tree that reads as this value again,
  if its doubles do.
-/

set_option autoImplicit false

namespace HierarchicalTuring

/-- The double is read back from the digits it is written with. -/
def Binary64.ReadsBack (x : Binary64) : Prop :=
  (Json.Numeral.ofBinary64 x).toBinary64? = some x

instance (x : Binary64) : Decidable x.ReadsBack :=
  inferInstanceAs (Decidable (_ = _))

-- The double that is written 449.49106478873813 is read as its neighbour.
example : ¬ Binary64.ReadsBack ⟨false, 4646615146628677007, by decide⟩ := by decide +kernel

namespace Json

/-! ## Numbers -/

namespace Numeral

theorem isFinite_of_toBinary64 {n : Numeral} {x : Binary64} (h : n.toBinary64 = .ok x) :
    x.isFinite = true := by
  unfold toBinary64 at h
  split at h
  · next y hy =>
    cases h
    obtain ⟨hlt, -, hmagnitude⟩ := Binary64.ofMagnitude?_eq_some_iff.mp hy
    rw [Binary64.isFinite, hmagnitude, decide_eq_true_eq]
    exact hlt
  · cases h

theorem toBinary64_eq_ok_iff {n : Numeral} {x : Binary64} :
    n.toBinary64 = .ok x ↔ n.toBinary64? = some x := by
  unfold toBinary64
  cases n.toBinary64? <;> simp

theorem toBinary64_ofBinary64 {x : Binary64} (h : x.ReadsBack) :
    (ofBinary64 x).toBinary64 = .ok x := by
  unfold toBinary64
  rw [h]

/-- A double is written with a fraction or a power of ten. -/
theorem isWhole_ofBinary64 (x : Binary64) : (ofBinary64 x).isWhole = false := by
  have hplaces : ∀ n places : Nat, 0 < places → (lastDigits n places).isEmpty = false := by
    intro n places hpos
    rw [List.isEmpty_eq_false_iff, ← List.length_pos_iff, length_lastDigits]
    exact hpos
  unfold ofBinary64 ofDecimal
  simp only
  split
  · unfold positional
    split
    · simp [isWhole, hplaces]
    · next hexponent =>
      simp only [isWhole, hplaces _ _ (by omega : 0 < (-x.shortest.exponent).toNat)]
      rfl
  · simp [isWhole, scientific]

end Numeral

theorem treeOfBinary64_of_isFinite {x : Binary64} (h : x.isFinite = true) :
    treeOfBinary64 x = .number (.ofBinary64 x) :=
  if_pos h

namespace Value

theorem ofNumeral_ofInt {i : Int} (hlow : -(2 ^ 63 : Int) ≤ i) (hhigh : i < 2 ^ 64) :
    ofNumeral (.ofInt i) = .ok (.integer i) := by
  have hpow : Nat.pow 2 63 = 9223372036854775808 ∧ Nat.pow 2 64 = 18446744073709551616 := by decide
  unfold ofNumeral Numeral.ofInt
  by_cases hnegative : i < 0
  · have hfits : 0 < i.natAbs ∧ i.natAbs ≤ Nat.pow 2 63 := by omega
    have hvalue : -(i.natAbs : Int) = i := by omega
    simp only [decide_eq_true hnegative, decide_eq_true hfits, if_true, hvalue]
    rfl
  · have hfits : i.natAbs < Nat.pow 2 64 := by omega
    have hvalue : (i.natAbs : Int) = i := by omega
    simp only [decide_eq_false hnegative, decide_eq_true hfits, Bool.false_eq_true, if_false,
      hvalue]
    rfl

/-- What a number is read as: a whole number of 64 bits, or a finite double. -/
theorem ofNumeral_cases {n : Numeral} {v : Value} (h : ofNumeral n = .ok v) :
    (∃ i : Int, v = .integer i ∧ -(2 ^ 63 : Int) ≤ i ∧ i < 2 ^ 64) ∨
      ∃ x, v = .float x ∧ x.isFinite = true := by
  have hpow : Nat.pow 2 63 = 9223372036854775808 ∧ Nat.pow 2 64 = 18446744073709551616 := by decide
  have hdouble : ∀ {v : Value}, n.toBinary64.map Value.float = .ok v →
      ∃ x, v = .float x ∧ x.isFinite = true := by
    intro v hv
    cases hx : n.toBinary64 with
    | error e =>
      rw [hx] at hv
      cases hv
    | ok x =>
      rw [hx] at hv
      cases hv
      exact ⟨x, rfl, Numeral.isFinite_of_toBinary64 hx⟩
  unfold ofNumeral at h
  cases hnegative : n.negative with
  | true =>
    simp only [hnegative, if_true] at h
    by_cases hfits : n.isWhole = true ∧ 0 < n.whole ∧ n.whole ≤ Nat.pow 2 63
    · rw [if_pos (by simpa using hfits)] at h
      cases h
      exact .inl ⟨_, rfl, by omega, by omega⟩
    · rw [if_neg (by simpa using hfits)] at h
      exact .inr (hdouble h)
  | false =>
    simp only [hnegative, Bool.false_eq_true, if_false] at h
    by_cases hfits : n.isWhole = true ∧ n.whole < Nat.pow 2 64
    · rw [if_pos (by simpa using hfits)] at h
      cases h
      exact .inl ⟨_, rfl, by omega, by omega⟩
    · rw [if_neg (by simpa using hfits)] at h
      exact .inr (hdouble h)

theorem ofNumeral_ofBinary64 {x : Binary64} (h : x.ReadsBack) :
    ofNumeral (.ofBinary64 x) = .ok (.float x) := by
  unfold ofNumeral
  simp only [Numeral.isWhole_ofBinary64, Bool.false_and, Bool.false_eq_true, if_false,
    Numeral.toBinary64_ofBinary64 h]
  rfl

/-! ## Values -/

mutual

/-- The doubles in a value. -/
def doubles : Value → List Binary64
  | .float x => [x]
  | .array items => doublesOfItems items
  | .object members => doublesOfMembers members
  | _ => []

/-- The doubles in the items of an array. -/
def doublesOfItems : List Value → List Binary64
  | [] => []
  | item :: rest => item.doubles ++ doublesOfItems rest

/-- The doubles in the members of an object. -/
def doublesOfMembers : List (String × Value) → List Binary64
  | [] => []
  | (_, value) :: rest => value.doubles ++ doublesOfMembers rest

end

theorem doubles_subset_of_mem_items {items : List Value} {item : Value} (h : item ∈ items) :
    item.doubles ⊆ doublesOfItems items := by
  induction items with
  | nil => cases h
  | cons first rest ih =>
    rcases List.mem_cons.mp h with rfl | hrest
    · exact List.subset_append_left _ _
    · exact List.subset_append_of_subset_right _ (ih hrest)

theorem doubles_subset_of_mem_members {members : List (String × Value)} {member : String × Value}
    (h : member ∈ members) : member.2.doubles ⊆ doublesOfMembers members := by
  induction members with
  | nil => cases h
  | cons first rest ih =>
    rcases List.mem_cons.mp h with rfl | hrest
    · exact List.subset_append_left _ _
    · exact List.subset_append_of_subset_right _ (ih hrest)

/-- Only null is read as null. -/
theorem toTree_ne_null {depth : Nat} {tree : Tree} {v : Value} (hnull : tree ≠ .null)
    (h : ofTree depth tree = .ok v) : v.toTree ≠ .null := by
  cases tree with
  | null => exact absurd rfl hnull
  | bool value =>
    cases h
    nofun
  | number numeral =>
    rcases ofNumeral_cases h with ⟨i, rfl, -, -⟩ | ⟨x, rfl, hx⟩
    · nofun
    · show treeOfBinary64 x ≠ .null
      rw [treeOfBinary64_of_isFinite hx]
      nofun
  | string text =>
    obtain ⟨_, -, rfl⟩ := map_eq_ok_iff.mp h
    nofun
  | array items =>
    rw [ofTree] at h
    split at h
    · cases h
    · obtain ⟨_, -, rfl⟩ := map_eq_ok_iff.mp h
      nofun
  | object members =>
    rw [ofTree] at h
    split at h
    · cases h
    · obtain ⟨_, -, rfl⟩ := map_eq_ok_iff.mp h
      nofun

/-- The value is written as a tree that reads as this value, if its doubles do. -/
def Stable (depth : Nat) (v : Value) : Prop :=
  (∀ x ∈ v.doubles, x.isFinite = true → x.ReadsBack) → ofTree depth v.toTree = .ok v

theorem ofItems_itemTrees {depth : Nat} {items : List Value}
    (h : ∀ item ∈ items, ofTree depth item.toTree = .ok item) :
    ofItems depth (itemTrees items) = .ok items := by
  induction items with
  | nil => rfl
  | cons item rest ih =>
    obtain ⟨hitem, hrest⟩ := List.forall_mem_cons.mp h
    rw [itemTrees, ofItems, hitem]
    show (ofItems depth (itemTrees rest)).bind (fun rest => .ok (item :: rest)) = _
    rw [ih hrest]
    rfl

theorem ofMembers_memberTrees {depth : Nat} {members : List (String × Value)}
    (h : ∀ member ∈ members, ofTree depth member.2.toTree = .ok member.2) :
    ofMembers depth (memberTrees members) = .ok members := by
  induction members with
  | nil => rfl
  | cons member rest ih =>
    obtain ⟨hmember, hrest⟩ := List.forall_mem_cons.mp h
    obtain ⟨key, value⟩ := member
    rw [memberTrees, ofMembers]
    show (ofTree depth value.toTree).bind (fun value =>
      (ofMembers depth (memberTrees rest)).bind fun rest => .ok ((key, value) :: rest)) = _
    rw [hmember, ih hrest]
    rfl

mutual

theorem stable_of_ofTree {depth : Nat} (tree : Tree) {v : Value} (h : ofTree depth tree = .ok v) :
    v.Stable depth := by
  intro hdoubles
  match tree with
  | .null =>
    cases h
    rfl
  | .bool value =>
    cases h
    rfl
  | .number numeral =>
    rcases ofNumeral_cases h with ⟨i, rfl, hlow, hhigh⟩ | ⟨x, rfl, hx⟩
    · exact ofNumeral_ofInt hlow hhigh
    · show ofTree depth (treeOfBinary64 x) = _
      rw [treeOfBinary64_of_isFinite hx]
      exact ofNumeral_ofBinary64 (hdoubles x List.mem_cons_self hx)
  | .string text =>
    cases text with
    | none => cases h
    | some text =>
      cases h
      rfl
  | .array items =>
    rw [ofTree] at h
    split at h
    · cases h
    next hdepth =>
    cases hitems : ofItems (depth - 1) items with
    | error e =>
      rw [hitems] at h
      cases h
    | ok values =>
      rw [hitems] at h
      cases h
      have hvalues : ∀ value ∈ values, ofTree (depth - 1) value.toTree = .ok value :=
        fun value hvalue => stable_of_ofItems items hitems value hvalue fun x hx =>
          hdoubles x (doubles_subset_of_mem_items hvalue hx)
      show ofTree depth (.array (itemTrees values)) = _
      rw [ofTree, if_neg hdepth, ofItems_itemTrees hvalues]
      rfl
  | .object members =>
    rw [ofTree] at h
    split at h
    · cases h
    next hdepth =>
    cases hmembers : ofMembers (depth - 1) members with
    | error e =>
      rw [hmembers] at h
      cases h
    | ok entries =>
      rw [hmembers] at h
      cases h
      -- Of a repeated key the last value is kept; it was read from one of the members.
      have hentries : ∀ entry ∈ (NameMap.ofList entries).entries,
          ofTree (depth - 1) entry.2.toTree = .ok entry.2 :=
        fun entry hentry => stable_of_ofMembers members hmembers entry
          (NameMap.mem_of_mem_ofList hentry) fun x hx =>
            hdoubles x (doubles_subset_of_mem_members hentry hx)
      show ofTree depth (.object (memberTrees (NameMap.ofList entries).entries)) = _
      rw [ofTree, if_neg hdepth, ofMembers_memberTrees hentries]
      show Except.ok (Value.object (NameMap.ofList (NameMap.ofList entries).entries).entries) = _
      rw [NameMap.ofList_entries]

theorem stable_of_ofItems {depth : Nat} (items : List Tree) {values : List Value}
    (h : ofItems depth items = .ok values) : ∀ value ∈ values, value.Stable depth := by
  match items with
  | [] =>
    cases h
    exact fun _ h => absurd h List.not_mem_nil
  | item :: rest =>
    rw [ofItems] at h
    obtain ⟨first, hfirst, h⟩ := bind_eq_ok_iff.mp h
    obtain ⟨others, hothers, h⟩ := bind_eq_ok_iff.mp h
    cases h
    exact List.forall_mem_cons.mpr
      ⟨stable_of_ofTree item hfirst, stable_of_ofItems rest hothers⟩

theorem stable_of_ofMembers {depth : Nat} (members : List (Option String × Tree))
    {entries : List (String × Value)} (h : ofMembers depth members = .ok entries) :
    ∀ entry ∈ entries, entry.2.Stable depth := by
  match members with
  | [] =>
    cases h
    exact fun _ h => absurd h List.not_mem_nil
  | (key, value) :: rest =>
    rw [ofMembers] at h
    obtain ⟨name, -, h⟩ := bind_eq_ok_iff.mp h
    obtain ⟨first, hfirst, h⟩ := bind_eq_ok_iff.mp h
    obtain ⟨others, hothers, h⟩ := bind_eq_ok_iff.mp h
    cases h
    exact List.forall_mem_cons.mpr
      ⟨stable_of_ofTree value hfirst, stable_of_ofMembers rest hothers⟩

end

end Value

end Json

end HierarchicalTuring
