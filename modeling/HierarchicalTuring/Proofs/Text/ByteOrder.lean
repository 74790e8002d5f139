import Mathlib.Data.String.Basic

/-! # The order of texts and of their bytes

Texts are compared by their code points. Their encodings are in the same order
(`bytes_lt_bytes_iff`), since an encoding of a smaller code point has a smaller byte at the first
place where the two differ.
-/

set_option autoImplicit false

namespace HierarchicalTuring

/-- The bytes of a text. -/
def bytes (text : String) : List UInt8 :=
  text.toUTF8.data.toList

theorem bytes_eq_flatMap (text : String) :
    bytes text = text.toList.flatMap String.utf8EncodeChar := by
  rw [bytes, String.toUTF8_eq_toByteArray, ← String.utf8Encode_toList]
  simp [List.utf8Encode]

private theorem ofNat_cons_lt_iff {a b : Nat} {u v : List UInt8} (ha : a < 256) (hb : b < 256) :
    UInt8.ofNat a :: u < UInt8.ofNat b :: v ↔ a < b ∨ a = b ∧ u < v := by
  rw [List.cons_lt_cons_iff, UInt8.lt_iff_toNat_lt, ← UInt8.toNat_inj, UInt8.toNat_ofNat',
    UInt8.toNat_ofNat', Nat.mod_eq_of_lt ha, Nat.mod_eq_of_lt hb]

-- The greater of two numbers has the greater group of six bits where they first differ.
private theorem group_lt {a b : Nat} (h : a < b) :
    a / 64 < b / 64 ∨ a / 64 = b / 64 ∧ a % 64 < b % 64 := by
  omega

private theorem groups_lt {a b : Nat} (h : a < b) :
    a / 64 / 64 / 64 < b / 64 / 64 / 64 ∨ a / 64 / 64 / 64 = b / 64 / 64 / 64 ∧
      (a / 64 / 64 % 64 < b / 64 / 64 % 64 ∨ a / 64 / 64 % 64 = b / 64 / 64 % 64 ∧
        (a / 64 % 64 < b / 64 % 64 ∨ a / 64 % 64 = b / 64 % 64 ∧ a % 64 < b % 64)) := by
  rcases group_lt h with h₁ | ⟨h₁, h₁'⟩
  · rcases group_lt h₁ with h₂ | ⟨h₂, h₂'⟩
    · rcases group_lt h₂ with h₃ | ⟨h₃, h₃'⟩
      · exact .inl h₃
      · exact .inr ⟨h₃, .inl h₃'⟩
    · exact .inr ⟨by rw [h₂], .inr ⟨by rw [h₂], .inl h₂'⟩⟩
  · exact .inr ⟨by rw [h₁], .inr ⟨by rw [h₁], .inr ⟨by rw [h₁], h₁'⟩⟩⟩

theorem utf8EncodeChar_append_lt {c d : Char} (h : c < d) (u v : List UInt8) :
    String.utf8EncodeChar c ++ u < String.utf8EncodeChar d ++ v := by
  have hlt : c.val.toNat < d.val.toNat := h
  have hd : d.val.toNat < 1114112 := by
    rcases d.valid with hsmall | ⟨-, hlarge⟩
    · exact Nat.lt_of_lt_of_le hsmall (by decide)
    · exact hlarge
  unfold String.utf8EncodeChar
  generalize c.val.toNat = a at *
  generalize d.val.toNat = b at *
  -- The bytes hold groups of six bits.
  have ha₂ : a / 4096 = a / 64 / 64 := by rw [Nat.div_div_eq_div_mul]
  have hb₂ : b / 4096 = b / 64 / 64 := by rw [Nat.div_div_eq_div_mul]
  have ha₃ : a / 262144 = a / 64 / 64 / 64 := by rw [Nat.div_div_eq_div_mul, Nat.div_div_eq_div_mul]
  have hb₃ : b / 262144 = b / 64 / 64 / 64 := by rw [Nat.div_div_eq_div_mul, Nat.div_div_eq_div_mul]
  have ha₄ : a / 64 / 64 / 64 % 8 = a / 64 / 64 / 64 := Nat.mod_eq_of_lt (by omega)
  have hb₄ : b / 64 / 64 / 64 % 8 = b / 64 / 64 / 64 := Nat.mod_eq_of_lt (by omega)
  have hgroups := groups_lt hlt
  simp only [ha₂, hb₂, ha₃, hb₃, ha₄, hb₄]
  split_ifs <;>
    simp (disch := omega) only [List.cons_append, List.nil_append, ofNat_cons_lt_iff] <;> omega

theorem flatMap_utf8EncodeChar_lt {l l' : List Char} (h : l < l') :
    l.flatMap String.utf8EncodeChar < l'.flatMap String.utf8EncodeChar := by
  induction l generalizing l' with
  | nil =>
    cases l' with
    | nil => exact absurd h (List.lt_irrefl [])
    | cons d l' =>
      have hne : String.utf8EncodeChar d ≠ [] := String.utf8EncodeChar_ne_nil
      obtain ⟨byte, rest, hbytes⟩ := List.exists_cons_of_ne_nil hne
      rw [List.flatMap_nil, List.flatMap_cons, hbytes]
      exact List.nil_lt_cons _ _
  | cons c l ih =>
    cases l' with
    | nil => exact absurd h (List.not_lt_nil _)
    | cons d l' =>
      rw [List.flatMap_cons, List.flatMap_cons]
      rcases List.cons_lt_cons_iff.mp h with hlt | ⟨rfl, hrest⟩
      · exact utf8EncodeChar_append_lt hlt _ _
      · exact List.append_left_lt (ih hrest)

/-- Texts are in the same order as their bytes. -/
theorem bytes_lt_bytes_iff {a b : String} : bytes a < bytes b ↔ a < b := by
  have hlt : ∀ {a b : String}, a < b → bytes a < bytes b := by
    intro a b h
    rw [bytes_eq_flatMap, bytes_eq_flatMap]
    exact flatMap_utf8EncodeChar_lt (String.lt_iff_toList_lt.mp h)
  refine ⟨fun h => ?_, hlt⟩
  by_contra hge
  rcases (String.not_lt.mp hge).lt_or_eq with hgt | rfl
  · exact List.lt_asymm h (hlt hgt)
  · exact List.lt_irrefl _ h

end HierarchicalTuring
