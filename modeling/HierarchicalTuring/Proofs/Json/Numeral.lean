import HierarchicalTuring.Json.Numeral

/-! # Numerals are read as they are written

* `numberOfChars_decimalDigits`: a number is read back from its digits, which have no needless zero
  in front (`decimalDigits_cases`).
* `Numeral.read?_text`: a written numeral is read back, and what stands behind it is left alone
  unless it goes on like a numeral.
-/

set_option autoImplicit false

namespace HierarchicalTuring

/-! ## Numbers -/

theorem isDigit_of_mem_decimalDigits {n : Nat} {c : Char} (h : c ∈ decimalDigits n) :
    c.isDigit = true :=
  Nat.isDigit_of_mem_toDigits (by decide) (by decide) h

theorem numberOfChars_append_singleton (cs : List Char) (c : Char) :
    numberOfChars (cs ++ [c]) = 10 * numberOfChars cs + (Digit.ofChar c).val := by
  simp [numberOfChars, numberOf]

theorem ofChar_digitChar {n : Nat} (h : n < 10) : (Digit.ofChar n.digitChar).val = n :=
  congrArg Fin.val (Digit.ofChar_char ⟨n, h⟩)

theorem decimalDigits_of_lt {n : Nat} (h : n < 10) : decimalDigits n = [n.digitChar] :=
  Nat.toDigits_of_lt_base h

theorem decimalDigits_of_le {n : Nat} (h : 10 ≤ n) :
    decimalDigits n = decimalDigits (n / 10) ++ [(n % 10).digitChar] :=
  Nat.toDigits_of_base_le (by decide) h

theorem numberOfChars_decimalDigits (n : Nat) : numberOfChars (decimalDigits n) = n := by
  induction n using Nat.strongRecOn with
  | ind n ih =>
    rcases Nat.lt_or_ge n 10 with hlt | hge
    · rw [decimalDigits_of_lt hlt]
      show 10 * 0 + (Digit.ofChar n.digitChar).val = n
      rw [ofChar_digitChar hlt, Nat.mul_zero, Nat.zero_add]
    · rw [decimalDigits_of_le hge, numberOfChars_append_singleton, ih (n / 10) (by omega),
        ofChar_digitChar (Nat.mod_lt n (by decide))]
      omega

/-- The digits of a number are a single zero or do not begin with one. -/
theorem decimalDigits_cases (n : Nat) : decimalDigits n = ['0'] ∨
    ∃ c cs, decimalDigits n = c :: cs ∧ c ≠ '0' := by
  induction n using Nat.strongRecOn with
  | ind n ih =>
    rcases Nat.lt_or_ge n 10 with hlt | hge
    · rw [decimalDigits_of_lt hlt]
      by_cases hzero : n = 0
      · exact .inl (by rw [hzero]; rfl)
      · refine .inr ⟨_, _, rfl, fun heq => hzero ?_⟩
        rw [← ofChar_digitChar hlt, heq]
        rfl
    · refine .inr ?_
      rw [decimalDigits_of_le hge]
      rcases ih (n / 10) (by omega) with hzero | ⟨c, cs, hdigits, hc⟩
      · have hnone := numberOfChars_decimalDigits (n / 10)
        rw [hzero] at hnone
        have : n / 10 = 0 := hnone.symm
        omega
      · exact ⟨c, cs ++ [(n % 10).digitChar], by rw [hdigits]; rfl, hc⟩

theorem decimalDigits_ne_nil (n : Nat) : decimalDigits n ≠ [] := by
  rcases decimalDigits_cases n with h | ⟨c, cs, h, -⟩
  · exact h ▸ List.cons_ne_nil _ _
  · exact h ▸ List.cons_ne_nil _ _

theorem isDigit_char (d : Digit) : d.char.isDigit = true := by
  revert d
  decide

namespace Json.Numeral

/-- Whether a numeral would go on with a character. -/
def goesOn (c : Char) : Bool :=
  c.isDigit || c = '.' || c = 'e' || c = 'E'

/-- No numeral goes on with a text. -/
def Ends (cs : List Char) : Prop :=
  ∀ c ∈ cs.head?, goesOn c = false

variable {cs rest : List Char}

theorem Ends.not_isDigit (h : Ends rest) : ∀ c ∈ rest.head?, c.isDigit = false := by
  intro c hc
  have hends := h c hc
  simp only [goesOn, Bool.or_eq_false_iff] at hends
  exact hends.1.1.1

/-! ## Digits -/

theorem digits?_append (hne : cs ≠ []) (hcs : ∀ c ∈ cs, c.isDigit = true)
    (hrest : ∀ c ∈ rest.head?, c.isDigit = false) : digits? (cs ++ rest) = some (cs, rest) := by
  have hstop : rest.takeWhile Char.isDigit = [] ∧ rest.dropWhile Char.isDigit = rest := by
    cases rest with
    | nil => exact ⟨rfl, rfl⟩
    | cons c rest =>
      have hc := hrest c rfl
      simp [hc]
  unfold digits? spanDigits
  rw [List.takeWhile_append_of_pos hcs, List.dropWhile_append_of_pos hcs, hstop.1, hstop.2,
    List.append_nil]
  cases cs with
  | nil => exact absurd rfl hne
  | cons c cs => rfl

theorem digits?_decimalDigits (n : Nat) (hrest : ∀ c ∈ rest.head?, c.isDigit = false) :
    digits? (decimalDigits n ++ rest) = some (decimalDigits n, rest) :=
  digits?_append (decimalDigits_ne_nil n) (fun _ hc => isDigit_of_mem_decimalDigits hc) hrest

theorem wholeDigits?_decimalDigits (n : Nat) (hrest : ∀ c ∈ rest.head?, c.isDigit = false) :
    wholeDigits? (decimalDigits n ++ rest) = some (decimalDigits n, rest) := by
  unfold wholeDigits?
  rw [digits?_decimalDigits n hrest]
  rcases decimalDigits_cases n with h | ⟨c, cs, h, hc⟩
  · rw [h]
    rfl
  · rw [h]
    split
    · next heq =>
      cases heq
      exact absurd rfl hc
    · rfl

theorem fractionDigits?_fractionText (fraction : List Digit)
    (hrest : ∀ c ∈ rest.head?, c.isDigit = false ∧ c ≠ '.') :
    fractionDigits? (fractionText fraction ++ rest) = some (fraction.map Digit.char, rest) := by
  unfold fractionText
  split
  · next hnone =>
    subst hnone
    show fractionDigits? rest = some ([], rest)
    unfold fractionDigits?
    split
    · exact absurd rfl (hrest '.' rfl).2
    · rfl
  · next hsome =>
    have hdigits : ∀ c ∈ fraction.map Digit.char, c.isDigit = true := by
      intro c hc
      obtain ⟨d, -, rfl⟩ := List.mem_map.mp hc
      exact isDigit_char d
    show digits? (fraction.map Digit.char ++ rest) = _
    exact digits?_append (by simpa using hsome) hdigits fun c hc => (hrest c hc).1

theorem exponent?_exponentText (exponent : Option Int) (hrest : Ends rest) :
    exponent? (exponentText exponent ++ rest) = some (exponent, rest) := by
  cases exponent with
  | none =>
    show exponent? rest = some (none, rest)
    unfold exponent?
    split
    · exact absurd (hrest 'e' rfl) (by decide)
    · exact absurd (hrest 'E' rfl) (by decide)
    · rfl
  | some exponent =>
    have hdigits := digits?_decimalDigits exponent.natAbs hrest.not_isDigit
    have hnumber := numberOfChars_decimalDigits exponent.natAbs
    by_cases hnegative : exponent < 0
    · have hread : exponent? (exponentText (some exponent) ++ rest) =
          ((digits? (decimalDigits exponent.natAbs ++ rest)).map fun split =>
            (-(numberOfChars split.1 : Int), split.2)).map
              fun split => (some split.1, split.2) := by
        simp only [exponentText, if_pos hnegative]
        rfl
      rw [hread, hdigits, Option.map_some, Option.map_some, hnumber]
      congr 3
      omega
    · have hread : exponent? (exponentText (some exponent) ++ rest) =
          ((digits? (decimalDigits exponent.natAbs ++ rest)).map fun split =>
            ((numberOfChars split.1 : Int), split.2)).map fun split => (some split.1, split.2) := by
        simp only [exponentText, if_neg hnegative]
        rfl
      rw [hread, hdigits, Option.map_some, Option.map_some, hnumber]
      congr 3
      omega

/-! ## Numerals -/

theorem head?_exponentText {exponent : Option Int} {c : Char} (hrest : Ends rest)
    (h : c ∈ (exponentText exponent ++ rest).head?) : c.isDigit = false ∧ c ≠ '.' := by
  cases exponent with
  | none =>
    have hends := hrest c h
    refine ⟨hrest.not_isDigit c h, ?_⟩
    rintro rfl
    exact absurd hends (by decide)
  | some exponent =>
    cases h
    decide

theorem head?_fractionText {fraction : List Digit} {c : Char}
    (hrest : ∀ c ∈ rest.head?, c.isDigit = false) (h : c ∈ (fractionText fraction ++ rest).head?) :
    c.isDigit = false := by
  unfold fractionText at h
  split at h
  · exact hrest c h
  · cases h
    decide

theorem readUnsigned?_text (n : Numeral) (hrest : Ends rest) :
    readUnsigned? n.negative (decimalDigits n.whole ++
      (fractionText n.fraction ++ (exponentText n.exponent ++ rest))) = some (n, rest) := by
  have hexponent : ∀ c ∈ (exponentText n.exponent ++ rest).head?, c.isDigit = false ∧ c ≠ '.' :=
    fun c hc => head?_exponentText hrest hc
  have hfraction : ∀ c ∈ (fractionText n.fraction ++ (exponentText n.exponent ++ rest)).head?,
      c.isDigit = false :=
    fun c hc => head?_fractionText (fun c hc => (hexponent c hc).1) hc
  have hdigits : (n.fraction.map Digit.char).map Digit.ofChar = n.fraction := by
    rw [List.map_map]
    exact (List.map_congr_left fun d _ => Digit.ofChar_char d).trans (List.map_id _)
  unfold readUnsigned?
  rw [wholeDigits?_decimalDigits n.whole hfraction]
  simp only [Option.bind_eq_bind, Option.bind_some,
    fractionDigits?_fractionText n.fraction hexponent, exponent?_exponentText n.exponent hrest,
    numberOfChars_decimalDigits, hdigits]
  rfl

theorem read?_text (n : Numeral) (hrest : Ends rest) :
    read? (n.text ++ rest) = some (n, rest) := by
  have hunsigned := readUnsigned?_text n hrest
  have htext : n.text ++ rest = (if n.negative then ['-'] else []) ++ (decimalDigits n.whole ++
      (fractionText n.fraction ++ (exponentText n.exponent ++ rest))) := by
    simp only [text, List.append_assoc]
  rw [htext]
  cases hnegative : n.negative with
  | true =>
    rw [hnegative] at hunsigned
    exact hunsigned
  | false =>
    rw [hnegative] at hunsigned
    show read? (decimalDigits n.whole ++ _) = _
    unfold read?
    split
    · next heq =>
      obtain ⟨c, digits, hdigits⟩ := List.exists_cons_of_ne_nil (decimalDigits_ne_nil n.whole)
      rw [hdigits] at heq
      cases heq
      have hdigit : '-'.isDigit = true :=
        isDigit_of_mem_decimalDigits (hdigits ▸ List.mem_cons_self)
      exact absurd hdigit (by decide)
    · exact hunsigned

end Json.Numeral

end HierarchicalTuring
