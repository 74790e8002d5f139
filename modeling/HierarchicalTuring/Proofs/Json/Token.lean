import HierarchicalTuring.Json.Layout
import HierarchicalTuring.Proofs.Json.Numeral
import Mathlib.Data.List.Chain
import Mathlib.Tactic.SplitIfs

/-! # Tokens are read as they are written

* `StringReader.run?_flatMap_escaped`: the escapes of a text give the text back.
* `readToken?_text`: a written token is read back, and what stands behind it is left alone unless
  the token is a numeral that would go on.
* `LaidOut tokens cs`: the characters are the written tokens with blanks between them, as they are
  in `compact` and `pretty` (`laidOut_compact`, `laidOut_pretty`).
* `LaidOut.scan?`: tokens of which no two numerals are neighbours are scanned back from any layout.
-/

set_option autoImplicit false

namespace HierarchicalTuring.Json

/-! ## Strings -/

theorem hexDigit?_digitChar (n : Nat) : hexDigit? (n % 16).digitChar = some (n % 16) := by
  have hall : ∀ n : Fin 16, hexDigit? (Nat.digitChar n) = some n.val := by decide
  exact hall ⟨n % 16, Nat.mod_lt n (by decide)⟩

namespace StringReader

variable {r : StringReader} {rest : List Char}

/-- Whole characters only were read, and another one may come. -/
structure Plain (r : StringReader) : Prop where
  mode : r.mode = .plain
  leading : r.leading = none
  sound : r.sound = true

theorem plain_start : start.Plain :=
  ⟨rfl, rfl, rfl⟩

theorem Plain.put (h : r.Plain) (c : Char) : (r.put c).Plain :=
  ⟨rfl, rfl, by simp [StringReader.put, h.leading, h.sound]⟩

theorem Plain.run?_short (h : r.Plain) {c meant : Char} (hc : c ≠ 'u')
    (hmeant : shortEscape? c = some meant) :
    r.run? ('\\' :: c :: rest) = (r.put meant).run? rest := by
  simp [run?, h.mode, hc, hmeant]
  rfl

theorem Plain.run?_numeric (h : r.Plain) {c : Char} (hc : c < ' ') :
    r.run? (numericEscape c ++ rest) = (r.put c).run? rest := by
  have hlt : c.toNat < 32 := hc
  have hunit : 16 * (16 * (16 * (16 * 0 + c.toNat / 4096 % 16) + c.toNat / 256 % 16) +
      c.toNat / 16 % 16) + c.toNat % 16 = c.toNat := by
    omega
  have hput : r.putUnit c.toNat = r.put c := by
    have htrailing : isTrailing c.toNat = false := by simp [isTrailing]; omega
    have hleading : isLeading c.toNat = false := by simp [isLeading]; omega
    simp [putUnit, StringReader.put, h.leading, htrailing, hleading, Char.ofNat_toNat]
  have hread : r.run? (numericEscape c ++ rest) = (r.putUnit (16 * (16 * (16 * (16 * 0 +
      c.toNat / 4096 % 16) + c.toNat / 256 % 16) + c.toNat / 16 % 16) +
      c.toNat % 16)).run? rest := by
    simp [numericEscape, run?, h.mode, hexDigit?_digitChar]
    rfl
  rw [hread, hunit, hput]

theorem Plain.run?_escaped (h : r.Plain) (c : Char) :
    r.run? (escaped c ++ rest) = (r.put c).run? rest := by
  unfold escaped
  split
  · exact h.run?_short (by decide) rfl
  · exact h.run?_short (by decide) rfl
  · exact h.run?_short (by decide) rfl
  · exact h.run?_short (by decide) rfl
  · exact h.run?_short (by decide) rfl
  · exact h.run?_short (by decide) rfl
  · exact h.run?_short (by decide) rfl
  · next hquote hbackslash _ _ _ _ _ =>
    split
    · next hcontrol => exact h.run?_numeric hcontrol
    · next hcontrol =>
      have hquote' : c ≠ '\x22' := hquote
      have hbackslash' : c ≠ '\\' := hbackslash
      show r.run? (c :: rest) = _
      simp [run?, h.mode, hquote', hbackslash', hcontrol]

theorem Plain.run?_flatMap_escaped (h : r.Plain) (text : List Char) :
    r.run? (text.flatMap escaped ++ '\x22' :: rest) =
      some (some (String.ofList (r.read.reverse ++ text)), rest) := by
  induction text generalizing r with
  | nil =>
    show r.run? ('\x22' :: rest) = _
    simp [run?, h.mode, StringReader.text, h.sound, h.leading]
  | cons c text ih =>
    rw [List.flatMap_cons, List.append_assoc, h.run?_escaped, ih (h.put c)]
    simp [StringReader.put]

end StringReader

/-! ## Tokens -/

/-- Whether a token is a numeral. -/
def Token.isNumber : Token → Bool
  | .number _ => true
  | _ => false

/-- What begins like a numeral is read as one. -/
theorem readToken?_of_begins {c : Char} {cs : List Char} (hc : (c = '-' || c.isDigit) = true) :
    readToken? (c :: cs) =
      (Numeral.read? (c :: cs)).map fun split => (.number split.1, split.2) := by
  unfold readToken?
  split
  all_goals first | rfl | (next heq => cases heq; exact absurd hc (by decide))

theorem exists_begins_text (n : Numeral) :
    ∃ c cs, n.text = c :: cs ∧ (c = '-' || c.isDigit) = true := by
  obtain ⟨c, digits, hdigits⟩ := List.exists_cons_of_ne_nil (decimalDigits_ne_nil n.whole)
  unfold Numeral.text
  rw [hdigits]
  cases n.negative with
  | true => exact ⟨'-', _, rfl, rfl⟩
  | false =>
    have hdigit := isDigit_of_mem_decimalDigits (hdigits ▸ List.mem_cons_self)
    exact ⟨c, _, rfl, by rw [hdigit, Bool.or_true]⟩

theorem readToken?_text (token : Token) {rest : List Char}
    (hrest : token.isNumber = true → Numeral.Ends rest) :
    readToken? (token.text ++ rest) = some (token, rest) := by
  cases token with
  | number numeral =>
    have hread := numeral.read?_text (hrest rfl)
    obtain ⟨c, cs, htext, hc⟩ := exists_begins_text numeral
    rw [htext] at hread
    -- No other token begins with a digit or a minus.
    show readToken? (numeral.text ++ rest) = _
    rw [htext, List.cons_append, readToken?_of_begins hc, ← List.cons_append, hread]
    rfl
  | bool value => cases value <;> rfl
  | string text =>
    cases text with
    | none => rfl
    | some text =>
      have hrun : StringReader.start.run? (text.toList.flatMap escaped ++ '\x22' :: rest) =
          some (some (String.ofList text.toList), rest) :=
        StringReader.plain_start.run?_flatMap_escaped text.toList
      show (StringReader.start.run? (text.toList.flatMap escaped ++ ['\x22'] ++ rest)).map
        (fun split => (Token.string split.1, split.2)) = _
      rw [List.append_assoc, List.singleton_append, hrun]
      show some (Token.string (some (String.ofList text.toList)), rest) = _
      rw [String.ofList_toList]
  | _ => rfl

theorem exists_text (token : Token) : ∃ c cs, token.text = c :: cs ∧ isBlank c = false ∧
    (token.isNumber = false → Numeral.goesOn c = false) := by
  cases token with
  | number numeral =>
    obtain ⟨c, cs, htext, hc⟩ := exists_begins_text numeral
    refine ⟨c, cs, htext, ?_, nofun⟩
    by_contra hblank
    simp only [isBlank, Bool.not_eq_false, Bool.or_eq_true, decide_eq_true_eq] at hblank
    rcases hblank with ((rfl | rfl) | rfl) | rfl
    all_goals exact absurd hc (by decide)
  | bool value =>
    cases value
    · exact ⟨_, _, rfl, by decide, fun _ => by decide⟩
    · exact ⟨_, _, rfl, by decide, fun _ => by decide⟩
  | string text =>
    cases text
    · exact ⟨_, _, rfl, by decide, fun _ => by decide⟩
    · exact ⟨_, _, rfl, by decide, fun _ => by decide⟩
  | _ => exact ⟨_, _, rfl, by decide, fun _ => by decide⟩

/-! ## Layouts -/

/-- There are only blanks. -/
def Blank (cs : List Char) : Prop :=
  ∀ c ∈ cs, isBlank c = true

/-- Written tokens, each with blanks behind it. -/
inductive LaidOut : List Token → List Char → Prop
  | nil : LaidOut [] []
  | cons {token : Token} {rest : List Token} {blanks cs : List Char} :
    Blank blanks → LaidOut rest cs → LaidOut (token :: rest) (token.text ++ (blanks ++ cs))

/-- One of two tokens is no numeral, so that they can be told apart without a blank. -/
def Token.Apart (a b : Token) : Prop :=
  a.isNumber = false ∨ b.isNumber = false

namespace LaidOut

variable {tokens : List Token} {blanks cs : List Char}

theorem goesOn_of_isBlank {c : Char} (h : isBlank c = true) : Numeral.goesOn c = false := by
  simp only [isBlank, Bool.or_eq_true, decide_eq_true_eq] at h
  rcases h with ((rfl | rfl) | rfl) | rfl
  all_goals decide

/-- No numeral goes on with blanks and tokens that do not begin with a numeral. -/
theorem ends (h : LaidOut tokens cs) (hblanks : Blank blanks)
    (hfirst : ∀ token ∈ tokens.head?, token.isNumber = false) : Numeral.Ends (blanks ++ cs) := by
  intro c hc
  cases blanks with
  | cons blank blanks =>
    cases hc
    exact goesOn_of_isBlank (hblanks _ List.mem_cons_self)
  | nil =>
    cases h with
    | nil => cases hc
    | @cons token =>
      obtain ⟨d, ds, htext, -, hd⟩ := exists_text token
      rw [htext] at hc
      cases hc
      exact hd (hfirst token rfl)

theorem length_le (h : LaidOut tokens cs) : tokens.length ≤ cs.length := by
  induction h with
  | nil => exact Nat.le_refl _
  | @cons token rest blanks cs _ _ ih =>
    obtain ⟨c, ds, htext, -, -⟩ := exists_text token
    rw [htext]
    simp only [List.length_cons, List.length_append]
    omega

theorem readTokens?_blanks (read : List Token) (fuel : Nat) (hblanks : Blank blanks) :
    readTokens? read fuel (blanks ++ cs) = readTokens? read fuel cs := by
  unfold readTokens?
  rw [List.dropWhile_append_of_pos hblanks]

theorem readTokens? (h : LaidOut tokens cs) (hapart : tokens.IsChain Token.Apart)
    (read : List Token) {fuel : Nat} (hfuel : tokens.length ≤ fuel) :
    Json.readTokens? read fuel cs = some (read.reverse ++ tokens) := by
  -- What is read moves from the layout to `read`, one token for each unit of fuel.
  induction h generalizing read fuel with
  | nil => simp [Json.readTokens?]
  | @cons token rest blanks cs hblanks hrest ih =>
    obtain ⟨c, ds, htext, hc, -⟩ := exists_text token
    obtain ⟨fuel, rfl⟩ : ∃ n, fuel = n + 1 := ⟨fuel - 1, by simp at hfuel; omega⟩
    have hends : token.isNumber = true → Numeral.Ends (blanks ++ cs) := by
      intro hnumber
      refine hrest.ends hblanks fun next hnext => ?_
      have hneighbours := (List.isChain_cons.mp hapart).1 next hnext
      exact hneighbours.resolve_left (by simp [hnumber])
    have hread := readToken?_text token hends
    have hstart : (token.text ++ (blanks ++ cs)).dropWhile isBlank =
        token.text ++ (blanks ++ cs) := by
      rw [htext]
      simp [hc]
    have hstep : Json.readTokens? read (fuel + 1) (token.text ++ (blanks ++ cs)) =
        Json.readTokens? (token :: read) fuel (blanks ++ cs) := by
      rw [Json.readTokens?, hstart, htext]
      rw [htext] at hread
      simp only [List.cons_append] at hread ⊢
      rw [hread]
    rw [hstep, readTokens?_blanks _ _ hblanks,
      ih hapart.tail (token :: read) (by simpa using hfuel)]
    simp

theorem scan? (h : LaidOut tokens cs) (hapart : tokens.IsChain Token.Apart) :
    Json.scan? cs = some tokens :=
  h.readTokens? hapart [] h.length_le

end LaidOut

theorem laidOut_compact (tokens : List Token) : LaidOut tokens (compact tokens) := by
  induction tokens with
  | nil => exact .nil
  | cons token rest ih => exact .cons (fun _ h => absurd h List.not_mem_nil) ih

theorem blank_newLine (level : Nat) : Blank (newLine level) := by
  intro c hc
  rcases List.mem_cons.mp hc with rfl | hc
  · decide
  · rw [List.eq_of_mem_replicate hc]
    decide

theorem blank_gap (level : Nat) (token : Token) (next : Option Token) :
    Blank (gap level token next) := by
  have hnone : Blank [] := fun _ h => absurd h List.not_mem_nil
  have hspace : Blank [' '] := by
    intro c hc
    rw [List.mem_singleton.mp hc]
    decide
  unfold gap
  simp only
  split_ifs
  all_goals first | exact blank_newLine _ | exact hnone | exact hspace

theorem laidOut_prettyFrom (tokens : List Token) (level : Nat) :
    LaidOut tokens (prettyFrom level tokens) := by
  induction tokens generalizing level with
  | nil => exact .nil
  | cons token rest ih =>
    unfold prettyFrom
    rw [List.append_assoc]
    exact .cons (blank_gap _ _ _) (ih _)

end HierarchicalTuring.Json
