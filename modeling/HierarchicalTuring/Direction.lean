/-! # Head directions

A transition moves the head one cell to the left, one to the right, or not at all.

* `Direction.delta` is the signed movement, `Direction.ofDelta` keeps the sign of any movement,
  and the two agree on the three unit movements (`ofDelta_delta`).
* `Direction.code` is the letter that machine documents use, and `Direction.ofCode?` reads exactly
  these letters (`ofCode?_eq_some_iff`).
-/

set_option autoImplicit false

namespace HierarchicalTuring

/-- The way a head moves when a transition is taken. -/
inductive Direction where
  | left
  | stay
  | right
deriving DecidableEq, Repr, Inhabited

namespace Direction

/-- The movement added to the head position. -/
def delta : Direction → Int
  | .left => -1
  | .stay => 0
  | .right => 1

/-- The direction of a signed movement of any size. -/
def ofDelta (delta : Int) : Direction :=
  if delta < 0 then .left else if 0 < delta then .right else .stay

/-- The letter of a direction in a machine document. -/
def code : Direction → Char
  | .left => 'L'
  | .stay => 'S'
  | .right => 'R'

/-- Reads a direction letter; any other text is none. -/
def ofCode? (text : String) : Option Direction :=
  if text = "L" then some .left
  else if text = "S" then some .stay
  else if text = "R" then some .right
  else none

theorem ofDelta_delta (d : Direction) : ofDelta d.delta = d := by
  cases d <;> rfl

theorem delta_ofDelta (delta : Int) : (ofDelta delta).delta = delta.sign := by
  unfold ofDelta
  rcases Int.lt_trichotomy delta 0 with h | h | h
  · simp [h, Direction.delta, Int.sign_eq_neg_one_of_neg]
  · subst h; rfl
  · simp [h, Int.not_lt.mpr (Int.le_of_lt h), Direction.delta, Int.sign_eq_one_of_pos]

theorem ofCode?_code (d : Direction) : ofCode? (String.singleton d.code) = some d := by
  cases d <;> decide

theorem ofCode?_eq_some_iff {text : String} {d : Direction} :
    ofCode? text = some d ↔ text = String.singleton d.code := by
  constructor
  · intro h
    unfold ofCode? at h
    split at h
    · next ht => cases h; rw [ht]; decide
    · split at h
      · next ht => cases h; rw [ht]; decide
      · split at h
        · next ht => cases h; rw [ht]; decide
        · cases h
  · rintro rfl
    exact ofCode?_code d

end Direction

end HierarchicalTuring
