import HierarchicalTuring.Decimal.Binary64
import HierarchicalTuring.Store.Basic
import HierarchicalTuring.Transition

/-! # States

A state keeps its transitions under numbers that are given out in increasing order and never
again, beside an index from characters to these numbers: at most one transition claims a character.

* `State.addTransition` refuses an empty input, answers an equal transition with its number, and
  refuses a character that is claimed, in this order.
* `State.transitionFor?` goes through the index, `State.transition?` through the numbers.
* `State.removeTransition?` frees the characters of what it removes, and
  `State.removeTransitionsTo` removes everything that leads to one state.
-/

set_option autoImplicit false

namespace HierarchicalTuring

/-- Where a state stands in a diagram. -/
structure Position where
  x : Binary64
  y : Binary64
deriving DecidableEq, Repr, Inhabited

/-- The number of a transition within its state. -/
abbrev TransitionId := Nat

/-- A node of a machine with the edges that leave it. -/
structure State where
  name : String
  accepting : Bool
  /-- The machine that is called when the state is entered. -/
  submachine : Option String
  position : Position
  /-- In the order of their numbers. -/
  transitions : List (TransitionId × Transition)
  byInput : Index Char
  nextId : TransitionId
deriving Repr

namespace State

/-- A state without transitions, not accepting and not calling. -/
def new (name : String) : State where
  name := name
  accepting := false
  submachine := none
  position := default
  transitions := []
  byInput := .empty
  nextId := 0

instance : Named State where
  name := State.name
  withName state name := { state with name }
  name_withName _ _ := rfl

def setAccepting (s : State) (accepting : Bool) : State :=
  { s with accepting }

def setSubmachine (s : State) (submachine : Option String) : State :=
  { s with submachine }

def setPosition (s : State) (position : Position) : State :=
  { s with position }

/-! ## Looking up transitions -/

/-- The transition with a number. -/
def transition? (s : State) (id : TransitionId) : Option Transition :=
  (s.transitions.find? fun stored => stored.1 = id).map Prod.snd

/-- The transition that is taken on a character. -/
def transitionFor? (s : State) (c : Char) : Option Transition :=
  (s.byInput.find? c).bind s.transition?

/-- All claimed characters, in the order of their code points. -/
def inputCharacters (s : State) : List Char :=
  s.byInput.keys.mergeSort fun a b => decide (a ≤ b)

/-! ## Changing transitions -/

/-- The number of a stored transition equal to a given one. -/
def idOf? (s : State) (t : Transition) : Option TransitionId :=
  (s.transitions.find? fun stored => stored.2 = t).map Prod.fst

/-- The first input character of a transition that is claimed. -/
def clash? (s : State) (t : Transition) : Option Char :=
  t.input.find? s.byInput.contains

/-- Stores a transition as the last one, under a number of its own. -/
def store (s : State) (t : Transition) : State :=
  { s with
    transitions := s.transitions ++ [(s.nextId, t)]
    byInput := s.byInput.insertAll t.input s.nextId
    nextId := s.nextId + 1 }

/-- Adds a transition and gives its number. An equal transition that is already there is left as it
is. -/
def addTransition (s : State) (t : Transition) : Except ModelError (TransitionId × State) :=
  if t.input = [] then .error .emptyInput
  else
    match s.idOf? t with
    | some id => .ok (id, s)
    | none =>
      match s.clash? t with
      | some c => .error (.inputInUse c)
      | none => .ok (s.nextId, s.store t)

/-- Frees those of some characters that are claimed under a number. -/
def release (byInput : Index Char) (input : List Char) (id : TransitionId) : Index Char :=
  input.foldl (fun index c => if index.find? c = some id then index.erase c else index) byInput

/-- Removes the transition with a number and frees its characters. -/
def removeTransition? (s : State) (id : TransitionId) : Option (Transition × State) := do
  let t ← s.transition? id
  return (t,
    { s with
      transitions := s.transitions.filter fun stored => stored.1 ≠ id
      byInput := release s.byInput t.input id })

/-- The state without the transition with a number, if it has one. -/
def withoutTransition (s : State) (id : TransitionId) : State :=
  ((s.removeTransition? id).map Prod.snd).getD s

/-- Removes every transition that leads to a state. -/
def removeTransitionsTo (s : State) (destination : Handle) : State :=
  let doomed := s.transitions.filter fun stored => stored.2.destination = destination
  (doomed.map Prod.fst).foldl withoutTransition s

/-! ## What the operations say -/

@[simp] theorem transition?_new (name : String) (id : TransitionId) :
    (new name).transition? id = none := rfl

theorem addTransition_of_input_eq_nil {s : State} {t : Transition} (h : t.input = []) :
    s.addTransition t = .error .emptyInput := by
  simp [addTransition, h]

theorem addTransition_eq_ok_iff {s u : State} {t : Transition} {id : TransitionId} :
    s.addTransition t = .ok (id, u) ↔
      t.input ≠ [] ∧ (s.idOf? t = some id ∧ u = s ∨
        s.idOf? t = none ∧ s.clash? t = none ∧ id = s.nextId ∧ u = s.store t) := by
  unfold addTransition
  by_cases h : t.input = []
  · simp [h]
  · rw [if_neg h]
    cases hid : s.idOf? t with
    | some id' =>
      simp only [Except.ok.injEq, Prod.mk.injEq, Option.some.injEq, reduceCtorEq, false_and,
        or_false]
      exact ⟨fun he => ⟨h, he.1, he.2.symm⟩, fun he => ⟨he.2.1, he.2.2.symm⟩⟩
    | none =>
      cases hc : s.clash? t with
      | some c => simp
      | none =>
        simp only [Except.ok.injEq, Prod.mk.injEq, reduceCtorEq, false_and, true_and, false_or]
        exact ⟨fun he => ⟨h, he.1.symm, he.2.symm⟩, fun he => ⟨he.2.1.symm, he.2.2.symm⟩⟩

@[simp] theorem name_withoutTransition (s : State) (id : TransitionId) :
    (s.withoutTransition id).name = s.name := by
  unfold withoutTransition removeTransition?
  cases s.transition? id <;> rfl

theorem name_foldl_withoutTransition (s : State) (ids : List TransitionId) :
    (ids.foldl withoutTransition s).name = s.name := by
  induction ids generalizing s with
  | nil => rfl
  | cons id ids ih => rw [List.foldl_cons, ih, name_withoutTransition]

@[simp] theorem name_removeTransitionsTo (s : State) (destination : Handle) :
    (s.removeTransitionsTo destination).name = s.name :=
  name_foldl_withoutTransition s _

end State

end HierarchicalTuring
