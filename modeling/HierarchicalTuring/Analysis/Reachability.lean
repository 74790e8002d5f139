import HierarchicalTuring.Machine

/-! # Reachable states

* `Machine.Reachable`: transitions through states of the machine lead from its start state to a
  handle, which itself may be one that the machine does not resolve.
* `Search` is a depth-first search with an explicit stack; `Search.pop` takes one entry off it.
* Every pop but the first answers a push, and a transition of a state is pushed at most once, so the
  stack is empty after `1 + transitionTotal` pops. That many `Machine.visited` does.
* `Machine.unreachableStates?` names the states that the search did not visit.
-/

set_option autoImplicit false

namespace HierarchicalTuring

/-- The handles that stored transitions lead to from the start state. -/
inductive Machine.Reachable (m : Machine) : Handle → Prop
  | start {h : Handle} {state : State} : m.start? = some (h, state) → Reachable m h
  | follow {h : Handle} {state : State} {id : TransitionId} {t : Transition} :
      Reachable m h → m.stateAt? h = some state → (id, t) ∈ state.transitions →
      Reachable m t.destination

/-- A depth-first search: the handles visited so far, and those still to be looked at, the next one
first. -/
structure Search where
  visited : List Handle
  stack : List Handle
deriving Repr

namespace Search

/-- Where the transitions of the state behind a handle lead, in the order of the transitions. -/
def destinations (m : Machine) (h : Handle) : List Handle :=
  match m.stateAt? h with
  | none => []
  | some state => state.transitions.map fun stored => stored.2.destination

/-- Takes the next handle off the stack. One that is new is visited, and what it leads to is put on
the stack unless it was visited as well. -/
def pop (m : Machine) (search : Search) : Search :=
  match search.stack with
  | [] => search
  | h :: rest =>
    if h ∈ search.visited then { search with stack := rest }
    else
      let visited := h :: search.visited
      let found := (destinations m h).filter fun destination => destination ∉ visited
      ⟨visited, found.reverse ++ rest⟩

/-- Takes handles off the stack a number of times. -/
def run (m : Machine) (search : Search) : Nat → Search
  | 0 => search
  | count + 1 => (search.pop m).run m count

end Search

/-- The number of transitions stored in the states of a machine. -/
def Machine.transitionTotal (m : Machine) : Nat :=
  (m.states.live.flatMap fun state => state.transitions).length

/-- The search from a handle, run until its stack is empty. -/
def Machine.visited (m : Machine) (start : Handle) : List Handle :=
  (Search.run m ⟨[], [start]⟩ (1 + m.transitionTotal)).visited

/-- The names of the states that cannot be reached, in the order of addition, if the machine has a
start state. -/
def Machine.unreachableStates? (m : Machine) : Option (List String) := do
  let (start, _) ← m.start?
  let visited := m.visited start
  return (m.states.entries.filter fun entry => entry.1 ∉ visited).map fun entry => entry.2.name

end HierarchicalTuring
