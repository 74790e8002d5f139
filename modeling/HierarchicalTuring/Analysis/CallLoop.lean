import HierarchicalTuring.Project

/-! # Loops of calls between start states

* `Project.next?` is the machine that a machine's start state calls.
* `Project.loopFrom?` follows `next?` until a machine comes up again; the loop is the part of the
  chain from that machine on.
* `rotateToLeast` lets a loop begin at its smallest name, so that every loop has one form.
-/

set_option autoImplicit false

namespace HierarchicalTuring

/-- The machine that is called when a machine is entered. -/
def Project.next? (p : Project) (m : Machine) : Option Machine := do
  let (_, state) ← m.start?
  let name ← state.submachine
  p.machine? name

/-- Follows calls from the last machine of a chain of names, `fuel` times at most. -/
def Project.follow (p : Project) (chain : List String) (current : Machine) :
    Nat → Option (List String)
  | 0 => none
  | fuel + 1 =>
    match p.next? current with
    | none => none
    | some next =>
      if next.name ∈ chain then some (chain.dropWhile fun name => name ≠ next.name)
      else p.follow (chain ++ [next.name]) next fuel

/-- The loop that following calls from a machine runs into. A chain without repetition is no longer
than the number of machines. -/
def Project.loopFrom? (p : Project) (m : Machine) : Option (List String) :=
  p.follow [m.name] m (p.machineCount + 1)

/-- The smallest of some names. -/
def least? : List String → Option String
  | [] => none
  | name :: rest =>
    some (rest.foldl (fun least name => if name < least then name else least) name)

/-- A cyclic list, begun at its smallest name. -/
def rotateToLeast (names : List String) : List String :=
  match least? names with
  | none => names
  | some least =>
    names.dropWhile (fun name => name ≠ least) ++ names.takeWhile fun name => name ≠ least

/-- Every loop that calls between start states form, once. -/
def Project.callLoops (p : Project) : List (List String) :=
  (p.machines.live.filterMap fun m => (p.loopFrom? m).map rotateToLeast).eraseDups

end HierarchicalTuring
