import HierarchicalTuring.Machine

/-! # Projects

* A `Project` is a store of machines, which may call one another by name.
-/

set_option autoImplicit false

namespace HierarchicalTuring

/-- A collection of machines under distinct names. -/
structure Project where
  machines : Store Machine
deriving Repr

namespace Project

/-- A project without machines, whose store of machines has a given identity. -/
def new (identity : Identity) : Project :=
  ⟨.empty identity⟩

/-! ## Looking up machines -/

def machine? (p : Project) (name : String) : Option Machine :=
  p.machines.get? name

def machineHandle? (p : Project) (name : String) : Option Handle :=
  p.machines.handleOf? name

def machineAt? (p : Project) (h : Handle) : Option Machine :=
  p.machines.resolve? h

def machineNames (p : Project) : List String :=
  p.machines.names

def machineCount (p : Project) : Nat :=
  p.machines.size

/-! ## Editing -/

/-- Adds a machine under its name. -/
def insertMachine (p : Project) (machine : Machine) : Except ModelError (Handle × Project) := do
  let (h, machines) ← p.machines.add machine
  return (h, ⟨machines⟩)

/-- Adds a machine without states, whose store of states gets a given identity. -/
def addMachine (p : Project) (identity : Identity) (name : String) :
    Except ModelError (Handle × Project) :=
  p.insertMachine (Machine.new identity name)

/-- Changes the machine with a name. The change has to keep the name. -/
def modifyMachine? (p : Project) (name : String) (change : Machine → Machine) :
    Option Project := do
  let machines ← p.machines.modify? name change
  return ⟨machines⟩

/-- Changes the machine behind a handle. The change has to keep the name. -/
def modifyMachineAt? (p : Project) (h : Handle) (change : Machine → Machine) :
    Option Project := do
  let machines ← p.machines.modifyAt? h change
  return ⟨machines⟩

def renameMachine (p : Project) (name newName : String) : Except ModelError Project :=
  match p.machineHandle? name with
  | none => .error (.notFound name)
  | some h => do
    let machines ← p.machines.rename h newName
    return ⟨machines⟩

/-- Takes a machine out of the project. States that call it keep its name. -/
def removeMachine? (p : Project) (name : String) : Option (Machine × Project) := do
  let (_, machine, machines) ← p.machines.remove? name
  return (machine, ⟨machines⟩)

end Project

end HierarchicalTuring
