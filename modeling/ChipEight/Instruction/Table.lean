import ChipEight.ErrorClass
import ChipEight.Instruction.Op

/-!
# Dispatch tables

A table gives each operation a handler. Handlers are registered one by one; a complete table is frozen, and a frozen
table takes no further handler. `Table.build` registers a whole list and succeeds just for the lists that give every
operation exactly one handler.
-/

namespace ChipEight

/-- A table of handlers by operation, in the order of their registration. -/
structure Table (α : Type) where
  entries : List (Op × α) := []
  frozen : Bool := false

namespace Table

variable {α : Type}

/-- Why a handler or a whole table was refused. -/
inductive Fault where
  | frozen
  | duplicate (op : Op)
  | missing (ops : List Op)
  deriving DecidableEq, Repr

/-- The names of operations in alphabetical order. -/
def sortedNames (ops : List Op) : List String :=
  (ops.map Op.name).mergeSort fun a b => a ≤ b

/-- The wording of the fault. -/
def Fault.message : Fault → String
  | .frozen => "Cannot register primitives: registry is frozen"
  | .duplicate op => "Primitive already registered: " ++ op.name
  | .missing ops => "Opcodes without a handler: " ++ ", ".intercalate (sortedNames ops)

def Fault.errorClass : Fault → ErrorClass
  | .duplicate _ => .valueError
  | .frozen | .missing _ => .runtimeError

/-- The handler of an operation. -/
def find? (t : Table α) (op : Op) : Option α :=
  t.entries.lookup op

/-- The operations that have a handler. -/
def keys (t : Table α) : List Op :=
  t.entries.map Prod.fst

/-- Adds a handler for an operation that has none. -/
def register (t : Table α) (op : Op) (handler : α) : Except Fault (Table α) :=
  if t.frozen then .error .frozen
  else if op ∈ t.keys then .error (.duplicate op)
  else .ok { t with entries := t.entries ++ [(op, handler)] }

/-- The operations without a handler. -/
def missing (t : Table α) : List Op :=
  Op.all.filter (· ∉ t.keys)

/-- Registers handlers in the given order. -/
def registerAll (t : Table α) : List (Op × α) → Except Fault (Table α)
  | [] => .ok t
  | (op, handler) :: rest =>
    match t.register op handler with
    | .error fault => .error fault
    | .ok t => t.registerAll rest

/-- Freezes a table that has a handler for every operation. -/
def complete (t : Table α) : Except Fault (Table α) :=
  if t.missing.isEmpty then .ok { t with frozen := true } else .error (.missing t.missing)

/-- The frozen table with the given handlers. -/
def build (handlers : List (Op × α)) : Except Fault (Table α) :=
  match ({} : Table α).registerAll handlers with
  | .error fault => .error fault
  | .ok t => t.complete

end Table

end ChipEight
