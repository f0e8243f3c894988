import ChipEight.Machine.Note
import ChipEight.Machine.Sprite
import ChipEight.Random.Source

/-!
# The machine

The state of the machine, how it starts, and the operations on its parts. Registers, timers and addresses are integers
of any size, because a debugger may put any number there; the instructions keep them in range.

* `Registers.value` and `Registers.put` look up and store the value of a register; `value_put` relates them.
* `Machine.start` makes the machine for a program.
* `Machine.store` writes memory and notes the writes that were refused.
* `Machine.push` and `Machine.pop` work on the call stack, whose most recent frame comes first.
* `Machine.snapshot` is the part of the state that a trace remembers.
-/

namespace ChipEight

/-- The contents of the registers. -/
abbrev Registers := Vector Int registerCount

/-- The value of a register. -/
def Registers.value (registers : Registers) (r : Register) : Int :=
  registers[r]

/-- The registers with a value stored in one of them. -/
def Registers.put (registers : Registers) (r : Register) (value : Int) : Registers :=
  registers.set r value

/-- Storing a value changes that register and no other. -/
theorem Registers.value_put (registers : Registers) (r s : Register) (value : Int) :
    (registers.put r value).value s = if r = s then value else registers.value s := by
  simp only [Registers.put, Registers.value, Fin.getElem_fin, Vector.getElem_set, Fin.ext_iff]

/-- Where the machine is in waiting for a key. -/
inductive KeyWait where
  /-- It executes instructions. -/
  | running
  /-- It waits for a key to store in the register. -/
  | awaiting (register : Register)
  /-- The key arrived and is stored by the next step. -/
  | pending (register : Register) (key : Key)
  deriving DecidableEq, Repr

/-- The state of the machine. -/
structure Machine where
  memory : Memory
  registers : Registers
  index : Int
  delay : Int
  sound : Int
  pc : Int
  stack : List Int
  keys : Vector Bool keyCount
  screen : Screen
  redraw : Bool
  keyWait : KeyWait
  random : RandomSource
  cycles : Int

/-- The part of the state that a trace remembers. -/
structure Snapshot where
  registers : Registers
  index : Int
  delay : Int
  sound : Int
  pc : Int
  stack : List Int
  redraw : Bool
  keyWait : KeyWait
  cycles : Int
  deriving DecidableEq

/-- Why a machine could not be made. -/
inductive StartFault where
  | oversize (e : Oversize)
  | badScreen (width height : Int)
  | tooManyCells (e : TooManyCells)
  deriving DecidableEq, Repr

/-- The wording of the fault. -/
def StartFault.message : StartFault → String
  | .oversize e => e.message
  | .badScreen width height => s!"Invalid display size: {width}x{height}"
  | .tooManyCells e => e.message

def StartFault.errorClass : StartFault → ErrorClass
  | .oversize e => e.errorClass
  | .badScreen .. => .valueError
  | .tooManyCells e => e.errorClass

/-- A fault of the stack, and the machine as the operation that faulted leaves it. -/
structure Failure where
  fault : StackFault
  machine : Machine

namespace Machine

/-- The machine as it is switched on with a program in memory. -/
def boot (program : List UInt8) (screen : Screen) (random : RandomSource) : Machine where
  memory := .image program
  registers := .replicate registerCount 0
  index := 0
  delay := 0
  sound := 0
  pc := programStart
  stack := []
  keys := .replicate keyCount false
  screen := screen
  redraw := false
  keyWait := .running
  random := random
  cycles := 0

/-- Switches a machine on, if the program fits and the screen has a size that is not too large for the platform. -/
def start (platform : Platform) (program : List UInt8) (width height : Int) (random : RandomSource) :
    Except StartFault Machine :=
  match checkSize .image program with
  | .error e => .error (.oversize e)
  | .ok program =>
    if h : 0 < width ∧ 0 < height then
      match checkCells platform (width.toNat * height.toNat) with
      | .error e => .error (.tooManyCells e)
      | .ok _ => .ok (boot program (.blank width.toNat height.toNat (by omega) (by omega)) random)
    else .error (.badScreen width height)

/-- Writes values to memory one after the other, and notes those that were refused. -/
def store (m : Machine) (writes : List (Int × Int)) : Machine × List Note :=
  ({ m with memory := m.memory.writeAll writes },
    (writes.filter fun (address, _) => inFont address).map fun (address, value) =>
      .writeRefused value (cell address))

/-- Puts an address on the stack. -/
def push (m : Machine) (address : Int) : Except Failure Machine :=
  if stackDepth ≤ m.stack.length then .error ⟨.overflow address, m⟩
  else .ok { m with stack := address :: m.stack }

/-- Takes the most recent address off the stack. -/
def pop (m : Machine) : Except Failure (Int × Machine) :=
  match m.stack with
  | [] => .error ⟨.underflow m.pc, m⟩
  | address :: rest => .ok (address, { m with stack := rest })

/-- Gives a register a value. -/
def setRegister (m : Machine) (r : Register) (value : Int) : Machine :=
  { m with registers := m.registers.put r value }

/-- The value of the register of a given number. -/
def register? (m : Machine) (index : Int) : Except InvalidRegister Int :=
  (Register.ofInt index).map m.registers.value

/-- Draws the sprite of the given height that the index points at; the flag tells whether a lit cell was put out. -/
def drawSprite (m : Machine) (x y height : Int) : Machine × Bool :=
  let (screen, collided) := m.screen.draw (m.memory.sprite m.index height) x y
  ({ m with screen := screen, redraw := true }, collided)

/-- Puts all cells of the screen out. -/
def clearScreen (m : Machine) : Machine :=
  { m with screen := m.screen.cleared, redraw := true }

/-- Marks a key as held down or not. -/
def setKey (m : Machine) (key : Key) (held : Bool) : Machine :=
  { m with keys := m.keys.set key held }

/-- The keys that are held down, in rising order. -/
def heldKeys (m : Machine) : List Key :=
  (List.finRange keyCount).filter fun key => m.keys[key]

/-- Whether the machine waits for a key. -/
def awaitingKey (m : Machine) : Bool :=
  match m.keyWait with
  | .awaiting _ => true
  | _ => false

/-- The part of the state that a trace remembers. -/
def snapshot (m : Machine) : Snapshot where
  registers := m.registers
  index := m.index
  delay := m.delay
  sound := m.sound
  pc := m.pc
  stack := m.stack
  redraw := m.redraw
  keyWait := m.keyWait
  cycles := m.cycles

end Machine

/-- The names of the registers with their values, in order. -/
def Registers.named (registers : Registers) : List (String × Int) :=
  (List.finRange registerCount).map fun (r : Register) => (r.name, registers.value r)

end ChipEight
