import ChipEight.Instruction.Basic
import ChipEight.Instruction.Table
import ChipEight.Machine.Basic
import ChipEight.Numeral.Bitwise

/-!
# Execution

What each operation does to the machine. `effect` is the table of meanings: it gives the machine after the operation,
program counter included, with the notes made on the way. `Machine.execute` adds what all operations share: the
program counter is brought back into memory, and an operation with a meaning counts as a cycle. A fault comes with the
machine as the operation leaves it, and skips what all operations share.
-/

namespace ChipEight

/-- The register that receives carries, borrows and collisions. -/
def flag : Register := ⟨0xF, by decide⟩

/-- One for `true` and zero for `false`. -/
def bitOf (b : Bool) : Int :=
  if b then 1 else 0

/-- The registers from the first one to `r`. -/
def registersUpTo (r : Register) : List Register :=
  (List.finRange registerCount).take (r.val + 1)

/-- What an operation does: the machine afterwards with the notes, or the failure. -/
abbrev Effect := Except Failure (Machine × List Note)

namespace Machine

/-- Moves on by one word. -/
def advance (m : Machine) : Machine :=
  { m with pc := m.pc + 2 }

/-- Moves on by two words if the condition holds, and by one otherwise. -/
def skipIf (m : Machine) (condition : Bool) : Machine :=
  { m with pc := m.pc + if condition then 4 else 2 }

/-- Gives a register a value, and then the flag, which wins if it is the same register. -/
def setWithFlag (m : Machine) (r : Register) (value flagValue : Int) : Machine :=
  (m.setRegister r value).setRegister flag flagValue

/-- Whether the key that a register names by its low digit is held down. -/
def holdsKeyOf (m : Machine) (r : Register) : Bool :=
  m.keys[hexDigit (m.registers.value r) 0]

/-- The decimal digits of a register, at the index and the two addresses behind it. -/
def decimalWrites (m : Machine) (r : Register) : List (Int × Int) :=
  let value := m.registers.value r
  [(m.index, value / 100), (m.index + 1, value % 100 / 10), (m.index + 2, value % 10)]

/-- Moves the index on by one, in sixteen bits. -/
def moveIndex (m : Machine) : Machine :=
  { m with index := (m.index + 1) % 0x10000 }

/-- Stores registers one by one at the index, which moves on after each. -/
def storeEach (m : Machine) : List Register → Machine × List Note
  | [] => (m, [])
  | r :: rest =>
    let (stored, refused) := m.store [(m.index, m.registers.value r)]
    let (after, more) := stored.moveIndex.storeEach rest
    (after, refused ++ more)

/-- Loads registers one by one from the index, which moves on after each. -/
def loadEach (m : Machine) : List Register → Machine
  | [] => m
  | r :: rest => (m.setRegister r (m.memory.read m.index).toNat).moveIndex.loadEach rest

end Machine

/-- A result without notes. -/
def quietly (m : Machine) : Effect := .ok (m, [])

/-- **The meaning of each operation.** -/
def effect (op : Op) (ins : Instruction) (m : Machine) : Effect :=
  let vx := m.registers.value ins.x
  let vy := m.registers.value ins.y
  match op with
  | .clear => quietly m.clearScreen.advance
  | .ret => do
    let (address, m) ← m.pop
    quietly { m with pc := address + 2 }
  | .jump => quietly { m with pc := ins.nnn }
  | .call => do
    let m ← m.push m.pc
    quietly { m with pc := ins.nnn }
  | .jumpOffset => quietly { m with pc := ins.nnn + vx }
  | .skipEqByte => quietly (m.skipIf (vx == ins.kk))
  | .skipNeByte => quietly (m.skipIf (vx != ins.kk))
  | .skipEqReg => quietly (m.skipIf (vx == vy))
  | .skipNeReg => quietly (m.skipIf (vx != vy))
  | .skipPressed => quietly (m.skipIf (m.holdsKeyOf ins.x))
  | .skipReleased => quietly (m.skipIf (!m.holdsKeyOf ins.x))
  | .loadByte => quietly (m.setRegister ins.x ins.kk).advance
  | .addByte => quietly (m.setRegister ins.x ((vx + ins.kk) % 0x100)).advance
  | .copy => quietly (m.setRegister ins.x vy).advance
  | .or => quietly (m.setWithFlag ins.x (Bitwise.or vx vy) 0).advance
  | .and => quietly (m.setWithFlag ins.x (Bitwise.and vx vy) 0).advance
  | .xor => quietly (m.setWithFlag ins.x (Bitwise.xor vx vy) 0).advance
  | .add => quietly (m.setWithFlag ins.x ((vx + vy) % 0x100) (bitOf (vx + vy > 0xFF))).advance
  | .sub => quietly (m.setWithFlag ins.x ((vx - vy) % 0x100) (bitOf (vx ≥ vy))).advance
  | .subFrom => quietly (m.setWithFlag ins.x ((vy - vx) % 0x100) (bitOf (vy ≥ vx))).advance
  | .shiftRight => quietly (m.setWithFlag ins.x (vx / 2) (vx % 2)).advance
  | .shiftLeft => quietly (m.setWithFlag ins.x (vx * 2 % 0x100) (vx / 0x80 % 2)).advance
  | .random =>
    let (number, random) := m.random.next
    quietly (({ m with random }).setRegister ins.x (Bitwise.and number.toNat ins.kk)).advance
  | .loadIndex => quietly { m with index := ins.nnn }.advance
  | .addIndex => quietly { m with index := (m.index + vx) % 0x10000 }.advance
  | .pointGlyph => quietly { m with index := vx * glyphSize }.advance
  | .storeDecimal =>
    let (m, notes) := m.store (m.decimalWrites ins.x)
    .ok (m.advance, notes)
  | .storeRegisters =>
    let (m, notes) := m.storeEach (registersUpTo ins.x)
    .ok (m.advance, notes)
  | .loadRegisters => quietly (m.loadEach (registersUpTo ins.x)).advance
  | .readDelay => quietly (m.setRegister ins.x m.delay).advance
  | .setDelay => quietly { m with delay := vx }.advance
  | .setSound => quietly { m with sound := vx }.advance
  | .awaitKey => .ok ({ m with keyWait := .awaiting ins.x }.advance, [.keyAwaited ins.x])
  | .draw =>
    let (m, collided) := m.drawSprite vx vy ins.n.val
    quietly (m.setRegister flag (bitOf collided)).advance
  | .invalid => .ok (m, [.badWord ⟨ins.word, m.pc⟩])

namespace Machine

/-- Executes an instruction: its effect, then the program counter back into memory and the count of cycles. -/
def execute (m : Machine) (ins : Instruction) : Effect := do
  let (m, notes) ← effect ins.op ins m
  return ({ m with pc := m.pc % memorySize, cycles := if ins.valid then m.cycles + 1 else m.cycles }, notes)

end Machine

/-- The table that gives every operation its meaning. -/
def standardTable : Except Table.Fault (Table (Instruction → Machine → Effect)) :=
  Table.build (Op.all.map fun op => (op, effect op))

end ChipEight
