import ChipEight.Instruction.Op

/-!
# Instructions

An instruction is an operation together with the word that it was read from; its operands are groups of digits of that
word. `Instruction.decode` takes the low sixteen bits of any integer and finds their operation. `Op.fits` is the same
question asked of a single operation, by comparing the digits with its form.
-/

namespace ChipEight

/-- The hexadecimal digit of `word` at the given place, counted from the right. -/
def hexDigit (word : Int) (place : Nat) : Fin 16 :=
  ⟨(word >>> (4 * place) % 16).toNat, by omega⟩

/-- An operation and the word that names its operands. -/
structure Instruction where
  op : Op
  word : Int
  deriving DecidableEq, Repr

namespace Instruction

/-- The leading digit. -/
def lead (ins : Instruction) : Fin 16 := hexDigit ins.word 3

/-- The first register operand. -/
def x (ins : Instruction) : Fin 16 := hexDigit ins.word 2

/-- The second register operand. -/
def y (ins : Instruction) : Fin 16 := hexDigit ins.word 1

/-- The last digit, a count of rows. -/
def n (ins : Instruction) : Fin 16 := hexDigit ins.word 0

/-- The byte operand: the last two digits. -/
def kk (ins : Instruction) : Nat := (ins.word % 256).toNat

/-- The address operand: the last three digits. -/
def nnn (ins : Instruction) : Nat := (ins.word % 4096).toNat

/-- Whether the word had a meaning. -/
def valid (ins : Instruction) : Bool := ins.op != .invalid

end Instruction

/-- The operation of the word with the given digits. -/
def Op.ofDigits (lead x y n : Fin 16) : Op :=
  match lead.val with
  | 0x0 =>
    if x = 0 ∧ y = 0xE ∧ n = 0 then .clear
    else if x = 0 ∧ y = 0xE ∧ n = 0xE then .ret
    else .invalid
  | 0x1 => .jump
  | 0x2 => .call
  | 0x3 => .skipEqByte
  | 0x4 => .skipNeByte
  | 0x5 => if n = 0 then .skipEqReg else .invalid
  | 0x6 => .loadByte
  | 0x7 => .addByte
  | 0x8 =>
    match n.val with
    | 0x0 => .copy
    | 0x1 => .or
    | 0x2 => .and
    | 0x3 => .xor
    | 0x4 => .add
    | 0x5 => .sub
    | 0x6 => .shiftRight
    | 0x7 => .subFrom
    | 0xE => .shiftLeft
    | _ => .invalid
  | 0x9 => if n = 0 then .skipNeReg else .invalid
  | 0xA => .loadIndex
  | 0xB => .jumpOffset
  | 0xC => .random
  | 0xD => .draw
  | 0xE =>
    match y.val, n.val with
    | 0x9, 0xE => .skipPressed
    | 0xA, 0x1 => .skipReleased
    | _, _ => .invalid
  | _ =>
    match y.val, n.val with
    | 0x0, 0x7 => .readDelay
    | 0x0, 0xA => .awaitKey
    | 0x1, 0x5 => .setDelay
    | 0x1, 0x8 => .setSound
    | 0x1, 0xE => .addIndex
    | 0x2, 0x9 => .pointGlyph
    | 0x3, 0x3 => .storeDecimal
    | 0x5, 0x5 => .storeRegisters
    | 0x6, 0x5 => .loadRegisters
    | _, _ => .invalid

/-- The instruction in the low sixteen bits of an integer. -/
def Instruction.decode (word : Int) : Instruction :=
  let word := word % 0x10000
  ⟨.ofDigits (hexDigit word 3) (hexDigit word 2) (hexDigit word 1) (hexDigit word 0), word⟩

/-- Whether a digit may stand where a form has the character `c`. -/
def Op.accepts (c : Char) (d : Fin 16) : Bool :=
  c ∈ ['x', 'y', 'n', 'k'] || c == (Nat.digitChar d.val).toUpper

/-- Whether the digits of a word, most significant first, have the form of the operation. -/
def Op.fits (op : Op) (digits : List (Fin 16)) : Bool :=
  op.form.length == digits.length && (op.form.toList.zip digits).all fun (c, d) => accepts c d

/-- The four digits of a word, most significant first. -/
def wordDigits (word : Int) : List (Fin 16) :=
  [hexDigit word 3, hexDigit word 2, hexDigit word 1, hexDigit word 0]

end ChipEight
