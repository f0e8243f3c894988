import ChipEight.Instruction.Basic
import ChipEight.Machine.Parts

/-!
# Assembly text

`Instruction.assembly` writes an instruction the way assembly listings do, and `Listing.ofBytes` takes a program apart
into one line for every two bytes.
-/

namespace ChipEight

namespace Instruction

/-- A mnemonic with its operands, separated by commas. -/
def line (mnemonic : String) (operands : List String) : String :=
  mnemonic ++ " " ++ ", ".intercalate operands

/-- The instruction in assembly text; a meaningless word is shown behind question marks. -/
def assembly (ins : Instruction) : String :=
  let vx := Register.name ins.x
  let vy := Register.name ins.y
  let byte := Hex.literal 4 ins.kk
  let address := Hex.literal 5 ins.nnn
  match ins.op with
  | .clear => "CLS"
  | .ret => "RET"
  | .jump => line "JP" [address]
  | .call => line "CALL" [address]
  | .skipEqByte => line "SE" [vx, byte]
  | .skipNeByte => line "SNE" [vx, byte]
  | .skipEqReg => line "SE" [vx, vy]
  | .loadByte => line "LD" [vx, byte]
  | .addByte => line "ADD" [vx, byte]
  | .copy => line "LD" [vx, vy]
  | .or => line "OR" [vx, vy]
  | .and => line "AND" [vx, vy]
  | .xor => line "XOR" [vx, vy]
  | .add => line "ADD" [vx, vy]
  | .sub => line "SUB" [vx, vy]
  | .shiftRight => line "SHR" [vx, vy]
  | .subFrom => line "SUBN" [vx, vy]
  | .shiftLeft => line "SHL" [vx, vy]
  | .skipNeReg => line "SNE" [vx, vy]
  | .loadIndex => line "LD" ["I", address]
  | .jumpOffset => line "JP" [vx, address]
  | .random => line "RND" [vx, byte]
  | .draw => line "DRW" [vx, vy, toString ins.n.val]
  | .skipPressed => line "SKP" [vx]
  | .skipReleased => line "SKNP" [vx]
  | .readDelay => line "LD" [vx, "DT"]
  | .awaitKey => line "LD" [vx, "K"]
  | .setDelay => line "LD" ["DT", vx]
  | .setSound => line "LD" ["ST", vx]
  | .addIndex => line "ADD" ["I", vx]
  | .pointGlyph => line "LD" ["F", vx]
  | .storeDecimal => line "LD" ["B", vx]
  | .storeRegisters => line "LD" ["[I]", vx]
  | .loadRegisters => line "LD" [vx, "[I]"]
  | .invalid => line "???" [Hex.literal 6 ins.word]

end Instruction

namespace Listing

/-- One line of a listing: where the word stands, the word, and its instruction in assembly text. -/
structure Line where
  address : Int
  word : Nat
  assembly : String
  deriving DecidableEq, Repr

/-- The word of two bytes, high byte first. -/
def word (high low : UInt8) : Nat :=
  256 * high.toNat + low.toNat

/-- The line of one word. -/
def Line.ofWord (address : Int) (w : Nat) : Line :=
  ⟨address, w, (Instruction.decode w).assembly⟩

/-- The words of a program; a lone last byte is the high byte of a word whose low byte is zero. -/
def words : List UInt8 → List Nat
  | [] => []
  | [high] => [word high 0]
  | high :: low :: rest => word high low :: words rest

/-- The lines of words that stand one after the other from the address `start` on. -/
def ofWords (start : Int) (ws : List Nat) : List Line :=
  ws.zipIdx.map fun (w, k) => .ofWord (start + 2 * k) w

/-- The listing of a program whose first byte stands at the address `start`. -/
def ofBytes (bytes : List UInt8) (start : Int) : List Line :=
  ofWords start (words bytes)

/-- A line as it is printed: address, word and assembly text. -/
def Line.text (l : Line) : String :=
  Hex.bare 3 l.address ++ ": " ++ Hex.bare 4 l.word ++ "  " ++ l.assembly

end Listing

end ChipEight
