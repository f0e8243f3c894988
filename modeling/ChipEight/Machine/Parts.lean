import ChipEight.ErrorClass
import ChipEight.Numeral.Hex

/-!
# The parts of the machine

How large the parts of the machine are, and the numbers by which its registers and keys go.
-/

namespace ChipEight

/-- The number of bytes of memory. -/
def memorySize : Nat := 4096

/-- The address of the first byte of the program. -/
def programStart : Nat := 512

/-- The number of registers. -/
abbrev registerCount : Nat := 16

/-- The number of keys. -/
abbrev keyCount : Nat := 16

/-- The most frames that the call stack holds. -/
def stackDepth : Nat := 16

/-- The width of the screen unless another is asked for. -/
def defaultWidth : Nat := 64

/-- The height of the screen unless another is asked for. -/
def defaultHeight : Nat := 32

/-- A register by its number. -/
abbrev Register := Fin registerCount

/-- A key of the keypad by its number. -/
abbrev Key := Fin keyCount

/-- The name of a register: the letter V and its number as a digit. -/
def Register.name (r : Register) : String :=
  "V" ++ Hex.bare 1 r.val

/-- The name of a key: its number as a digit. -/
def Key.name (k : Key) : String :=
  Hex.bare 1 k.val

/-- A number that is not the number of a register. -/
structure InvalidRegister where
  index : Int
  deriving DecidableEq, Repr

/-- A number that is not the number of a key. -/
structure InvalidKey where
  index : Int
  deriving DecidableEq, Repr

/-- The wording of the complaint. -/
def InvalidRegister.message (e : InvalidRegister) : String :=
  s!"Invalid register: {e.index}"

def InvalidRegister.errorClass (_ : InvalidRegister) : ErrorClass := .indexError

/-- The wording of the complaint. -/
def InvalidKey.message (e : InvalidKey) : String :=
  s!"Invalid key index: {e.index}"

def InvalidKey.errorClass (_ : InvalidKey) : ErrorClass := .valueError

/-- The register of a given number. -/
def Register.ofInt (index : Int) : Except InvalidRegister Register :=
  if h : 0 ≤ index ∧ index < registerCount then .ok ⟨index.toNat, by omega⟩ else .error ⟨index⟩

/-- The key of a given number. -/
def Key.ofInt (index : Int) : Except InvalidKey Key :=
  if h : 0 ≤ index ∧ index < keyCount then .ok ⟨index.toNat, by omega⟩ else .error ⟨index⟩

end ChipEight
