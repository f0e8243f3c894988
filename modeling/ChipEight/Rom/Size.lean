import ChipEight.Machine.Parts

/-!
# The size of programs

A program stands in memory from `programStart` to the end, so `maxProgram` bytes fit. `Oversize` is the complaint about
a larger one; it tells where the program came from.
-/

namespace ChipEight

/-- The most bytes that a program can have. -/
def maxProgram : Nat := memorySize - programStart

/-- Where a program came from. -/
inductive Origin where
  /-- The bytes were handed to the machine. -/
  | image
  /-- The bytes were read from the file of that name. -/
  | file (name : String)
  /-- The bytes were written out in a listing. -/
  | listing
  deriving DecidableEq, Repr

/-- A program of too many bytes. -/
structure Oversize where
  origin : Origin
  bytes : Nat
  deriving DecidableEq, Repr

/-- The word by which messages call a program of that origin. -/
def Origin.noun : Origin → String
  | .image => "ROM"
  | .file name => "ROM " ++ name
  | .listing => "Listing"

/-- The wording of the complaint. -/
def Oversize.message (e : Oversize) : String :=
  s!"{e.origin.noun} is {e.bytes} bytes; at most {maxProgram} fit in memory"

def Oversize.errorClass (_ : Oversize) : ErrorClass := .romTooLargeError

/-- A program that fits, or the complaint that it does not. -/
def checkSize (origin : Origin) (program : List UInt8) : Except Oversize (List UInt8) :=
  if maxProgram < program.length then .error ⟨origin, program.length⟩ else .ok program

/-- A program that fits passes the check. -/
theorem checkSize_of_length_le {origin : Origin} {program : List UInt8} (h : program.length ≤ maxProgram) :
    checkSize origin program = .ok program :=
  if_neg (Nat.not_lt.mpr h)

/-- A program that passes the check is not changed, and fits. -/
theorem length_le_of_checkSize {origin : Origin} {program checked : List UInt8}
    (h : checkSize origin program = .ok checked) : checked = program ∧ checked.length ≤ maxProgram := by
  unfold checkSize at h
  split at h
  · cases h
  · cases h
    exact ⟨rfl, by omega⟩

end ChipEight
