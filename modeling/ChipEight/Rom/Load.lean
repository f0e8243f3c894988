import ChipEight.Machine.Note
import ChipEight.Rom.Path
import ChipEight.Rom.Size
import ChipEight.Text.Quoted

/-!
# Program files

`Rom.load` reads a program from a file system. It changes nothing in the bytes and refuses files that would not fit in
memory.
-/

namespace ChipEight.Rom

/-- Why a program could not be read from a file. -/
inductive LoadFault where
  /-- There is no file at that path. -/
  | notFound (path : String)
  /-- The path is too long to be looked up. -/
  | nameTooLong (path : Path)
  | oversize (e : Oversize)
  deriving DecidableEq, Repr

/-- The wording of the fault. -/
def LoadFault.message : LoadFault → String
  | .notFound path => "ROM file not found: " ++ path
  | .nameTooLong path => "[Errno 36] File name too long: " ++ String.ofList (Text.quoted path.text.toList)
  | .oversize e => e.message

def LoadFault.errorClass : LoadFault → ErrorClass
  | .notFound _ => .fileNotFoundError
  | .nameTooLong _ => .osError
  | .oversize e => e.errorClass

/-- Reads the program at a path, with a note on what was read. -/
def load (files : FileSystem) (path : String) : Except LoadFault (List UInt8 × Note) :=
  let place := Path.ofString path
  match files place with
  | .missing => .error (.notFound path)
  | .nameTooLong => .error (.nameTooLong place)
  | .found bytes =>
    match checkSize (.file place.lastName) bytes with
    | .error e => .error (.oversize e)
    | .ok program => .ok (program, .fileRead program.length place.text)

/-- A program that was read from a file fits in memory. -/
theorem length_le_of_load {files : FileSystem} {path : String} {program : List UInt8} {note : Note}
    (h : load files path = .ok (program, note)) : program.length ≤ maxProgram := by
  unfold load at h
  cases hf : files (Path.ofString path) with
  | missing => simp [hf] at h
  | nameTooLong => simp [hf] at h
  | found bytes =>
    cases hc : checkSize (.file (Path.ofString path).lastName) bytes with
    | error e => simp [hf, hc] at h
    | ok checked =>
      simp only [hf, hc, Except.ok.injEq, Prod.mk.injEq] at h
      exact h.1 ▸ (length_le_of_checkSize hc).2

end ChipEight.Rom
