import ChipEight.CommandLine.Run

/-!
# The executable

Reads the program file that the command line names, runs the command line, and prints what came of it.
-/

namespace ChipEight.CommandLine

/-- The path of the program file that a command line names. -/
def programPath? (arguments : List String) : Option Path :=
  match Request.ofArguments arguments with
  | .ok (.carryOut { input := .file path, .. }) => some (.ofString path)
  | _ => none

/-- Looks up the file at a path. The only thing that can be wrong with a path as such is its length. -/
def look (path : Path) : IO Lookup := do
  if path.text.toList.contains '\x00' then return .missing
  try
    let bytes ← IO.FS.readBinFile path.text
    return .found bytes.toList
  catch
    | .invalidArgument .. => return .nameTooLong
    | _ => return .missing

/-- A number that differs from run to run. -/
def freshSeed : IO Nat := do
  let bytes ← IO.getRandomBytes 16
  return bytes.toList.foldl (fun n b => 256 * n + b.toNat) 0

end ChipEight.CommandLine

open ChipEight ChipEight.CommandLine

def main (arguments : List String) : IO UInt32 := do
  let named := programPath? arguments
  let seen ← match named with
    | some path => look path
    | none => pure .missing
  let files : FileSystem := fun path => if some path = named then seen else .missing
  match run .vast arguments files (.ofSeed (← freshSeed)) with
  | .error breakdown =>
    IO.eprintln breakdown.message
    return 1
  | .ok outcome =>
    IO.print outcome.stdout
    IO.eprint outcome.stderr
    return outcome.exit
