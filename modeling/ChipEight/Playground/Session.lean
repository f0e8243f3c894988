import ChipEight.Playground.Examples
import ChipEight.Playground.Panels
import ChipEight.Rom.HexListing
import ChipEight.Rom.Load

/-!
# Sessions

A session holds at most one emulator, loads programs into a fresh one, and runs it a number of steps at a time. Every
operation answers with panels and the session afterwards. The log of the session grows; its emulator's own log is moved
there after each operation.
-/

namespace ChipEight.Playground

/-- A playground between two operations. -/
structure Session where
  emulator? : Option Emulator := none
  log : Array Note := #[]

/-- Why a program was not loaded. -/
inductive LoadFault where
  | file (fault : Rom.LoadFault)
  | listing (fault : HexListing.Fault)
  | seed (fault : Integer.Fault)
  | start (fault : StartFault)
  deriving DecidableEq

/-- The wording of the fault. -/
def LoadFault.message : LoadFault → String
  | .file fault => fault.message
  | .listing fault => fault.message
  | .seed fault => fault.message
  | .start fault => fault.message

def LoadFault.errorClass : LoadFault → ErrorClass
  | .file fault => fault.errorClass
  | .listing fault => fault.errorClass
  | .seed _ => .valueError
  | .start fault => fault.errorClass

/-- What a user asks to be loaded. -/
structure Request where
  /-- The name of the example that the listing belongs to. -/
  exampleName : String
  listing : String
  /-- The path of a file, which takes the place of the listing unless it is empty. -/
  file : String
  /-- A number that decides the random bytes; any bytes will do if it is blank. -/
  seed : String

/-- A program, what to call it, and the notes made while reading it. -/
structure Loaded where
  program : List UInt8
  title : String
  notes : List Note

/-- Reads the program of a request. -/
def Request.program (r : Request) (files : FileSystem) : Except LoadFault Loaded :=
  if r.file.isEmpty then
    match HexListing.parse r.listing.toList with
    | .error fault => .error (.listing fault)
    | .ok program => .ok ⟨program, r.exampleName, []⟩
  else
    match Rom.load files r.file with
    | .error fault => .error (.file fault)
    | .ok (program, note) => .ok ⟨program, (Path.ofString r.file).lastName, [note]⟩

/-- The random source of a request; `unseeded` is the one to take if no seed is given. -/
def Request.random (r : Request) (unseeded : RandomSource) : Except LoadFault RandomSource :=
  if (Text.strip r.seed.toList).isEmpty then .ok unseeded
  else match Integer.read 10 r.seed.toList with
    | .error fault => .error (.seed fault)
    | .ok seed => .ok (.ofSeed seed)

namespace Session

/-- The panels of the present emulator. -/
def panels (s : Session) (message : String := "") : Panels :=
  .of s.emulator? message

/-- Holds an emulator, and moves its log to the end of the session's. -/
def hold (s : Session) (e : Emulator) : Session :=
  { emulator? := some { e with log := #[] }, log := s.log ++ e.log }

/-- Gives the present emulator up after a failed attempt to load a program. -/
def abandon (s : Session) (fault : LoadFault) (notes : List Note) : Panels × Session :=
  let s := { emulator? := none, log := s.log ++ notes.toArray }
  (s.panels ("Error: " ++ fault.message), s)

/-- Loads a program into a fresh emulator. -/
def load (s : Session) (platform : Platform) (r : Request) (files : FileSystem) (unseeded : RandomSource) :
    Panels × Session :=
  match r.program files with
  | .error fault => s.abandon fault []
  | .ok loaded =>
    match r.random unseeded with
    | .error fault => s.abandon fault loaded.notes
    | .ok random =>
      match Emulator.start platform loaded.program defaultWidth defaultHeight random true with
      | .error fault => s.abandon (.start fault) loaded.notes
      | .ok e =>
        let s := { s with log := s.log ++ loaded.notes.toArray }.hold e
        (s.panels s!"Loaded {loaded.title} ({loaded.program.length} bytes)", s)

/-- The message after a run: what `report` says of the number of steps, or the fault that ended it. -/
def runMessage (report : Nat → String) : Except StackFault Nat → String
  | .ok steps => report steps
  | .error fault => "Execution error: " ++ fault.message

/-- Runs the present emulator for at most a number of steps. -/
def run (s : Session) (budget : Int) : Panels × Session :=
  match s.emulator? with
  | none => (s.panels, s)
  | some e =>
    let (result, e) := e.run budget
    let s := s.hold e
    (s.panels (runMessage (fun steps => s!"Ran {steps} steps") result), s)

/-- Holds a key down while the present emulator runs for at most a number of steps. -/
def press (s : Session) (index : Int) (budget : Int) : Except InvalidKey (Panels × Session) :=
  match s.emulator? with
  | none => .ok (s.panels, s)
  | some e =>
    match Key.ofInt index with
    | .error fault => .error fault
    | .ok key =>
      let (result, e) := (e.press key).run budget
      let s := s.hold (e.release key)
      let report (steps : Nat) := "Key " ++ key.name ++ s!" held for {steps} steps"
      .ok (s.panels (runMessage report result), s)

end Session

end ChipEight.Playground
