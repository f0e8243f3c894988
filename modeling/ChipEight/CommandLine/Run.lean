import ChipEight.CommandLine.Settings
import ChipEight.Emulator.Pace
import ChipEight.Emulator.Report
import ChipEight.Rom.HexListing
import ChipEight.Rom.Load

/-!
# The program

What a command line comes to: an exit code, what is printed, and what is reported beside it. `CommandLine.run` is a
function of the platform, the arguments, the file system and the random source that is used when no seed is given.

* `Request.ofArguments` reads the arguments and settles everything that can be wrong with them; `Settings.request` does
  so for the settings that the arguments come to.
* `Plan.transcript` reads the program, runs or lists it, and tells all that there is to tell; `Plan.outcome` leaves out
  the notes that the user does not want to see.

An option may be left without a value. That does no harm until the value is needed; then the run breaks off, as it does
by any error that no handler takes. What is known of a run that breaks off is its `Breakdown`.
-/

namespace ChipEight.CommandLine

/-- What came of a command line. -/
structure Outcome where
  exit : UInt32
  stdout : String
  stderr : String
  deriving DecidableEq, Repr

/-- What came of a command line, with all notes that were made. -/
structure Transcript where
  exit : UInt32
  stdout : String
  notes : List Note
  deriving DecidableEq

/-- The name under which the program reports what is wrong with its arguments. -/
def programName : String := "main.py"

/-- Why a command line asks for nothing that can be done. -/
inductive Refusal where
  | arguments (fault : Fault)
  | noProgram
  | keys (fault : Keypad.ListFault)
  deriving DecidableEq

/-- The wording of the refusal. -/
def Refusal.message : Refusal → String
  | .arguments fault => fault.message
  | .noProgram => "Either --rom or --hex is required"
  | .keys fault => "--keys: " ++ fault.message

/-- A setting that is needed and whose option was left without a value. -/
inductive Unset where
  | level
  | keys
  | seed
  | width
  | height
  | rate
  | budget
  deriving DecidableEq, Repr

/-- The wording of the complaint. -/
def Unset.message : Unset → String
  | .level => "attribute name must be string, not 'list'"
  | .keys => "'list' object has no attribute 'split'"
  | .seed => "The only supported seed types are: None,\nint, float, str, bytes, and bytearray."
  | .width => "'<=' not supported between instances of 'list' and 'int'"
  | .height => "'<=' not supported between instances of 'list' and 'int'"
  | .rate => "'>' not supported between instances of 'list' and 'int'"
  | .budget => "'<' not supported between instances of 'int' and 'list'"

def Unset.errorClass : Unset → ErrorClass
  | .keys => .attributeError
  | .level | .seed | .width | .height | .rate | .budget => .typeError

/-- Why a program could not be read. -/
inductive InputFault where
  | file (fault : Rom.LoadFault)
  | listing (fault : HexListing.Fault)
  deriving DecidableEq

/-- The wording of the fault. -/
def InputFault.message : InputFault → String
  | .file fault => fault.message
  | .listing fault => fault.message

def InputFault.errorClass : InputFault → ErrorClass
  | .file fault => fault.errorClass
  | .listing fault => fault.errorClass

/-- Why a run broke off: the use of an option without a value, or an error that passed its handler. -/
inductive Breakdown where
  | unset (setting : Unset)
  | keys (fault : Keypad.ListFault)
  | input (fault : InputFault)
  | start (fault : StartFault)
  | run (fault : FeedFault)
  | endlessPause (e : EndlessPause)
  deriving DecidableEq

/-- The wording of the complaint. -/
def Breakdown.message : Breakdown → String
  | .unset setting => setting.message
  | .keys fault => fault.message
  | .input fault => fault.message
  | .start fault => fault.message
  | .run fault => fault.message
  | .endlessPause e => e.message

def Breakdown.errorClass : Breakdown → ErrorClass
  | .unset setting => setting.errorClass
  | .keys fault => fault.errorClass
  | .input fault => fault.errorClass
  | .start fault => fault.errorClass
  | .run fault => fault.errorClass
  | .endlessPause e => e.errorClass

/-- The value of a setting that is needed. -/
def needed {α : Type} (setting : Unset) : Option α → Except Breakdown α
  | some value => .ok value
  | none => .error (.unset setting)

/-- What a sound command line asks for. -/
structure Plan where
  settings : Settings
  input : Input
  /-- The least level of the notes that are shown. -/
  level : Level
  keys : List Key

/-- What a command line asks for. -/
inductive Request where
  | help
  | refused (refusal : Refusal)
  | carryOut (plan : Plan)

/-- What settings ask for. -/
def Settings.request (s : Settings) : Except Breakdown Request :=
  match s.input? with
  | none => .ok (.refused .noProgram)
  | some input => do
    let level ← needed .level s.level
    let text ← needed .keys s.keys
    match ← (handling [.valueError] Keypad.ListFault.errorClass (Keypad.readList text.toList)).mapError .keys with
    | .error fault => return .refused (.keys fault)
    | .ok keys => return .carryOut { settings := s, input, level, keys }

/-- Reads a command line. -/
def Request.ofArguments (arguments : List String) : Except Breakdown Request :=
  match options.read {} arguments with
  | .error .help => .ok .help
  | .error (.fault fault) => .ok (.refused (.arguments fault))
  | .ok settings => settings.request

/-- Reads the program that is asked for, with the notes made on the way. -/
def Input.program (i : Input) (files : FileSystem) : Except InputFault (List UInt8 × List Note) :=
  match i with
  | .file path =>
    match Rom.load files path with
    | .error fault => .error (.file fault)
    | .ok (program, note) => .ok (program, [note])
  | .listing text =>
    match HexListing.parse text.toList with
    | .error fault => .error (.listing fault)
    | .ok program => .ok (program, [])

/-- The line that tells which program is used. -/
def Input.announcement (i : Input) (bytes : Nat) : String :=
  match i with
  | .file path => s!"Loading ROM: {path} ({bytes} bytes)"
  | .listing _ => s!"Running hex listing ({bytes} bytes)"

/-- The notes of at least the given level, a line each. -/
def noteLines (level : Level) (notes : List Note) : List String :=
  (notes.filter fun note => level.rank ≤ note.level.rank).map fun note =>
    s!"[{note.level.name}]:  {note.message}"

/-- The registers between braces, each name between quotes. -/
def registersInBraces (registers : List (String × Int)) : String :=
  "\x7b" ++ ", ".intercalate (registers.map fun (name, value) => s!"'{name}': {value}") ++ "\x7d"

/-- The lines on how a run ended; the number of steps is known unless a fault ended it. -/
def summaryLines (s : Summary) (steps : Option Nat) : List String :=
  (steps.toList.map fun steps => s!"Steps: {steps}") ++
    [s!"Cycles: {s.cycles}",
      "PC: " ++ Hex.literal 5 s.pc ++ "  I: " ++ Hex.literal 5 s.index ++ s!"  SP: {s.stackFrames}",
      s!"Timers: DT={s.delay} ST={s.sound}",
      "Registers: " ++ registersInBraces s.registers] ++
    (if s.awaitingKey then ["Stopped: waiting for a key press"] else []) ++
    (s.lastError.toList.map ("Last error: " ++ ·))

namespace Plan

/-- Lines that are left out when little output is asked for. -/
def unlessQuiet (p : Plan) (lines : List String) : List String :=
  if p.settings.quiet then [] else lines

/-- Runs an emulator and reports on it: how the run went, its trace if that was asked for, the screen, and a summary. -/
def report (p : Plan) (opening : List String) (notes : List Note) (e : Emulator) : Except Breakdown Transcript := do
  let rate ← needed .rate p.settings.rate
  let budget ← needed .budget p.settings.budget
  let (result, e) ← (e.feedAt rate budget (p.keys.map fun key => (key.val : Int))).mapError .endlessPause
  let result ← (handling [.chip8Error] FeedFault.errorClass result).mapError .run
  let banner := [rule '-' 60, "Executing...", rule '-' 60]
  let (exit, complaint, steps) : UInt32 × List String × Option Nat := match result with
    | .ok fed => (0, [], some fed.steps)
    | .error fault => (1, ["Execution error: " ++ fault.message], none)
  let before := textOfLines (opening ++ p.unlessQuiet banner ++ complaint)
  let trace := if p.settings.trace then e.traceReport else ""
  let screen := textOfLines [e.screenText]
  let after := textOfLines (p.unlessQuiet ("" :: summaryLines e.summary steps))
  return ⟨exit, before ++ trace ++ screen ++ after, notes ++ e.log.toList⟩

/-- The random source that the settings ask for. -/
def random (p : Plan) (unseeded : RandomSource) : Except Breakdown RandomSource :=
  match p.settings.seed with
  | none => .ok unseeded
  | some seed => (needed .seed seed).map .ofSeed

/-- Starts an emulator for a program, or tells why there is none. A width that is not positive is bad enough without a
height. -/
def start (platform : Platform) (p : Plan) (program : List UInt8) (random : RandomSource) :
    Except Breakdown (Except String Emulator) := do
  let width ← needed .width p.settings.width
  match p.settings.height with
  | none => if width ≤ 0 then return .error s!"Invalid display size: {width}x[]" else .error (.unset .height)
  | some height =>
    let started ← (handling [.romTooLargeError, .valueError] StartFault.errorClass
      (Emulator.start platform program width height random p.settings.trace)).mapError .start
    return started.mapError StartFault.message

/-- Reads the program and lists or runs it. It is assumed that the output takes every text, whatever characters are in
the path or the complaints that it names. -/
def transcript (platform : Platform) (p : Plan) (files : FileSystem) (unseeded : RandomSource) :
    Except Breakdown Transcript := do
  match ← (handling [.osError, .valueError] InputFault.errorClass (p.input.program files)).mapError .input with
  | .error fault => return ⟨1, textOfLines ["Error: " ++ fault.message], []⟩
  | .ok (program, notes) =>
    let opening := p.unlessQuiet [p.input.announcement program.length]
    if p.settings.disassemble then
      return ⟨0, textOfLines (opening ++ (Listing.ofBytes program programStart).map Listing.Line.text), notes⟩
    else
      match ← p.start platform program (← p.random unseeded) with
      | .error complaint => return ⟨1, textOfLines (opening ++ ["Error: " ++ complaint]), notes⟩
      | .ok e => p.report opening notes e

/-- Carries the plan out and shows the notes of the level that was asked for. -/
def outcome (platform : Platform) (p : Plan) (files : FileSystem) (unseeded : RandomSource) :
    Except Breakdown Outcome :=
  (p.transcript platform files unseeded).map fun t => ⟨t.exit, t.stdout, textOfLines (noteLines p.level t.notes)⟩

end Plan

/-- The options by name, for a user who asks for help. It stands for a longer text that tells what each option does, and
is not worded like it. -/
def help : String :=
  textOfLines ("CHIP-8 interpreter (headless)" :: "options:" :: options.map fun o => "  " ++ ", ".intercalate o.names)

/-- **What a command line comes to.** -/
def run (platform : Platform) (arguments : List String) (files : FileSystem) (unseeded : RandomSource) :
    Except Breakdown Outcome := do
  match ← Request.ofArguments arguments with
  | .help => return ⟨0, help, ""⟩
  | .refused refusal => return ⟨2, "", programName ++ ": error: " ++ refusal.message ++ "\n"⟩
  | .carryOut plan => plan.outcome platform files unseeded

end ChipEight.CommandLine
