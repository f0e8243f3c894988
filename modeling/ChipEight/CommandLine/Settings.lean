import ChipEight.CommandLine.Grammar
import ChipEight.Machine.Basic

/-!
# Settings

What the options of the program set, and the options themselves in the order in which messages list them.
-/

namespace ChipEight.CommandLine

/-- What a user asks for. A setting whose option was left without a value is `none`. -/
structure Settings where
  /-- The path of a program file. -/
  rom : Option String := none
  /-- A program as a hexadecimal listing. -/
  listing : Option String := none
  /-- The most steps to run. -/
  budget : Option Int := some 1000
  /-- The steps per second. -/
  rate : Option Float := some 0
  /-- The keys that answer key waits, in writing. -/
  keys : Option String := some ""
  width : Option Int := some defaultWidth
  height : Option Int := some defaultHeight
  /-- The seed of the random bytes, if the option was given. -/
  seed : Option (Option Int) := none
  trace : Bool := false
  disassemble : Bool := false
  quiet : Bool := false
  /-- The least level of the notes that are shown. -/
  level : Option Level := some .warning
  deriving DecidableEq, Repr

/-- An option with a value that is read in some way; no value is read as none. -/
def valueOption {α : Type} (names : List String) (read : String → Except ValueFault α)
    (change : Option α → Settings → Settings) : Opt Settings where
  names := names
  action := .value fun text settings =>
    match text with
    | none => .ok (change none settings)
    | some text => (read text).map fun value => change (some value) settings

/-- Reads an integer. -/
def readInteger (text : String) : Except ValueFault Int :=
  (Integer.read 10 text.toList).mapError fun _ => .notInteger text

/-- Reads a number. -/
def readReal (text : String) : Except ValueFault Float :=
  match Real.read? text.toList with
  | some value => .ok value
  | none => .error (.notReal text)

/-- Reads the name of a level. -/
def readLevel (text : String) : Except ValueFault Level :=
  match Level.ofName? text with
  | some level => .ok level
  | none => .error (.notAmong text (Level.all.map Level.name))

/-- An option with an integer for its value. -/
def integerOption (names : List String) : (Option Int → Settings → Settings) → Opt Settings :=
  valueOption names readInteger

/-- An option with any text for its value. -/
def textOption (names : List String) : (Option String → Settings → Settings) → Opt Settings :=
  valueOption names .ok

/-- An option without a value. -/
def flagOption (names : List String) (change : Settings → Settings) : Opt Settings where
  names := names
  action := .flag change

/-- The options of the program. -/
def options : Grammar Settings := [
  { names := ["-h", "--help"], action := .help },
  textOption ["--rom", "-r"] fun path s => { s with rom := path },
  textOption ["--hex"] fun text s => { s with listing := text },
  integerOption ["--cycles", "-c"] fun value s => { s with budget := value },
  valueOption ["--rate"] readReal fun value s => { s with rate := value },
  textOption ["--keys", "-k"] fun text s => { s with keys := text },
  integerOption ["--width"] fun value s => { s with width := value },
  integerOption ["--height"] fun value s => { s with height := value },
  integerOption ["--seed"] fun value s => { s with seed := some value },
  flagOption ["--trace", "-t"] fun s => { s with trace := true },
  flagOption ["--disasm"] fun s => { s with disassemble := true },
  flagOption ["--quiet", "-q"] fun s => { s with quiet := true },
  valueOption ["--log-level"] readLevel fun level s => { s with level := level }]

/-- Where the program comes from: a file before a listing, and an empty text counts as none. -/
inductive Input where
  | file (path : String)
  | listing (text : String)
  deriving DecidableEq, Repr

/-- The program that the settings ask for. -/
def Settings.input? (s : Settings) : Option Input :=
  ((s.rom.filter (· ≠ "")).map .file) <|> ((s.listing.filter (· ≠ "")).map .listing)

end ChipEight.CommandLine
