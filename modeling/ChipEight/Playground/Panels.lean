import ChipEight.Emulator.Report

/-!
# Panels

The four texts by which a playground shows an emulator: its screen, its registers, the latest instructions of its trace
and its status.
-/

namespace ChipEight.Playground

/-- What a playground shows. -/
structure Panels where
  screen : String := ""
  registers : String := ""
  trace : String := ""
  status : String := ""
  deriving DecidableEq, Repr

/-- How many instructions of a trace are shown. -/
def shownEntries : Nat := 50

/-- A number in decimal, filled with blanks on the left. -/
def rightAligned (width : Nat) (n : Int) : String :=
  let digits := toString n
  String.ofList (digits.toList.leftpad width ' ')

/-- The line on a register; a star marks a value other than zero. -/
def registerLine (name : String) (value : Int) : String :=
  "  " ++ name ++ ": " ++ Hex.literal 4 value ++ " (" ++ rightAligned 3 value ++ ")" ++ if value ≠ 0 then " *" else ""

/-- The registers, the addresses and the timers. -/
def registersText (s : Summary) : String :=
  "\n".intercalate (["REGISTERS", rule '=' 30] ++
    (s.registers.map fun (name, value) => registerLine name value) ++
    ["", "  PC: " ++ Hex.literal 5 s.pc, "  I:  " ++ Hex.literal 5 s.index, s!"  SP: {s.stackFrames}",
      s!"  DT: {s.delay}  ST: {s.sound}"])

/-- The line on an entry of a trace. -/
def traceLine (entry : TraceEntry) : String :=
  entry.heading ++ match entry.complaint? with
    | some complaint => "  ! " ++ complaint
    | none => ""

/-- The latest entries of a trace. -/
def traceText (trace : Array TraceEntry) : String :=
  "\n".intercalate ((trace.toList.drop (trace.size - shownEntries)).map traceLine)

/-- The count of cycles, what the machine waits for or complained about, and a message if there is one. -/
def statusText (s : Summary) (message : String) : String :=
  "\n".intercalate ([s!"Cycles: {s.cycles}"] ++
    (if s.awaitingKey then ["Waiting for a key press"] else []) ++
    (s.lastError.toList.map ("Last error: " ++ ·)) ++
    (if message.isEmpty then [] else [message]))

/-- The panels of an emulator, or of none. -/
def Panels.of (emulator? : Option Emulator) (message : String) : Panels :=
  match emulator? with
  | none => { status := if message.isEmpty then "No program loaded" else message }
  | some e =>
    let s := e.summary
    { screen := e.screenText "█" " "
      registers := registersText s
      trace := traceText e.trace
      status := statusText s message }

end ChipEight.Playground
