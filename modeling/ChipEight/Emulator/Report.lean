import ChipEight.Emulator.Basic

/-!
# Reports

What an emulator tells about itself: a summary, one line on the state of its machine, and the whole trace as text with
the changes that every instruction made.
-/

namespace ChipEight

/-- A line on the state of a machine. -/
def Machine.text (m : Machine) : String :=
  let registers := m.registers.named.map fun (name, value) => name ++ "=" ++ Hex.bare 2 value
  s!"[Cycle {m.cycles}] PC=" ++ Hex.bare 3 m.pc ++ " I=" ++ Hex.bare 3 m.index ++
    s!" DT={m.delay} ST={m.sound} SP={m.stack.length} " ++ " ".intercalate registers

/-- A place whose changes a trace shows. -/
inductive Place where
  | register (r : Register)
  | index
  deriving DecidableEq, Repr

/-- A place with its value before and after an instruction. -/
structure Change where
  place : Place
  old : Int
  new : Int
  deriving DecidableEq, Repr

/-- The value at a place. -/
def Snapshot.at (s : Snapshot) : Place → Int
  | .register r => s.registers.value r
  | .index => s.index

/-- The places whose changes a trace shows, in the order in which it shows them. -/
def Place.all : List Place :=
  (List.finRange registerCount).map .register ++ [.index]

/-- The places whose value differs between two states. -/
def changes (before after : Snapshot) : List Change :=
  (Place.all.filter fun place => before.at place ≠ after.at place).map fun place =>
    ⟨place, before.at place, after.at place⟩

/-- The name of a place. -/
def Place.name : Place → String
  | .register r => r.name
  | .index => "I"

/-- How many characters a value at a place takes at least. -/
def Place.digits : Place → Nat
  | .register _ => 4
  | .index => 5

/-- A change as a trace shows it. -/
def Change.text (c : Change) : String :=
  c.place.name ++ ": " ++ Hex.literal c.place.digits c.old ++ " -> " ++ Hex.literal c.place.digits c.new

namespace TraceEntry

/-- What an instruction did: the changes between the states of its entry. -/
def changes (entry : TraceEntry) : List Change :=
  ChipEight.changes entry.states.1 entry.states.2

/-- The instruction of an entry with its address and its word. -/
def heading (entry : TraceEntry) : String :=
  Hex.bare 3 entry.address ++ ": " ++ Hex.bare 4 entry.instruction.word ++ "  " ++ entry.instruction.assembly

/-- The lines on an entry in a report, after an empty one. -/
def lines (entry : TraceEntry) : List String :=
  let status := match entry.complaint? with
    | some complaint => "ERROR: " ++ complaint
    | none => "OK"
  ["", s!"[Cycle {entry.cycle}] " ++ entry.heading ++ "  " ++ status] ++
    if entry.changes.isEmpty then []
    else ["  Changes: " ++ ", ".intercalate (entry.changes.map Change.text)]

end TraceEntry

/-- A line of the same character over and over. -/
def rule (c : Char) (width : Nat) : String :=
  String.ofList (List.replicate width c)

/-- Lines as text, each with its end. -/
def textOfLines (lines : List String) : String :=
  String.join (lines.map (· ++ "\n"))

/-- Figures on a run and on the state that it led to. -/
structure Summary where
  cycles : Int
  pc : Int
  index : Int
  stackFrames : Nat
  delay : Int
  sound : Int
  awaitingKey : Bool
  registers : List (String × Int)
  traceLength : Nat
  complaints : List String
  lastError : Option String

namespace Emulator

/-- The report on the trace and on the state that it led to. -/
def traceReport (e : Emulator) : String :=
  let bar := rule '=' 70
  textOfLines ([bar, "CHIP-8 EXECUTION TRACE", bar] ++ e.trace.toList.flatMap TraceEntry.lines ++
    ["", bar, "FINAL STATE", bar, "  " ++ e.machine.text])

/-- The wording of the last bad word. -/
def lastErrorText (e : Emulator) : Option String :=
  e.lastError.map BadWord.message

/-- Figures on the run. -/
def summary (e : Emulator) : Summary where
  cycles := e.machine.cycles
  pc := e.machine.pc
  index := e.machine.index
  stackFrames := e.machine.stack.length
  delay := e.machine.delay
  sound := e.machine.sound
  awaitingKey := e.machine.awaitingKey
  registers := e.machine.registers.named
  traceLength := e.trace.size
  complaints := e.trace.toList.filterMap TraceEntry.complaint?
  lastError := e.lastErrorText

/-- The screen as text, one character for a cell. -/
def screenText (e : Emulator) (on : String := "#") (off : String := ".") : String :=
  e.machine.screen.text on off

end Emulator

end ChipEight
