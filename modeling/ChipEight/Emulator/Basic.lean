import ChipEight.Instruction.Assembly
import ChipEight.Keypad
import ChipEight.Machine.Readings
import ChipEight.Machine.Step

/-!
# The emulator

A machine under observation. The emulator steps its machine, remembers the last word without a meaning, keeps a log of
all notes and, while it is tracing, an entry for every instruction that was fetched.

* `Emulator.start` makes an emulator for a program.
* `Emulator.step`, `Emulator.run`, `Emulator.keyDown` and `Emulator.keyUp` are its controls. Each gives a result and
  the emulator afterwards, also when the result is a fault.
-/

namespace ChipEight

/-- Why an instruction is marked in a trace. -/
inductive Mishap where
  /-- The word had no meaning. -/
  | badWord (e : BadWord)
  /-- The instruction faulted. -/
  | stack (fault : StackFault)
  deriving DecidableEq, Repr

/-- The wording of a mishap. -/
def Mishap.message : Mishap → String
  | .badWord e => e.message
  | .stack fault => fault.message

/-- What a trace remembers of a fetched instruction. -/
structure TraceEntry where
  /-- The count of cycles after the step. -/
  cycle : Int
  /-- The address that the instruction was fetched from. -/
  address : Int
  instruction : Instruction
  /-- The state before and after the instruction. -/
  states : Snapshot × Snapshot
  mishap : Option Mishap

/-- The wording of the mishap of an entry. -/
def TraceEntry.complaint? (entry : TraceEntry) : Option String :=
  entry.mishap.map Mishap.message

/-- A machine under observation. -/
structure Emulator where
  machine : Machine
  tracing : Bool
  trace : Array TraceEntry := #[]
  lastError : Option BadWord := none
  log : Array Note := #[]

namespace Emulator

/-- An emulator for a program, with a fresh machine. -/
def start (platform : Platform) (program : List UInt8) (width height : Int) (random : RandomSource) (tracing : Bool) :
    Except StartFault Emulator :=
  match Machine.start platform program width height random with
  | .error fault => .error fault
  | .ok machine =>
    .ok { machine, tracing, log := #[.programLoaded program.length machine.screen.width machine.screen.height] }

/-- Puts another machine in the place of the present one and logs the notes made on the way to it. -/
def become (e : Emulator) (machine : Machine) (notes : List Note) : Emulator :=
  { e with machine, log := e.log ++ notes.toArray }

/-- The bad word of an instruction fetched from an address, if it is one. -/
def badWord? (ins : Instruction) (address : Int) : Option BadWord :=
  if ins.valid then none else some ⟨ins.word, address⟩

/-- What a trace remembers of an instruction: `before` is the machine that fetched it. -/
def entryOf (before after : Machine) (ins : Instruction) (fault : Option StackFault) : TraceEntry where
  cycle := after.cycles
  address := before.pc
  instruction := ins
  states := (before.snapshot, after.snapshot)
  mishap := (badWord? ins before.pc).map .badWord <|> fault.map .stack

/-- Remembers a fetched instruction. -/
def record (e : Emulator) (before after : Machine) (ins : Instruction) (fault : Option StackFault) : Emulator :=
  { e with
    lastError := badWord? ins before.pc <|> e.lastError
    trace := if e.tracing then e.trace.push (entryOf before after ins fault) else e.trace }

/-- One step; the result tells whether the screen changed. -/
def step (e : Emulator) : Except StackFault Bool × Emulator :=
  let before := e.machine.tick
  let outcome := e.machine.step
  let e := e.become outcome.machine outcome.notes
  let e := match before.upcoming? with
    | some ins => e.record before outcome.machine ins outcome.fault
    | none => e
  match outcome.fault with
  | some fault => (.error fault, e)
  | none => (.ok e.machine.redraw, e)

/-- Steps until a key is awaited, but at most `budget` times; `done` steps were made before. -/
def runFrom (done : Nat) : Nat → Emulator → Except StackFault Nat × Emulator
  | 0, e => (.ok done, e)
  | budget + 1, e =>
    if e.machine.awaitingKey then (.ok done, e)
    else match e.step with
      | (.error fault, e) => (.error fault, e)
      | (.ok _, e) => runFrom (done + 1) budget e

/-- Steps until a key is awaited, but at most `budget` times; the result is the number of steps. -/
def run (e : Emulator) (budget : Int) : Except StackFault Nat × Emulator :=
  runFrom 0 budget.toNat e

/-- A key goes down. -/
def press (e : Emulator) (key : Key) : Emulator :=
  let (machine, notes) := e.machine.keyDown key
  e.become machine notes

/-- A key goes up. -/
def release (e : Emulator) (key : Key) : Emulator :=
  e.become (e.machine.keyUp key) []

/-- The key of a given number goes down. -/
def keyDown (e : Emulator) (index : Int) : Except InvalidKey Unit × Emulator :=
  match Key.ofInt index with
  | .error fault => (.error fault, e)
  | .ok key => (.ok (), e.press key)

/-- The key of a given number goes up. -/
def keyUp (e : Emulator) (index : Int) : Except InvalidKey Unit × Emulator :=
  match Key.ofInt index with
  | .error fault => (.error fault, e)
  | .ok key => (.ok (), e.release key)

end Emulator

end ChipEight
