import ChipEight.Machine.Execute

/-!
# Steps

One step of the machine: the timers tick, and then it stores a key that arrived, or waits on, or fetches and executes
one instruction. `Machine.upcoming?` is the instruction that the next step is going to fetch, if it fetches one.
-/

namespace ChipEight

/-- What came of a step: the machine afterwards, the notes, and the fault if there was one. -/
structure StepOutcome where
  machine : Machine
  notes : List Note
  fault : Option StackFault

namespace Machine

/-- A timer one step later; it stops at zero. -/
def countDown (timer : Int) : Int :=
  if timer > 0 then timer - 1 else timer

/-- What every step does first: forget that the screen changed, and let the timers tick. -/
def tick (m : Machine) : Machine :=
  { m with redraw := false, delay := countDown m.delay, sound := countDown m.sound }

/-- The word at an address, high byte first. -/
def wordAt (m : Machine) (address : Int) : Nat :=
  256 * (m.memory.read address).toNat + (m.memory.read (address + 1)).toNat

/-- The instruction at the program counter. -/
def fetch (m : Machine) : Instruction :=
  .decode (m.wordAt m.pc)

/-- The instruction that the next step fetches; none while a key is awaited or about to be stored. -/
def upcoming? (m : Machine) : Option Instruction :=
  match m.keyWait with
  | .running => some m.fetch
  | _ => none

/-- One step. -/
def step (m : Machine) : StepOutcome :=
  let m := m.tick
  match m.keyWait with
  | .pending register key =>
    ⟨{ m.setRegister register key.val with keyWait := .running }, [.keyStored key register], none⟩
  | .awaiting _ => ⟨m, [.stepAwaiting], none⟩
  | .running =>
    match m.execute m.fetch with
    | .ok (after, notes) => ⟨after, notes, none⟩
    | .error failure => ⟨failure.machine, [], some failure.fault⟩

/-- A key goes down; it answers a wait. -/
def keyDown (m : Machine) (key : Key) : Machine × List Note :=
  let m := m.setKey key true
  match m.keyWait with
  | .awaiting register => ({ m with keyWait := .pending register key }, [.keyLatched key register])
  | _ => (m, [])

/-- A key goes up. -/
def keyUp (m : Machine) (key : Key) : Machine :=
  m.setKey key false

end Machine

end ChipEight
