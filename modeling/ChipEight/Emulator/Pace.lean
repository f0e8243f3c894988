import ChipEight.Emulator.Schedule

/-!
# Pace

A host may run a program at a rate of so many steps per second and then pauses after every step. Here a pause takes no
time, but it has to be one that can be kept: it is counted in nanoseconds, and the count stays below 2 to the 63.

* `pause` is the pause at a rate, and `isKept` tells whether it can be kept.
* `Emulator.feedAt` is `Emulator.feed` at a rate; at rate zero the two agree (`feedAt_zero`).
-/

namespace ChipEight

/-- The pause after a step, in nanoseconds, at a rate in steps per second; a rate that is not positive asks for none. -/
def pause (rate : Float) : Float :=
  if 0 < rate then 1 / rate * 1000000000 else 0

/-- Whether the pause at a rate can be kept. -/
def isKept (rate : Float) : Bool :=
  pause rate < 9223372036854775808

/-- A pause that is too long to be kept. -/
structure EndlessPause where
  deriving DecidableEq, Repr

/-- The wording of the complaint. -/
def EndlessPause.message (_ : EndlessPause) : String :=
  "timestamp too large to convert to C _PyTime_t"

def EndlessPause.errorClass (_ : EndlessPause) : ErrorClass := .overflowError

theorem isKept_zero : isKept 0 = true := by decide +kernel

namespace Emulator

/-- Runs like `feed` and pauses after every step. A pause that cannot be kept breaks the run off after its first step,
unless that step ends the run itself. -/
def feedAt (e : Emulator) (rate : Float) (budget : Int) (keys : List Int) :
    Except EndlessPause (Except FeedFault Fed × Emulator) :=
  if isKept rate then .ok (e.feed budget keys)
  else match e.feed (min budget 1) keys with
    | (.ok fed, e) => if fed.steps = 0 then .ok (.ok fed, e) else .error {}
    | (.error fault, e) => .ok (.error fault, e)

/-- At rate zero there are no pauses. -/
theorem feedAt_zero (e : Emulator) (budget : Int) (keys : List Int) :
    e.feedAt 0 budget keys = .ok (e.feed budget keys) := by
  rw [feedAt, if_pos isKept_zero]

end Emulator

end ChipEight
