import ChipEight.Emulator.Basic

/-!
# Feeding keys

The schedule by which a host runs a program for which it has a list of keys: whenever the machine waits for a key, the
next one is held down for the step that stores it, and then let go. The run ends when the budget of steps is used up,
or when a key is awaited and none is left.
-/

namespace ChipEight

/-- What can end a scheduled run early. -/
inductive FeedFault where
  | stack (fault : StackFault)
  | key (fault : InvalidKey)
  deriving DecidableEq, Repr

/-- The wording of the fault. -/
def FeedFault.message : FeedFault → String
  | .stack fault => fault.message
  | .key fault => fault.message

def FeedFault.errorClass : FeedFault → ErrorClass
  | .stack fault => fault.errorClass
  | .key fault => fault.errorClass

/-- What came of a scheduled run: the number of steps, and the keys that were not needed. -/
structure Fed where
  steps : Nat
  left : List Int
  deriving DecidableEq, Repr

namespace Emulator

/-- Runs for at most `budget` further steps with the keys that are left; `done` steps were made before. -/
def feedFrom (done : Nat) : Nat → List Int → Emulator → Except FeedFault Fed × Emulator
  | 0, keys, e => (.ok ⟨done, keys⟩, e)
  | budget + 1, keys, e =>
    if e.machine.awaitingKey then
      match keys with
      | [] => (.ok ⟨done, []⟩, e)
      | index :: keys =>
        match Key.ofInt index with
        | .error fault => (.error (.key fault), e)
        | .ok key =>
          match (e.press key).step with
          | (.error fault, e) => (.error (.stack fault), e)
          | (.ok _, e) => feedFrom (done + 1) budget keys (e.release key)
    else
      match e.step with
      | (.error fault, e) => (.error (.stack fault), e)
      | (.ok _, e) => feedFrom (done + 1) budget keys e

/-- Runs for at most `budget` steps and answers key waits with the given keys, in order. -/
def feed (e : Emulator) (budget : Int) (keys : List Int) : Except FeedFault Fed × Emulator :=
  feedFrom 0 budget.toNat keys e

end Emulator

end ChipEight
