import ChipEight.Emulator.Schedule
import ChipEight.Proofs.Execution

/-!
# What can happen to an emulator

A host uses an emulator through its `Control`s, with numbers of any size. Each of them comes down to `Event`s: steps,
and keys of the keypad that go down or up.

- `Emulator.perform` uses one control and `Emulator.after` lets one event happen; `Emulator.eventsOf` lists the events
  that a control comes down to (`perform_eq`, `performAll_eq`).
- `Emulator.Reachable` are the emulators that come out of a start by any controls, also by those that fault.
- `Emulator.Kept P` says that events keep a property; it then holds after all events and controls (`Kept.afterAll`,
  `Kept.performAll`), and in every reachable emulator if it holds at the start (`Kept.reachable`). `Machine.Kept P` is
  the same for a property of machines, which steps and keys have to keep.
-/

namespace ChipEight

/-- A control of the emulator and its arguments. -/
inductive Control where
  | step
  | run (budget : Int)
  | keyDown (index : Int)
  | keyUp (index : Int)
  | feed (budget : Int) (keys : List Int)
  deriving DecidableEq, Repr

/-- What a control answers. -/
inductive Answer where
  | stepped (result : Except StackFault Bool)
  | ran (result : Except StackFault Nat)
  | keyed (result : Except InvalidKey Unit)
  | fed (result : Except FeedFault Fed)

/-- A step, or a key that goes down or up. -/
inductive Event where
  | step
  | press (key : Key)
  | release (key : Key)
  deriving DecidableEq, Repr

namespace Emulator

variable {e e' : Emulator} {platform : Platform}

/-- Uses a control. The emulator afterwards is there also when the answer is a fault. -/
def perform (e : Emulator) : Control → Answer × Emulator
  | .step => (.stepped e.step.1, e.step.2)
  | .run budget => (.ran (e.run budget).1, (e.run budget).2)
  | .keyDown index => (.keyed (e.keyDown index).1, (e.keyDown index).2)
  | .keyUp index => (.keyed (e.keyUp index).1, (e.keyUp index).2)
  | .feed budget keys => (.fed (e.feed budget keys).1, (e.feed budget keys).2)

/-- Uses controls one after the other. -/
def performAll (e : Emulator) (controls : List Control) : Emulator :=
  controls.foldl (fun e control => (e.perform control).2) e

/-- Lets an event happen. -/
def after (e : Emulator) : Event → Emulator
  | .step => e.step.2
  | .press key => (e.keyDown key.val).2
  | .release key => (e.keyUp key.val).2

/-- Lets events happen one after the other. -/
def afterAll (e : Emulator) (events : List Event) : Emulator :=
  events.foldl after e

/-- The emulators that come out of a start by any controls. -/
inductive Reachable : Emulator → Prop where
  | start {platform : Platform} {program : List UInt8} {width height : Int} {random : RandomSource} {tracing : Bool}
      {e : Emulator} :
      Emulator.start platform program width height random tracing = .ok e → Reachable e
  | perform {e : Emulator} (control : Control) : Reachable e → Reachable (e.perform control).2

/-! ## The start -/

/-- An emulator starts with a machine that was just switched on, on a blank screen of the size asked for. -/
theorem start_eq {program : List UInt8} {width height : Int} {random : RandomSource} {tracing : Bool}
    (h : Emulator.start platform program width height random tracing = .ok e) :
    ∃ hw hh, e = { machine := .boot program (.blank width.toNat height.toNat hw hh) random, tracing,
                   log := #[.programLoaded program.length width.toNat height.toNat] } := by
  unfold Emulator.start at h
  cases hm : Machine.start platform program width height random with
  | error fault => rw [hm] at h; cases h
  | ok machine =>
    rw [hm] at h
    cases h
    unfold Machine.start checkSize at hm
    by_cases hp : maxProgram < program.length
    · simp [hp] at hm
    · by_cases hs : 0 < width ∧ 0 < height
      · cases hc : checkCells platform (width.toNat * height.toNat) with
        | error fault => simp [hp, hs, hc] at hm
        | ok cells =>
          simp only [hp, hs, hc, if_false, and_self, dite_true, Except.ok.injEq] at hm
          subst hm
          exact ⟨by omega, by omega, rfl⟩
      · simp [hp, hs] at hm

/-- A start refuses a program that is too long, whatever the screen. -/
theorem start_of_oversize {program : List UInt8} (hp : maxProgram < program.length) (width height : Int)
    (random : RandomSource) (tracing : Bool) :
    Emulator.start platform program width height random tracing = .error (.oversize ⟨.image, program.length⟩) := by
  have hsize : checkSize .image program = .error ⟨.image, program.length⟩ := if_pos hp
  unfold Emulator.start Machine.start
  rw [hsize]

/-- A start refuses a screen without cells. -/
theorem start_of_noCells {program : List UInt8} {width height : Int} (hp : program.length ≤ maxProgram)
    (hcells : width ≤ 0 ∨ height ≤ 0) (random : RandomSource) (tracing : Bool) :
    Emulator.start platform program width height random tracing = .error (.badScreen width height) := by
  unfold Emulator.start Machine.start
  simp only [checkSize_of_length_le hp]
  rw [dif_neg (by omega)]

/-- A start refuses a screen of too many cells. -/
theorem start_of_tooManyCells {program : List UInt8} {width height : Int} {fault : TooManyCells}
    (hp : program.length ≤ maxProgram) (hw : 0 < width) (hh : 0 < height)
    (hcells : checkCells platform (width.toNat * height.toNat) = .error fault) (random : RandomSource)
    (tracing : Bool) :
    Emulator.start platform program width height random tracing = .error (.tooManyCells fault) := by
  unfold Emulator.start Machine.start
  simp only [checkSize_of_length_le hp, dif_pos (And.intro hw hh), hcells]

/-- A program fits in memory if an emulator started with it. -/
theorem length_le_of_start {program : List UInt8} {width height : Int} {random : RandomSource} {tracing : Bool}
    (h : Emulator.start platform program width height random tracing = .ok e) : program.length ≤ maxProgram := by
  refine Nat.le_of_not_lt fun hlong => ?_
  rw [start_of_oversize hlong] at h
  cases h

/-- A start succeeds for a program that fits and a screen that the platform holds. -/
theorem exists_start (platform : Platform) (program : List UInt8) (width height : Int) (random : RandomSource)
    (tracing : Bool) (hp : program.length ≤ maxProgram) (hw : 0 < width) (hh : 0 < height)
    (hc : platform.Holds (width.toNat * height.toNat)) :
    ∃ e, Emulator.start platform program width height random tracing = .ok e := by
  have hsize : checkSize .image program = .ok program := checkSize_of_length_le hp
  have hcells : checkCells platform (width.toNat * height.toNat) = .ok (width.toNat * height.toNat) :=
    checkCells_eq_ok_iff.mpr ⟨hc, rfl⟩
  unfold Emulator.start Machine.start
  simp only [hsize, hcells, hw, hh, and_self, dite_true]
  exact ⟨_, rfl⟩

/-- The program stands in memory from `programStart` on. -/
theorem read_image (program : List UInt8) {k : Nat} (hk : k < maxProgram) :
    (Memory.image program).read (programStart + k) = program.getD k 0 := by
  have hc : (cell (programStart + k)).val = programStart + k := by
    show (((programStart : Int) + k) % memorySize).toNat = _
    unfold maxProgram memorySize programStart at *
    omega
  have hf : ¬ (programStart + k < font.length) := by
    have : font.length ≤ programStart := by decide
    omega
  have hs : ¬ (programStart + k < programStart) := by omega
  simp [Memory.read, Memory.image_eq, hc, hf, hs]

/-- A word of the program in memory is made of two bytes of the program. -/
theorem wordAt_image {m : Machine} {program : List UInt8} (h : m.memory = .image program) {k : Nat}
    (hk : k + 1 < maxProgram) :
    m.wordAt (programStart + k) = 256 * (program.getD k 0).toNat + (program.getD (k + 1) 0).toNat := by
  have hhigh := read_image program (k := k) (by omega)
  have hlow := read_image program (k := k + 1) hk
  rw [Int.natCast_add, ← Int.add_assoc] at hlow
  rw [Machine.wordAt, h, hhigh]
  exact congrArg (fun byte : UInt8 => _ + byte.toNat) hlow

/-- The first instruction is that of the first two bytes of the program. -/
theorem fetch_boot (program : List UInt8) (screen : Screen) (random : RandomSource) :
    (Machine.boot program screen random).fetch =
      .decode (256 * (program.getD 0 0).toNat + (program.getD 1 0).toNat : Nat) := by
  rw [← wordAt_image (m := .boot program screen random) rfl (k := 0) (by decide)]
  rfl

/-! ## Keys -/

theorem ofInt_val (key : Key) : Key.ofInt key.val = .ok key := by
  have h : (0 : Int) ≤ key.val ∧ (key.val : Int) < keyCount := by have := key.isLt; omega
  rw [Key.ofInt, dif_pos h]
  rfl

@[simp] theorem after_step (e : Emulator) : e.after .step = e.step.2 := rfl

@[simp] theorem after_press (e : Emulator) (key : Key) : e.after (.press key) = e.press key := by
  rw [after, keyDown, ofInt_val]

@[simp] theorem after_release (e : Emulator) (key : Key) : e.after (.release key) = e.release key := by
  rw [after, keyUp, ofInt_val]

@[simp] theorem afterAll_nil (e : Emulator) : e.afterAll [] = e := rfl

@[simp] theorem afterAll_cons (e : Emulator) (event : Event) (events : List Event) :
    e.afterAll (event :: events) = (e.after event).afterAll events := rfl

theorem afterAll_append (e : Emulator) (events events' : List Event) :
    e.afterAll (events ++ events') = (e.afterAll events).afterAll events' :=
  List.foldl_append

/-! ## Controls are events -/

/-- The events of a run for at most `budget` steps. -/
def runEvents : Nat → Emulator → List Event
  | 0, _ => []
  | budget + 1, e =>
    if e.machine.awaitingKey then []
    else match e.step with
      | (.error _, _) => [.step]
      | (.ok _, e) => .step :: runEvents budget e

/-- The events of a scheduled run for at most `budget` steps. A key goes up again after the step that it was held down
for, unless that step faults. -/
def feedEvents : Nat → List Int → Emulator → List Event
  | 0, _, _ => []
  | budget + 1, keys, e =>
    if e.machine.awaitingKey then
      match keys with
      | [] => []
      | index :: keys =>
        match Key.ofInt index with
        | .error _ => []
        | .ok key =>
          match (e.press key).step with
          | (.error _, _) => [.press key, .step]
          | (.ok _, e) => .press key :: .step :: .release key :: feedEvents budget keys (e.release key)
    else
      match e.step with
      | (.error _, _) => [.step]
      | (.ok _, e) => .step :: feedEvents budget keys e

/-- The events that a control comes down to; a key that the keypad does not have is none. -/
def eventsOf (e : Emulator) : Control → List Event
  | .step => [.step]
  | .run budget => runEvents budget.toNat e
  | .keyDown index => match Key.ofInt index with
    | .ok key => [.press key]
    | .error _ => []
  | .keyUp index => match Key.ofInt index with
    | .ok key => [.release key]
    | .error _ => []
  | .feed budget keys => feedEvents budget.toNat keys e

/-- The events that controls come down to, one after the other. -/
def eventsOfAll (e : Emulator) : List Control → List Event
  | [] => []
  | control :: controls => e.eventsOf control ++ (e.perform control).2.eventsOfAll controls

/-- A run makes a step that does not fault, and goes on from there. -/
theorem run_step_ok (ha : e.machine.awaitingKey = false) {redraw : Bool} (hs : e.step.1 = .ok redraw)
    (done budget : Nat) : runFrom done (budget + 1) e = runFrom (done + 1) budget e.step.2 ∧
      runEvents (budget + 1) e = .step :: runEvents budget e.step.2 := by
  have hs : e.step = (.ok redraw, e.step.2) := Prod.ext hs rfl
  rw [runFrom, runEvents, ha, if_neg Bool.false_ne_true, if_neg Bool.false_ne_true, hs]
  exact ⟨rfl, rfl⟩

theorem runFrom_events (done budget : Nat) (e : Emulator) :
    (runFrom done budget e).2 = e.afterAll (runEvents budget e) := by
  induction budget generalizing done e with
  | zero => rfl
  | succ budget ih =>
    unfold runFrom runEvents
    by_cases hw : e.machine.awaitingKey
    · rw [if_pos hw, if_pos hw]; rfl
    · rw [if_neg hw, if_neg hw]
      cases hs : e.step with
      | mk result e' =>
        have he : e' = e.after .step := by rw [after_step, hs]
        cases result with
        | error fault => exact he
        | ok redraw => rw [afterAll_cons, ← he]; exact ih (done + 1) e'

theorem feedFrom_events (done budget : Nat) (keys : List Int) (e : Emulator) :
    (feedFrom done budget keys e).2 = e.afterAll (feedEvents budget keys e) := by
  induction budget generalizing done keys e with
  | zero => rfl
  | succ budget ih =>
    unfold feedFrom feedEvents
    by_cases hw : e.machine.awaitingKey
    · rw [if_pos hw, if_pos hw]
      cases keys with
      | nil => rfl
      | cons index keys =>
        cases hk : Key.ofInt index with
        | error fault => simp only [hk]; rfl
        | ok key =>
          simp only [hk]
          cases hs : (e.press key).step with
          | mk result e' =>
            have he : e' = (e.after (.press key)).after .step := by rw [after_press, after_step, hs]
            cases result with
            | error fault => exact he
            | ok redraw =>
              simp only [afterAll_cons, ← he, after_release]
              exact ih (done + 1) keys (e'.release key)
    · rw [if_neg hw, if_neg hw]
      cases hs : e.step with
      | mk result e' =>
        have he : e' = e.after .step := by rw [after_step, hs]
        cases result with
        | error fault => exact he
        | ok redraw => rw [afterAll_cons, ← he]; exact ih (done + 1) keys e'

/-- **Every control comes down to its events.** -/
theorem perform_eq (e : Emulator) (control : Control) : (e.perform control).2 = e.afterAll (e.eventsOf control) := by
  cases control with
  | step => rfl
  | run budget => exact runFrom_events ..
  | feed budget keys => exact feedFrom_events ..
  | keyDown index => cases hk : Key.ofInt index <;> simp [perform, keyDown, eventsOf, hk]
  | keyUp index => cases hk : Key.ofInt index <;> simp [perform, keyUp, eventsOf, hk]

theorem performAll_eq (e : Emulator) (controls : List Control) :
    e.performAll controls = e.afterAll (e.eventsOfAll controls) := by
  induction controls generalizing e with
  | nil => rfl
  | cons control controls ih =>
    rw [eventsOfAll, afterAll_append, ← perform_eq]
    exact ih (e.perform control).2

/-! ## One event -/

/-- A step moves the machine on and records the instruction that was fetched. -/
theorem step_eq (e : Emulator) : e.step.2 =
    match e.machine.upcoming? with
    | some ins => (e.become e.machine.step.machine e.machine.step.notes).record e.machine.tick e.machine.step.machine
        ins e.machine.step.fault
    | none => e.become e.machine.step.machine e.machine.step.notes := by
  have hu : e.machine.tick.upcoming? = e.machine.upcoming? := rfl
  unfold step
  simp only [hu]
  cases e.machine.step.fault <;> cases e.machine.upcoming? <;> rfl

/-- A step that fetches an instruction records it. -/
theorem step_running (h : e.machine.keyWait = .running) : e.step.2 =
    (e.become e.machine.step.machine e.machine.step.notes).record e.machine.tick e.machine.step.machine
      e.machine.fetch e.machine.step.fault := by
  rw [step_eq, Machine.upcoming?, h]

/-- A step that fetches a word without a meaning remembers it. -/
theorem lastError_step (h : e.machine.keyWait = .running) :
    e.step.2.lastError = (badWord? e.machine.fetch e.machine.pc <|> e.lastError) := by
  rw [step_running h]
  rfl

/-- A step that fetches nothing records nothing. -/
theorem step_not_running (h : e.machine.keyWait ≠ .running) :
    e.step.2 = e.become e.machine.step.machine e.machine.step.notes := by
  rw [step_eq, Machine.upcoming?]
  cases hw : e.machine.keyWait with
  | running => exact absurd hw h
  | awaiting r => rfl
  | pending r k => rfl

/-- A step answers with its fault, or tells whether the screen changed. -/
theorem step_answer (e : Emulator) : e.step.1 =
    match e.machine.step.fault with
    | some fault => .error fault
    | none => .ok e.machine.step.machine.redraw := by
  have hu : e.machine.tick.upcoming? = e.machine.upcoming? := rfl
  unfold step
  simp only [hu]
  cases e.machine.step.fault <;> cases e.machine.upcoming? <;> rfl

@[simp] theorem machine_step (e : Emulator) : e.step.2.machine = e.machine.step.machine := by
  rw [step_eq]
  cases e.machine.upcoming? <;> rfl

@[simp] theorem log_step (e : Emulator) : e.step.2.log = e.log ++ e.machine.step.notes.toArray := by
  rw [step_eq]
  cases e.machine.upcoming? <;> rfl

@[simp] theorem machine_press (e : Emulator) (key : Key) : (e.press key).machine = (e.machine.keyDown key).1 := rfl

@[simp] theorem machine_release (e : Emulator) (key : Key) : (e.release key).machine = e.machine.keyUp key := rfl

end Emulator

/-! ## What is kept -/

/-- A property of emulators that every event keeps. -/
def Emulator.Kept (P : Emulator → Prop) : Prop :=
  ∀ e event, P e → P (e.after event)

namespace Emulator.Kept

variable {P : Emulator → Prop} {e : Emulator}

theorem afterAll (hP : Kept P) (h : P e) (events : List Event) : P (e.afterAll events) := by
  induction events generalizing e with
  | nil => exact h
  | cons event events ih => exact ih (hP e event h)

theorem perform (hP : Kept P) (h : P e) (control : Control) : P (e.perform control).2 := by
  rw [e.perform_eq control]
  exact hP.afterAll h _

theorem performAll (hP : Kept P) (h : P e) (controls : List Control) : P (e.performAll controls) := by
  induction controls generalizing e with
  | nil => exact h
  | cons control controls ih => exact ih (hP.perform h control)

/-- A property that every start has holds of all reachable emulators. -/
theorem reachable (hP : Kept P) (hstart : ∀ {platform program width height random tracing e},
    Emulator.start platform program width height random tracing = .ok e → P e) (h : e.Reachable) : P e := by
  induction h with
  | start hs => exact hstart hs
  | perform control _ ih => exact hP.perform ih control

end Emulator.Kept

/-- A property of machines that steps and keys keep. -/
structure Machine.Kept (P : Machine → Prop) : Prop where
  step : ∀ m, P m → P m.step.machine
  keyDown : ∀ m key, P m → P (m.keyDown key).1
  keyUp : ∀ m key, P m → P (m.keyUp key)

namespace Machine.Kept

variable {P : Machine → Prop} {e : Emulator}

/-- What a property has to stand: the tick, an instruction, a stored key, and keys that go down or up. -/
theorem of_cases (tick : ∀ m, P m → P m.tick)
    (execute : ∀ m m' ins notes, P m → m.execute ins = .ok (m', notes) → P m')
    (stored : ∀ m r (k : Key), P m → P { m.setRegister r k.val with keyWait := .running })
    (keys : ∀ m keys keyWait, P m → P { m with keys, keyWait }) : Kept P where
  step m h := by
    have hc := m.stepCase
    generalize m.step = outcome at hc
    cases hc with
    | stored r k _ => exact stored _ r k (tick m h)
    | waited r _ => exact tick m h
    | executed m' notes _ hx => exact execute _ m' _ notes (tick m h) hx
    | faulted fault _ _ => exact tick m h
  keyDown m key h := by
    cases hw : m.keyWait with
    | awaiting r => rw [keyDown_awaiting hw]; exact keys m _ _ h
    | running | pending => rw [keyDown_other (by simp [hw])]; exact keys m _ _ h
  keyUp m key h := keys m _ _ h

/-- What machines keep, emulators keep of their machine. -/
theorem emulator (hP : Kept P) : Emulator.Kept fun e => P e.machine := by
  intro e event h
  cases event with
  | step => rw [Emulator.after_step, Emulator.machine_step]; exact hP.step _ h
  | press key => rw [Emulator.after_press, Emulator.machine_press]; exact hP.keyDown _ key h
  | release key => rw [Emulator.after_release, Emulator.machine_release]; exact hP.keyUp _ key h

/-- A property that holds of a machine as it is switched on holds in every reachable emulator. -/
theorem reachable (hP : Kept P) (hboot : ∀ program screen random, P (.boot program screen random))
    (h : e.Reachable) : P e.machine := by
  refine hP.emulator.reachable (fun hs => ?_) h
  obtain ⟨_, _, rfl⟩ := Emulator.start_eq hs
  exact hboot ..

end Machine.Kept

end ChipEight
