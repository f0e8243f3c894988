import ChipEight.Proofs.Events

/-!
# The history of a run

What a run did, read off its steps.

- `Emulator.moments` are the emulators that the steps among some events start from, and `Emulator.answers` is what
  these steps answer; what events keep holds of all of them (`Kept.moments`), and each one cuts the events in two
  (`exists_split`);
- `Machine.executed?` is the instruction that a step executes with its address, none for a step that waits, stores a key
  or faults (`executed?_eq_some`); `step_executed` and `step_not_executed` say what the step does in each case;
- `Emulator.executed` are the instructions that some events execute.
-/

namespace ChipEight

variable {m m' : Machine} {notes : List Note}

/-! ## Steps -/

namespace Emulator

/-- The emulators that the steps among the events start from, oldest first. -/
def moments (e : Emulator) : List Event → List Emulator
  | [] => []
  | event :: events => (if event = .step then [e] else []) ++ (e.after event).moments events

@[simp] theorem moments_nil (e : Emulator) : e.moments [] = [] := rfl

@[simp] theorem moments_step (e : Emulator) (events : List Event) :
    e.moments (.step :: events) = e :: e.step.2.moments events := rfl

@[simp] theorem moments_press (e : Emulator) (key : Key) (events : List Event) :
    e.moments (.press key :: events) = (e.press key).moments events := by
  rw [← after_press]; rfl

@[simp] theorem moments_release (e : Emulator) (key : Key) (events : List Event) :
    e.moments (.release key :: events) = (e.release key).moments events := by
  rw [← after_release]; rfl

/-- What the steps among the events answer. -/
def answers (e : Emulator) (events : List Event) : List (Except StackFault Bool) :=
  (e.moments events).map fun moment => moment.step.1

theorem moments_append (e : Emulator) (events events' : List Event) :
    e.moments (events ++ events') = e.moments events ++ (e.afterAll events).moments events' := by
  induction events generalizing e with
  | nil => rfl
  | cons event events ih => simp only [List.cons_append, moments, afterAll_cons, ih, List.append_assoc]

theorem length_moments (e : Emulator) (events : List Event) : (e.moments events).length = events.count .step := by
  induction events generalizing e with
  | nil => rfl
  | cons event events ih =>
    rw [moments, List.length_append, ih]
    cases event <;> simp [Nat.add_comm]

/-- A step of a run cuts its events in two. -/
theorem exists_split {e moment : Emulator} {events : List Event} {before later : List Emulator}
    (h : e.moments events = before ++ moment :: later) : ∃ earlier rest, events = earlier ++ .step :: rest ∧
      e.moments earlier = before ∧ e.afterAll earlier = moment ∧ moment.step.2.moments rest = later := by
  induction events generalizing e before with
  | nil => simp at h
  | cons event events ih =>
    by_cases hstep : event = .step
    · subst hstep
      rw [moments_step] at h
      cases before with
      | nil =>
        obtain ⟨rfl, rfl⟩ := List.cons.inj h
        exact ⟨[], events, rfl, rfl, rfl, rfl⟩
      | cons first before =>
        obtain ⟨rfl, hrest⟩ := List.cons.inj h
        obtain ⟨earlier, rest, rfl, rfl, hmoment, hlater⟩ := ih hrest
        exact ⟨.step :: earlier, rest, rfl, rfl, hmoment, hlater⟩
    · rw [moments, if_neg hstep, List.nil_append] at h
      obtain ⟨earlier, rest, rfl, hbefore, hmoment, hlater⟩ := ih h
      refine ⟨event :: earlier, rest, rfl, ?_, hmoment, hlater⟩
      rw [moments, if_neg hstep, hbefore, List.nil_append]

/-- What events keep holds of every emulator on the way. -/
theorem Kept.moments {P : Emulator → Prop} {e : Emulator} (hP : Kept P) (h : P e) (events : List Event) :
    ∀ moment ∈ e.moments events, P moment := by
  induction events generalizing e with
  | nil => exact fun _ hm => (List.not_mem_nil hm).elim
  | cons event events ih =>
    intro moment hm
    rcases List.mem_append.mp hm with hm | hm
    · split at hm
      · obtain rfl : moment = e := List.mem_singleton.mp hm
        exact h
      · exact (List.not_mem_nil hm).elim
    · exact ih (hP e event h) moment hm

end Emulator

/-! ## Executed instructions -/

/-- An instruction that was executed, and the address that it was fetched from. -/
structure Executed where
  address : Int
  instruction : Instruction
  deriving DecidableEq, Repr

/-- The instruction that the next step executes; none if the step waits, stores a key or faults. -/
def Machine.executed? (m : Machine) : Option Executed :=
  if m.step.fault.isSome then none else m.upcoming?.map fun ins => ⟨m.pc, ins⟩

/-- The instructions that the events execute, oldest first. -/
def Emulator.executed (e : Emulator) (events : List Event) : List Executed :=
  (e.moments events).filterMap fun moment => moment.machine.executed?

theorem Emulator.executed_append (e : Emulator) (events events' : List Event) :
    e.executed (events ++ events') = e.executed events ++ (e.afterAll events).executed events' := by
  rw [executed, moments_append, List.filterMap_append]
  rfl

theorem Emulator.executed_cons (e : Emulator) (event : Event) (events : List Event) :
    e.executed (event :: events) = e.executed [event] ++ (e.after event).executed events :=
  e.executed_append [event] events

/-- A step executes at most one instruction. -/
theorem Emulator.executed_step (e : Emulator) : e.executed [.step] = e.machine.executed?.toList := by
  rw [executed, moments_step, moments_nil]
  cases h : e.machine.executed? <;> simp [h]

/-- A step that executes an instruction comes to what the instruction comes to. -/
theorem Machine.executed?_of_execute (hw : m.keyWait = .running) (hx : m.tick.execute m.fetch = .ok (m', notes)) :
    m.executed? = some ⟨m.pc, m.fetch⟩ ∧ m.step = ⟨m', notes, none⟩ := by
  have ht : m.tick.keyWait = .running := hw
  have hf : m.tick.fetch = m.fetch := rfl
  have hs : m.step = ⟨m', notes, none⟩ := by simp only [step, ht, hf, hx]
  refine ⟨?_, hs⟩
  simp [executed?, hs, upcoming?, hw]

/-- A step that executes a word of the program. -/
theorem Machine.executed?_image {n : Machine} {program : List UInt8} {k : Nat} (hmemory : m.memory = .image program)
    (hk : k + 1 < maxProgram) (hw : m.keyWait = .running) (hpc : m.pc = programStart + k)
    (hx : m.tick.execute (.decode (256 * (program.getD k 0).toNat + (program.getD (k + 1) 0).toNat : Nat)) =
      .ok (n, notes)) :
    m.executed? = some ⟨m.pc, .decode (256 * (program.getD k 0).toNat + (program.getD (k + 1) 0).toNat : Nat)⟩ ∧
      m.step = ⟨n, notes, none⟩ := by
  have hf : m.fetch = .decode (256 * (program.getD k 0).toNat + (program.getD (k + 1) 0).toNat : Nat) := by
    rw [fetch, hpc, Emulator.wordAt_image hmemory hk]
  rw [← hf] at hx ⊢
  exact executed?_of_execute hw hx

theorem Machine.executed?_of_fault (h : m.step.fault.isSome) : m.executed? = none := by
  rw [executed?, if_pos h]

theorem Machine.executed?_of_not_running (h : m.keyWait ≠ .running) : m.executed? = none := by
  unfold executed? upcoming?
  cases hw : m.keyWait with
  | running => exact absurd hw h
  | awaiting r => simp
  | pending r k => simp

theorem Machine.executed?_eq_some {x : Executed} (h : m.executed? = some x) :
    m.keyWait = .running ∧ x = ⟨m.pc, m.fetch⟩ ∧
      ∃ m' notes, m.tick.execute m.fetch = .ok (m', notes) ∧ m.step = ⟨m', notes, none⟩ := by
  by_cases hw : m.keyWait = .running
  · cases hx : m.tick.execute m.fetch with
    | ok result =>
      obtain ⟨he, hs⟩ := executed?_of_execute hw hx
      rw [he, Option.some.injEq] at h
      exact ⟨hw, h.symm, result.1, result.2, rfl, hs⟩
    | error fault =>
      have hs : m.step.fault.isSome := by
        have ht : m.tick.keyWait = .running := hw
        have hf : m.tick.fetch = m.fetch := rfl
        simp only [step, ht, hf, hx, Option.isSome_some]
      rw [executed?_of_fault hs] at h
      cases h
  · rw [executed?_of_not_running hw] at h
    cases h

/-- A step that executes an instruction does what its operation does. -/
theorem Machine.step_executed {x : Executed} (h : m.executed? = some x) : ∃ n notes,
    effect x.instruction.op x.instruction m.tick = .ok (n, notes) ∧ m.step.machine =
      { n with pc := n.pc % memorySize, cycles := if x.instruction.valid then n.cycles + 1 else n.cycles } := by
  obtain ⟨-, rfl, m', notes, he, hs⟩ := executed?_eq_some h
  obtain ⟨n, hn, rfl⟩ := execute_eq_ok he
  exact ⟨n, notes, hn, by rw [hs]⟩

/-- A step that executes nothing changes only registers, the key wait, timers and the redraw flag. -/
theorem Machine.step_not_executed (h : m.executed? = none) : m.step.machine =
    { m.tick with registers := m.step.machine.registers, keyWait := m.step.machine.keyWait } := by
  have hc := m.stepCase
  generalize m.step = outcome at hc
  cases hc with
  | stored r k _ => rfl
  | waited r _ => rfl
  | faulted fault _ _ => rfl
  | executed m' notes hw hx =>
    rw [(executed?_of_execute hw hx).1] at h
    cases h

end ChipEight
