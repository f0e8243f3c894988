import Mathlib.Data.List.Induction
import ChipEight.Emulator.Report
import ChipEight.Proofs.History
import ChipEight.Proofs.StackFaults

/-!
# Machines that stand still

A machine that fetches a word without a meaning, a return with an empty stack or a call with a full one does not get
past it: every further step comes to the same, whatever happens to the keys.

- `Machine.Stuck fault`: the machine cannot get past its instruction, and a step ends with that fault or, for a word
  without a meaning, with none; `Stuck.step`: a step then only ticks;
- `answers_stuck` and `machine_afterAll_stuck`: what any events come to, by induction on the events;
- `standstill`: the main statement.
-/

namespace ChipEight

variable {m m' : Machine} {fault : Option StackFault} {e : Emulator}

/-! ## Machines -/

/-- The machine cannot get past the instruction that it fetches. -/
inductive Machine.Stuck (m : Machine) : Option StackFault → Prop where
  | meaningless : m.keyWait = .running → m.fetch.op = .invalid → Stuck m none
  | faulting (fault : StackFault) : m.step.fault = some fault → Stuck m (some fault)

namespace Machine

/-- Whether a machine is stuck depends on its memory, its stack, its program counter and its key wait. -/
theorem Stuck.congr (h : m.Stuck fault) (hw : m'.keyWait = m.keyWait) (hpc : m'.pc = m.pc)
    (hstack : m'.stack = m.stack) (hmemory : m'.memory = m.memory) : m'.Stuck fault := by
  have hf : m'.fetch = m.fetch := by simp only [fetch, wordAt, hmemory, hpc]
  cases h with
  | meaningless hrun hop => exact .meaningless (hw.trans hrun) (by rw [hf]; exact hop)
  | faulting fault hs =>
    refine .faulting fault ?_
    rw [fault_step_iff] at hs ⊢
    rw [hw, hf, hpc, hstack]
    exact hs

theorem Stuck.tick (h : m.Stuck fault) : m.tick.Stuck fault :=
  h.congr rfl rfl rfl rfl

theorem Stuck.setKey (h : m.Stuck fault) (key : Key) (held : Bool) : (m.setKey key held).Stuck fault :=
  h.congr rfl rfl rfl rfl

theorem Stuck.running (h : m.Stuck fault) : m.keyWait = .running := by
  cases h with
  | meaningless hrun _ => exact hrun
  | faulting fault hs => exact (fault_step_iff.mp hs).1

/-- A step of a stuck machine only ticks. -/
theorem Stuck.step (h : m.Stuck fault) (hpc : IsAddress m.pc) : m.step.machine = m.tick ∧ m.step.fault = fault := by
  cases h with
  | faulting fault hs => rw [step_of_fault hs]; exact ⟨rfl, rfl⟩
  | meaningless hrun hop =>
    have hvalid : m.fetch.valid = false := by simp [Instruction.valid, hop]
    have hback : m.pc % memorySize = m.pc := by
      unfold IsAddress at hpc
      unfold memorySize
      omega
    have hx : m.tick.execute m.fetch = .ok (m.tick, [.badWord ⟨m.fetch.word, m.pc⟩]) := by
      have he : effect m.fetch.op m.fetch m.tick = .ok (m.tick, [.badWord ⟨m.fetch.word, m.pc⟩]) := by rw [hop]; rfl
      rw [execute_of_effect he, hvalid, show m.tick.pc % memorySize = m.tick.pc from hback]
      rfl
    rw [(executed?_of_execute hrun hx).2]
    exact ⟨rfl, rfl⟩

theorem Stuck.keyDown (h : m.Stuck fault) (key : Key) : (m.keyDown key).1 = m.setKey key true := by
  rw [keyDown_other (by simp [h.running])]

/-- **A machine stays stuck.** -/
theorem stuck_kept (fault : Option StackFault) : Kept fun m => m.Stuck fault ∧ m.Good where
  step m h := by
    rw [(h.1.step h.2.pc).1]
    exact ⟨h.1.tick, tick_good h.2⟩
  keyDown m key h := by
    rw [h.1.keyDown key]
    exact ⟨h.1.setKey key true, h.2.keys _ _⟩
  keyUp m key h := ⟨h.1.setKey key false, h.2.keys _ _⟩

end Machine

/-! ## Runs -/

/-- What a step of a stuck machine answers. -/
def stuckAnswer : Option StackFault → Except StackFault Bool
  | none => .ok false
  | some fault => .error fault

theorem countDown_add {timer : Int} (h : IsByte timer) (n : Nat) :
    max 0 (Machine.countDown timer - n) = max 0 (timer - (n + 1 : Nat)) := by
  rw [countDown_eq_max h]
  omega

namespace Emulator

theorem step_stuck (h : e.machine.Stuck fault ∧ e.machine.Good) :
    e.step.1 = stuckAnswer fault ∧ e.step.2.machine = e.machine.tick := by
  obtain ⟨hm, hf⟩ := h.1.step h.2.pc
  refine ⟨?_, by rw [machine_step, hm]⟩
  rw [step_answer, hm, hf]
  cases fault <;> rfl

/-- Every step of a stuck machine answers the same. -/
theorem answers_stuck (h : e.machine.Stuck fault ∧ e.machine.Good) (events : List Event) :
    e.answers events = List.replicate (events.count .step) (stuckAnswer fault) := by
  refine List.eq_replicate_iff.mpr ⟨by rw [answers, List.length_map, length_moments], fun answer ha => ?_⟩
  obtain ⟨moment, hm, rfl⟩ := List.mem_map.mp ha
  exact (step_stuck ((Machine.stuck_kept fault).emulator.moments h events moment hm)).1

/-- Nothing changes but keys, timers and the redraw flag, and the timers count the steps. -/
theorem machine_afterAll_stuck (h : e.machine.Stuck fault ∧ e.machine.Good) (events : List Event) :
    let after := (e.afterAll events).machine
    after = { e.machine with
      keys := after.keys, redraw := after.redraw
      delay := max 0 (e.machine.delay - events.count .step)
      sound := max 0 (e.machine.sound - events.count .step) } := by
  induction events generalizing e with
  | nil =>
    have hd : max 0 e.machine.delay = e.machine.delay := Int.max_eq_right h.2.delay.1
    have hs : max 0 e.machine.sound = e.machine.sound := Int.max_eq_right h.2.sound.1
    simp [hd, hs]
  | cons event events ih =>
    have hrest := ih ((Machine.stuck_kept fault).emulator e event h)
    cases event with
    | press key =>
      rw [after_press, machine_press, h.1.keyDown key] at hrest
      simpa [Machine.setKey] using hrest
    | release key =>
      rw [after_release] at hrest
      simpa [Machine.keyUp, Machine.setKey] using hrest
    | step =>
      rw [after_step, (step_stuck h).2] at hrest
      rw [afterAll_cons, after_step, List.count_cons_self, ← countDown_add h.2.delay, ← countDown_add h.2.sound]
      exact hrest

/-- The latest step remembers the word without a meaning, and keys do not make it forgotten. -/
theorem lastError_stuck (h : e.machine.Stuck none ∧ e.machine.Good) {events : List Event}
    (hn : 0 < events.count .step) :
    (e.afterAll events).lastError = some ⟨e.machine.fetch.word, e.machine.pc⟩ := by
  induction events using List.reverseRecOn with
  | nil => cases hn
  | append_singleton events event ih =>
    rw [afterAll_append, afterAll_cons, afterAll_nil]
    cases event with
    | press key => rw [after_press]; exact ih (by simpa using hn)
    | release key => rw [after_release]; exact ih (by simpa using hn)
    | step =>
      have hm := machine_afterAll_stuck h events
      have hpc : (e.afterAll events).machine.pc = e.machine.pc := by rw [hm]
      have hfetch : (e.afterAll events).machine.fetch = e.machine.fetch := by rw [hm]; rfl
      have hrun := ((Machine.stuck_kept none).emulator.afterAll h events).1.running
      have hword : badWord? e.machine.fetch e.machine.pc = some ⟨e.machine.fetch.word, e.machine.pc⟩ := by
        cases h.1 with
        | meaningless _ hop => simp [badWord?, Instruction.valid, hop]
      rw [after_step, lastError_step hrun, hfetch, hpc, hword]
      rfl

/-- A run makes all its steps, because a word without a meaning does not wait for a key. -/
theorem runFrom_stuck (h : e.machine.Stuck none ∧ e.machine.Good) (done budget : Nat) :
    runFrom done budget e = (.ok (done + budget), e.afterAll (List.replicate budget .step)) := by
  induction budget generalizing done e with
  | zero => rfl
  | succ budget ih =>
    have hawait : e.machine.awaitingKey = false := by simp [Machine.awaitingKey, h.1.running]
    have hrest := ih ((Machine.stuck_kept none).emulator e .step h) (done + 1)
    rw [after_step] at hrest
    rw [(run_step_ok hawait (step_stuck h).1 done budget).1, hrest, List.replicate_succ, afterAll_cons, after_step,
      Nat.add_right_comm, Nat.add_assoc]

end Emulator

/-- **A machine at a fault stands still.** At a word without a meaning, a return with an empty stack or a call on a full
one, steps and keys change nothing but keys, timers and the redraw flag. -/
theorem standstill (hreach : e.Reachable) (hw : e.machine.keyWait = .running) :
    let m := e.machine
    let word := 256 * (m.memory.read (m.pc % 0x1000)).toNat + (m.memory.read ((m.pc + 1) % 0x1000)).toNat
    ((Instruction.decode word).op = .invalid →
      (∀ events : List Event,
        let n := events.count .step
        let after := e.afterAll events
        e.answers events = List.replicate n (.ok false) ∧
        after.machine = { m with
          keys := after.machine.keys, redraw := after.machine.redraw
          delay := max 0 (m.delay - n), sound := max 0 (m.sound - n) } ∧
        (0 < n → after.lastErrorText =
          some ("Invalid opcode " ++ Hex.literal 6 word ++ " at " ++ Hex.literal 5 m.pc))) ∧
      ∀ budget : Int, e.run budget = (.ok budget.toNat, e.afterAll (List.replicate budget.toNat .step))) ∧
    ∀ fault, (word = 0x00EE ∧ m.stack = [] ∧ fault = .underflow m.pc) ∨
        (word / 0x1000 = 2 ∧ m.stack.length = 16 ∧ fault = .overflow m.pc) →
      ∀ events : List Event,
        let n := events.count .step
        let after := e.afterAll events
        e.answers events = List.replicate n (.error fault) ∧
        after.machine = { m with
          keys := after.machine.keys, redraw := after.machine.redraw
          delay := max 0 (m.delay - n), sound := max 0 (m.sound - n) } := by
  intro m word
  have hgood : m.Good := hreach.good
  have hword : m.wordAt m.pc = word := wordAt_emod m m.pc
  have hfetch : m.fetch = .decode word := by rw [← hword]; rfl
  refine ⟨fun hop => ?_, fun fault hcause events => ?_⟩
  · have hstuck : m.Stuck none ∧ m.Good := ⟨.meaningless hw (by rw [hfetch]; exact hop), hgood⟩
    refine ⟨fun events => ⟨Emulator.answers_stuck hstuck events, Emulator.machine_afterAll_stuck hstuck events,
      fun hn => ?_⟩, fun budget => ?_⟩
    · have hlt : word < 0x10000 := hword ▸ wordAt_lt m m.pc
      have hw : m.fetch.word = word := by
        rw [hfetch]
        show ((word : Int) % 0x10000) = word
        omega
      rw [Emulator.lastErrorText, Emulator.lastError_stuck hstuck hn, hw]
      rfl
    · have := Emulator.runFrom_stuck hstuck 0 budget.toNat
      rwa [Nat.zero_add] at this
  · have hfault : m.step.fault = some fault := by
      rw [fault_step_iff, op_fetch_eq_ret, op_fetch_eq_call, hword]
      refine ⟨hw, ?_⟩
      rcases hcause with h | ⟨hcall, hdepth, hf⟩
      · exact .inl h
      · exact .inr ⟨hcall, by rw [hdepth]; exact Nat.le_refl _, hf⟩
    have hstuck : m.Stuck (some fault) ∧ m.Good := ⟨.faulting fault hfault, hgood⟩
    exact ⟨Emulator.answers_stuck hstuck events, Emulator.machine_afterAll_stuck hstuck events⟩

/-- A program that begins with a word without a meaning, and one that begins with a return. -/
theorem standstill_nought : (∃ e : Emulator, e.Reachable ∧
      e.answers [.step, .press ⟨3, by decide⟩, .step, .release ⟨3, by decide⟩, .step] =
        [.ok false, .ok false, .ok false] ∧
      (e.run 5).1 = .ok 5 ∧ e.step.2.lastErrorText = some "Invalid opcode 0xffff at 0x200") ∧
    ∃ e : Emulator, e.Reachable ∧
      e.answers [.step, .press ⟨3, by decide⟩, .step] = [.error (.underflow 0x200), .error (.underflow 0x200)] := by
  constructor
  · obtain ⟨e, h⟩ := Emulator.exists_start .vast [0xFF, 0xFF] 64 32 (.cycle []) true
      (by decide) (by decide) (by decide) (by decide)
    obtain ⟨_, _, he⟩ := Emulator.start_eq h
    have hpc : e.machine.pc = 0x200 := by rw [he]; rfl
    have hmemory : e.machine.memory = .image [0xFF, 0xFF] := by rw [he]; rfl
    have hword := Emulator.wordAt_image hmemory (k := 0) (by decide)
    rw [show (programStart + (0 : Nat) : Int) = e.machine.pc by rw [he]; rfl, wordAt_emod] at hword
    obtain ⟨hevents, hrun⟩ := (standstill (.start h) (by rw [he]; rfl)).1 (by rw [hword]; decide)
    refine ⟨e, .start h, (hevents _).1, by rw [hrun 5]; rfl, ?_⟩
    have htext := (hevents [.step]).2.2 (by decide)
    rw [hword, hpc] at htext
    exact htext.trans (by decide)
  · obtain ⟨e, h⟩ := Emulator.exists_start .vast [0x00, 0xEE] 64 32 (.cycle []) true
      (by decide) (by decide) (by decide) (by decide)
    obtain ⟨_, _, he⟩ := Emulator.start_eq h
    have hmemory : e.machine.memory = .image [0x00, 0xEE] := by rw [he]; rfl
    have hword := Emulator.wordAt_image hmemory (k := 0) (by decide)
    rw [show (programStart + (0 : Nat) : Int) = e.machine.pc by rw [he]; rfl, wordAt_emod] at hword
    have hevents := (standstill (.start h) (by rw [he]; rfl)).2 (.underflow 0x200)
      (.inl ⟨hword.trans (by decide), by rw [he]; rfl, by rw [he]; rfl⟩)
    exact ⟨e, .start h, (hevents _).1⟩

end ChipEight
