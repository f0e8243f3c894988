import ChipEight.Proofs.Decoding
import ChipEight.Proofs.MemoryRing
import ChipEight.Proofs.Range

/-!
# Faults of the call stack

- `fault_step_iff`: a step faults if and only if it fetches a return with an empty stack or a call with a full one;
- `step_of_fault`: a step that faults only ticks;
- `step_error_iff`: the main statement, for the steps of an emulator, its trace included.
-/

namespace ChipEight

variable {m : Machine} {fault : StackFault}

/-! ## The machine -/

/-- A step faults for no other reason than a return from an empty stack or a call on a full one. -/
theorem fault_step_iff : m.step.fault = some fault ↔ m.keyWait = .running ∧
    ((m.fetch.op = .ret ∧ m.stack = [] ∧ fault = .underflow m.pc) ∨
      (m.fetch.op = .call ∧ stackDepth ≤ m.stack.length ∧ fault = .overflow m.pc)) := by
  have he : m.tick.execute m.fetch = .error ⟨fault, m.tick⟩ ↔ _ := execute_eq_error.trans effect_eq_error_iff
  simp only [Failure.mk.injEq, and_true] at he
  have hc := m.stepCase
  generalize m.step = outcome at hc
  cases hc with
  | stored r k hw => simp [hw]
  | waited r hw => simp [hw]
  | executed m' notes hw hx =>
    rw [hx] at he
    simp only [reduceCtorEq, false_iff] at he
    simp only [reduceCtorEq, false_iff, hw, true_and]
    exact he
  | faulted fault' hw hx =>
    simp only [hx, Except.error.injEq, Failure.mk.injEq, and_true] at he
    simp only [Option.some.injEq, hw, true_and]
    exact he

/-- A step that faults only ticks. -/
theorem step_of_fault (h : m.step.fault = some fault) : m.step = ⟨m.tick, [], some fault⟩ := by
  have hc := m.stepCase
  generalize m.step = outcome at h hc
  cases hc with
  | stored | waited | executed => cases h
  | faulted fault' _ _ => cases h; rfl

/-- The word that is fetched, with the addresses of its bytes brought into memory. -/
theorem wordAt_emod (m : Machine) (address : Int) : m.wordAt address =
    256 * (m.memory.read (address % 0x1000)).toNat + (m.memory.read ((address + 1) % 0x1000)).toNat := by
  rw [Memory.read_emod, Memory.read_emod, Machine.wordAt]

theorem wordAt_lt (m : Machine) (address : Int) : m.wordAt address < 0x10000 := by
  have := (m.memory.read address).toNat_lt
  have := (m.memory.read (address + 1)).toNat_lt
  unfold Machine.wordAt
  omega

theorem op_fetch_eq_ret : m.fetch.op = .ret ↔ m.wordAt m.pc = 0x00EE := by
  have := wordAt_lt m m.pc
  rw [Machine.fetch, op_decode_eq_ret]
  omega

theorem op_fetch_eq_call : m.fetch.op = .call ↔ m.wordAt m.pc / 0x1000 = 2 := by
  have := wordAt_lt m m.pc
  rw [Machine.fetch, op_decode_eq_call]
  omega

/-! ## The emulator -/

/-- **When a step faults, and what it leaves behind**: nothing has changed but the redraw flag and the timers, and a
trace has one more entry, with the text of the fault. -/
theorem step_error_iff {e : Emulator} (h : e.Reachable) :
    let m := e.machine
    let word := 256 * (m.memory.read (m.pc % 0x1000)).toNat + (m.memory.read ((m.pc + 1) % 0x1000)).toNat
    let ticked := { m with redraw := false, delay := max 0 (m.delay - 1), sound := max 0 (m.sound - 1) }
    ∀ fault, (e.step.1 = .error fault ↔ m.keyWait = .running ∧
        ((word = 0x00EE ∧ m.stack = [] ∧ fault = .underflow m.pc) ∨
          (word / 0x1000 = 2 ∧ m.stack.length = 16 ∧ fault = .overflow m.pc))) ∧
      (e.step.1 = .error fault → ∃ entry : TraceEntry,
        entry.states = (ticked.snapshot, ticked.snapshot) ∧
        entry.mishap.map Mishap.message = some fault.message ∧
        e.step.2 = { e with machine := ticked, trace := if e.tracing then e.trace.push entry else e.trace }) := by
  intro m word ticked fault
  have hgood : m.Good := h.good
  have hword : m.wordAt m.pc = word := wordAt_emod m m.pc
  have hanswer : e.step.1 = .error fault ↔ m.step.fault = some fault := by
    rw [Emulator.step_answer]
    cases m.step.fault <;> simp
  have hdepth : stackDepth ≤ m.stack.length ↔ m.stack.length = 16 := by
    have := hgood.depth
    unfold stackDepth at *
    omega
  have hticked : m.tick = ticked := by
    show ({ m with redraw := _, delay := _, sound := _ } : Machine) = _
    rw [countDown_eq_max hgood.delay, countDown_eq_max hgood.sound]
  refine ⟨?_, fun hf => ?_⟩
  · rw [hanswer, fault_step_iff, op_fetch_eq_ret, op_fetch_eq_call, hword, hdepth]
  · rw [hanswer] at hf
    obtain ⟨hw, hcause⟩ := fault_step_iff.mp hf
    have hvalid : m.fetch.valid = true := by
      rcases hcause with ⟨hop, -⟩ | ⟨hop, -⟩ <;> simp [Instruction.valid, hop]
    have hupcoming : m.upcoming? = some m.fetch := by rw [Machine.upcoming?, hw]
    refine ⟨Emulator.entryOf ticked ticked m.fetch (some fault), rfl, ?_, ?_⟩
    · simp [Emulator.entryOf, Emulator.badWord?, hvalid, Mishap.message]
    · rw [Emulator.step_eq, hupcoming, step_of_fault hf, hticked]
      simp [Emulator.record, Emulator.become, Emulator.badWord?, hvalid]

/-- A program that begins with a return faults in its first step. -/
theorem step_error_iff_ret : ∃ e : Emulator, e.Reachable ∧ e.step.1 = .error (.underflow 0x200) := by
  obtain ⟨e, h⟩ := Emulator.exists_start .vast [0x00, 0xEE] 64 32 (.cycle []) true
    (by decide) (by decide) (by decide) (by decide)
  obtain ⟨_, _, he⟩ := Emulator.start_eq h
  refine ⟨e, .start h, (step_error_iff (.start h) _).1.mpr ?_⟩
  have h0 := Emulator.read_image [0x00, 0xEE] (k := 0) (by decide)
  have h1 := Emulator.read_image [0x00, 0xEE] (k := 1) (by decide)
  simp [programStart] at h0 h1
  simp [he, Machine.boot, programStart, h0, h1]

end ChipEight
