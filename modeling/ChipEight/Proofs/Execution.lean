import ChipEight.Machine.Step
import ChipEight.Proofs.RegisterLoop

/-!
# Execution: faults, frames and the cases of a step

- `effect_eq_error_iff`: the only operations that fault are a return from an empty stack and a call on a full one, and
  they leave the machine as it was (`machine_of_execute_error`);
- `Frame op m m'` says what the operation leaves as it was (`effect_frame`);
- `value_setRegister` and `value_setWithFlag`: each register after a store to registers;
- `Machine.StepCase` lists the four things that a step can come to (`Machine.stepCase`): it stores a key, it waits, it
  executes an instruction, or the instruction faults.
-/

namespace ChipEight

variable {op : Op} {ins : Instruction} {m m' : Machine} {notes : List Note} {failure : Failure}

/-! ## Faults -/

/-- A return from an empty stack and a call on a full one fault, and nothing else does. -/
theorem effect_eq_error_iff : effect op ins m = .error failure ↔
    (op = .ret ∧ m.stack = [] ∧ failure = ⟨.underflow m.pc, m⟩) ∨
      (op = .call ∧ stackDepth ≤ m.stack.length ∧ failure = ⟨.overflow m.pc, m⟩) := by
  cases op
  case ret =>
    cases hs : m.stack with
    | nil => simp [effect, Machine.pop, hs, bind, Except.bind, eq_comm]
    | cons a rest => simp [effect, Machine.pop, hs, bind, Except.bind, quietly]
  case call =>
    by_cases hs : stackDepth ≤ m.stack.length
    · simp [effect, Machine.push, hs, bind, Except.bind, eq_comm]
    · simp [effect, Machine.push, hs, bind, Except.bind, quietly]
  all_goals simp [effect, quietly]

/-- A return takes the most recent frame off the stack and goes on two bytes behind it. -/
theorem effect_ret (h : effect .ret ins m = .ok (m', notes)) :
    ∃ address rest, m.stack = address :: rest ∧ m' = { m with pc := address + 2, stack := rest } ∧ notes = [] := by
  cases hs : m.stack with
  | nil => simp [effect, Machine.pop, hs, bind, Except.bind] at h
  | cons address rest =>
    simp only [effect, Machine.pop, hs, bind, Except.bind, quietly, Except.ok.injEq, Prod.mk.injEq] at h
    exact ⟨address, rest, rfl, h.1.symm, h.2.symm⟩

/-- A return succeeds while there is a frame. -/
theorem effect_ret_of_cons {address : Int} {rest : List Int} (h : m.stack = address :: rest) :
    effect .ret ins m = .ok ({ m with pc := address + 2, stack := rest }, []) := by
  simp only [effect, Machine.pop, h, bind, Except.bind, quietly]

/-- A call puts its own address on a stack that is not full. -/
theorem effect_call (h : effect .call ins m = .ok (m', notes)) :
    m.stack.length < stackDepth ∧ m' = { m with pc := ins.nnn, stack := m.pc :: m.stack } ∧ notes = [] := by
  by_cases hs : stackDepth ≤ m.stack.length
  · simp [effect, Machine.push, hs, bind, Except.bind] at h
  · simp only [effect, Machine.push, hs, bind, Except.bind, quietly, if_false, Except.ok.injEq, Prod.mk.injEq] at h
    exact ⟨by omega, h.1.symm, h.2.symm⟩

/-- A call succeeds while the stack is not full. -/
theorem effect_call_of_lt (h : m.stack.length < stackDepth) :
    effect .call ins m = .ok ({ m with pc := ins.nnn, stack := m.pc :: m.stack }, []) := by
  simp only [effect, Machine.push, if_neg (Nat.not_le.mpr h), bind, Except.bind, quietly]

/-! ## Frames -/

/-- What an operation leaves as it was. -/
structure Frame (op : Op) (m m' : Machine) : Prop where
  keys : m'.keys = m.keys
  width : m'.screen.width = m.screen.width
  height : m'.screen.height = m.screen.height
  cycles : m'.cycles = m.cycles
  memory : op ≠ .storeDecimal → op ≠ .storeRegisters → m'.memory = m.memory
  index : op ∉ [.loadIndex, .addIndex, .pointGlyph, .storeRegisters, .loadRegisters] → m'.index = m.index
  stack : op ≠ .ret → op ≠ .call → m'.stack = m.stack
  delay : op ≠ .setDelay → m'.delay = m.delay
  sound : op ≠ .setSound → m'.sound = m.sound
  screen : op ≠ .clear → op ≠ .draw → m'.screen = m.screen
  redraw : op ≠ .clear → op ≠ .draw → m'.redraw = m.redraw
  keyWait : op ≠ .awaitKey → m'.keyWait = m.keyWait
  random : op ≠ .random → m'.random = m.random

namespace Frame

/-- Every operation may change registers and the program counter. -/
theorem of_registers (registers : Registers) (pc : Int) : Frame op m { m with registers, pc } := by
  constructor <;> intros <;> rfl

theorem of_random (registers : Registers) (pc : Int) (random : RandomSource) :
    Frame .random m { m with registers, pc, random } := by
  constructor <;> intros <;> first | rfl | contradiction

theorem of_index (hop : op ∈ [.loadIndex, .addIndex, .pointGlyph, .storeRegisters, .loadRegisters])
    (registers : Registers) (pc index : Int) : Frame op m { m with registers, pc, index } := by
  constructor <;> intros <;> first | rfl | contradiction

theorem of_stack (hop : op = .ret ∨ op = .call) (pc : Int) (stack : List Int) :
    Frame op m { m with pc, stack } := by
  rcases hop with rfl | rfl <;> constructor <;> intros <;> first | rfl | contradiction

theorem of_screen (hop : op = .clear ∨ op = .draw) (registers : Registers) (pc : Int) (screen : Screen)
    (hw : screen.width = m.screen.width) (hh : screen.height = m.screen.height) (redraw : Bool) :
    Frame op m { m with registers, pc, screen, redraw } := by
  rcases hop with rfl | rfl <;> constructor <;> intros <;> first | rfl | assumption | contradiction

theorem of_memory (memory : Memory) (pc : Int) : Frame .storeDecimal m { m with memory, pc } := by
  constructor <;> intros <;> first | rfl | contradiction

theorem of_memory_index (memory : Memory) (pc index : Int) :
    Frame .storeRegisters m { m with memory, pc, index } := by
  constructor <;> intros <;> first | rfl | contradiction

theorem of_delay (delay pc : Int) : Frame .setDelay m { m with delay, pc } := by
  constructor <;> intros <;> first | rfl | contradiction

theorem of_sound (sound pc : Int) : Frame .setSound m { m with sound, pc } := by
  constructor <;> intros <;> first | rfl | contradiction

theorem of_keyWait (keyWait : KeyWait) (pc : Int) : Frame .awaitKey m { m with keyWait, pc } := by
  constructor <;> intros <;> first | rfl | contradiction

end Frame

/-- **No operation reaches outside of its frame.** -/
theorem effect_frame (h : effect op ins m = .ok (m', notes)) : Frame op m m' := by
  cases op
  case ret =>
    obtain ⟨_, _, _, rfl, _⟩ := effect_ret h
    exact Frame.of_stack (.inl rfl) ..
  case call =>
    obtain ⟨_, rfl, _⟩ := effect_call h
    exact Frame.of_stack (.inr rfl) ..
  case storeRegisters =>
    rw [effect_storeRegisters] at h
    cases h
    exact Frame.of_memory_index ..
  case loadRegisters =>
    rw [effect_loadRegisters] at h
    cases h
    exact Frame.of_index (by decide) ..
  all_goals cases h
  case clear => exact Frame.of_screen (.inl rfl) m.registers _ m.screen.cleared rfl rfl true
  case draw => exact Frame.of_screen (.inr rfl) _ _ _ (Screen.size_draw ..).1 (Screen.size_draw ..).2 true
  case random => exact Frame.of_random ..
  case loadIndex | addIndex | pointGlyph => exact Frame.of_index (by decide) m.registers ..
  case storeDecimal => exact Frame.of_memory ..
  case setDelay => exact Frame.of_delay ..
  case setSound => exact Frame.of_sound ..
  case awaitKey => exact Frame.of_keyWait ..
  all_goals exact Frame.of_registers ..

/-! ## Instructions -/

/-- Executing an instruction is its operation, the program counter brought back and the cycle counted. -/
theorem execute_eq_ok (h : m.execute ins = .ok (m', notes)) : ∃ n, effect ins.op ins m = .ok (n, notes) ∧
    m' = { n with pc := n.pc % memorySize, cycles := if ins.valid then n.cycles + 1 else n.cycles } := by
  unfold Machine.execute at h
  cases he : effect ins.op ins m with
  | error fault => rw [he] at h; cases h
  | ok result => rw [he] at h; cases h; exact ⟨result.1, rfl, rfl⟩

/-- An instruction succeeds if its operation does. -/
theorem execute_of_effect (h : effect ins.op ins m = .ok (m', notes)) : m.execute ins =
    .ok ({ m' with pc := m'.pc % memorySize, cycles := if ins.valid then m'.cycles + 1 else m'.cycles }, notes) := by
  rw [Machine.execute, h]
  rfl

/-- Instructions of one operation come to the same if their operations do. -/
theorem execute_congr {ins' : Instruction} (hop : ins.op = ins'.op)
    (h : effect ins.op ins m = effect ins'.op ins' m) : m.execute ins = m.execute ins' := by
  rw [Machine.execute, Machine.execute, h, Instruction.valid, Instruction.valid, hop]

/-- An instruction faults if and only if its operation does. -/
theorem execute_eq_error : m.execute ins = .error failure ↔ effect ins.op ins m = .error failure := by
  unfold Machine.execute
  cases he : effect ins.op ins m with
  | error failure' => constructor <;> (intro h; cases h; rfl)
  | ok result => constructor <;> (intro h; cases h)

/-- An instruction that faults leaves the machine as it was. -/
theorem machine_of_execute_error (h : m.execute ins = .error failure) : failure.machine = m := by
  rcases effect_eq_error_iff.mp (execute_eq_error.mp h) with ⟨-, -, rfl⟩ | ⟨-, -, rfl⟩ <;> rfl

/-! ## Registers -/

theorem value_setRegister (m : Machine) (r s : Register) (value : Int) :
    (m.setRegister r value).registers.value s = if s = r then value else m.registers.value s := by
  rw [Machine.setRegister, Registers.value_put]
  simp only [eq_comm]

/-- The flag wins over the result where both go to the same register. -/
theorem value_setWithFlag (m : Machine) (r s : Register) (value flagValue : Int) :
    (m.setWithFlag r value flagValue).registers.value s =
      if s = flag then flagValue else if s = r then value else m.registers.value s := by
  rw [Machine.setWithFlag, value_setRegister, value_setRegister]

/-! ## The cases of a step -/

/-- The four things that a step can come to. -/
inductive Machine.StepCase (m : Machine) : StepOutcome → Prop where
  | stored (r : Register) (k : Key) : m.keyWait = .pending r k →
      StepCase m ⟨{ m.tick.setRegister r k.val with keyWait := .running }, [.keyStored k r], none⟩
  | waited (r : Register) : m.keyWait = .awaiting r → StepCase m ⟨m.tick, [.stepAwaiting], none⟩
  | executed (m' : Machine) (notes : List Note) : m.keyWait = .running →
      m.tick.execute m.fetch = .ok (m', notes) → StepCase m ⟨m', notes, none⟩
  | faulted (fault : StackFault) : m.keyWait = .running →
      m.tick.execute m.fetch = .error ⟨fault, m.tick⟩ → StepCase m ⟨m.tick, [], some fault⟩

/-- Every step comes to one of the four. -/
theorem Machine.stepCase (m : Machine) : m.StepCase m.step := by
  have hw : m.tick.keyWait = m.keyWait := rfl
  have hf : m.tick.fetch = m.fetch := rfl
  unfold Machine.step
  simp only [hw, hf]
  cases h : m.keyWait with
  | running =>
    cases hx : m.tick.execute m.fetch with
    | error failure =>
      obtain ⟨fault, machine⟩ := failure
      obtain rfl : machine = m.tick := machine_of_execute_error hx
      exact .faulted fault h hx
    | ok result => exact .executed result.1 result.2 h hx
  | awaiting r => exact .waited r h
  | pending r k => exact .stored r k h

/-- A step faults if its instruction does. -/
theorem Machine.fault_of_execute (hw : m.keyWait = .running) (hx : m.tick.execute m.fetch = .error failure) :
    m.step.fault = some failure.fault := by
  have hw' : m.tick.keyWait = .running := hw
  have hf : m.tick.fetch = m.fetch := rfl
  simp only [Machine.step, hw', hf, hx]

/-! ## Keys -/

/-- A key that goes down answers a wait. -/
theorem Machine.keyDown_awaiting {r : Register} {key : Key} (h : m.keyWait = .awaiting r) :
    m.keyDown key = ({ m.setKey key true with keyWait := .pending r key }, [.keyLatched key r]) := by
  have hw : (m.setKey key true).keyWait = .awaiting r := h
  simp only [Machine.keyDown, hw]

/-- A key that goes down while none is awaited is only marked as held down. -/
theorem Machine.keyDown_other {key : Key} (h : ∀ r, m.keyWait ≠ .awaiting r) :
    m.keyDown key = (m.setKey key true, []) := by
  have hw : (m.setKey key true).keyWait = m.keyWait := rfl
  unfold Machine.keyDown
  cases hk : m.keyWait with
  | awaiting r => exact absurd hk (h r)
  | running => simp only [hw, hk]
  | pending r k => simp only [hw, hk]

/-- A key that goes down changes the keys and the key wait, and nothing else. -/
theorem Machine.keyDown_eq (m : Machine) (key : Key) :
    (m.keyDown key).1 = { m.setKey key true with keyWait := (m.keyDown key).1.keyWait } := by
  cases hw : m.keyWait with
  | awaiting r => rw [keyDown_awaiting hw]
  | running | pending => rw [keyDown_other (by simp [hw])]

end ChipEight
