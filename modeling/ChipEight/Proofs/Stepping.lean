import ChipEight.Proofs.History
import ChipEight.Proofs.KeyWait

/-!
# Stepping through a program

What a program does that leaves itself as it is, word by word.

- `Machine.View` are the parts of a machine that such a program works on, and `Machine.At` says where in the program a
  machine is;
- `Machine.Goes` are runs of so many steps in which nothing faults and no key is awaited before the end; runs are put
  together by `Goes.trans`, and an emulator makes them by single steps (`Emulator.machine_afterAll_goes`,
  `Emulator.answers_goes`) or by a control for many (`Emulator.runFrom_goes`);
- `At.next`: an instruction that goes on to the next word, and from it a lemma for each such operation; `At.jump`,
  `At.awaitKey` and `At.stored` for the others.
-/

namespace ChipEight

variable {m m' : Machine} {ins : Instruction} {notes : List Note} {program : List UInt8} {k steps more : Nat}
  {keyWait : KeyWait} {r : Register} {key : Key}

namespace Machine

/-- The parts of a machine that a program works on, unless it changes itself, calls or looks at the clock. -/
@[ext]
structure View where
  registers : Registers
  index : Int
  screen : Screen
  random : RandomSource
  cycles : Int

/-- These parts of a machine. -/
def view (m : Machine) : View :=
  ⟨m.registers, m.index, m.screen, m.random, m.cycles⟩

/-- The instruction at an offset in a program. -/
def instructionAt (program : List UInt8) (k : Nat) : Instruction :=
  .decode (256 * (program.getD k 0).toNat + (program.getD (k + 1) 0).toNat : Nat)

/-- The program stands in memory, and the program counter at an offset in it. -/
structure At (program : List UInt8) (k : Nat) (keyWait : KeyWait) (m : Machine) : Prop where
  memory : m.memory = .image program
  pc : m.pc = programStart + k
  keyWait : m.keyWait = keyWait

/-- So many steps lead from a machine to another; none of them faults, and none is made while a key is awaited. -/
inductive Goes : Nat → Machine → Machine → Prop
  | here (m : Machine) : Goes 0 m m
  | step {steps : Nat} {m m' : Machine} : m.awaitingKey = false → m.step.fault = none →
      Goes steps m.step.machine m' → Goes (steps + 1) m m'

theorem Goes.trans {m'' : Machine} (h : Goes steps m m') (h' : Goes more m' m'') : Goes (steps + more) m m'' := by
  induction h with
  | here m => rwa [Nat.zero_add]
  | step hwait hfault _ ih =>
    rw [Nat.add_right_comm]
    exact .step hwait hfault (ih h')

theorem Goes.one (hwait : m.awaitingKey = false) (hstep : m.step = ⟨m', notes, none⟩) : Goes 1 m m' := by
  have hrest : Goes 0 m.step.machine m' := by
    rw [hstep]
    exact .here m'
  exact .step hwait (by rw [hstep]) hrest

/-! ## Words -/

/-- A machine executes the word that it is at. -/
theorem At.goes (h : m.At program k .running) (hk : k + 1 < maxProgram) (hins : instructionAt program k = ins)
    (hvalid : ins.valid = true) (he : effect ins.op ins m.tick = .ok (m', notes)) :
    Goes 1 m { m' with pc := m'.pc % memorySize, cycles := m'.cycles + 1 } := by
  have hx : m.tick.execute (instructionAt program k) =
      .ok ({ m' with pc := m'.pc % memorySize, cycles := m'.cycles + 1 }, notes) := by
    rw [hins, execute_of_effect he, hvalid]
    rfl
  have hwait : m.awaitingKey = false := by rw [awaitingKey, h.keyWait]
  exact .one hwait (executed?_image h.memory hk h.keyWait h.pc hx).2

/-- **An instruction that goes on to the next word**, and whose effect is otherwise known. -/
theorem At.next (h : m.At program k .running) (hk : k + 3 < maxProgram) (hins : instructionAt program k = ins)
    (hvalid : ins.valid = true) (he : effect ins.op ins m.tick = .ok (m'.advance, notes))
    (hmemory : m'.memory = m.memory) (hpc : m'.pc = m.pc) :
    ∃ after, Goes 1 m after ∧ after.At program (k + 2) m'.keyWait ∧
      after.view = { m'.view with cycles := m'.view.cycles + 1 } := by
  refine ⟨_, h.goes (by omega) hins hvalid he, ⟨hmemory.trans h.memory, ?_, rfl⟩, rfl⟩
  show (m'.pc + 2) % memorySize = _
  rw [hpc, h.pc]
  unfold maxProgram memorySize programStart at *
  omega

theorem At.clear (h : m.At program k .running) (word : Int) (hk : k + 3 < maxProgram)
    (hins : instructionAt program k = ⟨.clear, word⟩) :
    ∃ after, Goes 1 m after ∧ after.At program (k + 2) .running ∧
      after.view = { m.view with screen := m.view.screen.cleared, cycles := m.view.cycles + 1 } := by
  rw [← h.keyWait]
  exact h.next hk hins rfl rfl rfl rfl

theorem At.loadByte (h : m.At program k .running) (word : Int) (hk : k + 3 < maxProgram)
    (hins : instructionAt program k = ⟨.loadByte, word⟩) :
    ∃ after, Goes 1 m after ∧ after.At program (k + 2) .running ∧
      after.view = { m.view with
        registers := m.view.registers.put (hexDigit word 2) (word % 256).toNat, cycles := m.view.cycles + 1 } := by
  rw [← h.keyWait]
  exact h.next hk hins rfl rfl rfl rfl

theorem At.pointGlyph (h : m.At program k .running) (word : Int) (hk : k + 3 < maxProgram)
    (hins : instructionAt program k = ⟨.pointGlyph, word⟩) :
    ∃ after, Goes 1 m after ∧ after.At program (k + 2) .running ∧
      after.view = { m.view with
        index := m.view.registers.value (hexDigit word 2) * glyphSize, cycles := m.view.cycles + 1 } := by
  rw [← h.keyWait]
  exact h.next hk hins rfl rfl rfl rfl

theorem At.loadIndex (h : m.At program k .running) (word : Int) (hk : k + 3 < maxProgram)
    (hins : instructionAt program k = ⟨.loadIndex, word⟩) :
    ∃ after, Goes 1 m after ∧ after.At program (k + 2) .running ∧
      after.view = { m.view with index := (word % 4096).toNat, cycles := m.view.cycles + 1 } := by
  rw [← h.keyWait]
  exact h.next hk hins rfl rfl rfl rfl

theorem At.random (h : m.At program k .running) (word : Int) (hk : k + 3 < maxProgram)
    (hins : instructionAt program k = ⟨.random, word⟩) :
    let number : Int := m.view.random.next.1.toNat
    ∃ after, Goes 1 m after ∧ after.At program (k + 2) .running ∧
      after.view = { m.view with
        registers := m.view.registers.put (hexDigit word 2) (Bitwise.and number (word % 256).toNat),
        random := m.view.random.next.2, cycles := m.view.cycles + 1 } := by
  rw [← h.keyWait]
  exact h.next hk hins rfl rfl rfl rfl

theorem At.draw (h : m.At program k .running) (word : Int) (hk : k + 3 < maxProgram)
    (hins : instructionAt program k = ⟨.draw, word⟩) :
    let drawn := m.view.screen.draw ((Memory.image program).sprite m.view.index (hexDigit word 0).val)
      (m.view.registers.value (hexDigit word 2)) (m.view.registers.value (hexDigit word 1))
    ∃ after, Goes 1 m after ∧ after.At program (k + 2) .running ∧
      after.view = { m.view with
        registers := m.view.registers.put flag (bitOf drawn.2), screen := drawn.1, cycles := m.view.cycles + 1 } := by
  rw [← h.keyWait, ← h.memory]
  exact h.next hk hins rfl rfl rfl rfl

theorem At.awaitKey (h : m.At program k .running) (word : Int) (hk : k + 3 < maxProgram)
    (hins : instructionAt program k = ⟨.awaitKey, word⟩) :
    ∃ after, Goes 1 m after ∧ after.At program (k + 2) (.awaiting (hexDigit word 2)) ∧
      after.view = { m.view with cycles := m.view.cycles + 1 } :=
  h.next hk hins rfl rfl rfl rfl

theorem At.jump (h : m.At program k .running) (word : Int) (target : Nat) (hk : k + 1 < maxProgram)
    (hins : instructionAt program k = ⟨.jump, word⟩) (htarget : (word % 4096).toNat = programStart + target) :
    ∃ after, Goes 1 m after ∧ after.At program target .running ∧
      after.view = { m.view with cycles := m.view.cycles + 1 } := by
  refine ⟨_, h.goes hk hins rfl rfl, ⟨h.memory, ?_, h.keyWait⟩, rfl⟩
  show ((word % 4096).toNat : Int) % memorySize = _
  unfold memorySize
  omega

/-! ## Keys -/

/-- A key that goes down answers the wait. -/
theorem At.keyDown (h : m.At program k (.awaiting r)) (key : Key) :
    (m.keyDown key).1.At program k (.pending r key) ∧ (m.keyDown key).1.view = m.view := by
  rw [keyDown_awaiting h.keyWait]
  exact ⟨⟨h.memory, h.pc, rfl⟩, rfl⟩

theorem At.keyUp (h : m.At program k keyWait) (key : Key) :
    (m.keyUp key).At program k keyWait ∧ (m.keyUp key).view = m.view :=
  ⟨⟨h.memory, h.pc, h.keyWait⟩, rfl⟩

/-- The step behind the answer stores the key, and the program goes on from where it is. -/
theorem At.stored (h : m.At program k (.pending r key)) :
    ∃ after, Goes 1 m after ∧ after.At program k .running ∧
      after.view = { m.view with registers := m.view.registers.put r key.val } := by
  have hwait : m.awaitingKey = false := by rw [awaitingKey, h.keyWait]
  exact ⟨_, .one hwait (step_pending h.keyWait), ⟨h.memory, h.pc, rfl⟩, rfl⟩

end Machine

/-! ## Runs of an emulator -/

namespace Emulator

variable {e : Emulator} {budget done : Nat}

theorem machine_afterAll_goes (h : Machine.Goes steps m m') (hm : e.machine = m) :
    (e.afterAll (List.replicate steps .step)).machine = m' := by
  induction h generalizing e with
  | here m => exact hm
  | step _ _ _ ih =>
    rw [List.replicate_succ, afterAll_cons, after_step]
    exact ih (by rw [machine_step, hm])

/-- None of these steps faults. -/
theorem answers_goes (h : Machine.Goes steps m m') (hm : e.machine = m) :
    ∀ answer ∈ e.answers (List.replicate steps .step), ∃ redraw, answer = .ok redraw := by
  induction h generalizing e with
  | here m => exact fun _ hmem => absurd hmem List.not_mem_nil
  | step _ hfault _ ih =>
    have hrest := ih (e := e.step.2) (by rw [machine_step, hm])
    rw [List.replicate_succ, answers, moments_step, List.map_cons, List.forall_mem_cons]
    exact ⟨⟨_, by rw [step_answer, hm, hfault]⟩, hrest⟩

/-- **A run makes the steps up to a wait**, if it may make that many. -/
theorem runFrom_goes (h : Machine.Goes steps m m') (hm : e.machine = m) (hend : m'.awaitingKey = true)
    (hbudget : steps ≤ budget) (done : Nat) :
    (runFrom done budget e).1 = .ok (done + steps) ∧ runEvents budget e = List.replicate steps .step := by
  induction h generalizing e done budget with
  | here m =>
    cases budget with
    | zero => exact ⟨rfl, rfl⟩
    | succ budget =>
      rw [runFrom, runEvents, hm, if_pos hend, if_pos hend]
      exact ⟨rfl, rfl⟩
  | @step steps m m' hwait hfault _ ih =>
    obtain ⟨left, rfl⟩ : ∃ left, budget = left + 1 := ⟨budget - 1, by omega⟩
    have hleft : steps ≤ left := by omega
    have hanswer : e.step.1 = .ok e.machine.step.machine.redraw := by rw [step_answer, hm, hfault]
    have hnext : e.step.2.machine = m.step.machine := by rw [machine_step, hm]
    obtain ⟨hran, hevents⟩ := run_step_ok (hm ▸ hwait) hanswer done left
    obtain ⟨hrest, hmore⟩ := ih hnext hend hleft (done + 1)
    rw [hran, hevents, hrest, hmore, Nat.add_right_comm, Nat.add_assoc]
    exact ⟨rfl, rfl⟩

end Emulator

end ChipEight
