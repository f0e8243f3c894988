import ChipEight.Proofs.Decoding
import ChipEight.Proofs.History

/-!
# The program counter

Where a step leads: to the next word, past it, to an address in the instruction, back behind a call, or nowhere.

- `Machine.LeadsTo` says for every operation which address its instruction leads to, before it is brought back into
  memory; `leadsTo_effect`: each operation sets the program counter to that address;
- `Machine.holdsKeyOf_iff`: which key the operations that look at keys ask for;
- `leadsTo_step` and `pc_step_of_not_running`: the two kinds of steps;
- `Machine.SkipApart` says that of two words one skips if a condition holds and the other if it does not;
- `pc_law`: the main statement, for every step and every pair of skips.
-/

namespace ChipEight

variable {m m' : Machine} {ins : Instruction} {notes : List Note} {condition : Prop} {c : Bool}

namespace Machine

/-! ## Where instructions lead -/

/-- The key that a register names by its value modulo 16 is held down. -/
def HoldsKey (m : Machine) (r : Register) : Prop :=
  ∃ key ∈ m.heldKeys, (key.val : Int) = m.registers.value r % 16

/-- The address behind the next word if the condition holds, and that of the next word otherwise. -/
def SkipsIf (m : Machine) (condition : Prop) (target : Int) : Prop :=
  (condition ∧ target = m.pc + 4) ∨ (¬condition ∧ target = m.pc + 2)

/-- **The address that an instruction leads to**, before it is brought back into memory. -/
def LeadsTo (m : Machine) (ins : Instruction) (target : Int) : Prop :=
  match ins.op with
  | .jump | .call => target = ins.nnn
  | .jumpOffset => ∃ r : Register, r.val = ins.nnn / 0x100 ∧ target = ins.nnn + m.registers.value r
  | .ret => ∃ address rest, m.stack = address :: rest ∧ target = address + 2
  | .invalid => target = m.pc
  | .skipEqByte => m.SkipsIf (m.registers.value ins.x = ins.kk) target
  | .skipNeByte => m.SkipsIf (m.registers.value ins.x ≠ ins.kk) target
  | .skipEqReg => m.SkipsIf (m.registers.value ins.x = m.registers.value ins.y) target
  | .skipNeReg => m.SkipsIf (m.registers.value ins.x ≠ m.registers.value ins.y) target
  | .skipPressed => m.SkipsIf (m.HoldsKey ins.x) target
  | .skipReleased => m.SkipsIf (¬m.HoldsKey ins.x) target
  | _ => target = m.pc + 2

/-! ## Operations -/

/-- The operations that look at keys ask for the key with the low digit of the register. -/
theorem holdsKeyOf_iff (m : Machine) (r : Register) : m.holdsKeyOf r = true ↔ m.HoldsKey r := by
  have hdigit : ((hexDigit (m.registers.value r) 0).val : Int) = m.registers.value r % 16 := by
    rw [val_hexDigit, Int.shiftRight_eq_div_pow]
    omega
  constructor
  · intro h
    refine ⟨hexDigit (m.registers.value r) 0, ?_, hdigit⟩
    exact List.mem_filter.mpr ⟨List.mem_finRange _, h⟩
  · rintro ⟨key, hkey, hval⟩
    obtain rfl : key = hexDigit (m.registers.value r) 0 := Fin.ext (by omega)
    exact (List.mem_filter.mp hkey).2

theorem skipsIf_skipIf (h : c = true ↔ condition) : m.SkipsIf condition (m.skipIf c).pc := by
  cases c with
  | true => exact .inl ⟨h.mp rfl, rfl⟩
  | false => exact .inr ⟨fun hcondition => Bool.false_ne_true (h.mpr hcondition), rfl⟩

/-- The register that is added to the address of a jump is named by the top digit of that address. -/
theorem val_x_eq (ins : Instruction) : ins.x.val = ins.nnn / 0x100 := by
  have hx := val_hexDigit ins.word 2
  rw [Int.shiftRight_eq_div_pow] at hx
  unfold Instruction.x Instruction.nnn
  omega

/-- **Every operation sets the program counter to the address that its instruction leads to.** -/
theorem leadsTo_effect (h : effect ins.op ins m = .ok (m', notes)) : m.LeadsTo ins m'.pc := by
  unfold LeadsTo
  generalize ins.op = op at h
  cases op
  case ret =>
    obtain ⟨address, rest, hstack, rfl, -⟩ := effect_ret h
    exact ⟨address, rest, hstack, rfl⟩
  case call =>
    obtain ⟨-, rfl, -⟩ := effect_call h
    rfl
  case storeRegisters | loadRegisters =>
    simp only [effect_storeRegisters, effect_loadRegisters] at h
    cases h
    rfl
  all_goals cases h
  case jumpOffset => exact ⟨ins.x, val_x_eq ins, rfl⟩
  case skipEqByte => exact skipsIf_skipIf beq_iff_eq
  case skipNeByte => exact skipsIf_skipIf bne_iff_ne
  case skipEqReg => exact skipsIf_skipIf beq_iff_eq
  case skipNeReg => exact skipsIf_skipIf bne_iff_ne
  case skipPressed => exact skipsIf_skipIf (m.holdsKeyOf_iff ins.x)
  case skipReleased =>
    apply skipsIf_skipIf
    rw [Bool.not_eq_true', Bool.eq_false_iff, ne_eq, holdsKeyOf_iff]
  all_goals rfl

/-! ## Steps -/

/-- An instruction that does not fault leads to its address, brought back into memory. -/
theorem leadsTo_execute (h : m.execute ins = .ok (m', notes)) :
    ∃ target, m.LeadsTo ins target ∧ m'.pc = target % 0x1000 := by
  obtain ⟨n, hn, rfl⟩ := execute_eq_ok h
  exact ⟨n.pc, leadsTo_effect hn, rfl⟩

/-- A step that executes an instruction leads where the instruction leads; the tick before it makes no difference. -/
theorem leadsTo_step (hw : m.keyWait = .running) (hf : m.step.fault = none) :
    ∃ target, m.LeadsTo m.fetch target ∧ m.step.machine.pc = target % 0x1000 := by
  have hc := m.stepCase
  generalize m.step = outcome at hf hc
  cases hc with
  | stored r k hp => rw [hw] at hp; cases hp
  | waited r hp => rw [hw] at hp; cases hp
  | faulted fault _ _ => cases hf
  | executed m' notes _ hx => exact leadsTo_execute (m := m.tick) hx

/-- A step that stores a key or waits for one stays where it is. -/
theorem pc_step_of_not_running (hw : m.keyWait ≠ .running) : m.step.machine.pc = m.pc := by
  have hc := m.stepCase
  generalize m.step = outcome at hc
  cases hc with
  | stored r k _ => rfl
  | waited r _ => rfl
  | executed m' notes hr _ => exact absurd hr hw
  | faulted fault hr _ => exact absurd hr hw

/-! ## Skips that exclude each other -/

/-- Both words can be executed; the first one skips if the condition holds, and the second one if it does not. -/
def SkipApart (m : Machine) (condition : Prop) (word word' : Int) : Prop :=
  ∃ n n', m.execute (.decode word) = .ok (n, []) ∧ m.execute (.decode word') = .ok (n', []) ∧
    (condition → n.pc = (m.pc + 4) % 0x1000 ∧ n'.pc = (m.pc + 2) % 0x1000) ∧
    (¬condition → n.pc = (m.pc + 2) % 0x1000 ∧ n'.pc = (m.pc + 4) % 0x1000)

theorem skipApart_of_effect {word word' : Int} (hc : c = true ↔ condition)
    (h : effect (Instruction.decode word).op (.decode word) m = quietly (m.skipIf c))
    (h' : effect (Instruction.decode word').op (.decode word') m = quietly (m.skipIf !c)) :
    m.SkipApart condition word word' := by
  refine ⟨_, _, execute_of_effect h, execute_of_effect h', fun hcondition => ?_, fun hcondition => ?_⟩
  · rw [hc.mpr hcondition]
    exact ⟨rfl, rfl⟩
  · obtain rfl : c = false := Bool.eq_false_iff.mpr fun htrue => hcondition (hc.mp htrue)
    exact ⟨rfl, rfl⟩

/-- The skips on a register and a byte. -/
theorem skipApart_byte (m : Machine) (x : Register) {kk : Nat} (hkk : kk < 0x100) :
    m.SkipApart (m.registers.value x = kk) (0x3000 + 0x100 * x.val + kk) (0x4000 + 0x100 * x.val + kk) := by
  have hword : (0x3000 + 0x100 * x.val + kk : Int) = 0x3 * 0x1000 + x.val * 0x100 + kk := by omega
  have hword' : (0x4000 + 0x100 * x.val + kk : Int) = 0x4 * 0x1000 + x.val * 0x100 + kk := by omega
  obtain ⟨⟨_, _, hop⟩, hx, hk⟩ := decode_word_byte 0x3 x hkk hword
  obtain ⟨⟨_, _, hop'⟩, hx', hk'⟩ := decode_word_byte 0x4 x hkk hword'
  refine skipApart_of_effect beq_iff_eq ?_ ?_
  · rw [hop]
    show quietly (m.skipIf (m.registers.value (Instruction.decode _).x == (Instruction.decode _).kk)) = _
    rw [hx, hk]
  · rw [hop']
    show quietly (m.skipIf (m.registers.value (Instruction.decode _).x != (Instruction.decode _).kk)) = _
    rw [hx', hk', bne]

/-- The skips on two registers. -/
theorem skipApart_register (m : Machine) (x y : Register) : m.SkipApart (m.registers.value x = m.registers.value y)
    (0x5000 + 0x100 * x.val + 0x10 * y.val) (0x9000 + 0x100 * x.val + 0x10 * y.val) := by
  have hword : (0x5000 + 0x100 * x.val + 0x10 * y.val : Int) = 0x5 * 0x1000 + x.val * 0x100 + y.val * 0x10 + 0 := by
    omega
  have hword' : (0x9000 + 0x100 * x.val + 0x10 * y.val : Int) = 0x9 * 0x1000 + x.val * 0x100 + y.val * 0x10 + 0 := by
    omega
  obtain ⟨hop, hx, hy, -⟩ := decode_word 0x5 x y 0 hword
  obtain ⟨hop', hx', hy', -⟩ := decode_word 0x9 x y 0 hword'
  refine skipApart_of_effect beq_iff_eq ?_ ?_
  · rw [hop]
    show quietly (m.skipIf
      (m.registers.value (Instruction.decode _).x == m.registers.value (Instruction.decode _).y)) = _
    rw [hx, hy]
  · rw [hop']
    show quietly (m.skipIf
      (m.registers.value (Instruction.decode _).x != m.registers.value (Instruction.decode _).y)) = _
    rw [hx', hy', bne]

/-- The skips on a key. -/
theorem skipApart_key (m : Machine) (x : Register) :
    m.SkipApart (m.HoldsKey x) (0xE09E + 0x100 * x.val) (0xE0A1 + 0x100 * x.val) := by
  have hword : (0xE09E + 0x100 * x.val : Int) = 0xE * 0x1000 + x.val * 0x100 + 0x9 * 0x10 + 0xE := by omega
  have hword' : (0xE0A1 + 0x100 * x.val : Int) = 0xE * 0x1000 + x.val * 0x100 + 0xA * 0x10 + 0x1 := by omega
  obtain ⟨hop, hx, -⟩ := decode_word 0xE x 0x9 0xE hword
  obtain ⟨hop', hx', -⟩ := decode_word 0xE x 0xA 0x1 hword'
  refine skipApart_of_effect (m.holdsKeyOf_iff x) ?_ ?_
  · rw [hop]
    show quietly (m.skipIf (m.holdsKeyOf (Instruction.decode _).x)) = _
    rw [hx]
  · rw [hop']
    show quietly (m.skipIf (!m.holdsKeyOf (Instruction.decode _).x)) = _
    rw [hx']

end Machine

/-- **The program counter** after each kind of step, modulo the size of memory; of two skips on the same operands one
skips and the other does not. -/
theorem pc_law (e : Emulator) :
    (e.machine.keyWait = .running → ∀ redraw, e.step.1 = .ok redraw →
      ∃ target, e.machine.LeadsTo e.machine.fetch target ∧ e.step.2.machine.pc = target % 0x1000 ∧
        0 ≤ e.step.2.machine.pc ∧ e.step.2.machine.pc ≤ 0xFFF) ∧
    (e.machine.keyWait ≠ .running → e.step.2.machine.pc = e.machine.pc) ∧
    ∀ (m : Machine) (x y : Register) (kk : Nat), kk < 0x100 →
      m.SkipApart (m.registers.value x = kk) (0x3000 + 0x100 * x.val + kk) (0x4000 + 0x100 * x.val + kk) ∧
      m.SkipApart (m.registers.value x = m.registers.value y)
        (0x5000 + 0x100 * x.val + 0x10 * y.val) (0x9000 + 0x100 * x.val + 0x10 * y.val) ∧
      m.SkipApart (m.HoldsKey x) (0xE09E + 0x100 * x.val) (0xE0A1 + 0x100 * x.val) := by
  rw [Emulator.machine_step]
  refine ⟨fun hw redraw hs => ?_, Machine.pc_step_of_not_running, fun m x y kk hkk => ?_⟩
  · have hfault : e.machine.step.fault = none := by
      rw [Emulator.step_answer] at hs
      cases hf : e.machine.step.fault with
      | none => rfl
      | some fault => rw [hf] at hs; cases hs
    obtain ⟨target, hleads, hpc⟩ := Machine.leadsTo_step hw hfault
    exact ⟨target, hleads, hpc, by omega, by omega⟩
  · exact ⟨m.skipApart_byte x hkk, m.skipApart_register x y, m.skipApart_key x⟩

/-- A jump with an offset to 0x345 adds register 3, which its own address names; and of the skips on this register and
the byte 255 one skips. -/
theorem pc_law_offset : ∃ e : Emulator, Emulator.start .vast [0xB3, 0x45] 8 4 (.cycle []) false = .ok e ∧
    e.step.2.machine.pc = (0x345 + e.machine.registers.value ⟨3, by decide⟩) % 0x1000 ∧
    e.machine.SkipApart (e.machine.registers.value ⟨3, by decide⟩ = 255) 0x33FF 0x43FF := by
  obtain ⟨e, h⟩ := Emulator.exists_start .vast [0xB3, 0x45] 8 4 (.cycle []) false
    (by decide) (by decide) (by decide) (by decide)
  obtain ⟨_, _, he⟩ := Emulator.start_eq h
  have hfetch : e.machine.fetch = .decode 0xB345 := by rw [he]; exact Emulator.fetch_boot ..
  have hrunning : e.machine.keyWait = .running := by rw [he]; rfl
  obtain ⟨n, hn⟩ : ∃ n, e.machine.tick.execute e.machine.fetch = .ok (n, []) := by
    rw [hfetch]
    exact ⟨_, rfl⟩
  have hanswer : e.step.1 = .ok n.redraw := by
    rw [Emulator.step_answer, (Machine.executed?_of_execute hrunning hn).2]
  obtain ⟨hsteps, -, hskips⟩ := pc_law e
  obtain ⟨target, hleads, hpc, -, -⟩ := hsteps hrunning n.redraw hanswer
  refine ⟨e, h, ?_, (hskips e.machine ⟨3, by decide⟩ ⟨0, by decide⟩ 255 (by decide)).1⟩
  rw [hfetch] at hleads
  obtain ⟨r, hr, rfl⟩ : ∃ r : Register, r.val = 3 ∧ target = 0x345 + e.machine.registers.value r := hleads
  obtain rfl : r = ⟨3, by decide⟩ := Fin.ext hr
  exact hpc

end ChipEight
