import Mathlib.Algebra.Ring.Nat
import ChipEight.Machine.Readings
import ChipEight.Proofs.Events
import ChipEight.Proofs.Execution

/-!
# The ranges of registers, timers and addresses

- `Machine.InRange` says that registers and timers are bytes, the index has sixteen bits, and the stack holds at most
  sixteen addresses of memory; every operation keeps it (`effect_inRange`).
- `Machine.Good` says in addition that the program counter is an address. It is kept by steps and keys (`good_kept`)
  and so holds in every reachable emulator (`Reachable.good`); a good machine is consistent (`Good.consistent`).
- `performAll_good` is the main statement: whatever a host does, the machine stays good, keeps the size of its screen
  and never counts cycles back.
-/

namespace ChipEight

variable {op : Op} {ins : Instruction} {m m' : Machine} {notes : List Note} {a b value : Int}

/-! ## Bytes, words and addresses -/

/-- A number of eight bits. -/
def IsByte (value : Int) : Prop := 0 ≤ value ∧ value ≤ 0xFF
  deriving Decidable

/-- A number of sixteen bits. -/
def IsWord (value : Int) : Prop := 0 ≤ value ∧ value ≤ 0xFFFF
  deriving Decidable

/-- The address of a byte of memory. -/
def IsAddress (value : Int) : Prop := 0 ≤ value ∧ value ≤ 0xFFF

theorem isByte_emod (value : Int) : IsByte (value % 0x100) := by
  unfold IsByte
  omega

theorem isByte_toNat (byte : UInt8) : IsByte byte.toNat := by
  have := byte.toNat_lt
  unfold IsByte
  omega

theorem isByte_bitOf (bit : Bool) : IsByte (bitOf bit) := by
  cases bit <;> decide

theorem isByte_kk (ins : Instruction) : IsByte ins.kk := by
  unfold IsByte Instruction.kk
  omega

/-- A byte as a natural number below 2 to the 8. -/
theorem IsByte.exists_nat (h : IsByte a) : ∃ n : Nat, a = n ∧ n < 2 ^ 8 :=
  ⟨a.toNat, by unfold IsByte at h; omega, by unfold IsByte at h; omega⟩

theorem isByte_of_lt {n : Nat} (h : n < 2 ^ 8) : IsByte n := by
  unfold IsByte
  omega

theorem isByte_or (ha : IsByte a) (hb : IsByte b) : IsByte (Bitwise.or a b) := by
  obtain ⟨k, rfl, hk⟩ := ha.exists_nat
  obtain ⟨n, rfl, hn⟩ := hb.exists_nat
  rw [Bitwise.or_ofNat]
  exact isByte_of_lt (Nat.or_lt_two_pow hk hn)

theorem isByte_and (ha : IsByte a) (hb : IsByte b) : IsByte (Bitwise.and a b) := by
  obtain ⟨k, rfl, -⟩ := ha.exists_nat
  obtain ⟨n, rfl, hn⟩ := hb.exists_nat
  rw [Bitwise.and_ofNat]
  exact isByte_of_lt (Nat.and_lt_two_pow k hn)

theorem isByte_xor (ha : IsByte a) (hb : IsByte b) : IsByte (Bitwise.xor a b) := by
  obtain ⟨k, rfl, hk⟩ := ha.exists_nat
  obtain ⟨n, rfl, hn⟩ := hb.exists_nat
  rw [Bitwise.xor_ofNat]
  exact isByte_of_lt (Nat.xor_lt_two_pow hk hn)

/-- A timer that is not negative goes down to zero and stays there. -/
theorem countDown_eq_max (h : IsByte a) : Machine.countDown a = max 0 (a - 1) := by
  unfold IsByte at h
  unfold Machine.countDown
  split <;> omega

theorem isByte_countDown (h : IsByte a) : IsByte (Machine.countDown a) := by
  unfold IsByte Machine.countDown at *
  split <;> omega

/-! ## Machines in range -/

/-- All numbers of the machine are in range, its program counter aside. -/
structure Machine.InRange (m : Machine) : Prop where
  register : ∀ r : Register, IsByte (m.registers.value r)
  delay : IsByte m.delay
  sound : IsByte m.sound
  index : IsWord m.index
  frame : ∀ address ∈ m.stack, IsAddress address
  depth : m.stack.length ≤ stackDepth

/-- All numbers of the machine are in range. -/
structure Machine.Good (m : Machine) : Prop extends m.InRange where
  pc : IsAddress m.pc

namespace Machine.InRange

/-- The program counter has no part in this. -/
theorem pc (h : m.InRange) (pc : Int) : InRange { m with pc } :=
  ⟨h.register, h.delay, h.sound, h.index, h.frame, h.depth⟩

theorem advance (h : m.InRange) : m.advance.InRange := h.pc _

theorem skipIf (h : m.InRange) (condition : Bool) : (m.skipIf condition).InRange := h.pc _

theorem setRegister (h : m.InRange) (r : Register) (hv : IsByte value) : (m.setRegister r value).InRange where
  register s := by
    rw [Machine.setRegister, Registers.value_put]
    split
    · exact hv
    · exact h.register s
  delay := h.delay
  sound := h.sound
  index := h.index
  frame := h.frame
  depth := h.depth

theorem setWithFlag (h : m.InRange) (r : Register) (ha : IsByte a) (hb : IsByte b) :
    (m.setWithFlag r a b).InRange :=
  (h.setRegister r ha).setRegister flag hb

theorem setRegisters (h : m.InRange) {registers : Registers} (hr : ∀ r : Register, IsByte (registers.value r)) :
    InRange { m with registers } :=
  ⟨hr, h.delay, h.sound, h.index, h.frame, h.depth⟩

theorem setIndex (h : m.InRange) (hv : IsWord value) : InRange { m with index := value } :=
  ⟨h.register, h.delay, h.sound, hv, h.frame, h.depth⟩

theorem screen (h : m.InRange) (screen : Screen) (redraw : Bool) : InRange { m with screen, redraw } :=
  ⟨h.register, h.delay, h.sound, h.index, h.frame, h.depth⟩

theorem store (h : m.InRange) (writes : List (Int × Int)) : (m.store writes).1.InRange :=
  ⟨h.register, h.delay, h.sound, h.index, h.frame, h.depth⟩

theorem indexBehind (m : Machine) (r : Register) : IsWord (m.indexBehind r) := by
  unfold IsWord Machine.indexBehind
  omega

theorem loadedRegisters (h : m.InRange) (r s : Register) : IsByte ((m.loadedRegisters r).value s) := by
  rw [Machine.value_loadedRegisters]
  split
  · exact isByte_toNat _
  · exact h.register s

end Machine.InRange

/-- **Every operation keeps a good machine in range**; the program counter may leave memory until it is brought back. -/
theorem effect_inRange (h : m.Good) (he : effect op ins m = .ok (m', notes)) : m'.InRange := by
  have hm := h.toInRange
  have hx := h.register ins.x
  have hy := h.register ins.y
  cases op
  case ret =>
    obtain ⟨address, rest, hs, rfl, _⟩ := effect_ret he
    have hd := h.depth
    rw [hs, List.length_cons] at hd
    exact ⟨h.register, h.delay, h.sound, h.index,
      fun a ha => h.frame a (hs ▸ List.mem_cons_of_mem _ ha), by show rest.length ≤ _; omega⟩
  case call =>
    obtain ⟨hd, rfl, _⟩ := effect_call he
    refine ⟨h.register, h.delay, h.sound, h.index, fun a ha => ?_, hd⟩
    rcases List.mem_cons.mp ha with rfl | ha
    · exact h.pc
    · exact h.frame a ha
  case storeRegisters =>
    rw [effect_storeRegisters] at he
    cases he
    exact ((hm.store _).setIndex (Machine.InRange.indexBehind m ins.x)).advance
  case loadRegisters =>
    rw [effect_loadRegisters] at he
    cases he
    exact ((hm.setRegisters (hm.loadedRegisters ins.x)).setIndex (Machine.InRange.indexBehind m ins.x)).advance
  all_goals cases he
  case clear => exact (hm.screen _ true).advance
  case draw => exact ((hm.screen _ true).setRegister flag (isByte_bitOf _)).advance
  case jump | jumpOffset => exact hm.pc _
  case skipEqByte | skipNeByte | skipEqReg | skipNeReg | skipPressed | skipReleased => exact hm.skipIf _
  case loadByte => exact (hm.setRegister _ (isByte_kk ins)).advance
  case addByte => exact (hm.setRegister _ (isByte_emod _)).advance
  case copy => exact (hm.setRegister _ hy).advance
  case or => exact (hm.setWithFlag _ (isByte_or hx hy) (by decide)).advance
  case and => exact (hm.setWithFlag _ (isByte_and hx hy) (by decide)).advance
  case xor => exact (hm.setWithFlag _ (isByte_xor hx hy) (by decide)).advance
  case add | sub | subFrom => exact (hm.setWithFlag _ (isByte_emod _) (isByte_bitOf _)).advance
  case shiftRight =>
    have hb : IsByte (m.registers.value ins.x / 2) := by unfold IsByte at *; omega
    exact (hm.setWithFlag _ hb (by unfold IsByte; omega)).advance
  case shiftLeft => exact (hm.setWithFlag _ (isByte_emod _) (by unfold IsByte; omega)).advance
  case random =>
    have hr : Machine.InRange { m with random := m.random.next.2 } :=
      ⟨h.register, h.delay, h.sound, h.index, h.frame, h.depth⟩
    exact (hr.setRegister _ (isByte_and (isByte_toNat _) (isByte_kk ins))).advance
  case loadIndex =>
    have hi : IsWord ins.nnn := by unfold IsWord Instruction.nnn; omega
    exact (hm.setIndex hi).advance
  case addIndex =>
    have hi : IsWord ((m.index + m.registers.value ins.x) % 0x10000) := by unfold IsWord; omega
    exact (hm.setIndex hi).advance
  case pointGlyph =>
    have hi : IsWord (m.registers.value ins.x * glyphSize) := by unfold IsWord IsByte glyphSize at *; omega
    exact (hm.setIndex hi).advance
  case storeDecimal => exact (hm.store _).advance
  case readDelay => exact (hm.setRegister _ h.delay).advance
  case setDelay => exact ⟨h.register, hx, h.sound, h.index, h.frame, h.depth⟩
  case setSound => exact ⟨h.register, h.delay, hx, h.index, h.frame, h.depth⟩
  case awaitKey => exact ⟨h.register, h.delay, h.sound, h.index, h.frame, h.depth⟩
  case invalid => exact hm

/-! ## Good machines -/

namespace Machine

/-- An instruction keeps a machine good. -/
theorem execute_good (h : m.Good) (he : m.execute ins = .ok (m', notes)) : m'.Good := by
  obtain ⟨n, hn, rfl⟩ := execute_eq_ok he
  have hr := effect_inRange h hn
  have hp : IsAddress (n.pc % memorySize) := by unfold IsAddress memorySize; omega
  exact ⟨⟨hr.register, hr.delay, hr.sound, hr.index, hr.frame, hr.depth⟩, hp⟩

theorem tick_good (h : m.Good) : m.tick.Good :=
  ⟨⟨h.register, isByte_countDown h.delay, isByte_countDown h.sound, h.index, h.frame, h.depth⟩, h.pc⟩

theorem stored_good (h : m.Good) (r : Register) (k : Key) :
    Good { m.setRegister r k.val with keyWait := .running } :=
  have hr := h.toInRange.setRegister r (isByte_of_lt (Nat.lt_trans k.isLt (by decide)))
  ⟨⟨hr.register, hr.delay, hr.sound, hr.index, hr.frame, hr.depth⟩, h.pc⟩

/-- The keys have no part in this. -/
theorem Good.keys (h : m.Good) (keys : Vector Bool keyCount) (keyWait : KeyWait) : Good { m with keys, keyWait } :=
  ⟨⟨h.register, h.delay, h.sound, h.index, h.frame, h.depth⟩, h.pc⟩

/-- A machine is good as it is switched on. -/
theorem boot_good (program : List UInt8) (screen : Screen) (random : RandomSource) :
    (boot program screen random).Good where
  register r := by simp [boot, Registers.value, IsByte]
  delay := by simp [boot, IsByte]
  sound := by simp [boot, IsByte]
  index := by simp [boot, IsWord]
  frame := by simp [boot]
  depth := by simp [boot]
  pc := by simp [boot, programStart, IsAddress]

/-- Steps and keys keep machines good. -/
theorem good_kept : Kept Good :=
  .of_cases (fun _ h => tick_good h) (fun _ _ _ _ h he => execute_good h he) (fun _ r k h => stored_good h r k)
    fun _ keys keyWait h => h.keys keys keyWait

/-- A good machine passes the check of its numbers. -/
theorem Good.consistent (h : m.Good) : m.consistent = true := by
  have hregs : (m.registers.toList.map some).all isByte = true := by
    rw [List.all_map, List.all_eq_true]
    intro value hv
    obtain ⟨k, hk, rfl⟩ := List.getElem_of_mem hv
    rw [Vector.length_toList] at hk
    have := h.register ⟨k, hk⟩
    simpa [isByte, Registers.value, IsByte] using this
  have hp : m.pc < 4096 := by have := h.pc.2; omega
  simp only [Machine.consistent, Readings.consistent, readings, List.all_append, hregs]
  simp [isByte, m.screen.size_eq, m.screen.width_pos, m.screen.height_pos, memorySize, h.depth]
  exact ⟨⟨⟨h.delay, h.sound⟩, decide_eq_true h.index.1, decide_eq_true h.index.2⟩, decide_eq_true h.pc.1,
    decide_eq_true hp⟩

end Machine

/-- Every reachable emulator has a good machine. -/
theorem Emulator.Reachable.good {e : Emulator} (h : e.Reachable) : e.machine.Good :=
  Machine.good_kept.reachable Machine.boot_good h

/-! ## Whatever a host does -/

/-- The count of cycles never goes back. -/
theorem Machine.cycles_kept (cycles : Int) : Kept fun m => cycles ≤ m.cycles := by
  refine .of_cases (fun _ h => h) (fun m m' ins notes h he => ?_) (fun _ _ _ h => h) (fun _ _ _ h => h)
  obtain ⟨n, hn, rfl⟩ := execute_eq_ok he
  have hf := (effect_frame hn).cycles
  show cycles ≤ if ins.valid then n.cycles + 1 else n.cycles
  split <;> omega

/-- The size of the screen never changes. -/
theorem Machine.size_kept (width height : Nat) :
    Kept fun m => m.screen.width = width ∧ m.screen.height = height := by
  refine .of_cases (fun _ h => h) (fun m m' ins notes h he => ?_) (fun _ _ _ h => h) (fun _ _ _ h => h)
  obtain ⟨n, hn, rfl⟩ := execute_eq_ok he
  have hf := effect_frame hn
  exact ⟨hf.width.trans h.1, hf.height.trans h.2⟩

/-- The numbers of registers and keys that a wait mentions. -/
def KeyWait.numbers : KeyWait → List Nat
  | .running => []
  | .awaiting register => [register.val]
  | .pending register key => [register.val, key.val]

theorem KeyWait.numbers_le (w : KeyWait) : ∀ n ∈ w.numbers, n ≤ 15 := by
  intro n hn
  cases w with
  | running => cases hn
  | awaiting r =>
    rcases List.mem_singleton.mp hn with rfl
    exact Nat.le_of_lt_succ r.isLt
  | pending r k =>
    simp only [numbers, List.mem_cons, List.not_mem_nil, or_false] at hn
    rcases hn with rfl | rfl
    · exact Nat.le_of_lt_succ r.isLt
    · exact Nat.le_of_lt_succ k.isLt

/-- **Whatever a host does, the machine stays good**, faults included, its screen keeps the size that was asked for, and
no control takes back a cycle. -/
theorem performAll_good {platform : Platform} {program : List UInt8} {width height : Int} {random : RandomSource}
    {tracing : Bool} {e : Emulator} (h : Emulator.start platform program width height random tracing = .ok e)
    (controls : List Control) :
    let m := (e.performAll controls).machine
    m.consistent = true ∧ (∀ address ∈ m.stack, 0 ≤ address ∧ address ≤ 0xFFF) ∧
      (∀ n ∈ m.keyWait.numbers, n ≤ 15) ∧ (∀ address : Int, (m.memory.read address).toNat ≤ 255) ∧
      m.screen.width = width ∧ m.screen.height = height ∧
      ∀ control, m.cycles ≤ ((e.performAll controls).perform control).2.machine.cycles := by
  intro m
  obtain ⟨hw, hh, rfl⟩ := Emulator.start_eq h
  have hgood : m.Good := by
    refine Machine.good_kept.emulator.performAll ?_ controls
    exact Machine.boot_good ..
  have hsize : m.screen.width = width.toNat ∧ m.screen.height = height.toNat := by
    refine (Machine.size_kept width.toNat height.toNat).emulator.performAll ?_ controls
    exact ⟨rfl, rfl⟩
  refine ⟨hgood.consistent, hgood.frame, m.keyWait.numbers_le, fun address => ?_, by omega, by omega, ?_⟩
  · exact Nat.le_of_lt_succ (m.memory.read address).toNat_lt
  · exact fun control => (Machine.cycles_kept m.cycles).emulator.perform (Int.le_refl _) control

/-- A program that faults, on a screen of six cells, under controls with numbers out of range. -/
theorem performAll_good_underflow : ∃ e : Emulator, Emulator.start .vast [0x00, 0xEE] 3 2 (.cycle [7]) true = .ok e ∧
    (e.performAll [.step, .keyDown 99, .run 5, .feed 4 [1, -7], .keyUp 3]).machine.consistent = true := by
  obtain ⟨e, h⟩ := Emulator.exists_start .vast [0x00, 0xEE] 3 2 (.cycle [7]) true
    (by decide) (by decide) (by decide) (by decide)
  exact ⟨e, h, (performAll_good h _).1⟩

end ChipEight
