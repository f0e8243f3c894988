import ChipEight.Proofs.MemoryRing
import ChipEight.Proofs.Range

/-!
# What an instruction can change

A machine is made of `Part`s, a program counter and a count of cycles. For every instruction there is a list of the
parts that it may change, its footprint; all others are the same afterwards.

- `Machine.eq_of_same`: the parts, the program counter and the count of cycles are all that there is of a machine;
- `Instruction.footprint`: the parts that an instruction may change;
- `effect_byte`, `effect_register` and `effect_same`: an operation changes no byte, no register and no other part
  outside of its footprint;
- `execute_footprint`: the main statement, for every reachable machine and every word.
-/

namespace ChipEight

variable {ins : Instruction} {m m' : Machine} {notes : List Note} {r : Register}

/-! ## Parts -/

/-- A part of a machine; the program counter and the count of cycles are none. -/
inductive Part where
  | byte (place : Fin memorySize)
  | register (r : Register)
  | index
  | delay
  | sound
  | stack
  | keys
  | width
  | height
  | cells
  | redraw
  | keyWait
  | random
  deriving DecidableEq

/-- Two machines have the same part. -/
def Part.Same (m m' : Machine) : Part → Prop
  | byte place => m'.memory.read place.val = m.memory.read place.val
  | register r => m'.registers.value r = m.registers.value r
  | index => m'.index = m.index
  | delay => m'.delay = m.delay
  | sound => m'.sound = m.sound
  | stack => m'.stack = m.stack
  | keys => m'.keys = m.keys
  | width => m'.screen.width = m.screen.width
  | height => m'.screen.height = m.screen.height
  | cells => m'.screen.cells = m.screen.cells
  | redraw => m'.redraw = m.redraw
  | keyWait => m'.keyWait = m.keyWait
  | random => m'.random = m.random

/-- **A machine is its parts, its program counter and its count of cycles.** -/
theorem Machine.eq_of_same (h : ∀ part : Part, part.Same m m') (hpc : m'.pc = m.pc) (hcycles : m'.cycles = m.cycles) :
    m' = m := by
  have hmemory : m'.memory = m.memory := by
    apply Vector.ext
    intro k hk
    have hbyte := h (.byte ⟨k, hk⟩)
    have hcell : cell k = ⟨k, hk⟩ := cell_val ⟨k, hk⟩
    simpa [Part.Same, Memory.read, hcell] using hbyte
  have hregisters : m'.registers = m.registers := by
    apply Vector.ext
    intro k hk
    exact h (.register ⟨k, hk⟩)
  have hscreen : m'.screen = m.screen := Screen.ext (h .width) (h .height) (h .cells)
  cases m'
  cases m
  simp only [Machine.mk.injEq]
  exact ⟨hmemory, hregisters, h .index, h .delay, h .sound, hpc, h .stack, h .keys, hscreen, h .redraw, h .keyWait,
    h .random, hcycles⟩

/-! ## Footprints -/

/-- The bytes at the given number of addresses from the index on. -/
def Machine.bytesAtIndex (m : Machine) (count : Nat) : List Part :=
  (List.range count).map fun (k : Nat) => .byte (cell (m.index + k))

/-- The registers up to the given one. -/
def Register.upTo (r : Register) : List Part :=
  ((List.finRange registerCount).filter (· ≤ r)).map .register

/-- **The parts that an instruction may change.** -/
def Instruction.footprint (ins : Instruction) (m : Machine) : List Part :=
  match ins.op with
  | .clear => [.cells, .redraw]
  | .ret | .call => [.stack]
  | .jump | .jumpOffset => []
  | .skipEqByte | .skipNeByte | .skipEqReg | .skipNeReg | .skipPressed | .skipReleased => []
  | .loadByte | .addByte | .copy | .readDelay => [.register ins.x]
  | .or | .and | .xor | .add | .sub | .shiftRight | .subFrom | .shiftLeft => [.register ins.x, .register flag]
  | .random => [.register ins.x, .random]
  | .loadIndex | .addIndex | .pointGlyph => [.index]
  | .storeDecimal => m.bytesAtIndex 3
  | .storeRegisters => .index :: m.bytesAtIndex (ins.x.val + 1)
  | .loadRegisters => .index :: Register.upTo ins.x
  | .setDelay => [.delay]
  | .setSound => [.sound]
  | .awaitKey => [.keyWait]
  | .draw => [.cells, .redraw, .register flag]
  | .invalid => []

theorem mem_bytesAtIndex {place : Fin memorySize} {count : Nat} :
    .byte place ∈ m.bytesAtIndex count ↔ ∃ k < count, cell (m.index + k) = place := by
  simp only [Machine.bytesAtIndex, List.mem_map, List.mem_range, Part.byte.injEq]

theorem mem_upTo {s : Register} : .register s ∈ Register.upTo r ↔ s ≤ r := by
  simp [Register.upTo]

/-- No instruction changes the keys or the size of the screen. -/
theorem Instruction.notMem_footprint (ins : Instruction) (m : Machine) :
    .keys ∉ ins.footprint m ∧ .width ∉ ins.footprint m ∧ .height ∉ ins.footprint m := by
  unfold footprint
  split <;> simp [Machine.bytesAtIndex, Register.upTo]

/-! ## Bytes -/

/-- The digits of a number go to the index and the two addresses behind it. -/
theorem address_of_mem_decimalWrites {write : Int × Int} (h : write ∈ m.decimalWrites r) :
    ∃ k < 3, write.1 = m.index + (k : Nat) := by
  simp only [Machine.decimalWrites, List.mem_cons, List.not_mem_nil, or_false] at h
  rcases h with rfl | rfl | rfl
  · exact ⟨0, by decide, (Int.add_zero _).symm⟩
  · exact ⟨1, by decide, rfl⟩
  · exact ⟨2, by decide, rfl⟩

/-- The registers up to one go to as many addresses from the index on. -/
theorem address_of_mem_registerWrites {write : Int × Int} (h : write ∈ m.registerWrites r) :
    ∃ k < r.val + 1, write.1 = m.index + (k : Nat) := by
  obtain ⟨⟨value, k⟩, hmem, rfl⟩ := List.mem_map.mp h
  have hk := List.snd_lt_of_mem_zipIdx hmem
  rw [length_registersUpTo] at hk
  exact ⟨k, hk, rfl⟩

/-- An operation changes no byte outside of its footprint. -/
theorem effect_byte (h : effect ins.op ins m = .ok (m', notes)) {place : Fin memorySize}
    (hp : .byte place ∉ ins.footprint m) : m'.memory.read place.val = m.memory.read place.val := by
  have hout {count : Nat} (hcount : .byte place ∉ m.bytesAtIndex count) {writes : List (Int × Int)}
      (haddress : ∀ write ∈ writes, ∃ k < count, write.1 = m.index + (k : Nat)) :
      (m.memory.writeAll writes).read place.val = m.memory.read place.val := by
    refine Memory.read_writeAll _ fun write hw hc => ?_
    obtain ⟨k, hk, ha⟩ := haddress write hw
    rw [cell_val, ha] at hc
    exact absurd (mem_bytesAtIndex.mpr ⟨k, hk, hc.symm⟩) hcount
  by_cases hd : ins.op = .storeDecimal
  · rw [Instruction.footprint, hd] at hp
    rw [hd] at h
    cases h
    exact hout hp fun write hw => address_of_mem_decimalWrites hw
  · by_cases hr : ins.op = .storeRegisters
    · rw [Instruction.footprint, hr] at hp
      rw [hr, effect_storeRegisters] at h
      cases h
      exact hout (fun hmem => hp (List.mem_cons_of_mem _ hmem)) fun write hw => address_of_mem_registerWrites hw
    · rw [(effect_frame h).memory hd hr]

/-! ## Registers -/

/-- An operation changes no register outside of its footprint. -/
theorem effect_register (h : effect ins.op ins m = .ok (m', notes)) (hp : .register r ∉ ins.footprint m) :
    m'.registers.value r = m.registers.value r := by
  unfold Instruction.footprint at hp
  generalize ins.op = op at h hp
  cases op
  case ret =>
    obtain ⟨_, _, _, rfl, _⟩ := effect_ret h
    rfl
  case call =>
    obtain ⟨_, rfl, _⟩ := effect_call h
    rfl
  case storeRegisters =>
    rw [effect_storeRegisters] at h
    cases h
    rfl
  case loadRegisters =>
    rw [effect_loadRegisters] at h
    cases h
    refine (Machine.value_loadedRegisters ..).trans (if_neg fun hle => hp ?_)
    exact List.mem_cons_of_mem _ (mem_upTo.mpr hle)
  all_goals cases h
  case loadByte | addByte | copy | readDelay =>
    exact (value_setRegister ..).trans (if_neg (by simpa using hp))
  case or | and | xor | add | sub | shiftRight | subFrom | shiftLeft =>
    obtain ⟨hx, hf⟩ : r ≠ ins.x ∧ r ≠ flag := by simpa using hp
    exact (value_setWithFlag ..).trans (by rw [if_neg hf, if_neg hx])
  case random =>
    exact (value_setRegister { m with random := m.random.next.2 } ..).trans (if_neg (by simpa using hp))
  case draw =>
    exact (value_setRegister (m.drawSprite _ _ _).1 ..).trans (if_neg (by simpa using hp))
  all_goals rfl

/-! ## All parts -/

/-- **An operation changes nothing outside of its footprint.** -/
theorem effect_same (h : effect ins.op ins m = .ok (m', notes)) {part : Part} (hp : part ∉ ins.footprint m) :
    part.Same m m' := by
  have hframe := effect_frame h
  have hcause {op : Op} (hmem : ins.op = op → part ∈ ins.footprint m) : ins.op ≠ op := fun hop => hp (hmem hop)
  cases part
  case byte place => exact effect_byte h hp
  case register r => exact effect_register h hp
  case keys => exact hframe.keys
  case width => exact hframe.width
  case height => exact hframe.height
  case index =>
    refine hframe.index fun hop => ?_
    simp only [List.mem_cons, List.not_mem_nil, or_false] at hop
    rcases hop with hop | hop | hop | hop | hop <;> exact hcause (by intro hop; simp [Instruction.footprint, hop]) hop
  case delay => exact hframe.delay (hcause fun hop => by simp [Instruction.footprint, hop])
  case sound => exact hframe.sound (hcause fun hop => by simp [Instruction.footprint, hop])
  case stack =>
    exact hframe.stack (hcause fun hop => by simp [Instruction.footprint, hop])
      (hcause fun hop => by simp [Instruction.footprint, hop])
  case cells =>
    exact congrArg Screen.cells (hframe.screen (hcause fun hop => by simp [Instruction.footprint, hop])
      (hcause fun hop => by simp [Instruction.footprint, hop]))
  case redraw =>
    exact hframe.redraw (hcause fun hop => by simp [Instruction.footprint, hop])
      (hcause fun hop => by simp [Instruction.footprint, hop])
  case keyWait => exact hframe.keyWait (hcause fun hop => by simp [Instruction.footprint, hop])
  case random => exact hframe.random (hcause fun hop => by simp [Instruction.footprint, hop])

/-! ## Instructions -/

/-- An instruction changes nothing outside of its footprint but the program counter and the count of cycles. -/
theorem execute_same (h : m.execute ins = .ok (m', notes)) {part : Part} (hp : part ∉ ins.footprint m) :
    part.Same m m' := by
  obtain ⟨n, hn, rfl⟩ := execute_eq_ok h
  have hsame : part.Same m n := effect_same hn hp
  cases part <;> exact hsame

/-- One cycle is counted for a word with a meaning. -/
theorem execute_cycles (h : m.execute ins = .ok (m', notes)) :
    m'.cycles = if ins.valid then m.cycles + 1 else m.cycles := by
  obtain ⟨n, hn, rfl⟩ := execute_eq_ok h
  show (if ins.valid then n.cycles + 1 else n.cycles) = _
  rw [(effect_frame hn).cycles]

/-- One random number is drawn by the operation that asks for one, whatever it does with the number. -/
theorem execute_random (h : m.execute ins = .ok (m', notes)) :
    m'.random = if ins.op = .random then m.random.next.2 else m.random := by
  obtain ⟨n, hn, rfl⟩ := execute_eq_ok h
  show n.random = _
  split
  case isTrue hop =>
    rw [hop] at hn
    cases hn
    rfl
  case isFalse hop => exact (effect_frame hn).random hop

/-- A word without a meaning leaves the program counter where it is. -/
theorem execute_invalid_pc (hpc : IsAddress m.pc) (hop : ins.op = .invalid) (h : m.execute ins = .ok (m', notes)) :
    m'.pc = m.pc := by
  obtain ⟨n, hn, rfl⟩ := execute_eq_ok h
  rw [hop] at hn
  cases hn
  obtain ⟨hlow, hhigh⟩ := hpc
  show m.pc % memorySize = m.pc
  unfold memorySize
  omega

/-- A word without a meaning changes nothing at all. -/
theorem execute_invalid (hpc : IsAddress m.pc) (hop : ins.op = .invalid) (h : m.execute ins = .ok (m', notes)) :
    m' = m := by
  have hempty : ins.footprint m = [] := by rw [Instruction.footprint, hop]
  have hvalid : ins.valid = false := by rw [Instruction.valid, hop]; rfl
  apply Machine.eq_of_same
  · intro part
    apply execute_same h
    rw [hempty]
    exact List.not_mem_nil
  · exact execute_invalid_pc hpc hop h
  · rw [execute_cycles h, hvalid]
    rfl

/-- **Every instruction keeps to its footprint**: what lies outside is the same afterwards, one cycle is counted if the
word has a meaning, and one random number is drawn by the operation that asks for one. -/
theorem execute_footprint {e : Emulator} (h : e.Reachable) (hm : m = e.machine ∨ m = e.machine.tick) (word : Int)
    (hx : m.execute (.decode word) = .ok (m', notes)) :
    let ins := Instruction.decode word
    (∀ part, part ∉ ins.footprint m → part.Same m m') ∧
    (m'.keys = m.keys ∧ m'.screen.width = m.screen.width ∧ m'.screen.height = m.screen.height) ∧
    (0 ≤ m'.pc ∧ m'.pc ≤ 0xFFF) ∧
    m'.cycles = (if ins.valid then m.cycles + 1 else m.cycles) ∧
    m'.random = (if ins.op = .random then m.random.next.2 else m.random) ∧
    (ins.op = .invalid → m' = m) := by
  intro ins
  have hgood : m.Good := by
    rcases hm with rfl | rfl
    · exact h.good
    · exact Machine.tick_good h.good
  obtain ⟨hkeys, hwidth, hheight⟩ := ins.notMem_footprint m
  refine ⟨fun part hp => execute_same hx hp, ⟨?_, ?_, ?_⟩, (Machine.execute_good hgood hx).pc, execute_cycles hx,
    execute_random hx, fun hop => execute_invalid hgood.pc hop hx⟩
  · exact execute_same hx hkeys
  · exact execute_same hx hwidth
  · exact execute_same hx hheight

/-- A random number that is masked away is drawn all the same, and no other register changes. -/
theorem execute_footprint_masked : ∃ e m', Emulator.start .vast [] 8 4 (.cycle [7, 9]) false = .ok e ∧
    e.machine.execute (.decode 0xC300) = .ok (m', []) ∧ m'.random = e.machine.random.next.2 ∧
    ∀ r : Register, r ≠ ⟨3, by decide⟩ → m'.registers.value r = e.machine.registers.value r := by
  obtain ⟨e, h⟩ := Emulator.exists_start .vast [] 8 4 (.cycle [7, 9]) false
    (by decide) (by decide) (by decide) (by decide)
  obtain ⟨hop, hreg⟩ : (Instruction.decode 0xC300).op = .random ∧ (Instruction.decode 0xC300).x = 3 := by decide
  obtain ⟨n, hn⟩ : ∃ n, effect (Instruction.decode 0xC300).op (.decode 0xC300) e.machine = .ok (n, []) := by
    rw [hop]
    exact ⟨_, rfl⟩
  have hx := execute_of_effect hn
  obtain ⟨hsame, -, -, -, hrandom, -⟩ := execute_footprint (.start h) (.inl rfl) 0xC300 hx
  refine ⟨e, _, h, hx, by rw [hrandom, if_pos hop], fun r hr => hsame (.register r) ?_⟩
  rw [Instruction.footprint, hop]
  simp only [List.mem_cons, Part.register.injEq, List.not_mem_nil, or_false, reduceCtorEq]
  rw [hreg]
  exact hr

end ChipEight
