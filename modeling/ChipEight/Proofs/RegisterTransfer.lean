import Mathlib.Data.List.Nodup
import ChipEight.Proofs.Decoding
import ChipEight.Proofs.Execution
import ChipEight.Proofs.MemoryRing
import ChipEight.Proofs.Range

/-!
# Registers to memory and back

Two instructions move the registers up to a given one to memory and back. Both begin at the index, count addresses
modulo the size of memory, and leave the index behind the last one.

- `Machine.slot` is the address of a register in such a move, and `Machine.protectedSlots` are the registers whose
  address lies in the glyphs, where nothing can be stored;
- `Machine.slotWrites` writes any values to these addresses, which are different places (`nodup_slotWrites`);
  `read_slotWrites`, `read_slotWrites_other` and `notes_slotWrites`: memory afterwards, and what is refused;
- `registerWrites_eq`: storing registers writes their own values;
- `value_loaded` and `writeAll_loaded`: the registers after loading, and that storing them again changes
  nothing;
- `store_and_load`: the main statement, both ways round.
-/

namespace ChipEight

variable {m : Machine} {ins : Instruction} {x k : Register} {value : Register → Int} {other : Int}

/-- The registers up to `x` are the first ones. -/
theorem Register.take_finRange (x : Register) :
    (List.finRange registerCount).take (x.val + 1) = (List.finRange registerCount).filter (· ≤ x) := by
  revert x
  decide

namespace Machine

/-! ## The addresses of registers -/

/-- The address that a register is stored at and loaded from. -/
def slot (m : Machine) (k : Register) : Int :=
  (m.index + k.val) % 0x1000

/-- The registers up to `x` whose addresses lie in the glyphs, in rising order. -/
def protectedSlots (m : Machine) (x : Register) : List Register :=
  (List.finRange registerCount).filter fun k => k ≤ x ∧ m.slot k < 0x50

/-- Counting on from the index leads to the same place. -/
theorem cell_slot (m : Machine) (k : Register) : cell (m.slot k) = cell (m.index + k.val) :=
  cell_emod _

/-! ## Writing to these addresses -/

/-- A value for the address of each register up to `x`. -/
def slotWrites (m : Machine) (x : Register) (value : Register → Int) : List (Int × Int) :=
  ((List.finRange registerCount).filter (· ≤ x)).map fun k => (m.index + k.val, value k)

theorem mem_slotWrites {write : Int × Int} : write ∈ m.slotWrites x value ↔
    ∃ k : Register, k ≤ x ∧ write = (m.index + k.val, value k) := by
  simp [slotWrites, eq_comm]

/-- Sixteen addresses in a row are different places. -/
theorem nodup_slotWrites (m : Machine) (x : Register) (value : Register → Int) :
    ((m.slotWrites x value).map fun write => cell write.1).Nodup := by
  rw [slotWrites, List.map_map]
  refine List.Nodup.map_on ?_ ((List.nodup_finRange _).filter _)
  intro j _ k _ h
  exact Fin.ext (cell_add_inj (Nat.lt_trans j.isLt (by decide)) (Nat.lt_trans k.isLt (by decide)) h)

/-- The address of a register then holds the value for it, unless it lies in the glyphs. -/
theorem read_slotWrites (hk : k ≤ x) : (m.memory.writeAll (m.slotWrites x value)).read (m.slot k) =
    if m.slot k < 0x50 then m.memory.read (m.slot k) else lowByte (value k) := by
  have hmem : (m.index + k.val, value k) ∈ m.slotWrites x value := mem_slotWrites.mpr ⟨k, hk, rfl⟩
  have hread := m.memory.read_writeAll_of_mem (nodup_slotWrites m x value) hmem
  rw [Memory.read_congr _ (cell_slot m k), Memory.read_congr _ (cell_slot m k), hread, inFont_eq_decide]
  simp only [decide_eq_true_eq]
  rfl

/-- No byte changes but those at the addresses of the registers. -/
theorem read_slotWrites_other (h : ∀ k ≤ x, other % 0x1000 ≠ m.slot k) :
    (m.memory.writeAll (m.slotWrites x value)).read other = m.memory.read other := by
  refine Memory.read_writeAll _ fun write hmem hcell => ?_
  obtain ⟨k, hk, rfl⟩ := mem_slotWrites.mp hmem
  exact absurd (cell_eq_iff.mp hcell) (h k hk)

/-- One note for each value that could not be stored. -/
theorem notes_slotWrites (m : Machine) (x : Register) (value : Register → Int) : (m.store (m.slotWrites x value)).2 =
    (m.protectedSlots x).map fun k => .writeRefused (value k) (m.slot k).toNat := by
  rw [notes_refused, slotWrites, List.filter_map, List.map_map, List.filter_filter, protectedSlots]
  refine congrArg (List.map _) (List.filter_congr fun k _ => ?_)
  rw [Bool.and_comm]
  exact (Bool.decide_and ..).symm

/-! ## Storing -/

/-- Each register up to `x` is written to its address. -/
theorem registerWrites_eq (m : Machine) (x : Register) : m.registerWrites x = m.slotWrites x m.registers.value := by
  rw [slotWrites, ← Register.take_finRange, registerWrites, writesOf]
  refine List.ext_getElem (by simp [registersUpTo]) fun i _ _ => ?_
  simp [registersUpTo]

theorem read_stored (hk : k ≤ x) : (m.memory.writeAll (m.registerWrites x)).read (m.slot k) =
    if m.slot k < 0x50 then m.memory.read (m.slot k) else lowByte (m.registers.value k) := by
  rw [registerWrites_eq]
  exact read_slotWrites hk

theorem read_stored_other (h : ∀ k ≤ x, other % 0x1000 ≠ m.slot k) :
    (m.memory.writeAll (m.registerWrites x)).read other = m.memory.read other := by
  rw [registerWrites_eq]
  exact read_slotWrites_other h

theorem notes_store (m : Machine) (x : Register) : (m.store (m.registerWrites x)).2 =
    (m.protectedSlots x).map fun k => .writeRefused (m.registers.value k) (m.slot k).toNat := by
  rw [registerWrites_eq, notes_slotWrites]

/-! ## Loading -/

/-- The registers up to `x` are read from their addresses. -/
theorem value_loaded (m : Machine) (x k : Register) : (m.loadedRegisters x).value k =
    if k ≤ x then ((m.memory.read (m.slot k)).toNat : Int) else m.registers.value k := by
  rw [value_loadedRegisters, Memory.read_congr _ (cell_slot m k)]

/-- Storing the registers that were just loaded changes nothing. -/
theorem writeAll_loaded {loaded : Machine} (hregisters : loaded.registers = m.loadedRegisters x)
    (hindex : loaded.index = m.index) : m.memory.writeAll (loaded.registerWrites x) = m.memory := by
  refine Memory.writeAll_eq_self fun write hmem _ => ?_
  rw [registerWrites_eq] at hmem
  obtain ⟨k, hk, rfl⟩ := mem_slotWrites.mp hmem
  show lowByte (loaded.registers.value k) = m.memory.read (loaded.index + k.val)
  rw [hregisters, value_loaded, if_pos hk, lowByte_toNat, hindex, Memory.read_congr _ (cell_slot m k)]

/-! ## The instructions -/

/-- Storing changes memory and the index, and moves on. -/
theorem execute_storeRegisters (hop : ins.op = .storeRegisters) : ∃ stored,
    m.execute ins = .ok (stored, (m.store (m.registerWrites ins.x)).2) ∧
    stored.memory = m.memory.writeAll (m.registerWrites ins.x) ∧ stored.registers = m.registers ∧
    stored.index = (m.index + ins.x.val + 1) % 0x10000 := by
  have he := effect_storeRegisters ins m
  rw [← hop] at he
  exact ⟨_, execute_of_effect he, rfl, rfl, rfl⟩

/-- Loading changes registers and the index, and moves on. -/
theorem execute_loadRegisters (hop : ins.op = .loadRegisters) : ∃ loaded, m.execute ins = .ok (loaded, []) ∧
    loaded.memory = m.memory ∧ loaded.registers = m.loadedRegisters ins.x := by
  have he := effect_loadRegisters ins m
  rw [← hop] at he
  -- the parts are read off by `simp only`: `rfl` first compares the two machines as a whole
  refine ⟨_, execute_of_effect he, ?_, ?_⟩
  · simp only [advance]
  · simp only [advance]

end Machine

/-- **Registers are stored and loaded again**, also where their addresses wrap around. What lies in the glyphs is
refused with one warning each, and with the index set back either order gives back what was there. -/
theorem store_and_load (m : Machine) (hbytes : ∀ r, IsByte (m.registers.value r)) (x : Register) :
    (∃ stored notes loaded, m.execute (.decode (0xF055 + 0x100 * x.val)) = .ok (stored, notes) ∧
      (∀ k ≤ x, ((stored.memory.read (m.slot k)).toNat : Int) =
        if 0x50 ≤ m.slot k then m.registers.value k else (m.memory.read (m.slot k)).toNat) ∧
      (notes = (m.protectedSlots x).map fun k => .writeRefused (m.registers.value k) (m.slot k).toNat) ∧
      (∀ note ∈ notes, note.level = .warning) ∧
      (∀ other : Int, (∀ k ≤ x, other % 0x1000 ≠ m.slot k) → stored.memory.read other = m.memory.read other) ∧
      stored.index = (m.index + x.val + 1) % 0x10000 ∧
      { stored with index := m.index }.execute (.decode (0xF065 + 0x100 * x.val)) = .ok (loaded, []) ∧
      ∀ k, loaded.registers.value k =
        if k ≤ x ∧ m.slot k < 0x50 then ((m.memory.read (m.slot k)).toNat : Int) else m.registers.value k) ∧
    ∃ loaded stored notes, m.execute (.decode (0xF065 + 0x100 * x.val)) = .ok (loaded, []) ∧
      { loaded with index := m.index }.execute (.decode (0xF055 + 0x100 * x.val)) = .ok (stored, notes) ∧
      stored.memory = m.memory := by
  obtain ⟨hstore, hx⟩ : (Instruction.decode (0xF055 + 0x100 * x.val)).op = .storeRegisters ∧
      (Instruction.decode (0xF055 + 0x100 * x.val)).x = x := decode_lowByte x 5 5
  obtain ⟨hload, hx'⟩ : (Instruction.decode (0xF065 + 0x100 * x.val)).op = .loadRegisters ∧
      (Instruction.decode (0xF065 + 0x100 * x.val)).x = x := decode_lowByte x 6 5
  have hstored : ∀ k ≤ x, (((m.memory.writeAll (m.registerWrites x)).read (m.slot k)).toNat : Int) =
      if 0x50 ≤ m.slot k then m.registers.value k else (m.memory.read (m.slot k)).toNat := by
    intro k hk
    rw [Machine.read_stored hk]
    by_cases hfont : m.slot k < 0x50
    · rw [if_pos hfont, if_neg (by omega)]
    · rw [if_neg hfont, if_pos (by omega), toNat_lowByte (hbytes k).1 (hbytes k).2]
  constructor
  · obtain ⟨stored, hexecute, hmemory, hregisters, hindex⟩ := Machine.execute_storeRegisters (m := m) hstore
    obtain ⟨loaded, hexecute', -, hregisters'⟩ :=
      Machine.execute_loadRegisters (m := { stored with index := m.index }) hload
    rw [hx] at hmemory hindex
    rw [hx, Machine.notes_store] at hexecute
    refine ⟨stored, _, loaded, hexecute, ?_, rfl, ?_, ?_, hindex, hexecute', fun k => ?_⟩
    · rw [hmemory]
      exact hstored
    · intro note hnote
      obtain ⟨k, -, rfl⟩ := List.mem_map.mp hnote
      rfl
    · intro other hother
      rw [hmemory]
      exact Machine.read_stored_other hother
    · rw [hregisters', hx', Machine.value_loaded]
      show (if k ≤ x then ((stored.memory.read (m.slot k)).toNat : Int) else stored.registers.value k) = _
      rw [hregisters, hmemory]
      by_cases hk : k ≤ x
      · rw [if_pos hk, hstored k hk]
        by_cases hfont : m.slot k < 0x50
        · rw [if_neg (by omega), if_pos ⟨hk, hfont⟩]
        · rw [if_pos (by omega), if_neg fun h => hfont h.2]
      · rw [if_neg hk, if_neg fun h => hk h.1]
  · obtain ⟨loaded, hexecute, hmemory, hregisters⟩ := Machine.execute_loadRegisters (m := m) hload
    obtain ⟨stored, hexecute', hmemory', -, -⟩ :=
      Machine.execute_storeRegisters (m := { loaded with index := m.index }) hstore
    refine ⟨loaded, stored, _, hexecute, hexecute', ?_⟩
    rw [hx'] at hregisters
    rw [hmemory', hx]
    show loaded.memory.writeAll _ = m.memory
    rw [hmemory]
    exact Machine.writeAll_loaded hregisters rfl

/-- Four registers stored across the end of memory, with an index beyond it: the last two are refused. -/
theorem store_and_load_wrapped : ∃ m stored : Machine, m.index = 0x2FFE ∧
    m.execute (.decode 0xF355) = .ok (stored, [.writeRefused 7 0, .writeRefused 7 1]) ∧
    ((stored.memory.read 0xFFF).toNat : Int) = 7 := by
  obtain ⟨m, hindex, hvalue⟩ : ∃ m : Machine, m.index = 0x2FFE ∧ ∀ r, m.registers.value r = 7 :=
    ⟨{ Machine.boot [] (.blank 8 4 (by decide) (by decide)) (.cycle []) with
      registers := .replicate registerCount 7, index := 0x2FFE }, rfl, fun r => by simp [Registers.value]⟩
  have hslot (k : Register) : m.slot k = (0x2FFE + k.val) % 0x1000 := by rw [Machine.slot, hindex]
  obtain ⟨⟨stored, notes, loaded, hexecute, hread, hnotes, -⟩, -⟩ :=
    store_and_load m (fun r => by rw [hvalue]; decide) ⟨3, by decide⟩
  refine ⟨m, stored, hindex, ?_, ?_⟩
  · have hrefused : notes = [.writeRefused 7 0, .writeRefused 7 1] := by
      simp only [hnotes, Machine.protectedSlots, hslot, hvalue]
      decide
    rw [← hrefused]
    exact hexecute
  · have hone := hread ⟨1, by decide⟩ (by decide)
    simpa [hslot, hvalue] using hone

end ChipEight
