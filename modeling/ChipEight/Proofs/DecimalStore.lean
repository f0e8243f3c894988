import ChipEight.Proofs.IndexWrap
import ChipEight.Proofs.RegisterTransfer

/-!
# Decimal digits in memory

One instruction stores the three decimal digits of a register, hundreds first, at the addresses that the first three
registers are loaded from. The index may have any value: addresses count modulo the size of memory, and a digit that
would go to the glyphs is refused.

- `decimalDigit` are the digits (`sum_decimalDigit`), and `Machine.decimalWrites_eq` says where they go;
- `Machine.read_decimal` and `Machine.value_loaded_decimal`: memory after storing, and the registers after loading;
- `Machine.execute_storeDecimal`: storing digits changes memory alone, and `Machine.execute_storeDecimal_wrapped`: an
  index beyond memory does what its place does;
- `decimal_store_and_load`: the main statement.
-/

namespace ChipEight

variable {m stored : Machine} {ins : Instruction} {notes : List Note} {x k : Register} {value i : Int}

/-! ## Digits -/

/-- The decimal digits of a number below a thousand, hundreds first. -/
def decimalDigit (value : Int) : Nat → Int
  | 0 => value / 100
  | 1 => value % 100 / 10
  | _ => value % 10

theorem decimalDigit_bounds (h : IsByte value) (j : Nat) : 0 ≤ decimalDigit value j ∧ decimalDigit value j ≤ 9 := by
  unfold IsByte at h
  unfold decimalDigit
  split <;> omega

/-- The digits make up the number. -/
theorem sum_decimalDigit (value : Int) :
    100 * decimalDigit value 0 + 10 * decimalDigit value 1 + decimalDigit value 2 = value := by
  simp only [decimalDigit]
  omega

namespace Machine

/-! ## Storing -/

/-- Each digit is written to the address of the register of its number. -/
theorem decimalWrites_eq (m : Machine) (x : Register) : m.decimalWrites x =
    m.slotWrites ⟨2, by decide⟩ fun k => decimalDigit (m.registers.value x) k.val := by
  have hfirst : (List.finRange registerCount).filter (· ≤ ⟨2, by decide⟩) =
      [⟨0, by decide⟩, ⟨1, by decide⟩, ⟨2, by decide⟩] := by decide
  rw [slotWrites, hfirst]
  simp [decimalWrites, decimalDigit]

/-- The address of a digit then holds it, unless it lies in the glyphs. -/
theorem read_decimal (hbyte : IsByte (m.registers.value x)) (hk : k ≤ ⟨2, by decide⟩) :
    (((m.memory.writeAll (m.decimalWrites x)).read (m.slot k)).toNat : Int) =
      if 0x50 ≤ m.slot k then decimalDigit (m.registers.value x) k.val else (m.memory.read (m.slot k)).toNat := by
  obtain ⟨h0, h9⟩ := decimalDigit_bounds hbyte k.val
  rw [decimalWrites_eq, read_slotWrites hk]
  by_cases hfont : m.slot k < 0x50
  · rw [if_pos hfont, if_neg (by omega)]
  · rw [if_neg hfont, if_pos (by omega), toNat_lowByte h0 (by omega)]

/-- Where no digit was refused, loading the first three registers gives them the digits. -/
theorem value_loaded_decimal (hbyte : IsByte (m.registers.value x))
    (hmemory : stored.memory = m.memory.writeAll (m.decimalWrites x)) (hindex : stored.index = m.index)
    (hk : k ≤ ⟨2, by decide⟩) (hallowed : 0x50 ≤ m.slot k) :
    (stored.loadedRegisters ⟨2, by decide⟩).value k = decimalDigit (m.registers.value x) k.val := by
  have hslot : stored.slot k = m.slot k := by rw [slot, slot, hindex]
  rw [value_loaded, if_pos hk, hslot, hmemory, read_decimal hbyte hk, if_pos hallowed]

/-! ## The instruction -/

/-- Storing digits changes memory and moves on. -/
theorem execute_storeDecimal (hop : ins.op = .storeDecimal) : ∃ stored,
    m.execute ins = .ok (stored, (m.store (m.decimalWrites ins.x)).2) ∧
    stored.memory = m.memory.writeAll (m.decimalWrites ins.x) ∧ stored.registers = m.registers ∧
    stored.index = m.index := by
  have he : effect ins.op ins m = effect .storeDecimal ins m := by rw [hop]
  exact ⟨_, execute_of_effect he, rfl, rfl, rfl⟩

/-- With another index of the same place the same digits are stored and refused. -/
theorem execute_storeDecimal_wrapped (hop : ins.op = .storeDecimal) (hi : i % memorySize = m.index % memorySize)
    (hx : m.execute ins = .ok (stored, notes)) :
    { m with index := i }.execute ins = .ok ({ stored with index := i }, notes) := by
  have hreader : ins.op ∈ Component.index.readers := by rw [hop]; decide
  obtain ⟨j, hx', -⟩ := execute_reading_index hreader hi hx
  obtain ⟨n, hn, hstored⟩ := execute_eq_ok hx'
  have hindex : n.index = i := (effect_frame hn).index (by rw [hop]; decide)
  obtain rfl : j = i := (congrArg index hstored).trans hindex
  exact hx'

end Machine

/-- **Digits are stored at every address**, the index counted modulo the size of memory, and loading the first three
registers gives them back unless one was refused. -/
theorem decimal_store_and_load {e : Emulator} (h : e.Reachable) {m : Machine}
    (hm : m = e.machine ∨ m = e.machine.tick) (index : Int) (x : Register) :
    let now : Machine := { m with index }
    let last : Register := ⟨2, by decide⟩
    ∃ (digit : Nat → Int) (stored loaded : Machine) (notes : List Note),
      (∀ j < 3, 0 ≤ digit j ∧ digit j ≤ 9) ∧ 100 * digit 0 + 10 * digit 1 + digit 2 = m.registers.value x ∧
      now.execute (.decode (0xF033 + 0x100 * x.val)) = .ok (stored, notes) ∧
      (∀ k ≤ last, ((stored.memory.read (now.slot k)).toNat : Int) =
        if 0x50 ≤ now.slot k then digit k.val else (m.memory.read (now.slot k)).toNat) ∧
      (notes = (now.protectedSlots last).map fun k => .writeRefused (digit k.val) (now.slot k).toNat) ∧
      (∀ note ∈ notes, note.level = .warning) ∧
      (∀ other : Int, (∀ k ≤ last, other % 0x1000 ≠ now.slot k) → stored.memory.read other = m.memory.read other) ∧
      stored.index = index ∧ stored.registers = m.registers ∧
      stored.execute (.decode 0xF265) = .ok (loaded, []) ∧
      ((∀ k ≤ last, 0x50 ≤ now.slot k) →
        100 * loaded.registers.value ⟨0, by decide⟩ + 10 * loaded.registers.value ⟨1, by decide⟩ +
          loaded.registers.value ⟨2, by decide⟩ = m.registers.value x) ∧
      { now with index := index % 0x1000 }.execute (.decode (0xF033 + 0x100 * x.val)) =
        .ok ({ stored with index := index % 0x1000 }, notes) ∧
      ∃ behind, { stored with index := index % 0x1000 }.execute (.decode 0xF265) =
        .ok ({ loaded with index := behind }, []) := by
  intro now last
  have hgood : m.Good := by
    rcases hm with rfl | rfl
    · exact h.good
    · exact Machine.tick_good h.good
  obtain ⟨hstore, hx⟩ : (Instruction.decode (0xF033 + 0x100 * x.val)).op = .storeDecimal ∧
      (Instruction.decode (0xF033 + 0x100 * x.val)).x = x := decode_lowByte x 3 3
  obtain ⟨hload, hx'⟩ : (Instruction.decode (0xF065 + 0x100 * last.val)).op = .loadRegisters ∧
      (Instruction.decode (0xF065 + 0x100 * last.val)).x = last := decode_lowByte last 6 5
  obtain ⟨stored, hexecute, hmemory, hregisters, hindex⟩ := Machine.execute_storeDecimal (m := now) hstore
  obtain ⟨loaded, hexecute', -, hloaded⟩ := Machine.execute_loadRegisters (m := stored) hload
  have hplace : index % 0x1000 % memorySize = index % memorySize := Int.emod_emod_of_dvd _ (Int.dvd_refl _)
  have hwrapped := Machine.execute_storeDecimal_wrapped hstore (m := now) hplace hexecute
  obtain ⟨behind, hwrapped', -⟩ := execute_reading_index (i := index % 0x1000) (m := stored) (by rw [hload]; decide)
    (by rw [hindex]; exact hplace) hexecute'
  rw [hx] at hmemory
  rw [hx, Machine.decimalWrites_eq, Machine.notes_slotWrites] at hexecute hwrapped
  refine ⟨decimalDigit (m.registers.value x), stored, loaded, _, fun j _ => decimalDigit_bounds (hgood.register x) j,
    sum_decimalDigit _, hexecute, ?_, rfl, ?_, ?_, hindex, hregisters, hexecute', ?_, hwrapped, behind, hwrapped'⟩
  · intro k hk
    rw [hmemory]
    exact Machine.read_decimal (m := now) (hgood.register x) hk
  · intro note hnote
    obtain ⟨k, -, rfl⟩ := List.mem_map.mp hnote
    rfl
  · intro other hother
    rw [hmemory, Machine.decimalWrites_eq]
    exact Machine.read_slotWrites_other hother
  · intro hallowed
    have hdigit : ∀ k ≤ last, loaded.registers.value k = decimalDigit (m.registers.value x) k.val := by
      intro k hk
      rw [hloaded, hx']
      exact Machine.value_loaded_decimal (m := now) (hgood.register x) hmemory hindex hk (hallowed k hk)
    rw [hdigit _ (by decide), hdigit _ (by decide), hdigit _ (by decide)]
    exact sum_decimalDigit _

/-- The digits of 254 with an index beyond memory: two go to its end, and the last is refused by the glyphs. -/
theorem decimal_store_and_load_beyond : ∃ (e : Emulator) (stored : Machine), e.Reachable ∧
    e.machine.registers.value ⟨3, by decide⟩ = 254 ∧
    { e.machine with index := 0xFFFE }.execute (.decode 0xF333) = .ok (stored, [.writeRefused 4 0]) ∧
    ((stored.memory.read 0xFFF).toNat : Int) = 5 := by
  obtain ⟨e, h⟩ := Emulator.exists_start .vast [0x63, 0xFE] 8 4 (.cycle []) false
    (by decide) (by decide) (by decide) (by decide)
  obtain ⟨_, _, he⟩ := Emulator.start_eq h
  obtain ⟨-, hload⟩ := Machine.executed?_image (m := e.machine) (k := 0)
    (n := { e.machine with registers := e.machine.registers.put ⟨3, by decide⟩ 254, pc := 0x202, cycles := 1 })
    (by rw [he]; rfl) (by decide) (by rw [he]; rfl) (by rw [he]; rfl) (by rw [he]; rfl)
  have hvalue : e.step.2.machine.registers.value ⟨3, by decide⟩ = 254 := by
    rw [Emulator.machine_step, hload]
    show (e.machine.registers.put ⟨3, by decide⟩ 254).value ⟨3, by decide⟩ = 254
    rw [Registers.value_put, if_pos rfl]
  have hreachable : e.step.2.Reachable := .perform .step (.start h)
  obtain ⟨digit, stored, -, notes, hbounds, hsum, hexecute, hread, hnotes, -⟩ :=
    decimal_store_and_load hreachable (.inl rfl) 0xFFFE ⟨3, by decide⟩
  have hhundreds := hbounds 0 (by decide)
  have htens := hbounds 1 (by decide)
  have hones := hbounds 2 (by decide)
  rw [hvalue] at hsum
  obtain ⟨hfive, hfour⟩ : digit 1 = 5 ∧ digit 2 = 4 := by omega
  refine ⟨e.step.2, stored, hreachable, hvalue, ?_, ?_⟩
  · have hrefused : notes = [.writeRefused (digit 2) 0] := hnotes
    rw [hfour] at hrefused
    rw [← hrefused]
    exact hexecute
  · have hmiddle := hread ⟨1, by decide⟩ (by decide)
    exact hmiddle.trans hfive

end ChipEight
