import Mathlib.Data.List.Induction
import Mathlib.Data.List.Nodup
import ChipEight.Machine.Basic

/-!
# Memory as a ring

Every integer is an address, and addresses that agree modulo the size of memory are the same place.

- `cell_val`, `cell_congr` and `cell_add_inj`: places and their addresses;
- `Memory.read_congr`, `Memory.writeAll_congr` and `Machine.store_congr`: memory, and what is refused, depend on
  addresses by their places only;
- `Memory.read_writeAll_last`: a byte is what was written to its place last, unless it lies in the glyphs; and so, after
  writes to different places, each place holds what was written there (`Memory.read_writeAll_of_mem`);
- `Memory.writeAll_eq_self`: writing what is there already changes nothing;
- `Machine.notes_refused` and `Machine.store_append`: what a machine notes while it writes.
-/

namespace ChipEight

variable {a b address value : Int} {mem : Memory} {writes : List (Int × Int)}

/-! ## Places -/

/-- A place of memory is the cell of its own number. -/
theorem cell_val (place : Fin memorySize) : cell place.val = place := by
  apply Fin.ext
  show ((place.val : Int) % memorySize).toNat = place.val
  have := place.isLt
  unfold memorySize at *
  omega

/-- The number of a place, for arithmetic. -/
theorem val_cell (address : Int) : ((cell address).val : Int) = address % 0x1000 := by
  show ((address % memorySize).toNat : Int) = address % 0x1000
  unfold memorySize
  omega

/-- Addresses that agree modulo the size of memory are the same place. -/
theorem cell_congr (h : a % memorySize = b % memorySize) : cell a = cell b :=
  Fin.ext (congrArg Int.toNat h)

/-- The places behind two addresses of the same place are the same. -/
theorem cell_add_congr (h : a % memorySize = b % memorySize) (k : Int) : cell (a + k) = cell (b + k) :=
  cell_congr (Int.add_emod_eq_add_emod_right k h)

/-- Two addresses are the same place only if they agree modulo the size of memory. -/
theorem cell_eq_iff : cell a = cell b ↔ a % 0x1000 = b % 0x1000 := by
  rw [← val_cell, ← val_cell, Int.natCast_inj, Fin.val_inj]

/-- An address and its remainder modulo the size of memory are the same place. -/
theorem cell_emod (address : Int) : cell (address % 0x1000) = cell address := by
  rw [cell_eq_iff, Int.emod_emod_of_dvd _ (Int.dvd_refl _)]

/-- As many addresses in a row as memory has places are different places. -/
theorem cell_add_inj {j k : Nat} (hj : j < memorySize) (hk : k < memorySize) (h : cell (a + j) = cell (a + k)) :
    j = k := by
  rw [cell_eq_iff] at h
  unfold memorySize at hj hk
  omega

/-- A write by its place. -/
def placed (write : Int × Int) : Fin memorySize × Int :=
  (cell write.1, write.2)

/-! ## Bytes -/

/-- A byte is its own low eight bits. -/
theorem lowByte_toNat (byte : UInt8) : lowByte byte.toNat = byte := by
  have hlt := byte.toNat_lt
  have hmod : ((byte.toNat : Int) % 256).toNat = byte.toNat := by omega
  rw [lowByte, hmod]
  exact UInt8.ofNat_toNat

/-- The low eight bits of a number as a number. -/
theorem toNat_lowByte_emod (value : Int) : ((lowByte value).toNat : Int) = value % 0x100 := by
  rw [lowByte, UInt8.toNat_ofNat']
  omega

/-- A number of eight bits is all in its low eight bits. -/
theorem toNat_lowByte (h0 : 0 ≤ value) (h1 : value ≤ 0xFF) : ((lowByte value).toNat : Int) = value := by
  rw [toNat_lowByte_emod]
  omega

/-! ## The glyphs -/

/-- The addresses of the glyphs. -/
theorem inFont_eq_true_iff : inFont address = true ↔ address % 0x1000 < 0x50 := by
  have hend : fontEnd = 0x50 := rfl
  have hval := val_cell address
  rw [inFont, decide_eq_true_iff, hend]
  omega

/-- The test for the glyphs as an inequality. -/
theorem inFont_eq_decide (address : Int) : inFont address = decide (address % 0x1000 < 0x50) := by
  rw [Bool.eq_iff_iff, inFont_eq_true_iff, decide_eq_true_iff]

namespace Memory

theorem inFont_natCast {k : Nat} (hk : k < font.length) : inFont k = true := by
  have hf : font.length = 80 := rfl
  rw [inFont_eq_true_iff]
  omega

/-! ## Reading and writing -/

/-- A byte is found under every address of its place. -/
theorem read_congr (mem : Memory) (h : cell a = cell b) : mem.read a = mem.read b := by
  simp only [read, h]

/-- Addresses count modulo the size of memory. -/
theorem read_emod (mem : Memory) (address : Int) : mem.read (address % 0x1000) = mem.read address :=
  mem.read_congr (cell_emod address)

/-- A write goes to the place that its address names. -/
theorem write_congr (mem : Memory) (h : cell a = cell b) (value : Int) : mem.write a value = mem.write b value := by
  have hfont : inFont a = inFont b := by rw [inFont, inFont, h]
  simp only [write, hfont, h]

/-- What writes do depends on their places. -/
theorem writeAll_congr (mem : Memory) {writes writes' : List (Int × Int)} (h : writes'.map placed = writes.map placed) :
    mem.writeAll writes' = mem.writeAll writes := by
  have hplaced (writes : List (Int × Int)) : mem.writeAll writes =
      (writes.map placed).foldl (fun mem write => mem.write write.1.val write.2) mem := by
    rw [List.foldl_map]
    refine congrArg (fun write => writes.foldl write mem) (funext fun mem => funext fun write => ?_)
    exact mem.write_congr (cell_val (cell write.1)).symm write.2
  rw [hplaced, hplaced, h]

/-- **The last write decides.** Outside of the glyphs a byte is what was written to its place last. -/
theorem read_writeAll_last (mem : Memory) (writes : List (Int × Int)) (other : Int) :
    (mem.writeAll writes).read other =
      if inFont other = true then mem.read other
      else (writes.findRev? fun write => cell write.1 = cell other).elim (mem.read other) fun write =>
        lowByte write.2 := by
  induction writes using List.reverseRecOn with
  | nil => exact (ite_self _).symm
  | append_singleton writes write ih =>
    have hlast : mem.writeAll (writes ++ [write]) = (mem.writeAll writes).write write.1 write.2 :=
      List.foldl_concat ..
    rw [List.findRev?_eq_find?_reverse] at ih
    rw [hlast, read_write, ih, List.findRev?_eq_find?_reverse, List.reverse_concat, List.find?_cons]
    by_cases hplace : cell write.1 = cell other
    · have hfont : inFont write.1 = inFont other := by rw [inFont, inFont, hplace]
      rw [hfont, hplace]
      cases inFont other <;> simp
    · rw [if_neg fun h => hplace h.1.symm, decide_eq_false hplace]

/-- Writes cannot reach the glyphs. -/
theorem read_writeAll_of_inFont {other : Int} (h : inFont other = true) :
    (mem.writeAll writes).read other = mem.read other := by
  rw [read_writeAll_last, if_pos h]

/-- **Writes to different places.** Each place that is written to holds the low eight bits of its value afterwards; a
place in the glyphs holds what it held before. -/
theorem read_writeAll_of_mem (mem : Memory) (hplaces : (writes.map fun write => cell write.1).Nodup)
    (h : (address, value) ∈ writes) : (mem.writeAll writes).read address =
      if inFont address = true then mem.read address else lowByte value := by
  rw [read_writeAll_last, List.findRev?_eq_find?_reverse]
  cases hlast : writes.reverse.find? fun write => cell write.1 = cell address with
  | none => exact absurd (decide_eq_true rfl) (List.find?_eq_none.mp hlast _ (List.mem_reverse.mpr h))
  | some last =>
    have hmem := List.mem_reverse.mp (List.mem_of_find?_eq_some hlast)
    have hplace : cell last.1 = cell address := by simpa using List.find?_some hlast
    rw [List.inj_on_of_nodup_map hplaces hmem h hplace]
    rfl

/-- A write of what is there already changes nothing, and neither does one that is refused. -/
theorem write_eq_self (h : inFont address = false → lowByte value = mem.read address) :
    mem.write address value = mem := by
  unfold write
  cases hfont : inFont address with
  | true => rfl
  | false =>
    rw [if_neg Bool.false_ne_true, h hfont]
    exact Vector.set_getElem_self ..

theorem writeAll_eq_self (h : ∀ write ∈ writes, inFont write.1 = false → lowByte write.2 = mem.read write.1) :
    mem.writeAll writes = mem := by
  induction writes with
  | nil => rfl
  | cons write writes ih =>
    obtain ⟨hfirst, hrest⟩ := List.forall_mem_cons.mp h
    show (mem.write write.1 write.2).writeAll writes = mem
    rw [write_eq_self hfirst]
    exact ih hrest

end Memory

/-! ## Notes -/

namespace Machine

/-- There is one note for each write that goes to the glyphs. -/
theorem notes_refused (m : Machine) (writes : List (Int × Int)) : (m.store writes).2 =
    (writes.filter fun write => write.1 % 0x1000 < 0x50).map fun write =>
      .writeRefused write.2 (write.1 % 0x1000).toNat := by
  have hplace (address : Int) : (cell address).val = (address % 0x1000).toNat := by
    have := val_cell address
    omega
  simp only [store, hplace, inFont_eq_decide]

/-- So does what a machine makes of them. -/
theorem store_congr {m : Machine} {writes writes' : List (Int × Int)} (h : writes'.map placed = writes.map placed)
    (i : Int) : { m with index := i }.store writes' = ({ (m.store writes).1 with index := i }, (m.store writes).2) := by
  have hrefused (writes : List (Int × Int)) : (m.store writes).2 =
      ((writes.map placed).filter fun write => write.1.val < fontEnd).map fun write =>
        .writeRefused write.2 write.1.val := by
    rw [List.filter_map, List.map_map]
    rfl
  have hrefused' : ({ m with index := i }.store writes').2 = (m.store writes).2 := by
    rw [hrefused, ← h, ← hrefused]
    rfl
  have hmemory := m.memory.writeAll_congr h
  exact Prod.ext (congrArg (fun memory => { m with memory, index := i }) hmemory) hrefused'

/-- Writing at once and writing in two goes come to the same. -/
theorem store_append (m : Machine) (writes later : List (Int × Int)) : m.store (writes ++ later) =
    (((m.store writes).1.store later).1, (m.store writes).2 ++ ((m.store writes).1.store later).2) := by
  simp only [store, Memory.writeAll, List.foldl_append, List.filter_append, List.map_append]

end Machine

end ChipEight
