import ChipEight.Proofs.Font
import ChipEight.Proofs.MemoryRing

/-!
# Memory remembers what was written last

A host may write any values to any addresses. Memory is then an array on a ring: each byte is what was written to its
place last, and the glyphs are as they were.

- `Emulator.actAll_write`: writing one value after the other is one store, notes included;
- `lastWrite_wins`: the main statement.
-/

namespace ChipEight

namespace Emulator

/-- Going on to one machine and then to another notes what was noted on both ways. -/
theorem become_become (e : Emulator) (machine later : Machine) (notes more : List Note) :
    (e.become machine notes).become later more = e.become later (notes ++ more) := by
  simp only [become, Array.append_assoc, List.append_toArray]

/-- A host that writes one value after the other makes one store. -/
theorem actAll_write (e : Emulator) (writes : List (Int × Int)) :
    e.actAll (writes.map fun write => .write write.1 write.2) =
      e.become (e.machine.store writes).1 (e.machine.store writes).2 := by
  induction writes generalizing e with
  | nil => simp [actAll, become, Machine.store, Memory.writeAll]
  | cons write writes ih =>
    have hstore := e.machine.store_append [write] writes
    calc e.actAll ((write :: writes).map fun write => .write write.1 write.2)
        = (e.write write.1 write.2).actAll (writes.map fun write => .write write.1 write.2) := rfl
      _ = (e.write write.1 write.2).become ((e.machine.store [write]).1.store writes).1
          ((e.machine.store [write]).1.store writes).2 := ih _
      _ = e.become (e.machine.store (write :: writes)).1 (e.machine.store (write :: writes)).2 := by
        rw [Emulator.write, become_become]
        exact congrArg (fun result => e.become result.1 result.2) hstore.symm

end Emulator

/-- **The last write wins.** After any writes a byte is the low eight bits of what was written last to its place; the
glyphs stay, and each write to them is logged as a warning. -/
theorem lastWrite_wins (e : Emulator) (writes : List (Int × Int)) :
    let now := e.actAll (writes.map fun write => .write write.1 write.2)
    (∀ address : Int, ((now.machine.memory.read address).toNat : Int) =
      if 0x50 ≤ address % 0x1000 then
        (writes.findRev? fun write => write.1 % 0x1000 = address % 0x1000).elim
          ((e.machine.memory.read (address % 0x1000)).toNat : Int) fun write => write.2 % 0x100
      else (e.machine.memory.read (address % 0x1000)).toNat) ∧
    now.machine.memory.toList.length = 0x1000 ∧
    ∃ notes : List Note, now.log = e.log ++ notes.toArray ∧ (∀ note ∈ notes, note.level = .warning) ∧
      notes.length = writes.countP fun write => write.1 % 0x1000 < 0x50 := by
  intro now
  have hnow : now = e.become (e.machine.store writes).1 (e.machine.store writes).2 := e.actAll_write writes
  refine ⟨fun address => ?_, Vector.length_toList .., _, congrArg Emulator.log hnow, ?_, ?_⟩
  · have hmemory : now.machine.memory = e.machine.memory.writeAll writes := congrArg (·.machine.memory) hnow
    rw [hmemory, Memory.read_writeAll_last, Memory.read_emod]
    by_cases hbehind : 0x50 ≤ address % 0x1000
    · have hfont : ¬ inFont address = true := fun hfont => by
        have := inFont_eq_true_iff.mp hfont
        omega
      rw [if_neg hfont, if_pos hbehind]
      simp only [cell_eq_iff]
      cases writes.findRev? fun write => write.1 % 0x1000 = address % 0x1000 with
      | none => rfl
      | some write => exact toNat_lowByte_emod write.2
    · rw [if_pos (inFont_eq_true_iff.mpr (by omega)), if_neg hbehind]
  · intro note hnote
    rw [Machine.notes_refused] at hnote
    obtain ⟨write, -, rfl⟩ := List.mem_map.mp hnote
    rfl
  · rw [Machine.notes_refused, List.length_map, List.countP_eq_length_filter]

end ChipEight
