import ChipEight.Proofs.Inputs
import ChipEight.Proofs.MemoryRing

/-!
# The index beyond memory

The index counts modulo 65536, but memory is a ring of 4096 bytes, and a program cannot tell apart two indices of the
same place.

- `Memory.sprite_congr`: a sprite depends on its address by the place only;
- `effect_reading_index` and `execute_reading_index`: so do the operations that read the index, and what they make of it
  stays at the same place;
- `index_unobservable`: the main statement.
-/

namespace ChipEight

variable {op : Op} {ins : Instruction} {m m' n n' : Machine} {notes notes' : List Note} {i : Int}

/-! ## Places -/

/-- An index that counts modulo 65536 stays at the same place. -/
theorem wrap_congr {a b : Int} (h : a % memorySize = b % memorySize) (k : Int) :
    (a + k) % 0x10000 % memorySize = (b + k) % 0x10000 % memorySize := by
  unfold memorySize at *
  omega

namespace Memory

theorem sprite_congr (mem : Memory) {a b : Int} (h : a % memorySize = b % memorySize) (height : Int) :
    mem.sprite a height = mem.sprite b height :=
  List.map_congr_left fun k _ => mem.read_congr (cell_add_congr h k)

end Memory

namespace Machine

theorem placed_registerWrites (hi : i % memorySize = m.index % memorySize) (r : Register) :
    ({ m with index := i }.registerWrites r).map placed = (m.registerWrites r).map placed := by
  rw [registerWrites, registerWrites, writesOf, writesOf, List.map_map, List.map_map]
  refine List.map_congr_left fun write _ => ?_
  exact Prod.ext (cell_add_congr hi write.2) rfl

theorem placed_decimalWrites (hi : i % memorySize = m.index % memorySize) (r : Register) :
    ({ m with index := i }.decimalWrites r).map placed = (m.decimalWrites r).map placed := by
  simp only [decimalWrites, List.map_cons, List.map_nil, placed, cell_congr hi, cell_add_congr hi]

theorem loadedRegisters_congr (hi : i % memorySize = m.index % memorySize) (r : Register) :
    { m with index := i }.loadedRegisters r = m.loadedRegisters r := by
  simp only [loadedRegisters, Memory.read_congr _ (cell_add_congr hi _)]

theorem indexBehind_congr (hi : i % memorySize = m.index % memorySize) (r : Register) :
    { m with index := i }.indexBehind r % memorySize = m.indexBehind r % memorySize := by
  simp only [indexBehind, Int.add_assoc]
  exact wrap_congr hi _

theorem drawSprite_congr (hi : i % memorySize = m.index % memorySize) (x y height : Int) :
    { m with index := i }.drawSprite x y height =
      ({ (m.drawSprite x y height).1 with index := i }, (m.drawSprite x y height).2) := by
  simp only [drawSprite, m.memory.sprite_congr hi]

end Machine

/-! ## Operations -/

/-- **An operation that reads the index** reads no more of it than its place. -/
theorem effect_reading_index (hop : op ∈ Component.index.readers) (hi : i % memorySize = m.index % memorySize)
    (he : effect op ins m = .ok (n, notes)) :
    ∃ j, effect op ins { m with index := i } = .ok ({ n with index := j }, notes) ∧
      j % memorySize = n.index % memorySize := by
  cases op
  case addIndex =>
    cases he
    exact ⟨(i + m.registers.value ins.x) % 0x10000, rfl, wrap_congr hi _⟩
  case storeDecimal =>
    cases he
    refine ⟨i, ?_, hi⟩
    simp only [effect, Machine.store_congr (Machine.placed_decimalWrites hi ins.x)]
    rfl
  case storeRegisters =>
    rw [effect_storeRegisters] at he
    cases he
    refine ⟨{ m with index := i }.indexBehind ins.x, ?_, Machine.indexBehind_congr hi ins.x⟩
    rw [effect_storeRegisters, Machine.store_congr (Machine.placed_registerWrites hi ins.x)]
    rfl
  case loadRegisters =>
    rw [effect_loadRegisters] at he
    cases he
    refine ⟨{ m with index := i }.indexBehind ins.x, ?_, Machine.indexBehind_congr hi ins.x⟩
    rw [effect_loadRegisters, Machine.loadedRegisters_congr hi]
    rfl
  case draw =>
    cases he
    refine ⟨i, ?_, hi⟩
    simp only [effect, Machine.drawSprite_congr hi]
    rfl
  all_goals exact absurd hop (by decide)

/-- An instruction with such an operation reads no more of the index either. -/
theorem execute_reading_index (hop : ins.op ∈ Component.index.readers) (hi : i % memorySize = m.index % memorySize)
    (hx : m.execute ins = .ok (n, notes)) :
    ∃ j, { m with index := i }.execute ins = .ok ({ n with index := j }, notes) ∧
      j % memorySize = n.index % memorySize := by
  obtain ⟨after, he, rfl⟩ := execute_eq_ok hx
  obtain ⟨j, he', hj⟩ := effect_reading_index hop hi he
  exact ⟨j, execute_of_effect he', hj⟩

/-- An operation that does not read the index leaves it alone or replaces it. -/
theorem effect_replacing_index (hop : op ∉ Component.index.readers) (hi : i % memorySize = m.index % memorySize)
    (he : effect op ins m = .ok (n, notes)) (he' : effect op ins { m with index := i } = .ok (n', notes')) :
    n'.index % memorySize = n.index % memorySize := by
  by_cases hreplaced : op = .loadIndex ∨ op = .pointGlyph
  · rcases hreplaced with rfl | rfl
    all_goals
      cases he
      cases he'
      rfl
  · have hframe : op ∉ [.loadIndex, .addIndex, .pointGlyph, .storeRegisters, .loadRegisters] := by
      simp only [Component.readers, List.mem_cons, List.not_mem_nil, or_false] at hop ⊢
      grind
    rw [(effect_frame he).index hframe, (effect_frame he').index hframe]
    exact hi

/-- Machines whose indices are at the same place stay together. -/
theorem index_coupling : Machine.Coupling [] fun _ m m' =>
    m.SameBut .index m' ∧ m'.index % memorySize = m.index % memorySize := by
  apply Machine.SameBut.coupling
  · intro _ m m' n n' hindex _ _ hm hm'
    rw [hm, hm']
    exact hindex
  · intro _ m m' op ins n notes hsame hindex he
    by_cases hop : op ∈ Component.index.readers
    · cases hsame with
      | index i =>
        obtain ⟨j, he', hj⟩ := effect_reading_index hop hindex he
        exact ⟨{ n with index := j }, he', .index j, hj⟩
    · obtain ⟨n', he', hn⟩ := effect_sameBut hsame hop he
      refine ⟨n', he', hn, ?_⟩
      cases hsame with
      | index i => exact effect_replacing_index hop hindex he he'

/-! ## Runs -/

namespace Emulator

/-- **A program cannot tell apart indices of the same place**: with any controls, emulators that differ in nothing else
give the same answers and differ in nothing else afterwards. -/
theorem index_unobservable {e e' : Emulator} (hsame : e.machine.SameBut .index e'.machine)
    (hindex : e'.machine.index % memorySize = e.machine.index % memorySize) (controls : List Control) :
    e.Alike e' controls ∧
    (e.performAll controls).machine.SameBut .index (e'.performAll controls).machine ∧
    (e'.performAll controls).machine.index % memorySize = (e.performAll controls).machine.index % memorySize :=
  index_coupling.performAll (k := 0) ⟨hsame, hindex⟩

/-- A program that stores digits at the first address behind memory is answered as at the first address of all, and
leaves the same memory. -/
theorem index_unobservable_behind : ∃ e e' : Emulator, e.Reachable ∧ e.machine.index = 0 ∧
    e'.machine.index = 0x1000 ∧ e.Alike e' [.step] ∧
    (e'.performAll [.step]).machine.memory = (e.performAll [.step]).machine.memory := by
  obtain ⟨e, h⟩ := exists_start .vast [0xF0, 0x33] 64 32 (.cycle []) false
    (by decide) (by decide) (by decide) (by decide)
  obtain ⟨_, _, he⟩ := start_eq h
  have hzero : e.machine.index = 0 := by rw [he]; rfl
  let e' : Emulator := { e with machine := { e.machine with index := 0x1000 } }
  have hindex : e'.machine.index % memorySize = e.machine.index % memorySize := by
    rw [hzero]
    rfl
  have hsame : e.machine.SameBut .index e'.machine := .index 0x1000
  obtain ⟨halike, hafter, -⟩ := index_unobservable hsame hindex [.step]
  exact ⟨e, e', .start h, hzero, rfl, halike, hafter.aligned.memory⟩

end Emulator

end ChipEight
