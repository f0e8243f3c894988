import ChipEight.Machine.Execute
import ChipEight.Proofs.MemoryRing

/-!
# Registers one by one

Registers are stored and loaded one by one while the index moves on in sixteen bits. What that comes to can be said at
once, because 65536 is a multiple of the size of memory.

- `Machine.storeEach_eq`: storing registers writes them to the addresses from the index on;
- `Machine.value_loadEach` and `Machine.loadEach_eq`: loading registers reads them from there;
- `effect_storeRegisters` and `effect_loadRegisters`: the two operations.
-/

namespace ChipEight

variable {m : Machine} {r s : Register} {registers : List Register}

/-- The index after so many moves. -/
def indexAfter (index : Int) : Nat → Int
  | 0 => index
  | n + 1 => indexAfter ((index + 1) % 0x10000) n

theorem indexAfter_succ (index : Int) (n : Nat) : indexAfter index (n + 1) = (index + n + 1) % 0x10000 := by
  induction n generalizing index with
  | zero => rw [indexAfter, indexAfter, Int.natCast_zero, Int.add_zero]
  | succ n ih =>
    rw [indexAfter, ih]
    omega

/-- One move of the index leads to the place of the next address. -/
theorem cell_wrap (index : Int) (k : Nat) : cell ((index + 1) % 0x10000 + k) = cell (index + (k + 1 : Nat)) := by
  apply cell_congr
  unfold memorySize
  omega

/-! ## The registers up to one -/

theorem mem_registersUpTo : s ∈ registersUpTo r ↔ s ≤ r := by
  revert r s
  decide

theorem nodup_registersUpTo (r : Register) : (registersUpTo r).Nodup :=
  (List.nodup_finRange _).sublist (List.take_sublist ..)

theorem length_registersUpTo (r : Register) : (registersUpTo r).length = r.val + 1 := by
  rw [registersUpTo, List.length_take, List.length_finRange]
  omega

theorem getElem_registersUpTo {k : Nat} (h : k < (registersUpTo r).length) : (registersUpTo r)[k].val = k := by
  simp [registersUpTo]

namespace Machine

/-! ## Storing -/

/-- The values of registers, at the addresses from the index on. -/
def writesOf (m : Machine) (registers : List Register) : List (Int × Int) :=
  registers.zipIdx.map fun (r, k) => (m.index + k, m.registers.value r)

/-- **Storing registers one by one** writes them to the addresses from the index on. -/
theorem storeEach_eq (m : Machine) (registers : List Register) : m.storeEach registers =
    ({ (m.store (m.writesOf registers)).1 with index := indexAfter m.index registers.length },
      (m.store (m.writesOf registers)).2) := by
  induction registers generalizing m with
  | nil => rfl
  | cons r rest ih =>
    let stored := (m.store [(m.index, m.registers.value r)]).1
    let later := rest.zipIdx.map fun (r, k) => (m.index + (k + 1 : Nat), m.registers.value r)
    have hwrites : m.writesOf (r :: rest) = [(m.index, m.registers.value r)] ++ later := by
      rw [writesOf, List.zipIdx_cons, List.map_cons, List.zipIdx_succ, List.map_map]
      simp [later]
    have hplaced : (stored.moveIndex.writesOf rest).map placed = later.map placed := by
      rw [writesOf, List.map_map, List.map_map]
      exact List.map_congr_left fun write _ => Prod.ext (cell_wrap m.index write.2) rfl
    have hstore : stored.moveIndex.store (stored.moveIndex.writesOf rest) =
        ({ (stored.store later).1 with index := (m.index + 1) % 0x10000 }, (stored.store later).2) :=
      store_congr hplaced _
    have hrest : stored.moveIndex.storeEach rest =
        ({ (stored.store later).1 with index := indexAfter m.index (rest.length + 1) }, (stored.store later).2) := by
      rw [ih, hstore]
      rfl
    rw [hwrites, store_append]
    show ((stored.moveIndex.storeEach rest).1, _ ++ (stored.moveIndex.storeEach rest).2) = _
    rw [hrest]
    rfl

/-! ## Loading -/

/-- Loading changes registers and the index. -/
theorem loadEach_frame (m : Machine) (registers : List Register) : m.loadEach registers =
    { m with registers := (m.loadEach registers).registers, index := indexAfter m.index registers.length } := by
  induction registers generalizing m with
  | nil => rfl
  | cons r rest ih => exact ih _

/-- A register that is not loaded stays. -/
theorem value_loadEach_of_not_mem (h : s ∉ registers) :
    (m.loadEach registers).registers.value s = m.registers.value s := by
  induction registers generalizing m with
  | nil => rfl
  | cons r rest ih =>
    rw [loadEach, ih (List.not_mem_of_not_mem_cons h)]
    exact (Registers.value_put ..).trans (if_neg (List.ne_of_not_mem_cons h).symm)

/-- **Loading registers one by one** reads them from the addresses from the index on. -/
theorem value_loadEach (hnodup : registers.Nodup) {k : Nat} (hk : k < registers.length) :
    (m.loadEach registers).registers.value registers[k] = (m.memory.read (m.index + k)).toNat := by
  induction registers generalizing m k with
  | nil => exact absurd hk (Nat.not_lt_zero k)
  | cons r rest ih =>
    obtain ⟨hr, hrest⟩ := List.nodup_cons.mp hnodup
    cases k with
    | zero =>
      rw [List.getElem_cons_zero, loadEach, value_loadEach_of_not_mem hr, Int.natCast_zero, Int.add_zero]
      exact (Registers.value_put ..).trans (if_pos rfl)
    | succ k =>
      rw [List.getElem_cons_succ, loadEach, ih hrest (Nat.lt_of_succ_lt_succ hk),
        ← m.memory.read_congr (cell_wrap m.index k)]
      rfl

/-! ## All registers up to one -/

/-- The values of the registers up to `r`, at the addresses from the index on. -/
def registerWrites (m : Machine) (r : Register) : List (Int × Int) :=
  m.writesOf (registersUpTo r)

/-- The registers with those up to `r` read from memory at the addresses from the index on. -/
def loadedRegisters (m : Machine) (r : Register) : Registers :=
  .ofFn fun k => if k ≤ r then (m.memory.read (m.index + k.val)).toNat else m.registers.value k

/-- The index behind the registers up to `r`. -/
def indexBehind (m : Machine) (r : Register) : Int :=
  (m.index + r.val + 1) % 0x10000

/-- The registers up to `r` are loaded and the others stay. -/
theorem value_loadedRegisters (m : Machine) (r s : Register) : (m.loadedRegisters r).value s =
    if s ≤ r then ((m.memory.read (m.index + s.val)).toNat : Int) else m.registers.value s := by
  simp [loadedRegisters, Registers.value]

theorem indexAfter_registersUpTo (m : Machine) (r : Register) :
    indexAfter m.index (registersUpTo r).length = m.indexBehind r := by
  rw [length_registersUpTo, indexAfter_succ, indexBehind]

/-- **Loading the registers up to `r`** at once. -/
theorem loadEach_eq (m : Machine) (r : Register) : m.loadEach (registersUpTo r) =
    { m with registers := m.loadedRegisters r, index := m.indexBehind r } := by
  have hregisters : (m.loadEach (registersUpTo r)).registers = m.loadedRegisters r := by
    refine Vector.ext fun k hk => ?_
    have hvalue : (m.loadEach (registersUpTo r)).registers.value ⟨k, hk⟩ = (m.loadedRegisters r).value ⟨k, hk⟩ := by
      rw [value_loadedRegisters]
      by_cases hle : (⟨k, hk⟩ : Register) ≤ r
      · have hlt : k < (registersUpTo r).length := by
          rw [length_registersUpTo]
          exact Nat.lt_succ_of_le hle
        have hget : (registersUpTo r)[k] = ⟨k, hk⟩ := Fin.ext (getElem_registersUpTo hlt)
        have hload := value_loadEach (m := m) (nodup_registersUpTo r) hlt
        rw [hget] at hload
        rw [if_pos hle, hload]
      · rw [if_neg hle, value_loadEach_of_not_mem (mt mem_registersUpTo.mp hle)]
    exact hvalue
  rw [loadEach_frame, hregisters, indexAfter_registersUpTo]

end Machine

/-! ## The operations -/

/-- What storing the registers up to one comes to. -/
theorem effect_storeRegisters (ins : Instruction) (m : Machine) : effect .storeRegisters ins m =
    .ok ({ (m.store (m.registerWrites ins.x)).1 with index := m.indexBehind ins.x }.advance,
      (m.store (m.registerWrites ins.x)).2) := by
  simp only [effect, Machine.storeEach_eq, m.indexAfter_registersUpTo]
  rfl

/-- What loading the registers up to one comes to. -/
theorem effect_loadRegisters (ins : Instruction) (m : Machine) : effect .loadRegisters ins m =
    .ok ({ m with registers := m.loadedRegisters ins.x, index := m.indexBehind ins.x }.advance, []) := by
  simp only [effect, quietly, Machine.loadEach_eq]

end ChipEight
