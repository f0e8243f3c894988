import ChipEight.Proofs.Events
import ChipEight.Proofs.MemoryRing
import ChipEight.Rom.HexListing
import ChipEight.Rom.Load

/-!
# The image of a program

What memory is like when a machine is switched on, and which programs and screens a start accepts.

- `Memory.toList_image_eq`: the glyphs, a gap of zeros, the program, and zeros up to the end of memory;
- `Memory.read_image_elsewhere`: behind the glyphs, all bytes but those of the program are zero;
- `Machine.Fresh` is what is asked of a machine that was just switched on; `Emulator.start_of_fits` grants it;
- `Rom.found_of_load`: a program is read from a file as it stands there;
- `start_image`: the main statement.
-/

namespace ChipEight

variable {platform : Platform} {program : List UInt8} {width height : Int} {random : RandomSource} {tracing : Bool}
  {e : Emulator}

/-! ## Memory -/

namespace Memory

/-- **The first memory from end to end.** -/
theorem toList_image_eq (h : program.length ≤ maxProgram) : (image program).toList =
    font ++ List.replicate 432 0 ++ program ++ List.replicate (maxProgram - program.length) 0 := by
  have hrest : memorySize - (programStart + program.length) = maxProgram - program.length := Nat.sub_add_eq ..
  rw [toList_image h, assembled_eq, hrest]
  rfl

/-- Behind the glyphs, all bytes but those of the program are zero. -/
theorem read_image_elsewhere {address : Nat} (hglyphs : font.length ≤ address) (hend : address < memorySize)
    (helsewhere : address < programStart ∨ programStart + program.length ≤ address) :
    (image program).read address = 0 := by
  have hcell : cell address = ⟨address, hend⟩ := cell_val ⟨address, hend⟩
  have hread : (image program).read address =
      if address < programStart then 0 else program.getD (address - programStart) 0 := by
    simp [read, image_eq, hcell, Nat.not_lt.mpr hglyphs]
  rw [hread]
  split
  · rfl
  · rw [List.getD_eq_getElem?_getD, List.getElem?_eq_none (by omega)]
    rfl

end Memory

/-! ## Starts -/

/-- What is asked of a machine that was just switched on with a program and a screen of some size. -/
structure Machine.Fresh (m : Machine) (program : List UInt8) (width height : Int) : Prop where
  /-- The glyphs, zeros up to the program, the program, and zeros up to the end. -/
  memory : m.memory.toList =
    font ++ List.replicate 432 0 ++ program ++ List.replicate (3584 - program.length) 0
  read : ∀ k (h : k < program.length), m.memory.read (0x200 + k) = program[k]
  elsewhere : ∀ address : Nat, 0x50 ≤ address → address < 0x1000 →
    address < 0x200 ∨ 0x200 + program.length ≤ address → m.memory.read address = 0
  pc : m.pc = 0x200
  columns : m.screen.width = width
  rows : m.screen.height = height
  dark : m.screen.cells.toList = List.replicate (width * height).toNat false

theorem Machine.fresh_boot (hp : program.length ≤ maxProgram) {width height : Nat} (hw : 0 < width) (hh : 0 < height)
    (random : RandomSource) : (Machine.boot program (.blank width height hw hh) random).Fresh program width height where
  memory := Memory.toList_image_eq hp
  read k h := by
    have hread : (Memory.image program).read (programStart + k) = program.getD k 0 :=
      Emulator.read_image program (Nat.lt_of_lt_of_le h hp)
    rw [List.getD_eq_getElem?_getD, List.getElem?_eq_getElem h, Option.getD_some] at hread
    exact hread
  elsewhere _ hglyphs hend helsewhere := Memory.read_image_elsewhere hglyphs hend helsewhere
  pc := rfl
  columns := rfl
  rows := rfl
  dark := Array.toList_replicate

namespace Emulator

/-- The number of cells of a screen with positive sides. -/
theorem toNat_mul_toNat (hw : 0 < width) (hh : 0 < height) :
    ((width.toNat * height.toNat : Nat) : Int) = width * height := by
  rw [Int.natCast_mul, Int.toNat_of_nonneg (Int.le_of_lt hw), Int.toNat_of_nonneg (Int.le_of_lt hh)]

/-- A start with all that fits makes a fresh machine. -/
theorem start_of_fits (hp : program.length ≤ maxProgram) (hw : 0 < width) (hh : 0 < height)
    (hcount : width * height < 0x8000000000000000) (hroom : platform.hasRoom (width * height).toNat = true)
    (random : RandomSource) (tracing : Bool) :
    ∃ e, Emulator.start platform program width height random tracing = .ok e ∧
      e.machine.Fresh program width height := by
  have hcells : (width * height).toNat = width.toNat * height.toNat := by
    rw [← toNat_mul_toNat hw hh, Int.toNat_natCast]
  have hfits : platform.Holds (width.toNat * height.toNat) := by
    rw [← hcells]
    exact ⟨by unfold countableCells; omega, hroom⟩
  obtain ⟨e, h⟩ := exists_start platform program width height random tracing hp hw hh hfits
  obtain ⟨hw', hh', he⟩ := start_eq h
  have hfresh := Machine.fresh_boot hp hw' hh' random
  rw [Int.toNat_of_nonneg (Int.le_of_lt hw), Int.toNat_of_nonneg (Int.le_of_lt hh)] at hfresh
  exact ⟨e, h, by rw [he]; exact hfresh⟩

end Emulator

/-! ## Files -/

/-- A program is read from a file as it stands there. -/
theorem Rom.found_of_load {files : FileSystem} {path : String} {note : Note}
    (h : Rom.load files path = .ok (program, note)) : files (Path.ofString path) = .found program := by
  unfold Rom.load at h
  cases hfile : files (Path.ofString path) with
  | missing => simp [hfile] at h
  | nameTooLong => simp [hfile] at h
  | found bytes =>
    cases hsize : checkSize (.file (Path.ofString path).lastName) bytes with
    | error fault => simp [hfile, hsize] at h
    | ok checked =>
      simp only [hfile, hsize, Except.ok.injEq, Prod.mk.injEq] at h
      rw [← h.1, (length_le_of_checkSize hsize).1]

/-! ## The main statement -/

/-- **The image of a program.** A start refuses too long a program, then a screen without cells or with more than can be
counted; on a platform with room for the screen, it makes a fresh machine in all other cases. -/
theorem start_image (platform : Platform) (random : RandomSource) (tracing : Bool) :
    (∀ (program : List UInt8) (width height : Int),
      let answer := Emulator.start platform program width height random tracing
      (3584 < program.length → answer = .error (.oversize ⟨.image, program.length⟩)) ∧
      (program.length ≤ 3584 →
        (width ≤ 0 ∨ height ≤ 0 → answer = .error (.badScreen width height)) ∧
        (0 < width → 0 < height →
          (0x8000000000000000 ≤ width * height → answer = .error (.tooManyCells .uncountable)) ∧
          (width * height < 0x8000000000000000 → platform.hasRoom (width * height).toNat = true →
            ∃ e, answer = .ok e ∧ e.machine.Fresh program width height)))) ∧
    (∀ files path program note, Rom.load files path = .ok (program, note) →
      files (Path.ofString path) = .found program) ∧
    ∀ program, (∃ files path note, Rom.load files path = .ok (program, note)) ∨
        (∃ text, HexListing.parse text = .ok program) →
      ∀ width height : Int, 0 < width → 0 < height → width * height < 0x8000000000000000 →
        platform.hasRoom (width * height).toNat = true →
        ∃ e, Emulator.start platform program width height random tracing = .ok e ∧
          e.machine.Fresh program width height := by
  refine ⟨?_, ?_, ?_⟩
  · intro program width height answer
    refine ⟨fun hlong => Emulator.start_of_oversize hlong width height random tracing, fun hp => ⟨?_, ?_⟩⟩
    · exact fun hcells => Emulator.start_of_noCells hp hcells random tracing
    · intro hw hh
      refine ⟨fun huncountable => ?_, fun hcount hroom => Emulator.start_of_fits hp hw hh hcount hroom random tracing⟩
      have hcells : ((width.toNat * height.toNat : Nat) : Int) = width * height := Emulator.toNat_mul_toNat hw hh
      refine Emulator.start_of_tooManyCells hp hw hh ?_ random tracing
      rw [checkCells, if_pos (by unfold countableCells; omega)]
  · exact fun files path program note h => Rom.found_of_load h
  · intro program hread width height hw hh hcount hroom
    have hp : program.length ≤ maxProgram := by
      rcases hread with ⟨files, path, note, h⟩ | ⟨text, h⟩
      · exact Rom.length_le_of_load h
      · exact HexListing.length_le_of_parse h
    exact Emulator.start_of_fits hp hw hh hcount hroom random tracing

/-- A screen one high with more cells than can be counted is refused, although its sides are positive. -/
theorem start_uncountable : ([] : List UInt8).length ≤ 3584 ∧ (0 : Int) < 0x8000000000000000 ∧ (0 : Int) < 1 ∧
    Emulator.start .vast [] 0x8000000000000000 1 (.cycle []) false = .error (.tooManyCells .uncountable) := by
  refine ⟨by decide, by decide, by decide, ?_⟩
  exact Emulator.start_of_tooManyCells (by decide) (by decide) (by decide) rfl (.cycle []) false

/-- A listing of two bytes and a small screen; a program that is too long, with a screen that has no cells. -/
theorem start_image_two_bytes : HexListing.parse "1200".toList = .ok [0x12, 0x00] ∧
    (∃ e, Emulator.start .vast [0x12, 0x00] 8 4 (.cycle []) false = .ok e ∧ e.machine.Fresh [0x12, 0x00] 8 4) ∧
    Emulator.start .vast (List.replicate 3585 0) 0 0 (.cycle []) false = .error (.oversize ⟨.image, 3585⟩) := by
  have hlisting : HexListing.parse "1200".toList = .ok [0x12, 0x00] := rfl
  obtain ⟨hanswer, -, hlisted⟩ := start_image .vast (.cycle []) false
  refine ⟨hlisting, ?_, ?_⟩
  · exact hlisted [0x12, 0x00] (.inr ⟨_, hlisting⟩) 8 4 (by decide) (by decide) (by decide) rfl
  · have hlength : (List.replicate 3585 (0 : UInt8)).length = 3585 := List.length_replicate
    have hrefused := (hanswer (List.replicate 3585 0) 0 0).1 (by rw [hlength]; decide)
    rw [hlength] at hrefused
    exact hrefused

end ChipEight
