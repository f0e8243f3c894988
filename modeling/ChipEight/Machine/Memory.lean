import ChipEight.Rom.Size

/-!
# Memory

Memory is a ring of 4096 bytes: every integer is an address, and addresses that differ by a multiple of 4096 are the
same. The glyphs of the sixteen hexadecimal digits stand at its start and cannot be overwritten.

* `Memory.read` and `Memory.write` take any integer as an address and a value; `read_write` says what a byte is after a
  write, and `read_writeAll` that many writes leave the others as they are.
* `assign` puts elements in the place of a part of a list; `length_assign` says when the length stays.
* `Memory.image` is the memory of a machine that was just switched on with a program: zeros, with the glyphs and then
  the program assigned to their places. For programs that fit, that is all of it (`toList_image`); `assembled_eq` and
  `image_eq` say what is in which place.
-/

namespace ChipEight

/-- The bytes of a glyph. -/
def glyphSize : Nat := 5

/-- The glyphs of the hexadecimal digits, one byte for every row from the top, the leftmost cell in its high bit. -/
def font : List UInt8 := [
  0xF0, 0x90, 0x90, 0x90, 0xF0,
  0x20, 0x60, 0x20, 0x20, 0x70,
  0xF0, 0x10, 0xF0, 0x80, 0xF0,
  0xF0, 0x10, 0xF0, 0x10, 0xF0,
  0x90, 0x90, 0xF0, 0x10, 0x10,
  0xF0, 0x80, 0xF0, 0x10, 0xF0,
  0xF0, 0x80, 0xF0, 0x90, 0xF0,
  0xF0, 0x10, 0x20, 0x40, 0x40,
  0xF0, 0x90, 0xF0, 0x90, 0xF0,
  0xF0, 0x90, 0xF0, 0x10, 0xF0,
  0xF0, 0x90, 0xF0, 0x90, 0x90,
  0xE0, 0x90, 0xE0, 0x90, 0xE0,
  0xF0, 0x80, 0x80, 0x80, 0xF0,
  0xE0, 0x90, 0x90, 0x90, 0xE0,
  0xF0, 0x80, 0xF0, 0x80, 0xF0,
  0xF0, 0x80, 0xF0, 0x80, 0x80]

/-- The address of the first glyph. -/
def fontStart : Nat := 0

/-- The address behind the last glyph. -/
def fontEnd : Nat := fontStart + font.length

/-- The contents of the memory. -/
abbrev Memory := Vector UInt8 memorySize

/-- The place in the ring that an integer addresses. -/
def cell (address : Int) : Fin memorySize :=
  ⟨(address % memorySize).toNat, by unfold memorySize; omega⟩

/-- Whether an address lies in the glyphs. -/
def inFont (address : Int) : Bool :=
  (cell address).val < fontEnd

/-- The byte with the low eight bits of an integer. -/
def lowByte (value : Int) : UInt8 :=
  UInt8.ofNat (value % 256).toNat

/-- A list with other elements in the place of those from `start` up to `stop`; there may be more of them, or fewer. -/
def assign {α : Type} (xs : List α) (start stop : Nat) (elements : List α) : List α :=
  xs.take start ++ elements ++ xs.drop (max start stop)

/-- A list keeps its length if as many elements are put in as are taken out. -/
theorem length_assign {α : Type} {xs elements : List α} {start stop : Nat} (hle : start ≤ stop)
    (hstop : stop ≤ xs.length) (h : elements.length = stop - start) :
    (assign xs start stop elements).length = xs.length := by
  simp only [assign, List.length_append, List.length_take, List.length_drop, h]
  omega

namespace Memory

/-- The byte at an address. -/
def read (mem : Memory) (address : Int) : UInt8 :=
  mem[cell address]

/-- Stores the low eight bits of a value, unless the address lies in the glyphs. -/
def write (mem : Memory) (address value : Int) : Memory :=
  if inFont address then mem else mem.set (cell address) (lowByte value)

/-- Stores values one after the other. -/
def writeAll (mem : Memory) (writes : List (Int × Int)) : Memory :=
  writes.foldl (fun m (address, value) => m.write address value) mem

/-- The `count` bytes from an address on. -/
def slice (mem : Memory) (start : Int) (count : Nat) : List UInt8 :=
  (List.range count).map fun (k : Nat) => mem.read (start + k)

/-- Zeros, with the glyphs and then a program assigned to their places. -/
def assembled (program : List UInt8) : List UInt8 :=
  assign (assign (List.replicate memorySize 0) fontStart fontEnd font) programStart (programStart + program.length)
    program

/-- Memory that holds a list of bytes from its start on, as far as they go and as far as they fit. -/
def ofList (bytes : List UInt8) : Memory :=
  Vector.ofFn fun a => bytes.getD a.val 0

/-- The memory of a machine that is switched on with a program. -/
def image (program : List UInt8) : Memory :=
  ofList (assembled program)

/-- Bytes that fill the memory are its contents. -/
theorem toList_ofList {bytes : List UInt8} (h : bytes.length = memorySize) : (ofList bytes).toList = bytes := by
  apply List.ext_getElem
  · rw [Vector.length_toList, h]
  · intro k hk hk'
    simp [ofList, hk']

/-- With a program that fits, memory keeps its size. -/
theorem length_assembled {program : List UInt8} (h : program.length ≤ maxProgram) :
    (assembled program).length = memorySize := by
  have hfont : (assign (List.replicate memorySize (0 : UInt8)) fontStart fontEnd font).length = memorySize := by
    rw [length_assign (by decide) (by rw [List.length_replicate]; decide) rfl, List.length_replicate]
  have hstop : programStart + program.length ≤ memorySize := by
    have : programStart ≤ memorySize := by decide
    unfold maxProgram at h
    omega
  rw [assembled, length_assign (Nat.le_add_right ..) (by rw [hfont]; exact hstop) (Nat.add_sub_cancel_left ..).symm,
    hfont]

/-- **The first memory** is the list that the assignments come to, nothing lost and nothing added. -/
theorem toList_image {program : List UInt8} (h : program.length ≤ maxProgram) :
    (image program).toList = assembled program :=
  toList_ofList (length_assembled h)

/-- Zeros with the glyphs assigned to their place. -/
theorem assign_font : assign (List.replicate memorySize 0) fontStart fontEnd font =
    font ++ List.replicate (memorySize - fontEnd) 0 := by
  have hmax : max fontStart fontEnd = fontEnd := rfl
  rw [assign, hmax, List.drop_replicate]
  rfl

/-- What the assignments come to: the glyphs, a gap, the program, and what is left behind it. -/
theorem assembled_eq (program : List UInt8) : assembled program =
    font ++ List.replicate (programStart - fontEnd) 0 ++ program ++
      List.replicate (memorySize - (programStart + program.length)) 0 := by
  have hfont : font.length = fontEnd := rfl
  have hends : fontEnd ≤ programStart ∧ programStart ≤ memorySize := by decide
  have hgap : min (programStart - fontEnd) (memorySize - fontEnd) = programStart - fontEnd := by omega
  have hrest : memorySize - fontEnd - (programStart + program.length - fontEnd) =
      memorySize - (programStart + program.length) := by omega
  rw [assembled, assign_font, assign, Nat.max_eq_right (Nat.le_add_right ..), List.take_append, List.drop_append,
    List.take_replicate, List.drop_replicate, hfont, List.take_of_length_le (Nat.le_trans (Nat.le_of_eq hfont) hends.1),
    List.drop_eq_nil_of_le (by rw [hfont]; omega), List.nil_append, hgap, hrest]

/-- The first memory cell by cell. -/
theorem image_eq (program : List UInt8) : image program = Vector.ofFn fun a =>
    if h : a.val < font.length then font[a.val]
    else if a.val < programStart then 0
    else program.getD (a.val - programStart) 0 := by
  have hfont : font.length = 80 := rfl
  have hend : fontEnd = 80 := rfl
  have hprogram : programStart = 512 := rfl
  apply Vector.ext
  intro k hk
  simp only [image, ofList, Vector.getElem_ofFn, assembled_eq, List.getD_eq_getElem?_getD, List.getElem?_append,
    List.getElem?_replicate, List.length_append, List.length_replicate, hfont, hend, hprogram]
  by_cases hglyph : k < 80
  · have hinside : k < 80 + (512 - 80) + program.length := by omega
    have hbefore : k < 80 + (512 - 80) := by omega
    rw [if_pos hinside, if_pos hbefore, if_pos hglyph, dif_pos hglyph, List.getElem?_eq_getElem hglyph]
    rfl
  · rw [dif_neg hglyph]
    by_cases hgap : k < 512
    · have hinside : k < 80 + (512 - 80) + program.length := by omega
      have hbefore : k < 80 + (512 - 80) := by omega
      rw [if_pos hinside, if_pos hbefore, if_neg hglyph, if_pos (by omega), if_pos hgap, Option.getD_some]
    · have hbefore : ¬ k < 80 + (512 - 80) := by omega
      rw [if_neg hgap, if_neg hbefore]
      split
      case isTrue hinside => rfl
      case isFalse hbehind =>
        have hpast : program.length ≤ k - 512 := by omega
        rw [List.getElem?_eq_none hpast]
        split <;> rfl

/-- The byte at an address after a write there or elsewhere. -/
theorem read_write (mem : Memory) (address value other : Int) :
    (mem.write address value).read other =
      if cell other = cell address ∧ inFont address = false then lowByte value else mem.read other := by
  unfold write read
  cases h : inFont address
  · by_cases hc : cell other = cell address
    · simp [hc, Fin.getElem_fin]
    · have : (cell address).val ≠ (cell other).val := fun e => hc (Fin.ext e.symm)
      simp [hc, Fin.getElem_fin, this]
  · simp

/-- A byte that no write reaches stays as it is; the glyphs cannot be reached. -/
theorem read_writeAll (mem : Memory) {writes : List (Int × Int)} {other : Int}
    (h : ∀ write ∈ writes, cell other = cell write.1 → inFont write.1 = true) :
    (mem.writeAll writes).read other = mem.read other := by
  induction writes generalizing mem with
  | nil => rfl
  | cons write writes ih =>
    obtain ⟨hfirst, hrest⟩ := List.forall_mem_cons.mp h
    have hkept : (mem.write write.1 write.2).read other = mem.read other := by
      rw [read_write, if_neg]
      rintro ⟨hc, hf⟩
      rw [hfirst hc] at hf
      cases hf
    exact (ih (mem.write write.1 write.2) hrest).trans hkept

end Memory

end ChipEight
