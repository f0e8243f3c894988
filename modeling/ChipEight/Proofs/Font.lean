import Mathlib.Algebra.Ring.Parity
import ChipEight.Proofs.Blit
import ChipEight.Proofs.Decoding
import ChipEight.Proofs.Events
import ChipEight.Proofs.MemoryRing

/-!
# The glyphs in memory

The glyphs of the sixteen digits stand at the start of memory, and nothing that a host or a program does changes them.

- `slice_font_writeAll`: no writes change the glyphs;
- `effect_memory`: what an operation does to memory are writes, so that every run keeps the glyphs (`hasFont_kept`);
- `execute_pointGlyph` and `execute_draw`: the instructions that show a digit;
- `font_kept`: the main statement, for runs in which the host writes to memory as well.
-/

namespace ChipEight

variable {op : Op} {ins : Instruction} {m m' : Machine} {notes : List Note} {mem : Memory}

/-! ## Memory -/

/-- The rows of the glyph of a digit. -/
def glyph (digit : Fin 16) : List UInt8 :=
  (font.drop (glyphSize * digit.val)).take glyphSize

theorem length_glyph (digit : Fin 16) : (glyph digit).length = glyphSize := by
  revert digit
  decide

/-- A glyph in the table of all glyphs. -/
theorem getElem?_glyph {digit : Fin 16} {r : Nat} {row : UInt8} :
    (glyph digit)[r]? = some row ↔ r < glyphSize ∧ font.getD (glyphSize * digit.val + r) 0 = row := by
  rw [glyph, List.getElem?_take, List.getElem?_drop]
  by_cases hr : r < glyphSize
  · have hlt : glyphSize * digit.val + r < font.length := by
      have hf : font.length = 80 := rfl
      have hd := digit.isLt
      unfold glyphSize at *
      omega
    rw [if_pos hr, List.getD_eq_getElem?_getD, List.getElem?_eq_getElem hlt, Option.some.injEq, Option.getD_some,
      and_iff_right hr]
  · rw [if_neg hr]
    exact iff_of_false nofun fun h => hr h.1

namespace Memory

theorem slice_font_writeAll (mem : Memory) (writes : List (Int × Int)) :
    (mem.writeAll writes).slice fontStart font.length = mem.slice fontStart font.length := by
  refine List.map_congr_left fun k hk => read_writeAll_of_inFont ?_
  rw [fontStart, Int.natCast_zero, Int.zero_add]
  exact inFont_natCast (List.mem_range.mp hk)

theorem slice_font_image (program : List UInt8) : (image program).slice fontStart font.length = font := by
  refine List.ext_getElem (by simp [slice]) fun k _ hk => ?_
  have hf : font.length = 80 := rfl
  have hc : (cell (fontStart + k)).val = k := by
    show (((fontStart : Int) + k) % memorySize).toNat = k
    unfold memorySize fontStart
    omega
  simp [slice, read, image_eq, hc, hk]

theorem take_drop_slice (mem : Memory) (start : Int) {count skipped taken : Nat} (h : skipped + taken ≤ count) :
    ((mem.slice start count).drop skipped).take taken = mem.slice (start + skipped) taken := by
  refine List.ext_getElem ?_ fun k _ _ => ?_
  · simp only [slice, List.length_take, List.length_drop, List.length_map, List.length_range]
    omega
  · simp only [slice, List.getElem_take, List.getElem_drop, List.getElem_map, List.getElem_range]
    congr 1
    omega

end Memory

/-! ## Machines -/

/-- The glyphs stand at the start of memory. -/
def Machine.HasFont (m : Machine) : Prop :=
  m.memory.slice fontStart font.length = font

/-- What an operation does to memory are writes. -/
theorem effect_memory (h : effect op ins m = .ok (m', notes)) : ∃ writes, m'.memory = m.memory.writeAll writes := by
  by_cases hd : op = .storeDecimal
  · subst hd
    cases h
    exact ⟨m.decimalWrites ins.x, rfl⟩
  · by_cases hr : op = .storeRegisters
    · subst hr
      rw [effect_storeRegisters] at h
      cases h
      exact ⟨m.registerWrites ins.x, rfl⟩
    · exact ⟨[], (effect_frame h).memory hd hr⟩

namespace Machine

theorem store_hasFont (h : m.HasFont) (writes : List (Int × Int)) : (m.store writes).1.HasFont :=
  (Memory.slice_font_writeAll m.memory writes).trans h

theorem execute_hasFont (h : m.HasFont) (he : m.execute ins = .ok (m', notes)) : m'.HasFont := by
  obtain ⟨n, hn, rfl⟩ := execute_eq_ok he
  obtain ⟨writes, hw⟩ := effect_memory hn
  show n.memory.slice fontStart font.length = font
  rw [hw, Memory.slice_font_writeAll]
  exact h

theorem hasFont_kept : Kept HasFont :=
  .of_cases (fun _ h => h) (fun _ _ _ _ h he => execute_hasFont h he) (fun _ _ _ h => h) (fun _ _ _ h => h)

/-- Five bytes of the glyphs make up the glyph of a digit. -/
theorem HasFont.slice_glyph (h : m.HasFont) (digit : Fin 16) :
    m.memory.slice (digit.val * glyphSize) glyphSize = glyph digit := by
  have hd := digit.isLt
  have hle : glyphSize * digit.val + glyphSize ≤ font.length := by
    have hf : font.length = 80 := rfl
    unfold glyphSize
    omega
  have hstart : (digit.val * glyphSize : Int) = fontStart + (glyphSize * digit.val : Nat) := by
    unfold fontStart glyphSize
    omega
  calc m.memory.slice (digit.val * glyphSize) glyphSize
      = ((m.memory.slice fontStart font.length).drop (glyphSize * digit.val)).take glyphSize := by
        rw [hstart, Memory.take_drop_slice _ _ hle]
    _ = glyph digit := by
        rw [show m.memory.slice fontStart font.length = font from h]
        rfl

/-! ## Showing a digit -/

/-- The word that draws five rows at the place that two registers name. -/
theorem decode_draw (x y : Register) : (Instruction.decode (0xD005 + 0x100 * x.val + 0x10 * y.val)).op = .draw ∧
    (Instruction.decode (0xD005 + 0x100 * x.val + 0x10 * y.val)).x = x ∧
    (Instruction.decode (0xD005 + 0x100 * x.val + 0x10 * y.val)).y = y ∧
    (Instruction.decode (0xD005 + 0x100 * x.val + 0x10 * y.val)).n.val = 5 := by
  have hword : (0xD005 + 0x100 * x.val + 0x10 * y.val : Int) = 0xD * 0x1000 + x.val * 0x100 + y.val * 0x10 + 5 := by
    omega
  obtain ⟨hop, hx, hy, hn⟩ := decode_word 0xD x y 5 hword
  exact ⟨hop, hx, hy, congrArg Fin.val hn⟩

/-- Pointing at a glyph moves the index there and changes nothing else. -/
theorem execute_pointGlyph (hop : ins.op = .pointGlyph) : m.execute ins =
    .ok ({ m with index := m.registers.value ins.x * glyphSize, pc := (m.pc + 2) % memorySize, cycles := m.cycles + 1 },
      []) := by
  have hv : ins.valid = true := by simp [Instruction.valid, hop]
  have he : effect ins.op ins m =
      .ok ({ m with index := m.registers.value ins.x * glyphSize, pc := m.pc + 2 }, []) := by
    rw [hop]
    rfl
  rw [execute_of_effect he, hv]
  rfl

theorem execute_draw (hop : ins.op = .draw) : ∃ m', m.execute ins = .ok (m', []) ∧
    m'.screen = (m.screen.draw (m.memory.sprite m.index ins.n.val) (m.registers.value ins.x)
      (m.registers.value ins.y)).1 := by
  have he : effect ins.op ins m = effect .draw ins m := by rw [hop]
  exact ⟨_, execute_of_effect he, rfl⟩

end Machine

/-- Drawing changes the cells that an odd number of bits fall on. -/
theorem Screen.lit_draw (s : Screen) (rows : List UInt8) (x y : Int) {cx cy : Nat} (hx : cx < s.width)
    (hy : cy < s.height) :
    (s.draw rows x y).1.lit cx cy = (s.lit cx cy ^^ decide (Odd (s.hits rows x y cx cy))) := by
  rw [← countP_targets]
  exact lit_foldl_hit _ s false hx hy

/-! ## Hosts that write to memory -/

/-- What a host can do: use a control, or write a byte to memory itself. -/
inductive HostAct where
  | control (control : Control)
  | write (address value : Int)
  deriving DecidableEq, Repr

namespace Emulator

variable {e : Emulator}

/-- Writes a value to memory and logs the note if the write is refused. -/
def write (e : Emulator) (address value : Int) : Emulator :=
  e.become (e.machine.store [(address, value)]).1 (e.machine.store [(address, value)]).2

/-- Lets a host act. -/
def act (e : Emulator) : HostAct → Emulator
  | .control control => (e.perform control).2
  | .write address value => e.write address value

def actAll (e : Emulator) (acts : List HostAct) : Emulator :=
  acts.foldl act e

theorem act_hasFont (h : e.machine.HasFont) (act : HostAct) : (e.act act).machine.HasFont := by
  cases act with
  | control control => exact Machine.hasFont_kept.emulator.perform h control
  | write address value => exact Machine.store_hasFont h [(address, value)]

theorem actAll_hasFont (h : e.machine.HasFont) (acts : List HostAct) : (e.actAll acts).machine.HasFont := by
  induction acts generalizing e with
  | nil => exact h
  | cons act acts ih => exact ih (act_hasFont h act)

end Emulator

/-- **The glyphs are never changed**, whatever a host does; so a register that holds a digit leads to its five rows, and
drawing them changes the cells that an odd number of their bits fall on. -/
theorem font_kept {platform : Platform} {program : List UInt8} {width height : Int} {random : RandomSource}
    {tracing : Bool} {e : Emulator} (h : Emulator.start platform program width height random tracing = .ok e)
    (acts : List HostAct) :
    let now := (e.actAll acts).machine
    now.memory.slice fontStart font.length = font ∧
    ∀ (m : Machine) (x : Register) (digit : Fin 16), m.memory = now.memory → m.registers.value x = digit.val →
      ∃ pointing, m.execute (.decode (0xF029 + 0x100 * x.val)) = .ok (pointing, []) ∧
        pointing = { m with index := pointing.index, pc := pointing.pc, cycles := pointing.cycles } ∧
        pointing.memory.slice pointing.index 5 = (font.drop (5 * digit.val)).take 5 ∧
        ∀ (m : Machine) (a b : Register), m.memory = now.memory → m.index = pointing.index →
          ∃ drawn, m.execute (.decode (0xD005 + 0x100 * a.val + 0x10 * b.val)) = .ok (drawn, []) ∧
            drawn.screen.width = m.screen.width ∧ drawn.screen.height = m.screen.height ∧
            ∀ cx cy, cx < m.screen.width → cy < m.screen.height → drawn.screen.lit cx cy = (m.screen.lit cx cy ^^
              decide (Odd (m.screen.hits ((font.drop (5 * digit.val)).take 5) (m.registers.value a)
                (m.registers.value b) cx cy))) := by
  intro now
  obtain ⟨_, _, he⟩ := Emulator.start_eq h
  have hfont : now.HasFont := by
    refine Emulator.actAll_hasFont ?_ acts
    rw [he]
    exact Memory.slice_font_image program
  refine ⟨hfont, fun m x digit hm hx => ?_⟩
  obtain ⟨hop, hins⟩ : (Instruction.decode (0xF029 + 0x100 * x.val)).op = .pointGlyph ∧
      (Instruction.decode (0xF029 + 0x100 * x.val)).x = x := decode_lowByte x 2 9
  refine ⟨_, Machine.execute_pointGlyph hop, rfl, ?_, fun m' a b hm' hindex => ?_⟩
  · rw [hins, hx]
    show m.memory.slice _ _ = _
    rw [hm]
    exact hfont.slice_glyph digit
  · obtain ⟨hop', ha, hb, hn⟩ := Machine.decode_draw a b
    obtain ⟨drawn, hdraw, hscreen⟩ := Machine.execute_draw (m := m') hop'
    have hsprite : m'.memory.sprite m'.index 5 = glyph digit := by
      rw [hm', hindex, hins, hx]
      exact hfont.slice_glyph digit
    rw [ha, hb, hn] at hscreen
    have hs : drawn.screen = (m'.screen.draw (glyph digit) (m'.registers.value a) (m'.registers.value b)).1 := by
      rw [hscreen, ← hsprite]
      rfl
    refine ⟨drawn, hdraw, ?_, ?_, fun cx cy hcx hcy => ?_⟩
    · rw [hs, (Screen.size_draw ..).1]
    · rw [hs, (Screen.size_draw ..).2]
    · rw [hs]
      exact Screen.lit_draw m'.screen (glyph digit) _ _ hcx hcy

/-- Writes to the first and to the last byte of the glyphs by a host, and the digit nought in a register. -/
theorem font_kept_nought : ∃ e : Emulator, Emulator.start .vast [0x60, 0x00] 64 32 (.cycle []) false = .ok e ∧
    let now := (e.actAll [.write 0 255, .write (-4017) 0, .write 4096 7]).machine
    now.memory.slice 0 80 = font ∧ ∃ pointing, now.execute (.decode 0xF329) = .ok (pointing, []) ∧
      pointing.memory.slice pointing.index 5 = [0xF0, 0x90, 0x90, 0x90, 0xF0] := by
  obtain ⟨e, h⟩ := Emulator.exists_start .vast [0x60, 0x00] 64 32 (.cycle []) false
    (by decide) (by decide) (by decide) (by decide)
  obtain ⟨_, _, he⟩ := Emulator.start_eq h
  obtain ⟨hfont, hdigit⟩ := font_kept h [.write 0 255, .write (-4017) 0, .write 4096 7]
  have hzero : (e.actAll [.write 0 255, .write (-4017) 0, .write 4096 7]).machine.registers.value ⟨3, by decide⟩ =
      ((0 : Fin 16).val : Int) := by
    rw [he]
    rfl
  obtain ⟨pointing, hp, -, hrows, -⟩ := hdigit _ ⟨3, by decide⟩ 0 rfl hzero
  exact ⟨e, h, hfont, pointing, hp, hrows⟩

end ChipEight
