import Mathlib.Algebra.Ring.Parity
import Mathlib.Data.Finset.Prod
import ChipEight.Machine.Basic

/-!
# Drawing a sprite

Drawing flips the cells that the set bits of a sprite fall on, one after the other, and reports whether a flip put a
cell out. On a small screen several bits fall on one cell. What is left at the end does not depend on the order: a cell
has changed if an odd number of bits fell on it, and a cell was put out if its bits, together with the light it had
before, are at least two.

- `Screen.falls`: whether a bit falls on a cell, and `lit_toggle_of_falls`, `lit_toggle_of_not_falls`: what one flip
  does to it;
- `lit_foldl_hit` and `collided_foldl_hit`: the cells and the flag after any run of flips, by induction on the run;
- `countP_targets` and `hits_sprite`: the bits of a sprite on a cell, counted by rows and columns;
- `lit_draw_of_inside` and `collided_draw_of_inside`: the cells and the flag after a sprite that lies inside the screen,
  whose bits fall on different cells;
- `drawSprite_blit`: the main statement, for any machine, any origin and any height.
-/

namespace ChipEight

variable {s : Screen} {cx cy : Nat}

namespace Screen

/-- Whether a bit at the given column and row falls on the cell in column `cx` and row `cy`. -/
def falls (s : Screen) (cx cy : Nat) (target : Int × Int) : Bool :=
  s.column target.1 == cx && s.row target.2 == cy

theorem falls_iff {t : Int × Int} : s.falls cx cy t = true ↔ s.column t.1 = cx ∧ s.row t.2 = cy := by
  simp [falls]

/-! ## Cells -/

theorem column_eq_iff {x : Int} : s.column x = cx ↔ x % s.width = cx := by
  have hw := s.width_pos
  have h0 := Int.emod_nonneg x (show (s.width : Int) ≠ 0 by omega)
  unfold column
  omega

theorem row_eq_iff {y : Int} : s.row y = cy ↔ y % s.height = cy := by
  have hh := s.height_pos
  have h0 := Int.emod_nonneg y (show (s.height : Int) ≠ 0 by omega)
  unfold row
  omega

theorem column_natCast (h : cx < s.width) : s.column cx = cx :=
  column_eq_iff.mpr (Int.emod_eq_of_lt (by omega) (by omega))

theorem row_natCast (h : cy < s.height) : s.row cy = cy :=
  row_eq_iff.mpr (Int.emod_eq_of_lt (by omega) (by omega))

/-- Where a cell is stored. -/
theorem getElem?_cells (hx : cx < s.width) (hy : cy < s.height) :
    s.cells[cy * s.width + cx]? = some (s.lit cx cy) := by
  have hp : s.place cx cy = cy * s.width + cx := by rw [place, column_natCast hx, row_natCast hy]
  have hlt := s.place_lt cx cy
  rw [← hp, Array.getElem?_eq_getElem hlt]
  rfl

/-- A bit is looked up in the cell that it falls on. -/
theorem lit_of_falls {t : Int × Int} (hx : cx < s.width) (hy : cy < s.height) (h : s.falls cx cy t = true) :
    s.lit t.1 t.2 = s.lit cx cy := by
  obtain ⟨hc, hr⟩ := falls_iff.mp h
  have hp : s.place t.1 t.2 = s.place cx cy := by
    unfold place
    rw [hc, hr, column_natCast hx, row_natCast hy]
  unfold lit
  simp only [hp]

/-- Every bit falls on a cell of the screen. -/
theorem exists_falls (s : Screen) (t : Int × Int) :
    ∃ cx cy, cx < s.width ∧ cy < s.height ∧ s.falls cx cy t = true :=
  ⟨s.column t.1, s.row t.2, s.column_lt t.1, s.row_lt t.2, falls_iff.mpr ⟨rfl, rfl⟩⟩

/-! ## One flip -/

theorem lit_toggle_of_falls {t : Int × Int} (hx : cx < s.width) (hy : cy < s.height)
    (h : s.falls cx cy t = true) : (s.toggle t.1 t.2).lit cx cy = !s.lit cx cy := by
  obtain ⟨hc, hr⟩ := falls_iff.mp h
  rw [lit_toggle, if_pos ⟨by rw [hc, column_natCast hx], by rw [hr, row_natCast hy]⟩, lit_of_falls hx hy h]

theorem lit_toggle_of_not_falls {t : Int × Int} (hx : cx < s.width) (hy : cy < s.height)
    (h : s.falls cx cy t = false) : (s.toggle t.1 t.2).lit cx cy = s.lit cx cy := by
  rw [lit_toggle, if_neg]
  rintro ⟨hc, hr⟩
  rw [column_natCast hx] at hc
  rw [row_natCast hy] at hr
  rw [falls_iff.mpr ⟨hc, hr⟩] at h
  cases h

/-- A flip of a cell changes that cell and no other. -/
theorem lit_toggle_natCast {x y : Nat} (hx : x < s.width) (hy : y < s.height) (hcx : cx < s.width)
    (hcy : cy < s.height) : (s.toggle x y).lit cx cy = (s.lit cx cy ^^ decide (x = cx ∧ y = cy)) := by
  rw [lit_toggle, column_natCast hx, column_natCast hcx, row_natCast hy, row_natCast hcy]
  by_cases hcell : x = cx ∧ y = cy
  · obtain ⟨rfl, rfl⟩ := hcell
    simp
  · simp [hcell]

theorem falls_toggle (s : Screen) (x y : Int) : (s.toggle x y).falls = s.falls := rfl

/-! ## A run of flips -/

/-- After a run of flips a cell has changed if an odd number of them fell on it. -/
theorem lit_foldl_hit (ts : List (Int × Int)) (s : Screen) (b : Bool) (hx : cx < s.width) (hy : cy < s.height) :
    (ts.foldl hit (s, b)).1.lit cx cy = (s.lit cx cy ^^ decide (Odd (ts.countP (s.falls cx cy)))) := by
  -- the first flip changes the screen that the others meet, so the induction is for all screens
  induction ts generalizing s b with
  | nil => simp
  | cons t ts ih =>
    have h := ih (s.toggle t.1 t.2) (b || s.lit t.1 t.2) hx hy
    rw [falls_toggle] at h
    rw [List.foldl_cons]
    refine h.trans ?_
    cases hf : s.falls cx cy t with
    | true =>
      rw [lit_toggle_of_falls hx hy hf, List.countP_cons_of_pos hf]
      simp only [Nat.odd_add_one, decide_not, Bool.xor_not, Bool.not_xor]
    | false =>
      rw [lit_toggle_of_not_falls hx hy hf, List.countP_cons_of_neg (by simp [hf])]

/-- A flip where no light was trades one flip for light: a cell has two of both before exactly if it has two after. -/
theorem two_le_toggle {t : Int × Int} (hx : cx < s.width) (hy : cy < s.height) (h : s.lit t.1 t.2 = false) (k : Nat) :
    2 ≤ ((s.toggle t.1 t.2).lit cx cy).toNat + k ↔
      2 ≤ (s.lit cx cy).toNat + (k + if s.falls cx cy t then 1 else 0) := by
  cases hf : s.falls cx cy t with
  | true =>
    rw [lit_toggle_of_falls hx hy hf, ← lit_of_falls hx hy hf, h]
    simp only [Bool.not_false, Bool.toNat_true, Bool.toNat_false, if_true]
    omega
  | false =>
    rw [lit_toggle_of_not_falls hx hy hf]
    simp

/-- A run of flips puts a cell out if the flips that fall on some cell, with the light it had, are at least two. -/
theorem collided_foldl_hit (ts : List (Int × Int)) (s : Screen) (b : Bool) :
    (ts.foldl hit (s, b)).2 = true ↔
      b = true ∨ ∃ cx cy, cx < s.width ∧ cy < s.height ∧ 2 ≤ (s.lit cx cy).toNat + ts.countP (s.falls cx cy) := by
  induction ts generalizing s b with
  | nil =>
    constructor
    · exact Or.inl
    · rintro (h | ⟨cx, cy, _, _, h⟩)
      · exact h
      · have := Bool.toNat_le (s.lit cx cy)
        simp only [List.countP_nil] at h
        omega
  | cons t ts ih =>
    have h := ih (s.toggle t.1 t.2) (b || s.lit t.1 t.2)
    rw [falls_toggle, width_toggle, height_toggle, Bool.or_eq_true, or_assoc] at h
    rw [List.foldl_cons]
    refine h.trans (or_congr_right ?_)
    cases hl : s.lit t.1 t.2 with
    | true =>
      obtain ⟨cx, cy, hx, hy, hf⟩ := s.exists_falls t
      refine iff_of_true (Or.inl rfl) ⟨cx, cy, hx, hy, ?_⟩
      rw [← lit_of_falls hx hy hf, hl, List.countP_cons_of_pos hf, Bool.toNat_true]
      omega
    | false =>
      simp only [Bool.false_eq_true, false_or]
      refine exists_congr fun cx => exists_congr fun cy => and_congr_right fun hx => and_congr_right fun hy => ?_
      rw [List.countP_cons]
      exact two_le_toggle hx hy hl _

/-! ## The bits of a sprite -/

/-- The bits of a sprite on a cell, counted by its rows. -/
theorem countP_targets (s : Screen) (rows : List UInt8) (x y : Int) (cx cy : Nat) :
    (targets rows x y).countP (s.falls cx cy) = s.hits rows x y cx cy := by
  unfold targets hits
  rw [List.countP_flatMap, List.length_flatMap]
  refine congrArg List.sum (List.map_congr_left ?_)
  rintro ⟨row, r⟩ _
  rw [Function.comp_apply, List.countP_map, List.countP_filter, ← List.countP_eq_length_filter]
  refine List.countP_congr fun c _ => ?_
  simp only [Function.comp_apply, falls, Bool.and_eq_true]
  tauto

end Screen

/-! ## Sprites inside the screen -/

section Inside

variable {rows : List UInt8} {x y : Int}

/-- The set bits of a sprite, by row and column. -/
theorem mem_targets {t : Int × Int} : t ∈ targets rows x y ↔
    ∃ (row : UInt8) (r c : Nat), rows[r]? = some row ∧ c < spriteWidth ∧ hasBit row c = true ∧ t = (x + c, y + r) := by
  unfold targets
  simp only [List.mem_flatMap, List.mem_map, List.mem_filter, List.mem_range, Prod.exists,
    List.mk_mem_zipIdx_iff_getElem?]
  constructor
  · rintro ⟨row, r, hrow, c, ⟨hc, hbit⟩, rfl⟩
    exact ⟨row, r, c, hrow, hc, hbit, rfl⟩
  · rintro ⟨row, r, c, hrow, hc, hbit, rfl⟩
    exact ⟨row, r, hrow, c, ⟨hc, hbit⟩, rfl⟩

theorem nodup_targets (rows : List UInt8) (x y : Int) : (targets rows x y).Nodup := by
  unfold targets
  refine List.nodup_flatMap.mpr ⟨?_, ?_⟩
  · rintro ⟨row, r⟩ -
    refine (List.nodup_range.filter _).map fun c d h => ?_
    simp only [Prod.mk.injEq] at h
    omega
  · have hrows : (rows.zipIdx.map Prod.snd).Nodup := by
      rw [List.zipIdx_map_snd]
      exact List.nodup_range'
    refine (List.pairwise_map.mp hrows).imp fun hne => ?_
    intro t ht ht'
    obtain ⟨c, -, rfl⟩ := List.mem_map.mp ht
    obtain ⟨d, -, hd⟩ := List.mem_map.mp ht'
    simp only [Prod.mk.injEq] at hd
    exact hne (by omega)

namespace Screen

/-- Whether a place lies inside the screen. -/
def Inside (s : Screen) (t : Int × Int) : Prop :=
  0 ≤ t.1 ∧ t.1 < s.width ∧ 0 ≤ t.2 ∧ t.2 < s.height

theorem falls_of_inside {t : Int × Int} (h : s.Inside t) : s.falls cx cy t = true ↔ t = (↑cx, ↑cy) := by
  obtain ⟨hx0, hx, hy0, hy⟩ := h
  rw [falls_iff, column_eq_iff, row_eq_iff, Int.emod_eq_of_lt hx0 hx, Int.emod_eq_of_lt hy0 hy, Prod.ext_iff]

/-- A cell that lies under a sprite inside the screen has one bit fall on it or none. -/
theorem countP_falls_of_inside (h : ∀ t ∈ targets rows x y, s.Inside t) :
    (targets rows x y).countP (s.falls cx cy) = if ((cx : Int), (cy : Int)) ∈ targets rows x y then 1 else 0 := by
  rw [← (nodup_targets rows x y).count, List.count_eq_countP]
  exact List.countP_congr fun t ht => (falls_of_inside (h t ht)).trans beq_iff_eq.symm

/-- A sprite inside the screen changes the cells under its set bits. -/
theorem lit_draw_of_inside (h : ∀ t ∈ targets rows x y, s.Inside t) (hx : cx < s.width) (hy : cy < s.height) :
    (s.draw rows x y).1.lit cx cy = (s.lit cx cy ^^ decide (((cx : Int), (cy : Int)) ∈ targets rows x y)) := by
  rw [draw, lit_foldl_hit _ s false hx hy, countP_falls_of_inside h]
  split <;> simp [*]

/-- A sprite inside the screen puts a cell out if one under its set bits was lit. -/
theorem collided_draw_of_inside (h : ∀ t ∈ targets rows x y, s.Inside t) : (s.draw rows x y).2 = true ↔
    ∃ cx cy : Nat, ((cx : Int), (cy : Int)) ∈ targets rows x y ∧ s.lit cx cy = true := by
  rw [draw, collided_foldl_hit]
  simp only [Bool.false_eq_true, false_or, countP_falls_of_inside h]
  constructor
  · rintro ⟨cx, cy, -, -, htwo⟩
    have := Bool.toNat_le (s.lit cx cy)
    by_cases hmem : ((cx : Int), (cy : Int)) ∈ targets rows x y
    · rw [if_pos hmem] at htwo
      exact ⟨cx, cy, hmem, by cases hl : s.lit cx cy <;> simp [hl] at htwo ⊢⟩
    · rw [if_neg hmem] at htwo
      omega
  · rintro ⟨cx, cy, hmem, hlit⟩
    obtain ⟨-, hx, -, hy⟩ := h _ hmem
    refine ⟨cx, cy, by simpa using hx, by simpa using hy, ?_⟩
    rw [if_pos hmem, hlit]
    decide

end Screen

end Inside

/-! ## The bits of a sprite in memory -/

/-- The pairs of a row and a column of a sprite whose bit is set and falls on the cell in column `cx` and row `cy`, for
the sprite of the given height that the index points at and whose top left cell is at `x`, `y`. -/
def Machine.bitsOn (m : Machine) (x y height : Int) (cx cy : Nat) : Finset (Nat × Nat) :=
  (Finset.range height.toNat ×ˢ Finset.range spriteWidth).filter fun bit =>
    (x + bit.2) % m.screen.width = cx ∧ (y + bit.1) % m.screen.height = cy ∧
      (m.memory.read (m.index + bit.1)).toNat.testBit (7 - bit.2) = true

theorem Memory.zipIdx_sprite (mem : Memory) (address height : Int) :
    (mem.sprite address height).zipIdx =
      (List.range height.toNat).map fun (r : Nat) => (mem.read (address + r), r) := by
  have h := List.zip_map' (f := fun (r : Nat) => mem.read (address + r)) (g := id) (l := List.range height.toNat)
  rw [List.map_id] at h
  unfold Memory.sprite Memory.slice
  rw [List.zipIdx_eq_zip_range', List.length_map, List.length_range, ← List.range_eq_range']
  exact h

theorem Machine.card_bitsOn (m : Machine) (x y height : Int) (cx cy : Nat) :
    (m.bitsOn x y height cx cy).card =
      (List.range height.toNat ×ˢ List.range spriteWidth).countP fun bit =>
        (x + bit.2) % m.screen.width = cx ∧ (y + bit.1) % m.screen.height = cy ∧
          (m.memory.read (m.index + bit.1)).toNat.testBit (7 - bit.2) = true := by
  rw [← Multiset.coe_countP, Multiset.countP_eq_card_filter, ← Multiset.coe_product]
  rfl

/-- The bits of a sprite in memory on a cell. -/
theorem Machine.hits_sprite (m : Machine) (x y height : Int) (cx cy : Nat) :
    m.screen.hits (m.memory.sprite m.index height) x y cx cy = (m.bitsOn x y height cx cy).card := by
  rw [Machine.card_bitsOn]
  unfold Screen.hits
  rw [Memory.zipIdx_sprite, List.flatMap_map, List.length_flatMap]
  refine Eq.trans ?_ List.countP_flatMap.symm
  refine congrArg List.sum (List.map_congr_left fun r _ => ?_)
  simp only [Function.comp_apply, List.countP_map, ← List.countP_eq_length_filter]
  refine List.countP_congr fun c _ => ?_
  simp only [Function.comp_apply, hasBit, Bool.and_eq_true, beq_iff_eq, decide_eq_true_eq, Screen.column_eq_iff,
    Screen.row_eq_iff]
  tauto

/-! ## Drawing -/

theorem Machine.countP_sprite (m : Machine) (x y height : Int) (cx cy : Nat) :
    (targets (m.memory.sprite m.index height) x y).countP (m.screen.falls cx cy) =
      (m.bitsOn x y height cx cy).card := by
  rw [Screen.countP_targets, m.hits_sprite]

/-- **Drawing a sprite is an exclusive or on the torus.** Each cell changes if an odd number of bits fall on it, and the
flag is set if some cell has two of its bits, or one and was lit; only the cells and the request to redraw change. -/
theorem drawSprite_blit (m : Machine) (x y height : Int) :
    (m.drawSprite x y height).1 = { m with screen := (m.drawSprite x y height).1.screen, redraw := true } ∧
    (m.drawSprite x y height).1.screen.width = m.screen.width ∧
    (m.drawSprite x y height).1.screen.height = m.screen.height ∧
    (∀ cx cy, cx < m.screen.width → cy < m.screen.height → ∃ old,
      m.screen.cells[cy * m.screen.width + cx]? = some old ∧
      (m.drawSprite x y height).1.screen.cells[cy * m.screen.width + cx]? =
        some (old ^^ decide (Odd (m.bitsOn x y height cx cy).card))) ∧
    ((m.drawSprite x y height).2 = true ↔ ∃ cx cy old, cx < m.screen.width ∧ cy < m.screen.height ∧
      m.screen.cells[cy * m.screen.width + cx]? = some old ∧
      2 ≤ old.toNat + (m.bitsOn x y height cx cy).card) := by
  obtain ⟨hw, hh⟩ := m.screen.size_draw (m.memory.sprite m.index height) x y
  refine ⟨rfl, hw, hh, ?_, ?_⟩
  · intro cx cy hx hy
    refine ⟨m.screen.lit cx cy, Screen.getElem?_cells hx hy, ?_⟩
    rw [← m.countP_sprite, ← Screen.lit_foldl_hit _ m.screen false hx hy]
    have hcell := Screen.getElem?_cells (s := (m.drawSprite x y height).1.screen) (hw ▸ hx) (hh ▸ hy)
    rwa [show (m.drawSprite x y height).1.screen.width = m.screen.width from hw] at hcell
  · refine (Screen.collided_foldl_hit _ m.screen false).trans ?_
    simp only [Bool.false_eq_true, false_or, m.countP_sprite]
    constructor
    · rintro ⟨cx, cy, hx, hy, h⟩
      exact ⟨cx, cy, _, hx, hy, Screen.getElem?_cells hx hy, h⟩
    · rintro ⟨cx, cy, old, hx, hy, hold, h⟩
      obtain rfl := Option.some.inj (hold.symm.trans (Screen.getElem?_cells hx hy))
      exact ⟨cx, cy, hx, hy, h⟩

/-- A full row on a screen of three cells: three bits fall on the outer cells and two on the middle one. -/
theorem drawSprite_blit_three_cells : ∃ m : Machine, m.screen.width = 3 ∧ m.screen.height = 1 ∧
    (m.drawSprite (-1) 5 1).2 = true ∧
    (m.drawSprite (-1) 5 1).1.screen.cells[0 * m.screen.width + 2]? = some true := by
  obtain ⟨m, hs, hm⟩ : ∃ m : Machine, m.screen = .blank 3 1 (by decide) (by decide) ∧
      ∀ a, m.memory.read a = 0xFF :=
    ⟨{ Machine.boot [] (.blank 3 1 (by decide) (by decide)) (.cycle []) with memory := .replicate memorySize 0xFF },
      rfl, fun a => by simp [Memory.read]⟩
  have hk : (m.bitsOn (-1) 5 1 2 0).card = 3 := by
    unfold Machine.bitsOn
    simp only [hm, hs]
    decide
  obtain ⟨-, -, -, hcells, hflag⟩ := drawSprite_blit m (-1) 5 1
  obtain ⟨old, hold, hnew⟩ := hcells 2 0 (by rw [hs]; decide) (by rw [hs]; decide)
  have ho : old = false := by
    rw [hs] at hold
    exact (Option.some.inj hold).symm
  refine ⟨m, by rw [hs]; rfl, by rw [hs]; rfl, ?_, ?_⟩
  · exact hflag.mpr ⟨2, 0, old, by rw [hs]; decide, by rw [hs]; decide, hold, by rw [hk]; omega⟩
  · rw [hnew, hk, ho]
    decide

end ChipEight
