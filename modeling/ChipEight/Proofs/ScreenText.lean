import Mathlib.Order.Basic
import ChipEight.Emulator.Report
import ChipEight.Proofs.Blit
import ChipEight.Proofs.Events
import ChipEight.Text.Pieces

/-!
# Screens as text

Cells are cut into rows and written as lines, and both ways back are unique.

- `flatten_rowsOf`, `length_of_mem_dropLast_rowsOf` and `getElem?_rowsOf`: the rows of any cells, the last of which may
  be short, by induction on the cells;
- `Screen.length_rows`, `Screen.length_of_mem_rows` and `Screen.getElem?_rows`: the rows of a screen are as many as it
  is high and as long as it is wide, and hold its cells; a screen is determined by its rows (`Screen.ext_rows`);
- `Screen.pieces_text`: the lines of the text are the rows, cell by cell (`Screen.exists_shown`), and so the text
  determines the screen (`Screen.text_inj`);
- `screenText_lossless`: the main statement.
-/

namespace ChipEight

/-! ## Rows -/

section Rows

variable {α : Type} {width : Nat} {cells row : List α}

theorem rowsOf_nil (width : Nat) : rowsOf width ([] : List α) = [] := by
  rw [rowsOf]

/-- The first row takes as many cells as it is wide, if there are any. -/
theorem rowsOf_of_ne_nil (hw : 0 < width) (hne : cells ≠ []) :
    rowsOf width cells = cells.take width :: rowsOf width (cells.drop width) := by
  obtain ⟨w, rfl⟩ : ∃ w, width = w + 1 := ⟨width - 1, by omega⟩
  cases cells with
  | nil => exact absurd rfl hne
  | cons c rest =>
    rw [rowsOf]
    rfl

/-- The rows one after the other are the cells. -/
theorem flatten_rowsOf (width : Nat) (cells : List α) : (rowsOf width cells).flatten = cells := by
  fun_induction rowsOf width cells with
  | case1 => rfl
  | case2 c rest ih => rw [List.flatten_cons, ih, List.cons_append, List.take_append_drop]

/-- No row is empty, and none is too long. -/
theorem row_bounds (hw : 0 < width) : ∀ row ∈ rowsOf width cells, row ≠ [] ∧ row.length ≤ width := by
  fun_induction rowsOf width cells with
  | case1 => simp
  | case2 c rest ih =>
    intro row hrow
    rcases List.mem_cons.mp hrow with rfl | hrow
    · refine ⟨List.cons_ne_nil _ _, ?_⟩
      rw [List.length_cons, List.length_take]
      omega
    · exact ih row hrow

/-- Every row but the last is full. -/
theorem length_of_mem_dropLast_rowsOf (hw : 0 < width) :
    ∀ row ∈ (rowsOf width cells).dropLast, row.length = width := by
  fun_induction rowsOf width cells with
  | case1 => simp
  | case2 c rest ih =>
    intro row hrow
    by_cases hlast : rest.drop (width - 1) = []
    · rw [hlast, rowsOf_nil] at hrow
      exact absurd hrow List.not_mem_nil
    · -- cells are left for another row, so this one is full
      have hlong : width - 1 < rest.length := by simpa using hlast
      have hmore : rowsOf width (rest.drop (width - 1)) ≠ [] := by
        rw [rowsOf_of_ne_nil hw hlast]
        exact List.cons_ne_nil _ _
      rw [List.dropLast_cons_of_ne_nil hmore] at hrow
      rcases List.mem_cons.mp hrow with rfl | hrow
      · rw [List.length_cons, List.length_take]
        omega
      · exact ih row hrow

/-- Each row begins where the rows before it end. -/
theorem getElem?_rowsOf (hw : 0 < width) (cells : List α) (y : Nat) : (rowsOf width cells)[y]? =
    if y * width < cells.length then some ((cells.drop (y * width)).take width) else none := by
  induction y generalizing cells with
  | zero =>
    by_cases hne : cells = []
    · simp [hne, rowsOf_nil]
    · have hpos := List.length_pos_iff.mpr hne
      simp [rowsOf_of_ne_nil hw hne, hpos]
  | succ y ih =>
    by_cases hne : cells = []
    · simp [hne, rowsOf_nil]
    · rw [rowsOf_of_ne_nil hw hne, List.getElem?_cons_succ, ih, List.drop_drop, List.length_drop, Nat.succ_mul,
        Nat.add_comm width]
      simp only [Nat.lt_sub_iff_add_lt]

end Rows

/-! ## The rows of a screen -/

namespace Screen

variable {s t : Screen} {x y : Nat}

/-- Where a row begins. -/
theorem mul_width_lt_iff (s : Screen) (y : Nat) : y * s.width < s.cells.toList.length ↔ y < s.height := by
  rw [Array.length_toList, s.size_eq, Nat.mul_comm, Nat.mul_lt_mul_left s.width_pos]

theorem getElem?_rows (s : Screen) (y : Nat) : s.rows[y]? =
    if y < s.height then some ((s.cells.toList.drop (y * s.width)).take s.width) else none := by
  rw [rows, getElem?_rowsOf s.width_pos]
  simp only [s.mul_width_lt_iff]

/-- A screen has as many rows as it is high. -/
theorem length_rows (s : Screen) : s.rows.length = s.height := by
  apply eq_of_forall_lt_iff
  intro y
  have hy := s.getElem?_rows y
  split at hy
  case isTrue hlt => exact iff_of_true (List.getElem?_eq_some_iff.mp hy).1 hlt
  case isFalse hge => exact iff_of_false (Nat.not_lt.mpr (List.getElem?_eq_none_iff.mp hy)) hge

/-- Each row of a screen is as long as it is wide. -/
theorem length_of_mem_rows (s : Screen) : ∀ row ∈ s.rows, row.length = s.width := by
  intro row hrow
  obtain ⟨y, hy⟩ := List.mem_iff_getElem?.mp hrow
  rw [getElem?_rows] at hy
  split at hy
  case isFalse => cases hy
  case isTrue hlt =>
    have hnext := Nat.mul_le_mul_right s.width (Nat.succ_le_of_lt hlt)
    obtain rfl := Option.some.inj hy
    rw [List.length_take, List.length_drop, Array.length_toList, s.size_eq, Nat.mul_comm s.width]
    rw [Nat.succ_mul] at hnext
    omega

/-- The cells of a row. -/
theorem getElem?_of_getElem?_rows {row : List Bool} (h : s.rows[y]? = some row) (hx : x < s.width) :
    row[x]? = s.cells[y * s.width + x]? := by
  rw [getElem?_rows] at h
  split at h
  case isFalse => cases h
  case isTrue hlt =>
    obtain rfl := Option.some.inj h
    rw [List.getElem?_take_of_lt hx, List.getElem?_drop, Array.getElem?_toList]

theorem flatten_rows (s : Screen) : s.rows.flatten = s.cells.toList :=
  flatten_rowsOf ..

theorem rows_ne_nil (s : Screen) : s.rows ≠ [] := by
  have hpos := s.height_pos
  rw [← s.length_rows] at hpos
  exact List.length_pos_iff.mp hpos

/-- **A screen is determined by its rows**, its size included. -/
theorem ext_rows (h : s.rows = t.rows) : s = t := by
  have hheight : s.height = t.height := by rw [← s.length_rows, ← t.length_rows, h]
  have hwidth : s.width = t.width := by
    obtain ⟨row, more, hrow⟩ := List.exists_cons_of_ne_nil s.rows_ne_nil
    have hs := s.length_of_mem_rows row (by simp [hrow])
    have ht := t.length_of_mem_rows row (by simp [← h, hrow])
    exact hs.symm.trans ht
  have hcells : s.cells.toList = t.cells.toList := by rw [← flatten_rows, ← flatten_rows, h]
  exact Screen.ext hwidth hheight (Array.toList_inj.mp hcells)

/-! ## Lines -/

variable {on off : Char}

/-- A row as a line. -/
def lineOf (on off : Char) (row : List Bool) : List Char :=
  row.map fun isLit => if isLit then on else off

theorem lineOf_injective (h : on ≠ off) : Function.Injective (lineOf on off) := by
  apply List.map_injective_iff.mpr
  intro a b hab
  cases a <;> cases b <;> simp_all

theorem newline_notMem_lineOf (hon : on ≠ '\n') (hoff : off ≠ '\n') (row : List Bool) : '\n' ∉ lineOf on off row := by
  intro hmem
  obtain ⟨isLit, -, hc⟩ := List.mem_map.mp hmem
  cases isLit
  · exact hoff hc
  · exact hon hc

theorem toList_text (s : Screen) (on off : Char) : (s.text (.singleton on) (.singleton off)).toList =
    ['\n'].intercalate (s.rows.map (lineOf on off)) := by
  have hline : ∀ row : List Bool,
      (String.join (row.map fun isLit => if isLit then String.singleton on else .singleton off)).toList =
        lineOf on off row := by
    intro row
    induction row with
    | nil => simp [lineOf]
    | cons isLit row ih => cases isLit <;> simp_all [lineOf]
  simp only [text, textOf, String.toList_intercalate, List.map_map, Function.comp_def, hline]
  rfl

/-- **The lines of the text are the rows**, each cell a character. -/
theorem pieces_text (s : Screen) (hon : on ≠ '\n') (hoff : off ≠ '\n') :
    Text.pieces '\n' (s.text (.singleton on) (.singleton off)).toList = s.rows.map (lineOf on off) := by
  rw [toList_text]
  apply Text.pieces_intercalate
  · simpa using s.rows_ne_nil
  · intro line hline
    obtain ⟨row, -, rfl⟩ := List.mem_map.mp hline
    exact newline_notMem_lineOf hon hoff row

/-- Each line of the text has as many characters as the screen is wide. -/
theorem length_of_mem_pieces_text (hon : on ≠ '\n') (hoff : off ≠ '\n') :
    ∀ line ∈ Text.pieces '\n' (s.text (.singleton on) (.singleton off)).toList, line.length = s.width := by
  intro line hline
  rw [s.pieces_text hon hoff] at hline
  obtain ⟨row, hrow, rfl⟩ := List.mem_map.mp hline
  rw [lineOf, List.length_map, s.length_of_mem_rows row hrow]

/-- The character in a column of a line stands for the cell there. -/
theorem exists_shown (hon : on ≠ '\n') (hoff : off ≠ '\n') (hx : x < s.width) (hy : y < s.height) :
    ∃ shown, (Text.pieces '\n' (s.text (.singleton on) (.singleton off)).toList)[y]? = some shown ∧
      shown[x]? = some (if s.lit x y then on else off) := by
  have hrow := s.getElem?_rows y
  rw [if_pos hy] at hrow
  have hin := getElem?_of_getElem?_rows hrow hx
  rw [getElem?_cells hx hy] at hin
  refine ⟨lineOf on off ((s.cells.toList.drop (y * s.width)).take s.width), ?_, ?_⟩
  · rw [s.pieces_text hon hoff, List.getElem?_map, hrow]
    rfl
  · rw [lineOf, List.getElem?_map, hin]
    rfl

/-- **A screen is determined by its text**, its size included. -/
theorem text_inj (hne : on ≠ off) (hon : on ≠ '\n') (hoff : off ≠ '\n')
    (h : s.text (.singleton on) (.singleton off) = t.text (.singleton on) (.singleton off)) : s = t := by
  have hlines : s.rows.map (lineOf on off) = t.rows.map (lineOf on off) := by
    rw [← s.pieces_text hon hoff, h, t.pieces_text hon hoff]
  exact ext_rows (List.map_injective_iff.mpr (lineOf_injective hne) hlines)

end Screen

/-! ## The main statement -/

/-- **Nothing is lost when a screen is written out**: cells are cut into full rows, and with two characters that differ
the text tells the size of the screen and each of its cells. -/
theorem screenText_lossless :
    (∀ (α : Type) (width : Int) (cells : List α), 1 ≤ width → ∃ rows, rowsOf? width cells = .ok rows ∧
      rows.flatten = cells ∧ (∀ row ∈ rows.dropLast, row.length = width) ∧
      ∀ row, rows.getLast? = some row → row ≠ [] ∧ row.length ≤ width) ∧
    (∀ (e : Emulator) (on off : Char), on ≠ off → on ≠ '\n' → off ≠ '\n' →
      let s := e.machine.screen
      let lines := Text.pieces '\n' (e.screenText (.singleton on) (.singleton off)).toList
      lines.length = s.height ∧ (∀ line ∈ lines, line.length = s.width) ∧
      ∀ x y, x < s.width → y < s.height → ∃ shown c isLit, lines[y]? = some shown ∧ shown[x]? = some c ∧
        s.cells[y * s.width + x]? = some isLit ∧ (c = on ↔ isLit = true) ∧ (c = off ↔ isLit = false)) ∧
    (∀ (e e' : Emulator) (on off : Char), on ≠ off → on ≠ '\n' → off ≠ '\n' →
      e.screenText (.singleton on) (.singleton off) = e'.screenText (.singleton on) (.singleton off) →
      e.machine.screen = e'.machine.screen) ∧
    ∀ e : Emulator, e.machine.screen.rows.flatten = e.machine.screen.cells.toList := by
  refine ⟨?_, ?_, ?_, ?_⟩
  · intro α width cells hwidth
    have hpos : 0 < width.toNat := by omega
    refine ⟨rowsOf width.toNat cells, ?_, flatten_rowsOf _ _, ?_, ?_⟩
    · rw [rowsOf?, if_neg (by omega), if_neg (by omega)]
    · intro row hrow
      have hfull := length_of_mem_dropLast_rowsOf hpos row hrow
      omega
    · intro row hrow
      obtain ⟨hne, hle⟩ := row_bounds hpos row (List.mem_of_getLast? hrow)
      exact ⟨hne, by omega⟩
  · intro e on off hne hon hoff s lines
    refine ⟨?_, s.length_of_mem_pieces_text hon hoff, ?_⟩
    · rw [show lines = s.rows.map (Screen.lineOf on off) from s.pieces_text hon hoff, List.length_map, s.length_rows]
    · intro x y hx hy
      obtain ⟨shown, hline, hshown⟩ := s.exists_shown hon hoff hx hy
      refine ⟨shown, if s.lit x y then on else off, s.lit x y, hline, hshown, Screen.getElem?_cells hx hy, ?_, ?_⟩
      · cases s.lit x y <;> simp [hne.symm]
      · cases s.lit x y <;> simp [hne]
  · intro e e' on off hne hon hoff htext
    exact Screen.text_inj hne hon hoff htext
  · exact fun e => e.machine.screen.flatten_rows

/-- Five cells in rows of three, and two dark screens of six cells that are told from each other by their texts. -/
theorem screenText_lossless_six : (∃ rows, rowsOf? 3 [1, 2, 3, 4, 5] = .ok rows ∧ rows.flatten = [1, 2, 3, 4, 5]) ∧
    ∃ e e', Emulator.start .vast [] 3 2 (.cycle []) false = .ok e ∧
      Emulator.start .vast [] 2 3 (.cycle []) false = .ok e' ∧
      (Text.pieces '\n' (e.screenText (.singleton '#') (.singleton '.')).toList).length = 2 ∧
      e.screenText (.singleton '#') (.singleton '.') ≠ e'.screenText (.singleton '#') (.singleton '.') := by
  obtain ⟨hrows, hlines, htext, -⟩ := screenText_lossless
  obtain ⟨rows, hcut, hflatten, -⟩ := hrows Nat 3 [1, 2, 3, 4, 5] (by decide)
  obtain ⟨e, h⟩ := Emulator.exists_start .vast [] 3 2 (.cycle []) false (by decide) (by decide) (by decide) (by decide)
  obtain ⟨e', h'⟩ := Emulator.exists_start .vast [] 2 3 (.cycle []) false
    (by decide) (by decide) (by decide) (by decide)
  obtain ⟨_, _, he⟩ := Emulator.start_eq h
  obtain ⟨_, _, he'⟩ := Emulator.start_eq h'
  refine ⟨⟨rows, hcut, hflatten⟩, e, e', h, h', ?_, fun hsame => ?_⟩
  · rw [(hlines e '#' '.' (by decide) (by decide) (by decide)).1, he]
    rfl
  · have hscreen := htext e e' '#' '.' (by decide) (by decide) (by decide) hsame
    have hwidth : 3 = 2 := by
      rw [he, he'] at hscreen
      exact congrArg Screen.width hscreen
    exact absurd hwidth (by decide)

end ChipEight
