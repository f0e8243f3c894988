import ChipEight.Machine.Parts

/-!
# The screen

A screen is a grid of cells, each lit or not, that closes into a torus: columns count modulo the width and rows modulo
the height. The cells are stored row by row from the top.

* `Screen.lit` is the view of a screen: whether the cell in a column and a row is lit, for any integers.
* `Screen.toggle` flips one cell and `Screen.cleared` puts all out; `lit_toggle` and `lit_cleared` say so.
* A `Platform` has memory for some screens; `checkCells` refuses screens of more cells than it can count or hold.
* `rowsOf` cuts cells into rows and `textOf` writes them as text.
-/

namespace ChipEight

/-- The cells of a screen are counted with 63 bits. -/
def countableCells : Nat := 0x8000000000000000

/-- What a platform has memory for. -/
structure Platform where
  /-- Whether there is memory for a screen of that many cells. -/
  hasRoom : Nat → Bool
  /-- A screen of the default size is not too large for any platform. -/
  hasRoom_default : hasRoom (defaultWidth * defaultHeight) = true

/-- A platform with memory for every screen. -/
def Platform.vast : Platform where
  hasRoom _ := true
  hasRoom_default := rfl

/-- Whether a platform can count and hold so many cells. -/
def Platform.Holds (platform : Platform) (cells : Nat) : Prop :=
  cells < countableCells ∧ platform.hasRoom cells = true

instance (platform : Platform) (cells : Nat) : Decidable (platform.Holds cells) :=
  inferInstanceAs (Decidable (_ ∧ _))

theorem Platform.holds_default (platform : Platform) : platform.Holds (defaultWidth * defaultHeight) :=
  ⟨by decide, platform.hasRoom_default⟩

/-- A screen of too many cells. -/
inductive TooManyCells where
  /-- There are too many to be counted. -/
  | uncountable
  /-- There are too many to be held in memory. -/
  | outOfMemory
  deriving DecidableEq, Repr

/-- The wording of the complaint. -/
def TooManyCells.message : TooManyCells → String
  | .uncountable => "cannot fit 'int' into an index-sized integer"
  | .outOfMemory => ""

def TooManyCells.errorClass : TooManyCells → ErrorClass
  | .uncountable => .overflowError
  | .outOfMemory => .memoryError

/-- A number of cells that a screen can have on a platform, or the complaint that it cannot. -/
def checkCells (platform : Platform) (cells : Nat) : Except TooManyCells Nat :=
  if countableCells ≤ cells then .error .uncountable
  else if platform.hasRoom cells then .ok cells
  else .error .outOfMemory

/-- The check is passed by the numbers of cells that the platform holds. -/
theorem checkCells_eq_ok_iff {platform : Platform} {cells checked : Nat} :
    checkCells platform cells = .ok checked ↔ platform.Holds cells ∧ checked = cells := by
  unfold checkCells Platform.Holds
  by_cases hcount : countableCells ≤ cells
  · simp [hcount, Nat.not_lt.mpr hcount]
  · by_cases hroom : platform.hasRoom cells = true
    · simp [hcount, Nat.lt_of_not_le hcount, hroom, eq_comm]
    · simp [hcount, hroom]

/-- A grid of cells, at least one wide and one high. -/
@[ext]
structure Screen where
  width : Nat
  height : Nat
  cells : Array Bool
  size_eq : cells.size = width * height
  width_pos : 0 < width
  height_pos : 0 < height

namespace Screen

/-- A screen with no cell lit. -/
def blank (width height : Nat) (hw : 0 < width) (hh : 0 < height) : Screen where
  width := width
  height := height
  cells := Array.replicate (width * height) false
  size_eq := Array.size_replicate
  width_pos := hw
  height_pos := hh

/-- The column that an integer stands for. -/
def column (s : Screen) (x : Int) : Nat := (x % s.width).toNat

/-- The row that an integer stands for. -/
def row (s : Screen) (y : Int) : Nat := (y % s.height).toNat

theorem column_lt (s : Screen) (x : Int) : s.column x < s.width := by
  have := s.width_pos
  have := Int.emod_lt_of_pos x (show (0 : Int) < s.width by omega)
  have := Int.emod_nonneg x (show (s.width : Int) ≠ 0 by omega)
  unfold column
  omega

theorem row_lt (s : Screen) (y : Int) : s.row y < s.height := by
  have := s.height_pos
  have := Int.emod_lt_of_pos y (show (0 : Int) < s.height by omega)
  have := Int.emod_nonneg y (show (s.height : Int) ≠ 0 by omega)
  unfold row
  omega

/-- The place of a cell in the store. -/
def place (s : Screen) (x y : Int) : Nat :=
  s.row y * s.width + s.column x

theorem place_lt (s : Screen) (x y : Int) : s.place x y < s.cells.size := by
  have hx := s.column_lt x
  have hy : s.row y + 1 ≤ s.height := s.row_lt y
  have := Nat.mul_le_mul_right s.width hy
  rw [s.size_eq, place, Nat.mul_comm s.width]
  rw [Nat.add_mul, Nat.one_mul] at this
  omega

/-- Whether the cell in a column and a row is lit. -/
def lit (s : Screen) (x y : Int) : Bool :=
  have := s.place_lt x y
  s.cells[s.place x y]

/-- Flips the cell in a column and a row. -/
def toggle (s : Screen) (x y : Int) : Screen :=
  { s with
    cells := s.cells.set (s.place x y) (!s.lit x y) (s.place_lt x y)
    size_eq := by rw [Array.size_set]; exact s.size_eq }

/-- Puts all cells out. -/
def cleared (s : Screen) : Screen :=
  blank s.width s.height s.width_pos s.height_pos

@[simp] theorem width_toggle (s : Screen) (x y : Int) : (s.toggle x y).width = s.width := rfl

@[simp] theorem height_toggle (s : Screen) (x y : Int) : (s.toggle x y).height = s.height := rfl

/-- Two cells are stored at the same place only if their columns and rows agree. -/
theorem place_inj (s : Screen) {x y x' y' : Int} (h : s.place x y = s.place x' y') :
    s.column x = s.column x' ∧ s.row y = s.row y' := by
  have hx := s.column_lt x
  have hx' := s.column_lt x'
  unfold place at h
  have hc : s.column x = s.column x' := by
    have := congrArg (· % s.width) h
    simpa [Nat.mul_add_mod', Nat.mod_eq_of_lt, hx, hx'] using this
  refine ⟨hc, ?_⟩
  rw [hc] at h
  exact Nat.eq_of_mul_eq_mul_right s.width_pos (Nat.add_right_cancel h)

/-- Flipping a cell changes that cell and no other. -/
theorem lit_toggle (s : Screen) (x y x' y' : Int) :
    (s.toggle x y).lit x' y' =
      if s.column x = s.column x' ∧ s.row y = s.row y' then !s.lit x y else s.lit x' y' := by
  have : s.place x' y' < (s.cells.set (s.place x y) (!s.lit x y) (s.place_lt x y)).size := by
    rw [Array.size_set]; exact s.place_lt x' y'
  show (s.cells.set (s.place x y) (!s.lit x y) (s.place_lt x y))[s.place x' y'] = _
  rw [Array.getElem_set]
  by_cases h : s.column x = s.column x' ∧ s.row y = s.row y'
  · simp [h, place]
  · rw [if_neg h, if_neg fun e => h (s.place_inj e)]
    rfl

@[simp] theorem lit_cleared (s : Screen) (x y : Int) : s.cleared.lit x y = false := by
  simp [lit, cleared, blank]

end Screen

/-- Cuts cells into rows of the given positive width; the last row holds what is left. -/
def rowsOf {α : Type} (width : Nat) : List α → List (List α)
  | [] => []
  | c :: rest => (c :: rest.take (width - 1)) :: rowsOf width (rest.drop (width - 1))
termination_by cells => cells.length
decreasing_by
  simp only [List.length_drop, List.length_cons]
  omega

/-- Rows of width zero, which cannot be cut. -/
structure ZeroWidth where
  deriving DecidableEq, Repr

/-- The wording of the complaint. -/
def ZeroWidth.message (_ : ZeroWidth) : String :=
  "range() arg 3 must not be zero"

def ZeroWidth.errorClass (_ : ZeroWidth) : ErrorClass := .valueError

/-- Cuts cells into rows of any width; there are no rows of negative width. -/
def rowsOf? {α : Type} (width : Int) (cells : List α) : Except ZeroWidth (List (List α)) :=
  if width = 0 then .error {}
  else if width < 0 then .ok []
  else .ok (rowsOf width.toNat cells)

/-- One line for every row, each cell written as one of two texts. -/
def textOf (on off : String) (rows : List (List Bool)) : String :=
  "\n".intercalate (rows.map fun row => String.join (row.map fun isLit => if isLit then on else off))

/-- The rows of a screen from the top. -/
def Screen.rows (s : Screen) : List (List Bool) :=
  rowsOf s.width s.cells.toList

/-- The screen as text. -/
def Screen.text (s : Screen) (on off : String) : String :=
  textOf on off s.rows

end ChipEight
