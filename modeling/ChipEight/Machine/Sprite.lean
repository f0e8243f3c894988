import ChipEight.Machine.Memory
import ChipEight.Machine.Screen

/-!
# Sprites

A sprite is a list of rows of eight cells, one byte for every row with the leftmost cell in its high bit. Drawing it
flips the cells that its bits fall on, and reports whether a flip put a cell out.

`Screen.hits` counts how many bits of a sprite fall on a cell, which can be more than one on a small screen;
`size_draw` says that a screen keeps its size.
-/

namespace ChipEight

/-- The cells in a row of a sprite. -/
def spriteWidth : Nat := 8

/-- Whether a row has a bit in the given column, counted from the left. -/
def hasBit (row : UInt8) (column : Nat) : Bool :=
  row.toNat.testBit (7 - column)

/-- The cells that the set bits of a sprite fall on, row by row, for a sprite whose top left cell is at `x`, `y`. -/
def targets (rows : List UInt8) (x y : Int) : List (Int × Int) :=
  rows.zipIdx.flatMap fun (row, r) =>
    ((List.range spriteWidth).filter (hasBit row)).map fun (c : Nat) => (x + c, y + r)

namespace Screen

/-- Flips a cell, and reports a collision if there was one before or the cell is put out. -/
def hit (state : Screen × Bool) (target : Int × Int) : Screen × Bool :=
  let (s, collided) := state
  let collided := collided || s.lit target.1 target.2
  (s.toggle target.1 target.2, collided)

/-- Draws a sprite; the flag tells whether a lit cell was put out. -/
def draw (s : Screen) (rows : List UInt8) (x y : Int) : Screen × Bool :=
  (targets rows x y).foldl hit (s, false)

/-- How many set bits of a sprite fall on the cell in column `cx` and row `cy`, over all its rows and columns. -/
def hits (s : Screen) (rows : List UInt8) (x y : Int) (cx cy : Nat) : Nat :=
  (rows.zipIdx.flatMap fun (row, r) =>
    (List.range spriteWidth).filter fun (c : Nat) =>
      hasBit row c && s.column (x + c) == cx && s.row (y + r) == cy).length

/-- Flips keep the size of the screen. -/
theorem size_foldl_hit (ts : List (Int × Int)) (state : Screen × Bool) :
    (ts.foldl hit state).1.width = state.1.width ∧ (ts.foldl hit state).1.height = state.1.height := by
  induction ts generalizing state with
  | nil => exact ⟨rfl, rfl⟩
  | cons t ts ih => exact ih (hit state t)

/-- Drawing keeps the size of the screen. -/
theorem size_draw (s : Screen) (rows : List UInt8) (x y : Int) :
    (s.draw rows x y).1.width = s.width ∧ (s.draw rows x y).1.height = s.height :=
  size_foldl_hit (targets rows x y) (s, false)

end Screen

/-- The rows of a sprite of the given height that stands in memory from an address on; a negative height means none. -/
def Memory.sprite (mem : Memory) (address height : Int) : List UInt8 :=
  mem.slice address height.toNat

end ChipEight
