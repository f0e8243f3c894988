import ChipEight.Machine.Basic

/-!
# Consistency

`Readings` are the sizes and numbers of a machine as they might be read off any record of one, sound or not, and
`Readings.consistent` tells whether a machine could have them. `Machine.consistent` asks that of a machine itself.
-/

namespace ChipEight

/-- The sizes and numbers of a machine; a register or timer without a number is `none`. -/
structure Readings where
  memorySize : Nat := ChipEight.memorySize
  registers : List (Option Int) := .replicate registerCount (some 0)
  delay : Option Int := some 0
  sound : Option Int := some 0
  index : Int := 0
  pc : Int := programStart
  stackFrames : Nat := 0
  keys : Nat := keyCount
  width : Int := defaultWidth
  height : Int := defaultHeight
  cells : Nat := defaultWidth * defaultHeight

/-- Whether a reading is the number of a byte. -/
def isByte (reading : Option Int) : Bool :=
  reading.any fun value => 0 ≤ value && value ≤ 0xFF

namespace Readings

/-- Whether all sizes are right and all numbers in range. -/
def consistent (r : Readings) : Bool :=
  r.memorySize == ChipEight.memorySize &&
  (r.registers.length == registerCount && (r.registers ++ [r.delay, r.sound]).all isByte) &&
  (0 ≤ r.index && r.index ≤ 0xFFFF) &&
  (0 ≤ r.pc && r.pc < ChipEight.memorySize) &&
  r.stackFrames ≤ stackDepth &&
  r.keys == keyCount &&
  (0 < r.width && 0 < r.height && r.width * r.height == r.cells)

end Readings

namespace Machine

/-- What can be read off a machine. -/
def readings (m : Machine) : Readings where
  memorySize := m.memory.size
  registers := m.registers.toList.map some
  delay := some m.delay
  sound := some m.sound
  index := m.index
  pc := m.pc
  stackFrames := m.stack.length
  keys := m.keys.size
  width := m.screen.width
  height := m.screen.height
  cells := m.screen.cells.size

/-- Whether all numbers of the machine are in range. -/
def consistent (m : Machine) : Bool :=
  m.readings.consistent

end Machine

end ChipEight
