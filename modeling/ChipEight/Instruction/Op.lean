/-!
# The instruction set

`Op` lists the operations of the machine with one entry for every form of instruction word, and `Op.invalid` for the
words that have no meaning. Each operation has a `name` and a `form`: the four hexadecimal digits of its words, where
`x`, `y`, `n` and `k` stand for any digit. `Op.all` holds every operation once (`Op.mem_all`, `Op.nodup_all`).
-/

namespace ChipEight

/-- The operations of the machine. -/
inductive Op where
  | clear
  | ret
  | jump
  | call
  | skipEqByte
  | skipNeByte
  | skipEqReg
  | loadByte
  | addByte
  | copy
  | or
  | and
  | xor
  | add
  | sub
  | shiftRight
  | subFrom
  | shiftLeft
  | skipNeReg
  | loadIndex
  | jumpOffset
  | random
  | draw
  | skipPressed
  | skipReleased
  | readDelay
  | awaitKey
  | setDelay
  | setSound
  | addIndex
  | pointGlyph
  | storeDecimal
  | storeRegisters
  | loadRegisters
  | invalid
  deriving DecidableEq, Repr

namespace Op

/-- Every operation once, in the order of their words; the meaningless one comes last. -/
def all : List Op := [
  clear, ret, jump, call, skipEqByte, skipNeByte, skipEqReg, loadByte, addByte, copy, or, and, xor, add, sub,
  shiftRight, subFrom, shiftLeft, skipNeReg, loadIndex, jumpOffset, random, draw, skipPressed, skipReleased, readDelay,
  awaitKey, setDelay, setSound, addIndex, pointGlyph, storeDecimal, storeRegisters, loadRegisters, invalid]

/-- The name of an operation, by which messages list it. -/
def name : Op → String
  | clear => "CLS"
  | ret => "RET"
  | jump => "JP"
  | call => "CALL"
  | skipEqByte => "SE_BYTE"
  | skipNeByte => "SNE_BYTE"
  | skipEqReg => "SE_REG"
  | loadByte => "LD_BYTE"
  | addByte => "ADD_BYTE"
  | copy => "LD_REG"
  | or => "OR"
  | and => "AND"
  | xor => "XOR"
  | add => "ADD_REG"
  | sub => "SUB"
  | shiftRight => "SHR"
  | subFrom => "SUBN"
  | shiftLeft => "SHL"
  | skipNeReg => "SNE_REG"
  | loadIndex => "LD_I"
  | jumpOffset => "JP_V0"
  | random => "RND"
  | draw => "DRW"
  | skipPressed => "SKP"
  | skipReleased => "SKNP"
  | readDelay => "LD_VX_DT"
  | awaitKey => "LD_VX_K"
  | setDelay => "LD_DT_VX"
  | setSound => "LD_ST_VX"
  | addIndex => "ADD_I_VX"
  | pointGlyph => "LD_F_VX"
  | storeDecimal => "LD_B_VX"
  | storeRegisters => "LD_I_VX"
  | loadRegisters => "LD_VX_I"
  | invalid => "INVALID"

/-- The digits of the words of an operation: `0` to `F` stand for themselves and the letters `x`, `y`, `n`, `k` for
any digit. No digit fits a question mark. -/
def form : Op → String
  | clear => "00E0"
  | ret => "00EE"
  | jump => "1nnn"
  | call => "2nnn"
  | skipEqByte => "3xkk"
  | skipNeByte => "4xkk"
  | skipEqReg => "5xy0"
  | loadByte => "6xkk"
  | addByte => "7xkk"
  | copy => "8xy0"
  | or => "8xy1"
  | and => "8xy2"
  | xor => "8xy3"
  | add => "8xy4"
  | sub => "8xy5"
  | shiftRight => "8xy6"
  | subFrom => "8xy7"
  | shiftLeft => "8xyE"
  | skipNeReg => "9xy0"
  | loadIndex => "Annn"
  | jumpOffset => "Bnnn"
  | random => "Cxkk"
  | draw => "Dxyn"
  | skipPressed => "Ex9E"
  | skipReleased => "ExA1"
  | readDelay => "Fx07"
  | awaitKey => "Fx0A"
  | setDelay => "Fx15"
  | setSound => "Fx18"
  | addIndex => "Fx1E"
  | pointGlyph => "Fx29"
  | storeDecimal => "Fx33"
  | storeRegisters => "Fx55"
  | loadRegisters => "Fx65"
  | invalid => "????"

theorem mem_all (op : Op) : op ∈ all := by
  cases op <;> decide

theorem nodup_all : all.Nodup := by
  decide

end Op

end ChipEight
