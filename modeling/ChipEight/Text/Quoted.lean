import ChipEight.Numeral.Hex
import ChipEight.Text.Printable

/-!
# Quoted text

The form in which a message shows a text that it complains about: between quotes, with every character that does not
show on a page spelled out.
-/

namespace ChipEight.Text

/-- Single quotes, unless the text holds a single quote and no double one. -/
def quoteMark (cs : List Char) : Char :=
  if cs.contains '\'' && !cs.contains '"' then '"' else '\''

/-- A code point in lower-case digits, `width` of them. -/
def codePoint (width : Nat) (c : Char) : List Char :=
  (Hex.digits c.toNat).leftpad width '0'

/-- The spelling of one character between the quotes `mark`. -/
def escaped (mark : Char) (c : Char) : List Char :=
  if c == mark || c == '\\' then ['\\', c]
  else if c == '\n' then ['\\', 'n']
  else if c == '\r' then ['\\', 'r']
  else if c == '\t' then ['\\', 't']
  else if isPrintable c then [c]
  else if c.toNat < 0x100 then ['\\', 'x'] ++ codePoint 2 c
  else if c.toNat < 0x10000 then ['\\', 'u'] ++ codePoint 4 c
  else ['\\', 'U'] ++ codePoint 8 c

/-- A text between quotes, with its unprintable characters spelled out. -/
def quoted (cs : List Char) : List Char :=
  let mark := quoteMark cs
  mark :: cs.flatMap (escaped mark) ++ [mark]

end ChipEight.Text
