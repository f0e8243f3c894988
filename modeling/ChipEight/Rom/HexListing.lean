import ChipEight.Numeral.Hex
import ChipEight.Rom.Size
import ChipEight.Text.Blank

/-!
# Hexadecimal listings

A program written out as hexadecimal digits, with blanks anywhere and with comments from `#` to the end of the line.
`HexListing.parse` reads it line by line. `HexListing.significant` says which characters count by one scan over the
whole text that only remembers whether it is inside a comment.
-/

namespace ChipEight.HexListing

/-- Why a text is no listing of a program. -/
inductive Fault where
  | notHex
  | oddDigits
  | oversize (e : Oversize)
  deriving DecidableEq

/-- The wording of the fault. -/
def Fault.message : Fault → String
  | .notHex => "Hex listing contains non-hex characters"
  | .oddDigits => "Hex listing has an odd number of digits"
  | .oversize e => e.message

def Fault.errorClass : Fault → ErrorClass
  | .notHex | .oddDigits => .valueError
  | .oversize e => e.errorClass

/-- What a line says: everything before the comment that is not blank. -/
def contentOfLine (line : List Char) : List Char :=
  (line.takeWhile (· != '#')).filter (!Text.isBlank ·)

/-- What all lines of a text say. -/
def content (text : List Char) : List Char :=
  (Text.lines text).flatMap contentOfLine

/-- Reads digits that stand one after the other. -/
def ofDigits (digits : List Char) : Except Fault (List UInt8) :=
  if digits.all fun c => (Hex.value? c).isSome then
    match Hex.bytes? digits with
    | none => .error .oddDigits
    | some program =>
      match checkSize .listing program with
      | .error e => .error (.oversize e)
      | .ok program => .ok program
  else .error .notHex

/-- Reads a listing. -/
def parse (text : List Char) : Except Fault (List UInt8) :=
  ofDigits (content text)

/-- A program that was read from a listing fits in memory. -/
theorem length_le_of_parse {text : List Char} {program : List UInt8} (h : parse text = .ok program) :
    program.length ≤ maxProgram := by
  unfold parse ofDigits at h
  split at h
  · cases hb : Hex.bytes? (content text) with
    | none => simp [hb] at h
    | some bytes =>
      cases hc : checkSize .listing bytes with
      | error e => simp [hb, hc] at h
      | ok checked =>
        simp only [hb, hc, Except.ok.injEq] at h
        exact h ▸ (length_le_of_checkSize hc).2
  · cases h

/-- The characters that count, by one scan from left to right; the flag tells whether the scan is in a comment. -/
def significant : Bool → List Char → List Char
  | _, [] => []
  | inComment, c :: rest =>
    if Text.isLineBoundary c then significant false rest
    else if inComment || c == '#' then significant true rest
    else if Text.isBlank c then significant false rest
    else c :: significant false rest

end ChipEight.HexListing
