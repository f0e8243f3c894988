import ChipEight.Text.Blank
import ChipEight.Text.DecimalDigit
import ChipEight.Text.Quoted

/-!
# Integers written by hand

A numeral is an optional sign and digits in a base of at most sixteen, with single underscores allowed between digits
and blanks around the whole. Base sixteen may announce itself by `0x`, which an underscore may follow. Decimal digits
of any script are understood. A numeral in base ten may have at most 4300 digits.

* `Integer.digitValue?` reads one digit and `Integer.digitRun` the longest run of digits at the head of a text.
* `Integer.read` reads the whole numeral, and `Integer.Fault.message` words what went wrong.
-/

namespace ChipEight.Integer

/-- Why a text is no integer. -/
inductive Fault where
  /-- The text does not follow the grammar of numerals in that base. -/
  | malformed (base : Nat) (text : List Char)
  /-- The numeral has more digits than are accepted. -/
  | tooLong (digits : Nat)
  deriving DecidableEq

/-- The most digits of a numeral in base ten. -/
def maxDigits : Nat := 4300

/-- How much of the quoted text a message shows. -/
def shownCharacters : Nat := 200

/-- The wording of a fault. -/
def Fault.message : Fault → String
  | .malformed base text =>
    s!"invalid literal for int() with base {base}: " ++ String.ofList ((Text.quoted text).take shownCharacters)
  | .tooLong digits =>
    s!"Exceeds the limit ({maxDigits} digits) for integer string conversion: value has {digits} digits; " ++
      "use sys.set_int_max_str_digits() to increase the limit"

/-- Blanks that may stand around a numeral: all but the four information separators. -/
def isPadding (c : Char) : Bool :=
  Text.isBlank c && !(0x1c ≤ c.toNat && c.toNat ≤ 0x1f)

/-- The value of a digit: a decimal digit of any script, or a letter of either case from ten on. -/
def digitValue? (c : Char) : Option Nat :=
  match Hex.value? c with
  | some d => some d.val
  | none => Text.decimalDigit? c

/-- The value of a digit in the given base. -/
def digitIn? (base : Nat) (c : Char) : Option Nat :=
  (digitValue? c).filter (· < base)

/-- What the head of a text reads as: the value and the number of its digits, and the text behind them. -/
structure Run where
  value : Nat
  digits : Nat
  rest : List Char

/-- Continues a run of digits; an underscore belongs to it only between two digits. -/
def digitRun (base : Nat) (value digits : Nat) : List Char → Run
  | [] => ⟨value, digits, []⟩
  | '_' :: c :: rest =>
    match if digits = 0 then none else digitIn? base c with
    | some d => digitRun base (value * base + d) (digits + 1) rest
    | none => ⟨value, digits, '_' :: c :: rest⟩
  | c :: rest =>
    match digitIn? base c with
    | some d => digitRun base (value * base + d) (digits + 1) rest
    | none => ⟨value, digits, c :: rest⟩

/-- Splits off the sign; `true` stands for minus. -/
def sign : List Char → Bool × List Char
  | '-' :: rest => (true, rest)
  | '+' :: rest => (false, rest)
  | cs => (false, cs)

/-- Drops the announcement of base sixteen: a zero, the letter x, and an underscore if one follows. -/
def dropAnnouncement (base : Nat) : List Char → List Char
  | z :: x :: rest =>
    if base = 16 ∧ digitValue? z = some 0 ∧ (x = 'x' ∨ x = 'X') then
      match rest with
      | '_' :: behind => behind
      | _ => rest
    else z :: x :: rest
  | cs => cs

/-- Whether a run of digits was cut off by a misplaced underscore. -/
def Run.broken (run : Run) : Bool :=
  run.rest.head? == some '_'

/-- Reads a whole numeral in a base of at most sixteen. -/
def read (base : Nat) (text : List Char) : Except Fault Int :=
  let (minus, unsigned) := sign (text.dropWhile isPadding)
  let run := digitRun base 0 0 (dropAnnouncement base unsigned)
  if run.digits = 0 ∨ run.broken then .error (.malformed base text)
  else if base = 10 ∧ maxDigits < run.digits then .error (.tooLong run.digits)
  else if run.rest.all isPadding then .ok (if minus then -run.value else run.value)
  else .error (.malformed base text)

end ChipEight.Integer
