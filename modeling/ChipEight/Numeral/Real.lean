import ChipEight.Numeral.Integer

/-!
# Real numbers written by hand

A numeral is an optional sign and then digits with an optional point and an optional exponent, or one of the words for
infinity and for no number, with blanks around the whole and single underscores between digits.

* `Decimal.read?` reads the digits, and `Decimal.nearest` is the floating-point number closest to them.
* `Real.read?` reads the whole numeral.
-/

namespace ChipEight

/-- A number in digits: its digits without zeros in front, and the power of ten that they count. -/
structure Decimal where
  digits : List Nat
  exponent : Int
  deriving DecidableEq, Repr

namespace Real

/-- Whether a character is a decimal digit of some script. -/
def isDigit (c : Char) : Bool :=
  (Text.decimalDigit? c).isSome

/-- Whether every underscore stands between two digits, given the character before the text. -/
def underscoresFit (before : Char) : List Char → Bool
  | [] => before != '_'
  | c :: rest =>
    (if c == '_' then isDigit before else before != '_' || isDigit c) && underscoresFit c rest

end Real

namespace Decimal

/-- The number that digits in base ten stand for. -/
def valueOf (digits : List Nat) : Nat :=
  digits.foldl (fun n d => 10 * n + d) 0

/-- The number of the given digits, as characters, times a power of ten. -/
def ofDigits (cs : List Char) (exponent : Int) : Decimal :=
  ⟨(cs.filterMap Text.decimalDigit?).dropWhile (· == 0), exponent⟩

/-- Reads an exponent, which may be left out: the letter e, an optional sign and at least one digit. -/
def exponent? : List Char → Option Int
  | [] => some 0
  | e :: rest =>
    let (isNegative, digits) := Integer.sign rest
    if (e == 'e' || e == 'E') && !digits.isEmpty && digits.all Real.isDigit then
      let value : Int := valueOf (digits.filterMap Text.decimalDigit?)
      some (if isNegative then -value else value)
    else none

/-- Reads a number in digits, without sign and underscores. -/
def read? (cs : List Char) : Option Decimal :=
  let whole := cs.takeWhile Real.isDigit
  match cs.dropWhile Real.isDigit with
  | '.' :: rest =>
    let fraction := rest.takeWhile Real.isDigit
    if whole.isEmpty && fraction.isEmpty then none
    else (exponent? (rest.dropWhile Real.isDigit)).map fun e => ofDigits (whole ++ fraction) (e - fraction.length)
  | rest => if whole.isEmpty then none else (exponent? rest).map (ofDigits whole)

/-- Ten to this power is beyond all finite floating-point numbers, and its inverse is closer to zero than to any
other. -/
def farPower : Int := 400

/-- The floating-point number closest to a number in digits; one that is too far away is infinite or zero. -/
def nearest (d : Decimal) : Float :=
  let places := d.exponent + d.digits.length
  if d.digits.isEmpty ∨ places < -farPower then 0
  else if farPower < places then 1 / 0
  else .ofScientific (valueOf d.digits) (d.exponent < 0) d.exponent.natAbs

end Decimal

namespace Real

/-- The words that stand for infinity and for no number, each with its value. -/
def words : List (List Char × Float) :=
  [("inf".toList, 1 / 0), ("infinity".toList, 1 / 0), ("nan".toList, 0 / 0)]

/-- Reads a numeral without sign and underscores. -/
def readUnsigned? (cs : List Char) : Option Float :=
  words.lookup (cs.map Char.toLower) <|> (Decimal.read? cs).map Decimal.nearest

/-- Reads a real number written by hand. -/
def read? (text : List Char) : Option Float :=
  let body := Text.stripBy Integer.isPadding text
  let (isNegative, unsigned) := Integer.sign (body.filter (· != '_'))
  if underscoresFit ' ' body then (readUnsigned? unsigned).map fun x => if isNegative then -x else x else none

end Real

end ChipEight
