/-!
# Hexadecimal text

Two spellings of an integer in base sixteen, and the spelling of a byte string.

* `Hex.literal width n` is lower case behind `0x`, and `Hex.bare width n` is upper case on its own. Both put the sign
  first and fill with zeros up to `width` characters in all; a number that needs more room is written whole.
* `Hex.value?` reads one digit of either case, and `Hex.bytes?` reads digits two at a time.
* `Hex.bytes?_ofBytes` says that a byte string is read back from its spelling.
-/

namespace ChipEight.Hex

/-- The digits of `n` in lower case, most significant first, with no leading zero except for `0` itself. -/
def digits (n : Nat) : List Char :=
  Nat.toDigits 16 n

/-- A minus sign for a negative number and nothing for the others. -/
def sign (n : Int) : List Char :=
  if n < 0 then ['-'] else []

/-- `n` in lower case behind `0x`, filled with zeros to `width` characters, sign and `0x` included. -/
def literal (width : Nat) (n : Int) : String :=
  let mark := sign n ++ ['0', 'x']
  String.ofList (mark ++ (digits n.natAbs).leftpad (width - mark.length) '0')

/-- `n` in upper case, filled with zeros to `width` characters, sign included. -/
def bare (width : Nat) (n : Int) : String :=
  let mark := sign n
  String.ofList (mark ++ ((digits n.natAbs).map Char.toUpper).leftpad (width - mark.length) '0')

/-- The number that a digit of either case stands for. -/
def value? (c : Char) : Option (Fin 16) :=
  if h : '0' ≤ c ∧ c ≤ '9' then
    some ⟨c.toNat - 48, by
      have : c.toNat ≤ 57 := h.2
      omega⟩
  else if h : 'A' ≤ c ∧ c ≤ 'F' then
    some ⟨c.toNat - 55, by
      have : c.toNat ≤ 70 := h.2
      omega⟩
  else if h : 'a' ≤ c ∧ c ≤ 'f' then
    some ⟨c.toNat - 87, by
      have : c.toNat ≤ 102 := h.2
      omega⟩
  else none

/-- The byte with the given high and low digit. -/
def byte (high low : Fin 16) : UInt8 :=
  UInt8.ofNat (16 * high.val + low.val)

/-- The lower-case digit for a number below sixteen. -/
def digit (d : Fin 16) : Char :=
  Nat.digitChar d.val

/-- Two lower-case digits for each byte. -/
def ofBytes (bytes : List UInt8) : String :=
  String.ofList (bytes.flatMap fun b => [digit ⟨b.toNat / 16, by have := b.toNat_lt; omega⟩,
    digit ⟨b.toNat % 16, Nat.mod_lt _ (by omega)⟩])

/-- Reads digits two at a time; a lone last digit or a character that is no digit is refused. -/
def bytes? : List Char → Option (List UInt8)
  | [] => some []
  | [_] => none
  | a :: b :: rest =>
    match value? a, value? b with
    | some high, some low => (bytes? rest).map (byte high low :: ·)
    | _, _ => none

theorem value?_digit (d : Fin 16) : value? (digit d) = some d := by
  revert d; decide

theorem byte_div_mod (b : UInt8) (h₁ : b.toNat / 16 < 16) (h₂ : b.toNat % 16 < 16) :
    byte ⟨b.toNat / 16, h₁⟩ ⟨b.toNat % 16, h₂⟩ = b := by
  simp only [byte, Nat.div_add_mod, UInt8.ofNat_toNat]

/-- A byte string is read back from its spelling. -/
theorem bytes?_ofBytes (bytes : List UInt8) : bytes? (ofBytes bytes).toList = some bytes := by
  simp only [ofBytes, String.toList_ofList]
  induction bytes with
  | nil => rfl
  | cons b rest ih =>
    simp only [List.flatMap_cons, List.cons_append, List.nil_append, bytes?, value?_digit, ih, Option.map_some,
      byte_div_mod]

end ChipEight.Hex
