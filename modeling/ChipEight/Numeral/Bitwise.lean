/-!
# Bitwise operations on integers

An integer is read as an endless word of bits in two's complement: the bits of `n` for `n ≥ 0`, and for a negative
number the flipped bits of `-n - 1`. `Bitwise.bit_combine` says that the operations act on each bit by itself, and
`and_ofNat`, `or_ofNat` and `xor_ofNat` that they agree with those on natural numbers.
-/

namespace ChipEight.Bitwise

/-- Whether all high bits of the number are set. -/
def negative : Int → Bool
  | .ofNat _ => false
  | .negSucc _ => true

/-- The number whose bits are those of `a`, flipped when `a` is negative. -/
def pattern : Int → Nat
  | .ofNat n => n
  | .negSucc n => n

/-- The integer whose high bits are all `high` and whose other bits are those of `n`, flipped when `high` is set. -/
def assemble (high : Bool) (n : Nat) : Int :=
  if high then .negSucc n else .ofNat n

/-- Bit `k` of an integer. -/
def bit (a : Int) (k : Nat) : Bool :=
  (pattern a).testBit k != negative a

/-- Applies `f` to every pair of bits at the same place. -/
def combine (f : Bool → Bool → Bool) (a b : Int) : Int :=
  let high := f (negative a) (negative b)
  assemble high
    (Nat.bitwise (fun p q => f (p != negative a) (q != negative b) != high) (pattern a) (pattern b))

/-- The bits set in both numbers. -/
def and (a b : Int) : Int := combine Bool.and a b

/-- The bits set in either number. -/
def or (a b : Int) : Int := combine Bool.or a b

/-- The bits set in exactly one of the numbers. -/
def xor (a b : Int) : Int := combine Bool.xor a b

theorem bit_assemble (high : Bool) (n k : Nat) : bit (assemble high n) k = (n.testBit k != high) := by
  cases high <;> rfl

/-- **Every bit of the result comes from the two bits at its place.** -/
theorem bit_combine (f : Bool → Bool → Bool) (a b : Int) (k : Nat) :
    bit (combine f a b) k = f (bit a k) (bit b k) := by
  rw [combine, bit_assemble, Nat.testBit_bitwise (by simp)]
  simp only [bit]
  cases f (negative a) (negative b) <;> simp

theorem and_ofNat (m n : Nat) : and m n = ((m &&& n : Nat) : Int) := by
  simp [and, combine, assemble, negative, pattern, HAnd.hAnd, AndOp.and, Nat.land]

theorem or_ofNat (m n : Nat) : or m n = ((m ||| n : Nat) : Int) := by
  simp [or, combine, assemble, negative, pattern, HOr.hOr, OrOp.or, Nat.lor]

theorem xor_ofNat (m n : Nat) : xor m n = ((m ^^^ n : Nat) : Int) := by
  simp [xor, combine, assemble, negative, pattern, HXor.hXor, XorOp.xor, Nat.xor]

end ChipEight.Bitwise
