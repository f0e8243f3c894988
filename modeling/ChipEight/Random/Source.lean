import ChipEight.Random.Twister

/-!
# Random sources

Where the machine takes its random bytes from: a stream of bytes that was laid down beforehand, or a twister.
`RandomSource.nth` is the view of a source, the bytes that it is going to give; `nth_next` says that taking one shifts
the view.
-/

namespace ChipEight

/-- A supply of random bytes. -/
inductive RandomSource where
  /-- An endless stream of bytes, of which some were drawn. -/
  | stream (number : Nat → UInt8) (drawn : Nat)
  /-- A generator. -/
  | twister (generator : Twister)

namespace RandomSource

/-- The next byte, and the source without it. -/
def next : RandomSource → UInt8 × RandomSource
  | stream number drawn => (number drawn, stream number (drawn + 1))
  | twister generator =>
    let (value, generator) := generator.nextByte
    (value, twister generator)

/-- The source without its first `k` bytes. -/
def skip : Nat → RandomSource → RandomSource
  | 0, source => source
  | k + 1, source => skip k source.next.2

/-- The byte that comes after `k` others. -/
def nth (source : RandomSource) (k : Nat) : UInt8 :=
  (source.skip k).next.1

theorem nth_next (source : RandomSource) (k : Nat) : source.next.2.nth k = source.nth (k + 1) := rfl

/-- The given bytes over and over; zeros if there are none. -/
def cycle (numbers : List UInt8) : RandomSource :=
  stream (fun k => numbers.getD (k % numbers.length) 0) 0

/-- The twister that starts from an integer. -/
def ofSeed (seed : Int) : RandomSource :=
  twister (.ofSeed seed)

end RandomSource

end ChipEight
