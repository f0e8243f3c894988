/-!
# The twister

The Mersenne twister MT19937: 624 words of 32 bits, which are renewed all together when the last of them was used, and
whose bits are tempered on the way out. `Twister.ofSeed` fills the words from an integer, through its absolute value in
words of 32 bits, and `Twister.next` gives the next number.
-/

namespace ChipEight

/-- The number of words. -/
def twisterSize : Nat := 624

/-- The words of a twister. -/
abbrev TwisterWords := Vector UInt32 twisterSize

namespace TwisterWords

/-- The word at an index, modulo the number of words. -/
def word (w : TwisterWords) (k : Nat) : UInt32 :=
  w.get ⟨k % twisterSize, Nat.mod_lt _ (by decide)⟩

/-- Replaces the word at an index, modulo the number of words. -/
def put (w : TwisterWords) (k : Nat) (value : UInt32) : TwisterWords :=
  w.set (k % twisterSize) value (Nat.mod_lt _ (by decide))

/-- A word with its two highest bits folded into its two lowest. -/
def fold (value : UInt32) : UInt32 :=
  value ^^^ (value >>> 30)

/-- Words that grow out of a single one. -/
def ofWord (start : UInt32) : TwisterWords :=
  (List.range (twisterSize - 1)).foldl
    (fun w k => w.put (k + 1) (1812433253 * fold (w.word k) + UInt32.ofNat (k + 1)))
    (Vector.replicate twisterSize start)

/-- Replaces the word at index `1 + t % 623`; a new last word also becomes the first. -/
def stir (w : TwisterWords) (t : Nat) (change : UInt32 → UInt32 → UInt32) : TwisterWords :=
  let k := 1 + t % (twisterSize - 1)
  let value := change (w.word k) (fold (w.word (k - 1)))
  let w := w.put k value
  if k + 1 = twisterSize then w.put 0 value else w

/-- Words that grow out of a key. -/
def ofKey (key : Array UInt32) : TwisterWords :=
  let rounds := max twisterSize key.size
  let absorbed := (List.range rounds).foldl
    (fun w t =>
      let j := t % key.size
      w.stir t fun old previous => (old ^^^ (previous * 1664525)) + key.getD j 0 + UInt32.ofNat j)
    (ofWord 19650218)
  let spread := (List.range (twisterSize - 1)).foldl
    (fun w t =>
      w.stir (rounds + t) fun old previous =>
        (old ^^^ (previous * 1566083941)) - UInt32.ofNat (1 + (rounds + t) % (twisterSize - 1)))
    absorbed
  spread.put 0 0x80000000

/-- Renews all words. -/
def renew (w : TwisterWords) : TwisterWords :=
  (List.range twisterSize).foldl
    (fun w k =>
      let mixed := (w.word k &&& 0x80000000) ||| (w.word (k + 1) &&& 0x7fffffff)
      let twist : UInt32 := if mixed % 2 = 1 then 0x9908b0df else 0
      w.put k (w.word (k + 397) ^^^ (mixed >>> 1) ^^^ twist))
    w

end TwisterWords

/-- The words and how many of them were used since they were renewed. -/
structure Twister where
  words : TwisterWords
  used : Nat

namespace Twister

/-- The digits of a number in base 2³², lowest first, at least one. -/
def keyOf (n : Nat) : List UInt32 :=
  if n < 0x100000000 then [UInt32.ofNat n]
  else UInt32.ofNat (n % 0x100000000) :: keyOf (n / 0x100000000)
termination_by n
decreasing_by exact Nat.div_lt_self (by omega) (by decide)

/-- The twister that starts from an integer. -/
def ofSeed (seed : Int) : Twister :=
  ⟨.ofKey (keyOf seed.natAbs).toArray, twisterSize⟩

/-- The number that is given out for a word. -/
def temper (value : UInt32) : UInt32 :=
  let a := value ^^^ (value >>> 11)
  let b := a ^^^ ((a <<< 7) &&& 0x9d2c5680)
  let c := b ^^^ ((b <<< 15) &&& 0xefc60000)
  c ^^^ (c >>> 18)

/-- The next number. -/
def next (t : Twister) : UInt32 × Twister :=
  let t := if t.used < twisterSize then t else ⟨t.words.renew, 0⟩
  (temper (t.words.word t.used), { t with used := t.used + 1 })

/-- The first of at most `tries` numbers whose top nine bits are below 256, cut to those bits. -/
def byteWithin : Nat → Twister → UInt8 × Twister
  | 0, t => (0, t)
  | tries + 1, t =>
    let (value, t) := t.next
    let top := value >>> 23
    if top < 256 then (top.toUInt8, t) else byteWithin tries t

/-- The most numbers in a row that can have their top bit set: that bit follows a linear recurrence of this order. -/
def longestRun : Nat := 19937

/-- The next byte: nine bits at a time, until they make a number below 256. -/
def nextByte (t : Twister) : UInt8 × Twister :=
  byteWithin (longestRun + 1) t

end Twister

end ChipEight
