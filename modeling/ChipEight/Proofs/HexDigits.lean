import Mathlib.Algebra.Ring.Nat
import ChipEight.Numeral.Hex

/-!
# Hexadecimal digits

- `value?_eq_some_iff`, `isSome_value?_iff`: which characters are digits, and of which number;
- `bytes?_eq_some_iff`: digits are read as bytes if and only if the bytes are spelled by these digits in lower case;
- `toList_literal`: a number that fits is written with as many digits as there is room for, and `lastDigits` are these
  digits;
- `exists_literal`: a number of any size and sign is written in digits that stand for it, and `marks` is all that occurs
  in spellings.
-/

namespace ChipEight.Hex

variable {c : Char} {d : Fin 16} {n : Nat} {digits : List Char} {bytes : List UInt8}

/-! ## Single digits -/

/-- The digits of both cases. -/
def characters : List Char :=
  "0123456789ABCDEFabcdef".toList

theorem digit_inj {d d' : Fin 16} (h : digit d = digit d') : d = d' := by
  have hd := value?_digit d
  rw [h, value?_digit] at hd
  exact (Option.some.inj hd).symm

theorem toUpper_digit_inj {d d' : Fin 16} (h : (digit d).toUpper = (digit d').toUpper) : d = d' := by
  revert d d'
  decide

/-- Digits come early among all characters. -/
theorem toNat_lt_of_value? (h : value? c = some d) : c.toNat < 103 := by
  unfold value? at h
  split at h
  case isTrue hc =>
    have hhigh : c.toNat ≤ 57 := hc.2
    omega
  split at h
  case isTrue hc =>
    have hhigh : c.toNat ≤ 70 := hc.2
    omega
  split at h
  case isTrue hc =>
    have hhigh : c.toNat ≤ 102 := hc.2
    omega
  cases h

/-- A character is the digit of a number if it spells it in lower or in upper case. -/
theorem value?_eq_some_iff : value? c = some d ↔ c = digit d ∨ c = (digit d).toUpper := by
  constructor
  · intro h
    have hearly : ∀ n < 103, ∀ d ∈ value? (Char.ofNat n),
        Char.ofNat n = digit d ∨ Char.ofNat n = (digit d).toUpper := by
      decide
    have hc := hearly c.toNat (toNat_lt_of_value? h)
    rw [Char.ofNat_toNat] at hc
    exact hc d h
  · rintro (rfl | rfl)
    · exact value?_digit d
    · revert d
      decide

theorem isSome_value?_iff : (value? c).isSome = true ↔ c ∈ characters := by
  have hspelled : ∀ d, digit d ∈ characters ∧ (digit d).toUpper ∈ characters := by decide
  have hvalue : (characters.all fun c => (value? c).isSome) = true := by decide
  constructor
  · intro h
    obtain ⟨d, hd⟩ := Option.isSome_iff_exists.mp h
    rcases value?_eq_some_iff.mp hd with rfl | rfl
    · exact (hspelled d).1
    · exact (hspelled d).2
  · exact List.all_eq_true.mp hvalue c

/-- The digit in lower case is that of the number. -/
theorem toLower_of_value? (h : value? c = some d) : c.toLower = digit d := by
  have hlower : ∀ d, (digit d).toLower = digit d ∧ (digit d).toUpper.toLower = digit d := by decide
  rcases value?_eq_some_iff.mp h with rfl | rfl
  · exact (hlower d).1
  · exact (hlower d).2

/-! ## Bytes -/

theorem toList_ofBytes_nil : (ofBytes []).toList = [] := by
  simp [ofBytes]

/-- A byte is spelled by its two digits. -/
theorem toList_ofBytes_cons (high low : Fin 16) (bytes : List UInt8) :
    (ofBytes (byte high low :: bytes)).toList = digit high :: digit low :: (ofBytes bytes).toList := by
  have hbyte : (byte high low).toNat = 16 * high.val + low.val := by
    simp only [byte, UInt8.toNat_ofNat']
    omega
  have hhigh : (16 * high.val + low.val) / 16 = high.val := by omega
  have hlow : (16 * high.val + low.val) % 16 = low.val := by omega
  simp only [ofBytes, String.toList_ofList, List.flatMap_cons, hbyte, hhigh, hlow]
  rfl

theorem length_ofBytes (bytes : List UInt8) : (ofBytes bytes).toList.length = 2 * bytes.length := by
  induction bytes with
  | nil => simp [ofBytes]
  | cons b bytes ih =>
    simp only [ofBytes, String.toList_ofList, List.flatMap_cons, List.length_append, List.length_cons,
      List.length_nil] at ih ⊢
    omega

/-- Digits that are read as bytes spell them. -/
theorem spelled_of_bytes? (h : bytes? digits = some bytes) :
    (∀ c ∈ digits, c ∈ characters) ∧ (ofBytes bytes).toList = digits.map Char.toLower := by
  fun_induction bytes? digits generalizing bytes with
  | case1 =>
    obtain rfl := Option.some.inj h
    exact ⟨fun _ hc => absurd hc List.not_mem_nil, toList_ofBytes_nil⟩
  | case2 => cases h
  | case3 a b rest high low hlow hhigh ih =>
    obtain ⟨bytes, hrest, rfl⟩ := Option.map_eq_some_iff.mp h
    obtain ⟨hall, hspelled⟩ := ih hrest
    constructor
    · intro c hc
      rcases List.mem_cons.mp hc with rfl | hc
      · exact isSome_value?_iff.mp (by rw [hhigh]; rfl)
      · rcases List.mem_cons.mp hc with rfl | hc
        · exact isSome_value?_iff.mp (by rw [hlow]; rfl)
        · exact hall c hc
    · rw [toList_ofBytes_cons, hspelled, List.map_cons, List.map_cons, toLower_of_value? hhigh, toLower_of_value? hlow]
  | case4 => cases h

/-- An even number of digits is read as bytes. -/
theorem exists_bytes? (hall : ∀ c ∈ digits, c ∈ characters) (heven : digits.length % 2 = 0) :
    ∃ bytes, bytes? digits = some bytes := by
  fun_induction bytes? digits with
  | case1 => exact ⟨[], rfl⟩
  | case2 => simp at heven
  | case3 a b rest high low hlow hhigh ih =>
    have hrest : rest.length % 2 = 0 := by
      rw [List.length_cons, List.length_cons] at heven
      omega
    obtain ⟨bytes, hread⟩ := ih (fun c hc => hall c (by simp [hc])) hrest
    exact ⟨byte high low :: bytes, by rw [hread]; rfl⟩
  | case4 a b rest hnone =>
    obtain ⟨high, hhigh⟩ := Option.isSome_iff_exists.mp (isSome_value?_iff.mpr (hall a (by simp)))
    obtain ⟨low, hlow⟩ := Option.isSome_iff_exists.mp (isSome_value?_iff.mpr (hall b (by simp)))
    exact absurd hlow (hnone high low hhigh)

/-- Bytes are told by their spelling. -/
theorem ofBytes_inj {bytes' : List UInt8} (h : ofBytes bytes = ofBytes bytes') : bytes = bytes' := by
  have hbytes := bytes?_ofBytes bytes
  rw [h, bytes?_ofBytes] at hbytes
  exact (Option.some.inj hbytes).symm

/-- **Digits are read as the bytes that they spell**, whatever their case. -/
theorem bytes?_eq_some_iff : bytes? digits = some bytes ↔
    (∀ c ∈ digits, c ∈ characters) ∧ (ofBytes bytes).toList = digits.map Char.toLower := by
  constructor
  · exact spelled_of_bytes?
  · rintro ⟨hall, hspelled⟩
    have heven : digits.length % 2 = 0 := by
      have hlength := congrArg List.length hspelled
      rw [length_ofBytes, List.length_map] at hlength
      omega
    obtain ⟨bytes', hread⟩ := exists_bytes? hall heven
    have hspelled' := (spelled_of_bytes? hread).2
    rw [hread, ofBytes_inj (String.toList_injective (hspelled'.trans hspelled.symm))]

/-! ## Numbers that fit -/

/-- The last `k` digits of a number. -/
def lastDigits : Nat → Nat → List Char
  | 0, _ => []
  | k + 1, n => lastDigits k (n / 16) ++ [Nat.digitChar (n % 16)]

theorem lastDigits_zero (k : Nat) : lastDigits k 0 = List.replicate k '0' := by
  induction k with
  | zero => rfl
  | succ k ih =>
    rw [lastDigits, Nat.zero_div, ih, List.replicate_succ']
    rfl

theorem lastDigits_concat (k n : Nat) (d : Fin 16) :
    lastDigits (k + 1) (16 * n + d.val) = lastDigits k n ++ [digit d] := by
  have hdiv : (16 * n + d.val) / 16 = n := by omega
  have hmod : (16 * n + d.val) % 16 = d.val := by omega
  rw [lastDigits, hdiv, hmod]
  rfl

theorem leftpad_concat {α : Type} (k : Nat) (a b : α) (l : List α) :
    (l ++ [b]).leftpad (k + 1) a = l.leftpad k a ++ [b] := by
  simp [List.leftpad]

/-- A number that fits in some digits has no more than these. -/
theorem leftpad_digits {k : Nat} (h : n < 16 ^ (k + 1)) :
    (Hex.digits n).leftpad (k + 1) '0' = lastDigits (k + 1) n := by
  induction k generalizing n with
  | zero =>
    have hn : n < 16 := h
    rw [Hex.digits, Nat.toDigits_of_lt_base hn, lastDigits, Nat.mod_eq_of_lt hn]
    rfl
  | succ k ih =>
    rw [lastDigits, Hex.digits]
    rcases Nat.lt_or_ge n 16 with hn | hn
    · rw [Nat.toDigits_of_lt_base hn, Nat.div_eq_of_lt hn, lastDigits_zero, Nat.mod_eq_of_lt hn,
        ← List.nil_append [n.digitChar], leftpad_concat]
      simp [List.leftpad]
    · have hdiv : n / 16 < 16 ^ (k + 1) := by
        rw [Nat.pow_succ] at h
        omega
      rw [Nat.toDigits_of_base_le (by decide) hn, leftpad_concat, ← ih hdiv]
      rfl

/-- **A number that fits is written with as many digits as there is room for.** -/
theorem toList_literal {k : Nat} (h : n < 16 ^ (k + 1)) :
    (literal (k + 3) n).toList = '0' :: 'x' :: lastDigits (k + 1) n := by
  have hsign : sign n = [] := by
    rw [sign, if_neg]
    omega
  simp only [literal, hsign, String.toList_ofList, Int.natAbs_natCast, List.nil_append]
  rw [show k + 3 - ['0', 'x'].length = k + 1 from rfl, leftpad_digits h]
  rfl

/-! ## Numbers of any size -/

/-- The number that some digits stand for, most significant first. -/
def valueOf (ds : List (Fin 16)) : Nat :=
  ds.foldl (fun value d => value * 16 + d.val) 0

/-- Every number is written in digits that stand for it. -/
theorem exists_map_digit (n : Nat) : ∃ ds : List (Fin 16), ds ≠ [] ∧ Hex.digits n = ds.map digit ∧ valueOf ds = n := by
  induction n using Nat.strongRecOn with
  | ind n ih =>
    let last : Fin 16 := ⟨n % 16, Nat.mod_lt _ (by decide)⟩
    rcases Nat.lt_or_ge n 16 with hn | hn
    · refine ⟨[last], List.cons_ne_nil _ _, ?_, ?_⟩
      · rw [Hex.digits, Nat.toDigits_of_lt_base hn]
        simp [last, digit, Nat.mod_eq_of_lt hn]
      · simp [valueOf, last, Nat.mod_eq_of_lt hn]
    · obtain ⟨ds, -, hdigits, hvalue⟩ := ih (n / 16) (by omega)
      refine ⟨ds ++ [last], by simp, ?_, ?_⟩
      · rw [Hex.digits, Nat.toDigits_of_base_le (by decide) hn, ← Hex.digits, hdigits, List.map_append]
        rfl
      · rw [valueOf, List.foldl_append, ← valueOf, hvalue]
        show n / 16 * 16 + n % 16 = n
        omega

/-- Zeros in front do not count. -/
theorem valueOf_leftpad (k : Nat) (ds : List (Fin 16)) : valueOf (ds.leftpad k 0) = valueOf ds := by
  have hzeros (j : Nat) : valueOf (List.replicate j 0) = 0 := by
    induction j with
    | zero => rfl
    | succ j ih => rw [List.replicate_succ', valueOf, List.foldl_append, ← valueOf, ih]; rfl
  rw [List.leftpad, valueOf, List.foldl_append, ← valueOf, hzeros]
  rfl

/-- A number of any size behind `0x`. -/
theorem exists_literal (width : Nat) (n : Int) : ∃ ds : List (Fin 16), ds ≠ [] ∧
    (literal width n).toList = sign n ++ '0' :: 'x' :: ds.map digit ∧ valueOf ds = n.natAbs := by
  obtain ⟨ds, hne, hdigits, hvalue⟩ := exists_map_digit n.natAbs
  let k := width - (sign n ++ ['0', 'x']).length
  refine ⟨ds.leftpad k 0, by simpa [List.leftpad] using fun _ => hne, ?_, ?_⟩
  · have hzero : digit 0 = '0' := rfl
    simp [literal, hdigits, k, List.leftpad, hzero]
  · rw [valueOf_leftpad, hvalue]

/-- What a number is spelled with, in lower or in upper case. -/
def marks : List Char :=
  '-' :: 'x' :: characters

theorem mem_marks_of_mem_sign {n : Int} (h : c ∈ sign n) : c ∈ marks := by
  unfold sign at h
  split at h
  · rw [List.mem_singleton.mp h]
    decide
  · exact absurd h List.not_mem_nil

theorem digit_mem_marks (d : Fin 16) : digit d ∈ marks ∧ (digit d).toUpper ∈ marks := by
  revert d
  decide

theorem mem_marks_of_mem_literal {width : Nat} {n : Int} (h : c ∈ (literal width n).toList) : c ∈ marks := by
  obtain ⟨ds, -, hliteral, -⟩ := exists_literal width n
  rw [hliteral, List.mem_append, List.mem_cons, List.mem_cons] at h
  rcases h with h | rfl | rfl | h
  · exact mem_marks_of_mem_sign h
  · decide
  · decide
  · obtain ⟨d, -, rfl⟩ := List.mem_map.mp h
    exact (digit_mem_marks d).1

theorem mem_marks_of_mem_bare {width : Nat} {n : Int} (h : c ∈ (bare width n).toList) : c ∈ marks := by
  obtain ⟨ds, -, hdigits, -⟩ := exists_map_digit n.natAbs
  simp only [bare, String.toList_ofList, hdigits, List.mem_append, List.leftpad, List.mem_map] at h
  rcases h with h | h | ⟨_, ⟨d, -, rfl⟩, rfl⟩
  · exact mem_marks_of_mem_sign h
  · rw [(List.mem_replicate.mp h).2]
    decide
  · exact (digit_mem_marks d).2

end ChipEight.Hex
