import ChipEight.Instruction.Basic

/-!
# Which words are which operations

The form of an operation is read as a pattern of four digits: a digit stands for itself, a letter for any digit.

- `Op.ofDigits_of_fits` and `Op.fits_ofDigits`: the operation of four digits is the one whose form fits them, if any;
- `decode_word` and `decode_word_byte`: what a word is that is put together from digits and bytes;
- `op_decode_eq_ret`, `op_decode_eq_call`, `op_decode_eq_clear` and `op_decode_eq_draw` name the words of some
  operations;
- `decode_by_form`: the main statement, for every integer, the operands included.
-/

namespace ChipEight

variable {op : Op} {lead x y n : Fin 16}

/-! ## Forms -/

namespace Op

theorem length_form (op : Op) : op.form.length = 4 := by
  cases op <;> rfl

/-- A letter in a form accepts any digit. -/
theorem accepts_letter (d : Fin 16) :
    accepts 'x' d = true ∧ accepts 'y' d = true ∧ accepts 'n' d = true ∧ accepts 'k' d = true :=
  ⟨rfl, rfl, rfl, rfl⟩

/-- A digit in a form accepts itself alone. -/
theorem accepts_digit (d : Fin 16) :
    accepts '0' d = (d.val == 0x0) ∧ accepts '1' d = (d.val == 0x1) ∧ accepts '2' d = (d.val == 0x2) ∧
    accepts '3' d = (d.val == 0x3) ∧ accepts '4' d = (d.val == 0x4) ∧ accepts '5' d = (d.val == 0x5) ∧
    accepts '6' d = (d.val == 0x6) ∧ accepts '7' d = (d.val == 0x7) ∧ accepts '8' d = (d.val == 0x8) ∧
    accepts '9' d = (d.val == 0x9) ∧ accepts 'A' d = (d.val == 0xA) ∧ accepts 'B' d = (d.val == 0xB) ∧
    accepts 'C' d = (d.val == 0xC) ∧ accepts 'D' d = (d.val == 0xD) ∧ accepts 'E' d = (d.val == 0xE) ∧
    accepts 'F' d = (d.val == 0xF) := by
  revert d
  decide

/-- The question marks of the meaningless operation accept nothing. -/
theorem accepts_questionMark (d : Fin 16) : accepts '?' d = false := by
  revert d
  decide

/-- A form fits four digits if its characters accept them one by one. -/
theorem fits_eq (op : Op) (lead x y n : Fin 16) : op.fits [lead, x, y, n] =
    (op.form.toList.zip [lead, x, y, n]).all fun (c, d) => accepts c d := by
  rw [fits, length_form]
  exact Bool.true_and _

/-- Digits that a form fits are digits of its operation. -/
theorem ofDigits_of_fits (h : op.fits [lead, x, y, n] = true) : op ≠ .invalid ∧ ofDigits lead x y n = op := by
  rw [fits_eq] at h
  cases op
  all_goals simp [form, accepts_letter, accepts_digit, accepts_questionMark] at h
  case clear =>
    obtain ⟨rfl, rfl, hy, rfl⟩ := h
    obtain rfl : y = 0xE := Fin.ext hy
    exact ⟨nofun, rfl⟩
  case ret =>
    obtain ⟨rfl, rfl, hy, hn⟩ := h
    obtain rfl : y = 0xE := Fin.ext hy
    obtain rfl : n = 0xE := Fin.ext hn
    exact ⟨nofun, rfl⟩
  all_goals simp [ofDigits, h]

/-- The form of the operation of some digits fits them, unless they are meaningless. -/
theorem fits_ofDigits (lead x y n : Fin 16) :
    ofDigits lead x y n = .invalid ∨ (ofDigits lead x y n).fits [lead, x, y, n] = true := by
  rw [fits_eq]
  fun_cases ofDigits lead x y n
  case case1 hlead h | case2 hlead _ h =>
    obtain rfl : lead = 0 := Fin.ext hlead
    obtain ⟨rfl, rfl, rfl⟩ := h
    exact .inr rfl
  case case31 | case32 | case33 | case34 | case35 | case36 | case37 | case38 | case39 =>
    have hlead : lead.val = 0xF := by grind
    simp [form, accepts_letter, accepts_digit, *]
  all_goals simp [form, accepts_letter, accepts_digit, *]

/-- **The operation of four digits is the one whose form fits them.** -/
theorem ofDigits_eq_iff : op ≠ .invalid ∧ ofDigits lead x y n = op ↔ op.fits [lead, x, y, n] = true := by
  constructor
  · rintro ⟨hop, rfl⟩
    exact (fits_ofDigits lead x y n).resolve_left hop
  · exact ofDigits_of_fits

end Op

/-! ## Digits -/

/-- A digit of a word, for arithmetic. -/
theorem val_hexDigit (word : Int) (place : Nat) : ((hexDigit word place).val : Int) = word >>> (4 * place) % 16 := by
  show ((word >>> (4 * place) % 16).toNat : Int) = _
  omega

/-- The digits of a word are those of its low sixteen bits. -/
theorem wordDigits_emod (word : Int) : wordDigits (word % 0x10000) = wordDigits word := by
  have h : ∀ place < 4, hexDigit (word % 0x10000) place = hexDigit word place := by
    intro place hplace
    apply Fin.ext
    have h1 := val_hexDigit word place
    have h2 := val_hexDigit (word % 0x10000) place
    rw [Int.shiftRight_eq_div_pow] at h1 h2
    match place, hplace with
    | 0, _ | 1, _ | 2, _ | 3, _ => omega
  simp only [wordDigits, h 0 (by decide), h 1 (by decide), h 2 (by decide), h 3 (by decide)]

/-- The operation of a word is the one whose form fits its digits. -/
theorem op_decode_eq_iff (word : Int) : op ≠ .invalid ∧ (Instruction.decode word).op = op ↔
    op.fits (wordDigits word) = true := by
  rw [← wordDigits_emod]
  exact Op.ofDigits_eq_iff

/-! ## Words -/

/-- The low sixteen bits of a word, put together from its digits. -/
theorem emod_eq_digits (word : Int) : word % 0x10000 =
    (hexDigit word 3).val * 0x1000 + (hexDigit word 2).val * 0x100 + (hexDigit word 1).val * 0x10 +
      (hexDigit word 0).val := by
  simp only [val_hexDigit, Int.shiftRight_eq_div_pow]
  omega

/-- The digits of a word that is put together from digits. -/
theorem wordDigits_eq (lead x y n : Fin 16) {word : Int}
    (h : word = lead.val * 0x1000 + x.val * 0x100 + y.val * 0x10 + n.val) : wordDigits word = [lead, x, y, n] := by
  have hdigit := val_hexDigit word
  simp only [Int.shiftRight_eq_div_pow] at hdigit
  have h3 := hdigit 3
  have h2 := hdigit 2
  have h1 := hdigit 1
  have h0 := hdigit 0
  simp only [wordDigits, List.cons.injEq, Fin.ext_iff, and_true]
  omega

/-- A word that is put together from digits is decoded digit by digit. -/
theorem decode_word (lead x y n : Fin 16) {word : Int}
    (h : word = lead.val * 0x1000 + x.val * 0x100 + y.val * 0x10 + n.val) :
    let ins := Instruction.decode word
    ins.op = .ofDigits lead x y n ∧ ins.x = x ∧ ins.y = y ∧ ins.n = n := by
  intro ins
  have hdigits : wordDigits ins.word = [lead, x, y, n] := (wordDigits_emod word).trans (wordDigits_eq _ _ _ _ h)
  simp only [wordDigits, List.cons.injEq, and_true] at hdigits
  obtain ⟨h3, h2, h1, h0⟩ := hdigits
  refine ⟨?_, h2, h1, h0⟩
  show Op.ofDigits (hexDigit ins.word 3) (hexDigit ins.word 2) (hexDigit ins.word 1) (hexDigit ins.word 0) = _
  rw [h3, h2, h1, h0]

/-- The words on one register alone are told by their low byte. -/
theorem decode_lowByte (x high low : Fin 16) :
    let ins := Instruction.decode (0xF000 + 0x10 * high.val + low.val + 0x100 * x.val)
    ins.op = .ofDigits 0xF x high low ∧ ins.x = x := by
  have hword : (0xF000 + 0x10 * high.val + low.val + 0x100 * x.val : Int) =
      0xF * 0x1000 + x.val * 0x100 + high.val * 0x10 + low.val := by omega
  obtain ⟨hop, hx, -⟩ := decode_word 0xF x high low hword
  exact ⟨hop, hx⟩

/-- A word that ends in a byte. -/
theorem decode_word_byte (lead x : Fin 16) {kk : Nat} (hkk : kk < 0x100) {word : Int}
    (h : word = lead.val * 0x1000 + x.val * 0x100 + kk) :
    let ins := Instruction.decode word
    (∃ y n, ins.op = .ofDigits lead x y n) ∧ ins.x = x ∧ ins.kk = kk := by
  intro ins
  have hy : kk / 0x10 < 16 := by omega
  have hn : kk % 0x10 < 16 := by omega
  have hword : word = lead.val * 0x1000 + x.val * 0x100 + (kk / 0x10 : Nat) * 0x10 + (kk % 0x10 : Nat) := by omega
  obtain ⟨hop, hx, -, -⟩ := decode_word lead x ⟨kk / 0x10, hy⟩ ⟨kk % 0x10, hn⟩ hword
  refine ⟨⟨_, _, hop⟩, hx, ?_⟩
  have hlow : word % 0x10000 % 256 = kk := by omega
  show (word % 0x10000 % 256).toNat = kk
  rw [hlow]
  exact Int.toNat_natCast kk

/-- Which words are those of an operation is told by the digits in its form. -/
theorem op_decode_eq_iff_accepts (op : Op) (hop : op ≠ .invalid) (word : Int) : (Instruction.decode word).op = op ↔
    ((op.form.toList.zip (wordDigits word)).all fun (c, d) => Op.accepts c d) = true := by
  rw [wordDigits, ← Op.fits_eq, ← wordDigits, ← op_decode_eq_iff]
  exact (and_iff_right hop).symm

/-- The word that clears the screen. -/
theorem op_decode_eq_clear (word : Int) : (Instruction.decode word).op = .clear ↔ word % 0x10000 = 0x00E0 := by
  rw [op_decode_eq_iff_accepts .clear nofun, emod_eq_digits]
  simp [Op.form, wordDigits, Op.accepts_digit]
  omega

/-- The word of a return. -/
theorem op_decode_eq_ret (word : Int) : (Instruction.decode word).op = .ret ↔ word % 0x10000 = 0x00EE := by
  rw [op_decode_eq_iff_accepts .ret nofun, emod_eq_digits]
  simp [Op.form, wordDigits, Op.accepts_digit]
  omega

/-- The words of calls. -/
theorem op_decode_eq_call (word : Int) : (Instruction.decode word).op = .call ↔ word % 0x10000 / 0x1000 = 2 := by
  rw [op_decode_eq_iff_accepts .call nofun, emod_eq_digits]
  simp [Op.form, wordDigits, Op.accepts_digit, Op.accepts_letter]
  omega

/-- The words that draw a sprite. -/
theorem op_decode_eq_draw (word : Int) : (Instruction.decode word).op = .draw ↔ word % 0x10000 / 0x1000 = 0xD := by
  rw [op_decode_eq_iff_accepts .draw nofun, emod_eq_digits]
  simp [Op.form, wordDigits, Op.accepts_digit, Op.accepts_letter]
  omega

/-- **Words are decoded by the forms of the operations.** At most one form fits the four digits of a word; it is that of
the decoded operation, and if there is none the word is meaningless. -/
theorem decode_by_form (word : Int) :
    let ins := Instruction.decode word
    let digits := wordDigits ins.word
    ins.word = word % 0x10000 ∧
    (Op.all.countP fun op : Op => op.fits digits) ≤ 1 ∧
    (∀ op : Op, op.fits digits = true ↔ op ≠ .invalid ∧ ins.op = op) ∧
    (ins.op = .invalid ↔ ∀ op : Op, op.fits digits = false) ∧
    [ins.lead, ins.x, ins.y, ins.n] = wordDigits word ∧
    ins.word = ins.lead.val * 0x1000 + ins.x.val * 0x100 + ins.y.val * 0x10 + ins.n.val ∧
    ins.kk = 0x10 * ins.y.val + ins.n.val ∧ ins.nnn = 0x100 * ins.x.val + ins.kk := by
  intro ins digits
  have hfits : ∀ op : Op, op.fits digits = true ↔ op ≠ .invalid ∧ ins.op = op := by
    intro op
    rw [show digits = wordDigits word from wordDigits_emod word]
    exact (op_decode_eq_iff word).symm
  have hword : ins.word = ins.lead.val * 0x1000 + ins.x.val * 0x100 + ins.y.val * 0x10 + ins.n.val := by
    have h := emod_eq_digits ins.word
    rwa [show ins.word % 0x10000 = ins.word from Int.emod_emod_of_dvd _ (Int.dvd_refl _)] at h
  refine ⟨rfl, ?_, hfits, ?_, wordDigits_emod word, hword, ?_, ?_⟩
  · calc (Op.all.countP fun op : Op => op.fits digits)
        ≤ Op.all.count ins.op := by
          refine List.countP_mono_left fun op _ h => ?_
          rw [((hfits op).mp h).2]
          exact beq_self_eq_true op
      _ ≤ 1 := List.nodup_iff_count.mp Op.nodup_all ins.op
  · constructor
    · intro h op
      rw [Bool.eq_false_iff]
      intro hop
      obtain ⟨hne, he⟩ := (hfits op).mp hop
      exact hne (he.symm.trans h)
    · intro h
      refine Decidable.byContradiction fun hne => ?_
      have hop := (hfits ins.op).mpr ⟨hne, rfl⟩
      rw [h ins.op] at hop
      cases hop
  · unfold Instruction.kk
    omega
  · unfold Instruction.nnn Instruction.kk
    omega

/-- A word may be given by a negative number. -/
example : Instruction.decode (-0xFEB) = ⟨.setDelay, 0xF015⟩ := by decide

end ChipEight
