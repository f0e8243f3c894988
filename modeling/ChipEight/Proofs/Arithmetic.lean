import ChipEight.Proofs.Decoding
import ChipEight.Proofs.Range

/-!
# Arithmetic on registers

Eight operations on two registers put a result into the first and a bit into the flag. Any of the registers may be the
same, and the flag may be one of them: both operands are read before anything is written, and the flag is written last.

- `Op.Computes` says by an equation what result and flag an operation makes of its operands;
- `computes_effect`: each operation stores a result and a flag for which its equation holds;
- `decode_withFlag`: the words of the family;
- `arithmetic_sound`: the main statement, for all words of the family and the two without a flag.
-/

namespace ChipEight

variable {m : Machine} {op : Op} {ins : Instruction} {n : Nat}

/-! ## What is to be computed -/

namespace Op

/-- The operations on two registers that set the flag, by the last digit of their words. -/
def withFlag : List (Nat × Op) :=
  [(0x1, or), (0x2, and), (0x3, xor), (0x4, add), (0x5, sub), (0x6, shiftRight), (0x7, subFrom), (0xE, shiftLeft)]

/-- The result `r` and the flag `f` that an operation makes of the operands `a` and `b`. -/
def Computes (a b r f : Int) : Op → Prop
  | or => r = (a.toNat ||| b.toNat : Nat) ∧ f = 0
  | and => r = (a.toNat &&& b.toNat : Nat) ∧ f = 0
  | xor => r = (a.toNat ^^^ b.toNat : Nat) ∧ f = 0
  | add => 256 * f + r = a + b
  | sub => a - b = r - 256 * (1 - f)
  | subFrom => b - a = r - 256 * (1 - f)
  | shiftRight => a = 2 * r + f
  | shiftLeft => 2 * a = 256 * f + r
  | _ => False

end Op

/-! ## Operations -/

theorem bitOf_eq (bit : Bool) : bitOf bit = 0 ∨ bitOf bit = 1 := by
  cases bit
  · exact .inl rfl
  · exact .inr rfl

/-- **Every operation of the family** stores a result and a flag as its equation asks for. -/
theorem computes_effect (hop : op ∈ Op.withFlag.map Prod.snd) (ha : IsByte (m.registers.value ins.x))
    (hb : IsByte (m.registers.value ins.y)) :
    ∃ r f, effect op ins m = .ok ((m.setWithFlag ins.x r f).advance, []) ∧
      op.Computes (m.registers.value ins.x) (m.registers.value ins.y) r f ∧ IsByte r ∧ (f = 0 ∨ f = 1) := by
  have hor := isByte_or ha hb
  have hand := isByte_and ha hb
  have hxor := isByte_xor ha hb
  obtain ⟨k, hk, -⟩ := ha.exists_nat
  obtain ⟨l, hl, -⟩ := hb.exists_nat
  cases op
  case or => exact ⟨_, _, rfl, ⟨by rw [hk, hl, Bitwise.or_ofNat]; rfl, rfl⟩, hor, .inl rfl⟩
  case and => exact ⟨_, _, rfl, ⟨by rw [hk, hl, Bitwise.and_ofNat]; rfl, rfl⟩, hand, .inl rfl⟩
  case xor => exact ⟨_, _, rfl, ⟨by rw [hk, hl, Bitwise.xor_ofNat]; rfl, rfl⟩, hxor, .inl rfl⟩
  all_goals unfold IsByte at ha hb
  case add | sub | subFrom =>
    refine ⟨_, _, rfl, ?_, isByte_emod _, bitOf_eq _⟩
    simp only [Op.Computes, bitOf, decide_eq_true_eq]
    split <;> omega
  case shiftRight =>
    refine ⟨_, _, rfl, ?_, ?_, by omega⟩
    · simp only [Op.Computes]
      omega
    · unfold IsByte
      omega
  case shiftLeft =>
    refine ⟨_, _, rfl, ?_, isByte_emod _, by omega⟩
    simp only [Op.Computes]
    omega
  all_goals exact absurd hop (by decide)

/-- The shifts read the first register alone. -/
theorem effect_shift {ins' : Instruction} (hop : op = .shiftRight ∨ op = .shiftLeft) (hx : ins.x = ins'.x) :
    effect op ins m = effect op ins' m := by
  rcases hop with rfl | rfl
  · simp only [effect, hx]
  · simp only [effect, hx]

/-! ## Words -/

/-- The words of the family are told by their last digit. -/
theorem decode_withFlag (x y : Register) (hn : (n, op) ∈ Op.withFlag) :
    let ins := Instruction.decode (0x8000 + 0x100 * x.val + 0x10 * y.val + n)
    ins.op = op ∧ ins.x = x ∧ ins.y = y := by
  have hlt : n < 16 ∧ ∀ h : n < 16, Op.ofDigits 0x8 x y ⟨n, h⟩ = op := by
    simp only [Op.withFlag, List.mem_cons, Prod.mk.injEq, List.not_mem_nil, or_false] at hn
    rcases hn with ⟨rfl, rfl⟩ | ⟨rfl, rfl⟩ | ⟨rfl, rfl⟩ | ⟨rfl, rfl⟩ | ⟨rfl, rfl⟩ | ⟨rfl, rfl⟩ | ⟨rfl, rfl⟩ | ⟨rfl, rfl⟩
    all_goals exact ⟨by decide, fun _ => rfl⟩
  have hword : (0x8000 + 0x100 * x.val + 0x10 * y.val + n : Int) = 0x8 * 0x1000 + x.val * 0x100 + y.val * 0x10 + n := by
    omega
  obtain ⟨hop, hx, hy, -⟩ := decode_word 0x8 x y ⟨n, hlt.1⟩ hword
  exact ⟨hop.trans (hlt.2 hlt.1), hx, hy⟩

/-- The word that adds a byte to a register. -/
theorem decode_addByte (x : Register) {kk : Nat} (hkk : kk < 0x100) :
    let ins := Instruction.decode (0x7000 + 0x100 * x.val + kk)
    ins.op = .addByte ∧ ins.x = x ∧ ins.kk = kk := by
  have hword : (0x7000 + 0x100 * x.val + kk : Int) = 0x7 * 0x1000 + x.val * 0x100 + kk := by omega
  obtain ⟨⟨y, n, hop⟩, hx, hk⟩ := decode_word_byte 0x7 x hkk hword
  exact ⟨hop, hx, hk⟩

/-- The word that copies a register. -/
theorem decode_copy (x y : Register) :
    let ins := Instruction.decode (0x8000 + 0x100 * x.val + 0x10 * y.val)
    ins.op = .copy ∧ ins.x = x ∧ ins.y = y := by
  have hword : (0x8000 + 0x100 * x.val + 0x10 * y.val : Int) = 0x8 * 0x1000 + x.val * 0x100 + y.val * 0x10 + 0 := by
    omega
  obtain ⟨hop, hx, hy, -⟩ := decode_word 0x8 x y 0 hword
  exact ⟨hop, hx, hy⟩

/-- **Arithmetic is sound for all registers**, also where some coincide: each word of the family gives the result and
the flag that its equation asks for, the flag last, and changes no other register. -/
theorem arithmetic_sound (m : Machine) (hbytes : ∀ r, IsByte (m.registers.value r)) (x y : Register) :
    let a := m.registers.value x
    let b := m.registers.value y
    (∀ n op, (n, op) ∈ Op.withFlag → ∃ m' r f,
      m.execute (.decode (0x8000 + 0x100 * x.val + 0x10 * y.val + n)) = .ok (m', []) ∧
      op.Computes a b r f ∧ 0 ≤ r ∧ r ≤ 255 ∧ (f = 0 ∨ f = 1) ∧
      ∀ s, m'.registers.value s = if s = flag then f else if s = x then r else m.registers.value s) ∧
    (∀ n ∈ ([0x6, 0xE] : List Nat), ∀ z : Register, m.execute (.decode (0x8000 + 0x100 * x.val + 0x10 * z.val + n)) =
      m.execute (.decode (0x8000 + 0x100 * x.val + 0x10 * y.val + n))) ∧
    (∀ kk : Nat, kk < 256 → ∃ m', m.execute (.decode (0x7000 + 0x100 * x.val + kk)) = .ok (m', []) ∧
      ∀ s, m'.registers.value s = if s = x then (a + kk) % 256 else m.registers.value s) ∧
    ∃ m', m.execute (.decode (0x8000 + 0x100 * x.val + 0x10 * y.val)) = .ok (m', []) ∧
      ∀ s, m'.registers.value s = if s = x then b else m.registers.value s := by
  intro a b
  refine ⟨fun n op hn => ?_, fun n hn z => ?_, fun kk hkk => ?_, ?_⟩
  · obtain ⟨hop, hx, hy⟩ := decode_withFlag x y hn
    generalize Instruction.decode _ = ins at hop hx hy
    subst hx hy
    obtain ⟨r, f, he, hcomputes, hr, hf⟩ :=
      computes_effect (List.mem_map_of_mem hn) (hbytes ins.x) (hbytes ins.y)
    rw [← hop] at he
    refine ⟨_, r, f, execute_of_effect he, hop ▸ hcomputes, hr.1, hr.2, hf, fun s => ?_⟩
    exact value_setWithFlag m ins.x s r f
  · obtain ⟨op, hmem, hshift⟩ : ∃ op, (n, op) ∈ Op.withFlag ∧ (op = .shiftRight ∨ op = .shiftLeft) := by
      simp only [List.mem_cons, List.not_mem_nil, or_false] at hn
      rcases hn with rfl | rfl
      · exact ⟨.shiftRight, by decide, .inl rfl⟩
      · exact ⟨.shiftLeft, by decide, .inr rfl⟩
    obtain ⟨hop, hx, -⟩ := decode_withFlag x z hmem
    obtain ⟨hop', hx', -⟩ := decode_withFlag x y hmem
    apply execute_congr (hop.trans hop'.symm)
    rw [hop, hop']
    exact effect_shift hshift (hx.trans hx'.symm)
  · obtain ⟨hop, hx, hk⟩ := decode_addByte x hkk
    generalize Instruction.decode _ = ins at hop hx hk
    subst hx
    have he : effect ins.op ins m = .ok ((m.setRegister ins.x ((a + ins.kk) % 0x100)).advance, []) := by
      rw [hop]
      rfl
    refine ⟨_, execute_of_effect he, fun s => ?_⟩
    rw [← hk]
    exact value_setRegister m ins.x s _
  · obtain ⟨hop, hx, hy⟩ := decode_copy x y
    generalize Instruction.decode _ = ins at hop hx hy
    subst hx hy
    have he : effect ins.op ins m = .ok ((m.setRegister ins.x b).advance, []) := by
      rw [hop]
      rfl
    exact ⟨_, execute_of_effect he, fun s => value_setRegister m ins.x s b⟩

/-- The flag register added to itself: the carry wins over the sum. -/
theorem arithmetic_sound_flag : ∃ m m' : Machine, m.registers.value flag = 200 ∧
    m.execute (.decode 0x8FF4) = .ok (m', []) ∧ m'.registers.value flag = 1 := by
  obtain ⟨m, hvalue⟩ : ∃ m : Machine, ∀ r, m.registers.value r = 200 :=
    ⟨{ Machine.boot [] (.blank 8 4 (by decide) (by decide)) (.cycle []) with
      registers := .replicate registerCount 200 }, fun r => by simp [Registers.value]⟩
  obtain ⟨hfamily, -⟩ := arithmetic_sound m (fun r => by rw [hvalue]; decide) flag flag
  obtain ⟨m', r, f, hexecute, hcomputes, -, hr, hf, hregisters⟩ := hfamily 0x4 .add (by decide)
  have hsum : 256 * f + r = 200 + 200 := by
    rw [hvalue] at hcomputes
    exact hcomputes
  refine ⟨m, m', hvalue flag, hexecute, ?_⟩
  rw [hregisters, if_pos rfl]
  omega

end ChipEight
