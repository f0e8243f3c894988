import ChipEight.Instruction.Assembly
import ChipEight.Proofs.Decoding
import ChipEight.Proofs.HexDigits
import ChipEight.Text.Pieces

/-!
# Assembly text determines the word

The assembly text of an instruction is a mnemonic with its operands (`Op.spelling`), and an operand shows some digits of
the word (`Operand.places`).

- `tokens_assembly`: the mnemonic and the operands are read back from the text;
- `op_eq_of_assembly_eq`: so the text tells the operation, and with it the places of all digits that it shows;
- `Op.shown_or_fixed`: a digit that no operand shows is fixed by the form of the operation;
- `assembly_decode_eq_iff`: hence words have the same text if and only if they agree in their low sixteen bits.
-/

namespace ChipEight

/-! ## Operands -/

/-- What an operand of assembly text shows: a part of the word, or a part of the machine by its name. -/
inductive Operand where
  | x
  | y
  | byte
  | address
  | rows
  | word
  | name (text : String)
  deriving DecidableEq, Repr

/-- The first character of a token, where zero stands for every decimal digit. -/
def beginning (token : List Char) : Option Char :=
  token.head?.map fun c => if c.isDigit then '0' else c

namespace Operand

/-- The operand in the assembly text of an instruction. -/
def text (ins : Instruction) : Operand → String
  | .x => Register.name ins.x
  | .y => Register.name ins.y
  | .byte => Hex.literal 4 ins.kk
  | .address => Hex.literal 5 ins.nnn
  | .rows => toString ins.n.val
  | .word => Hex.literal 6 ins.word
  | .name text => text

/-- The places of the digits that an operand shows. -/
def places : Operand → List Nat
  | .x => [2]
  | .y => [1]
  | .byte => [1, 0]
  | .address => [2, 1, 0]
  | .rows => [0]
  | .word => [3, 2, 1, 0]
  | .name _ => []

/-- The characters of an operand, from the digits of the word by their places. -/
def chars (ds : Nat → Fin 16) : Operand → List Char
  | .x => ['V', (Hex.digit (ds 2)).toUpper]
  | .y => ['V', (Hex.digit (ds 1)).toUpper]
  | .byte => ['0', 'x', Hex.digit (ds 1), Hex.digit (ds 0)]
  | .address => ['0', 'x', Hex.digit (ds 2), Hex.digit (ds 1), Hex.digit (ds 0)]
  | .rows => (toString (ds 0).val).toList
  | .word => ['0', 'x', Hex.digit (ds 3), Hex.digit (ds 2), Hex.digit (ds 1), Hex.digit (ds 0)]
  | .name text => text.toList

/-- How an operand begins, whatever the digits are. -/
def initial : Operand → Option Char
  | .x | .y => some 'V'
  | .byte | .address | .rows | .word => some '0'
  | .name text => beginning text.toList

/-- Whether the name of a part is a single token. -/
def plain : Operand → Bool
  | .name text => text.toList.all fun c => c != ' ' && c != ','
  | _ => true

end Operand

variable {word word' : Int} {op : Op} {o : Operand} {ds es : Nat → Fin 16} {d d' : Fin 16}

theorem Register.toList_name (r : Register) : r.name.toList = ['V', (Hex.digit r).toUpper] := by
  revert r
  decide

namespace Operand

theorem rows_inj (h : (toString d.val).toList = (toString d'.val).toList) : d = d' := by
  revert d d'
  decide

/-- **An operand shows the digits at its places**, and nothing else of the word. -/
theorem toList_text (ins : Instruction) (hword : ins.word % 0x10000 = ins.word) (o : Operand) :
    (o.text ins).toList = o.chars (hexDigit ins.word) := by
  have hdigits := emod_eq_digits ins.word
  cases o with
  | x => exact Register.toList_name ins.x
  | y => exact Register.toList_name ins.y
  | byte =>
    have hkk : ins.kk = 16 * (16 * 0 + ins.y.val) + ins.n.val := by
      unfold Instruction.kk Instruction.y Instruction.n
      omega
    rw [text, hkk, Hex.toList_literal (k := 1) (by omega), Hex.lastDigits_concat, Hex.lastDigits_concat]
    rfl
  | address =>
    have hnnn : ins.nnn = 16 * (16 * (16 * 0 + ins.x.val) + ins.y.val) + ins.n.val := by
      unfold Instruction.nnn Instruction.x Instruction.y Instruction.n
      omega
    rw [text, hnnn, Hex.toList_literal (k := 2) (by omega), Hex.lastDigits_concat, Hex.lastDigits_concat,
      Hex.lastDigits_concat]
    rfl
  | rows => rfl
  | word =>
    have hall : ins.word = (16 * (16 * (16 * (16 * 0 + ins.lead.val) + ins.x.val) + ins.y.val) + ins.n.val : Nat) := by
      unfold Instruction.lead Instruction.x Instruction.y Instruction.n
      omega
    rw [text, hall, Hex.toList_literal (k := 3) (by omega), Hex.lastDigits_concat, Hex.lastDigits_concat,
      Hex.lastDigits_concat, Hex.lastDigits_concat, ← hall]
    rfl
  | name text => rfl

/-- The digits that an operand shows are read back. -/
theorem digit_eq_of_chars_eq (h : o.chars ds = o.chars es) : ∀ place ∈ o.places, ds place = es place := by
  cases o with
  | x | y =>
    simp only [chars, List.cons.injEq] at h
    simpa [places] using Hex.toUpper_digit_inj h.2.1
  | byte =>
    simp only [chars, List.cons.injEq] at h
    simpa [places] using ⟨Hex.digit_inj h.2.2.1, Hex.digit_inj h.2.2.2.1⟩
  | address =>
    simp only [chars, List.cons.injEq] at h
    simpa [places] using ⟨Hex.digit_inj h.2.2.1, Hex.digit_inj h.2.2.2.1, Hex.digit_inj h.2.2.2.2.1⟩
  | rows => simpa [places] using rows_inj h
  | word =>
    simp only [chars, List.cons.injEq] at h
    simpa [places] using
      ⟨Hex.digit_inj h.2.2.1, Hex.digit_inj h.2.2.2.1, Hex.digit_inj h.2.2.2.2.1, Hex.digit_inj h.2.2.2.2.2.1⟩
  | name text => simp [places]

/-- How an operand begins does not depend on the digits. -/
theorem beginning_chars (ds : Nat → Fin 16) (o : Operand) : beginning (o.chars ds) = o.initial := by
  cases o with
  | rows =>
    have h : ∀ d : Fin 16, beginning (toString d.val).toList = some '0' := by decide
    exact h (ds 0)
  | _ => rfl

/-- No separator stands inside of an operand. -/
theorem notMem_chars (hplain : o.plain = true) (ds : Nat → Fin 16) : ' ' ∉ o.chars ds ∧ ',' ∉ o.chars ds := by
  have hdigit : ∀ d : Fin 16, (' ' ≠ Hex.digit d ∧ ' ' ≠ (Hex.digit d).toUpper) ∧
      ',' ≠ Hex.digit d ∧ ',' ≠ (Hex.digit d).toUpper := by decide
  have hrows : ∀ d : Fin 16, ' ' ∉ (toString d.val).toList ∧ ',' ∉ (toString d.val).toList := by decide
  cases o with
  | rows => exact hrows (ds 0)
  | name text =>
    simp only [plain, List.all_eq_true, Bool.and_eq_true, bne_iff_ne] at hplain
    exact ⟨fun hm => (hplain _ hm).1 rfl, fun hm => (hplain _ hm).2 rfl⟩
  | _ => simp [chars, hdigit]

end Operand

/-! ## Spellings -/

namespace Op

/-- The mnemonic of an operation and its operands. -/
def spelling : Op → String × List Operand
  | .clear => ("CLS", [])
  | .ret => ("RET", [])
  | .jump => ("JP", [.address])
  | .call => ("CALL", [.address])
  | .skipEqByte => ("SE", [.x, .byte])
  | .skipNeByte => ("SNE", [.x, .byte])
  | .skipEqReg => ("SE", [.x, .y])
  | .loadByte => ("LD", [.x, .byte])
  | .addByte => ("ADD", [.x, .byte])
  | .copy => ("LD", [.x, .y])
  | .or => ("OR", [.x, .y])
  | .and => ("AND", [.x, .y])
  | .xor => ("XOR", [.x, .y])
  | .add => ("ADD", [.x, .y])
  | .sub => ("SUB", [.x, .y])
  | .shiftRight => ("SHR", [.x, .y])
  | .subFrom => ("SUBN", [.x, .y])
  | .shiftLeft => ("SHL", [.x, .y])
  | .skipNeReg => ("SNE", [.x, .y])
  | .loadIndex => ("LD", [.name "I", .address])
  | .jumpOffset => ("JP", [.x, .address])
  | .random => ("RND", [.x, .byte])
  | .draw => ("DRW", [.x, .y, .rows])
  | .skipPressed => ("SKP", [.x])
  | .skipReleased => ("SKNP", [.x])
  | .readDelay => ("LD", [.x, .name "DT"])
  | .awaitKey => ("LD", [.x, .name "K"])
  | .setDelay => ("LD", [.name "DT", .x])
  | .setSound => ("LD", [.name "ST", .x])
  | .addIndex => ("ADD", [.name "I", .x])
  | .pointGlyph => ("LD", [.name "F", .x])
  | .storeDecimal => ("LD", [.name "B", .x])
  | .storeRegisters => ("LD", [.name "[I]", .x])
  | .loadRegisters => ("LD", [.x, .name "[I]"])
  | .invalid => ("???", [.word])

/-- The mnemonic of an operation. -/
def mnemonic (op : Op) : String :=
  op.spelling.1

/-- What the operands of an operation show. -/
def operands (op : Op) : List Operand :=
  op.spelling.2

/-- The character for the digit at a place, counted from the right, in the form of an operation. -/
def formAt (op : Op) (place : Nat) : Char :=
  op.form.toList.getD (3 - place) '?'

theorem plain_operands (op : Op) : ∀ o ∈ op.operands, o.plain = true := by
  cases op <;> decide

theorem notMem_mnemonic (op : Op) : ' ' ∉ op.mnemonic.toList ∧ ',' ∉ op.mnemonic.toList := by
  cases op <;> decide

/-- The mnemonic and the beginnings of the operands tell the operation. -/
theorem eq_of_beginnings {op op' : Op} (hmnemonic : op.mnemonic = op'.mnemonic)
    (hoperands : op.operands.map Operand.initial = op'.operands.map Operand.initial) : op = op' := by
  have hall : ∀ op ∈ all, ∀ op' ∈ all, op.operands.map Operand.initial = op'.operands.map Operand.initial →
      op.mnemonic.toList = op'.mnemonic.toList → op = op' := by decide
  exact hall op (mem_all op) op' (mem_all op') hoperands (congrArg String.toList hmnemonic)

/-- **Every digit is shown or fixed.** A digit of a word that no operand shows is written in the form. -/
theorem shown_or_fixed (op : Op) : ∀ place < 4, place ∈ op.operands.flatMap Operand.places ∨
    op ≠ .invalid ∧ op.formAt place ∉ ['x', 'y', 'n', 'k'] := by
  cases op <;> decide

end Op

/-- The assembly text of an instruction is spelled as the operation asks. -/
theorem assembly_eq (ins : Instruction) : ins.assembly =
    if ins.op.operands.isEmpty then ins.op.mnemonic
    else Instruction.line ins.op.mnemonic (ins.op.operands.map (Operand.text ins)) := by
  rcases ins with ⟨op, word⟩
  cases op <;> rfl

/-! ## Reading a text back -/

namespace Assembly

/-- The tokens of an assembly text: its words, without the commas. -/
def tokens (text : String) : List (List Char) :=
  Text.pieces ' ' (text.toList.filter (· != ','))

theorem filter_of_notMem {cs : List Char} (h : ',' ∉ cs) : cs.filter (· != ',') = cs := by
  apply List.filter_eq_self.mpr
  intro c hc
  apply bne_iff_ne.mpr
  rintro rfl
  exact h hc

/-- Without the commas, what was joined by a comma and a blank is joined by a blank. -/
theorem filter_intercalate {words : List (List Char)} (h : ∀ w ∈ words, ',' ∉ w) :
    ([',', ' '].intercalate words).filter (· != ',') = [' '].intercalate words := by
  induction words with
  | nil => rfl
  | cons w words ih =>
    have hw := filter_of_notMem (h w List.mem_cons_self)
    cases words with
    | nil => rw [List.intercalate_singleton, List.intercalate_singleton, hw]
    | cons v words =>
      have hrest := ih fun w' hw' => h w' (List.mem_cons_of_mem w hw')
      rw [List.intercalate_cons_cons, List.intercalate_cons_cons, List.filter_append, List.filter_append, hw, hrest]
      rfl

/-- The mnemonic and the operands of a line are its tokens. -/
theorem tokens_line {mnemonic : String} {operands : List String} (hne : operands ≠ [])
    (hblank : ∀ s ∈ mnemonic :: operands, ' ' ∉ s.toList) (hcomma : ∀ s ∈ mnemonic :: operands, ',' ∉ s.toList) :
    tokens (Instruction.line mnemonic operands) = (mnemonic :: operands).map String.toList := by
  have htoList : (Instruction.line mnemonic operands).toList =
      mnemonic.toList ++ ' ' :: [',', ' '].intercalate (operands.map String.toList) := by
    simp only [Instruction.line, String.toList_append, String.toList_intercalate, List.append_assoc]
    rfl
  have hfilter : ([',', ' '].intercalate (operands.map String.toList)).filter (· != ',') =
      [' '].intercalate (operands.map String.toList) := by
    apply filter_intercalate
    rw [List.forall_mem_map]
    exact fun s hs => hcomma s (List.mem_cons_of_mem mnemonic hs)
  have hpieces : Text.pieces ' ' ([' '].intercalate (operands.map String.toList)) = operands.map String.toList := by
    apply Text.pieces_intercalate (mt List.map_eq_nil_iff.mp hne)
    rw [List.forall_mem_map]
    exact fun s hs => hblank s (List.mem_cons_of_mem mnemonic hs)
  calc tokens (Instruction.line mnemonic operands)
      = Text.pieces ' ' (mnemonic.toList ++ ' ' :: [' '].intercalate (operands.map String.toList)) := by
        rw [tokens, htoList, List.filter_append, filter_of_notMem (hcomma mnemonic List.mem_cons_self), ← hfilter]
        rfl
    _ = (mnemonic :: operands).map String.toList := by
        rw [Text.pieces_append_cons, Text.pieces_of_notMem (hblank mnemonic List.mem_cons_self), hpieces]
        rfl

end Assembly

/-- **The mnemonic and the operands are read back from the assembly text.** -/
theorem tokens_assembly (ins : Instruction) (hword : ins.word % 0x10000 = ins.word) : Assembly.tokens ins.assembly =
    ins.op.mnemonic.toList :: ins.op.operands.map (Operand.chars (hexDigit ins.word)) := by
  have hchars : ((ins.op.operands.map (Operand.text ins)).map String.toList) =
      ins.op.operands.map (Operand.chars (hexDigit ins.word)) := by
    rw [List.map_map]
    exact List.map_congr_left fun o _ => Operand.toList_text ins hword o
  have hseparators : ∀ s ∈ ins.op.mnemonic :: ins.op.operands.map (Operand.text ins),
      ' ' ∉ s.toList ∧ ',' ∉ s.toList := by
    intro s hs
    rcases List.mem_cons.mp hs with rfl | hs
    · exact ins.op.notMem_mnemonic
    · obtain ⟨o, ho, rfl⟩ := List.mem_map.mp hs
      rw [Operand.toList_text ins hword o]
      exact Operand.notMem_chars (ins.op.plain_operands o ho) _
  rw [assembly_eq]
  split
  case isTrue hempty =>
    rw [List.isEmpty_iff.mp hempty, Assembly.tokens, Assembly.filter_of_notMem ins.op.notMem_mnemonic.2,
      Text.pieces_of_notMem ins.op.notMem_mnemonic.1]
    rfl
  case isFalse hne =>
    have hne' : ins.op.operands.map (Operand.text ins) ≠ [] := by
      simpa using hne
    rw [Assembly.tokens_line hne' (fun s hs => (hseparators s hs).1) (fun s hs => (hseparators s hs).2),
      List.map_cons, hchars]

/-- The text of an instruction tells its operation. -/
theorem op_eq_of_assembly_eq {ins ins' : Instruction} (hword : ins.word % 0x10000 = ins.word)
    (hword' : ins'.word % 0x10000 = ins'.word) (h : ins.assembly = ins'.assembly) : ins.op = ins'.op := by
  have htokens := tokens_assembly ins hword
  rw [h, tokens_assembly ins' hword', List.cons.injEq] at htokens
  obtain ⟨hmnemonic, hoperands⟩ := htokens
  have hinitials := congrArg (List.map beginning) hoperands
  simp only [List.map_map, Function.comp_def, Operand.beginning_chars] at hinitials
  exact (Op.eq_of_beginnings (String.toList_injective hmnemonic) hinitials).symm

/-! ## Digits -/

namespace Op

/-- A form that fits a word accepts its digits place by place. -/
theorem accepts_formAt (h : op.fits (wordDigits word) = true) :
    ∀ place < 4, accepts (op.formAt place) (hexDigit word place) = true := by
  obtain ⟨c3, c2, c1, c0, hform⟩ : ∃ c3 c2 c1 c0, op.form.toList = [c3, c2, c1, c0] := by
    cases op <;> exact ⟨_, _, _, _, rfl⟩
  rw [wordDigits, fits_eq, hform] at h
  simp only [List.zip_cons_cons, List.zip_nil_right, List.all_cons, List.all_nil, Bool.and_eq_true] at h
  obtain ⟨h3, h2, h1, h0, -⟩ := h
  intro place hplace
  rw [formAt, hform]
  obtain rfl | rfl | rfl | rfl : place = 0 ∨ place = 1 ∨ place = 2 ∨ place = 3 := by omega
  · exact h0
  · exact h1
  · exact h2
  · exact h3

/-- A character of a form that is no letter accepts one digit. -/
theorem eq_of_accepts {c : Char} (hc : c ∉ ['x', 'y', 'n', 'k']) (h : accepts c d = true)
    (h' : accepts c d' = true) : d = d' := by
  simp only [accepts, Bool.or_eq_true, decide_eq_true_eq, beq_iff_eq] at h h'
  exact Hex.toUpper_digit_inj ((h.resolve_left hc).symm.trans (h'.resolve_left hc))

end Op

/-- The form of a decoded operation accepts the digits of its word. -/
theorem accepts_decode (hvalid : (Instruction.decode word).op ≠ .invalid) : ∀ place < 4,
    Op.accepts ((Instruction.decode word).op.formAt place) (hexDigit (Instruction.decode word).word place) = true := by
  apply Op.accepts_formAt
  rw [show (Instruction.decode word).word = word % 0x10000 from rfl, wordDigits_emod]
  exact (op_decode_eq_iff word).mp ⟨hvalid, rfl⟩

theorem emod_word_decode (word : Int) : (Instruction.decode word).word % 0x10000 = (Instruction.decode word).word :=
  Int.emod_emod_of_dvd word (Int.dvd_refl 0x10000)

/-- Two instructions with the same text have the same digits. -/
theorem digits_eq_of_assembly_eq (h : (Instruction.decode word).assembly = (Instruction.decode word').assembly) :
    ∀ place < 4, hexDigit (Instruction.decode word).word place = hexDigit (Instruction.decode word').word place := by
  have hop := op_eq_of_assembly_eq (emod_word_decode word) (emod_word_decode word') h
  have htokens := tokens_assembly (Instruction.decode word) (emod_word_decode word)
  rw [h, tokens_assembly (Instruction.decode word') (emod_word_decode word'), ← hop, List.cons.injEq,
    List.map_inj_left] at htokens
  intro place hplace
  rcases Op.shown_or_fixed (Instruction.decode word).op place hplace with hshown | ⟨hvalid, hfixed⟩
  · obtain ⟨o, ho, hmem⟩ := List.mem_flatMap.mp hshown
    exact Operand.digit_eq_of_chars_eq (htokens.2 o ho).symm place hmem
  · -- all words of the operation have the digit that its form asks for
    have haccepts := accepts_decode hvalid place hplace
    have haccepts' := accepts_decode (hop ▸ hvalid) place hplace
    rw [← hop] at haccepts'
    exact Op.eq_of_accepts hfixed haccepts haccepts'

/-- **Words have the same assembly text if and only if they agree in their low sixteen bits**, meaningless words
included. -/
theorem assembly_decode_eq_iff : (Instruction.decode word).assembly = (Instruction.decode word').assembly ↔
    word % 0x10000 = word' % 0x10000 := by
  constructor
  · intro h
    have hdigits := digits_eq_of_assembly_eq h
    have hword := emod_eq_digits (Instruction.decode word).word
    rw [hdigits 0 (by decide), hdigits 1 (by decide), hdigits 2 (by decide), hdigits 3 (by decide),
      ← emod_eq_digits] at hword
    rw [emod_word_decode, emod_word_decode] at hword
    exact hword
  · intro h
    simp only [Instruction.decode, h]

end ChipEight
