import ChipEight.Proofs.Events
import ChipEight.Proofs.HexGrammar
import ChipEight.Proofs.Listing

/-!
# Listings that are typed in again

The words of a listing are hexadecimal digits, so a listing can be typed in again as a program.

- `toList_bare`: a number that fits is written in upper case with as many digits as there is room for;
- `Gap` are the texts that may stand between words, and `Retyped` the texts that show the words of a listing;
- `significant_retyped`: the scan finds the digits of the words and nothing else, by induction on the listing;
- `bytes?_digitsOf`: these digits are read as the bytes of the program, by induction on the words;
- `image_padded`: a zero byte behind a program makes no difference in memory;
- `parse_retyped`: the main statement.
-/

namespace ChipEight

/-! ## Digits in upper case -/

namespace Hex

/-- A filled list is filled in the same way after its elements were changed, if that leaves the filling as it is. -/
theorem map_leftpad {α : Type} {f : α → α} {a : α} (ha : f a = a) (k : Nat) (l : List α) :
    (l.map f).leftpad k a = (l.leftpad k a).map f := by
  simp [List.leftpad, ha]

/-- A number that fits is written in upper case with as many digits as there is room for. -/
theorem toList_bare {k n : Nat} (h : n < 16 ^ (k + 1)) :
    (bare (k + 1) n).toList = (lastDigits (k + 1) n).map Char.toUpper := by
  have hsign : sign n = [] := by
    rw [sign, if_neg]
    omega
  simp only [bare, hsign, String.toList_ofList, Int.natAbs_natCast, List.nil_append, List.length_nil, Nat.sub_zero]
  rw [map_leftpad (by decide), leftpad_digits h]

/-- The last digits of a number are digits. -/
theorem exists_digit_of_mem_lastDigits {k n : Nat} {c : Char} (h : c ∈ lastDigits k n) : ∃ d, c = digit d := by
  induction k generalizing n with
  | zero => cases h
  | succ k ih =>
    rcases List.mem_append.mp h with h | h
    · exact ih h
    · exact ⟨⟨n % 16, Nat.mod_lt _ (by decide)⟩, List.mem_singleton.mp h⟩

theorem toUpper_digit_mem (d : Fin 16) : (digit d).toUpper ∈ characters := by
  revert d
  decide

theorem value?_toUpper_digit (d : Fin 16) : value? (digit d).toUpper = some d :=
  value?_eq_some_iff.mpr (.inr rfl)

end Hex

/-! ## Typing in -/

namespace Listing

open Text

variable {lines : List Line} {program : List UInt8} {gap text : List Char}

/-- **What may stand between words**: blanks, and comments with the ends of their lines. -/
inductive Gap : List Char → Prop
  | nil : Gap []
  | blank {c : Char} {rest : List Char} : isBlank c = true → Gap rest → Gap (c :: rest)
  | comment {body rest : List Char} {boundary : Char} : (∀ c ∈ body, isLineBoundary c = false) →
      isLineBoundary boundary = true → Gap rest → Gap ('#' :: (body ++ boundary :: rest))

/-- The four digits of a word, in upper case. -/
def digitsOf (w : Nat) : List Char :=
  (Hex.bare 4 w).toList

/-- **The texts that show the words of some lines**, with gaps before, between and behind them. -/
inductive Retyped : List Line → List Char → Prop
  | nil {gap : List Char} : Gap gap → Retyped [] gap
  | line {l : Line} {lines : List Line} {gap text : List Char} : Gap gap → Retyped lines text →
      Retyped (l :: lines) (gap ++ digitsOf l.word ++ text)

/-! ## What the scan finds -/

/-- The scan passes over a gap. -/
theorem significant_gap (h : Gap gap) (rest : List Char) :
    HexListing.significant false (gap ++ rest) = HexListing.significant false rest := by
  induction h with
  | nil => rfl
  | blank hblank _ ih => rw [List.cons_append, HexListing.significant_blank hblank, ih]
  | @comment body rest' boundary hbody hb _ ih =>
    rw [List.cons_append, List.append_assoc, List.cons_append, HexListing.significant_hash hbody,
      HexListing.significant_boundary hb, ih]

/-- The scan finds every digit. -/
theorem significant_digits {digits : List Char} (h : ∀ c ∈ digits, c ∈ Hex.characters) (rest : List Char) :
    HexListing.significant false (digits ++ rest) = digits ++ HexListing.significant false rest := by
  induction digits with
  | nil => rfl
  | cons c digits ih =>
    obtain ⟨hc, hdigits⟩ := List.forall_mem_cons.mp h
    rw [List.cons_append, HexListing.significant_digit hc, ih hdigits, List.cons_append]

theorem digitsOf_eq {w : Nat} (h : w < 0x10000) : digitsOf w = (Hex.lastDigits 4 w).map Char.toUpper :=
  Hex.toList_bare h

/-- The digits of a word are digits. -/
theorem mem_characters_of_mem_digitsOf {w : Nat} (h : w < 0x10000) {c : Char} (hc : c ∈ digitsOf w) :
    c ∈ Hex.characters := by
  rw [digitsOf_eq h] at hc
  obtain ⟨c, hlower, rfl⟩ := List.mem_map.mp hc
  obtain ⟨d, rfl⟩ := Hex.exists_digit_of_mem_lastDigits hlower
  exact Hex.toUpper_digit_mem d

/-- **The scan finds the digits of the words** and nothing else. -/
theorem significant_retyped (h : Retyped lines text) (hlines : ∀ l ∈ lines, l.word < 0x10000) :
    HexListing.significant false text = lines.flatMap fun l => digitsOf l.word := by
  induction h with
  | @nil gap hgap =>
    have hscan := significant_gap hgap []
    rwa [List.append_nil] at hscan
  | @line l lines gap text hgap _ ih =>
    obtain ⟨hl, hlines⟩ := List.forall_mem_cons.mp hlines
    rw [List.append_assoc, significant_gap hgap, significant_digits fun c => mem_characters_of_mem_digitsOf hl,
      ih hlines, List.flatMap_cons]

/-! ## What the digits are read as -/

/-- The digits of a word are read as its two bytes. -/
theorem bytes?_digitsOf_append {w : Nat} (h : w < 0x10000) (rest : List Char) :
    Hex.bytes? (digitsOf w ++ rest) = (Hex.bytes? rest).map (bytes w ++ ·) := by
  have hdigits : digitsOf w = [(Hex.digit ⟨w / 4096 % 16, by omega⟩).toUpper,
      (Hex.digit ⟨w / 256 % 16, by omega⟩).toUpper, (Hex.digit ⟨w / 16 % 16, by omega⟩).toUpper,
      (Hex.digit ⟨w % 16, by omega⟩).toUpper] := by
    rw [digitsOf_eq h]
    simp [Hex.lastDigits, Hex.digit, Nat.div_div_eq_div_mul]
  have hbytes : bytes w = [Hex.byte ⟨w / 4096 % 16, by omega⟩ ⟨w / 256 % 16, by omega⟩,
      Hex.byte ⟨w / 16 % 16, by omega⟩ ⟨w % 16, by omega⟩] := by
    have hhigh : 16 * (w / 4096 % 16) + w / 256 % 16 = w / 256 := by omega
    have hlow : 16 * (w / 16 % 16) + w % 16 = w % 256 := by omega
    simp only [bytes, Hex.byte, hhigh, hlow]
  rw [hdigits, hbytes]
  simp only [List.cons_append, List.nil_append, Hex.bytes?, Hex.value?_toUpper_digit, Option.map_map]
  rfl

/-- The digits of words are read as the bytes of the words. -/
theorem bytes?_digitsOf {ws : List Nat} (h : ∀ w ∈ ws, w < 0x10000) :
    Hex.bytes? (ws.flatMap digitsOf) = some (ws.flatMap bytes) := by
  induction ws with
  | nil => rfl
  | cons w ws ih =>
    obtain ⟨hw, hws⟩ := List.forall_mem_cons.mp h
    rw [List.flatMap_cons, bytes?_digitsOf_append hw, ih hws, List.flatMap_cons, Option.map_some]

/-- The words of a listing have sixteen bits. -/
theorem lt_of_mem_ofBytes {start : Int} {l : Line} (h : l ∈ ofBytes program start) : l.word < 0x10000 := by
  obtain ⟨⟨w, k⟩, hmem, rfl⟩ := List.mem_map.mp h
  exact lt_of_mem_words (List.fst_mem_of_mem_zipIdx hmem)

theorem map_word_ofBytes (program : List UInt8) (start : Int) :
    (ofBytes program start).map Line.word = words program := by
  calc (ofBytes program start).map Line.word
      = (words program).zipIdx.map Prod.fst := by
        rw [ofBytes, ofWords, List.map_map]
        rfl
    _ = words program := List.zipIdx_map_fst 0 _

/-! ## The program behind the listing -/

theorem length_padded_le (h : program.length ≤ maxProgram) : (padded program).length ≤ maxProgram := by
  unfold padded maxProgram memorySize programStart at *
  split
  · rw [List.length_append, List.length_singleton]
    omega
  · exact h

/-- A byte behind a program is zero, also one that was put there. -/
theorem getD_padded (program : List UInt8) (k : Nat) : (padded program).getD k 0 = program.getD k 0 := by
  unfold padded
  split
  · rw [List.getD_eq_getElem?_getD, List.getD_eq_getElem?_getD]
    rcases Nat.lt_or_ge k program.length with hk | hk
    · rw [List.getElem?_append_left hk]
    · rw [List.getElem?_append_right hk, List.getElem?_eq_none hk]
      cases k - program.length <;> rfl
  · rfl

/-- A zero byte behind a program makes no difference in memory. -/
theorem image_padded (program : List UInt8) : Memory.image (padded program) = Memory.image program := by
  simp only [Memory.image_eq, getD_padded]

/-- A program that fits gives the same machine with a zero byte behind it. -/
theorem start_padded (h : program.length ≤ maxProgram) (platform : Platform) (width height : Int)
    (random : RandomSource) :
    Machine.start platform (padded program) width height random =
      Machine.start platform program width height random := by
  have hsize : checkSize .image program = .ok program := if_neg (by omega)
  have hpadded : checkSize .image (padded program) = .ok (padded program) :=
    if_neg (by have := length_padded_le h; omega)
  simp only [Machine.start, hsize, hpadded, Machine.boot, image_padded]

/-- The digits of a listing are read as the program, with a zero byte behind it if its length is odd. -/
theorem ofDigits_words (h : program.length ≤ maxProgram) :
    HexListing.ofDigits ((words program).flatMap digitsOf) = .ok (padded program) := by
  have hread : Hex.bytes? ((words program).flatMap digitsOf) = some (padded program) := by
    rw [bytes?_digitsOf fun _ => lt_of_mem_words, flatMap_bytes_words]
  have hlength : 2 * (padded program).length = ((words program).flatMap digitsOf).length := by
    have hspelled := congrArg List.length (Hex.spelled_of_bytes? hread).2
    rwa [Hex.length_ofBytes, List.length_map] at hspelled
  have hfits := length_padded_le h
  have hmax : maxProgram = 3584 := rfl
  rw [HexListing.ofDigits_of_bytes hread, if_neg]
  omega

/-- **A listing can be typed in again**, with any blanks and comments: the text is read as the program, with a zero byte
behind an odd one, and gives the same machine on every screen. -/
theorem parse_retyped (h : program.length ≤ maxProgram) (htext : Retyped (ofBytes program programStart) text) :
    HexListing.parse text = .ok (padded program) ∧
    ∀ (platform : Platform) (width height : Int) (random : RandomSource), 0 < width → 0 < height →
      Machine.start platform (padded program) width height random = Machine.start platform program width height random ∧
      (platform.Holds (width.toNat * height.toNat) →
        ∃ machine, Machine.start platform program width height random = .ok machine) := by
  constructor
  · have hscan := significant_retyped htext fun _ => lt_of_mem_ofBytes
    rw [← List.flatMap_map, map_word_ofBytes] at hscan
    rw [HexListing.parse, HexListing.content_eq_significant, hscan, ofDigits_words h]
  · intro platform width height random hw hh
    refine ⟨start_padded h platform width height random, fun hcells => ?_⟩
    obtain ⟨e, he⟩ := Emulator.exists_start platform program width height random false h hw hh hcells
    unfold Emulator.start at he
    cases hm : Machine.start platform program width height random with
    | error fault => rw [hm] at he; cases he
    | ok machine => exact ⟨machine, rfl⟩

/-- An odd program, with a comment right behind a word and the other word on the next line. -/
theorem parse_retyped_odd : ∃ machine,
    HexListing.parse "\t00E0# cls: 1\n D100\n".toList = .ok [0x00, 0xE0, 0xD1, 0x00] ∧
    Machine.start .vast [0x00, 0xE0, 0xD1, 0x00] 8 4 (.cycle [7]) = .ok machine ∧
    Machine.start .vast [0x00, 0xE0, 0xD1] 8 4 (.cycle [7]) = .ok machine := by
  have hshown : ofBytes [0x00, 0xE0, 0xD1] programStart =
      [⟨0x200, 0x00E0, "CLS"⟩, ⟨0x202, 0xD100, "DRW V1, V0, 0"⟩] := by decide
  have hbody : (" cls: 1".toList.all fun c => isLineBoundary c == false) = true := by decide
  have hcomment : Gap "# cls: 1\n ".toList :=
    @Gap.comment " cls: 1".toList " ".toList '\n' (fun c hc => eq_of_beq (List.all_eq_true.mp hbody c hc)) rfl
      (.blank rfl .nil)
  have htext : Retyped (ofBytes [0x00, 0xE0, 0xD1] programStart) "\t00E0# cls: 1\n D100\n".toList := by
    rw [hshown]
    exact .line (.blank (c := '\t') rfl .nil) (.line hcomment (.nil (.blank (c := '\n') rfl .nil)))
  obtain ⟨hparse, hstart⟩ := parse_retyped (by decide) htext
  obtain ⟨hsame, hmachine⟩ := hstart .vast 8 4 (.cycle [7]) (by decide) (by decide)
  obtain ⟨machine, hmachine⟩ := hmachine (by decide)
  exact ⟨machine, hparse, hsame.trans hmachine, hmachine⟩

end Listing

end ChipEight
