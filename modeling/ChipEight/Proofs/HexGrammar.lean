import ChipEight.Proofs.HexDigits
import ChipEight.Rom.HexListing

/-!
# The grammar of hexadecimal listings

A listing is cut into lines, comments are cut off, blanks are dropped, and what is left is read as digits. One scan over
the text that only remembers whether it is in a comment finds the same digits.

- `lines_cons`: a character that ends no line goes in front of the first line;
- `significant_eq_lines`: the scan finds what the lines say, by induction on the lines, in and outside of a comment;
- `Reading`: what comes of digits; digits come to one thing (`reading_ofDigits`, `eq_of_reading`);
- `parse_by_scan`: the main statement, for every text.
-/

namespace ChipEight.HexListing

open Text

variable {c : Char} {text line digits : List Char} {program : List UInt8}

/-! ## Lines -/

/-- A character that ends no line goes in front of the first line. -/
theorem lines_cons (hc : isLineBoundary c = false) (rest : List Char) :
    lines (c :: rest) = (c :: (lines rest).headD []) :: (lines rest).tail := by
  have hreturn : c ≠ '\r' := by
    rintro rfl
    cases hc
  rw [lines]
  · rw [if_neg (by rw [hc]; decide)]
    cases lines rest <;> rfl
  · rintro rest' rfl
    exact absurd rfl hreturn

/-- What the lines say is what the first one says, and then what the others say. -/
theorem flatMap_headD (ls : List (List Char)) :
    ls.flatMap contentOfLine = contentOfLine (ls.headD []) ++ ls.tail.flatMap contentOfLine := by
  cases ls <;> rfl

/-! ## What a line says -/

theorem contentOfLine_hash (line : List Char) : contentOfLine ('#' :: line) = [] := rfl

theorem contentOfLine_blank (hhash : c ≠ '#') (hblank : isBlank c = true) :
    contentOfLine (c :: line) = contentOfLine line := by
  simp [contentOfLine, hhash, hblank]

theorem contentOfLine_cons (hhash : c ≠ '#') (hblank : isBlank c = false) :
    contentOfLine (c :: line) = c :: contentOfLine line := by
  simp [contentOfLine, hhash, hblank]

/-! ## The scan -/

/-- The end of a line ends a comment. -/
theorem significant_boundary (hc : isLineBoundary c = true) (inComment : Bool) (rest : List Char) :
    significant inComment (c :: rest) = significant false rest := by
  rw [significant, if_pos hc]

/-- A comment goes on to the end of the line. -/
theorem significant_comment (hc : isLineBoundary c = false) (rest : List Char) :
    significant true (c :: rest) = significant true rest := by
  rw [significant, if_neg (by rw [hc]; decide)]
  rfl

/-- Outside of a comment a character opens one, is passed over, or counts. -/
theorem significant_text (hc : isLineBoundary c = false) (rest : List Char) : significant false (c :: rest) =
    if c = '#' then significant true rest
    else if isBlank c then significant false rest
    else c :: significant false rest := by
  rw [significant, if_neg (by rw [hc]; decide)]
  simp

/-- A digit is neither blank nor the beginning of a comment. -/
theorem plain_of_mem_characters (h : c ∈ Hex.characters) :
    isLineBoundary c = false ∧ c ≠ '#' ∧ isBlank c = false := by
  have hall : (Hex.characters.all fun c => !isLineBoundary c && c != '#' && !isBlank c) = true := by decide
  have hc := List.all_eq_true.mp hall c h
  simp only [Bool.and_eq_true, Bool.not_eq_true', bne_iff_ne, ne_eq] at hc
  exact ⟨hc.1.1, hc.1.2, hc.2⟩

/-- Outside of a comment the scan finds a digit. -/
theorem significant_digit (h : c ∈ Hex.characters) (rest : List Char) :
    significant false (c :: rest) = c :: significant false rest := by
  obtain ⟨hline, hhash, hblank⟩ := plain_of_mem_characters h
  rw [significant_text hline, if_neg hhash, hblank, if_neg Bool.false_ne_true]

/-- Outside of a comment the scan passes over a blank, also one that ends a line. -/
theorem significant_blank (h : isBlank c = true) (rest : List Char) :
    significant false (c :: rest) = significant false rest := by
  cases hc : isLineBoundary c with
  | true => exact significant_boundary hc false rest
  | false =>
    have hhash : c ≠ '#' := by
      rintro rfl
      cases h
    rw [significant_text hc, if_neg hhash, if_pos h]

/-- The scan passes over what is left of the line that a comment stands in. -/
theorem significant_commentBody {body : List Char} (hbody : ∀ c ∈ body, isLineBoundary c = false)
    (rest : List Char) : significant true (body ++ rest) = significant true rest := by
  induction body with
  | nil => rfl
  | cons c body ih =>
    obtain ⟨hc, hbody⟩ := List.forall_mem_cons.mp hbody
    rw [List.cons_append, significant_comment hc, ih hbody]

/-- The scan passes over a comment up to the end of its line, or to the end of the text. -/
theorem significant_hash {body : List Char} (hbody : ∀ c ∈ body, isLineBoundary c = false) (rest : List Char) :
    significant false ('#' :: (body ++ rest)) = significant true rest := by
  rw [significant_text rfl, if_pos rfl, significant_commentBody hbody]

/-- A character that ends no line, in front of a text whose lines the scan agrees with. -/
theorem significant_cons (hc : isLineBoundary c = false) {rest : List Char}
    (hfalse : significant false rest = (lines rest).flatMap contentOfLine)
    (htrue : significant true rest = (lines rest).tail.flatMap contentOfLine) :
    significant false (c :: rest) = (lines (c :: rest)).flatMap contentOfLine ∧
    significant true (c :: rest) = (lines (c :: rest)).tail.flatMap contentOfLine := by
  rw [significant_comment hc, significant_text hc, lines_cons hc, List.flatMap_cons, List.tail_cons]
  refine ⟨?_, htrue⟩
  by_cases hhash : c = '#'
  · rw [if_pos hhash, hhash, contentOfLine_hash, htrue]
    rfl
  · rw [if_neg hhash, hfalse, flatMap_headD]
    cases hblank : isBlank c with
    | true => rw [if_pos rfl, contentOfLine_blank hhash hblank]
    | false => rw [if_neg Bool.false_ne_true, contentOfLine_cons hhash hblank, List.cons_append]

/-- **The scan finds what the lines say.** In a comment it begins with the second line. -/
theorem significant_eq_lines (text : List Char) :
    significant false text = (lines text).flatMap contentOfLine ∧
    significant true text = (lines text).tail.flatMap contentOfLine := by
  fun_induction lines text with
  | case1 => exact ⟨rfl, rfl⟩
  | case2 rest ih =>
    -- the line feed behind a carriage return ends no further line
    have hscan : ∀ inComment, significant inComment ('\r' :: '\n' :: rest) = significant false rest := by
      intro inComment
      rw [significant_boundary rfl, significant_boundary rfl]
    rw [hscan, hscan]
    exact ⟨ih.1, ih.1⟩
  | case3 c rest _ hc ih =>
    rw [significant_boundary hc, significant_boundary hc]
    exact ⟨ih.1, ih.1⟩
  | case4 c rest _ hc hnone ih =>
    have hc : isLineBoundary c = false := Bool.eq_false_iff.mpr hc
    have hlines : lines (c :: rest) = [[c]] := by
      rw [lines_cons hc, hnone]
      rfl
    rw [← hlines]
    exact significant_cons hc ih.1 ih.2
  | case5 c rest _ hc line more hsome ih =>
    have hc : isLineBoundary c = false := Bool.eq_false_iff.mpr hc
    have hlines : lines (c :: rest) = (c :: line) :: more := by
      rw [lines_cons hc, hsome]
      rfl
    rw [← hlines]
    exact significant_cons hc ih.1 ih.2

theorem content_eq_significant (text : List Char) : content text = significant false text :=
  (significant_eq_lines text).1.symm

/-! ## Reading -/

theorem ofDigits_of_not_hex (h : ∃ c ∈ digits, c ∉ Hex.characters) : ofDigits digits = .error .notHex := by
  obtain ⟨c, hc, hnot⟩ := h
  rw [ofDigits, if_neg]
  intro hall
  exact hnot (Hex.isSome_value?_iff.mp (List.all_eq_true.mp hall c hc))

theorem all_isSome_value? (h : ∀ c ∈ digits, c ∈ Hex.characters) :
    (digits.all fun c => (Hex.value? c).isSome) = true :=
  List.all_eq_true.mpr fun c hc => Hex.isSome_value?_iff.mpr (h c hc)

theorem ofDigits_of_odd (h : ∀ c ∈ digits, c ∈ Hex.characters) (hodd : digits.length % 2 = 1) :
    ofDigits digits = .error .oddDigits := by
  have hnone : Hex.bytes? digits = none := by
    cases hread : Hex.bytes? digits with
    | none => rfl
    | some program =>
      have hlength := congrArg List.length (Hex.spelled_of_bytes? hread).2
      rw [Hex.length_ofBytes, List.length_map] at hlength
      omega
  rw [ofDigits, if_pos (all_isSome_value? h), hnone]

/-- Digits that are read as bytes make a program, unless there are too many. -/
theorem ofDigits_of_bytes (h : Hex.bytes? digits = some program) : ofDigits digits =
    if 7168 < digits.length then .error (.oversize ⟨.listing, digits.length / 2⟩) else .ok program := by
  obtain ⟨hall, hspelled⟩ := Hex.bytes?_eq_some_iff.mp h
  have hlength := congrArg List.length hspelled
  rw [Hex.length_ofBytes, List.length_map] at hlength
  have hmax : maxProgram = 3584 := rfl
  rw [ofDigits, if_pos (all_isSome_value? hall), h]
  by_cases hsize : 7168 < digits.length
  · have hcheck : checkSize .listing program = .error ⟨.listing, digits.length / 2⟩ := by
      rw [checkSize, if_pos (by omega)]
      congr 2
      omega
    rw [if_pos hsize]
    simp only [hcheck]
  · have hcheck : checkSize .listing program = .ok program := if_neg (by omega)
    rw [if_neg hsize]
    simp only [hcheck]

/-- What comes of a listing with the given digits; the complaints stand in the order in which they are made. -/
inductive Reading (digits : List Char) : Except Fault (List UInt8) → Prop where
  /-- One of them is no hexadecimal digit. -/
  | notHex : (∃ c ∈ digits, c ∉ Hex.characters) → Reading digits (.error .notHex)
  /-- All are, but their number is odd. -/
  | oddDigits : (∀ c ∈ digits, c ∈ Hex.characters) → digits.length % 2 = 1 → Reading digits (.error .oddDigits)
  /-- There are too many for memory. -/
  | oversize : (∀ c ∈ digits, c ∈ Hex.characters) → digits.length % 2 = 0 → 7168 < digits.length →
      Reading digits (.error (.oversize ⟨.listing, digits.length / 2⟩))
  /-- The digits, whatever their case, spell the bytes. -/
  | bytes (program : List UInt8) : (∀ c ∈ digits, c ∈ Hex.characters) → digits.length % 2 = 0 →
      digits.length ≤ 7168 → (Hex.ofBytes program).toList = digits.map Char.toLower → Reading digits (.ok program)

theorem reading_ofDigits (digits : List Char) : Reading digits (ofDigits digits) := by
  by_cases hall : ∀ c ∈ digits, c ∈ Hex.characters
  · rcases Nat.mod_two_eq_zero_or_one digits.length with heven | hodd
    · obtain ⟨program, hread⟩ := Hex.exists_bytes? hall heven
      rw [ofDigits_of_bytes hread]
      split
      case isTrue hsize => exact .oversize hall heven hsize
      case isFalse hsize => exact .bytes program hall heven (by omega) (Hex.bytes?_eq_some_iff.mp hread).2
    · rw [ofDigits_of_odd hall hodd]
      exact .oddDigits hall hodd
  · have hnot : ∃ c ∈ digits, c ∉ Hex.characters := by simpa using hall
    rw [ofDigits_of_not_hex hnot]
    exact .notHex hnot

/-- Digits come to one thing only. -/
theorem eq_of_reading {result : Except Fault (List UInt8)} (h : Reading digits result) : ofDigits digits = result := by
  cases h with
  | notHex hnot => exact ofDigits_of_not_hex hnot
  | oddDigits hall hodd => exact ofDigits_of_odd hall hodd
  | oversize hall heven hsize =>
    obtain ⟨program, hread⟩ := Hex.exists_bytes? hall heven
    rw [ofDigits_of_bytes hread, if_pos hsize]
  | bytes program hall _ hsize hspelled =>
    rw [ofDigits_of_bytes (Hex.bytes?_eq_some_iff.mpr ⟨hall, hspelled⟩), if_neg (by omega)]

/-- **A listing is read by one scan.** The characters that count are those outside of comments that are not blank; what
comes of the listing is what comes of them as digits. -/
theorem parse_by_scan (text : List Char) (result : Except Fault (List UInt8)) :
    (parse text = result ↔ Reading (significant false text) result) ∧
    Fault.notHex.message = "Hex listing contains non-hex characters" := by
  refine ⟨?_, rfl⟩
  have hparse : parse text = ofDigits (significant false text) := congrArg ofDigits (content_eq_significant text)
  rw [hparse]
  constructor
  · rintro rfl
    exact reading_ofDigits _
  · exact eq_of_reading

/-- A comment right behind a digit, a line separator in it, and the digits of a byte on two lines. -/
example : parse "4#1G\u20282 # zz\r\n f\tF".toList = .ok [0x42, 0xFF] := by
  decide

end ChipEight.HexListing
