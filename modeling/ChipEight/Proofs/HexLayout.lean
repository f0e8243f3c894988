import ChipEight.Proofs.HexGrammar

/-!
# Layouts of hexadecimal listings

A program can be written out in many ways: its digits in either case, with blanks and comments anywhere. All of them are
read as the program, and no other text is.

- `Layout` are the texts that show some digits;
- `significant_layout`: the scan finds the digits of a layout, by induction on the layout, and
  `layout_of_characters`: a text in which it finds nothing but digits is a layout of them, by induction on the scan;
- `parse_eq_ok_iff`: a text is read as a program if the scan finds digits that are read as its bytes;
- `significant_append` and `bytes?_append`: what two texts on lines of their own say, and what it is read as;
- `parse_layouts`: the main statement.
-/

namespace ChipEight

namespace Hex

variable {digits digits' : List Char} {bytes bytes' : List UInt8}

theorem toList_ofBytes_append (bytes bytes' : List UInt8) :
    (ofBytes (bytes ++ bytes')).toList = (ofBytes bytes).toList ++ (ofBytes bytes').toList := by
  simp only [ofBytes, String.toList_ofList, List.flatMap_append]

/-- Digits behind digits are read as bytes behind bytes. -/
theorem bytes?_append (h : bytes? digits = some bytes) (h' : bytes? digits' = some bytes') :
    bytes? (digits ++ digits') = some (bytes ++ bytes') := by
  obtain ⟨hall, hspelled⟩ := spelled_of_bytes? h
  obtain ⟨hall', hspelled'⟩ := spelled_of_bytes? h'
  refine bytes?_eq_some_iff.mpr ⟨List.forall_mem_append.mpr ⟨hall, hall'⟩, ?_⟩
  rw [toList_ofBytes_append, hspelled, hspelled', List.map_append]

/-- A program has half as many bytes as it has digits. -/
theorem length_of_bytes? (h : bytes? digits = some bytes) : digits.length = 2 * bytes.length := by
  have hlength := congrArg List.length (spelled_of_bytes? h).2
  rw [length_ofBytes, List.length_map] at hlength
  exact hlength.symm

end Hex

namespace HexListing

open Text

variable {text digits body first second : List Char} {program program' : List UInt8} {boundary : Char}

/-! ## Layouts -/

/-- **The texts that show some digits**, which are given in lower case: each digit in either case, blanks anywhere, and
comments anywhere that go on to the end of their line or to the end of the text. -/
inductive Layout : List Char → List Char → Prop
  | nil : Layout [] []
  | digit {c : Char} {digits text : List Char} (d : Fin 16) : c = Hex.digit d ∨ c = (Hex.digit d).toUpper →
      Layout digits text → Layout (Hex.digit d :: digits) (c :: text)
  | blank {c : Char} {digits text : List Char} : isBlank c = true → Layout digits text → Layout digits (c :: text)
  | comment {body digits text : List Char} {boundary : Char} : (∀ c ∈ body, isLineBoundary c = false) →
      isLineBoundary boundary = true → Layout digits text → Layout digits ('#' :: (body ++ boundary :: text))
  | lastComment {body : List Char} : (∀ c ∈ body, isLineBoundary c = false) → Layout [] ('#' :: body)

/-- **The scan finds the digits of a layout**, each in the case in which it stands there. -/
theorem significant_layout (h : Layout digits text) :
    (∀ c ∈ significant false text, c ∈ Hex.characters) ∧ (significant false text).map Char.toLower = digits := by
  induction h with
  | nil => exact ⟨nofun, rfl⟩
  | @digit c digits text d hc _ ih =>
    have hvalue : Hex.value? c = some d := Hex.value?_eq_some_iff.mpr hc
    have hmem : c ∈ Hex.characters := Hex.isSome_value?_iff.mp (by rw [hvalue]; rfl)
    rw [significant_digit hmem, List.map_cons, Hex.toLower_of_value? hvalue, ih.2]
    exact ⟨List.forall_mem_cons.mpr ⟨hmem, ih.1⟩, rfl⟩
  | blank hblank _ ih => rwa [significant_blank hblank]
  | comment hbody hboundary _ ih => rwa [significant_hash hbody, significant_boundary hboundary]
  | @lastComment body hbody =>
    have hscan := significant_hash hbody []
    rw [List.append_nil] at hscan
    rw [hscan]
    exact ⟨nofun, rfl⟩

/-- A comment may have one more character in front. -/
theorem Layout.comment_cons {c : Char} (hc : isLineBoundary c = false) (h : Layout digits ('#' :: text)) :
    Layout digits ('#' :: c :: text) := by
  cases h with
  | @digit _ _ _ d hd _ =>
    have hhash : Hex.value? '#' = some d := Hex.value?_eq_some_iff.mpr hd
    cases hhash
  | blank hblank _ => cases hblank
  | comment hbody hboundary hrest =>
    rw [← List.cons_append]
    exact .comment (List.forall_mem_cons.mpr ⟨hc, hbody⟩) hboundary hrest
  | lastComment hbody => exact .lastComment (List.forall_mem_cons.mpr ⟨hc, hbody⟩)

/-- **A text in which the scan finds nothing but digits is a layout of them.** What the scan finds in a comment is what
it finds in the text that begins with the sign of this comment. -/
theorem layout_of_characters (inComment : Bool) (text : List Char)
    (h : ∀ c ∈ significant inComment text, c ∈ Hex.characters) :
    Layout ((significant inComment text).map Char.toLower) (if inComment then '#' :: text else text) := by
  fun_induction significant inComment text with
  | case1 inComment =>
    cases inComment with
    | false => exact .nil
    | true => exact .lastComment nofun
  | case2 inComment c rest hc ih =>
    cases inComment with
    | false => exact .blank (isBlank_of_isLineBoundary hc) (ih h)
    | true =>
      have hempty : ∀ c ∈ ([] : List Char), isLineBoundary c = false := nofun
      exact .comment hempty hc (ih h)
  | case3 inComment c rest hc hcomment ih =>
    have hc : isLineBoundary c = false := Bool.eq_false_iff.mpr hc
    cases inComment with
    | false =>
      obtain rfl : c = '#' := by simpa using hcomment
      exact ih h
    | true => exact (ih h).comment_cons hc
  | case4 inComment c rest _ hcomment hblank ih =>
    obtain rfl : inComment = false := by
      cases inComment with
      | false => rfl
      | true => exact absurd rfl hcomment
    exact .blank hblank (ih h)
  | case5 inComment c rest _ hcomment _ ih =>
    obtain rfl : inComment = false := by
      cases inComment with
      | false => rfl
      | true => exact absurd rfl hcomment
    obtain ⟨hmem, hrest⟩ := List.forall_mem_cons.mp h
    obtain ⟨d, hd⟩ := Option.isSome_iff_exists.mp (Hex.isSome_value?_iff.mpr hmem)
    rw [List.map_cons, Hex.toLower_of_value? hd]
    exact .digit d (Hex.value?_eq_some_iff.mp hd) (ih hrest)

/-! ## Reading -/

/-- A text is read as a program if the scan finds digits that are read as its bytes, unless these are too many. -/
theorem parse_eq_ok_iff : parse text = .ok program ↔
    Hex.bytes? (significant false text) = some program ∧ program.length ≤ maxProgram := by
  have hmax : maxProgram = 3584 := rfl
  rw [parse, content_eq_significant]
  constructor
  · intro h
    have hreading := reading_ofDigits (significant false text)
    rw [h] at hreading
    cases hreading with
    | bytes _ hall _ hsize hspelled =>
      have hread := Hex.bytes?_eq_some_iff.mpr ⟨hall, hspelled⟩
      have hlength := Hex.length_of_bytes? hread
      exact ⟨hread, by omega⟩
  · rintro ⟨hread, hsize⟩
    have hlength := Hex.length_of_bytes? hread
    rw [ofDigits_of_bytes hread, if_neg (by omega)]

/-- **The texts that are read as a program are the layouts of its digits**, if it fits. -/
theorem parse_eq_ok_iff_layout : parse text = .ok program ↔
    program.length ≤ maxProgram ∧ Layout (Hex.ofBytes program).toList text := by
  rw [parse_eq_ok_iff, Hex.bytes?_eq_some_iff]
  constructor
  · rintro ⟨⟨hall, hspelled⟩, hsize⟩
    refine ⟨hsize, ?_⟩
    rw [hspelled]
    exact layout_of_characters false text hall
  · rintro ⟨hsize, hlayout⟩
    obtain ⟨hall, hspelled⟩ := significant_layout hlayout
    exact ⟨⟨hall, hspelled.symm⟩, hsize⟩

/-! ## Texts on lines of their own -/

/-- The scan of a text goes on outside of comments behind the end of a line. -/
theorem significant_append (h : isLineBoundary boundary = true) (inComment : Bool) (first second : List Char) :
    significant inComment (first ++ boundary :: second) = significant inComment first ++ significant false second := by
  fun_induction significant inComment first with
  | case1 inComment => exact significant_boundary h inComment second
  | case2 inComment c rest hc ih => rw [List.cons_append, significant_boundary hc, ih]
  | case3 inComment c rest hc hcomment ih => rw [List.cons_append, significant, if_neg hc, if_pos hcomment, ih]
  | case4 inComment c rest hc hcomment hblank ih =>
    rw [List.cons_append, significant, if_neg hc, if_neg hcomment, if_pos hblank, ih]
  | case5 inComment c rest hc hcomment hblank ih =>
    rw [List.cons_append, significant, if_neg hc, if_neg hcomment, if_neg hblank, ih, List.cons_append]

/-- Two texts on lines of their own are read as the one program and then the other, unless both do not fit together. -/
theorem parse_append (h : isLineBoundary boundary = true) (hfirst : parse first = .ok program)
    (hsecond : parse second = .ok program') : parse (first ++ boundary :: second) =
      if program.length + program'.length ≤ maxProgram then .ok (program ++ program')
      else .error (.oversize ⟨.listing, program.length + program'.length⟩) := by
  have hmax : maxProgram = 3584 := rfl
  have hread := Hex.bytes?_append (parse_eq_ok_iff.mp hfirst).1 (parse_eq_ok_iff.mp hsecond).1
  have hlength : (significant false first ++ significant false second).length =
      2 * (program.length + program'.length) := by
    rw [← List.length_append]
    exact Hex.length_of_bytes? hread
  rw [parse, content_eq_significant, significant_append h, ofDigits_of_bytes hread]
  by_cases hsize : program.length + program'.length ≤ maxProgram
  · rw [if_pos hsize, if_neg (by omega)]
  · rw [if_neg hsize, if_pos (by omega)]
    congr 3
    omega

/-- **Listings may be laid out in any way.** A text is read as a program just if it is a layout of its digits and the
program fits, and texts with the end of a line between them are read one after the other. -/
theorem parse_layouts :
    (∀ (program : List UInt8) (text : List Char),
      parse text = .ok program ↔ program.length ≤ 3584 ∧ Layout (Hex.ofBytes program).toList text) ∧
    ∀ (first second : List Char) (program program' : List UInt8) (boundary : Char),
      parse first = .ok program → parse second = .ok program' → isLineBoundary boundary = true →
      parse (first ++ boundary :: second) =
        if program.length + program'.length ≤ 3584 then .ok (program ++ program')
        else .error (.oversize ⟨.listing, program.length + program'.length⟩) :=
  ⟨fun _ _ => parse_eq_ok_iff_layout, fun _ _ _ _ _ hfirst hsecond h => parse_append h hfirst hsecond⟩

/-- A byte with a tabulation in it and a comment of digits behind it, and on the next line a byte in both cases. -/
theorem parse_layouts_two_lines : Layout "41ff".toList "4\t1# 42\nfF".toList ∧
    parse "4\t1# 42\nfF".toList = .ok [0x41, 0xFF] := by
  obtain ⟨hlayouts, hlines⟩ := parse_layouts
  have hfirst : parse "4\t1# 42".toList = .ok [0x41] := by decide
  have hsecond : parse "fF".toList = .ok [0xFF] := by decide
  have hboth : parse "4\t1# 42\nfF".toList = .ok [0x41, 0xFF] :=
    (hlines _ _ _ _ '\n' hfirst hsecond rfl).trans (if_pos (by decide))
  have hlayout := ((hlayouts _ _).mp hboth).2
  rw [Hex.ofBytes, String.toList_ofList] at hlayout
  exact ⟨hlayout, hboth⟩

end HexListing

end ChipEight
