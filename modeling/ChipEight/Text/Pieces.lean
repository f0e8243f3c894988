/-!
# Pieces

`Text.pieces` cuts a text at every occurrence of a separator; there is one piece more than there are separators. Cutting
respects joining by a separator (`pieces_append_cons`, `pieces_intercalate_eq`), and takes apart what was joined
(`pieces_intercalate`).
-/

namespace ChipEight.Text

/-- The pieces of a text between separators, empty ones included. -/
def pieces (separator : Char) : List Char → List (List Char)
  | [] => [[]]
  | c :: rest =>
    if c = separator then [] :: pieces separator rest
    else match pieces separator rest with
      | [] => [[c]]
      | piece :: more => (c :: piece) :: more

theorem pieces_ne_nil (separator : Char) (cs : List Char) : pieces separator cs ≠ [] := by
  cases cs with
  | nil => simp [pieces]
  | cons c rest =>
    rw [pieces]
    split
    · simp
    · split <;> simp

/-- The pieces of two texts with a separator between them are the pieces of the one and then those of the other. -/
theorem pieces_append_cons (separator : Char) (a b : List Char) :
    pieces separator (a ++ separator :: b) = pieces separator a ++ pieces separator b := by
  induction a with
  | nil => simp [pieces]
  | cons c rest ih =>
    rw [List.cons_append, pieces, pieces, ih]
    by_cases h : c = separator
    · simp [h]
    · obtain ⟨piece, more, hp⟩ := List.exists_cons_of_ne_nil (pieces_ne_nil separator rest)
      simp [h, hp]

/-- A text without a separator is one piece. -/
theorem pieces_of_notMem {separator : Char} {cs : List Char} (h : separator ∉ cs) : pieces separator cs = [cs] := by
  induction cs with
  | nil => rfl
  | cons c rest ih =>
    rw [List.mem_cons, not_or] at h
    rw [pieces, if_neg (Ne.symm h.1), ih h.2]

/-- The pieces of texts that are joined by a separator are those of the one, the next and so on. -/
theorem pieces_intercalate_eq {separator : Char} {texts : List (List Char)} (hne : texts ≠ []) :
    pieces separator ([separator].intercalate texts) = texts.flatMap (pieces separator) := by
  induction texts with
  | nil => exact absurd rfl hne
  | cons text texts ih =>
    cases texts with
    | nil => rw [List.intercalate_singleton, List.flatMap_singleton]
    | cons next texts =>
      rw [List.intercalate_cons_cons, List.append_assoc, List.singleton_append, pieces_append_cons,
        ih (List.cons_ne_nil next texts)]
      rfl

/-- Words that are joined by a separator are the pieces of the text. -/
theorem pieces_intercalate {separator : Char} {words : List (List Char)} (hne : words ≠ [])
    (h : ∀ w ∈ words, separator ∉ w) : pieces separator ([separator].intercalate words) = words := by
  rw [pieces_intercalate_eq hne, List.flatMap_def, List.map_congr_left fun w hw => pieces_of_notMem (h w hw),
    ← List.flatMap_def]
  exact List.flatMap_singleton' words

/-- A character of texts that are joined by a separator is one of the separator or of a text. -/
theorem mem_intercalate {c : Char} {separator : List Char} {texts : List (List Char)}
    (h : c ∈ separator.intercalate texts) : c ∈ separator ∨ ∃ text ∈ texts, c ∈ text := by
  induction texts with
  | nil => exact absurd h List.not_mem_nil
  | cons text texts ih =>
    cases texts with
    | nil =>
      rw [List.intercalate_singleton] at h
      exact .inr ⟨text, List.mem_cons_self, h⟩
    | cons next texts =>
      rw [List.intercalate_cons_cons, List.append_assoc, List.mem_append, List.mem_append] at h
      rcases h with h | h | h
      · exact .inr ⟨text, List.mem_cons_self, h⟩
      · exact .inl h
      · rcases ih h with h | ⟨other, hother, h⟩
        · exact .inl h
        · exact .inr ⟨other, List.mem_cons_of_mem text hother, h⟩

end ChipEight.Text
