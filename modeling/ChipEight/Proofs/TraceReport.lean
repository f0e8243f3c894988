import ChipEight.Emulator.Report
import ChipEight.Numeral.Integer
import ChipEight.Proofs.Assembly
import ChipEight.Proofs.HexDigits

/-!
# Reading a trace report

What the report on a trace tells on changes is read back from its text.

- `Integer.read_literal`: a number of any size is read back from its spelling behind `0x`;
- `Report.changes?` reads the lines of changes of a text, and `Report.line?_lineOf` reads one of them back;
- `OneLine`: a text without the end of a line in it; all that a report puts into a line is such;
- `Report.Tells`: some lines tell some changes, line by line; they are read back as these (`Report.Tells.changes?_eq`);
- `TraceEntry.tells_lines` and `Emulator.tells_traceReport`: what the lines on an entry tell, and those of a report.
-/

namespace ChipEight

/-! ## Numbers -/

namespace Integer

theorem digit_ne_underscore (d : Fin 16) : Hex.digit d ≠ '_' := by
  revert d
  decide

/-- A run of digits is read to its end. -/
theorem digitRun_digits (value digits : Nat) (ds : List (Fin 16)) : digitRun 16 value digits (ds.map Hex.digit) =
    ⟨ds.foldl (fun value d => value * 16 + d.val) value, digits + ds.length, []⟩ := by
  induction ds generalizing value digits with
  | nil => rfl
  | cons d ds ih =>
    have hd : digitIn? 16 (Hex.digit d) = some d.val := by
      rw [digitIn?, digitValue?, Hex.value?_digit, Option.filter_some, if_pos (decide_eq_true d.isLt)]
    rw [List.map_cons, digitRun]
    · simp only [hd]
      rw [ih]
      simp [Nat.add_assoc, Nat.add_comm]
    · intro c rest hc
      exact absurd hc (digit_ne_underscore d)

/-- The announcement is dropped from a spelling. -/
theorem dropAnnouncement_digits (ds : List (Fin 16)) :
    dropAnnouncement 16 ('0' :: 'x' :: ds.map Hex.digit) = ds.map Hex.digit := by
  have hannounced : 16 = 16 ∧ digitValue? '0' = some 0 ∧ ('x' = 'x' ∨ 'x' = 'X') := by decide
  rw [dropAnnouncement, if_pos hannounced]
  intro behind hds
  have hmem : '_' ∈ ds.map Hex.digit := by
    rw [hds]
    exact List.mem_cons_self
  obtain ⟨d, -, hd⟩ := List.mem_map.mp hmem
  exact digit_ne_underscore d hd

/-- **A number is read back from its spelling**, whatever its size and sign. -/
theorem read_literal (width : Nat) (n : Int) : read 16 (Hex.literal width n).toList = .ok n := by
  obtain ⟨ds, hne, hliteral, hvalue⟩ := Hex.exists_literal width n
  have hrun : digitRun 16 0 0 (ds.map Hex.digit) = ⟨n.natAbs, ds.length, []⟩ := by
    rw [digitRun_digits, Nat.zero_add, ← hvalue]
    rfl
  have hlength : ds.length ≠ 0 := mt List.length_eq_zero_iff.mp hne
  have hsplit : sign ((Hex.literal width n).toList.dropWhile isPadding) =
      (decide (n < 0), '0' :: 'x' :: ds.map Hex.digit) := by
    have hpadding : isPadding '-' = false ∧ isPadding '0' = false := by decide
    rw [hliteral, Hex.sign]
    split
    case isTrue hneg => simp [hpadding, sign, hneg]
    case isFalse hpos => simp [hpadding, sign, hpos]
  have hbroken : Run.broken ⟨n.natAbs, ds.length, []⟩ = false := rfl
  unfold read
  rw [hsplit]
  simp only [dropAnnouncement_digits, hrun, hlength, hbroken]
  rw [if_neg (by simp), if_neg fun h => absurd h.1 (by decide), if_pos List.all_nil, Except.ok.injEq]
  split
  case isTrue hneg =>
    have hneg : n < 0 := of_decide_eq_true hneg
    omega
  case isFalse hpos =>
    have hpos : ¬ n < 0 := of_decide_eq_false (Bool.eq_false_iff.mpr hpos)
    omega

end Integer

/-! ## Lines of changes -/

namespace Report

/-- What a line of changes begins with. -/
def mark : List Char :=
  "  Changes: ".toList

/-- Whether a line is one of changes. -/
def marked (line : List Char) : Bool :=
  mark.isPrefixOf line

/-- Reads changes from words, four for each: the place with a colon, the old value, an arrow and the new value. -/
def changesOf? : List (List Char) → Option (List Change)
  | [] => some []
  | name :: old :: ['-', '>'] :: new :: rest => do
    let place ← Place.all.find? fun place => place.name.toList ++ [':'] = name
    let old ← (Integer.read 16 old).toOption
    let new ← (Integer.read 16 new).toOption
    let changes ← changesOf? rest
    return ⟨place, old, new⟩ :: changes
  | _ => none

/-- Reads a line of changes; its words are separated by blanks, and commas say nothing. -/
def line? (line : List Char) : Option (List Change) :=
  changesOf? (Text.pieces ' ' ((line.drop mark.length).filter (· != ',')))

/-- Reads all lines of changes of a text, if they can all be read. -/
def changes? (text : String) : Option (List (List Change)) :=
  ((Text.pieces '\n' text.toList).filter marked).mapM line?

/-! ### Words -/

/-- The words that tell a change. -/
def words (c : Change) : List (List Char) :=
  [c.place.name.toList ++ [':'], (Hex.literal c.place.digits c.old).toList, ['-', '>'],
    (Hex.literal c.place.digits c.new).toList]

theorem find?_name (place : Place) :
    Place.all.find? (fun other => other.name.toList ++ [':'] = place.name.toList ++ [':']) = some place := by
  cases place with
  | index => decide
  | register r =>
    revert r
    decide

/-- **Changes are read back from their words.** -/
theorem changesOf?_words (cs : List Change) : changesOf? (cs.flatMap words) = some cs := by
  induction cs with
  | nil => rfl
  | cons c cs ih =>
    rw [List.flatMap_cons, words]
    simp only [List.cons_append, List.nil_append, changesOf?, find?_name, Integer.read_literal, ih]
    rfl

/-- The text of a change is made of its words. -/
theorem toList_text (c : Change) : c.text.toList = [' '].intercalate (words c) := by
  simp [Change.text, words, List.intercalate]

theorem notMem_words (c : Change) : ∀ word ∈ words c, ' ' ∉ word ∧ ',' ∉ word := by
  have hname : ' ' ∉ c.place.name.toList ++ [':'] ∧ ',' ∉ c.place.name.toList ++ [':'] := by
    cases c.place with
    | index => decide
    | register r =>
      revert r
      decide
  have hliteral (width : Nat) (n : Int) : ' ' ∉ (Hex.literal width n).toList ∧ ',' ∉ (Hex.literal width n).toList :=
    ⟨fun h => absurd (Hex.mem_marks_of_mem_literal h) (by decide),
      fun h => absurd (Hex.mem_marks_of_mem_literal h) (by decide)⟩
  simp [words, hname, hliteral]

theorem pieces_text (c : Change) : Text.pieces ' ' c.text.toList = words c := by
  rw [toList_text]
  exact Text.pieces_intercalate (List.cons_ne_nil _ _) fun word hword => (notMem_words c word hword).1

theorem comma_notMem_text (c : Change) : ',' ∉ c.text.toList := by
  intro h
  rw [toList_text] at h
  rcases Text.mem_intercalate h with h | ⟨word, hword, h⟩
  · exact absurd h (by decide)
  · exact (notMem_words c word hword).2 h

/-- **The words of a line of changes.** -/
theorem pieces_intercalate_text {cs : List Change} (hne : cs ≠ []) :
    Text.pieces ' ' ((", ".intercalate (cs.map Change.text)).toList.filter (· != ',')) = cs.flatMap words := by
  have hcommas : ∀ text ∈ (cs.map Change.text).map String.toList, ',' ∉ text := by
    intro text htext
    rw [List.map_map] at htext
    obtain ⟨c, -, rfl⟩ := List.mem_map.mp htext
    exact comma_notMem_text c
  have hwords : (cs.map Change.text).map String.toList ≠ [] := by simpa using hne
  rw [String.toList_intercalate]
  show Text.pieces ' ' (([',', ' '].intercalate ((cs.map Change.text).map String.toList)).filter (· != ',')) = _
  rw [Assembly.filter_intercalate hcommas, Text.pieces_intercalate_eq hwords, List.map_map, List.flatMap_map]
  simp only [Function.comp_apply, pieces_text]

/-- A line of changes. -/
def lineOf (cs : List Change) : String :=
  "  Changes: " ++ ", ".intercalate (cs.map Change.text)

theorem marked_lineOf (cs : List Change) : marked (lineOf cs).toList = true := by
  rw [marked, List.isPrefixOf_iff_prefix, lineOf, String.toList_append]
  exact List.prefix_append _ _

/-- **A line of changes is read back.** -/
theorem line?_lineOf {cs : List Change} (hne : cs ≠ []) : line? (lineOf cs).toList = some cs := by
  have hdrop : (lineOf cs).toList.drop mark.length = (", ".intercalate (cs.map Change.text)).toList := by
    rw [lineOf, String.toList_append]
    exact List.drop_left
  rw [line?, hdrop, pieces_intercalate_text hne, changesOf?_words]

end Report

/-! ## Lines of a report -/

/-- A text without the end of a line in it. -/
def OneLine (text : String) : Prop :=
  '\n' ∉ text.toList
  deriving Decidable

@[simp] theorem oneLine_append {a b : String} : OneLine (a ++ b) ↔ OneLine a ∧ OneLine b := by
  simp [OneLine]

theorem oneLine_intercalate {separator : String} {texts : List String} (hs : OneLine separator)
    (h : ∀ text ∈ texts, OneLine text) : OneLine (separator.intercalate texts) := by
  intro hmem
  rw [String.toList_intercalate] at hmem
  rcases Text.mem_intercalate hmem with hmem | ⟨_, hin, hmem⟩
  · exact hs hmem
  · obtain ⟨text, htext, rfl⟩ := List.mem_map.mp hin
    exact h text htext hmem

@[simp] theorem oneLine_nat (n : Nat) : OneLine n.repr := by
  intro h
  rw [Nat.toList_repr] at h
  exact absurd (Nat.isDigit_of_mem_toDigits (by decide) (by decide) h) (by decide)

@[simp] theorem oneLine_int (n : Int) : OneLine n.repr := by
  rw [Int.repr_eq_if]
  split
  · exact oneLine_nat n.toNat
  · exact oneLine_append.mpr ⟨by decide, oneLine_nat (-n).toNat⟩

@[simp] theorem oneLine_literal (width : Nat) (n : Int) : OneLine (Hex.literal width n) :=
  fun h => absurd (Hex.mem_marks_of_mem_literal h) (by decide)

@[simp] theorem oneLine_bare (width : Nat) (n : Int) : OneLine (Hex.bare width n) :=
  fun h => absurd (Hex.mem_marks_of_mem_bare h) (by decide)

@[simp] theorem oneLine_name (r : Register) : OneLine r.name :=
  oneLine_append.mpr ⟨by decide, oneLine_bare 1 r.val⟩

theorem oneLine_assembly (ins : Instruction) : OneLine ins.assembly := by
  rcases ins with ⟨op, word⟩
  cases op <;> simp +decide [Instruction.assembly, Instruction.line]

theorem oneLine_machine (m : Machine) : OneLine m.text := by
  have hregisters : OneLine (" ".intercalate
      (m.registers.named.map fun named => named.1 ++ "=" ++ Hex.bare 2 named.2)) := by
    apply oneLine_intercalate (by decide)
    intro text htext
    obtain ⟨_, hnamed, rfl⟩ := List.mem_map.mp htext
    obtain ⟨r, -, rfl⟩ := List.mem_map.mp hnamed
    simp +decide
  simp +decide [Machine.text, toString, hregisters]

theorem oneLine_change (c : Change) : OneLine c.text := by
  have hname : OneLine c.place.name := by
    cases c.place with
    | index => decide
    | register r => exact oneLine_name r
  simp +decide [Change.text, hname]

theorem oneLine_badWord (bad : BadWord) : OneLine bad.message := by
  unfold BadWord.message
  simp only [oneLine_append, oneLine_literal, and_true]
  simp [OneLine]

theorem oneLine_stackFault (fault : StackFault) : OneLine fault.message := by
  unfold StackFault.message
  split <;> simp only [oneLine_append, oneLine_literal, and_true] <;> simp [OneLine]

/-! ## What lines tell -/

namespace Report

theorem oneLine_lineOf (cs : List Change) : OneLine (lineOf cs) := by
  refine oneLine_append.mpr ⟨by decide, oneLine_intercalate (by decide) ?_⟩
  intro text htext
  obtain ⟨c, -, rfl⟩ := List.mem_map.mp htext
  exact oneLine_change c

/-- A line that begins with something other than the mark is no line of changes. -/
theorem marked_eq_false {beginning line : List Char} (h : beginning <+: line) (hshort : ¬ beginning <+: mark)
    (hlong : ¬ mark <+: beginning) : marked line = false := by
  rw [Bool.eq_false_iff, ne_eq, marked, List.isPrefixOf_iff_prefix]
  intro hmark
  rcases List.prefix_or_prefix_of_prefix hmark h with h | h
  · exact hlong h
  · exact hshort h

/-- The last line of a report. -/
theorem silent_machine (m : Machine) : OneLine ("  " ++ m.text) ∧ marked ("  " ++ m.text).toList = false := by
  have hbegin : "  [Cycle ".toList <+: ("  " ++ m.text).toList := by
    simp [Machine.text, toString]
  exact ⟨oneLine_append.mpr ⟨by decide, oneLine_machine m⟩, marked_eq_false hbegin (by decide) (by decide)⟩

/-- The first line of a text is the first one that it was made of. -/
theorem pieces_textOfLines_cons {line : String} (h : OneLine line) (lines : List String) :
    Text.pieces '\n' (textOfLines (line :: lines)).toList =
      line.toList :: Text.pieces '\n' (textOfLines lines).toList := by
  have hsplit : (textOfLines (line :: lines)).toList = line.toList ++ '\n' :: (textOfLines lines).toList := by
    simp [textOfLines]
  rw [hsplit, Text.pieces_append_cons, Text.pieces_of_notMem h]
  rfl

/-- Some lines tell some changes: there is a line for each of the lists of changes, and other lines in between. -/
inductive Tells : List String → List (List Change) → Prop
  | nil : Tells [] []
  | silent {line : String} {lines : List String} {told : List (List Change)} :
      OneLine line → marked line.toList = false → Tells lines told → Tells (line :: lines) told
  | changes {cs : List Change} {lines : List String} {told : List (List Change)} :
      cs ≠ [] → Tells lines told → Tells (lineOf cs :: lines) (cs :: told)

namespace Tells

variable {lines lines' : List String} {told told' : List (List Change)}

theorem append (h : Tells lines told) (h' : Tells lines' told') : Tells (lines ++ lines') (told ++ told') := by
  induction h with
  | nil => exact h'
  | silent hline hmarked _ ih => exact .silent hline hmarked ih
  | changes hne _ ih => exact .changes hne ih

theorem of_silent (h : ∀ line ∈ lines, OneLine line ∧ marked line.toList = false) : Tells lines [] := by
  induction lines with
  | nil => exact .nil
  | cons line lines ih =>
    obtain ⟨⟨hline, hmarked⟩, hrest⟩ := List.forall_mem_cons.mp h
    exact .silent hline hmarked (ih hrest)

/-- **What lines tell is read back from their text.** -/
theorem changes?_eq (h : Tells lines told) : changes? (textOfLines lines) = some told := by
  induction h with
  | nil => rfl
  | silent hline hmarked _ ih =>
    rw [changes?, pieces_textOfLines_cons hline, List.filter_cons_of_neg (by rw [hmarked]; decide)]
    exact ih
  | @changes cs lines told hne _ ih =>
    rw [changes?, pieces_textOfLines_cons (oneLine_lineOf cs), List.filter_cons_of_pos (marked_lineOf cs),
      List.mapM_cons, line?_lineOf hne, ← changes?, ih]
    rfl

end Tells

end Report

namespace TraceEntry

variable {entry : TraceEntry}

/-- The complaint of an entry, if it has one, fits in a line. -/
def Plain (entry : TraceEntry) : Prop :=
  ∀ complaint, entry.complaint? = some complaint → OneLine complaint

/-- How the line on the instruction of an entry ends. -/
def status (entry : TraceEntry) : String :=
  match entry.complaint? with
  | some complaint => "ERROR: " ++ complaint
  | none => "OK"

/-- What the line on the instruction of an entry says behind its beginning. -/
def account (entry : TraceEntry) : String :=
  entry.cycle.repr ++ "] " ++ entry.heading ++ "  " ++ entry.status

theorem lines_eq (entry : TraceEntry) : entry.lines =
    ["", "[Cycle " ++ entry.account] ++ if entry.changes = [] then [] else [Report.lineOf entry.changes] := by
  simp only [lines, account, toString, String.append_assoc, Report.lineOf, List.isEmpty_iff]
  rfl

theorem oneLine_account (h : entry.Plain) : OneLine entry.account := by
  have hheading : OneLine entry.heading := by
    simp +decide [heading, oneLine_assembly]
  have hstatus : OneLine entry.status := by
    unfold status
    split
    case h_1 complaint hcomplaint => exact oneLine_append.mpr ⟨by decide, h complaint hcomplaint⟩
    case h_2 => decide
  simp +decide [account, hheading, hstatus]

/-- **What the lines on an entry tell**: its changes, if there are any. -/
theorem tells_lines (h : entry.Plain) :
    Report.Tells entry.lines (if entry.changes = [] then [] else [entry.changes]) := by
  have hmarked : Report.marked ("[Cycle " ++ entry.account).toList = false := by
    rw [String.toList_append]
    exact Report.marked_eq_false (List.prefix_append _ _) (by decide) (by decide)
  have hfirst : OneLine ("[Cycle " ++ entry.account) := oneLine_append.mpr ⟨by decide, oneLine_account h⟩
  rw [lines_eq]
  refine .silent (by decide) (by decide) (.silent hfirst hmarked ?_)
  split
  case isTrue => exact .nil
  case isFalse hne => exact .changes hne .nil

/-- What the lines on some entries tell. -/
theorem tells_flatMap_lines {entries : List TraceEntry} (h : ∀ entry ∈ entries, entry.Plain) :
    Report.Tells (entries.flatMap lines) ((entries.map changes).filter (· ≠ [])) := by
  induction entries with
  | nil => exact .nil
  | cons entry entries ih =>
    obtain ⟨hfirst, hrest⟩ := List.forall_mem_cons.mp h
    have htold := (tells_lines hfirst).append (ih hrest)
    rw [List.flatMap_cons, List.map_cons]
    by_cases hempty : entry.changes = []
    · rw [if_pos hempty] at htold
      rwa [List.filter_cons_of_neg (by simpa using hempty)]
    · rw [if_neg hempty] at htold
      rwa [List.filter_cons_of_pos (by simpa using hempty)]

end TraceEntry

namespace Emulator

/-- **What the report on a trace tells**: the changes of each entry that has any, in order. -/
theorem tells_traceReport {e : Emulator} (h : ∀ entry ∈ e.trace.toList, entry.Plain) :
    ∃ lines, e.traceReport = textOfLines lines ∧
      Report.Tells lines ((e.trace.toList.map TraceEntry.changes).filter (· ≠ [])) := by
  let bar := rule '=' 70
  have habove : ∀ line ∈ [bar, "CHIP-8 EXECUTION TRACE", bar], OneLine line ∧ Report.marked line.toList = false := by
    decide
  have hbelow : ∀ line ∈ ["", bar, "FINAL STATE", bar], OneLine line ∧ Report.marked line.toList = false := by
    decide
  obtain ⟨hline, hmarked⟩ := Report.silent_machine e.machine
  have htold := ((Report.Tells.of_silent habove).append (TraceEntry.tells_flatMap_lines h)).append
    ((Report.Tells.of_silent hbelow).append (.silent hline hmarked .nil))
  simp only [List.nil_append, List.append_nil] at htold
  exact ⟨_, rfl, htold⟩

end Emulator

end ChipEight
