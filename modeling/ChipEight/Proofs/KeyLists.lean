import Mathlib.Data.List.Forall2
import Mathlib.Data.List.TakeWhile
import ChipEight.Emulator.Pace
import ChipEight.Keypad
import ChipEight.Proofs.Turns

/-!
# Lists of keys

The keys that a user writes down are read item by item, and are keys that a scheduled run can use.

- `Keypad.items` are the items that count, and `readList_eq` says that a list is read item by item;
- `readItem_eq_ok_iff` and `readItems_eq_ok_iff`: which numerals an item and some items have to be;
- `items_append`: the items of two lists with a comma between them;
- `Keypad.spellings` are the ways to write a key, and `Keypad.Row` the items by which some keys can be written down;
  `read_row` reads them, by induction on the row;
- `Emulator.turn_numbers`: a turn never complains about a key, and so, by induction on the budget, `feedFrom_keys`: nor
  does a run;
- `readList_lawful`: the main statement.
-/

namespace ChipEight

namespace Text

variable {p : Char → Bool} {left bare right : List Char}

/-- What stands between characters that are dropped is left, if nothing in it is dropped. -/
theorem stripBy_append (hleft : ∀ c ∈ left, p c = true) (hbare : ∀ c ∈ bare, p c = false)
    (hright : ∀ c ∈ right, p c = true) : stripBy p (left ++ bare ++ right) = bare := by
  rw [stripBy, List.append_assoc, List.dropWhile_append_of_pos hleft]
  cases bare with
  | nil =>
    rw [List.nil_append, List.dropWhile_eq_nil_iff.mpr hright]
    rfl
  | cons c rest =>
    have hc : p c = false := hbare c List.mem_cons_self
    have hkept : (c :: rest).reverse.dropWhile p = (c :: rest).reverse :=
      List.dropWhile_eq_self_iff.mpr fun hl hp => by
        rw [hbare _ (List.mem_reverse.mp (List.getElem_mem hl))] at hp
        cases hp
    rw [List.cons_append, List.dropWhile_cons, hc, if_neg Bool.false_ne_true, ← List.cons_append,
      List.reverse_append, List.dropWhile_append_of_pos (by simpa using hright), hkept, List.reverse_reverse]

end Text

namespace Keypad

open Text

variable {key : Key} {keys : List Key} {item word : List Char} {row words : List (List Char)}

/-! ## Items -/

/-- The items between the commas of a list, without the blanks around them and without those that are blank. -/
def items (text : List Char) : List (List Char) :=
  ((pieces ',' text).map strip).filter (· ≠ [])

/-- The items of two lists with a comma between them are those of the one and then those of the other. -/
theorem items_append (a b : List Char) : items (a ++ ',' :: b) = items a ++ items b := by
  rw [items, pieces_append_cons, List.map_append, List.filter_append]
  rfl

theorem readItems_blank (h : strip item = []) (row : List (List Char)) : readItems (item :: row) = readItems row := by
  rw [readItems, h]
  rfl

theorem readItems_word (h : strip item ≠ []) (row : List (List Char)) :
    readItems (item :: row) = do
      let key ← readItem (strip item)
      let keys ← readItems row
      return key :: keys := by
  have hkept : (strip item).isEmpty = false := by simpa using h
  rw [readItems]
  simp only [hkept, if_neg Bool.false_ne_true]

/-- **A list is read item by item.** -/
theorem readList_eq (text : List Char) : readList text = (items text).mapM readItem := by
  unfold readList items
  induction pieces ',' text with
  | nil => rfl
  | cons item row ih =>
    rw [List.map_cons]
    by_cases hblank : strip item = []
    · rw [readItems_blank hblank, ih, List.filter_cons_of_neg (by simpa using hblank)]
    · rw [readItems_word hblank, ih, List.filter_cons_of_pos (by simpa using hblank), List.mapM_cons]

/-! ## Which items are keys -/

/-- An item is read as a key if it is the numeral of its number. -/
theorem readItem_eq_ok_iff : readItem item = .ok key ↔ Integer.read 16 item = .ok (key.val : Int) := by
  unfold readItem
  cases hread : Integer.read 16 item with
  | error fault => simp only [reduceCtorEq]
  | ok value =>
    cases hkey : Key.ofInt value with
    | error fault =>
      simp only [hkey, reduceCtorEq, Except.ok.injEq, false_iff]
      rintro rfl
      rw [Emulator.ofInt_val] at hkey
      cases hkey
    | ok other =>
      obtain rfl := Emulator.eq_of_ofInt hkey
      simp only [hkey, Except.ok.injEq, Int.natCast_inj, Fin.ext_iff]

/-- Items are read as keys if they are the numerals of their numbers, one by one. -/
theorem readItems_eq_ok_iff : words.mapM readItem = .ok keys ↔
    List.Forall₂ (fun word key => Integer.read 16 word = .ok (key.val : Int)) words keys := by
  simp only [← readItem_eq_ok_iff]
  induction words generalizing keys with
  | nil =>
    rw [List.forall₂_nil_left_iff, List.mapM_nil]
    exact ⟨fun h => (Except.ok.inj h).symm, fun h => congrArg Except.ok h.symm⟩
  | cons word words ih =>
    rw [List.forall₂_cons_left_iff, List.mapM_cons]
    simp only [← ih]
    constructor
    · intro h
      cases hword : readItem word with
      | error fault => rw [hword] at h; cases h
      | ok key =>
        cases hwords : words.mapM readItem with
        | error fault => rw [hword, hwords] at h; cases h
        | ok rest =>
          rw [hword, hwords] at h
          exact ⟨key, rest, rfl, rfl, (Except.ok.inj h).symm⟩
    · rintro ⟨key, rest, hword, hwords, rfl⟩
      rw [hword, hwords]
      rfl

/-! ## Writing keys down -/

/-- The ways to write a key: a digit of either case, and `0x` in front of it or not. -/
def spellings (key : Key) : List (List Char) :=
  [[], ['0', 'x'], ['0', 'X']].flatMap fun mark =>
    [mark ++ [Hex.digit key], mark ++ [(Hex.digit key).toUpper]]

theorem readItem_spelling : ∀ key : Key, ∀ word ∈ spellings key, readItem word = .ok key := by
  decide +kernel

theorem all_spellings : ∀ key : Key,
    ((spellings key).all fun word => !word.isEmpty && word.all fun c => !isBlank c && c != ',') = true := by
  decide +kernel

/-- A spelling has neither blanks nor commas in it. -/
theorem spelling_plain (h : word ∈ spellings key) : word ≠ [] ∧ ∀ c ∈ word, isBlank c = false ∧ c ≠ ',' := by
  have hword := List.all_eq_true.mp (all_spellings key) word h
  simpa only [Bool.and_eq_true, Bool.not_eq_true', List.isEmpty_eq_false_iff, List.all_eq_true, bne_iff_ne] using hword

/-- The items by which some keys can be written down: one for each key, with any blanks around it, and blank ones. -/
inductive Row : List Key → List (List Char) → Prop
  | nil : Row [] []
  | blank {item : List Char} {keys : List Key} {row : List (List Char)} : (∀ c ∈ item, isBlank c = true) →
      Row keys row → Row keys (item :: row)
  | key (left word right : List Char) {key : Key} {keys : List Key} {row : List (List Char)} :
      (∀ c ∈ left, isBlank c = true) → word ∈ spellings key → (∀ c ∈ right, isBlank c = true) → Row keys row →
      Row (key :: keys) ((left ++ word ++ right) :: row)

theorem ne_comma_of_isBlank {c : Char} (h : isBlank c = true) : c ≠ ',' := by
  rintro rfl
  exact absurd h (by decide)

/-- No item of a row has a comma in it, so the items are the pieces of the text that they make. -/
theorem Row.comma_notMem (h : Row keys row) : ∀ item ∈ row, ',' ∉ item := by
  induction h with
  | nil => exact fun _ hmem => absurd hmem List.not_mem_nil
  | blank hitem _ ih =>
    rw [List.forall_mem_cons]
    exact ⟨fun hmem => ne_comma_of_isBlank (hitem _ hmem) rfl, ih⟩
  | key left word right hleft hword hright _ ih =>
    rw [List.forall_mem_cons]
    refine ⟨fun hmem => ?_, ih⟩
    rw [List.mem_append, List.mem_append] at hmem
    obtain (hmem | hmem) | hmem := hmem
    · exact ne_comma_of_isBlank (hleft _ hmem) rfl
    · exact ((spelling_plain hword).2 _ hmem).2 rfl
    · exact ne_comma_of_isBlank (hright _ hmem) rfl

/-- **Keys that were written down are read.** -/
theorem read_row (h : Row keys row) : readItems row = .ok keys := by
  induction h with
  | nil => rfl
  | @blank item keys row hitem _ ih =>
    have hstrip : strip item = [] := by
      rw [strip, stripBy, List.dropWhile_eq_nil_iff.mpr hitem]
      rfl
    rw [readItems_blank hstrip, ih]
  | @key left word right key keys row hleft hword hright _ ih =>
    obtain ⟨hne, hplain⟩ := spelling_plain hword
    have hstrip : strip (left ++ word ++ right) = word :=
      stripBy_append hleft (fun c hc => (hplain c hc).1) hright
    rw [readItems_word (by rw [hstrip]; exact hne), hstrip, readItem_spelling key word hword, ih]
    rfl

end Keypad

/-! ## Keys that a run is given -/

namespace Emulator

variable {e : Emulator} {budget done : Nat} {keys : List Key} {fault : InvalidKey}

/-- A turn never complains about a key, and leaves keys. -/
theorem turn_numbers (e : Emulator) (keys : List Key) : e.turn (numbers keys) = .ended ∨
    (∃ events fault, e.turn (numbers keys) = .broken events (.stack fault)) ∨
    ∃ events left, e.turn (numbers keys) = .taken events (numbers left) := by
  unfold turn
  cases e.machine.awaitingKey with
  | true =>
    cases keys with
    | nil => exact .inl rfl
    | cons key left =>
      refine .inr (.inr ⟨[.press key, .step, .release key], left, ?_⟩)
      simp only [numbers, List.map_cons, ofInt_val, if_true]
  | false =>
    cases e.step.1 with
    | error fault => exact .inr (.inl ⟨[.step], fault, rfl⟩)
    | ok redraw => exact .inr (.inr ⟨[.step], keys, rfl⟩)

/-- **A scheduled run never complains about a key.** -/
theorem feedFrom_keys (done budget : Nat) (keys : List Key) (e : Emulator) (fault : InvalidKey) :
    (feedFrom done budget (numbers keys) e).1 ≠ .error (.key fault) := by
  induction budget generalizing done keys e with
  | zero => exact nofun
  | succ budget ih =>
    rw [(feed_succ e done budget (numbers keys)).1]
    obtain ht | ⟨events, cause, ht⟩ | ⟨events, left, ht⟩ := turn_numbers e keys
    · rw [ht]
      exact nofun
    · rw [ht]
      exact nofun
    · rw [ht]
      exact ih (done + 1) left (e.afterAll events)

/-- Nor does one that pauses. -/
theorem feedAt_keys (e : Emulator) (rate : Float) (budget : Int) (keys : List Key) (fault : InvalidKey)
    (after : Emulator) : e.feedAt rate budget (numbers keys) ≠ .ok (.error (.key fault), after) := by
  intro h
  unfold feedAt at h
  split at h
  case isTrue => exact feedFrom_keys 0 budget.toNat keys e fault (congrArg Prod.fst (Except.ok.inj h))
  case isFalse =>
    cases hfeed : e.feed (min budget 1) (numbers keys) with
    | mk result stopped =>
      rw [hfeed] at h
      cases result with
      | ok fed => simp only at h; split at h <;> cases h
      | error cause =>
        cases h
        exact feedFrom_keys 0 (min budget 1).toNat keys e fault (congrArg Prod.fst hfeed)

end Emulator

namespace Keypad

/-! ## The main statement -/

/-- **Lists of keys** are read item by item, and with a comma between them one list after the other. A run that is given
the keys of a list never complains about one. -/
theorem readList_lawful :
    (∀ text keys, readList text = .ok keys →
      (∀ key ∈ keys, key.val ≤ 15) ∧
      List.Forall₂ (fun item key => Integer.read 16 item = .ok (key.val : Int)) (items text) keys ∧
      ∀ (e : Emulator) rate budget fault after,
        e.feedAt rate budget (keys.map fun key => (key.val : Int)) ≠ .ok (.error (.key fault), after)) ∧
    (∀ a b, readList (a ++ ',' :: b) = do
      let left ← readList a
      let right ← readList b
      return left ++ right) ∧
    ∀ keys row, Row keys row → readList ([','].intercalate row) = .ok keys := by
  refine ⟨fun text keys h => ⟨fun key _ => Nat.le_of_lt_succ key.isLt, ?_, fun e rate budget fault after => ?_⟩,
    fun a b => ?_, fun keys row h => ?_⟩
  · rw [readList_eq] at h
    exact readItems_eq_ok_iff.mp h
  · exact Emulator.feedAt_keys e rate budget keys fault after
  · rw [readList_eq, readList_eq, readList_eq, items_append, List.mapM_append]
  · cases row with
    | nil =>
      cases h
      rfl
    | cons item row =>
      rw [readList, Text.pieces_intercalate (List.cons_ne_nil item row) h.comma_notMem, read_row h]

/-- The items ` 0xA`, a blank one and `f` are the keys ten and fifteen. -/
theorem readList_two_keys :
    Row [⟨10, by decide⟩, ⟨15, by decide⟩] [[' ', '0', 'x', 'A'], ['\t'], ['f']] ∧
    readList [' ', '0', 'x', 'A', ',', '\t', ',', 'f'] = .ok [⟨10, by decide⟩, ⟨15, by decide⟩] ∧
    List.Forall₂ (fun item key => Integer.read 16 item = .ok (key.val : Int))
      (items [' ', '0', 'x', 'A', ',', '\t', ',', 'f']) [(⟨10, by decide⟩ : Key), ⟨15, by decide⟩] := by
  have hrow : Row [⟨10, by decide⟩, ⟨15, by decide⟩] [[' ', '0', 'x', 'A'], ['\t'], ['f']] :=
    .key [' '] ['0', 'x', 'A'] [] (List.forall_mem_singleton.mpr rfl) (by decide) nofun <|
      .blank (List.forall_mem_singleton.mpr rfl) <|
        .key [] ['f'] [] nofun (by decide) nofun .nil
  have hread := readList_lawful.2.2 _ _ hrow
  exact ⟨hrow, hread, (readList_lawful.1 _ _ hread).2.1⟩

end Keypad

end ChipEight
