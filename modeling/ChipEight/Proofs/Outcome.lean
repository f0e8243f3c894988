import ChipEight.CommandLine.Run
import ChipEight.Proofs.KeyFeed
import ChipEight.Proofs.StackFaults

/-!
# What comes of a command line

A plan is carried out in one of four ways: its program cannot be read, is listed, cannot be started, or runs.

- `Plan.ending` tells in which way, and `Ending.stdout` what is printed then; together they are the transcript of the
  plan (`transcript_eq`);
- `Settings.uses` lists the settings that a run uses, in the order of their first uses, and `Settings.firstLacking?` is
  the first of them that has no value;
- `Plan.Ends` lists the endings with their causes, for a run without pauses, and `ending_cases` says that there are no
  others, unless a setting is lacking or the screen is too large;
- `run_error_iff`: a run breaks off at the first setting that is lacking, and by nothing else;
- `run_outcome`: the main statement.
-/

namespace ChipEight

variable {platform : Platform}

/-! ## Runs that fault -/

namespace Emulator

variable {e : Emulator}

/-- No key is held down at the start. -/
theorem ready_start {program : List UInt8} {width height : Int} {random : RandomSource} {tracing : Bool}
    (h : Emulator.start platform program width height random tracing = .ok e) : e.Ready := by
  obtain ⟨_, _, rfl⟩ := start_eq h
  exact ⟨Machine.heldKeys_boot .., rfl⟩

/-- A start with a program that fits fails for a screen without any cells or with too many, and for nothing else. -/
theorem start_cases (platform : Platform) {program : List UInt8} (hp : program.length ≤ maxProgram) (width height : Int)
    (random : RandomSource) (tracing : Bool) :
    ((width ≤ 0 ∨ height ≤ 0) ∧
        Emulator.start platform program width height random tracing = .error (.badScreen width height)) ∨
      (0 < width ∧ 0 < height ∧ ¬ platform.Holds (width.toNat * height.toNat) ∧
        ∃ fault, Emulator.start platform program width height random tracing = .error (.tooManyCells fault)) ∨
      0 < width ∧ 0 < height ∧ ∃ e, Emulator.start platform program width height random tracing = .ok e := by
  by_cases hcells : 0 < width ∧ 0 < height
  · obtain ⟨hw, hh⟩ := hcells
    by_cases hfits : platform.Holds (width.toNat * height.toNat)
    · exact .inr (.inr ⟨hw, hh, exists_start platform program width height random tracing hp hw hh hfits⟩)
    · cases hchecked : checkCells platform (width.toNat * height.toNat) with
      | ok cells => exact absurd (checkCells_eq_ok_iff.mp hchecked).1 hfits
      | error fault => exact .inr (.inl ⟨hw, hh, hfits, fault, start_of_tooManyCells hp hw hh hchecked random tracing⟩)
  · have hnone : width ≤ 0 ∨ height ≤ 0 := by omega
    exact .inl ⟨hnone, start_of_noCells hp hnone random tracing⟩

/-- A program that fits is not refused for its size. -/
theorem start_ne_oversize {program : List UInt8} (hp : program.length ≤ maxProgram) (width height : Int)
    (random : RandomSource) (tracing : Bool) (oversize : Oversize) :
    Emulator.start platform program width height random tracing ≠ .error (.oversize oversize) := by
  rcases start_cases platform hp width height random tracing with ⟨-, h⟩ | ⟨-, -, -, fault, h⟩ | ⟨-, -, e, h⟩
  all_goals rw [h]; simp

/-- **A scheduled run that faults** does so in its last step, and by a fault of the stack. -/
theorem feed_fault (h : e.Ready) {budget : Int} {keys : List Key} {fault : FeedFault}
    (hfault : (e.feed budget (numbers keys)).1 = .error fault) :
    ∃ cause earlier, fault = .stack cause ∧ e.eventsOf (.feed budget (numbers keys)) = earlier ++ [.step] ∧
      (∀ answer ∈ e.answers earlier, ∃ redraw, answer = .ok redraw) ∧ (e.afterAll earlier).step.1 = .error cause ∧
      (e.feed budget (numbers keys)).2 = (e.afterAll earlier).step.2 := by
  obtain ⟨result, hf, hanswer⟩ := feeding h 0 budget.toNat keys
  rw [feed, hanswer] at hfault
  cases result with
  | ok left => cases hfault
  | error cause =>
    obtain ⟨earlier, hevents, hanswers, hlast, hafter⟩ := hf.last_fault
    exact ⟨cause, earlier, (Except.error.inj hfault).symm, hevents, hanswers, hlast, hafter⟩

/-- No fault of a scheduled run passes a handler for the faults of the machine. -/
theorem handling_feed (h : e.Ready) (budget : Int) (keys : List Key) :
    handling [.chip8Error] FeedFault.errorClass (e.feed budget (numbers keys)).1 =
      .ok (e.feed budget (numbers keys)).1 := by
  refine handling_of_all fun fault hfault => ?_
  obtain ⟨cause, -, rfl, -⟩ := feed_fault h hfault
  cases cause <;> rfl

end Emulator

namespace CommandLine

/-! ## Endings -/

/-- How the carrying out of a plan ends. -/
inductive Ending where
  /-- The program cannot be read. -/
  | unread (fault : InputFault)
  /-- The program is listed. -/
  | listed (program : List UInt8) (notes : List Note)
  /-- No emulator can be started. -/
  | unstarted (program : List UInt8) (notes : List Note) (complaint : String)
  /-- An emulator ran. -/
  | ran (program : List UInt8) (notes : List Note) (result : Except FeedFault Fed) (after : Emulator)

namespace Ending

def exit : Ending → UInt32
  | unread _ | unstarted .. | ran _ _ (.error _) _ => 1
  | listed .. | ran _ _ (.ok _) _ => 0

theorem exit_eq (ending : Ending) : ending.exit = 0 ∨ ending.exit = 1 := by
  unfold exit
  split
  · exact .inr rfl
  · exact .inr rfl
  · exact .inr rfl
  · exact .inl rfl
  · exact .inl rfl

/-- The lines in front, which are left out when little output is asked for. -/
def opening (input : Input) : Ending → List String
  | unread _ => []
  | listed program _ | unstarted program .. => [input.announcement program.length]
  | ran program .. => [input.announcement program.length, rule '-' 60, "Executing...", rule '-' 60]

/-- The lines of a listing or a complaint. -/
def body : Ending → List String
  | unread fault => ["Error: " ++ fault.message]
  | listed program _ => (Listing.ofBytes program programStart).map Listing.Line.text
  | unstarted _ _ complaint => ["Error: " ++ complaint]
  | ran _ _ (.ok _) _ => []
  | ran _ _ (.error fault) _ => ["Execution error: " ++ fault.message]

/-- The report on the trace, which is left out unless it is asked for. -/
def report : Ending → String
  | ran _ _ _ after => after.traceReport
  | _ => ""

/-- The screen, if there is one. -/
def screen : Ending → List String
  | ran _ _ _ after => [after.screenText]
  | _ => []

/-- The lines at the end, which are left out when little output is asked for. -/
def closing : Ending → List String
  | ran _ _ (.ok fed) after => "" :: summaryLines after.summary (some fed.steps)
  | ran _ _ (.error _) after => "" :: summaryLines after.summary none
  | _ => []

def notes : Ending → List Note
  | unread _ => []
  | listed _ notes | unstarted _ notes _ => notes
  | ran _ notes _ after => notes ++ after.log.toList

/-- What is printed. -/
def stdout (ending : Ending) (input : Input) (trace quiet : Bool) : String :=
  textOfLines ((if quiet then [] else ending.opening input) ++ ending.body) ++
    (if trace then ending.report else "") ++ textOfLines ending.screen ++
    textOfLines (if quiet then [] else ending.closing)

end Ending

variable {p : Plan} {s : Settings} {input : Input} {files : FileSystem} {unseeded random : RandomSource}
  {program : List UInt8} {notes : List Note} {e e' : Emulator}

/-- The transcript of a plan that ends in some way. -/
def Plan.tell (p : Plan) (ending : Ending) : Transcript where
  exit := ending.exit
  stdout := ending.stdout p.input p.settings.trace p.settings.quiet
  notes := ending.notes

/-- How the plan ends once an emulator has started. -/
def Plan.course (p : Plan) (program : List UInt8) (notes : List Note) (e : Emulator) : Except Breakdown Ending := do
  let rate ← needed .rate p.settings.rate
  let budget ← needed .budget p.settings.budget
  let (result, after) ← (e.feedAt rate budget (Emulator.numbers p.keys)).mapError .endlessPause
  let result ← (handling [.chip8Error] FeedFault.errorClass result).mapError .run
  return .ran program notes result after

/-- How the plan ends. -/
def Plan.ending (platform : Platform) (p : Plan) (files : FileSystem) (unseeded : RandomSource) :
    Except Breakdown Ending :=
  match p.input.program files with
  | .error fault => .ok (.unread fault)
  | .ok (program, notes) =>
    if p.settings.disassemble then .ok (.listed program notes)
    else do
      match ← p.start platform program (← p.random unseeded) with
      | .error complaint => return .unstarted program notes complaint
      | .ok e => p.course program notes e

theorem textOfLines_append (lines lines' : List String) :
    textOfLines (lines ++ lines') = textOfLines lines ++ textOfLines lines' := by
  rw [textOfLines, List.map_append, String.join_append]
  rfl

theorem textOfLines_single (line : String) : textOfLines [line] = line ++ "\n" := by
  rw [textOfLines, List.map_singleton, String.join_cons, String.join_nil, String.append_empty]

/-- What is printed if there is no screen. -/
theorem Ending.stdout_without_screen {ending : Ending} (hreport : ending.report = "") (hscreen : ending.screen = [])
    (hclosing : ending.closing = []) (input : Input) (trace quiet : Bool) :
    ending.stdout input trace quiet = textOfLines ((if quiet then [] else ending.opening input) ++ ending.body) := by
  have hnone : textOfLines [] = "" := rfl
  rw [stdout, hreport, hscreen, hclosing, ite_self, ite_self, hnone, String.append_empty, String.append_empty,
    String.append_empty]

/-- What is printed after a fault of the stack. -/
theorem Ending.stdout_faulted (fault : StackFault) {after : Emulator} (hwait : after.machine.awaitingKey = false)
    (program : List UInt8) (notes : List Note) (input : Input) (trace quiet : Bool) :
    let m := after.machine
    (Ending.ran program notes (.error (.stack fault)) after).stdout input trace quiet =
      textOfLines (if quiet then [] else
        [input.announcement program.length, rule '-' 60, "Executing...", rule '-' 60]) ++
      ("Execution error: " ++ fault.message ++ "\n") ++ (if trace then after.traceReport else "") ++
      (after.screenText ++ "\n") ++
      textOfLines (if quiet then [] else
        ["", s!"Cycles: {m.cycles}",
          "PC: " ++ Hex.literal 5 m.pc ++ "  I: " ++ Hex.literal 5 m.index ++ s!"  SP: {m.stack.length}",
          s!"Timers: DT={m.delay} ST={m.sound}", "Registers: " ++ registersInBraces m.registers.named] ++
        after.lastErrorText.toList.map ("Last error: " ++ ·)) := by
  intro m
  have hlines : summaryLines after.summary none =
      [s!"Cycles: {m.cycles}",
        "PC: " ++ Hex.literal 5 m.pc ++ "  I: " ++ Hex.literal 5 m.index ++ s!"  SP: {m.stack.length}",
        s!"Timers: DT={m.delay} ST={m.sound}", "Registers: " ++ registersInBraces m.registers.named] ++
      after.lastErrorText.toList.map ("Last error: " ++ ·) := by
    have hwait : after.summary.awaitingKey = false := hwait
    rw [summaryLines, hwait]
    rfl
  rw [stdout, textOfLines_append]
  simp only [opening, body, report, screen, closing, FeedFault.message, textOfLines_single, hlines]
  rfl

theorem report_eq (p : Plan) (program : List UInt8) (notes : List Note) (e : Emulator) :
    p.report (p.unlessQuiet [p.input.announcement program.length]) notes e = (p.course program notes e).map p.tell := by
  unfold Plan.report Plan.course Plan.tell Ending.stdout Plan.unlessQuiet
  cases p.settings.rate with
  | none => rfl
  | some rate =>
    cases p.settings.budget with
    | none => rfl
    | some budget =>
      show ((e.feedAt rate budget (Emulator.numbers p.keys)).mapError Breakdown.endlessPause >>= _) =
        Except.map _ ((e.feedAt rate budget (Emulator.numbers p.keys)).mapError Breakdown.endlessPause >>= _)
      cases e.feedAt rate budget (Emulator.numbers p.keys) with
      | error pause => rfl
      | ok fed =>
        obtain ⟨result, after⟩ := fed
        show ((handling _ _ result).mapError Breakdown.run >>= _) =
          Except.map _ ((handling _ _ result).mapError Breakdown.run >>= _)
        cases handling [.chip8Error] FeedFault.errorClass result with
        | error fault => rfl
        | ok result =>
          cases result with
          | ok fed => cases p.settings.quiet <;> rfl
          | error fault => cases p.settings.quiet <;> rfl

/-- No fault of a program that cannot be read passes its handler. -/
theorem Input.handling_program (input : Input) (files : FileSystem) :
    handling [.osError, .valueError] InputFault.errorClass (input.program files) = .ok (input.program files) := by
  refine handling_of_all fun fault _ => ?_
  cases fault with
  | file fault => cases fault <;> rfl
  | listing fault => cases fault <;> rfl

/-- **The transcript of a plan** tells how the plan ends. -/
theorem transcript_eq (p : Plan) (files : FileSystem) (unseeded : RandomSource) :
    p.transcript platform files unseeded = (p.ending platform files unseeded).map p.tell := by
  have hshort (ending : Ending) (hreport : ending.report = "") (hscreen : ending.screen = [])
      (hclosing : ending.closing = []) :
      p.tell ending =
        ⟨ending.exit, textOfLines (p.unlessQuiet (ending.opening p.input) ++ ending.body), ending.notes⟩ :=
    congrArg (Transcript.mk ending.exit · ending.notes) (Ending.stdout_without_screen hreport hscreen hclosing ..)
  unfold Plan.transcript Plan.ending
  rw [Input.handling_program]
  cases p.input.program files with
  | error fault =>
    rw [Except.map, hshort (.unread fault) rfl rfl rfl, Plan.unlessQuiet, Ending.opening, ite_self]
    rfl
  | ok loaded =>
    obtain ⟨program, notes⟩ := loaded
    simp only [Except.mapError, bind, Except.bind]
    cases p.settings.disassemble with
    | true => exact congrArg Except.ok (hshort (.listed program notes) rfl rfl rfl).symm
    | false =>
      cases p.random unseeded with
      | error breakdown => rfl
      | ok random =>
        simp only [Bool.false_eq_true, if_false]
        cases p.start platform program random with
        | error breakdown => rfl
        | ok started =>
          cases started with
          | error complaint => exact congrArg Except.ok (hshort (.unstarted program notes complaint) rfl rfl rfl).symm
          | ok e => exact report_eq p program notes e

/-! ## Causes -/

/-- Whether the option of a setting was left without a value. -/
def Settings.Lacks (s : Settings) : Unset → Prop
  | .level => s.level = none
  | .keys => s.keys = none
  | .seed => s.seed = some none
  | .width => s.width = none
  | .height => s.height = none
  | .rate => s.rate = none
  | .budget => s.budget = none

instance (s : Settings) : DecidablePred s.Lacks
  | .level => inferInstanceAs (Decidable (s.level = none))
  | .keys => inferInstanceAs (Decidable (s.keys = none))
  | .seed => inferInstanceAs (Decidable (s.seed = some none))
  | .width => inferInstanceAs (Decidable (s.width = none))
  | .height => inferInstanceAs (Decidable (s.height = none))
  | .rate => inferInstanceAs (Decidable (s.rate = none))
  | .budget => inferInstanceAs (Decidable (s.budget = none))

/-- The settings that are used from the making of a screen on, in the order of their first uses. A height is not looked
at behind a bad width, and nothing runs on a bad screen. -/
def Settings.usesOfScreen (s : Settings) : List Unset :=
  .width :: if s.width.any (0 < ·) then .height :: if s.height.any (0 < ·) then [.rate, .budget] else [] else []

/-- The settings that are used from the reading of the program on. -/
def Settings.usesOfProgram (s : Settings) (input : Input) (files : FileSystem) : List Unset :=
  if (input.program files).isOk && !s.disassemble then .seed :: s.usesOfScreen else []

/-- The settings that a run uses, in the order of their first uses. -/
def Settings.uses (s : Settings) (input : Input) (files : FileSystem) : List Unset :=
  .level :: .keys ::
    if s.keys.any fun text => (Keypad.readList text.toList).isOk then s.usesOfProgram input files else []

/-- The first of some settings whose option was left without a value. -/
def Settings.firstLacking? (s : Settings) (uses : List Unset) : Option Unset :=
  uses.find? (s.Lacks ·)

theorem Settings.firstLacking?_of_lacks {setting : Unset} (h : s.Lacks setting) (later : List Unset) :
    s.firstLacking? (setting :: later) = some setting :=
  List.find?_cons_of_pos (decide_eq_true h)

theorem Settings.firstLacking?_of_not_lacks {setting : Unset} (h : ¬ s.Lacks setting) (later : List Unset) :
    s.firstLacking? (setting :: later) = s.firstLacking? later :=
  List.find?_cons_of_neg (by simpa using h)

/-- A screen of some size lets nothing else be used, unless something runs on it. -/
theorem Settings.firstLacking?_usesOfScreen {width height : Int} (hw : s.width = some width)
    (hh : s.height = some height) : s.firstLacking? s.usesOfScreen =
      if 0 < width ∧ 0 < height then s.firstLacking? [.rate, .budget] else none := by
  have hwidth : ¬ s.Lacks .width := by simp [Lacks, hw]
  have hheight : ¬ s.Lacks .height := by simp [Lacks, hh]
  rw [usesOfScreen, firstLacking?_of_not_lacks hwidth, hw, hh]
  simp only [Option.any_some, decide_eq_true_eq]
  by_cases hpos : 0 < width
  · rw [if_pos hpos, firstLacking?_of_not_lacks hheight]
    simp only [hpos, true_and]
    split <;> rfl
  · rw [if_neg hpos, if_neg fun h => hpos h.1]
    rfl

theorem Settings.lacks_of_firstLacking? {setting : Unset} {uses : List Unset}
    (h : s.firstLacking? uses = some setting) : s.Lacks setting := by
  simpa using List.find?_some h

theorem Settings.firstLacking?_eq_none {uses : List Unset} :
    s.firstLacking? uses = none ↔ ∀ setting ∈ uses, ¬ s.Lacks setting := by
  simp [firstLacking?]

/-- Whether the settings ask for a screen without any cells. -/
def Settings.NoCells (s : Settings) : Prop :=
  (∃ width, s.width = some width ∧ width ≤ 0) ∨ ∃ height, s.height = some height ∧ height ≤ 0

/-- Whether the settings ask for a screen of more cells than a platform holds. -/
def Settings.TooManyCells (platform : Platform) (s : Settings) : Prop :=
  ∃ width height, s.width = some width ∧ s.height = some height ∧ 0 < width ∧ 0 < height ∧
    ¬ platform.Holds (width.toNat * height.toNat)

/-- The random source that the settings ask for, if its seed is not lacking. -/
def Settings.random? (s : Settings) (unseeded : RandomSource) : Option RandomSource :=
  match s.seed with
  | none => some unseeded
  | some seed => seed.map .ofSeed

/-- Without a random source the seed is lacking. -/
theorem Settings.lacks_seed (h : s.random? unseeded = none) : s.Lacks .seed := by
  unfold random? at h
  cases hseed : s.seed with
  | none => simp [hseed] at h
  | some seed => cases seed <;> simp_all [Lacks]

theorem Settings.not_lacks_seed (h : s.random? unseeded = some random) : ¬ s.Lacks .seed := by
  rintro (hseed : s.seed = some none)
  rw [random?, hseed] at h
  cases h

/-- The settings start an emulator for a program. -/
def Settings.Starts (platform : Platform) (s : Settings) (unseeded : RandomSource) (program : List UInt8)
    (e : Emulator) : Prop :=
  ∃ width height random, s.width = some width ∧ s.height = some height ∧ s.random? unseeded = some random ∧
    Emulator.start platform program width height random s.trace = .ok e

/-- Why a run ends with exit code one. -/
inductive Fails (platform : Platform) (s : Settings) (input : Input) (keys : List Key) (files : FileSystem)
    (unseeded : RandomSource) : Prop where
  /-- The program cannot be read. -/
  | unread {fault : InputFault} : input.program files = .error fault → Fails platform s input keys files unseeded
  /-- The screen has no cells. -/
  | noCells {loaded : List UInt8 × List Note} : input.program files = .ok loaded → s.disassemble = false → s.NoCells →
      Fails platform s input keys files unseeded
  /-- The run faults. -/
  | faulted {program : List UInt8} {notes : List Note} {e : Emulator} {budget : Int} {fault : StackFault} :
      input.program files = .ok (program, notes) → s.disassemble = false → s.Starts platform unseeded program e →
      s.budget = some budget → (e.feed budget (Emulator.numbers keys)).1 = .error (.stack fault) →
      Fails platform s input keys files unseeded

/-- The endings of a plan, each with its cause. -/
inductive Plan.Ends (platform : Platform) (p : Plan) (files : FileSystem) (unseeded : RandomSource) :
    Ending → Prop where
  | unread {fault : InputFault} : p.input.program files = .error fault →
      Ends platform p files unseeded (.unread fault)
  | listed {program : List UInt8} {notes : List Note} : p.input.program files = .ok (program, notes) →
      p.settings.disassemble = true → Ends platform p files unseeded (.listed program notes)
  | unstarted {program : List UInt8} {notes : List Note} (complaint : String) :
      p.input.program files = .ok (program, notes) → p.settings.disassemble = false → p.settings.NoCells →
      Ends platform p files unseeded (.unstarted program notes complaint)
  | ran {program : List UInt8} {notes : List Note} {e : Emulator} {budget : Int} :
      p.input.program files = .ok (program, notes) → p.settings.disassemble = false →
      p.settings.Starts platform unseeded program e → p.settings.budget = some budget →
      Ends platform p files unseeded
        (.ran program notes (e.feed budget (Emulator.numbers p.keys)).1 (e.feed budget (Emulator.numbers p.keys)).2)

/-- A program that was read fits in memory. -/
theorem Input.length_le (h : input.program files = .ok (program, notes)) : program.length ≤ maxProgram := by
  unfold Input.program at h
  cases input with
  | file path =>
    cases hl : Rom.load files path with
    | error fault => simp [hl] at h
    | ok result =>
      simp only [hl, Except.ok.injEq, Prod.mk.injEq] at h
      exact h.1 ▸ Rom.length_le_of_load hl
  | listing text =>
    cases hp : HexListing.parse text.toList with
    | error fault => simp [hp] at h
    | ok result =>
      simp only [hp, Except.ok.injEq, Prod.mk.injEq] at h
      exact h.1 ▸ HexListing.length_le_of_parse hp

theorem Settings.Starts.cells (h : s.Starts platform unseeded program e) : ¬ s.NoCells := by
  obtain ⟨width, height, random, hw, hh, hr, hstart⟩ := h
  obtain ⟨hwidth, hheight, -⟩ := Emulator.start_eq hstart
  rintro (⟨width', hw', hle⟩ | ⟨height', hh', hle⟩)
  · obtain rfl := Option.some.inj (hw.symm.trans hw')
    omega
  · obtain rfl := Option.some.inj (hh.symm.trans hh')
    omega

theorem Settings.Starts.ready (h : s.Starts platform unseeded program e) : e.Ready := by
  obtain ⟨_, _, _, _, _, _, hstart⟩ := h
  exact Emulator.ready_start hstart

namespace Plan

variable {ending : Ending}

theorem random_eq (p : Plan) (unseeded : RandomSource) :
    p.random unseeded = needed .seed (p.settings.random? unseeded) := by
  unfold random Settings.random?
  cases p.settings.seed with
  | none => rfl
  | some seed => cases seed <;> rfl

/-- A course without pauses is a scheduled run. -/
theorem course_eq (hrate : p.settings.rate = some 0) (hready : e.Ready) (program : List UInt8) (notes : List Note) :
    p.course program notes e = (needed .budget p.settings.budget).map fun budget =>
      .ran program notes (e.feed budget (Emulator.numbers p.keys)).1 (e.feed budget (Emulator.numbers p.keys)).2 := by
  unfold course
  rw [hrate]
  cases p.settings.budget with
  | none => rfl
  | some budget =>
    simp only [needed, bind, Except.bind, Emulator.feedAt_zero, Except.mapError, Emulator.handling_feed hready]
    rfl

/-- A start that succeeds, or finds the screen bad, passes no error on. -/
theorem start_of_sizes (p : Plan) {width height : Int} (hw : p.settings.width = some width)
    (hh : p.settings.height = some height) (program : List UInt8) (random : RandomSource)
    {answer : Except StartFault Emulator}
    (hstart : Emulator.start platform program width height random p.settings.trace = answer)
    (htaken : ∀ fault, answer = .error fault → fault.errorClass.isTakenBy [.romTooLargeError, .valueError] = true) :
    p.start platform program random = .ok (answer.mapError StartFault.message) := by
  unfold start
  rw [hw, hh]
  simp only [needed, bind, Except.bind, hstart, handling_of_all htaken]
  rfl

/-- What a start comes to, for a program that fits and a screen of some size. -/
theorem start_cases_of_sizes (platform : Platform) (p : Plan) {width height : Int}
    (hw : p.settings.width = some width) (hh : p.settings.height = some height) (hp : program.length ≤ maxProgram)
    (random : RandomSource) :
    ((width ≤ 0 ∨ height ≤ 0) ∧ ∃ complaint, p.start platform program random = .ok (.error complaint)) ∨
      (0 < width ∧ 0 < height ∧ ¬ platform.Holds (width.toNat * height.toNat) ∧
        ∃ fault, p.start platform program random = .error (.start (.tooManyCells fault))) ∨
      0 < width ∧ 0 < height ∧ ∃ e, Emulator.start platform program width height random p.settings.trace = .ok e ∧
        p.start platform program random = .ok (.ok e) := by
  rcases Emulator.start_cases platform hp width height random p.settings.trace with
    ⟨hbad, hstart⟩ | ⟨hwidth, hheight, hlarge, fault, hstart⟩ | ⟨hwidth, hheight, e, hstart⟩
  · exact .inl ⟨hbad, _, p.start_of_sizes hw hh program random hstart fun fault h => by cases h; rfl⟩
  · refine .inr (.inl ⟨hwidth, hheight, hlarge, fault, ?_⟩)
    rw [start, hw, hh]
    simp only [needed, bind, Except.bind, hstart]
    cases fault <;> rfl
  · exact .inr (.inr ⟨hwidth, hheight, e, hstart,
      p.start_of_sizes hw hh program random hstart fun fault h => by cases h⟩)

/-- **What a start comes to**, for a program that fits. -/
theorem start_cases (platform : Platform) (p : Plan) (hp : program.length ≤ maxProgram) (random : RandomSource) :
    (∃ setting, p.settings.firstLacking? p.settings.usesOfScreen = some setting ∧
        p.start platform program random = .error (.unset setting)) ∨
      (p.settings.TooManyCells platform ∧
        ∃ fault, p.start platform program random = .error (.start (.tooManyCells fault))) ∨
      (p.settings.firstLacking? p.settings.usesOfScreen = none ∧ p.settings.NoCells ∧
        ∃ complaint, p.start platform program random = .ok (.error complaint)) ∨
      ∃ width height e, p.settings.firstLacking? p.settings.usesOfScreen = p.settings.firstLacking? [.rate, .budget] ∧
        p.settings.width = some width ∧ p.settings.height = some height ∧
        Emulator.start platform program width height random p.settings.trace = .ok e ∧
        p.start platform program random = .ok (.ok e) := by
  cases hw : p.settings.width with
  | none =>
    have hlacks : p.settings.Lacks .width := hw
    exact .inl ⟨.width, Settings.firstLacking?_of_lacks hlacks _, by rw [start, hw]; rfl⟩
  | some width =>
    cases hh : p.settings.height with
    | none =>
      have hlacks : p.settings.Lacks .height := hh
      have hwidth : ¬ p.settings.Lacks .width := by simp [Settings.Lacks, hw]
      rw [Settings.usesOfScreen, Settings.firstLacking?_of_not_lacks hwidth, hw, Option.any_some, start, hw, hh]
      by_cases hpos : 0 < width
      · rw [if_pos (decide_eq_true hpos)]
        exact .inl ⟨.height, Settings.firstLacking?_of_lacks hlacks _, if_neg (Int.not_le.mpr hpos)⟩
      · have hbad : width ≤ 0 := Int.not_lt.mp hpos
        rw [if_neg (by simpa using hbad)]
        exact .inr (.inr (.inl ⟨rfl, .inl ⟨width, hw, hbad⟩, s!"Invalid display size: {width}x[]", if_pos hbad⟩))
    | some height =>
      rw [Settings.firstLacking?_usesOfScreen hw hh]
      rcases p.start_cases_of_sizes platform hw hh hp random with
        ⟨hbad, hstart⟩ | ⟨hwidth, hheight, hlarge, hstart⟩ | ⟨hwidth, hheight, e, he, hstart⟩
      · have hnone : ¬ (0 < width ∧ 0 < height) := by omega
        exact .inr (.inr (.inl ⟨if_neg hnone, hbad.imp (⟨width, hw, ·⟩) (⟨height, hh, ·⟩), hstart⟩))
      · exact .inr (.inl ⟨⟨width, height, hw, hh, hwidth, hheight, hlarge⟩, hstart⟩)
      · exact .inr (.inr (.inr ⟨width, height, e, if_pos ⟨hwidth, hheight⟩, rfl, rfl, he, hstart⟩))

/-- **A plan ends in one of these ways**: it breaks off at the first setting that is lacking, or for its screen, or it
ends in due form. -/
theorem ending_cases (platform : Platform) (p : Plan) (hrate : p.settings.rate = some 0) (files : FileSystem)
    (unseeded : RandomSource) :
    (∃ setting, p.settings.firstLacking? (p.settings.usesOfProgram p.input files) = some setting ∧
        p.ending platform files unseeded = .error (.unset setting)) ∨
      (p.settings.TooManyCells platform ∧
        ∃ fault, p.ending platform files unseeded = .error (.start (.tooManyCells fault))) ∨
      (p.settings.firstLacking? (p.settings.usesOfProgram p.input files) = none ∧
        ∃ ending, p.ending platform files unseeded = .ok ending ∧ p.Ends platform files unseeded ending) := by
  unfold ending Settings.usesOfProgram
  cases hp : p.input.program files with
  | error fault => exact .inr (.inr ⟨rfl, _, rfl, .unread hp⟩)
  | ok loaded =>
    obtain ⟨program, notes⟩ := loaded
    cases hd : p.settings.disassemble with
    | true => exact .inr (.inr ⟨rfl, _, rfl, .listed hp hd⟩)
    | false =>
      simp only [Except.isOk, Except.toBool, Bool.not_false, Bool.and_self, if_true, Bool.false_eq_true, if_false,
        random_eq]
      cases hr : p.settings.random? unseeded with
      | none => exact .inl ⟨.seed, Settings.firstLacking?_of_lacks (Settings.lacks_seed hr) _, rfl⟩
      | some random =>
        rw [Settings.firstLacking?_of_not_lacks (Settings.not_lacks_seed hr)]
        simp only [needed, bind, Except.bind]
        rcases p.start_cases platform (Input.length_le hp) random with
          ⟨setting, hlacks, hstart⟩ | ⟨hlarge, fault, hstart⟩ | ⟨hnone, hcells, complaint, hstart⟩ |
          ⟨width, height, e, huses, hw, hh, he, hstart⟩
        · rw [hstart]
          exact .inl ⟨setting, hlacks, rfl⟩
        · rw [hstart]
          exact .inr (.inl ⟨hlarge, fault, rfl⟩)
        · rw [hstart]
          exact .inr (.inr ⟨hnone, _, rfl, .unstarted complaint hp hd hcells⟩)
        · rw [hstart, huses, Settings.firstLacking?_of_not_lacks (by simp [Settings.Lacks, hrate])]
          simp only [course_eq hrate (Emulator.ready_start he)]
          cases hb : p.settings.budget with
          | none =>
            have hlacks : p.settings.Lacks .budget := hb
            exact .inl ⟨.budget, Settings.firstLacking?_of_lacks hlacks _, rfl⟩
          | some budget =>
            have hnone : p.settings.firstLacking? [.budget] = none :=
              Settings.firstLacking?_of_not_lacks (by simp [Settings.Lacks, hb]) []
            exact .inr (.inr ⟨hnone, _, rfl, .ran hp hd ⟨width, height, random, hw, hh, hr, he⟩ hb⟩)

/-- A plan that starts an emulator ends with what comes of the run. -/
theorem ending_of_starts (hrate : p.settings.rate = some 0) (hp : p.input.program files = .ok (program, notes))
    (hd : p.settings.disassemble = false) (hs : p.settings.Starts platform unseeded program e) {budget : Int}
    (hb : p.settings.budget = some budget) : p.ending platform files unseeded = .ok
      (.ran program notes (e.feed budget (Emulator.numbers p.keys)).1 (e.feed budget (Emulator.numbers p.keys)).2) := by
  have hready := hs.ready
  obtain ⟨width, height, random, hw, hh, hr, he⟩ := hs
  have hstart : p.start platform program random = .ok (.ok e) :=
    p.start_of_sizes hw hh program random he fun fault h => by cases h
  unfold ending
  simp only [hp, hd, Bool.false_eq_true, if_false, random_eq, hr, needed, bind, Except.bind, hstart,
    course_eq hrate hready, hb]
  rfl

/-- **The exit code is one for three reasons**, and otherwise zero. -/
theorem Ends.exit_eq_one_iff (hrate : p.settings.rate = some 0)
    (hending : p.ending platform files unseeded = .ok ending) (h : p.Ends platform files unseeded ending) :
    ending.exit = 1 ↔ Fails platform p.settings p.input p.keys files unseeded := by
  have hzero : (0 : UInt32) ≠ 1 := by decide
  cases h with
  | unread hp => exact iff_of_true rfl (.unread hp)
  | unstarted complaint hp hd hcells => exact iff_of_true rfl (.noCells hp hd hcells)
  | listed hp hd =>
    refine iff_of_false hzero fun hfails => ?_
    cases hfails with
    | unread hp' => rw [hp] at hp'; cases hp'
    | noCells _ hd' _ | faulted _ hd' _ _ _ => rw [hd] at hd'; cases hd'
  | @ran program notes e budget hp hd hs hb =>
    cases hfed : (e.feed budget (Emulator.numbers p.keys)).1 with
    | error fault =>
      obtain ⟨cause, -, rfl, -⟩ := Emulator.feed_fault hs.ready hfed
      exact iff_of_true rfl (.faulted hp hd hs hb hfed)
    | ok fed =>
      refine iff_of_false hzero fun hfails => ?_
      cases hfails with
      | unread hp' => rw [hp] at hp'; cases hp'
      | noCells _ _ hcells => exact hs.cells hcells
      | faulted hp' hd' hs' hb' hfault =>
        have hran := Except.ok.inj (hending.symm.trans (ending_of_starts hrate hp' hd' hs' hb'))
        rw [hfault, hfed] at hran
        cases (Ending.ran.inj hran).2.2.1

/-- The outcome of a plan tells how the plan ends. -/
theorem outcome_eq (p : Plan) (files : FileSystem) (unseeded : RandomSource) :
    p.outcome platform files unseeded = (p.ending platform files unseeded).map fun ending =>
      ⟨ending.exit, ending.stdout p.input p.settings.trace p.settings.quiet,
        textOfLines (noteLines p.level ending.notes)⟩ := by
  rw [outcome, transcript_eq]
  cases p.ending platform files unseeded <;> rfl

end Plan

/-! ## The outcome -/

/-- A command line that names a program comes to a plan, if there is a level and keys that can be read. -/
theorem run_eq {arguments : List String} (hread : options.read {} arguments = .ok s) (hinput : s.input? = some input)
    (files : FileSystem) (unseeded : RandomSource) : run platform arguments files unseeded = (do
      let level ← needed .level s.level
      let text ← needed .keys s.keys
      match Keypad.readList text.toList with
      | .error fault => return ⟨2, "", "main.py: error: --keys: " ++ fault.message ++ "\n"⟩
      | .ok keys => Plan.outcome platform ⟨s, input, level, keys⟩ files unseeded) := by
  unfold run Request.ofArguments Settings.request
  simp only [hread, hinput]
  cases s.level with
  | none => rfl
  | some level =>
    cases s.keys with
    | none => rfl
    | some text =>
      have htaken : handling [.valueError] Keypad.ListFault.errorClass (Keypad.readList text.toList) =
          .ok (Keypad.readList text.toList) := handling_of_all fun _ _ => rfl
      simp only [needed, bind, Except.bind, htaken, Except.mapError]
      cases Keypad.readList text.toList with
      | ok keys => rfl
      | error fault =>
        have hmessage : programName ++ ": error: " ++ (Refusal.keys fault).message =
            "main.py: error: --keys: " ++ fault.message := by
          rw [Refusal.message, ← String.append_assoc]
          rfl
        simp only [pure, Except.pure, hmessage]

/-- A command line with a level and keys that can be read comes to what its plan comes to. -/
theorem run_of_plan {arguments : List String} {level : Level} {text : String} {keys : List Key}
    (hread : options.read {} arguments = .ok s) (hinput : s.input? = some input) (hlevel : s.level = some level)
    (hkeys : s.keys = some text) (hlist : Keypad.readList text.toList = .ok keys) (files : FileSystem)
    (unseeded : RandomSource) :
    run platform arguments files unseeded = Plan.outcome platform ⟨s, input, level, keys⟩ files unseeded := by
  rw [run_eq hread hinput, hlevel, hkeys]
  simp only [needed, bind, Except.bind, hlist]

/-- A step that faults leaves the screen as it was, and does not wait. -/
theorem faulted_step {fault : StackFault} (h : e.step.1 = .error fault) :
    e.step.2.machine = e.machine.tick ∧ e.step.2.screenText = e.screenText ∧
      e.step.2.machine.awaitingKey = false := by
  have hfault : e.machine.step.fault = some fault := by
    rw [Emulator.step_answer] at h
    cases hf : e.machine.step.fault with
    | none => simp [hf] at h
    | some cause => simpa [hf] using h
  have hmachine : e.step.2.machine = e.machine.tick := by rw [Emulator.machine_step, step_of_fault hfault]
  refine ⟨hmachine, ?_, ?_⟩
  · rw [Emulator.screenText, hmachine]
    rfl
  · have hw : e.machine.tick.keyWait = .running := (fault_step_iff.mp hfault).1
    rw [hmachine, Machine.awaitingKey, hw]

/-- A command line that names a program breaks off at the first setting that is lacking, or it has an outcome. -/
theorem run_cases {arguments : List String} (hread : options.read {} arguments = .ok s)
    (hinput : s.input? = some input) (hrate : s.rate = some 0) (hfits : ¬ s.TooManyCells platform) (files : FileSystem)
    (unseeded : RandomSource) :
    (∃ setting, s.firstLacking? (s.uses input files) = some setting ∧
        run platform arguments files unseeded = .error (.unset setting)) ∨
      (s.firstLacking? (s.uses input files) = none ∧
        ∃ outcome, run platform arguments files unseeded = .ok outcome) := by
  rw [run_eq hread hinput, Settings.uses]
  cases hlevel : s.level with
  | none =>
    have hlacks : s.Lacks .level := hlevel
    exact .inl ⟨.level, Settings.firstLacking?_of_lacks hlacks _, rfl⟩
  | some level =>
    rw [Settings.firstLacking?_of_not_lacks (by simp [Settings.Lacks, hlevel])]
    cases hkeys : s.keys with
    | none =>
      have hlacks : s.Lacks .keys := hkeys
      exact .inl ⟨.keys, Settings.firstLacking?_of_lacks hlacks _, rfl⟩
    | some text =>
      rw [Settings.firstLacking?_of_not_lacks (by simp [Settings.Lacks, hkeys]), Option.any_some]
      simp only [needed, bind, Except.bind]
      cases Keypad.readList text.toList with
      | error fault => exact .inr ⟨rfl, _, rfl⟩
      | ok keys =>
        let p : Plan := ⟨s, input, level, keys⟩
        simp only [Except.isOk, Except.toBool, if_true]
        rw [show Plan.outcome platform ⟨s, input, level, keys⟩ files unseeded = _ from p.outcome_eq files unseeded]
        rcases p.ending_cases platform hrate files unseeded with
          ⟨setting, hlacks, hending⟩ | ⟨hlarge, -⟩ | ⟨hnone, ending, hending, -⟩
        · exact .inl ⟨setting, hlacks, by rw [hending]; rfl⟩
        · exact absurd hlarge hfits
        · exact .inr ⟨hnone, _, by rw [hending]; rfl⟩

/-- **A run breaks off at the first use of a setting without a value**, with an error of the class that the setting
names (`Unset.errorClass`), and by nothing else, unless it pauses or its screen is too large. -/
theorem run_error_iff {arguments : List String} (hread : options.read {} arguments = .ok s)
    (hinput : s.input? = some input) (hrate : s.rate = some 0) (hfits : ¬ s.TooManyCells platform) (files : FileSystem)
    (unseeded : RandomSource) (breakdown : Breakdown) :
    run platform arguments files unseeded = .error breakdown ↔
      ∃ setting, s.firstLacking? (s.uses input files) = some setting ∧ breakdown = .unset setting := by
  rcases run_cases hread hinput hrate hfits files unseeded with ⟨setting, hfirst, hrun⟩ | ⟨hfirst, outcome, hrun⟩
  · rw [hrun, hfirst]
    simp [eq_comm]
  · rw [hrun, hfirst]
    simp

/-- **What comes of a command line** that names a program, if it does not pause, every setting that it uses has a value,
and its screen fits in memory. -/
theorem run_outcome {arguments : List String} (hread : options.read {} arguments = .ok s)
    (hinput : s.input? = some input) (hrate : s.rate = some 0) (hfits : ¬ s.TooManyCells platform) (files : FileSystem)
    (unseeded : RandomSource) (huses : ∀ setting ∈ s.uses input files, ¬ s.Lacks setting) :
    (∃ text fault, s.keys = some text ∧ Keypad.readList text.toList = .error fault ∧ ∀ files unseeded,
      run platform arguments files unseeded = .ok ⟨2, "", "main.py: error: --keys: " ++ fault.message ++ "\n"⟩) ∨
    ∃ text keys outcome, s.keys = some text ∧ Keypad.readList text.toList = .ok keys ∧
      run platform arguments files unseeded = .ok outcome ∧ (outcome.exit = 0 ∨ outcome.exit = 1) ∧
      (outcome.exit = 1 ↔ Fails platform s input keys files unseeded) ∧
      ∀ program notes, input.program files = .ok (program, notes) →
        (∀ width height random tracing oversize,
          Emulator.start platform program width height random tracing ≠ .error (.oversize oversize)) ∧
        ∀ e budget fault, s.disassemble = false → s.Starts platform unseeded program e → s.budget = some budget →
          (e.feed budget (Emulator.numbers keys)).1 = .error (.stack fault) →
          ∃ earlier, e.eventsOf (.feed budget (Emulator.numbers keys)) = earlier ++ [.step] ∧
            (∀ answer ∈ e.answers earlier, ∃ redraw, answer = .ok redraw) ∧
            let failing := e.afterAll earlier
            let faulted := failing.step.2
            let m := faulted.machine
            failing.step.1 = .error fault ∧ m = failing.machine.tick ∧
            outcome.stdout =
              textOfLines (if s.quiet then [] else
                [input.announcement program.length, rule '-' 60, "Executing...", rule '-' 60]) ++
              ("Execution error: " ++ fault.message ++ "\n") ++ (if s.trace then faulted.traceReport else "") ++
              (failing.screenText ++ "\n") ++
              textOfLines (if s.quiet then [] else
                ["", s!"Cycles: {m.cycles}",
                  "PC: " ++ Hex.literal 5 m.pc ++ "  I: " ++ Hex.literal 5 m.index ++ s!"  SP: {m.stack.length}",
                  s!"Timers: DT={m.delay} ST={m.sound}",
                  "Registers: " ++ registersInBraces m.registers.named] ++
                faulted.lastErrorText.toList.map ("Last error: " ++ ·)) := by
  cases hlevel : s.level with
  | none => exact absurd hlevel (huses .level (.head _))
  | some level =>
    cases hkeys : s.keys with
    | none => exact absurd hkeys (huses .keys (.tail _ (.head _)))
    | some text =>
      cases hlist : Keypad.readList text.toList with
      | error fault =>
        refine .inl ⟨text, fault, rfl, hlist, fun files unseeded => ?_⟩
        rw [run_eq hread hinput, hlevel, hkeys]
        simp only [needed, bind, Except.bind, hlist]
        rfl
      | ok keys =>
        let p : Plan := ⟨s, input, level, keys⟩
        have hlater : s.firstLacking? (s.usesOfProgram input files) = none := by
          refine Settings.firstLacking?_eq_none.mpr fun setting h => huses setting (.tail _ (.tail _ ?_))
          rw [hkeys, Option.any_some, hlist]
          exact h
        rw [run_of_plan hread hinput hlevel hkeys hlist, p.outcome_eq]
        rcases p.ending_cases platform hrate files unseeded with
          ⟨setting, hlacks, -⟩ | ⟨hlarge, -⟩ | ⟨-, ending, hending, hends⟩
        · rw [hlater] at hlacks
          cases hlacks
        · exact absurd hlarge hfits
        · rw [hending]
          refine .inr ⟨text, keys, _, rfl, hlist, rfl, ending.exit_eq, hends.exit_eq_one_iff hrate hending,
            fun program notes hp => ⟨Emulator.start_ne_oversize (Input.length_le hp),
              fun e budget fault hd hs hb hfault => ?_⟩⟩
          obtain ⟨cause, earlier, hcause, hevents, hanswers, hlast, hafter⟩ := Emulator.feed_fault hs.ready hfault
          obtain rfl := FeedFault.stack.inj hcause
          obtain ⟨hmachine, hscreen, hwait⟩ := faulted_step hlast
          refine ⟨earlier, hevents, hanswers, hlast, hmachine, ?_⟩
          obtain rfl := Except.ok.inj (hending.symm.trans (Plan.ending_of_starts hrate hp hd hs hb))
          rw [hfault, hafter, ← hscreen]
          exact Ending.stdout_faulted fault hwait program notes input s.trace s.quiet

/-- The option of the seed is left without a value; the run breaks off although the keys can be read. -/
theorem run_without_seed :
    let arguments := ["--hex", "1200", "--quiet", "--width", "1", "--height", "1", "--seed=--"]
    ∃ s, options.read {} arguments = .ok s ∧ s.input? = some (.listing "1200") ∧ s.rate = some 0 ∧
      s.width = some 1 ∧ s.height = some 1 ∧ (∃ text, s.keys = some text ∧ Keypad.readList text.toList = .ok []) ∧
      run .vast arguments (fun _ => .missing) (.cycle []) = .error (.unset .seed) := by
  refine ⟨{ listing := some "1200", quiet := true, width := some 1, height := some 1, seed := some none }, ?_, rfl, rfl,
    rfl, rfl, ⟨"", rfl, by decide +kernel⟩, ?_⟩
  · decide +kernel
  · decide +kernel

/-- A program that begins with a return ends with exit code one. -/
theorem run_outcome_return : ∃ outcome, run .vast ["--hex", "00EE"] (fun _ => .missing) (.cycle []) = .ok outcome ∧
    outcome.exit = 1 := by
  let s : Settings := { listing := some "00EE" }
  have hread : options.read {} ["--hex", "00EE"] = .ok s := by decide +kernel
  have hprogram : (Input.listing "00EE").program (fun _ => .missing) = .ok ([0x00, 0xEE], []) := by
    have hlisting : HexListing.parse "00EE".toList = .ok [0x00, 0xEE] := by decide +kernel
    rw [Input.program, hlisting]
  obtain ⟨e, he⟩ := Emulator.exists_start .vast [0x00, 0xEE] 64 32 (.cycle []) false
    (by decide) (by decide) (by decide) (by decide)
  have hfault : (e.feed 1000 (Emulator.numbers [])).1 = .error (.stack (.underflow 0x200)) := by
    obtain ⟨_, _, hstart⟩ := Emulator.start_eq he
    have hw : e.machine.keyWait = .running := by rw [hstart]; rfl
    have hfetch : e.machine.fetch = .decode 0x00EE := by rw [hstart]; exact Emulator.fetch_boot ..
    have hstack : e.machine.stack = [] := by rw [hstart]; rfl
    have hpc : e.machine.pc = 0x200 := by rw [hstart]; rfl
    have hstep : e.machine.step.fault = some (.underflow 0x200) :=
      fault_step_iff.mpr ⟨hw, .inl ⟨by rw [hfetch]; rfl, hstack, by rw [hpc]⟩⟩
    have hanswer : e.step.1 = .error (.underflow 0x200) := by rw [Emulator.step_answer, hstep]
    exact congrArg Prod.fst (Emulator.feed_faulted hw hanswer 0 999 []).1
  have hfits : ¬ s.TooManyCells .vast := by
    rintro ⟨width, height, hw, hh, -, -, hlarge⟩
    cases hw
    cases hh
    exact hlarge (Platform.vast.holds_default)
  rcases run_outcome hread rfl rfl hfits (fun _ => .missing) (.cycle []) (by decide +kernel) with
    ⟨text, fault, hkeys, hbad, -⟩ | ⟨text, keys, outcome, hkeys, hlist, hrun, -, hone, -⟩
  · cases hkeys
    rw [show Keypad.readList "".toList = .ok [] by decide +kernel] at hbad
    cases hbad
  · cases hkeys
    rw [show Keypad.readList "".toList = .ok [] by decide +kernel] at hlist
    cases hlist
    exact ⟨outcome, hrun, hone.mpr (.faulted hprogram rfl ⟨64, 32, .cycle [], rfl, rfl, rfl, he⟩ rfl hfault)⟩

end CommandLine

end ChipEight
