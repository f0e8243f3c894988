import ChipEight.Proofs.Outcome
import ChipEight.Proofs.Tracing

/-!
# Options for the output

A trace, little output and the level of the log are options for what is shown of a run. They change nothing else.

- `Plan.withOutput` is a plan with other options for its output, and `Ending.plain` is an ending without its trace; a
  plan that does not trace ends like one that does (`ending_untraced`);
- `outcome_withOutput`: what is shown under all options are parts of one ending;
- `output_options`: the main statement.
-/

namespace ChipEight

variable {platform : Platform}

namespace Emulator

/-- An emulator that does not trace starts like one that does. -/
theorem start_untraced (program : List UInt8) (width height : Int) (random : RandomSource) :
    Emulator.start platform program width height random false =
      (Emulator.start platform program width height random true).map Emulator.plain := by
  unfold Emulator.start
  cases Machine.start platform program width height random <;> rfl

/-- A scheduled run does the same to an emulator that has no trace. -/
theorem feed_plain (e : Emulator) (budget : Int) (keys : List Int) :
    e.plain.feed budget keys = ((e.feed budget keys).1, (e.feed budget keys).2.plain) := by
  have hplain : e.plain.plain = e.plain := rfl
  have hevents := eventsOf_congr e.machine_plain (.feed budget keys)
  refine Prod.ext (Answer.fed.inj (perform_congr hplain (.feed budget keys)).1) ?_
  rw [show (e.plain.feed budget keys).2 = _ from e.plain.perform_eq (.feed budget keys), hevents, ← plain_afterAll,
    ← perform_eq]
  rfl

end Emulator

namespace CommandLine

/-- The ending without its trace. -/
def Ending.plain : Ending → Ending
  | ran program notes result after => ran program notes result after.plain
  | ending => ending

/-- The plan with other options for its output. -/
def Plan.withOutput (p : Plan) (trace quiet : Bool) (level : Level) : Plan :=
  { p with settings := { p.settings with trace, quiet, level := some level }, level }

/-- The line on a note in the log. -/
def noteLine (note : Note) : String :=
  s!"[{note.level.name}]:  {note.message}"

variable {p : Plan} {s : Settings} {input : Input} {files : FileSystem} {trace quiet : Bool} {level : Level}

theorem Ending.exit_plain (ending : Ending) : ending.plain.exit = ending.exit := by
  cases ending with
  | ran program notes result after => cases result <;> rfl
  | unread | listed | unstarted => rfl

theorem Ending.notes_plain (ending : Ending) : ending.plain.notes = ending.notes := by
  cases ending <;> rfl

/-- Without the report on its trace an ending is told like one that has none. -/
theorem Ending.stdout_plain (ending : Ending) (input : Input) (quiet : Bool) :
    ending.plain.stdout input false quiet = ending.stdout input false quiet := by
  cases ending with
  | ran program notes result after => cases result <;> rfl
  | unread | listed | unstarted => rfl

/-- What is printed has what is printed in the quiet case for a part. -/
theorem Ending.stdout_quiet (ending : Ending) (input : Input) (trace : Bool) : ending.stdout input trace false =
    textOfLines (ending.opening input) ++ ending.stdout input trace true ++ textOfLines ending.closing := by
  have hnone : textOfLines [] = "" := rfl
  simp only [stdout, Bool.false_eq_true, if_false, if_true, List.nil_append, textOfLines_append, hnone,
    String.append_empty, String.append_assoc]

/-- The trace of a run is told right before its screen. -/
theorem Ending.stdout_ran (program : List UInt8) (notes : List Note) (result : Except FeedFault Fed) (after : Emulator)
    (input : Input) (trace quiet : Bool) :
    let ending := Ending.ran program notes result after
    ending.stdout input trace quiet = textOfLines ((if quiet then [] else ending.opening input) ++ ending.body) ++
      (if trace then after.traceReport else "") ++
      (after.screenText ++ "\n" ++ textOfLines (if quiet then [] else ending.closing)) := by
  intro ending
  rw [← textOfLines_single, ← String.append_assoc]
  rfl

/-- The lowest level leaves no note out. -/
theorem noteLines_debug (notes : List Note) : noteLines .debug notes = notes.map noteLine := by
  have hall : notes.filter (fun note => Level.debug.rank ≤ note.level.rank) = notes :=
    List.filter_eq_self.mpr fun note _ => decide_eq_true (Nat.zero_le _)
  rw [noteLines, hall]
  rfl

namespace Plan

@[simp] theorem input_withOutput (p : Plan) : (p.withOutput trace quiet level).input = p.input := rfl

@[simp] theorem disassemble_withOutput (p : Plan) :
    (p.withOutput trace quiet level).settings.disassemble = p.settings.disassemble := rfl

@[simp] theorem random_withOutput (p : Plan) (unseeded : RandomSource) :
    (p.withOutput trace quiet level).random unseeded = p.random unseeded := rfl

theorem start_untraced (p : Plan) (program : List UInt8) (random : RandomSource) :
    (p.withOutput false quiet level).start platform program random =
      ((p.withOutput true quiet level).start platform program random).map (·.map Emulator.plain) := by
  unfold start withOutput
  cases p.settings.width with
  | none => rfl
  | some width =>
    simp only [needed, bind, Except.bind]
    cases p.settings.height with
    | none =>
      simp only
      split <;> rfl
    | some height =>
      simp only [Emulator.start_untraced program width height random]
      cases Emulator.start platform program width height random true with
      | ok e => rfl
      | error fault =>
        cases fault with
        | oversize | badScreen => rfl
        | tooManyCells e => cases e <;> rfl

theorem course_untraced (hrate : p.settings.rate = some 0) (program : List UInt8) (notes : List Note) (e : Emulator) :
    (p.withOutput false quiet level).course program notes e.plain =
      ((p.withOutput true quiet level).course program notes e).map Ending.plain := by
  unfold course withOutput
  simp only [hrate]
  cases p.settings.budget with
  | none => rfl
  | some budget =>
    simp only [needed, bind, Except.bind, Emulator.feedAt_zero, Emulator.feed_plain, Except.mapError]
    cases handling [.chip8Error] FeedFault.errorClass (e.feed budget (Emulator.numbers p.keys)).1 <;> rfl

/-- **A plan that does not trace ends like one that does.** -/
theorem ending_untraced (hrate : p.settings.rate = some 0) (files : FileSystem) (unseeded : RandomSource) :
    (p.withOutput false quiet level).ending platform files unseeded =
      ((p.withOutput true quiet level).ending platform files unseeded).map Ending.plain := by
  unfold ending
  rw [input_withOutput, input_withOutput, disassemble_withOutput, disassemble_withOutput, random_withOutput,
    random_withOutput]
  cases p.input.program files with
  | error fault => rfl
  | ok loaded =>
    obtain ⟨program, notes⟩ := loaded
    cases p.settings.disassemble with
    | true => rfl
    | false =>
      cases p.random unseeded with
      | error breakdown => rfl
      | ok random =>
        simp only [Bool.false_eq_true, if_false, bind, Except.bind, start_untraced]
        cases (p.withOutput true quiet level).start platform program random with
        | error breakdown => rfl
        | ok started =>
          cases started with
          | error complaint => rfl
          | ok e => exact course_untraced hrate program notes e

/-- A plan with a seed ends in the same way, whatever else is shown. -/
theorem ending_shown (hseed : p.settings.seed ≠ none) (files : FileSystem) (unseeded unseeded' : RandomSource) :
    (p.withOutput trace quiet level).ending platform files unseeded =
      (p.withOutput trace false .debug).ending platform files unseeded' := by
  have hrandom : p.random unseeded = p.random unseeded' := by
    unfold random
    cases hs : p.settings.seed with
    | none => exact absurd hs hseed
    | some seed => rfl
  unfold ending
  rw [random_withOutput, random_withOutput, hrandom]
  rfl

/-- **What is shown of a plan** under any options for its output. -/
theorem outcome_withOutput (hrate : p.settings.rate = some 0) (hseed : p.settings.seed ≠ none) (files : FileSystem)
    (unseeded unseeded' : RandomSource) : (p.withOutput trace quiet level).outcome platform files unseeded =
      ((p.withOutput true false .debug).ending platform files unseeded').map fun ending =>
        ⟨ending.exit, ending.stdout p.input trace quiet, textOfLines (noteLines level ending.notes)⟩ := by
  rw [outcome_eq, ending_shown hseed files unseeded unseeded']
  cases trace with
  | true => rfl
  | false =>
    rw [ending_untraced hrate]
    cases (p.withOutput true false .debug).ending platform files unseeded' with
    | error breakdown => rfl
    | ok ending =>
      show Except.ok (Outcome.mk ending.plain.exit (ending.plain.stdout p.input false quiet)
        (textOfLines (noteLines level ending.plain.notes))) = _
      rw [ending.exit_plain, ending.notes_plain, ending.stdout_plain]
      rfl

/-- A plan that cannot read its program, lists it or has no cells for its screen has no trace to report on. -/
theorem report_without_screen (hrate : p.settings.rate = some 0) {unseeded : RandomSource} {ending : Ending}
    (hending : p.ending platform files unseeded = .ok ending) (h : (∃ fault, p.input.program files = .error fault) ∨
      p.settings.disassemble = true ∨ p.settings.NoCells) : ending.report = "" := by
  rcases p.ending_cases platform hrate files unseeded with
    ⟨setting, -, hbroken⟩ | ⟨-, fault, hbroken⟩ | ⟨-, other, hother, hends⟩
  · rw [hbroken] at hending
    cases hending
  · rw [hbroken] at hending
    cases hending
  · obtain rfl := Except.ok.inj (hother.symm.trans hending)
    cases hends with
    | unread | listed | unstarted => rfl
    | ran hp hd hs _ =>
      rcases h with ⟨fault, hfault⟩ | hlists | hcells
      · rw [hp] at hfault
        cases hfault
      · rw [hd] at hlists
        cases hlists
      · exact absurd hcells hs.cells

end Plan

/-- **Options for the output do not affect the run.** Command lines that differ in nothing else have the same exit code,
and what they show are parts of the same ending; or all of them break off in the same way. -/
theorem output_options {text : String} {keys : List Key} (hinput : s.input? = some input) (hkeys : s.keys = some text)
    (hlist : Keypad.readList text.toList = .ok keys) (hrate : s.rate = some 0) (hseed : s.seed ≠ none)
    (files : FileSystem) :
    (∃ breakdown, ((∃ setting, s.Lacks setting ∧ breakdown = .unset setting) ∨
        s.TooManyCells platform ∧ ∃ fault, breakdown = .start (.tooManyCells fault)) ∧
      ∀ arguments trace quiet level unseeded,
        options.read {} arguments = .ok { s with trace, quiet, level := some level } →
        run platform arguments files unseeded = .error breakdown) ∨
    ∃ outcome : Bool → Bool → Level → Outcome,
      (∀ arguments trace quiet level unseeded,
        options.read {} arguments = .ok { s with trace, quiet, level := some level } →
        run platform arguments files unseeded = .ok (outcome trace quiet level)) ∧
      (∃ exit, ∀ trace quiet level, (outcome trace quiet level).exit = exit) ∧
      (∀ trace level, ∃ before after,
        (outcome trace false level).stdout = before ++ (outcome trace true level).stdout ++ after) ∧
      (∀ program notes e budget unseeded, input.program files = .ok (program, notes) → s.disassemble = false →
        { s with trace := true }.Starts platform unseeded program e → s.budget = some budget → ∀ quiet level,
        let ran := (e.feed budget (Emulator.numbers keys)).2
        ∃ before after, (outcome false quiet level).stdout = before ++ (ran.screenText ++ "\n" ++ after) ∧
          (outcome true quiet level).stdout = before ++ ran.traceReport ++ (ran.screenText ++ "\n" ++ after)) ∧
      ((∃ fault, input.program files = .error fault) ∨ s.disassemble = true ∨ s.NoCells → ∀ quiet level,
        (outcome true quiet level).stdout = (outcome false quiet level).stdout) ∧
      (∀ trace quiet level, (outcome trace quiet level).stdout = (outcome trace quiet .debug).stdout) ∧
      ∃ records : List Note, ∀ trace quiet,
        (outcome trace quiet .debug).stderr = textOfLines (records.map noteLine) ∧
        ∀ level, (outcome trace quiet level).stderr =
          textOfLines ((records.filter fun note => level.rank ≤ note.level.rank).map noteLine) := by
  let p : Plan := ⟨s, input, .debug, keys⟩
  have hrun {arguments : List String} {trace quiet : Bool} {level : Level} (unseeded : RandomSource)
      (hread : options.read {} arguments = .ok { s with trace, quiet, level := some level }) :
      run platform arguments files unseeded =
        ((p.withOutput true false .debug).ending platform files (.cycle [])).map fun ending =>
          ⟨ending.exit, ending.stdout p.input trace quiet, textOfLines (noteLines level ending.notes)⟩ := by
    rw [run_of_plan hread hinput rfl hkeys hlist]
    exact Plan.outcome_withOutput (p := p) hrate hseed files unseeded (.cycle [])
  have hbreaks {breakdown : Breakdown}
      (hending : (p.withOutput true false .debug).ending platform files (.cycle []) = .error breakdown)
      (arguments : List String) (trace quiet : Bool) (level : Level) (unseeded : RandomSource)
      (hread : options.read {} arguments = .ok { s with trace, quiet, level := some level }) :
      run platform arguments files unseeded = .error breakdown := by
    rw [hrun unseeded hread, hending]
    rfl
  rcases (p.withOutput true false .debug).ending_cases platform hrate files (.cycle []) with
    ⟨setting, hlacks, hending⟩ | ⟨hlarge, fault, hending⟩ | ⟨-, ending, hending, -⟩
  · have hlacks : s.Lacks setting := by
      have hlacks := Settings.lacks_of_firstLacking? hlacks
      cases setting with
      | level => cases hlacks
      | keys | seed | width | height | rate | budget => exact hlacks
    exact .inl ⟨_, .inl ⟨setting, hlacks, rfl⟩, hbreaks hending⟩
  · exact .inl ⟨_, .inr ⟨hlarge, fault, rfl⟩, hbreaks hending⟩
  · refine .inr ⟨fun trace quiet level =>
        ⟨ending.exit, ending.stdout input trace quiet, textOfLines (noteLines level ending.notes)⟩,
      fun arguments trace quiet level unseeded hread => ?_, ⟨ending.exit, fun _ _ _ => rfl⟩, fun trace level => ?_,
      fun program notes e budget unseeded hp hd hs hb quiet level => ?_, fun hnone quiet level => ?_, fun _ _ _ => rfl,
      ending.notes, fun trace quiet => ⟨?_, fun level => rfl⟩⟩
    · rw [hrun unseeded hread, hending]
      rfl
    · exact ⟨_, _, ending.stdout_quiet input trace⟩
    · have hran : (p.withOutput true false .debug).ending platform files unseeded = .ok _ :=
        Plan.ending_of_starts hrate hp hd hs hb
      rw [Plan.ending_shown hseed files unseeded (.cycle []), hending] at hran
      obtain rfl := Except.ok.inj hran
      refine ⟨_, _, (Ending.stdout_ran _ _ _ _ input false quiet).trans ?_, Ending.stdout_ran _ _ _ _ input true quiet⟩
      rw [if_neg Bool.false_ne_true, String.append_empty]
      rfl
    · have hreport := Plan.report_without_screen hrate hending hnone
      show ending.stdout input true quiet = ending.stdout input false quiet
      rw [Ending.stdout, Ending.stdout, hreport, ite_self, ite_self]
    · exact congrArg textOfLines (noteLines_debug ending.notes)

/-- The option of the level is left without a value; the run breaks off, although it would list the program. -/
theorem run_without_level :
    let arguments (level : String) := ["--hex", "6005", "--seed", "1", "--disasm", "--log-level=" ++ level]
    ∃ s : Settings, options.read {} (arguments "DEBUG") = .ok { s with level := some .debug } ∧
      options.read {} (arguments "--") = .ok { s with level := none } ∧ s.input? = some (.listing "6005") ∧
      s.rate = some 0 ∧ s.seed ≠ none ∧ (∃ text, s.keys = some text ∧ Keypad.readList text.toList = .ok []) ∧
      (run .vast (arguments "DEBUG") (fun _ => .missing) (.cycle [])).map Outcome.exit = .ok 0 ∧
      run .vast (arguments "--") (fun _ => .missing) (.cycle []) = .error (.unset .level) := by
  refine ⟨{ listing := some "6005", seed := some (some 1), disassemble := true }, ?_, ?_, rfl, rfl, by simp,
    ⟨"", rfl, by decide +kernel⟩, ?_, ?_⟩
  · decide +kernel
  · decide +kernel
  · decide +kernel
  · decide +kernel

/-- One step of a program, with and without a trace. -/
theorem output_options_one_step :
    let arguments := ["--hex", "6005", "--seed", "1", "--cycles", "1"]
    ∃ outcome traced before report after, run .vast arguments (fun _ => .missing) (.cycle []) = .ok outcome ∧
      run .vast ("--trace" :: arguments) (fun _ => .missing) (.cycle []) = .ok traced ∧ traced.exit = outcome.exit ∧
      outcome.stdout = before ++ after ∧ traced.stdout = before ++ report ++ after := by
  intro arguments
  let s : Settings := { listing := some "6005", seed := some (some 1), budget := some 1 }
  have hread : options.read {} arguments = .ok s := by decide +kernel
  have htraced : options.read {} ("--trace" :: arguments) = .ok { s with trace := true } := by decide +kernel
  have hlist : Keypad.readList "".toList = .ok [] := by decide +kernel
  have hprogram : (Input.listing "6005").program (fun _ => .missing) = .ok ([0x60, 0x05], []) := by
    have hlisting : HexListing.parse "6005".toList = .ok [0x60, 0x05] := by decide +kernel
    rw [Input.program, hlisting]
  obtain ⟨e, he⟩ := Emulator.exists_start .vast [0x60, 0x05] 64 32 (.ofSeed 1) true
    (by decide) (by decide) (by decide) (by decide)
  have hstarts : { s with trace := true }.Starts .vast (.cycle []) [0x60, 0x05] e :=
    ⟨64, 32, .ofSeed 1, rfl, rfl, rfl, he⟩
  rcases output_options (s := s) rfl rfl hlist rfl (by simp [s]) (fun _ => .missing) with
    ⟨breakdown, -, hbroken⟩ | ⟨outcome, hrun, ⟨exit, hexit⟩, -, htrace, -⟩
  · have hends := hbroken ("--trace" :: arguments) true false .warning (.cycle []) htraced
    let p : Plan := ⟨{ s with trace := true }, .listing "6005", .warning, []⟩
    have hran : p.ending .vast (fun _ => .missing) (.cycle []) = .ok _ :=
      Plan.ending_of_starts rfl hprogram rfl hstarts rfl
    rw [run_of_plan htraced rfl rfl rfl hlist, p.outcome_eq, hran] at hends
    cases hends
  · obtain ⟨before, after, huntold, htold⟩ := htrace _ _ e 1 (.cycle []) hprogram rfl hstarts rfl false .warning
    exact ⟨_, _, before, _, _, hrun arguments false false .warning (.cycle []) hread,
      hrun ("--trace" :: arguments) true false .warning (.cycle []) htraced, (hexit ..).trans (hexit ..).symm, huntold,
      htold⟩

end CommandLine

end ChipEight
