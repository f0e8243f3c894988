import ChipEight.Proofs.Coupling
import ChipEight.Proofs.TraceHistory

/-!
# Tracing changes nothing

A host may turn tracing on and off between any two controls. The emulator goes its way as if it never traced, and what
it remembers is cut out of the trace that it would have kept by tracing all the time.

- `Emulator.plain` is an emulator without its trace; it commutes with steps, events and controls (`plain_step`,
  `plain_afterAll`, `perform_congr`);
- `Emulator.course` is how an emulator goes through some `Directive`s, answer by answer; it depends on what is plain
  only (`course_congr`), and so do the steps that it makes (`stepsUnder_congr`);
- `trace_obeyAll`: the trace has an entry for each step that fetched while tracing was on;
- `tracing_transparent`: the main statement.
-/

namespace ChipEight

variable {e e' : Emulator}

/-- What a host tells an emulator: to use a control, or to trace from now on or no longer. -/
inductive Directive where
  | use (control : Control)
  | setTracing (tracing : Bool)

/-- Whether a directive is to use a control. -/
def Directive.isUse : Directive → Bool
  | use _ => true
  | setTracing _ => false

namespace Emulator

/-- The emulator without its trace, and no longer tracing. -/
def plain (e : Emulator) : Emulator :=
  { e with tracing := false, trace := #[] }

/-- Does what a directive says. -/
def obey (e : Emulator) : Directive → Emulator
  | .use control => (e.perform control).2
  | .setTracing tracing => { e with tracing }

/-- Does what some directives say, one after the other. -/
def obeyAll (e : Emulator) (directives : List Directive) : Emulator :=
  directives.foldl obey e

/-- The answers to the controls among the directives, each with the emulator after it. -/
def course (e : Emulator) : List Directive → List (Answer × Emulator)
  | [] => []
  | .use control :: rest => e.perform control :: (e.perform control).2.course rest
  | .setTracing tracing :: rest => { e with tracing }.course rest

/-- The emulators that the steps under the directives start from, oldest first. -/
def stepsUnder (e : Emulator) : List Directive → List Emulator
  | [] => []
  | .use control :: rest => e.moments (e.eventsOf control) ++ (e.perform control).2.stepsUnder rest
  | .setTracing tracing :: rest => { e with tracing }.stepsUnder rest

/-! ## What is plain goes its own way -/

@[simp] theorem machine_plain (e : Emulator) : e.plain.machine = e.machine := rfl

theorem machine_eq_of_plain_eq (h : e'.plain = e.plain) : e'.machine = e.machine := by
  rw [← machine_plain, h, machine_plain]

/-- A step does the same to an emulator that has no trace. -/
theorem plain_step (e : Emulator) : e.step.2.plain = e.plain.step.2 := by
  rw [step_eq, step_eq, machine_plain]
  cases e.machine.upcoming? <;> rfl

theorem plain_after (e : Emulator) (event : Event) : (e.after event).plain = e.plain.after event := by
  cases event with
  | step => exact e.plain_step
  | press key => rw [after_press, after_press]; rfl
  | release key => rw [after_release, after_release]; rfl

/-- **Events do the same to an emulator that has no trace.** -/
theorem plain_afterAll (e : Emulator) (events : List Event) : (e.afterAll events).plain = e.plain.afterAll events := by
  induction events generalizing e with
  | nil => rfl
  | cons event events ih => rw [afterAll_cons, afterAll_cons, ih, plain_after]

theorem map_plain_moments (e : Emulator) (events : List Event) :
    (e.moments events).map plain = e.plain.moments events := by
  induction events generalizing e with
  | nil => rfl
  | cons event events ih =>
    rw [moments, moments, List.map_append, ih, plain_after]
    split <;> rfl

/-- Two equal machines stay equal. -/
theorem eq_coupling : Machine.Coupling [] fun _ m m' => m' = m where
  aligned h := h ▸ ⟨rfl, rfl, rfl, rfl, rfl⟩
  tick h := congrArg Machine.tick h
  effect h he := ⟨_, h ▸ he, rfl⟩
  settled _ h := h ▸ rfl
  setRegister _ _ h := h ▸ rfl
  setKey _ _ h := h ▸ rfl
  setKeyWait _ h := h ▸ rfl

/-- A control comes down to the same events on equal machines. -/
theorem eventsOf_congr (h : e'.machine = e.machine) (control : Control) : e'.eventsOf control = e.eventsOf control :=
  (eq_coupling.eventsOf (k := 0) h).1

/-- **A control has the same answer and does the same** to emulators that differ in their traces only. -/
theorem perform_congr (h : e'.plain = e.plain) (control : Control) :
    (e'.perform control).1 = (e.perform control).1 ∧ (e'.perform control).2.plain = (e.perform control).2.plain := by
  have hmachine := machine_eq_of_plain_eq h
  refine ⟨(eq_coupling.eventsOf (k := 0) hmachine).2, ?_⟩
  rw [perform_eq, perform_eq, plain_afterAll, plain_afterAll, h, eventsOf_congr hmachine]

/-- The courses of emulators that differ in their traces only, one of them never told about tracing. -/
theorem course_congr (h : e'.plain = e.plain) (directives : List Directive) :
    (e.course directives).map (fun x => (x.1, x.2.plain)) =
      (e'.course (directives.filter Directive.isUse)).map fun x => (x.1, x.2.plain) := by
  induction directives generalizing e e' with
  | nil => rfl
  | cons directive directives ih =>
    cases directive with
    | use control =>
      obtain ⟨hanswer, hafter⟩ := perform_congr h control
      rw [List.filter_cons_of_pos rfl, course, course, List.map_cons, List.map_cons, hanswer, hafter, ih hafter]
    | setTracing tracing =>
      rw [List.filter_cons_of_neg Bool.false_ne_true, course]
      exact ih h

theorem stepsUnder_congr (h : e'.plain = e.plain) (directives : List Directive) :
    (e.stepsUnder directives).map plain = (e'.stepsUnder (directives.filter Directive.isUse)).map plain := by
  induction directives generalizing e e' with
  | nil => rfl
  | cons directive directives ih =>
    cases directive with
    | use control =>
      rw [List.filter_cons_of_pos rfl, stepsUnder, stepsUnder, List.map_append, List.map_append, map_plain_moments,
        map_plain_moments, h, eventsOf_congr (machine_eq_of_plain_eq h), ih (perform_congr h control).2]
    | setTracing tracing =>
      rw [List.filter_cons_of_neg Bool.false_ne_true, stepsUnder]
      exact ih h

/-! ## What is remembered -/

/-- Without tracing the trace stays as it is. -/
theorem trace_kept (trace : Array TraceEntry) : Kept fun e => e.tracing = false ∧ e.trace = trace := by
  rintro e event ⟨htracing, htrace⟩
  refine ⟨tracing_kept false e event htracing, ?_⟩
  cases event with
  | press key => rw [after_press]; exact htrace
  | release key => rw [after_release]; exact htrace
  | step =>
    rw [after_step]
    by_cases hw : e.machine.keyWait = .running
    · rw [step_running hw, record, become, if_neg (by simp [htracing])]
      exact htrace
    · rw [trace_step_not_running hw]
      exact htrace

/-- The trace grows by one entry for each step that fetches while tracing is on. -/
theorem trace_afterAll_tracing (e : Emulator) (events : List Event) : (e.afterAll events).trace.toList =
    e.trace.toList ++ (((e.moments events).filter fun moment => moment.machine.keyWait = .running).filter
      fun moment => moment.tracing).map entry := by
  have hmoments := (tracing_kept e.tracing).moments rfl events
  cases ht : e.tracing with
  | true =>
    have hall : ∀ moment ∈ (e.moments events).filter fun moment => moment.machine.keyWait = .running,
        moment.tracing = true := fun moment hm => (hmoments moment (List.mem_of_mem_filter hm)).trans ht
    rw [trace_afterAll ht, List.filter_eq_self.mpr hall]
  | false =>
    have hnone : ∀ moment ∈ (e.moments events).filter fun moment => moment.machine.keyWait = .running,
        ¬ moment.tracing = true := by
      intro moment hm
      rw [hmoments moment (List.mem_of_mem_filter hm), ht]
      exact Bool.false_ne_true
    obtain ⟨-, htrace⟩ := (trace_kept e.trace).afterAll ⟨ht, rfl⟩ events
    rw [htrace, List.filter_eq_nil_iff.mpr hnone, List.map_nil, List.append_nil]

/-- **The trace under directives** has an entry for each step that fetched while tracing was on. -/
theorem trace_obeyAll (e : Emulator) (directives : List Directive) : (e.obeyAll directives).trace.toList =
    e.trace.toList ++ (((e.stepsUnder directives).filter fun moment => moment.machine.keyWait = .running).filter
      fun moment => moment.tracing).map entry := by
  induction directives generalizing e with
  | nil => exact (List.append_nil _).symm
  | cons directive directives ih =>
    have hrest := ih (e.obey directive)
    cases directive with
    | use control =>
      rw [stepsUnder, List.filter_append, List.filter_append, List.map_append, ← List.append_assoc,
        ← trace_afterAll_tracing, ← perform_eq]
      exact hrest
    | setTracing tracing => exact hrest

/-- Tracing stays on or off as long as no directive is about it. -/
theorem tracing_stepsUnder {tracing : Bool} (ht : e.tracing = tracing) {directives : List Directive}
    (hd : ∀ directive ∈ directives, directive.isUse = true) :
    ∀ moment ∈ e.stepsUnder directives, moment.tracing = tracing := by
  induction directives generalizing e with
  | nil => exact fun _ hm => (List.not_mem_nil hm).elim
  | cons directive directives ih =>
    obtain ⟨huse, hrest⟩ := List.forall_mem_cons.mp hd
    cases directive with
    | setTracing _ => cases huse
    | use control =>
      intro moment hm
      rcases List.mem_append.mp hm with hm | hm
      · exact (tracing_kept tracing).moments ht _ moment hm
      · exact ih ((tracing_kept tracing).perform ht control) hrest moment hm

/-- **Tracing is transparent.** With tracing turned on and off between any controls, answers and emulators are those of
a run that never traces, but for the trace; that one has the steps made while tracing was on. -/
theorem tracing_transparent (e : Emulator) (directives : List Directive) :
    let uses := directives.filter Directive.isUse
    let never := { e with tracing := false }
    let always := { e with tracing := true }
    let fetching := (e.stepsUnder directives).filter fun moment => moment.machine.keyWait = .running
    (e.course directives).map (fun x => (x.1, x.2.plain)) = (never.course uses).map (fun x => (x.1, x.2.plain)) ∧
    (never.obeyAll uses).trace = e.trace ∧
    (always.obeyAll uses).trace.toList = e.trace.toList ++ fetching.map entry ∧
    (e.obeyAll directives).trace.toList =
      e.trace.toList ++ (fetching.filter fun moment => moment.tracing).map entry := by
  intro uses never always fetching
  have hnever : never.plain = e.plain := rfl
  have halways : always.plain = e.plain := rfl
  have huses : ∀ directive ∈ uses, directive.isUse = true := fun directive hd => List.of_mem_filter hd
  refine ⟨course_congr hnever directives, ?_, ?_, trace_obeyAll e directives⟩
  · have hoff := tracing_stepsUnder (e := never) rfl huses
    have hnone : ∀ moment ∈ (never.stepsUnder uses).filter fun moment => moment.machine.keyWait = .running,
        ¬ moment.tracing = true := by
      intro moment hm
      rw [hoff moment (List.mem_of_mem_filter hm)]
      exact Bool.false_ne_true
    rw [← Array.toList_inj, trace_obeyAll, List.filter_eq_nil_iff.mpr hnone, List.map_nil, List.append_nil]
  · have hon := tracing_stepsUnder (e := always) rfl huses
    have hall : ∀ moment ∈ (always.stepsUnder uses).filter fun moment => moment.machine.keyWait = .running,
        moment.tracing = true := fun moment hm => hon moment (List.mem_of_mem_filter hm)
    have hentries (steps : List Emulator) : (steps.filter fun moment => moment.machine.keyWait = .running).map entry =
        ((steps.map plain).filter fun moment => moment.machine.keyWait = .running).map entry := by
      rw [List.filter_map, List.map_map]
      rfl
    rw [trace_obeyAll, List.filter_eq_self.mpr hall, hentries, ← stepsUnder_congr halways, ← hentries]

end Emulator

end ChipEight
