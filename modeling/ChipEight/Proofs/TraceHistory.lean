import Mathlib.Data.List.Forall2
import ChipEight.Emulator.Report
import ChipEight.Proofs.KeyWait
import ChipEight.Proofs.Timers

/-!
# The trace as a history

An emulator that is tracing remembers every instruction that it fetched, with the states before and after it.

- `Emulator.fetches` are the steps of a run that fetch, with their numbers; `trace_afterAll` and `trace_performAll`: the
  trace has one entry for each of them, by induction on the events;
- `Emulator.Tallies`: the count of cycles and the last error can be told from the trace; it is kept by every event;
- `follows_idle`, `idle_running` and `idle_waiting`: what can happen while nothing is fetched; `fetches_chain`: what one
  instruction leaves, the next one finds;
- `trace_faithful`: the main statement.
-/

namespace ChipEight

variable {m : Machine} {r : Register} {e : Emulator} {events : List Event}

/-- Whether an entry counts as a cycle: its word has a meaning, and nothing went wrong. -/
def TraceEntry.counts (entry : TraceEntry) : Bool :=
  entry.instruction.valid && entry.mishap.isNone

/-- An entry records a step: the instruction that it fetched, the states before and after it, and whether anything went
wrong. -/
structure TraceEntry.Records (entry : TraceEntry) (moment : Emulator) : Prop where
  instruction : entry.instruction = moment.machine.fetch
  states : entry.states = (moment.machine.tick.snapshot, moment.step.2.machine.snapshot)
  mishap : entry.mishap = none ↔ entry.instruction.valid = true ∧ ∃ changed, moment.step.1 = .ok changed

/-- A state that an instruction found follows the state that the last one left, so many steps before. -/
structure Snapshot.Follows (found left : Snapshot) (steps : Nat) : Prop where
  pc : found.pc = left.pc
  index : found.index = left.index
  stack : found.stack = left.stack
  cycles : found.cycles = left.cycles
  delay : found.delay = max 0 (left.delay - steps)
  sound : found.sound = max 0 (left.sound - steps)

/-- The register that a key is awaited for, or stored in by the next step. -/
def KeyWait.target? : KeyWait → Option Register
  | .running => none
  | .awaiting r => some r
  | .pending r _ => some r

namespace Emulator

/-- What a trace remembers of the next step if it fetches. -/
def entry (e : Emulator) : TraceEntry :=
  entryOf e.machine.tick e.machine.step.machine e.machine.fetch e.machine.step.fault

/-- The steps among the events that fetch, with their numbers among all steps. -/
def fetches (e : Emulator) (events : List Event) : List (Emulator × Nat) :=
  (e.moments events).zipIdx.filter fun (moment, _) => moment.machine.keyWait = .running

end Emulator

/-! ## Lists -/

/-- Two elements that a filter leaves one after the other, with their numbers: it leaves nothing in between. -/
theorem filter_zipIdx_consecutive {α : Type} {P : α → Prop} [DecidablePred P] {l : List α}
    {earlier later : List (α × Nat)} {a b : α} {p q : Nat}
    (h : l.zipIdx.filter (fun x => P x.1) = earlier ++ (a, p) :: (b, q) :: later) : ∃ before between after,
      l = before ++ a :: (between ++ b :: after) ∧ before.length = p ∧ p + 1 + between.length = q ∧
      P a ∧ P b ∧ ∀ x ∈ between, ¬ P x := by
  obtain ⟨_, kept, hl, -, hkept⟩ := List.filter_eq_append_iff.mp h
  obtain ⟨_, _, rfl, -, ha, hrest⟩ := List.filter_eq_cons_iff.mp hkept
  obtain ⟨_, _, rfl, hbetween, hb, -⟩ := List.filter_eq_cons_iff.mp hrest
  obtain ⟨u, _, rfl, rfl, hu⟩ := List.zipIdx_eq_append_iff.mp hl
  obtain ⟨v, _, rfl, rfl, hv⟩ := List.zipIdx_eq_append_iff.mp hu.symm
  obtain ⟨_, _, rfl, hap, hw⟩ := List.zipIdx_eq_cons_iff.mp hv.symm
  obtain ⟨between, _, rfl, rfl, hz⟩ := List.zipIdx_eq_append_iff.mp hw.symm
  obtain ⟨_, after, rfl, hbq, -⟩ := List.zipIdx_eq_cons_iff.mp hz.symm
  cases hap
  cases hbq
  refine ⟨u ++ v, between, after, (List.append_assoc ..).symm, ?_, ?_, of_decide_eq_true ha, of_decide_eq_true hb, ?_⟩
  · rw [List.length_append, Nat.zero_add]
  · rfl
  · intro x hx
    rw [← List.zipIdx_map_fst (0 + u.length + v.length + 1) between] at hx
    obtain ⟨numbered, hnumbered, rfl⟩ := List.mem_map.mp hx
    exact fun hP => hbetween numbered hnumbered (decide_eq_true hP)

/-- Two images one after the other are those of two elements one after the other, at the same places. -/
theorem map_consecutive {α β : Type} {f : α → β} {l : List α} {earlier later : List β} {b c : β}
    (h : l.map f = earlier ++ b :: c :: later) : ∃ before x y after, l = before ++ x :: y :: after ∧
      f x = b ∧ f y = c ∧ l[earlier.length]? = some x ∧ l[earlier.length + 1]? = some y := by
  obtain ⟨before, _, rfl, rfl, hrest⟩ := List.map_eq_append_iff.mp h
  obtain ⟨x, _, rfl, rfl, hnext⟩ := List.map_eq_cons_iff.mp hrest
  obtain ⟨y, after, rfl, rfl, -⟩ := List.map_eq_cons_iff.mp hnext
  refine ⟨before, x, y, after, rfl, rfl, rfl, ?_, ?_⟩
  · rw [List.length_map, List.getElem?_append_right (Nat.le_refl _), Nat.sub_self]
    rfl
  · rw [List.length_map, List.getElem?_append_right (Nat.le_add_right _ 1), Nat.add_sub_cancel_left]
    rfl

/-! ## Steps -/

namespace Emulator

theorem mishap_entry_eq_none : e.entry.mishap = none ↔
    e.machine.fetch.valid = true ∧ e.machine.step.fault = none := by
  unfold entry entryOf badWord?
  cases e.machine.fetch.valid <;> cases e.machine.step.fault <;> simp

theorem step_ok_iff : (∃ changed, e.step.1 = .ok changed) ↔ e.machine.step.fault = none := by
  rw [step_answer]
  cases e.machine.step.fault <;> simp

theorem records_entry (e : Emulator) : e.entry.Records e where
  instruction := rfl
  states := by rw [machine_step]; rfl
  mishap := by rw [step_ok_iff, mishap_entry_eq_none]; rfl

theorem counts_entry : e.entry.counts = true ↔ e.machine.fetch.valid = true ∧ e.machine.step.fault = none := by
  rw [← mishap_entry_eq_none, TraceEntry.counts, Bool.and_eq_true, Option.isNone_iff_eq_none, mishap_entry_eq_none]
  exact ⟨fun h => h.2, fun h => ⟨h.1, h⟩⟩

/-- A step that fetches counts as its entry does. -/
theorem cycles_step (h : e.machine.keyWait = .running) :
    e.machine.step.machine.cycles = e.machine.cycles + if e.entry.counts then 1 else 0 := by
  have hcounts : e.entry.counts = true ↔ e.machine.fetch.valid = true ∧ e.machine.step.fault = none := counts_entry
  have hc := e.machine.stepCase
  generalize e.machine.step = outcome at hc hcounts
  cases hc with
  | stored r k hw => rw [h] at hw; cases hw
  | waited r hw => rw [h] at hw; cases hw
  | faulted fault _ _ =>
    rw [if_neg fun hn => nomatch (hcounts.mp hn).2]
    exact (Int.add_zero _).symm
  | executed m' notes _ hx =>
    obtain ⟨n, hn, rfl⟩ := execute_eq_ok hx
    have hframe : n.cycles = e.machine.cycles := (effect_frame hn).cycles
    cases hv : e.machine.fetch.valid with
    | true => rw [if_pos (hcounts.mpr ⟨hv, rfl⟩), if_pos rfl, hframe]
    | false =>
      have hnot : ¬ e.entry.counts = true := fun hn => Bool.false_ne_true (hv.symm.trans (hcounts.mp hn).1)
      rw [if_neg hnot, if_neg Bool.false_ne_true, hframe, Int.add_zero]

/-! ## The trace of a run -/

theorem trace_step (ht : e.tracing = true) (h : e.machine.keyWait = .running) :
    e.step.2.trace.toList = e.trace.toList ++ [e.entry] := by
  have htrace : e.step.2.trace = if e.tracing then e.trace.push e.entry else e.trace := by
    rw [step_running h]
    rfl
  rw [htrace, if_pos ht, Array.toList_push]

theorem trace_step_not_running (h : e.machine.keyWait ≠ .running) : e.step.2.trace = e.trace := by
  rw [step_not_running h]
  rfl

theorem tracing_kept (tracing : Bool) : Kept fun e => e.tracing = tracing := by
  intro e event h
  cases event with
  | press key => rw [after_press]; exact h
  | release key => rw [after_release]; exact h
  | step =>
    rw [after_step]
    by_cases hw : e.machine.keyWait = .running
    · rw [step_running hw]
      exact h
    · rw [step_not_running hw]
      exact h

/-- **The trace grows by one entry for each step that fetches.** -/
theorem trace_afterAll (ht : e.tracing = true) (events : List Event) : (e.afterAll events).trace.toList =
    e.trace.toList ++ ((e.moments events).filter fun moment => moment.machine.keyWait = .running).map entry := by
  induction events generalizing e with
  | nil => exact (List.append_nil _).symm
  | cons event events ih =>
    cases event with
    | press key =>
      rw [afterAll_cons, after_press, moments_press]
      exact ih ht
    | release key =>
      rw [afterAll_cons, after_release, moments_release]
      exact ih ht
    | step =>
      have htstep : e.step.2.tracing = true := tracing_kept true e .step ht
      rw [afterAll_cons, after_step, moments_step, ih htstep]
      by_cases hw : e.machine.keyWait = .running
      · rw [trace_step ht hw, List.filter_cons, if_pos (decide_eq_true hw), List.map_cons, List.append_assoc,
          List.singleton_append]
      · rw [trace_step_not_running hw, List.filter_cons, if_neg (by simpa using hw)]

/-- The trace of an emulator that starts tracing with an empty one. -/
theorem trace_of_empty (ht : e.tracing = true) (hempty : e.trace = #[]) (events : List Event) :
    (e.afterAll events).trace.toList =
      ((e.moments events).filter fun moment => moment.machine.keyWait = .running).map entry := by
  rw [trace_afterAll ht, hempty]
  rfl

theorem map_entry_fetches (e : Emulator) (events : List Event) : (e.fetches events).map (fun fetch => fetch.1.entry) =
    ((e.moments events).filter fun moment => moment.machine.keyWait = .running).map entry := by
  rw [← List.zipIdx_map_fst 0 (e.moments events), List.filter_map, List.map_map]
  rfl

/-- The trace from the start on. -/
theorem trace_performAll {platform : Platform} {program : List UInt8} {width height : Int} {random : RandomSource}
    (h : Emulator.start platform program width height random true = .ok e) (controls : List Control) :
    (e.performAll controls).trace.toList = (e.fetches (e.eventsOfAll controls)).map fun fetch => fetch.1.entry := by
  obtain ⟨_, _, he⟩ := start_eq h
  rw [performAll_eq, trace_of_empty (by rw [he]) (by rw [he]), map_entry_fetches]

/-! ## Tallies -/

/-- The count of cycles, the count in every entry and the last error can be told from the trace. -/
structure Tallies (e : Emulator) : Prop where
  tracing : e.tracing = true
  cycles : e.machine.cycles = e.trace.toList.countP TraceEntry.counts
  cycle : ∀ earlier entry later, e.trace.toList = earlier ++ entry :: later →
    entry.cycle = (earlier ++ [entry]).countP TraceEntry.counts
  lastError : e.lastErrorText = (e.trace.toList.filter fun entry => !entry.instruction.valid).getLast?.bind
    fun entry => entry.mishap.map Mishap.message

theorem tallies_start {platform : Platform} {program : List UInt8} {width height : Int} {random : RandomSource}
    (h : Emulator.start platform program width height random true = .ok e) : e.Tallies := by
  obtain ⟨_, _, rfl⟩ := start_eq h
  exact ⟨rfl, rfl, fun earlier entry later hsplit => by simp at hsplit, rfl⟩

/-- The last error is that of the last entry without a meaning. -/
theorem lastError_entry (hl : e.Tallies) (h : e.machine.keyWait = .running) :
    e.step.2.lastErrorText = (e.step.2.trace.toList.filter fun entry => !entry.instruction.valid).getLast?.bind
      fun entry => entry.mishap.map Mishap.message := by
  rw [trace_step hl.tracing h, List.filter_append, lastErrorText, lastError_step h]
  cases hv : e.machine.fetch.valid with
  | true =>
    have hentry : e.entry.instruction.valid = true := hv
    have hbad : badWord? e.machine.fetch e.machine.pc = none := by rw [badWord?, hv, if_pos rfl]
    rw [hbad, List.filter_cons_of_neg (by rw [hentry]; decide), List.filter_nil, List.append_nil]
    exact hl.lastError
  | false =>
    have hentry : e.entry.instruction.valid = false := hv
    have hbad : badWord? e.machine.fetch e.machine.pc = some ⟨e.machine.fetch.word, e.machine.pc⟩ := by
      rw [badWord?, hv, if_neg Bool.false_ne_true]
    have hmishap : e.entry.mishap = some (.badWord ⟨e.machine.fetch.word, e.machine.pc⟩) := by
      show ((badWord? e.machine.fetch e.machine.pc).map Mishap.badWord <|> _) = _
      rw [hbad]
      rfl
    rw [hbad, List.filter_cons_of_pos (by rw [hentry]; rfl), List.filter_nil, List.getLast?_concat,
      Option.bind_some, hmishap]
    rfl

/-- **Every event keeps the tallies.** -/
theorem tallies_kept : Kept Tallies := by
  intro e event h
  cases event with
  | press key =>
    rw [after_press]
    exact ⟨h.tracing, by rw [machine_press, Machine.keyDown_eq]; exact h.cycles, h.cycle, h.lastError⟩
  | release key =>
    rw [after_release]
    exact ⟨h.tracing, h.cycles, h.cycle, h.lastError⟩
  | step =>
    have ht : e.step.2.tracing = true := tracing_kept true e .step h.tracing
    rw [after_step]
    by_cases hw : e.machine.keyWait = .running
    · have hcycles : e.step.2.machine.cycles = e.step.2.trace.toList.countP TraceEntry.counts := by
        rw [machine_step, cycles_step hw, trace_step h.tracing hw, List.countP_append, List.countP_singleton, h.cycles]
        split <;> rfl
      refine ⟨ht, hcycles, fun earlier entry later hsplit => ?_, lastError_entry h hw⟩
      rw [trace_step h.tracing hw] at hsplit
      rcases List.eq_nil_or_concat later with rfl | ⟨later, last, rfl⟩
      · -- the new entry
        obtain ⟨rfl, hlast⟩ := List.append_inj' hsplit rfl
        obtain rfl : e.entry = entry := (List.cons.inj hlast).1
        rw [← trace_step h.tracing hw, ← hcycles, machine_step]
        rfl
      · rw [List.concat_eq_append, ← List.cons_append, ← List.append_assoc] at hsplit
        exact h.cycle earlier entry later (List.append_inj' hsplit rfl).1
    · have htrace := trace_step_not_running hw
      refine ⟨ht, ?_, ?_, ?_⟩
      · rw [machine_step, Machine.step_not_executed (Machine.executed?_of_not_running hw), htrace]
        exact h.cycles
      · rw [htrace]
        exact h.cycle
      · rw [htrace, step_not_running hw]
        exact h.lastError

end Emulator

/-! ## Between two entries -/

namespace Emulator

/-- While nothing is fetched, only registers, keys, the key wait, timers and the redraw flag change. -/
theorem machine_afterAll_idle (hn : ∀ moment ∈ e.moments events, moment.machine.keyWait ≠ .running) :
    let after := (e.afterAll events).machine
    after = { e.machine with
      registers := after.registers, keys := after.keys, keyWait := after.keyWait
      delay := after.delay, sound := after.sound, redraw := after.redraw } := by
  induction events generalizing e with
  | nil => rfl
  | cons event events ih =>
    cases event with
    | press key =>
      rw [moments_press] at hn
      have hrest := ih hn
      rw [machine_press, Machine.keyDown_eq] at hrest
      rw [afterAll_cons, after_press]
      exact hrest
    | release key =>
      rw [moments_release] at hn
      rw [afterAll_cons, after_release]
      exact ih hn
    | step =>
      rw [moments_step, List.forall_mem_cons] at hn
      have hrest := ih hn.2
      rw [machine_step, Machine.step_not_executed (Machine.executed?_of_not_running hn.1)] at hrest
      rw [afterAll_cons, after_step]
      exact hrest

theorem timer_idle (h : e.machine.Good) (hn : ∀ moment ∈ e.moments events, moment.machine.keyWait ≠ .running)
    (t : Timer) : (e.afterAll events).machine.tick.timer t =
      max 0 (e.machine.timer t - ((e.moments events).length + 1 : Nat)) := by
  have hgood := Machine.good_kept.emulator.afterAll h events
  have hsets : ∀ moment ∈ e.moments events, moment.machine.sets? t = none := by
    intro moment hm
    rw [Machine.sets?, Machine.executed?_of_not_running (hn moment hm), Option.bind_none]
  rw [Machine.timer_tick hgood, timer_afterAll h hsets, length_moments]
  omega

/-- The state that the next instruction finds follows one behind which nothing was fetched. -/
theorem follows_idle (h : e.machine.Good) (hn : ∀ moment ∈ e.moments events, moment.machine.keyWait ≠ .running) :
    (e.afterAll events).machine.tick.snapshot.Follows e.machine.snapshot ((e.moments events).length + 1) := by
  have hidle := machine_afterAll_idle hn
  constructor
  case pc => exact (congrArg Machine.pc hidle).trans rfl
  case index => exact (congrArg Machine.index hidle).trans rfl
  case stack => exact (congrArg Machine.stack hidle).trans rfl
  case cycles => exact (congrArg Machine.cycles hidle).trans rfl
  case delay => exact timer_idle h hn .delay
  case sound => exact timer_idle h hn .sound

/-- A machine that runs fetches in its next step, so that only keys can come in between. -/
theorem idle_running (hn : ∀ moment ∈ e.moments events, moment.machine.keyWait ≠ .running)
    (h : e.machine.keyWait = .running) :
    e.moments events = [] ∧ (e.afterAll events).machine.registers = e.machine.registers := by
  induction events generalizing e with
  | nil => exact ⟨rfl, rfl⟩
  | cons event events ih =>
    cases event with
    | press key =>
      have hk : (e.press key).machine = e.machine.setKey key true := by
        rw [machine_press, Machine.keyDown_other (by simp [h])]
      rw [moments_press] at hn ⊢
      obtain ⟨hnone, hsame⟩ := ih hn (by rw [hk]; exact h)
      rw [afterAll_cons, after_press, hsame, hk]
      exact ⟨hnone, rfl⟩
    | release key =>
      rw [moments_release] at hn ⊢
      rw [afterAll_cons, after_release]
      exact ih hn h
    | step => exact absurd h (hn e List.mem_cons_self)

theorem target?_press (e : Emulator) (key : Key) :
    (e.press key).machine.keyWait.target? = e.machine.keyWait.target? := by
  rw [machine_press]
  cases hw : e.machine.keyWait with
  | awaiting r => rw [Machine.keyDown_awaiting hw]; rfl
  | running | pending => rw [Machine.keyDown_other (by simp [hw])]; exact congrArg _ hw

/-- A wait that ended stored the key that was held ready in its last step. -/
theorem idle_waiting (hn : ∀ moment ∈ e.moments events, moment.machine.keyWait ≠ .running)
    (hend : (e.afterAll events).machine.keyWait = .running) (h : e.machine.keyWait.target? = some r) :
    ∃ commit key, (e.moments events).getLast? = some commit ∧ commit.machine.keyWait = .pending r key ∧
      (e.afterAll events).machine.registers = e.machine.registers.put r key.val := by
  induction events generalizing e with
  | nil =>
    rw [afterAll_nil] at hend
    rw [hend] at h
    cases h
  | cons event events ih =>
    cases event with
    | press key =>
      rw [moments_press] at hn ⊢
      rw [afterAll_cons, after_press] at hend ⊢
      obtain ⟨commit, key', hlast, hpending, hstored⟩ := ih hn hend (by rw [target?_press, h])
      refine ⟨commit, key', hlast, hpending, ?_⟩
      rw [hstored, machine_press, Machine.keyDown_eq]
      rfl
    | release key =>
      rw [moments_release] at hn ⊢
      rw [afterAll_cons, after_release] at hend ⊢
      exact ih hn hend h
    | step =>
      rw [moments_step, List.forall_mem_cons] at hn
      rw [afterAll_cons, after_step] at hend ⊢
      rw [moments_step, List.getLast?_cons]
      cases hw : e.machine.keyWait with
      | running => exact absurd hw hn.1
      | awaiting s =>
        rw [step_awaiting hw] at hn hend ⊢
        obtain ⟨commit, key, hlast, hpending, hstored⟩ := ih hn.2 hend h
        exact ⟨commit, key, by rw [hlast]; rfl, hpending, hstored⟩
      | pending s key =>
        rw [hw] at h
        obtain rfl : s = r := Option.some.inj h
        have hrun : e.step.2.machine.keyWait = .running := by rw [step_pending hw]
        obtain ⟨hnone, hsame⟩ := idle_running hn.2 hrun
        refine ⟨e, key, by rw [hnone]; rfl, hw, ?_⟩
        rw [hsame, step_pending hw]

/-- Two steps that fetch one after the other, and the events in between. -/
theorem exists_between {earlier later : List (Emulator × Nat)} {first second : Emulator} {p q : Nat}
    (h : e.fetches events = earlier ++ (first, p) :: (second, q) :: later) : ∃ before between after,
      e.moments events = before ++ first :: (first.step.2.moments between ++ second :: after) ∧
      before.length = p ∧ p + 1 + (first.step.2.moments between).length = q ∧
      first.machine.keyWait = .running ∧ second.machine.keyWait = .running ∧
      first.step.2.afterAll between = second ∧
      ∀ moment ∈ first.step.2.moments between, moment.machine.keyWait ≠ .running := by
  obtain ⟨before, waiting, after, hm, hp, hq, hfirst, hsecond, hwaiting⟩ :=
    filter_zipIdx_consecutive (P := fun moment : Emulator => moment.machine.keyWait = .running) h
  obtain ⟨_, rest, -, -, -, hrest⟩ := exists_split hm
  obtain ⟨between, _, -, rfl, hbetween, -⟩ := exists_split hrest
  exact ⟨before, between, after, hm, hp, hq, hfirst, hsecond, hbetween, hwaiting⟩

/-- Only the instruction that asks for a key begins a wait. -/
theorem running_step (h : e.machine.keyWait = .running) (hop : e.machine.fetch.op ≠ .awaitKey) :
    e.step.2.machine.keyWait = .running := by
  refine Decidable.byContradiction fun hne => ?_
  have hchange := e.keyWait_change .step (by rw [after_step, h]; exact hne)
  rcases hchange with ⟨-, -, hask, -⟩ | ⟨_, _, hpress, -⟩ | ⟨_, _, -, hw, -⟩
  · exact hop hask
  · cases hpress
  · rw [h] at hw
    cases hw

/-- **What one instruction leaves, the next one finds**: nothing has changed but the timers, and the register that got
its key if the first one asked for one. -/
theorem fetches_chain (hgood : e.machine.Good) {earlier later : List (Emulator × Nat)} {first second : Emulator}
    {p q : Nat} (h : e.fetches events = earlier ++ (first, p) :: (second, q) :: later) :
    second.machine.tick.snapshot.Follows first.step.2.machine.snapshot (q - p) ∧
    (first.machine.fetch.op ≠ .awaitKey → second.machine.registers = first.step.2.machine.registers) ∧
    (first.machine.fetch.op = .awaitKey → ∃ commit key, (e.moments events)[q - 1]? = some commit ∧
      commit.machine.keyWait = .pending first.machine.fetch.x key ∧
      second.machine.registers = first.step.2.machine.registers.put first.machine.fetch.x key.val) := by
  obtain ⟨before, between, after, hm, rfl, rfl, hfirst, hsecond, rfl, hidle⟩ := exists_between h
  have hnow : first.machine.Good := Machine.good_kept.emulator.moments hgood events first (by rw [hm]; simp)
  have hnext : first.step.2.machine.Good := Machine.good_kept.emulator first .step hnow
  refine ⟨?_, fun hop => ?_, fun hop => ?_⟩
  · rw [show before.length + 1 + (first.step.2.moments between).length - before.length =
      (first.step.2.moments between).length + 1 by omega]
    exact follows_idle hnext hidle
  · exact (idle_running hidle (running_step hfirst hop)).2
  · have hu : first.machine.upcoming? = some first.machine.fetch := by rw [Machine.upcoming?, hfirst]
    have htarget : first.step.2.machine.keyWait.target? = some first.machine.fetch.x := by
      rw [machine_step, (Machine.step_awaitKey hu hop).2.1]
      rfl
    obtain ⟨commit, key, hlast, hpending, hstored⟩ := idle_waiting hidle hsecond htarget
    refine ⟨commit, key, ?_, hpending, hstored⟩
    have hpos : 0 < (first.step.2.moments between).length := by
      refine List.length_pos_iff.mpr fun hnil => ?_
      rw [hnil] at hlast
      cases hlast
    rw [hm, List.getElem?_append_right (by omega), ← hlast, List.getLast?_eq_getElem?,
      show before.length + 1 + (first.step.2.moments between).length - 1 - before.length =
        (first.step.2.moments between).length - 1 + 1 by omega,
      List.getElem?_cons_succ, List.getElem?_append_left (by omega)]

end Emulator

/-- **The trace is a faithful history.** It has one entry for each step that fetches, and the state before an entry
follows the state behind the one before it; only the timers and an answered key come in between. -/
theorem trace_faithful {platform : Platform} {program : List UInt8} {width height : Int} {random : RandomSource}
    (h : Emulator.start platform program width height random true = .ok e) (controls : List Control) :
    let steps := e.moments (e.eventsOfAll controls)
    let fetches := e.fetches (e.eventsOfAll controls)
    let now := e.performAll controls
    let trace := now.trace.toList
    List.Forall₂ (fun entry fetch => entry.Records fetch.1) trace fetches ∧
    (∀ entry ∈ trace, ∃ found left, entry.states = (found, left) ∧
      entry.address = found.pc ∧ found.redraw = false ∧ found.keyWait = .running) ∧
    (now.machine.cycles = trace.countP TraceEntry.counts ∧
      ∀ earlier entry later, trace = earlier ++ entry :: later →
        entry.cycle = (earlier ++ [entry]).countP TraceEntry.counts) ∧
    (∀ earlier previous next later, trace = earlier ++ previous :: next :: later →
      ∃ first p second q, fetches[earlier.length]? = some (first, p) ∧
        fetches[earlier.length + 1]? = some (second, q) ∧
      ∃ before left found after, previous.states = (before, left) ∧ next.states = (found, after) ∧
        next.address = left.pc ∧ found.Follows left (q - p) ∧
        (previous.instruction.op ≠ .awaitKey → found.registers = left.registers) ∧
        (previous.instruction.op = .awaitKey → ∃ commit key, steps[q - 1]? = some commit ∧
          commit.machine.keyWait = .pending previous.instruction.x key ∧
          found.registers = left.registers.put previous.instruction.x key.val)) ∧
    now.lastErrorText = (trace.filter fun entry => !entry.instruction.valid).getLast?.bind
      fun entry => entry.mishap.map Mishap.message := by
  intro steps fetches now trace
  have htrace : trace = fetches.map fun fetch => fetch.1.entry := Emulator.trace_performAll h controls
  have htallies : now.Tallies := Emulator.tallies_kept.performAll (Emulator.tallies_start h) controls
  refine ⟨?_, fun entry hentry => ?_, ⟨htallies.cycles, htallies.cycle⟩, fun earlier previous next later hsplit => ?_,
    htallies.lastError⟩
  · rw [htrace, List.forall₂_map_left_iff, List.forall₂_same]
    exact fun fetch _ => fetch.1.records_entry
  · rw [htrace] at hentry
    obtain ⟨fetch, hfetch, rfl⟩ := List.mem_map.mp hentry
    have hrunning : fetch.1.machine.keyWait = .running := of_decide_eq_true (List.mem_filter.mp hfetch).2
    exact ⟨_, _, fetch.1.records_entry.states, rfl, rfl, hrunning⟩
  · rw [htrace] at hsplit
    obtain ⟨_, ⟨first, p⟩, ⟨second, q⟩, _, hfetches, rfl, rfl, hp, hq⟩ := map_consecutive hsplit
    obtain ⟨hfollows, hsame, hstored⟩ := Emulator.fetches_chain (Emulator.Reachable.start h).good hfetches
    exact ⟨first, p, second, q, hp, hq, _, _, _, _, first.records_entry.states, second.records_entry.states,
      hfollows.pc, hfollows, hsame, hstored⟩

/-- The entry of an instruction that asks for a key counts as the first cycle. -/
theorem trace_faithful_wait : ∃ e entry, Emulator.start .vast [0xF5, 0x0A] 64 32 (.cycle []) true = .ok e ∧
    (e.performAll [.step]).trace.toList = [entry] ∧ entry.instruction = .decode 0xF50A ∧ entry.cycle = 1 := by
  obtain ⟨e, h⟩ := Emulator.exists_start .vast [0xF5, 0x0A] 64 32 (.cycle []) true
    (by decide) (by decide) (by decide) (by decide)
  obtain ⟨_, _, he⟩ := Emulator.start_eq h
  have hw : e.machine.keyWait = .running := by rw [he]; rfl
  have hf : e.machine.fetch = .decode 0xF50A := by rw [he]; exact Emulator.fetch_boot ..
  have hfetches : e.fetches (e.eventsOfAll [.step]) = [(e, 0)] := List.filter_cons_of_pos (decide_eq_true hw)
  obtain ⟨hrecords, -, ⟨-, hcycle⟩, -⟩ := trace_faithful h [.step]
  rw [hfetches] at hrecords
  obtain ⟨entry, _, hentry, hrest, htrace⟩ := List.forall₂_cons_right_iff.mp hrecords
  obtain rfl := List.forall₂_nil_right_iff.mp hrest
  have hcounts : entry.counts = true := by
    have hu : e.machine.upcoming? = some (.decode 0xF50A) := by rw [Machine.upcoming?, hw, ← hf]
    have hok := Emulator.step_ok_iff.mpr (Machine.step_awaitKey hu (by decide)).2.2.2
    have hvalid : entry.instruction.valid = true := by rw [hentry.instruction, hf]; decide
    rw [TraceEntry.counts, hvalid, hentry.mishap.mpr ⟨hvalid, hok⟩]
    rfl
  refine ⟨e, entry, h, htrace, hentry.instruction.trans hf, ?_⟩
  rw [hcycle [] entry [] htrace, List.nil_append, List.countP_singleton, if_pos hcounts]
  rfl

end ChipEight
