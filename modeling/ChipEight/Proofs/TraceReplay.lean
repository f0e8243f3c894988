import Mathlib.Logic.Function.Basic
import ChipEight.Proofs.StackFaults
import ChipEight.Proofs.TraceHistory
import ChipEight.Proofs.TraceReport

/-!
# Replaying a trace

The changes that the report on a trace tells can be carried out one after the other on registers that hold nothing but
zeros, and lead to the present registers.

- `Report.replay?` reads a report and carries out what it tells; a change whose old value is not there is refused;
- `foldlM_changes`: the changes between two states lead from the one to the other, by induction on the places;
- `Emulator.plain_entry` and `Emulator.at_of_mishap`: entries of instructions that went wrong;
- `Emulator.Replays`: the changes of the trace lead to the present values; it is kept by keys, by steps that store no
  key, and so by runs of these (`Replays.step`, `Replays.afterAll`);
- `trace_replays`: the main statement.
-/

namespace ChipEight

variable {before after : Snapshot} {e : Emulator} {platform : Platform} {program : List UInt8} {width height : Int}
  {random : RandomSource}

/-! ## Carrying out changes -/

namespace Place

theorem mem_all (place : Place) : place ∈ all := by
  cases place with
  | index => decide
  | register r =>
    revert r
    decide

theorem nodup_all : all.Nodup := by
  decide

end Place

namespace Report

/-- Carries out a change, if its old value is the one that is there. -/
def carryOut (values : Place → Int) (c : Change) : Option (Place → Int) :=
  if values c.place = c.old then some (Function.update values c.place c.new) else none

/-- Carries out on nothing but zeros what a text tells on changes; none if it cannot be read, or if an old value is not
the one that is there. -/
def replay? (text : String) : Option (Place → Int) := do
  let told ← changes? text
  told.flatten.foldlM carryOut fun _ => 0

end Report

/-- The changes at some places lead to the values after at these places, if the values before are there. -/
theorem foldlM_carryOut {places : List Place} (hnodup : places.Nodup) {values : Place → Int}
    (hvalues : ∀ place ∈ places, values place = before.at place) :
    ((places.filter fun place => before.at place ≠ after.at place).map fun place =>
      (⟨place, before.at place, after.at place⟩ : Change)).foldlM Report.carryOut values =
        some fun place => if place ∈ places then after.at place else values place := by
  induction places generalizing values with
  | nil => simp
  | cons first places ih =>
    obtain ⟨hfresh, hnodup⟩ := List.nodup_cons.mp hnodup
    obtain ⟨hfirst, hrest⟩ := List.forall_mem_cons.mp hvalues
    by_cases hsame : before.at first = after.at first
    · rw [List.filter_cons_of_neg (by simpa using hsame), ih hnodup hrest]
      congr
      funext place
      by_cases hplace : place = first
      · simp [hplace, hfresh, hfirst, hsame]
      · simp [hplace]
    · rw [List.filter_cons_of_pos (by simpa using hsame), List.map_cons, List.foldlM_cons, Report.carryOut,
        if_pos hfirst, Option.bind_eq_bind, Option.bind_some, ih hnodup]
      · congr
        funext place
        by_cases hplace : place = first
        · simp [hplace, hfresh]
        · simp [hplace]
      · intro place hplace
        have hne : place ≠ first := fun h => hfresh (h ▸ hplace)
        rw [Function.update_of_ne hne]
        exact hrest place hplace

/-- **The changes between two states lead from the one to the other.** -/
theorem foldlM_changes (before after : Snapshot) :
    (changes before after).foldlM Report.carryOut before.at = some after.at := by
  rw [changes, foldlM_carryOut Place.nodup_all fun _ _ => rfl]
  simp [Place.mem_all]

theorem mem_changes_iff {c : Change} :
    c ∈ changes before after ↔ c.old = before.at c.place ∧ c.new = after.at c.place ∧ c.old ≠ c.new := by
  rw [changes, List.mem_map]
  constructor
  · rintro ⟨place, hplace, rfl⟩
    exact ⟨rfl, rfl, of_decide_eq_true (List.mem_filter.mp hplace).2⟩
  · rintro ⟨hold, hnew, hne⟩
    rw [hold, hnew] at hne
    refine ⟨c.place, List.mem_filter.mpr ⟨c.place.mem_all, decide_eq_true hne⟩, ?_⟩
    rw [← hold, ← hnew]

theorem map_place_changes (before after : Snapshot) : (changes before after).map Change.place =
    Place.all.filter fun place => before.at place ≠ after.at place := by
  rw [changes, List.map_map]
  exact List.map_id _

theorem changes_eq_nil_iff : changes before after = [] ↔ ∀ place, before.at place = after.at place := by
  simp [changes, Place.mem_all]

/-! ## Entries -/

namespace Emulator

/-- What goes wrong with an instruction is told in one line. -/
theorem plain_entry (e : Emulator) : e.entry.Plain := by
  intro complaint hcomplaint
  obtain ⟨mishap, hmishap, rfl⟩ := Option.map_eq_some_iff.mp hcomplaint
  simp only [entry, entryOf, Option.orElse_eq_orElse, Option.orElse_eq_or] at hmishap
  rcases Option.or_eq_some_iff.mp hmishap with h | ⟨-, h⟩
  · obtain ⟨bad, -, rfl⟩ := Option.map_eq_some_iff.mp h
    exact oneLine_badWord bad
  · obtain ⟨fault, -, rfl⟩ := Option.map_eq_some_iff.mp h
    exact oneLine_stackFault fault

/-- An instruction that goes wrong changes no register and not the index. -/
theorem at_of_mishap (hw : e.machine.keyWait = .running) (h : e.entry.mishap ≠ none) :
    e.machine.step.machine.snapshot.at = e.machine.tick.snapshot.at := by
  cases hfault : e.machine.step.fault with
  | some fault => rw [step_of_fault hfault]
  | none =>
    have hinvalid : e.machine.fetch.op = .invalid := by
      by_contra hop
      refine h (mishap_entry_eq_none.mpr ⟨?_, hfault⟩)
      simp [Instruction.valid, hop]
    have hc := e.machine.stepCase
    generalize e.machine.step = outcome at hc hfault
    cases hc with
    | stored r k hp => rw [hw] at hp; cases hp
    | waited => rfl
    | faulted => cases hfault
    | executed m' notes _ hx =>
      obtain ⟨n, hn, rfl⟩ := execute_eq_ok hx
      rw [hinvalid] at hn
      cases hn
      rfl

/-- The entries of a trace are those of steps that fetched. -/
theorem exists_moment_of_mem_trace (h : Emulator.start platform program width height random true = .ok e)
    (controls : List Control) {entry : TraceEntry} (hentry : entry ∈ (e.performAll controls).trace.toList) :
    ∃ moment : Emulator, moment.machine.keyWait = .running ∧ moment.entry = entry := by
  rw [trace_performAll h, map_entry_fetches] at hentry
  obtain ⟨moment, hmoment, rfl⟩ := List.mem_map.mp hentry
  exact ⟨moment, of_decide_eq_true (List.mem_filter.mp hmoment).2, rfl⟩

/-! ## Runs -/

/-- The changes of the trace, carried out one after the other on nothing but zeros, lead to the present values. -/
def Replays (e : Emulator) : Prop :=
  (e.trace.toList.flatMap TraceEntry.changes).foldlM Report.carryOut (fun _ => 0) = some e.machine.snapshot.at

theorem replays_start {tracing : Bool} (h : Emulator.start platform program width height random tracing = .ok e) :
    e.Replays := by
  obtain ⟨hw, hh, rfl⟩ := start_eq h
  have hzeros : (fun _ => 0 : Place → Int) =
      (Machine.boot program (.blank width.toNat height.toNat hw hh) random).snapshot.at := by
    funext place
    cases place with
    | index => rfl
    | register r => simp [Snapshot.at, Machine.snapshot, Machine.boot, Registers.value]
  exact congrArg some hzeros

/-- Keys and steps that fetch nothing leave the trace as it is. -/
theorem Replays.of_same {e' : Emulator} (h : e.Replays) (htrace : e'.trace = e.trace)
    (hsame : e'.machine.snapshot.at = e.machine.snapshot.at) : e'.Replays := by
  rw [Replays, htrace, hsame]
  exact h

/-- **Every step keeps this** unless it stores a key. -/
theorem Replays.step (h : e.Replays) (ht : e.tracing = true) (hpending : ∀ r key, e.machine.keyWait ≠ .pending r key) :
    e.step.2.Replays := by
  cases hw : e.machine.keyWait with
  | pending r key => exact absurd hw (hpending r key)
  | awaiting r =>
    rw [step_awaiting hw]
    exact h.of_same rfl rfl
  | running =>
    rw [Replays, trace_step ht hw, List.flatMap_append, List.foldlM_append, h, List.flatMap_singleton, machine_step]
    exact foldlM_changes e.machine.tick.snapshot e.machine.step.machine.snapshot

/-- **Every run keeps this** unless one of its steps stores a key. -/
theorem Replays.afterAll (h : e.Replays) (ht : e.tracing = true) {events : List Event}
    (hpending : ∀ moment ∈ e.moments events, ∀ r key, moment.machine.keyWait ≠ .pending r key) :
    (e.afterAll events).Replays := by
  induction events generalizing e with
  | nil => exact h
  | cons event events ih =>
    have htafter : (e.after event).tracing = true := tracing_kept true e event ht
    rw [afterAll_cons]
    cases event with
    | press key =>
      rw [moments_press] at hpending
      rw [after_press] at htafter ⊢
      refine ih (h.of_same rfl ?_) htafter hpending
      rw [machine_press, Machine.keyDown_eq]
      rfl
    | release key =>
      rw [moments_release] at hpending
      rw [after_release] at htafter ⊢
      exact ih (h.of_same rfl rfl) htafter hpending
    | step =>
      rw [moments_step, List.forall_mem_cons] at hpending
      exact ih (h.step ht hpending.1) htafter hpending.2

end Emulator

/-! ## The main statement -/

/-- An entry shows the changes between two states: which places changed, in the order of all places, from what and to
what. Its lines tell them in one line if there are any, and else in none; there are none if anything went wrong. -/
structure TraceEntry.Shows (entry : TraceEntry) (before after : Snapshot) : Prop where
  states : entry.states = (before, after)
  order : (entry.changes.map Change.place).Sublist Place.all
  exactly : ∀ c, c ∈ entry.changes ↔ c.old = before.at c.place ∧ c.new = after.at c.place ∧ c.old ≠ c.new
  told : (∃ place, before.at place ≠ after.at place) →
    Report.changes? (textOfLines entry.lines) = some [entry.changes]
  untold : (∀ place, before.at place = after.at place) → Report.changes? (textOfLines entry.lines) = some []
  mishap : entry.mishap ≠ none → ∀ place, before.at place = after.at place

theorem Emulator.shows_entry {moment : Emulator} (hw : moment.machine.keyWait = .running) :
    moment.entry.Shows moment.machine.tick.snapshot moment.machine.step.machine.snapshot := by
  have hchanges : moment.entry.changes =
      changes moment.machine.tick.snapshot moment.machine.step.machine.snapshot := rfl
  have htold := (TraceEntry.tells_lines moment.plain_entry).changes?_eq
  constructor
  case states => rfl
  case order =>
    rw [hchanges, map_place_changes]
    exact List.filter_sublist
  case exactly => exact fun c => mem_changes_iff
  case told =>
    rintro ⟨place, hplace⟩
    rw [htold, if_neg]
    exact fun h => hplace (changes_eq_nil_iff.mp h place)
  case untold =>
    intro hsame
    have hnone : moment.entry.changes = [] := changes_eq_nil_iff.mpr hsame
    rw [htold, if_pos hnone]
  case mishap =>
    intro h place
    rw [at_of_mishap hw h]

/-- **The printed trace can be replayed.** If no step stored a key, the changes that the report tells lead from nothing
but zeros to the present registers and the present index. -/
theorem trace_replays (h : Emulator.start platform program width height random true = .ok e) (controls : List Control) :
    let now := e.performAll controls
    ((∀ moment ∈ e.moments (e.eventsOfAll controls), ∀ r key, moment.machine.keyWait ≠ .pending r key) →
      Report.replay? now.traceReport = some now.machine.snapshot.at) ∧
    Report.changes? now.traceReport = some ((now.trace.toList.map TraceEntry.changes).filter (· ≠ [])) ∧
    ∀ entry ∈ now.trace.toList, ∃ before after, entry.Shows before after := by
  intro now
  have hplain : ∀ entry ∈ now.trace.toList, entry.Plain := by
    intro entry hentry
    obtain ⟨moment, -, rfl⟩ := Emulator.exists_moment_of_mem_trace h controls hentry
    exact moment.plain_entry
  have htold : Report.changes? now.traceReport = some ((now.trace.toList.map TraceEntry.changes).filter (· ≠ [])) := by
    obtain ⟨lines, hreport, htells⟩ := Emulator.tells_traceReport hplain
    rw [hreport]
    exact htells.changes?_eq
  refine ⟨fun hpending => ?_, htold, fun entry hentry => ?_⟩
  · obtain ⟨_, _, he⟩ := Emulator.start_eq h
    have hnow : now.Replays := by
      rw [show now = e.afterAll (e.eventsOfAll controls) from e.performAll_eq controls]
      exact (Emulator.replays_start h).afterAll (by rw [he]) hpending
    rw [Report.replay?, htold]
    show (((now.trace.toList.map TraceEntry.changes).filter (· ≠ [])).flatten).foldlM Report.carryOut _ = _
    rw [List.flatten_filter_ne_nil, ← List.flatMap_def]
    exact hnow
  · obtain ⟨moment, hw, rfl⟩ := Emulator.exists_moment_of_mem_trace h controls hentry
    exact ⟨_, _, Emulator.shows_entry hw⟩

/-- A program of one load: its report tells the new value of the register. -/
theorem trace_replays_load : ∃ e values, Emulator.start .vast [0x60, 0x05] 8 4 (.cycle []) true = .ok e ∧
    Report.replay? (e.performAll [.step]).traceReport = some values ∧ values (.register ⟨0, by decide⟩) = 5 ∧
    values .index = 0 := by
  obtain ⟨e, h⟩ := Emulator.exists_start .vast [0x60, 0x05] 8 4 (.cycle []) true
    (by decide) (by decide) (by decide) (by decide)
  obtain ⟨_, _, he⟩ := Emulator.start_eq h
  have hw : e.machine.keyWait = .running := by rw [he]; rfl
  have hpending : ∀ moment ∈ e.moments (e.eventsOfAll [.step]), ∀ r key, moment.machine.keyWait ≠ .pending r key := by
    refine List.forall_mem_singleton.mpr fun r key hkey => ?_
    rw [hw] at hkey
    cases hkey
  obtain ⟨-, hload⟩ := Machine.executed?_image (m := e.machine) (k := 0)
    (n := { e.machine with registers := e.machine.registers.put ⟨0, by decide⟩ 5, pc := 0x202, cycles := 1 })
    (by rw [he]; rfl) (by decide) hw (by rw [he]; rfl) (by rw [he]; rfl)
  refine ⟨e, _, h, (trace_replays h [.step]).1 hpending, ?_, ?_⟩
  · show (e.step.2.machine.registers).value ⟨0, by decide⟩ = 5
    rw [Emulator.machine_step, hload]
    show (e.machine.registers.put ⟨0, by decide⟩ 5).value ⟨0, by decide⟩ = 5
    rw [Registers.value_put, if_pos rfl]
  · show e.step.2.machine.index = 0
    rw [Emulator.machine_step, hload, he]
    rfl

end ChipEight
