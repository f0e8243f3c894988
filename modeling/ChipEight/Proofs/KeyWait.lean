import ChipEight.Proofs.Events

/-!
# Waiting for a key

A wait begins with an instruction that asks for a key, is answered by the first key that goes down afterwards, and ends
with the step that stores this key.

- `machine_afterAll_awaiting`: until a key goes down, steps only tick and keys only go up;
- `machine_afterAll_pending`: until the next step, further keys change nothing but themselves;
- `keyWait_change`: how the key wait of a machine may change, and by what;
- `Reachable.waits`: in the log of every run, each wait that began is followed by its answer and by the storing of it;
- `keyWait_protocol`: the main statement, all of this for one wait in any run.
-/

namespace ChipEight

variable {m m' : Machine} {op : Op} {ins : Instruction} {notes : List Note} {r : Register} {key : Key}

/-- Whether a key goes down. -/
def Event.isPress : Event → Bool
  | .press _ => true
  | _ => false

/-- Whether the event is a step. -/
def Event.isStep : Event → Bool
  | .step => true
  | _ => false

/-! ## Single steps -/

theorem Machine.step_awaiting (h : m.keyWait = .awaiting r) : m.step = ⟨m.tick, [.stepAwaiting], none⟩ := by
  have hw : m.tick.keyWait = .awaiting r := h
  simp only [Machine.step, hw]

theorem Machine.step_pending (h : m.keyWait = .pending r key) :
    m.step = ⟨{ m.tick with registers := m.registers.put r key.val, keyWait := .running },
      [.keyStored key r], none⟩ := by
  have hw : m.tick.keyWait = .pending r key := h
  simp only [Machine.step, hw]
  rfl

/-- The instruction that begins a wait. -/
theorem effect_awaitKey (h : effect .awaitKey ins m = .ok (m', notes)) :
    m' = { m with keyWait := .awaiting ins.x, pc := m.pc + 2 } ∧ notes = [.keyAwaited ins.x] := by
  cases h
  exact ⟨rfl, rfl⟩

/-- The instruction that begins a wait does not fault. -/
theorem Machine.step_awaitKey (h : m.upcoming? = some ins) (hop : ins.op = .awaitKey) :
    m.keyWait = .running ∧ m.step.machine.keyWait = .awaiting ins.x ∧ m.step.notes = [.keyAwaited ins.x] ∧
      m.step.fault = none := by
  have hw : m.keyWait = .running := by
    unfold Machine.upcoming? at h
    split at h
    · assumption
    · cases h
  obtain rfl : m.fetch = ins := by simpa [Machine.upcoming?, hw] using h
  have hc := m.stepCase
  generalize m.step = outcome at hc
  cases hc with
  | stored r k hp => rw [hw] at hp; cases hp
  | waited r hp => rw [hw] at hp; cases hp
  | faulted fault _ hx =>
    rw [execute_eq_error, hop] at hx
    cases hx
  | executed m' notes _ hx =>
    obtain ⟨n, hn, rfl⟩ := execute_eq_ok hx
    rw [hop] at hn
    obtain ⟨rfl, rfl⟩ := effect_awaitKey hn
    exact ⟨hw, rfl, rfl, rfl⟩

namespace Emulator

variable {e : Emulator}

theorem step_awaiting (h : e.machine.keyWait = .awaiting r) :
    e.step = (.ok false, { e with machine := e.machine.tick, log := e.log.push .stepAwaiting }) := by
  have hs := Machine.step_awaiting h
  have hu : e.machine.upcoming? = none := by rw [Machine.upcoming?, h]
  refine Prod.ext ?_ ?_
  · rw [step_answer, hs]; rfl
  · rw [step_eq, hu, hs]; rfl

theorem step_pending (h : e.machine.keyWait = .pending r key) :
    e.step = (.ok false,
      { e with
        machine := { e.machine.tick with registers := e.machine.registers.put r key.val, keyWait := .running }
        log := e.log.push (.keyStored key r) }) := by
  have hs := Machine.step_pending h
  have hu : e.machine.upcoming? = none := by rw [Machine.upcoming?, h]
  refine Prod.ext ?_ ?_
  · rw [step_answer, hs]; rfl
  · rw [step_eq, hu, hs]; rfl

/-! ## Until a key goes down, and until the next step -/

/-- Until a key goes down, only keys, timers and the redraw flag change. -/
theorem machine_afterAll_awaiting {events : List Event} (hn : ∀ event ∈ events, event.isPress = false)
    (h : e.machine.keyWait = .awaiting r) :
    let after := (e.afterAll events).machine
    after = { e.machine with
      keys := after.keys, delay := after.delay, sound := after.sound, redraw := after.redraw } := by
  induction events generalizing e with
  | nil => rfl
  | cons event events ih =>
    have hrest : ∀ event ∈ events, event.isPress = false := fun x hx => hn x (List.mem_cons_of_mem _ hx)
    cases event with
    | press k => cases hn _ List.mem_cons_self
    | step =>
      rw [afterAll_cons, after_step, step_awaiting h]
      exact ih hrest h
    | release k =>
      rw [afterAll_cons, after_release]
      exact ih hrest h

/-- Until the next step, an answered wait changes nothing but the keys that are held down. -/
theorem machine_afterAll_pending {events : List Event} (hn : ∀ event ∈ events, event.isStep = false)
    (h : e.machine.keyWait = .pending r key) :
    (e.afterAll events).machine = { e.machine with keys := (e.afterAll events).machine.keys } := by
  induction events generalizing e with
  | nil => rfl
  | cons event events ih =>
    have hrest : ∀ event ∈ events, event.isStep = false := fun x hx => hn x (List.mem_cons_of_mem _ hx)
    cases event with
    | step => cases hn _ List.mem_cons_self
    | press k =>
      have hk : (e.press k).machine = e.machine.setKey k true := by
        rw [machine_press, Machine.keyDown_other (by simp [h])]
      rw [afterAll_cons, after_press, ih hrest (by rw [hk]; exact h), hk]
      rfl
    | release k =>
      rw [afterAll_cons, after_release]
      exact ih hrest h

/-! ## Every change of a key wait -/

/-- **A key wait begins, is answered and ends, and changes in no other way.** -/
theorem keyWait_change (e : Emulator) (event : Event)
    (h : (e.after event).machine.keyWait ≠ e.machine.keyWait) :
    (event = .step ∧ e.machine.keyWait = .running ∧ e.machine.fetch.op = .awaitKey ∧
      (e.after event).machine.keyWait = .awaiting e.machine.fetch.x) ∨
    (∃ r key, event = .press key ∧ e.machine.keyWait = .awaiting r ∧
      (e.after event).machine.keyWait = .pending r key) ∨
    (∃ r key, event = .step ∧ e.machine.keyWait = .pending r key ∧ (e.after event).machine.keyWait = .running ∧
      (e.after event).machine.registers = e.machine.registers.put r key.val) := by
  cases event with
  | release key => rw [after_release] at h; exact absurd rfl h
  | press key =>
    rw [after_press, machine_press] at *
    cases hw : e.machine.keyWait with
    | awaiting r => rw [Machine.keyDown_awaiting hw]; exact .inr (.inl ⟨r, key, rfl, rfl, rfl⟩)
    | running | pending => rw [Machine.keyDown_other (by simp [hw])] at h; exact absurd rfl h
  | step =>
    rw [after_step, machine_step] at *
    have hc := e.machine.stepCase
    generalize e.machine.step = outcome at h hc
    cases hc with
    | stored r k hw => exact .inr (.inr ⟨r, k, rfl, hw, rfl, rfl⟩)
    | waited r _ => exact absurd rfl h
    | faulted fault _ _ => exact absurd rfl h
    | executed m' notes hw hx =>
      obtain ⟨n, hn, rfl⟩ := execute_eq_ok hx
      by_cases hop : e.machine.fetch.op = .awaitKey
      · rw [hop] at hn
        obtain ⟨rfl, -⟩ := effect_awaitKey hn
        exact .inl ⟨rfl, hw, hop, rfl⟩
      · exact absurd ((effect_frame hn).keyWait hop) h

end Emulator

/-! ## The log of waits -/

/-- Whether a note tells of the beginning, the answer or the end of a wait. -/
def Note.isOfWait : Note → Bool
  | .keyAwaited _ => true
  | .keyLatched _ _ => true
  | .keyStored _ _ => true
  | _ => false

/-- The notes of a wait that was answered with a key and ended. -/
def Note.ofWait (wait : Register × Key) : List Note :=
  [.keyAwaited wait.1, .keyLatched wait.2 wait.1, .keyStored wait.2 wait.1]

/-- The notes of a wait that has not ended. -/
def KeyWait.notesSoFar : KeyWait → List Note
  | .running => []
  | .awaiting r => [.keyAwaited r]
  | .pending r key => [.keyAwaited r, .keyLatched key r]

/-- No note on a refused write has to do with a wait. -/
theorem notes_store_of_wait (m : Machine) (writes : List (Int × Int)) :
    (m.store writes).2.filter Note.isOfWait = [] := by
  rw [List.filter_eq_nil_iff]
  intro note hn
  obtain ⟨write, _, rfl⟩ := List.mem_map.mp hn
  simp [Note.isOfWait]

/-- Only the instruction that begins a wait has a note on it. -/
theorem effect_notes (h : effect op ins m = .ok (m', notes)) (hop : op ≠ .awaitKey) :
    notes.filter Note.isOfWait = [] := by
  cases op
  case awaitKey => exact absurd rfl hop
  case ret => obtain ⟨_, _, _, _, rfl⟩ := effect_ret h; rfl
  case call => obtain ⟨_, _, rfl⟩ := effect_call h; rfl
  case storeDecimal =>
    cases h
    exact notes_store_of_wait m _
  case storeRegisters =>
    rw [effect_storeRegisters] at h
    cases h
    exact notes_store_of_wait m _
  all_goals cases h; rfl

/-- The waits in the log: those that ended, each begun, answered and stored in this order, and then the present one. -/
def Emulator.Waits (e : Emulator) : Prop :=
  ∃ waits : List (Register × Key),
    e.log.toList.filter Note.isOfWait = waits.flatMap Note.ofWait ++ e.machine.keyWait.notesSoFar

/-- Every event keeps the waits in the log in order. -/
theorem Emulator.waits_kept : Kept Waits := by
  rintro e event ⟨waits, h⟩
  cases event with
  | release key => rw [after_release]; exact ⟨waits, by simpa [release, become, Machine.keyUp, Machine.setKey] using h⟩
  | press key =>
    rw [after_press]
    cases hw : e.machine.keyWait with
    | awaiting r =>
      refine ⟨waits, ?_⟩
      simp only [press, become, Machine.keyDown_awaiting hw]
      simp [h, hw, KeyWait.notesSoFar, Note.isOfWait]
    | running | pending =>
      refine ⟨waits, ?_⟩
      simp only [press, become, Machine.keyDown_other (show ∀ r, e.machine.keyWait ≠ .awaiting r by simp [hw])]
      simpa [Machine.setKey] using h
  | step =>
    have hlog : ∀ notes, e.machine.step.notes = notes → (e.after .step).log.toList.filter Note.isOfWait =
        waits.flatMap Note.ofWait ++ e.machine.keyWait.notesSoFar ++ notes.filter Note.isOfWait := by
      rintro _ rfl
      rw [after_step, log_step, ← h]
      simp
    have hmachine : (e.after .step).machine = e.machine.step.machine := machine_step e
    unfold Waits
    rw [hmachine]
    have hc := e.machine.stepCase
    generalize e.machine.step = outcome at hlog hc
    cases hc with
    | stored r k hw =>
      refine ⟨waits ++ [(r, k)], ?_⟩
      rw [hlog _ rfl, hw]
      simp [KeyWait.notesSoFar, Note.ofWait, Note.isOfWait]
    | waited r hw => exact ⟨waits, by rw [hlog _ rfl]; simp [Note.isOfWait, Machine.tick]⟩
    | faulted fault _ _ => exact ⟨waits, by rw [hlog _ rfl]; simp [Machine.tick]⟩
    | executed m' notes hw hx =>
      refine ⟨waits, ?_⟩
      obtain ⟨n, hn, rfl⟩ := execute_eq_ok hx
      rw [hlog _ rfl, hw]
      by_cases hop : e.machine.fetch.op = .awaitKey
      · rw [hop] at hn
        obtain ⟨rfl, rfl⟩ := effect_awaitKey hn
        simp [KeyWait.notesSoFar, Note.isOfWait]
      · have hk : n.keyWait = .running := ((effect_frame hn).keyWait hop).trans hw
        simp [effect_notes hn hop, hk, KeyWait.notesSoFar]

/-- The waits are in order in every run. -/
theorem Emulator.Reachable.waits {e : Emulator} (h : e.Reachable) : e.Waits := by
  refine Emulator.waits_kept.reachable (fun hs => ?_) h
  obtain ⟨_, _, rfl⟩ := Emulator.start_eq hs
  exact ⟨[], rfl⟩

/-! ## The protocol -/

/-- **The key-wait protocol.** A machine that asks for a key waits; the first key that goes down answers, and the next
step stores it and fetches nothing. In every run each wait is answered once and stored once. -/
theorem keyWait_protocol {e : Emulator} (h : e.Reachable) :
    (∀ ins, e.machine.upcoming? = some ins → ins.op = .awaitKey →
      let began := e.step.2
      began.machine.keyWait = .awaiting ins.x ∧
      ∀ idle : List Event, (∀ event ∈ idle, event.isPress = false) →
        let waiting := began.afterAll idle
        waiting.machine = { began.machine with
          keys := waiting.machine.keys, delay := waiting.machine.delay, sound := waiting.machine.sound,
          redraw := waiting.machine.redraw } ∧
        waiting.step =
          (.ok false, { waiting with machine := waiting.machine.tick, log := waiting.log.push .stepAwaiting }) ∧
        ∀ (key : Key) (held : List Event), (∀ event ∈ held, event.isStep = false) →
          let answered := (waiting.after (.press key)).afterAll held
          answered.machine = { waiting.machine with keys := answered.machine.keys, keyWait := .pending ins.x key } ∧
          answered.step = (.ok false,
            { answered with
              machine := { answered.machine.tick with
                registers := answered.machine.registers.put ins.x key.val, keyWait := .running }
              log := answered.log.push (.keyStored key ins.x) })) ∧
    (∀ event, (e.after event).machine.keyWait ≠ e.machine.keyWait →
      (event = .step ∧ e.machine.keyWait = .running ∧ e.machine.fetch.op = .awaitKey ∧
        (e.after event).machine.keyWait = .awaiting e.machine.fetch.x) ∨
      (∃ r key, event = .press key ∧ e.machine.keyWait = .awaiting r ∧
        (e.after event).machine.keyWait = .pending r key) ∨
      (∃ r key, event = .step ∧ e.machine.keyWait = .pending r key ∧ (e.after event).machine.keyWait = .running ∧
        (e.after event).machine.registers = e.machine.registers.put r key.val)) ∧
    ∃ waits : List (Register × Key), e.log.toList.filter Note.isOfWait =
      waits.flatMap (fun wait => [.keyAwaited wait.1, .keyLatched wait.2 wait.1, .keyStored wait.2 wait.1]) ++
        e.machine.keyWait.notesSoFar := by
  refine ⟨fun ins hins hop => ?_, fun event hne => e.keyWait_change event hne, h.waits⟩
  intro began
  have hbegan : began.machine.keyWait = .awaiting ins.x := by
    rw [Emulator.machine_step]
    exact (Machine.step_awaitKey hins hop).2.1
  refine ⟨hbegan, fun idle hidle => ?_⟩
  intro waiting
  have hwaiting := Emulator.machine_afterAll_awaiting hidle hbegan
  have hw : waiting.machine.keyWait = .awaiting ins.x := by rw [hwaiting]; exact hbegan
  refine ⟨hwaiting, Emulator.step_awaiting hw, fun key held hheld => ?_⟩
  intro answered
  have hpress : (waiting.after (.press key)).machine =
      { waiting.machine.setKey key true with keyWait := .pending ins.x key } := by
    rw [Emulator.after_press, Emulator.machine_press, Machine.keyDown_awaiting hw]
  have hp : (waiting.after (.press key)).machine.keyWait = .pending ins.x key := by rw [hpress]
  have hanswered := Emulator.machine_afterAll_pending hheld hp
  refine ⟨by rw [hanswered, hpress]; rfl, Emulator.step_pending ?_⟩
  rw [hanswered]
  exact hp

/-- A program that asks for a key gets the first one, seven, although nine goes down after it. -/
theorem keyWait_protocol_seven : ∃ e : Emulator, e.Reachable ∧
    (e.step.2.afterAll [.release 3, .step, .press 7, .press 9, .release 7]).machine.keyWait = .pending 5 7 := by
  obtain ⟨e, h⟩ := Emulator.exists_start .vast [0xF5, 0x0A] 64 32 (.cycle []) true
    (by decide) (by decide) (by decide) (by decide)
  obtain ⟨_, _, he⟩ := Emulator.start_eq h
  have hf : e.machine.fetch = .decode 0xF50A := by rw [he]; exact Emulator.fetch_boot ..
  have hu : e.machine.upcoming? = some (.decode 0xF50A) := by rw [← hf, he]; rfl
  have hp := ((keyWait_protocol (.start h)).1 _ hu (by decide)).2 [.release 3, .step] (by decide)
  have ha := (hp.2.2 7 [.press 9, .release 7] (by decide)).1
  refine ⟨e, .start h, ?_⟩
  rw [show [Event.release 3, .step, .press 7, .press 9, .release 7] =
    [.release 3, .step] ++ .press 7 :: [.press 9, .release 7] from rfl, Emulator.afterAll_append,
    Emulator.afterAll_cons, ha]
  rfl

end ChipEight
