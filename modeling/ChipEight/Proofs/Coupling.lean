import ChipEight.Proofs.Turns

/-!
# Two emulators side by side

When two emulators that are used in the same way cannot be told apart.

- `Emulator.replies` are the answers to some controls, and `Emulator.Alike` says that two emulators answer and note the
  same and execute the same instructions;
- `Machine.Coupling` is what a relation between two machines has to stand: the tick, an operation that succeeds on the
  first machine, a stored key, and keys that go down or up. Some operations may use the relation up: `R k` leaves `k`
  of them;
- `Coupling.step` is one step of both machines; from it, by induction, events (`Coupling.afterAll`), scheduled runs
  (`Coupling.feed`, turn by turn) and controls (`Coupling.performAll`).
-/

namespace ChipEight

variable {ops : List Op} {R : Nat → Machine → Machine → Prop} {m m' n : Machine} {notes : List Note} {k : Nat}
  {e e' : Emulator}

/-! ## What can be told -/

/-- Two emulators make the same notes on their ways. -/
def Emulator.SameNotes (e after e' after' : Emulator) : Prop :=
  ∃ notes : Array Note, after.log = e.log ++ notes ∧ after'.log = e'.log ++ notes

namespace Emulator.SameNotes

theorem refl (e e' : Emulator) : SameNotes e e e' e' :=
  ⟨#[], Array.append_empty.symm, Array.append_empty.symm⟩

theorem trans {e₁ e₂ e₃ e₁' e₂' e₃' : Emulator} (h : SameNotes e₁ e₂ e₁' e₂') (h' : SameNotes e₂ e₃ e₂' e₃') :
    SameNotes e₁ e₃ e₁' e₃' := by
  obtain ⟨notes, hlog, hlog'⟩ := h
  obtain ⟨more, hmore, hmore'⟩ := h'
  refine ⟨notes ++ more, ?_, ?_⟩
  · rw [hmore, hlog, Array.append_assoc]
  · rw [hmore', hlog', Array.append_assoc]

end Emulator.SameNotes

namespace Emulator

/-- The answers to controls that are used one after the other. -/
def replies (e : Emulator) : List Control → List Answer
  | [] => []
  | control :: controls => (e.perform control).1 :: (e.perform control).2.replies controls

/-- Two emulators give the same answers to the controls, make the same notes and execute the same instructions. -/
structure Alike (e e' : Emulator) (controls : List Control) : Prop where
  replies : e'.replies controls = e.replies controls
  notes : SameNotes e (e.performAll controls) e' (e'.performAll controls)
  executed : e'.executed (e'.eventsOfAll controls) = e.executed (e.eventsOfAll controls)

end Emulator

/-! ## Executed operations -/

/-- How often one of the operations was executed. -/
def occurrences (ops : List Op) (executed : List Executed) : Nat :=
  executed.countP fun x => x.instruction.op ∈ ops

theorem occurrences_append (ops : List Op) (executed executed' : List Executed) :
    occurrences ops (executed ++ executed') = occurrences ops executed + occurrences ops executed' :=
  List.countP_append

theorem occurrences_single (ops : List Op) (x : Executed) :
    occurrences ops [x] = if x.instruction.op ∈ ops then 1 else 0 := by
  rw [occurrences, List.countP_singleton]
  simp only [decide_eq_true_eq]

/-! ## Machines -/

/-- What decides the course of a step is the same in both machines. -/
structure Machine.Aligned (m m' : Machine) : Prop where
  memory : m'.memory = m.memory
  pc : m'.pc = m.pc
  stack : m'.stack = m.stack
  keyWait : m'.keyWait = m.keyWait
  redraw : m'.redraw = m.redraw

theorem Machine.Aligned.fetch (h : m.Aligned m') : m'.fetch = m.fetch := by
  rw [Machine.fetch, Machine.fetch, Machine.wordAt, Machine.wordAt, h.memory, h.pc]

/-- A relation between two machines that stays while both go the same way, unless they execute more than `k` of the
operations. -/
structure Machine.Coupling (ops : List Op) (R : Nat → Machine → Machine → Prop) : Prop where
  aligned : ∀ {k m m'}, R k m m' → m.Aligned m'
  tick : ∀ {k m m'}, R k m m' → R k m.tick m'.tick
  effect : ∀ {k m m' op ins n notes}, R ((if op ∈ ops then 1 else 0) + k) m m' →
    effect op ins m = .ok (n, notes) → ∃ n', effect op ins m' = .ok (n', notes) ∧ R k n n'
  settled : ∀ {k m m'} (valid : Bool), R k m m' →
    R k { m with pc := m.pc % memorySize, cycles := if valid then m.cycles + 1 else m.cycles }
      { m' with pc := m'.pc % memorySize, cycles := if valid then m'.cycles + 1 else m'.cycles }
  setRegister : ∀ {k m m'} (r : Register) (value : Int), R k m m' → R k (m.setRegister r value) (m'.setRegister r value)
  setKey : ∀ {k m m'} (key : Key) (held : Bool), R k m m' → R k (m.setKey key held) (m'.setKey key held)
  setKeyWait : ∀ {k m m'} (keyWait : KeyWait), R k m m' → R k { m with keyWait } { m' with keyWait }

namespace Machine.Coupling

/-- An instruction that one machine executes is executed by the other, with the same notes. -/
theorem execute (hR : Coupling ops R) {ins : Instruction} (h : R ((if ins.op ∈ ops then 1 else 0) + k) m m')
    (hx : m.execute ins = .ok (n, notes)) : ∃ n', m'.execute ins = .ok (n', notes) ∧ R k n n' := by
  obtain ⟨after, heffect, rfl⟩ := execute_eq_ok hx
  obtain ⟨after', heffect', hafter⟩ := hR.effect h heffect
  exact ⟨_, execute_of_effect heffect', hR.settled ins.valid hafter⟩

/-- **A step of both machines.** They note the same, fault alike and execute the same instruction. -/
theorem step (hR : Coupling ops R) (h : R (occurrences ops m.executed?.toList + k) m m') :
    m'.step.notes = m.step.notes ∧ m'.step.fault = m.step.fault ∧ m'.executed? = m.executed? ∧
      R k m.step.machine m'.step.machine := by
  have halike := hR.aligned h
  have hkeyWait := halike.keyWait
  have hunused (hnone : m.executed? = none) : R k m m' := by
    rw [hnone, Option.toList_none] at h
    exact Nat.zero_add k ▸ h
  cases hw : m.keyWait with
  | awaiting r =>
    rw [hw] at hkeyWait
    have hnone : m.executed? = none := executed?_of_not_running (by simp [hw])
    have hnone' : m'.executed? = none := executed?_of_not_running (by simp [hkeyWait])
    rw [hnone, hnone', step_awaiting hw, step_awaiting hkeyWait]
    exact ⟨rfl, rfl, rfl, hR.tick (hunused hnone)⟩
  | pending r key =>
    rw [hw] at hkeyWait
    have hnone : m.executed? = none := executed?_of_not_running (by simp [hw])
    have hnone' : m'.executed? = none := executed?_of_not_running (by simp [hkeyWait])
    rw [hnone, hnone', step_pending hw, step_pending hkeyWait]
    exact ⟨rfl, rfl, rfl, hR.setKeyWait _ (hR.setRegister r key.val (hR.tick (hunused hnone)))⟩
  | running =>
    rw [hw] at hkeyWait
    cases hx : m.tick.execute m.fetch with
    | ok result =>
      obtain ⟨hexecuted, hstep⟩ := executed?_of_execute hw hx
      rw [hexecuted, Option.toList_some, occurrences_single] at h
      obtain ⟨n', hx', hn⟩ := hR.execute (hR.tick h) hx
      rw [← halike.fetch] at hx'
      obtain ⟨hexecuted', hstep'⟩ := executed?_of_execute hkeyWait hx'
      rw [hexecuted, hexecuted', hstep, hstep', halike.pc, halike.fetch]
      exact ⟨rfl, rfl, rfl, hn⟩
    | error failure =>
      have hfault := fault_of_execute hw hx
      have hfault' : m'.step.fault = some failure.fault := by
        refine fault_step_iff.mpr ⟨hkeyWait, ?_⟩
        rw [halike.fetch, halike.stack, halike.pc]
        exact (fault_step_iff.mp hfault).2
      have hnone : m.executed? = none := executed?_of_fault (by simp [hfault])
      have hnone' : m'.executed? = none := executed?_of_fault (by simp [hfault'])
      rw [hnone, hnone', step_of_fault hfault, step_of_fault hfault']
      exact ⟨rfl, rfl, rfl, hR.tick (hunused hnone)⟩

/-- A key that goes down in both machines. -/
theorem keyDown (hR : Coupling ops R) (key : Key) (h : R k m m') :
    (m'.keyDown key).2 = (m.keyDown key).2 ∧ R k (m.keyDown key).1 (m'.keyDown key).1 := by
  have hkeyWait := (hR.aligned h).keyWait
  have hkeyed := hR.setKey key true h
  cases hw : m.keyWait with
  | awaiting r =>
    rw [hw] at hkeyWait
    rw [keyDown_awaiting hw, keyDown_awaiting hkeyWait]
    exact ⟨rfl, hR.setKeyWait _ hkeyed⟩
  | running | pending =>
    rw [hw] at hkeyWait
    rw [keyDown_other (m := m) (by simp [hw]), keyDown_other (m := m') (by simp [hkeyWait])]
    exact ⟨rfl, hkeyed⟩

/-! ## Events -/

/-- One event in both emulators. -/
theorem after (hR : Coupling ops R) (event : Event)
    (h : R (occurrences ops (e.executed [event]) + k) e.machine e'.machine) :
    e'.executed [event] = e.executed [event] ∧
      Emulator.SameNotes e (e.after event) e' (e'.after event) ∧
      R k (e.after event).machine (e'.after event).machine := by
  cases event with
  | step =>
    rw [Emulator.executed_step] at h
    obtain ⟨hnotes, -, hexecuted, hafter⟩ := hR.step h
    rw [Emulator.executed_step, Emulator.executed_step, hexecuted, Emulator.after_step, Emulator.after_step,
      Emulator.machine_step, Emulator.machine_step]
    exact ⟨rfl, ⟨_, e.log_step, by rw [e'.log_step, hnotes]⟩, hafter⟩
  | press key =>
    obtain ⟨hnotes, hafter⟩ := hR.keyDown key (Nat.zero_add k ▸ h)
    rw [Emulator.after_press, Emulator.after_press, Emulator.machine_press, Emulator.machine_press]
    exact ⟨rfl, ⟨_, rfl, congrArg (fun notes : List Note => e'.log ++ notes.toArray) hnotes⟩, hafter⟩
  | release key =>
    rw [Emulator.after_release, Emulator.after_release]
    exact ⟨rfl, ⟨#[], rfl, rfl⟩, hR.setKey key false (Nat.zero_add k ▸ h)⟩

/-- **Events in both emulators.** -/
theorem afterAll (hR : Coupling ops R) {events : List Event}
    (h : R (occurrences ops (e.executed events) + k) e.machine e'.machine) :
    e'.executed events = e.executed events ∧
    Emulator.SameNotes e (e.afterAll events) e' (e'.afterAll events) ∧
    R k (e.afterAll events).machine (e'.afterAll events).machine := by
  induction events generalizing e e' with
  | nil => exact ⟨rfl, .refl e e', Nat.zero_add k ▸ h⟩
  | cons event events ih =>
    rw [e.executed_cons event events, occurrences_append, Nat.add_assoc] at h
    obtain ⟨hexecuted, hnotes, hafter⟩ := hR.after event h
    obtain ⟨hrest, hmore, hend⟩ := ih hafter
    rw [e.executed_cons event events, e'.executed_cons event events, hexecuted, hrest]
    exact ⟨rfl, hnotes.trans hmore, hend⟩

/-! ## Controls -/

/-- The machines wait for a key at the same time. -/
theorem awaitingKey (hR : Coupling ops R) (h : R k m m') : m'.awaitingKey = m.awaitingKey := by
  rw [Machine.awaitingKey, Machine.awaitingKey, (hR.aligned h).keyWait]

/-- A step of both emulators has the same answer. -/
theorem answer (hR : Coupling ops R) (h : R (occurrences ops (e.executed [.step]) + k) e.machine e'.machine) :
    e'.step.1 = e.step.1 := by
  rw [Emulator.executed_step] at h
  obtain ⟨-, hfault, -, hafter⟩ := hR.step h
  rw [Emulator.step_answer, Emulator.step_answer, hfault, (hR.aligned hafter).redraw]

/-- A turn of both emulators comes to the same. -/
theorem turn (hR : Coupling ops R) {keys : List Int} {turn : Turn} (ht : e.turn keys = turn)
    (h : R (occurrences ops (e.executed turn.events) + k) e.machine e'.machine) : e'.turn keys = turn := by
  have hawaiting := hR.awaitingKey h
  unfold Emulator.turn at ht ⊢
  rw [hawaiting]
  cases ha : e.machine.awaitingKey with
  | true =>
    rw [ha, if_pos rfl] at ht
    rw [if_pos rfl]
    exact ht
  | false =>
    have hevents : turn.events = [.step] := by
      rw [← ht, ha]
      cases e.step.1 <;> rfl
    rw [hevents] at h
    rw [hR.answer h, ← ha]
    exact ht

/-- **A scheduled run of both emulators**, turn by turn. -/
theorem feed (hR : Coupling ops R) (done budget : Nat) (keys : List Int)
    (h : R (occurrences ops (e.executed (Emulator.feedEvents budget keys e)) + k) e.machine e'.machine) :
    Emulator.feedEvents budget keys e' = Emulator.feedEvents budget keys e ∧
      (Emulator.feedFrom done budget keys e').1 = (Emulator.feedFrom done budget keys e).1 := by
  induction budget generalizing done keys e e' with
  | zero => exact ⟨rfl, rfl⟩
  | succ budget ih =>
    obtain ⟨hfrom, hevents⟩ := Emulator.feed_succ e done budget keys
    obtain ⟨hfrom', hevents'⟩ := Emulator.feed_succ e' done budget keys
    rw [hevents] at h
    rw [hfrom, hfrom', hevents, hevents']
    cases ht : e.turn keys with
    | ended =>
      rw [ht] at h
      rw [hR.turn ht h]
      exact ⟨rfl, rfl⟩
    | broken events fault =>
      rw [ht] at h
      rw [hR.turn ht h]
      exact ⟨rfl, rfl⟩
    | taken events left =>
      simp only [ht, Emulator.executed_append, occurrences_append, Nat.add_assoc] at h
      obtain ⟨-, -, hafter⟩ := hR.afterAll h
      obtain ⟨hrest, hanswer⟩ := ih (done + 1) left hafter
      rw [hR.turn ht h]
      exact ⟨congrArg (events ++ ·) hrest, hanswer⟩

/-- A control of both emulators comes down to the same events and has the same answer. -/
theorem eventsOf (hR : Coupling ops R) {control : Control}
    (h : R (occurrences ops (e.executed (e.eventsOf control)) + k) e.machine e'.machine) :
    e'.eventsOf control = e.eventsOf control ∧ (e'.perform control).1 = (e.perform control).1 := by
  cases control with
  | step => exact ⟨rfl, congrArg Answer.stepped (hR.answer h)⟩
  | run budget =>
    -- a plain run is a scheduled one that has no keys
    obtain ⟨hfrom, hevents⟩ := Emulator.feed_nil 0 budget.toNat e
    obtain ⟨hfrom', hevents'⟩ := Emulator.feed_nil 0 budget.toNat e'
    have hruns := hR.feed 0 budget.toNat [] (by rw [hevents]; exact h)
    rw [hfrom, hfrom', hevents, hevents'] at hruns
    exact ⟨hruns.1, congrArg Answer.ran (Emulator.asFed_inj hruns.2)⟩
  | feed budget keys =>
    obtain ⟨hevents, hanswer⟩ := hR.feed 0 budget.toNat keys h
    exact ⟨hevents, congrArg Answer.fed hanswer⟩
  | keyDown index =>
    refine ⟨rfl, congrArg Answer.keyed ?_⟩
    unfold Emulator.keyDown
    cases Key.ofInt index <;> rfl
  | keyUp index =>
    refine ⟨rfl, congrArg Answer.keyed ?_⟩
    unfold Emulator.keyUp
    cases Key.ofInt index <;> rfl

/-- A control of both emulators. -/
theorem perform (hR : Coupling ops R) {control : Control}
    (h : R (occurrences ops (e.executed (e.eventsOf control)) + k) e.machine e'.machine) :
    R k (e.perform control).2.machine (e'.perform control).2.machine := by
  rw [Emulator.perform_eq, Emulator.perform_eq, (hR.eventsOf h).1]
  exact (hR.afterAll h).2.2

/-- Controls of both emulators come down to the same events and have the same answers. -/
theorem eventsOfAll (hR : Coupling ops R) {controls : List Control}
    (h : R (occurrences ops (e.executed (e.eventsOfAll controls)) + k) e.machine e'.machine) :
    e'.eventsOfAll controls = e.eventsOfAll controls ∧ e'.replies controls = e.replies controls := by
  induction controls generalizing e e' with
  | nil => exact ⟨rfl, rfl⟩
  | cons control controls ih =>
    rw [Emulator.eventsOfAll, Emulator.executed_append, ← Emulator.perform_eq, occurrences_append, Nat.add_assoc] at h
    obtain ⟨hevents, hanswer⟩ := hR.eventsOf h
    obtain ⟨hrest, hreplies⟩ := ih (hR.perform h)
    rw [Emulator.eventsOfAll, Emulator.eventsOfAll, Emulator.replies, Emulator.replies, hevents, hanswer, hrest,
      hreplies]
    exact ⟨rfl, rfl⟩

/-- **Two emulators that are coupled are alike** under all controls, and stay coupled. -/
theorem performAll (hR : Coupling ops R) {controls : List Control}
    (h : R (occurrences ops (e.executed (e.eventsOfAll controls)) + k) e.machine e'.machine) :
    e.Alike e' controls ∧ R k (e.performAll controls).machine (e'.performAll controls).machine := by
  obtain ⟨hevents, hreplies⟩ := hR.eventsOfAll h
  obtain ⟨hexecuted, hnotes, hafter⟩ := hR.afterAll h
  rw [Emulator.performAll_eq, Emulator.performAll_eq, hevents]
  refine ⟨⟨hreplies, ?_, ?_⟩, hafter⟩
  · rw [Emulator.performAll_eq, Emulator.performAll_eq, hevents]
    exact hnotes
  · rw [hevents]
    exact hexecuted

end Machine.Coupling

end ChipEight
