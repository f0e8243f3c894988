import ChipEight.Proofs.Decoding
import ChipEight.Proofs.History

/-!
# The redraw flag

A host need not look at the screen after every step: it takes the cells once at the start, and then again after each
step that answers that the screen changed.

- `Machine.draws` tells whether the next step executes an operation that draws; `redraw_step` and `screen_step`: the
  flag is set by these steps and by no others, and the screen changes in no other steps;
- `redraw_afterAll`: after any events the flag is what the last step answered, by induction on the events;
- `Host` is a host with its copy of the cells, which every single control keeps current (`Current.perform`);
- `redraw_sound`: the main statement.
-/

namespace ChipEight

variable {op : Op} {ins : Instruction} {m m' : Machine} {notes : List Note} {e : Emulator}

/-- Whether the operation draws on the screen. -/
def Op.draws : Op → Bool
  | .clear | .draw => true
  | _ => false

/-- Whether the next step executes an operation that draws on the screen. -/
def Machine.draws (m : Machine) : Bool :=
  m.executed?.any fun x => x.instruction.op.draws

/-! ## Operations -/

theorem Op.draws_eq_true : op.draws = true ↔ op = .clear ∨ op = .draw := by
  cases op <;> simp [draws]

/-- The operations that draw set the flag, and no other touches it. -/
theorem effect_redraw (h : effect op ins m = .ok (m', notes)) (hm : m.redraw = false) : m'.redraw = op.draws := by
  by_cases hc : op = .clear
  · subst hc
    cases h
    rfl
  by_cases hd : op = .draw
  · subst hd
    cases h
    rfl
  rw [(effect_frame h).redraw hc hd, hm]
  exact (Bool.eq_false_iff.mpr fun hop => (Op.draws_eq_true.mp hop).elim hc hd).symm

/-- The words of the operations that draw. -/
theorem draws_decode (word : Int) : (Instruction.decode word).op.draws = true ↔
    word % 0x10000 = 0x00E0 ∨ word % 0x10000 / 0x1000 = 0xD := by
  rw [Op.draws_eq_true, op_decode_eq_clear, op_decode_eq_draw]

/-! ## Steps -/

namespace Machine

theorem draws_of_executed {x : Executed} (h : m.executed? = some x) : m.draws = x.instruction.op.draws := by
  rw [draws, h, Option.any_some]

theorem draws_of_not_executed (h : m.executed? = none) : m.draws = false := by
  rw [draws, h, Option.any_none]

/-- **A step sets the flag if and only if it draws.** -/
theorem redraw_step (m : Machine) : m.step.machine.redraw = m.draws := by
  cases hx : m.executed? with
  | none =>
    rw [step_not_executed hx, draws_of_not_executed hx]
    rfl
  | some x =>
    obtain ⟨n, notes, hn, hs⟩ := step_executed hx
    have hflag : n.redraw = x.instruction.op.draws := effect_redraw hn rfl
    rw [hs, draws_of_executed hx]
    exact hflag

/-- A step that does not draw leaves the screen as it was. -/
theorem screen_step (h : m.draws = false) : m.step.machine.screen = m.screen := by
  cases hx : m.executed? with
  | none =>
    rw [step_not_executed hx]
    rfl
  | some x =>
    obtain ⟨n, notes, hn, hs⟩ := step_executed hx
    have hop : ¬ (x.instruction.op = .clear ∨ x.instruction.op = .draw) := by
      rw [← Op.draws_eq_true, ← draws_of_executed hx, h]
      exact Bool.false_ne_true
    rw [hs]
    exact (effect_frame hn).screen (fun hc => hop (.inl hc)) fun hd => hop (.inr hd)

/-- The steps that draw are those that execute one of these words. -/
theorem draws_eq_true : m.draws = true ↔ ∃ x, m.executed? = some x ∧
    (x.instruction.word = 0x00E0 ∨ x.instruction.word / 0x1000 = 0xD) := by
  cases hx : m.executed? with
  | none => simp [draws_of_not_executed hx]
  | some x =>
    obtain ⟨-, rfl, -⟩ := executed?_eq_some hx
    rw [draws_of_executed hx, fetch, draws_decode]
    constructor
    · intro h
      exact ⟨_, rfl, h⟩
    · rintro ⟨x, hx, h⟩
      cases hx
      exact h

end Machine

/-! ## Answers -/

/-- Whether an answer tells that the screen changed; a fault tells nothing. -/
def tellsChange : Except StackFault Bool → Bool
  | .ok changed => changed
  | .error _ => false

namespace Emulator

theorem tellsChange_step (e : Emulator) : tellsChange e.step.1 = e.machine.draws := by
  rw [step_answer, ← Machine.redraw_step]
  cases hf : e.machine.step.fault with
  | none => rfl
  | some fault =>
    have hx := Machine.executed?_of_fault (m := e.machine) (by rw [hf]; rfl)
    rw [Machine.redraw_step, Machine.draws_of_not_executed hx]
    rfl

theorem step_eq_true : e.step.1 = .ok true ↔ e.machine.draws = true := by
  rw [← tellsChange_step]
  constructor
  · intro h
    rw [h]
    rfl
  · intro h
    cases ha : e.step.1 with
    | ok changed => rw [ha] at h; exact congrArg _ h
    | error fault => rw [ha] at h; cases h

/-- **The flag is what the last step answered.** -/
theorem redraw_afterAll (e : Emulator) (events : List Event) :
    (e.afterAll events).machine.redraw = ((e.answers events).getLast?.map tellsChange).getD e.machine.redraw := by
  induction events generalizing e with
  | nil => rfl
  | cons event events ih =>
    rw [afterAll_cons, ih]
    cases event with
    | press key => rw [answers, answers, moments_press, after_press, machine_press, Machine.keyDown_eq]; rfl
    | release key => rw [answers, answers, moments_release, after_release]; rfl
    | step =>
      have hflag : e.step.2.machine.redraw = tellsChange e.step.1 := by
        rw [machine_step, Machine.redraw_step, tellsChange_step]
      rw [answers, answers, moments_step, after_step, List.map_cons, List.getLast?_cons, hflag, Option.getD_map]
      rfl

end Emulator

/-! ## Hosts -/

/-- Whether a control is a single step, or a key that goes down or up. -/
def Control.isSingle : Control → Bool
  | .step | .keyDown _ | .keyUp _ => true
  | _ => false

/-- A host with its emulator and its copy of the cells of the screen. -/
structure Host where
  emulator : Emulator
  copy : Array Bool

namespace Host

variable {host : Host}

/-- A host takes the cells at the start. -/
def of (e : Emulator) : Host :=
  ⟨e, e.machine.screen.cells⟩

/-- The host uses a control, and takes the cells again after a step that answers that the screen changed. -/
def perform (host : Host) (control : Control) : Host where
  emulator := (host.emulator.perform control).2
  copy := match (host.emulator.perform control).1 with
    | .stepped (.ok true) => (host.emulator.perform control).2.machine.screen.cells
    | _ => host.copy

/-- The host uses controls one after the other. -/
def performAll (host : Host) (controls : List Control) : Host :=
  controls.foldl perform host

/-- The copy shows what is on the screen. -/
def Current (host : Host) : Prop :=
  host.copy = host.emulator.machine.screen.cells

theorem emulator_performAll (host : Host) (controls : List Control) :
    (host.performAll controls).emulator = host.emulator.performAll controls := by
  induction controls generalizing host with
  | nil => rfl
  | cons control controls ih => exact ih (host.perform control)

theorem current_of (e : Emulator) : (of e).Current := rfl

/-- A single control keeps the copy current. -/
theorem Current.perform (h : host.Current) {control : Control} (hc : control.isSingle = true) :
    (host.perform control).Current := by
  unfold Current Host.perform at *
  cases control with
  | run | feed => cases hc
  | keyDown index =>
    simp only [Emulator.perform, Emulator.keyDown]
    cases Key.ofInt index with
    | error fault => exact h
    | ok key =>
      show host.copy = (host.emulator.press key).machine.screen.cells
      rw [Emulator.machine_press, Machine.keyDown_eq]
      exact h
  | keyUp index =>
    simp only [Emulator.perform, Emulator.keyUp]
    cases Key.ofInt index <;> exact h
  | step =>
    simp only [Emulator.perform]
    split
    · rfl
    · rename_i hne
      have hd : host.emulator.machine.draws = false := by
        rw [Bool.eq_false_iff, ne_eq, ← Emulator.step_eq_true]
        exact fun ha => hne (congrArg _ ha)
      rw [h, Emulator.machine_step, Machine.screen_step hd]

/-- Single controls keep the copy current. -/
theorem Current.performAll (h : host.Current) {controls : List Control}
    (hc : ∀ control ∈ controls, control.isSingle = true) : (host.performAll controls).Current := by
  induction controls generalizing host with
  | nil => exact h
  | cons control controls ih =>
    rw [List.forall_mem_cons] at hc
    exact ih (h.perform hc.1) hc.2

end Host

/-- **The redraw flag is sound.** A host that takes the cells anew only after steps that answer that the screen changed
always has the cells of the screen. -/
theorem redraw_sound {platform : Platform} {program : List UInt8} {width height : Int} {random : RandomSource}
    {tracing : Bool} (h : Emulator.start platform program width height random tracing = .ok e)
    (controls : List Control) :
    let now := e.performAll controls
    ((∀ control ∈ controls, control.isSingle = true) →
      (Host.of e).performAll controls = ⟨now, now.machine.screen.cells⟩) ∧
    (now.step.1 = .ok true ↔ ∃ x, now.machine.executed? = some x ∧
      (x.instruction.word = 0x00E0 ∨ x.instruction.word / 0x1000 = 0xD)) ∧
    (now.step.1 ≠ .ok true → now.step.2.machine.screen = now.machine.screen) ∧
    now.machine.redraw = ((e.answers (e.eventsOfAll controls)).getLast?.map tellsChange).getD false := by
  intro now
  refine ⟨fun hc => ?_, ?_, fun hne => ?_, ?_⟩
  · have hcopy : ((Host.of e).performAll controls).Current := (Host.current_of e).performAll hc
    have hnow : ((Host.of e).performAll controls).emulator = now := Host.emulator_performAll _ controls
    rw [← hnow, ← hcopy]
  · rw [Emulator.step_eq_true, Machine.draws_eq_true]
  · rw [Emulator.machine_step]
    refine Machine.screen_step ?_
    exact Bool.eq_false_iff.mpr fun hd => hne (Emulator.step_eq_true.mpr hd)
  · obtain ⟨_, _, he⟩ := Emulator.start_eq h
    have hstart : e.machine.redraw = false := by rw [he]; rfl
    have hnow : now = e.afterAll (e.eventsOfAll controls) := e.performAll_eq controls
    rw [hnow, Emulator.redraw_afterAll, hstart]

/-- A program that draws one row of the glyph of nought, by a host that also tries a key that there is none of. -/
theorem redraw_sound_row : ∃ e : Emulator, Emulator.start .vast [0xD0, 0x01] 8 4 (.cycle []) false = .ok e ∧
    e.step.1 = .ok true ∧
    ((Host.of e).performAll [.keyDown 99, .step, .step]).copy =
      (e.performAll [.keyDown 99, .step, .step]).machine.screen.cells := by
  obtain ⟨e, h⟩ := Emulator.exists_start .vast [0xD0, 0x01] 8 4 (.cycle []) false
    (by decide) (by decide) (by decide) (by decide)
  obtain ⟨_, _, he⟩ := Emulator.start_eq h
  have hfetch : e.machine.fetch = .decode 0xD001 := by rw [he]; exact Emulator.fetch_boot ..
  have hx := (Machine.executed?_of_execute (m := e.machine) (by rw [he]; rfl) (by rw [hfetch]; rfl)).1
  have hword : e.machine.fetch.word / 0x1000 = 0xD := by rw [hfetch]; decide
  have hdraws := (redraw_sound h []).2.1.mpr ⟨_, hx, .inr hword⟩
  have hcopy := (redraw_sound h [.keyDown 99, .step, .step]).1 (by decide)
  exact ⟨e, h, hdraws, congrArg Host.copy hcopy⟩

end ChipEight
