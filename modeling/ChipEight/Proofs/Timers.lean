import ChipEight.Proofs.History
import ChipEight.Proofs.Range

/-!
# The timers

Both timers are set by an instruction of their own and count down by one in every step, whatever the step comes to.

- `Machine.sets?` is the value that the next step stores in a timer, and `timer_step` what a step does to a timer;
- `timer_afterAll`: what a run does to a timer that it does not set, by induction on its events;
- `timer_law`: the main statement, for any controls.
-/

namespace ChipEight

variable {op : Op} {ins : Instruction} {m m' : Machine} {notes : List Note} {e : Emulator}

/-- The timers of the machine. -/
inductive Timer where
  | delay
  | sound
  deriving DecidableEq, Repr

/-- The operation that stores a register in the timer. -/
def Timer.setter : Timer → Op
  | delay => .setDelay
  | sound => .setSound

/-- The operation that loads the timer into a register; the sound timer has none. -/
def Timer.getter? : Timer → Option Op
  | delay => some .readDelay
  | sound => none

namespace Machine

/-- The value of a timer. -/
def timer (m : Machine) : Timer → Int
  | .delay => m.delay
  | .sound => m.sound

/-- The value that the next step stores in a timer, if it executes the instruction that does so. -/
def sets? (m : Machine) (t : Timer) : Option Int :=
  m.executed?.bind fun x => if x.instruction.op = t.setter then some (m.registers.value x.instruction.x) else none

end Machine

/-! ## Operations -/

theorem Machine.timer_congr (hd : m'.delay = m.delay) (hs : m'.sound = m.sound) (t : Timer) :
    m'.timer t = m.timer t := by
  cases t with
  | delay => exact hd
  | sound => exact hs

theorem Machine.Good.timer (h : m.Good) (t : Timer) : IsByte (m.timer t) := by
  cases t with
  | delay => exact h.delay
  | sound => exact h.sound

theorem Frame.timer (h : Frame op m m') (hop : op ≠ t.setter) : m'.timer t = m.timer t := by
  cases t with
  | delay => exact h.delay hop
  | sound => exact h.sound hop

/-- The operation of a timer stores a register in it. -/
theorem effect_setter (h : effect t.setter ins m = .ok (m', notes)) : m'.timer t = m.registers.value ins.x := by
  cases t with
  | delay => cases h; rfl
  | sound => cases h; rfl

/-- The operation that loads a timer stores it in a register. -/
theorem effect_getter (hop : some op = t.getter?) (h : effect op ins m = .ok (m', notes)) :
    m'.registers.value ins.x = m.timer t := by
  cases t with
  | sound => cases hop
  | delay =>
    obtain rfl : op = .readDelay := Option.some.inj hop
    cases h
    exact (Registers.value_put ..).trans (if_pos rfl)

/-! ## Steps -/

namespace Machine

theorem timer_tick (h : m.Good) (t : Timer) : m.tick.timer t = max 0 (m.timer t - 1) := by
  rw [← countDown_eq_max (h.timer t)]
  cases t <;> rfl

theorem sets?_of_executed {x : Executed} (h : m.executed? = some x) : m.sets? t =
    if x.instruction.op = t.setter then some (m.registers.value x.instruction.x) else none := by
  rw [sets?, h, Option.bind_some]

/-- **A step stores a register in a timer, or lets it count down.** -/
theorem timer_step (h : m.Good) (t : Timer) : m.step.machine.timer t = (m.sets? t).getD (max 0 (m.timer t - 1)) := by
  rw [← timer_tick h]
  cases hx : m.executed? with
  | none =>
    rw [sets?, hx, Option.bind_none, Option.getD_none, step_not_executed hx]
    exact timer_congr rfl rfl t
  | some x =>
    obtain ⟨n, notes, hn, hs⟩ := step_executed hx
    rw [hs, sets?_of_executed hx]
    refine (timer_congr (m := n) rfl rfl t).trans ?_
    by_cases hop : x.instruction.op = t.setter
    · rw [if_pos hop, Option.getD_some]
      rw [hop] at hn
      have hv : n.timer t = m.tick.registers.value x.instruction.x := effect_setter hn
      exact hv
    · rw [if_neg hop, Option.getD_none]
      exact (effect_frame hn).timer hop

/-- An instruction that loads a timer sees it one below. -/
theorem value_step_getter (h : m.Good) {x : Executed} (hx : m.executed? = some x)
    (hop : some x.instruction.op = t.getter?) :
    m.step.machine.registers.value x.instruction.x = max 0 (m.timer t - 1) := by
  obtain ⟨n, notes, hn, hs⟩ := step_executed hx
  have hv : n.registers.value x.instruction.x = m.tick.timer t := effect_getter hop hn
  rw [hs, ← timer_tick h]
  exact hv

end Machine

/-! ## Runs -/

namespace Emulator

theorem timer_press (e : Emulator) (key : Key) (t : Timer) : (e.press key).machine.timer t = e.machine.timer t := by
  rw [machine_press, Machine.keyDown_eq]
  exact Machine.timer_congr rfl rfl t

theorem timer_release (e : Emulator) (key : Key) (t : Timer) : (e.release key).machine.timer t = e.machine.timer t :=
  Machine.timer_congr rfl rfl t

/-- A timer that is not set counts the steps. -/
theorem timer_afterAll (h : e.machine.Good) {events : List Event}
    (hn : ∀ moment ∈ e.moments events, moment.machine.sets? t = none) :
    (e.afterAll events).machine.timer t = max 0 (e.machine.timer t - events.count .step) := by
  induction events generalizing e with
  | nil =>
    have hb := (h.timer t).1
    rw [afterAll_nil, List.count_nil]
    omega
  | cons event events ih =>
    have hrest := Machine.good_kept.emulator e event h
    cases event with
    | press key =>
      rw [moments_press] at hn
      rw [after_press] at hrest
      rw [afterAll_cons, after_press, ih hrest hn, timer_press, List.count_cons_of_ne (by simp)]
    | release key =>
      rw [moments_release] at hn
      rw [after_release] at hrest
      rw [afterAll_cons, after_release, ih hrest hn, timer_release, List.count_cons_of_ne (by simp)]
    | step =>
      rw [moments_step, List.forall_mem_cons] at hn
      rw [after_step] at hrest
      have hs := Machine.timer_step h t
      rw [hn.1, Option.getD_none] at hs
      rw [afterAll_cons, after_step, ih hrest hn.2, machine_step, hs, List.count_cons_self]
      omega

/-- A timer counts the steps since it was set. -/
theorem timer_since (h : e.machine.Good) {events : List Event} {before later : List Emulator} {moment : Emulator}
    {value : Int} (hm : e.moments events = before ++ moment :: later) (hset : moment.machine.sets? t = some value)
    (hn : ∀ moment ∈ later, moment.machine.sets? t = none) :
    (e.afterAll events).machine.timer t = max 0 (value - later.length) := by
  obtain ⟨earlier, rest, rfl, -, rfl, rfl⟩ := exists_split hm
  have hnow := Machine.good_kept.emulator.afterAll h earlier
  have hnext := Machine.good_kept.emulator _ .step hnow
  rw [after_step] at hnext
  have hs := Machine.timer_step hnow t
  rw [hset, Option.getD_some] at hs
  rw [afterAll_append, afterAll_cons, after_step, timer_afterAll hnext hn, machine_step, hs, length_moments]

end Emulator

/-- **The timers over whole runs.** A timer counts the steps since it was last set, down to zero, whatever else the
steps do and whichever keys go down or up. -/
theorem timer_law (h : e.Reachable) (controls : List Control) (t : Timer) :
    let steps := e.moments (e.eventsOfAll controls)
    let now := e.performAll controls
    ((∀ moment ∈ steps, moment.machine.sets? t = none) →
      now.machine.timer t = max 0 (e.machine.timer t - steps.length)) ∧
    (∀ before moment later (value : Int), steps = before ++ moment :: later → moment.machine.sets? t = some value →
      (∀ moment ∈ later, moment.machine.sets? t = none) →
      now.machine.timer t = max 0 (value - later.length) ∧
      ∀ x, now.machine.executed? = some x → some x.instruction.op = t.getter? →
        now.step.2.machine.registers.value x.instruction.x = max 0 (value - (later.length + 1))) ∧
    ∀ index : Int, (now.keyDown index).2.machine.timer t = now.machine.timer t ∧
      (now.keyUp index).2.machine.timer t = now.machine.timer t := by
  intro steps now
  have hnow : now = e.afterAll (e.eventsOfAll controls) := e.performAll_eq controls
  have hgood : now.machine.Good := Machine.good_kept.emulator.performAll h.good controls
  refine ⟨fun hn => ?_, fun before moment later value hm hset hn => ?_, fun index => ?_⟩
  · rw [hnow, Emulator.timer_afterAll h.good hn, ← Emulator.length_moments]
  · have hsince : now.machine.timer t = max 0 (value - later.length) := by
      rw [hnow, Emulator.timer_since h.good hm hset hn]
    refine ⟨hsince, fun x hx hop => ?_⟩
    rw [Emulator.machine_step, Machine.value_step_getter hgood hx hop, hsince]
    omega
  · unfold Emulator.keyDown Emulator.keyUp
    cases Key.ofInt index with
    | error fault => exact ⟨rfl, rfl⟩
    | ok key => exact ⟨now.timer_press key t, now.timer_release key t⟩

/-- A program that stores five in the delay timer and loads it in the next step, which sees four. -/
theorem timer_law_five : ∃ e : Emulator, e.Reachable ∧
    let now := e.performAll [.step, .step]
    now.machine.timer .delay = 5 ∧ now.step.2.machine.registers.value ⟨1, by decide⟩ = 4 := by
  obtain ⟨e, h⟩ := Emulator.exists_start .vast [0x60, 0x05, 0xF0, 0x15, 0xF1, 0x07] 64 32 (.cycle []) false
    (by decide) (by decide) (by decide) (by decide)
  obtain ⟨_, _, he⟩ := Emulator.start_eq h
  obtain ⟨-, hload⟩ := Machine.executed?_image (m := e.machine) (k := 0)
    (n := { e.machine with registers := e.machine.registers.put ⟨0, by decide⟩ 5, pc := 0x202, cycles := 1 })
    (by rw [he]; rfl) (by decide) (by rw [he]; rfl) (by rw [he]; rfl) (by rw [he]; rfl)
  obtain ⟨hset, hnext⟩ := Machine.executed?_image (m := e.machine.step.machine) (k := 2)
    (n := { e.machine.step.machine with delay := 5, pc := 0x204, cycles := 2 })
    (by rw [hload, he]; rfl) (by decide) (by rw [hload, he]; rfl) (by rw [hload, he]; rfl) (by rw [hload, he]; rfl)
  obtain ⟨hget, -⟩ := Machine.executed?_image (m := e.machine.step.machine.step.machine) (k := 4)
    (n := { e.machine.step.machine.step.machine with
      registers := e.machine.step.machine.registers.put ⟨1, by decide⟩ 4, delay := 4, pc := 0x206, cycles := 3 })
    (by rw [hnext, hload, he]; rfl) (by decide) (by rw [hnext, hload, he]; rfl) (by rw [hnext, hload, he]; rfl)
    (by rw [hnext, hload, he]; rfl)
  have hsets : e.step.2.machine.sets? .delay = some 5 := by
    rw [Emulator.machine_step, Machine.sets?_of_executed hset, hload, he]
    rfl
  obtain ⟨hfive, hfour⟩ := (timer_law (.start h) [.step, .step] .delay).2.1 [e] e.step.2 [] 5 rfl hsets (by simp)
  have hnow : (e.performAll [.step, .step]).machine = e.machine.step.machine.step.machine := by
    show e.step.2.step.2.machine = _
    rw [Emulator.machine_step, Emulator.machine_step]
  have hloaded := hfour _ (by rw [hnow]; exact hget) rfl
  exact ⟨e, .start h, hfive, hloaded⟩

end ChipEight
