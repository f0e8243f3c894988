import ChipEight.Proofs.History
import ChipEight.Proofs.KeyWait

/-!
# Keys that are fed

A scheduled run answers the waits of a program with the keys of a list. Each key is held down for the step that stores
it, and for no other.

- `Emulator.Feeding` lists the turns that a scheduled run can take, and `feeding` says that it takes them;
- by induction on these turns: `Feeding.shape` (every key goes down right before the step that stores it, and up right
  after), `Feeding.asked` and `Feeding.stored` (waits and keys are matched in order), `Feeding.released` (no instruction
  sees a key held down) and `Feeding.count_le` (the budget);
- `feed_in_order`: the main statement.
-/

namespace ChipEight

variable {m m' : Machine} {r : Register} {key : Key} {keys : List Key} {e after : Emulator} {budget : Nat}
  {events : List Event} {result : Except StackFault (List Key)}

/-! ## What a step asks for and stores -/

/-- The register that waits for a key. -/
def KeyWait.open? : KeyWait → Option Register
  | .awaiting r => some r
  | _ => none

/-- The register and the key that the next step stores. -/
def KeyWait.answer? : KeyWait → Option (Register × Key)
  | .pending r key => some (r, key)
  | _ => none

/-- The register of the instruction that asks for a key, if the next step executes such an instruction. -/
def Machine.asks? (m : Machine) : Option Register :=
  m.executed?.bind fun x => if x.instruction.op = .awaitKey then some x.instruction.x else none

namespace Machine

theorem keys_step (m : Machine) : m.step.machine.keys = m.keys := by
  have hc := m.stepCase
  generalize m.step = outcome at hc
  cases hc with
  | stored r k _ => rfl
  | waited r _ => rfl
  | faulted fault _ _ => rfl
  | executed m' notes _ hx =>
    obtain ⟨n, hn, rfl⟩ := execute_eq_ok hx
    exact (effect_frame hn).keys

theorem heldKeys_step (m : Machine) : m.step.machine.heldKeys = m.heldKeys := by
  unfold heldKeys
  rw [keys_step]

/-- A machine that was just switched on has no keys held down. -/
theorem heldKeys_boot (program : List UInt8) (screen : Screen) (random : RandomSource) :
    (boot program screen random).heldKeys = [] := by
  simp [boot, heldKeys]

/-- A key that was marked as held down, and then no longer, is not held down. -/
theorem heldKeys_of_set (h : m.heldKeys = []) (key : Key)
    (hkeys : m'.keys = ((m.setKey key true).setKey key false).keys) : m'.heldKeys = [] := by
  unfold heldKeys at *
  rw [hkeys, List.filter_eq_nil_iff]
  rw [List.filter_eq_nil_iff] at h
  intro k hk
  have := h k hk
  simp only [setKey, Fin.getElem_fin, Vector.getElem_set]
  split
  · simp
  · simpa using this

/-- After an instruction a key is awaited if the instruction asked for one, and otherwise the machine goes on. -/
theorem keyWait_step_running (h : m.keyWait = .running) :
    (m.asks? = none ∧ m.step.machine.keyWait = .running) ∨
      ∃ r, m.asks? = some r ∧ m.step.machine.keyWait = .awaiting r := by
  have hc := m.stepCase
  generalize hs : m.step = outcome at hc
  cases hc with
  | stored r k hw => rw [h] at hw; cases hw
  | waited r hw => rw [h] at hw; cases hw
  | faulted fault _ _ =>
    have hx : m.executed? = none := executed?_of_fault (by rw [hs]; rfl)
    exact .inl ⟨by rw [asks?, hx]; rfl, h⟩
  | executed m' notes _ hx =>
    have he := (executed?_of_execute h hx).1
    obtain ⟨n, hn, rfl⟩ := execute_eq_ok hx
    by_cases hop : m.fetch.op = .awaitKey
    · rw [hop] at hn
      obtain ⟨rfl, -⟩ := effect_awaitKey hn
      exact .inr ⟨m.fetch.x, by rw [asks?, he, Option.bind_some, if_pos hop], rfl⟩
    · exact .inl ⟨by rw [asks?, he, Option.bind_some, if_neg hop], ((effect_frame hn).keyWait hop).trans h⟩

theorem running_of_upcoming {ins : Instruction} (h : m.upcoming? = some ins) : m.keyWait = .running := by
  unfold upcoming? at h
  split at h
  · assumption
  · cases h

theorem asks?_of_not_running (h : m.keyWait ≠ .running) : m.asks? = none := by
  rw [asks?, executed?_of_not_running h, Option.bind_none]

theorem open?_step_running (h : m.keyWait = .running) : m.step.machine.keyWait.open? = m.asks? := by
  rcases keyWait_step_running h with ⟨ha, hw⟩ | ⟨r, ha, hw⟩ <;> rw [ha, hw] <;> rfl

end Machine

/-! ## One turn -/

namespace Emulator

/-- The emulator after a wait was answered: the key went down, was stored, and went up. -/
def answered (e : Emulator) (key : Key) : Emulator :=
  ((e.press key).step.2).release key

/-- No key is held down or about to be stored. -/
structure Ready (e : Emulator) : Prop where
  released : e.machine.heldKeys = []
  unanswered : e.machine.keyWait.answer? = none

theorem keyWait_press (hw : e.machine.keyWait = .awaiting r) : (e.press key).machine.keyWait = .pending r key := by
  rw [machine_press, Machine.keyDown_awaiting hw]

theorem step_press (hw : e.machine.keyWait = .awaiting r) : (e.press key).step.1 = .ok false := by
  rw [step_pending (keyWait_press hw)]

theorem keyWait_answered (hw : e.machine.keyWait = .awaiting r) : (e.answered key).machine.keyWait = .running := by
  rw [answered, step_pending (keyWait_press hw)]
  rfl

/-- A key that went down and up again is no longer held down. -/
theorem heldKeys_answered (h : e.machine.heldKeys = []) (key : Key) : (e.answered key).machine.heldKeys = [] := by
  refine Machine.heldKeys_of_set h key ?_
  show ((e.press key).step.2.machine.keys).set key false = _
  rw [machine_step, Machine.keys_step, machine_press, Machine.keyDown_eq]
  rfl

theorem Ready.answered (h : e.Ready) (hw : e.machine.keyWait = .awaiting r) (key : Key) : (e.answered key).Ready :=
  ⟨heldKeys_answered h.released key, by rw [keyWait_answered hw]; rfl⟩

theorem Ready.step (h : e.Ready) (hw : e.machine.keyWait = .running) : e.step.2.Ready where
  released := by rw [machine_step, Machine.heldKeys_step, h.released]
  unanswered := by
    rw [machine_step]
    rcases Machine.keyWait_step_running hw with ⟨-, hs⟩ | ⟨r, -, hs⟩ <;> rw [hs] <;> rfl

/-! ## The turns of a scheduled run -/

/-- The turns that a scheduled run can take, with its events, the keys that are left or the fault, and the emulator at
its end. -/
inductive Feeding : Nat → List Key → Emulator → List Event → Except StackFault (List Key) → Emulator → Prop where
  | spent (keys : List Key) (e : Emulator) : Feeding 0 keys e [] (.ok keys) e
  | starved {budget : Nat} {e : Emulator} (r : Register) : e.machine.keyWait = .awaiting r →
      Feeding (budget + 1) [] e [] (.ok []) e
  | answered {budget : Nat} {keys : List Key} {e after : Emulator} {events : List Event}
      {result : Except StackFault (List Key)} (r : Register) (key : Key) : e.machine.keyWait = .awaiting r →
      Feeding budget keys (e.answered key) events result after →
      Feeding (budget + 1) (key :: keys) e (.press key :: .step :: .release key :: events) result after
  | stepped {budget : Nat} {keys : List Key} {e after : Emulator} {events : List Event}
      {result : Except StackFault (List Key)} (redraw : Bool) : e.machine.keyWait = .running →
      e.step.1 = .ok redraw → Feeding budget keys e.step.2 events result after →
      Feeding (budget + 1) keys e (.step :: events) result after
  | faulted {budget : Nat} {keys : List Key} {e : Emulator} (fault : StackFault) : e.machine.keyWait = .running →
      e.step.1 = .error fault → Feeding (budget + 1) keys e [.step] (.error fault) e.step.2

def numbers (keys : List Key) : List Int :=
  keys.map fun key => key.val

/-- What a scheduled run answers after some steps. -/
def feedAnswer (steps : Nat) : Except StackFault (List Key) → Except FeedFault Fed
  | .ok left => .ok ⟨steps, numbers left⟩
  | .error fault => .error (.stack fault)

theorem feed_answered (hw : e.machine.keyWait = .awaiting r) (key : Key) (done budget : Nat) (keys : List Int) :
    feedFrom done (budget + 1) (key.val :: keys) e = feedFrom (done + 1) budget keys (e.answered key) ∧
      feedEvents (budget + 1) (key.val :: keys) e =
        .press key :: .step :: .release key :: feedEvents budget keys (e.answered key) := by
  have ha : e.machine.awaitingKey = true := by simp only [Machine.awaitingKey, hw]
  have hs : (e.press key).step = (.ok false, (e.press key).step.2) := Prod.ext (step_press hw) rfl
  rw [feedFrom, feedEvents, if_pos ha, if_pos ha]
  simp only [ofInt_val]
  rw [hs]
  exact ⟨rfl, rfl⟩

/-- A step that does not fault, made while no key is awaited, and how a scheduled run goes on. -/
theorem feed_step_ok (ha : e.machine.awaitingKey = false) {redraw : Bool} (hs : e.step.1 = .ok redraw)
    (done budget : Nat) (keys : List Int) :
    feedFrom done (budget + 1) keys e = feedFrom (done + 1) budget keys e.step.2 ∧
      feedEvents (budget + 1) keys e = .step :: feedEvents budget keys e.step.2 := by
  have hs : e.step = (.ok redraw, e.step.2) := Prod.ext hs rfl
  rw [feedFrom.eq_def, feedEvents.eq_def]
  simp only [ha, Bool.false_eq_true, if_false]
  rw [hs]
  exact ⟨rfl, rfl⟩

/-- A step that faults, made while no key is awaited, ends a scheduled run. -/
theorem feed_step_error (ha : e.machine.awaitingKey = false) {fault : StackFault} (hs : e.step.1 = .error fault)
    (done budget : Nat) (keys : List Int) :
    feedFrom done (budget + 1) keys e = (.error (.stack fault), e.step.2) ∧
      feedEvents (budget + 1) keys e = [.step] := by
  have hs : e.step = (.error fault, e.step.2) := Prod.ext hs rfl
  rw [feedFrom.eq_def, feedEvents.eq_def]
  simp only [ha, Bool.false_eq_true, if_false]
  rw [hs]
  exact ⟨rfl, rfl⟩

theorem feed_stepped (hw : e.machine.keyWait = .running) {redraw : Bool} (hs : e.step.1 = .ok redraw)
    (done budget : Nat) (keys : List Int) :
    feedFrom done (budget + 1) keys e = feedFrom (done + 1) budget keys e.step.2 ∧
      feedEvents (budget + 1) keys e = .step :: feedEvents budget keys e.step.2 :=
  feed_step_ok (by simp only [Machine.awaitingKey, hw]) hs done budget keys

theorem feed_faulted (hw : e.machine.keyWait = .running) {fault : StackFault} (hs : e.step.1 = .error fault)
    (done budget : Nat) (keys : List Int) :
    feedFrom done (budget + 1) keys e = (.error (.stack fault), e.step.2) ∧
      feedEvents (budget + 1) keys e = [.step] :=
  feed_step_error (by simp only [Machine.awaitingKey, hw]) hs done budget keys

/-- **A scheduled run takes these turns.** -/
theorem feeding (h : e.Ready) (done budget : Nat) (keys : List Key) : ∃ result,
    Feeding budget keys e (feedEvents budget (numbers keys) e) result (feedFrom done budget (numbers keys) e).2 ∧
      (feedFrom done budget (numbers keys) e).1 =
        feedAnswer (done + (feedEvents budget (numbers keys) e).count .step) result := by
  induction budget generalizing done keys e with
  | zero => exact ⟨.ok keys, .spent keys e, rfl⟩
  | succ budget ih =>
    cases hw : e.machine.keyWait with
    | pending r k => simpa [hw, KeyWait.answer?] using h.unanswered
    | awaiting r =>
      cases keys with
      | nil =>
        have ha : e.machine.awaitingKey = true := by simp only [Machine.awaitingKey, hw]
        unfold feedFrom feedEvents
        rw [if_pos ha, if_pos ha]
        exact ⟨.ok [], .starved r hw, rfl⟩
      | cons key keys =>
        obtain ⟨result, hf, hanswer⟩ := ih (h.answered hw key) (done + 1) keys
        obtain ⟨hfrom, hevents⟩ := feed_answered hw key done budget (numbers keys)
        rw [show numbers (key :: keys) = (key.val : Int) :: numbers keys from rfl, hfrom, hevents]
        refine ⟨result, .answered r key hw hf, hanswer.trans (congrArg (feedAnswer · result) ?_)⟩
        rw [List.count_cons_of_ne (by simp), List.count_cons_self, List.count_cons_of_ne (by simp)]
        omega
    | running =>
      cases hs : e.step.1 with
      | error fault =>
        obtain ⟨hfrom, hevents⟩ := feed_faulted hw hs done budget (numbers keys)
        rw [hfrom, hevents]
        exact ⟨.error fault, .faulted fault hw hs, rfl⟩
      | ok redraw =>
        obtain ⟨result, hf, hanswer⟩ := ih (h.step hw) (done + 1) keys
        obtain ⟨hfrom, hevents⟩ := feed_stepped hw hs done budget (numbers keys)
        rw [hfrom, hevents]
        refine ⟨result, .stepped redraw hw hs hf, hanswer.trans (congrArg (feedAnswer · result) ?_)⟩
        rw [List.count_cons_self]
        omega

/-! ## What the turns amount to -/

/-- The registers that the steps among the events ask keys for, oldest first. -/
def asked (e : Emulator) (events : List Event) : List Register :=
  (e.moments events).filterMap fun moment => moment.machine.asks?

/-- The registers and keys that the steps among the events store, oldest first. -/
def stored (e : Emulator) (events : List Event) : List (Register × Key) :=
  (e.moments events).filterMap fun moment => moment.machine.keyWait.answer?

/-- The events around a step of a scheduled run. -/
def eventsAround (moment : Emulator) : List Event :=
  match moment.machine.keyWait with
  | .pending _ key => [.press key, .step, .release key]
  | _ => [.step]

theorem asked_step (e : Emulator) (events : List Event) :
    e.asked (.step :: events) = e.machine.asks?.toList ++ e.step.2.asked events := by
  rw [asked, moments_step, List.filterMap_cons]
  cases e.machine.asks? <;> rfl

theorem stored_step (e : Emulator) (events : List Event) :
    e.stored (.step :: events) = e.machine.keyWait.answer?.toList ++ e.step.2.stored events := by
  rw [stored, moments_step, List.filterMap_cons]
  cases e.machine.keyWait.answer? <;> rfl

theorem moments_answered (e : Emulator) (key : Key) (events : List Event) :
    e.moments (.press key :: .step :: .release key :: events) = e.press key :: (e.answered key).moments events := by
  rw [moments_press, moments_step, moments_release]
  rfl

theorem asked_answered (hw : e.machine.keyWait = .awaiting r) (events : List Event) :
    e.asked (.press key :: .step :: .release key :: events) = (e.answered key).asked events := by
  have ha : (e.press key).machine.asks? = none := Machine.asks?_of_not_running (by rw [keyWait_press hw]; nofun)
  rw [asked, moments_answered, List.filterMap_cons, ha]
  rfl

theorem stored_answered (hw : e.machine.keyWait = .awaiting r) (events : List Event) :
    e.stored (.press key :: .step :: .release key :: events) = (r, key) :: (e.answered key).stored events := by
  rw [stored, moments_answered, List.filterMap_cons, keyWait_press hw]
  rfl

namespace Feeding

variable {budget : Nat} {keys : List Key} {events : List Event} {result : Except StackFault (List Key)}

/-- Every key goes down right before the step that stores it, and up right after. -/
theorem shape (h : Feeding budget keys e events result after) : events = (e.moments events).flatMap eventsAround := by
  induction h with
  | spent | starved => rfl
  | @answered _ _ e _ _ _ r key hw _ ih =>
    have ha : eventsAround (e.press key) = [.press key, .step, .release key] := by rw [eventsAround, keyWait_press hw]
    rw [moments_answered, List.flatMap_cons, ha, ← ih]
    rfl
  | @stepped _ _ e _ _ _ _ hw _ _ ih =>
    have ha : eventsAround e = [.step] := by rw [eventsAround, hw]
    rw [moments_step, List.flatMap_cons, ha, ← ih]
    rfl
  | @faulted _ _ e _ hw _ =>
    have ha : eventsAround e = [.step] := by rw [eventsAround, hw]
    rw [moments_step, List.flatMap_cons, ha]
    rfl

/-- Every wait is answered, the last one excepted if it is still open. -/
theorem asked (h : Feeding budget keys e events result after) : e.machine.keyWait.open?.toList ++ e.asked events =
    (e.stored events).map Prod.fst ++ after.machine.keyWait.open?.toList := by
  induction h with
  | spent | starved => exact List.append_nil _
  | @answered _ _ e _ _ _ r key hw _ ih =>
    rw [keyWait_answered hw] at ih
    rw [asked_answered hw, stored_answered hw, hw, List.map_cons, List.cons_append, ← ih]
    rfl
  | @stepped _ _ e _ _ _ _ hw _ _ ih =>
    rw [machine_step, Machine.open?_step_running hw] at ih
    rw [asked_step, stored_step, hw, ih]
    rfl
  | @faulted _ _ e _ hw _ =>
    rw [asked_step, stored_step, hw, machine_step, Machine.open?_step_running hw]
    exact List.append_nil _

/-- The keys that are stored are the first ones of the list, and the others are left. -/
theorem stored (h : Feeding budget keys e events result after) :
    ∃ left, keys = (e.stored events).map Prod.snd ++ left ∧ ∀ keys, result = .ok keys → keys = left := by
  induction h with
  | spent keys e => exact ⟨keys, rfl, fun _ h => (Except.ok.inj h).symm⟩
  | starved => exact ⟨[], rfl, fun _ h => (Except.ok.inj h).symm⟩
  | @answered _ _ e _ _ _ r key hw _ ih =>
    obtain ⟨left, hkeys, hleft⟩ := ih
    exact ⟨left, by rw [stored_answered hw, List.map_cons, List.cons_append, ← hkeys], hleft⟩
  | @stepped _ _ e _ _ _ _ hw _ _ ih =>
    rw [stored_step, hw]
    exact ih
  | @faulted _ keys e _ hw _ =>
    rw [stored_step, hw]
    exact ⟨keys, rfl, fun _ h => by cases h⟩

/-- No instruction sees a key held down, and none is held down in the end. -/
theorem released (h : Feeding budget keys e events result after) (he : e.machine.heldKeys = []) :
    (∀ moment ∈ e.moments events, moment.machine.keyWait = .running → moment.machine.heldKeys = []) ∧
      after.machine.heldKeys = [] := by
  induction h with
  | spent | starved => exact ⟨fun _ hm => (List.not_mem_nil hm).elim, he⟩
  | @answered _ _ e _ _ _ r key hw _ ih =>
    obtain ⟨hrest, hend⟩ := ih (heldKeys_answered he key)
    refine ⟨fun moment hm hrun => ?_, hend⟩
    rw [moments_answered] at hm
    rcases List.mem_cons.mp hm with rfl | hm
    · rw [keyWait_press hw] at hrun
      cases hrun
    · exact hrest moment hm hrun
  | @stepped _ _ e _ _ _ _ hw _ _ ih =>
    obtain ⟨hrest, hend⟩ := ih (by rw [machine_step, Machine.heldKeys_step, he])
    refine ⟨fun moment hm hrun => ?_, hend⟩
    rw [moments_step] at hm
    rcases List.mem_cons.mp hm with rfl | hm
    · exact he
    · exact hrest moment hm hrun
  | @faulted _ _ e _ hw _ =>
    refine ⟨fun moment hm _ => ?_, by rw [machine_step, Machine.heldKeys_step, he]⟩
    obtain rfl : moment = e := by simpa using hm
    exact he

/-- A scheduled run keeps to its budget, and stops before only for want of a key. -/
theorem count_le (h : Feeding budget keys e events result after) : events.count .step ≤ budget ∧
    ∀ left, result = .ok left → events.count .step < budget → after.machine.awaitingKey = true ∧ left = [] := by
  induction h with
  | spent => exact ⟨Nat.le_refl _, fun _ _ hlt => absurd hlt (Nat.lt_irrefl _)⟩
  | starved r hw =>
    refine ⟨Nat.zero_le _, fun left h _ => ⟨by simp [Machine.awaitingKey, hw], (Except.ok.inj h).symm⟩⟩
  | answered r key _ _ ih =>
    rw [List.count_cons_of_ne (by simp), List.count_cons_self, List.count_cons_of_ne (by simp)]
    exact ⟨by omega, fun left h hlt => ih.2 left h (by omega)⟩
  | stepped _ _ _ _ ih =>
    rw [List.count_cons_self]
    exact ⟨by omega, fun left h hlt => ih.2 left h (by omega)⟩
  | faulted => exact ⟨by simp, fun _ h => by cases h⟩

/-- A scheduled run that faults does so in its last event, a step. The steps before that one do not fault. -/
theorem last_fault {fault : StackFault} (h : Feeding budget keys e events (.error fault) after) :
    ∃ earlier, events = earlier ++ [.step] ∧ (∀ answer ∈ e.answers earlier, ∃ redraw, answer = .ok redraw) ∧
      (e.afterAll earlier).step.1 = .error fault ∧ after = (e.afterAll earlier).step.2 := by
  generalize hr : (Except.error fault : Except StackFault (List Key)) = result at h
  induction h with
  | spent | starved => cases hr
  | @answered _ _ e _ _ _ r key hw _ ih =>
    obtain ⟨earlier, rfl, hanswers, hlast, hafter⟩ := ih hr
    refine ⟨.press key :: .step :: .release key :: earlier, rfl, ?_, ?_, ?_⟩
    · rw [answers, moments_answered, List.map_cons]
      exact List.forall_mem_cons.mpr ⟨⟨false, step_press hw⟩, hanswers⟩
    · rw [afterAll_cons, after_press, afterAll_cons, after_step, afterAll_cons, after_release]
      exact hlast
    · rw [afterAll_cons, after_press, afterAll_cons, after_step, afterAll_cons, after_release]
      exact hafter
  | @stepped _ _ e _ _ _ redraw _ hs _ ih =>
    obtain ⟨earlier, rfl, hanswers, hlast, hafter⟩ := ih hr
    refine ⟨.step :: earlier, rfl, ?_, hlast, hafter⟩
    rw [answers, moments_step, List.map_cons]
    exact List.forall_mem_cons.mpr ⟨⟨redraw, hs⟩, hanswers⟩
  | @faulted _ _ e _ _ hs =>
    obtain rfl := Except.error.inj hr
    exact ⟨[], rfl, fun _ h => (List.not_mem_nil h).elim, hs, rfl⟩

end Feeding

/-- The steps among the events that store a key, oldest first. -/
def commits (e : Emulator) (events : List Event) : List Emulator :=
  (e.moments events).filter fun moment => moment.machine.keyWait.answer?.isSome

theorem map_commits (e : Emulator) (events : List Event) :
    (e.commits events).map (fun moment => moment.machine.keyWait.answer?) = (e.stored events).map some := by
  rw [stored, List.map_filterMap_some_eq_filter_map_isSome, List.filter_map]
  rfl

theorem length_commits (e : Emulator) (events : List Event) : (e.commits events).length = (e.stored events).length := by
  have := congrArg List.length (e.map_commits events)
  rwa [List.length_map, List.length_map] at this

theorem getElem?_stored {events : List Event} {commit : Emulator} {i : Nat} (h : (e.commits events)[i]? = some commit) :
    ∃ x key, (e.stored events)[i]? = some (x, key) ∧ commit.machine.keyWait = .pending x key := by
  have hi := congrArg (·[i]?) (e.map_commits events)
  simp only [List.getElem?_map, h, Option.map_some] at hi
  obtain ⟨⟨x, key⟩, hs, ha⟩ := Option.map_eq_some_iff.mp hi.symm
  refine ⟨x, key, hs, ?_⟩
  cases hw : commit.machine.keyWait with
  | running | awaiting => simp [hw, KeyWait.answer?] at ha
  | pending y k =>
    simp only [hw, KeyWait.answer?, Option.some.injEq, Prod.mk.injEq] at ha
    rw [ha.1, ha.2]

namespace Feeding

variable {budget : Nat} {keys : List Key} {events : List Event} {result : Except StackFault (List Key)}

/-- The keys that are left are those behind the ones that were stored. -/
theorem left_eq (h : Feeding budget keys e events result after) : (e.commits events).length ≤ keys.length ∧
    ∀ left, result = .ok left → left = keys.drop (e.commits events).length := by
  obtain ⟨left, hkeys, hleft⟩ := h.stored
  have hlength := e.length_commits events
  have hdrop : keys.drop (e.commits events).length = left := by
    have h := congrArg (List.drop (e.commits events).length) hkeys
    rwa [List.drop_left' (by rw [List.length_map, hlength])] at h
  refine ⟨?_, fun left' h => (hleft left' h).trans hdrop.symm⟩
  rw [hlength, hkeys, List.length_append, List.length_map]
  exact Nat.le_add_right ..

/-- The waits are those that were answered, and the last one if it is open. -/
theorem asked_eq (h : Feeding budget keys e events result after) (hw : e.machine.keyWait = .running) :
    e.asked events = (e.stored events).map Prod.fst ++ after.machine.keyWait.open?.toList := by
  have := h.asked
  rwa [hw] at this

/-- The steps that store a key take waits and keys in order. -/
theorem commit (h : Feeding budget keys e events result after) (hw : e.machine.keyWait = .running) {i : Nat}
    {commit : Emulator} (hc : (e.commits events)[i]? = some commit) :
    ∃ x key, (e.asked events)[i]? = some x ∧ keys[i]? = some key ∧
      commit.step.2.machine.registers = commit.machine.registers.put x key.val := by
  obtain ⟨x, key, hstored, hpending⟩ := getElem?_stored hc
  obtain ⟨left, hkeys, -⟩ := h.stored
  have hi : i < (e.stored events).length := (List.getElem?_eq_some_iff.mp hstored).1
  refine ⟨x, key, ?_, ?_, by rw [step_pending hpending]⟩
  · rw [h.asked_eq hw, List.getElem?_append_left (by rwa [List.length_map]), List.getElem?_map, hstored]
    rfl
  · rw [hkeys, List.getElem?_append_left (by rwa [List.length_map]), List.getElem?_map, hstored]
    rfl

theorem length_asked (h : Feeding budget keys e events result after) (hw : e.machine.keyWait = .running) :
    (e.asked events).length = (e.commits events).length + (if after.machine.awaitingKey then 1 else 0) := by
  rw [h.asked_eq hw, length_commits, List.length_append, List.length_map]
  cases hopen : after.machine.keyWait <;> simp [KeyWait.open?, Machine.awaitingKey, hopen]

end Feeding

end Emulator

/-! ## Keys in order -/

/-- **A scheduled run delivers its keys in order, each one once**: a key goes down only for the step that stores it, and
a run that ends well makes fewer steps than its budget only if it waits with no key left. -/
theorem feed_in_order {e : Emulator} (hw : e.machine.keyWait = .running) (hk : e.machine.heldKeys = [])
    (cycles : Int) (keys : List Key) :
    let events := e.eventsOf (.feed cycles (Emulator.numbers keys))
    let asked := e.asked events
    let commits := e.commits events
    let after := (e.feed cycles (Emulator.numbers keys)).2
    after = e.afterAll events ∧ events = (e.moments events).flatMap Emulator.eventsAround ∧
    commits.length ≤ keys.length ∧
    (∀ (i : Nat) (commit : Emulator), commits[i]? = some commit → ∃ x key, asked[i]? = some x ∧ keys[i]? = some key ∧
      commit.step.2.machine.registers = commit.machine.registers.put x key.val) ∧
    asked.length = commits.length + (if after.machine.awaitingKey then 1 else 0) ∧
    (∀ moment ∈ e.moments events, ∀ ins, moment.machine.upcoming? = some ins → moment.machine.heldKeys = []) ∧
    after.machine.heldKeys = [] ∧
    (∀ fault, (e.feed cycles (Emulator.numbers keys)).1 = .error fault → ∃ cause, fault = .stack cause) ∧
    ∀ fed, (e.feed cycles (Emulator.numbers keys)).1 = .ok fed →
      fed.steps = (e.moments events).length ∧ fed.left = Emulator.numbers (keys.drop commits.length) ∧
      (fed.steps : Int) ≤ max cycles 0 ∧
      ((fed.steps : Int) < cycles → after.machine.awaitingKey = true ∧ commits.length = keys.length) := by
  intro events asked commits after
  obtain ⟨result, hf, hanswer⟩ :
      ∃ result, Emulator.Feeding cycles.toNat keys e events result after ∧
        (e.feed cycles (Emulator.numbers keys)).1 = Emulator.feedAnswer (0 + events.count .step) result :=
    Emulator.feeding ⟨hk, by rw [hw]; rfl⟩ 0 cycles.toNat keys
  obtain ⟨hle, hleft⟩ := hf.left_eq
  obtain ⟨hreleased, hend⟩ := hf.released hk
  rw [Nat.zero_add, ← e.length_moments] at hanswer
  refine ⟨e.perform_eq (.feed cycles (Emulator.numbers keys)), hf.shape, hle, fun _ _ => hf.commit hw,
    hf.length_asked hw, fun moment hm ins hins => hreleased moment hm (Machine.running_of_upcoming hins), hend, ?_, ?_⟩
  · intro fault hfault
    rw [hanswer] at hfault
    cases result with
    | ok keys => cases hfault
    | error cause => exact ⟨cause, (Except.error.inj hfault).symm⟩
  · intro fed hfed
    rw [hanswer] at hfed
    obtain ⟨hbudget, hearly⟩ := hf.count_le
    rw [← e.length_moments] at hbudget hearly
    cases result with
    | error cause => cases hfed
    | ok left =>
      obtain rfl := hleft left rfl
      obtain rfl := (Except.ok.inj hfed).symm
      refine ⟨rfl, rfl, by show ((e.moments events).length : Int) ≤ _; omega, fun hlt => ?_⟩
      have hlt : (e.moments events).length < cycles.toNat := by
        change ((e.moments events).length : Int) < cycles at hlt
        omega
      obtain ⟨hawait, hnone⟩ := hearly _ rfl hlt
      exact ⟨hawait, Nat.le_antisymm hle (List.drop_eq_nil_iff.mp hnone)⟩

/-- A program that asks for a key, with the key seven and two steps: the second step stores it. -/
theorem feed_in_order_two_steps : ∃ e : Emulator, e.Reachable ∧ e.machine.keyWait = .running ∧
    e.machine.heldKeys = [] ∧
    let keys : List Key := [⟨7, by decide⟩]
    let events := e.eventsOf (.feed 2 (Emulator.numbers keys))
    (e.feed 2 (Emulator.numbers keys)).1 = .ok ⟨2, []⟩ ∧ (e.asked events).length = 1 ∧
      ∃ commit x, e.commits events = [commit] ∧
        commit.step.2.machine.registers = commit.machine.registers.put x 7 := by
  obtain ⟨e, h⟩ := Emulator.exists_start .vast [0xF5, 0x0A] 64 32 (.cycle []) false
    (by decide) (by decide) (by decide) (by decide)
  obtain ⟨_, _, he⟩ := Emulator.start_eq h
  have hw : e.machine.keyWait = .running := by rw [he]; rfl
  have hk : e.machine.heldKeys = [] := by simp [he, Machine.boot, Machine.heldKeys]
  have hf : e.machine.fetch = .decode 0xF50A := by rw [he]; exact Emulator.fetch_boot ..
  have hu : e.machine.upcoming? = some (.decode 0xF50A) := by rw [← hf, he]; rfl
  obtain ⟨-, hasks, -, hfault⟩ := Machine.step_awaitKey hu (by decide)
  rw [← Emulator.machine_step] at hasks
  have hanswer : e.step.1 = .ok e.machine.step.machine.redraw := by rw [Emulator.step_answer, hfault]
  have hfed : e.feed 2 (Emulator.numbers [⟨7, by decide⟩]) = (.ok ⟨2, []⟩, e.step.2.answered ⟨7, by decide⟩) :=
    (Emulator.feed_stepped hw hanswer 0 1 _).1.trans (Emulator.feed_answered hasks ⟨7, by decide⟩ 1 0 []).1
  have hrunning : (e.feed 2 (Emulator.numbers [⟨7, by decide⟩])).2.machine.awaitingKey = false := by
    rw [hfed, Machine.awaitingKey, Emulator.keyWait_answered hasks]
  obtain ⟨-, -, hle, hcommits, hasked, -, -, -, hend⟩ := feed_in_order hw hk 2 [⟨7, by decide⟩]
  obtain ⟨-, hleft, -⟩ := hend ⟨2, []⟩ (by rw [hfed])
  rw [hrunning, if_neg Bool.false_ne_true] at hasked
  obtain ⟨commit, hcommit⟩ :
      ∃ commit, e.commits (e.eventsOf (.feed 2 (Emulator.numbers [⟨7, by decide⟩]))) = [commit] := by
    refine List.length_eq_one_iff.mp (Nat.le_antisymm hle (Nat.one_le_iff_ne_zero.mpr fun hnone => ?_))
    rw [hnone] at hleft
    cases hleft
  obtain ⟨x, key, -, hkey, hput⟩ := hcommits 0 commit (by rw [hcommit]; rfl)
  obtain rfl : ⟨7, by decide⟩ = key := Option.some.inj hkey
  rw [hcommit] at hasked
  exact ⟨e, .start h, hw, hk, by rw [hfed], hasked, commit, x, hcommit, hput⟩

end ChipEight
