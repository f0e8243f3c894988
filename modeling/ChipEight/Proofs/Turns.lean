import ChipEight.Proofs.KeyFeed
import ChipEight.Proofs.StackFaults

/-!
# Runs in turns

A run, scheduled or not, is made of turns: in each of them one step is made, and a key goes down before it and up after
it if one is awaited.

- `Emulator.turn` is one turn of a scheduled run; `feed_succ` says that a scheduled run takes a turn and goes on from
  there;
- by induction on the budget: the count of earlier steps is only added (`feedFrom_done`), a run goes on where a shorter
  one ended (`feedFrom_add`, `feedFrom_add_error`), the keys that went down are those that are not left
  (`pressed_feed`), and a run that has no keys is a plain one (`feed_nil`);
- `run_and_feed_compose`: the main statement, about both kinds of runs.
-/

namespace ChipEight

variable {e after : Emulator} {budget more done : Nat} {keys : List Int} {fault : FeedFault} {fed : Fed}

/-- What a turn of a scheduled run comes to, with its events. -/
inductive Turn where
  /-- A key is awaited and none is left. -/
  | ended
  /-- The run breaks off. -/
  | broken (events : List Event) (fault : FeedFault)
  /-- The run goes on with the keys that are left. -/
  | taken (events : List Event) (left : List Int)

/-- The events of the turn. -/
def Turn.events : Turn → List Event
  | ended => []
  | broken events _ => events
  | taken events _ => events

theorem Machine.exists_awaiting {m : Machine} (h : m.awaitingKey = true) : ∃ r, m.keyWait = .awaiting r := by
  unfold Machine.awaitingKey at h
  cases hw : m.keyWait with
  | awaiting r => exact ⟨r, rfl⟩
  | running | pending => rw [hw] at h; cases h

namespace Emulator

/-! ## One turn -/

/-- One turn of a scheduled run. A step behind a key that went down stores it and cannot fault. -/
def turn (e : Emulator) (keys : List Int) : Turn :=
  if e.machine.awaitingKey then
    match keys with
    | [] => .ended
    | index :: left =>
      match Key.ofInt index with
      | .error fault => .broken [] (.key fault)
      | .ok key => .taken [.press key, .step, .release key] left
  else
    match e.step.1 with
    | .error fault => .broken [.step] (.stack fault)
    | .ok _ => .taken [.step] keys

theorem eq_of_ofInt {index : Int} {key : Key} (h : Key.ofInt index = .ok key) : index = key.val := by
  unfold Key.ofInt at h
  split at h
  · cases h
    simp only
    omega
  · cases h

theorem afterAll_answered (e : Emulator) (key : Key) :
    e.afterAll [.press key, .step, .release key] = e.answered key := by
  rw [afterAll_cons, afterAll_cons, afterAll_cons, after_press, after_step, after_release]
  rfl

/-- A scheduled run has ended when a key is awaited and none is left. -/
theorem turn_ended (h : e.turn keys = .ended) : e.machine.awaitingKey = true ∧ keys = [] := by
  unfold turn at h
  split at h
  case isTrue ha =>
    cases keys with
    | nil => exact ⟨ha, rfl⟩
    | cons index left => cases hk : Key.ofInt index <;> simp [hk] at h
  case isFalse => split at h <;> cases h

/-- **A scheduled run takes a turn and goes on from there.** -/
theorem feed_succ (e : Emulator) (done budget : Nat) (keys : List Int) :
    feedFrom done (budget + 1) keys e =
      (match e.turn keys with
      | .ended => (.ok ⟨done, []⟩, e)
      | .broken events fault => (.error fault, e.afterAll events)
      | .taken events left => feedFrom (done + 1) budget left (e.afterAll events)) ∧
    feedEvents (budget + 1) keys e =
      match e.turn keys with
      | .ended => []
      | .broken events _ => events
      | .taken events left => events ++ feedEvents budget left (e.afterAll events) := by
  unfold turn
  cases ha : e.machine.awaitingKey with
  | true =>
    obtain ⟨r, hr⟩ := Machine.exists_awaiting ha
    cases keys with
    | nil =>
      rw [feedFrom, feedEvents, if_pos ha, if_pos ha]
      exact ⟨rfl, rfl⟩
    | cons index left =>
      cases hk : Key.ofInt index with
      | error fault =>
        rw [feedFrom, feedEvents, if_pos ha, if_pos ha]
        simp only [hk]
        exact ⟨rfl, rfl⟩
      | ok key =>
        obtain rfl := eq_of_ofInt hk
        obtain ⟨hfrom, hevents⟩ := feed_answered hr key done budget left
        rw [hfrom, hevents]
        simp only [hk, if_true, afterAll_answered, List.cons_append, List.nil_append, and_self]
  | false =>
    cases hs : e.step.1 with
    | error fault => exact feed_step_error ha hs done budget keys
    | ok redraw => exact feed_step_ok ha hs done budget keys

/-! ## From turn to turn -/

/-- The same run after some more steps. -/
def later (steps : Nat) : Except FeedFault Fed → Except FeedFault Fed
  | .ok fed => .ok ⟨steps + fed.steps, fed.left⟩
  | .error fault => .error fault

/-- Steps that were made before are only added to the count. -/
theorem feedFrom_done (steps done budget : Nat) (keys : List Int) (e : Emulator) :
    feedFrom (steps + done) budget keys e =
      (later steps (feedFrom done budget keys e).1, (feedFrom done budget keys e).2) := by
  induction budget generalizing done keys e with
  | zero => rfl
  | succ budget ih =>
    rw [(feed_succ e (steps + done) budget keys).1, (feed_succ e done budget keys).1]
    cases e.turn keys with
    | ended => rfl
    | broken events fault => rfl
    | taken events left => exact ih (done + 1) left (e.afterAll events)

/-- A run that has ended does not go on with more steps. -/
theorem feedFrom_ended (h : e.turn keys = .ended) (done budget : Nat) :
    feedFrom done budget keys e = (.ok ⟨done, []⟩, e) := by
  obtain ⟨-, rfl⟩ := turn_ended h
  cases budget with
  | zero => rfl
  | succ budget =>
    rw [(feed_succ e done budget []).1, h]

/-- **A scheduled run goes on where a shorter one ended**, with the keys that were left. -/
theorem feedFrom_add (h : feedFrom done budget keys e = (.ok fed, after)) :
    feedFrom done (budget + more) keys e = feedFrom fed.steps more fed.left after := by
  induction budget generalizing done keys e with
  | zero =>
    cases h
    rw [Nat.zero_add]
  | succ budget ih =>
    rw [Nat.succ_add, (feed_succ e done (budget + more) keys).1]
    rw [(feed_succ e done budget keys).1] at h
    cases ht : e.turn keys with
    | ended =>
      rw [ht] at h
      cases h
      obtain ⟨-, rfl⟩ := turn_ended ht
      exact (feedFrom_ended ht done more).symm
    | broken events fault =>
      rw [ht] at h
      cases h
    | taken events left =>
      rw [ht] at h
      exact ih h

/-- A scheduled run that breaks off breaks off in the same way with more steps. -/
theorem feedFrom_add_error (h : feedFrom done budget keys e = (.error fault, after)) :
    feedFrom done (budget + more) keys e = (.error fault, after) := by
  induction budget generalizing done keys e with
  | zero => cases h
  | succ budget ih =>
    rw [Nat.succ_add, (feed_succ e done (budget + more) keys).1]
    rw [(feed_succ e done budget keys).1] at h
    cases ht : e.turn keys with
    | ended =>
      rw [ht] at h
      cases h
    | broken events cause =>
      rw [ht] at h
      exact h
    | taken events left =>
      rw [ht] at h
      exact ih h

/-! ## Keys that went down -/

/-- The keys that go down among the events, oldest first. -/
def pressed (events : List Event) : List Key :=
  events.filterMap fun event => match event with
    | .press key => some key
    | _ => none

theorem pressed_append (events events' : List Event) :
    pressed (events ++ events') = pressed events ++ pressed events' :=
  List.filterMap_append

/-- The keys that go down in a turn are taken from the front of the list. -/
theorem pressed_turn {events : List Event} {left : List Int} (h : e.turn keys = .taken events left) :
    keys = numbers (pressed events) ++ left := by
  unfold turn at h
  split at h
  · cases keys with
    | nil => cases h
    | cons index rest =>
      cases hk : Key.ofInt index with
      | error fault => simp [hk] at h
      | ok key =>
        simp only [hk, Turn.taken.injEq] at h
        obtain ⟨rfl, rfl⟩ := h
        rw [eq_of_ofInt hk]
        rfl
  · split at h
    · cases h
    · cases h
      rfl

/-- **The keys that went down are those that are not left.** -/
theorem pressed_feed (h : (feedFrom done budget keys e).1 = .ok fed) :
    keys = numbers (pressed (feedEvents budget keys e)) ++ fed.left := by
  induction budget generalizing done keys e with
  | zero =>
    cases h
    rfl
  | succ budget ih =>
    rw [(feed_succ e done budget keys).1] at h
    rw [(feed_succ e done budget keys).2]
    cases ht : e.turn keys with
    | ended =>
      rw [ht] at h
      cases h
      obtain ⟨-, rfl⟩ := turn_ended ht
      rfl
    | broken events fault =>
      rw [ht] at h
      cases h
    | taken events left =>
      rw [ht] at h
      have hrest := ih h
      rw [pressed_append, numbers, List.map_append, List.append_assoc]
      exact (pressed_turn ht).trans (congrArg _ hrest)

/-! ## Runs without keys -/

/-- What a plain run answers, as the answer of a scheduled run. -/
def asFed : Except StackFault Nat → Except FeedFault Fed
  | .ok steps => .ok ⟨steps, []⟩
  | .error fault => .error (.stack fault)

theorem asFed_inj {a b : Except StackFault Nat} (h : asFed a = asFed b) : a = b := by
  cases a <;> cases b <;> cases h <;> rfl

/-- Steps that were made before count for a plain run as they do for a scheduled one. -/
theorem later_asFed (steps : Nat) (result : Except StackFault Nat) :
    later steps (asFed result) = asFed (result.map (steps + ·)) := by
  cases result <;> rfl

/-- **A scheduled run that has no keys is a plain run.** -/
theorem feed_nil (done budget : Nat) (e : Emulator) :
    feedFrom done budget [] e = (asFed (runFrom done budget e).1, (runFrom done budget e).2) ∧
      feedEvents budget [] e = runEvents budget e := by
  induction budget generalizing done e with
  | zero => exact ⟨rfl, rfl⟩
  | succ budget ih =>
    cases ha : e.machine.awaitingKey with
    | true =>
      rw [feedFrom, feedEvents, runFrom, runEvents, if_pos ha, if_pos ha, if_pos ha, if_pos ha]
      exact ⟨rfl, rfl⟩
    | false =>
      cases hs : e.step.1 with
      | error fault =>
        have hrun : ¬ e.machine.awaitingKey = true := by simp [ha]
        obtain ⟨hfrom, hevents⟩ := feed_step_error ha hs done budget []
        have hs : e.step = (.error fault, e.step.2) := Prod.ext hs rfl
        rw [hfrom, hevents, runFrom, runEvents, if_neg hrun, if_neg hrun, hs]
        exact ⟨rfl, rfl⟩
      | ok redraw =>
        obtain ⟨hfeed, hfed⟩ := feed_step_ok ha hs done budget []
        obtain ⟨hplain, hevents⟩ := run_step_ok ha hs done budget
        obtain ⟨hrest, hmore⟩ := ih (done + 1) e.step.2
        rw [hfeed, hfed, hplain, hevents, hrest, hmore]
        exact ⟨rfl, rfl⟩

theorem run_of_feed_nil {result : Except StackFault Nat} (h : feedFrom done budget [] e = (asFed result, after)) :
    runFrom done budget e = (result, after) := by
  rw [(feed_nil done budget e).1, Prod.mk.injEq] at h
  exact Prod.ext (asFed_inj h.1) h.2

/-! ## Two runs in a row -/

/-- A run goes on where a shorter one ended. -/
theorem run_add {first second : Int} (hfirst : 0 ≤ first) (hsecond : 0 ≤ second) {steps : Nat}
    (h : e.run first = (.ok steps, after)) :
    e.run (first + second) = ((after.run second).1.map (steps + ·), (after.run second).2) := by
  have hfeed : feedFrom 0 first.toNat [] e = (.ok ⟨steps, []⟩, after) := by
    rw [(feed_nil 0 first.toNat e).1]
    rw [run] at h
    rw [h]
    rfl
  apply run_of_feed_nil
  rw [Int.toNat_add hfirst hsecond, feedFrom_add hfeed]
  have hmore := feedFrom_done steps 0 second.toNat [] after
  rwa [(feed_nil 0 second.toNat after).1, later_asFed] at hmore

/-- A run that breaks off breaks off in the same way with more steps. -/
theorem run_add_error {first second : Int} (hfirst : 0 ≤ first) (hsecond : 0 ≤ second) {fault : StackFault}
    (h : e.run first = (.error fault, after)) : e.run (first + second) = (.error fault, after) := by
  have hfeed : feedFrom 0 first.toNat [] e = (.error (.stack fault), after) := by
    rw [(feed_nil 0 first.toNat e).1]
    rw [run] at h
    rw [h]
    rfl
  apply run_of_feed_nil
  rw [Int.toNat_add hfirst hsecond]
  exact feedFrom_add_error hfeed

/-- A scheduled run goes on where a shorter one ended, with the keys that did not go down in it. -/
theorem feed_add {first second : Int} (hfirst : 0 ≤ first) (hsecond : 0 ≤ second)
    (h : e.feed first keys = (.ok fed, after)) :
    let consumed := pressed (e.eventsOf (.feed first keys))
    numbers consumed = keys.take consumed.length ∧
    e.feed (first + second) keys = (later fed.steps (after.feed second (keys.drop consumed.length)).1,
      (after.feed second (keys.drop consumed.length)).2) := by
  intro consumed
  have hkeys : keys = numbers consumed ++ fed.left := pressed_feed (congrArg Prod.fst h)
  have hlength : (numbers consumed).length = consumed.length := List.length_map _
  have htake : keys.take consumed.length = numbers consumed := by
    rw [hkeys, List.take_left' hlength]
  have hdrop : keys.drop consumed.length = fed.left := by
    rw [hkeys, List.drop_left' hlength]
  refine ⟨htake.symm, ?_⟩
  rw [hdrop, feed, Int.toNat_add hfirst hsecond, feedFrom_add h]
  exact feedFrom_done fed.steps 0 second.toNat fed.left after

/-- **Plain and scheduled runs agree, and runs compose**: two of them, one from where the other ended, are a single run
with both budgets. -/
theorem run_and_feed_compose (e : Emulator) :
    (∀ budget : Int, e.feed budget [] = (asFed (e.run budget).1, (e.run budget).2) ∧
      e.eventsOf (.feed budget []) = e.eventsOf (.run budget)) ∧
    (∀ first second : Int, 0 ≤ first → 0 ≤ second →
      (∀ steps after, e.run first = (.ok steps, after) →
        e.run (first + second) = ((after.run second).1.map (steps + ·), (after.run second).2)) ∧
      ∀ fault after, e.run first = (.error fault, after) → e.run (first + second) = (.error fault, after)) ∧
    ∀ (first second : Int) (keys : List Int), 0 ≤ first → 0 ≤ second →
      (∀ fed after, e.feed first keys = (.ok fed, after) →
        let consumed := pressed (e.eventsOf (.feed first keys))
        numbers consumed = keys.take consumed.length ∧
        e.feed (first + second) keys = (later fed.steps (after.feed second (keys.drop consumed.length)).1,
          (after.feed second (keys.drop consumed.length)).2)) ∧
      ∀ fault after, e.feed first keys = (.error fault, after) →
        e.feed (first + second) keys = (.error fault, after) := by
  refine ⟨fun budget => feed_nil 0 budget.toNat e, fun first second hfirst hsecond => ⟨?_, ?_⟩,
    fun first second keys hfirst hsecond => ⟨?_, ?_⟩⟩
  · intro steps after h
    exact run_add hfirst hsecond h
  · intro fault after h
    exact run_add_error hfirst hsecond h
  · intro fed after h
    exact feed_add hfirst hsecond h
  · intro fault after h
    rw [feed, Int.toNat_add hfirst hsecond]
    exact feedFrom_add_error h

/-- A program that asks for a key, cut right at the wait: the plain run makes no second step, and the scheduled one
stores its key in the second step. A program that begins with a return faults with any budget. -/
theorem run_and_feed_compose_wait : (∃ e : Emulator, e.Reachable ∧
      (e.run 1).1 = .ok 1 ∧ (e.run (1 + 1)).1 = .ok 1 ∧
      (e.feed 1 [7]).1 = .ok ⟨1, [7]⟩ ∧ (e.feed (1 + 1) [7]).1 = .ok ⟨2, []⟩) ∧
    ∃ e : Emulator, e.Reachable ∧ (e.run (1 + 4)).1 = .error (.underflow 0x200) ∧
      (e.feed (1 + 4) [7]).1 = .error (.stack (.underflow 0x200)) := by
  constructor
  · obtain ⟨e, h⟩ := exists_start .vast [0xF5, 0x0A] 64 32 (.cycle []) false
      (by decide) (by decide) (by decide) (by decide)
    obtain ⟨_, _, he⟩ := start_eq h
    have hw : e.machine.keyWait = .running := by rw [he]; rfl
    have hf : e.machine.fetch = .decode 0xF50A := by rw [he]; exact fetch_boot ..
    have hu : e.machine.upcoming? = some (.decode 0xF50A) := by rw [Machine.upcoming?, hw, hf]
    obtain ⟨-, hasks, -, hfault⟩ := Machine.step_awaitKey hu (by decide)
    rw [← machine_step] at hasks
    have hanswer : e.step.1 = .ok e.machine.step.machine.redraw := by rw [step_answer, hfault]
    have hfed (keys : List Int) : e.feed 1 keys = (.ok ⟨1, keys⟩, e.step.2) := (feed_stepped hw hanswer 0 0 keys).1
    have hrun : e.run 1 = (.ok 1, e.step.2) := run_of_feed_nil (hfed [])
    have hawaits : e.step.2.machine.awaitingKey = true := by simp only [Machine.awaitingKey, hasks]
    have hended : e.step.2.turn [] = .ended := if_pos hawaits
    have hrest : e.step.2.run 1 = (.ok 0, e.step.2) := run_of_feed_nil (feedFrom_ended hended 0 1)
    have hstored : (e.step.2.feed 1 [7]).1 = .ok ⟨1, []⟩ :=
      congrArg Prod.fst (feed_answered hasks ⟨7, by decide⟩ 0 0 []).1
    obtain ⟨-, hplain, hscheduled⟩ := run_and_feed_compose e
    have htwice := (hplain 1 1 (by decide) (by decide)).1 1 e.step.2 hrun
    obtain ⟨-, hboth⟩ := (hscheduled 1 1 [7] (by decide) (by decide)).1 ⟨1, [7]⟩ e.step.2 (hfed [7])
    have hnone : pressed (e.eventsOf (.feed 1 [7])) = [] :=
      congrArg pressed (feed_stepped hw hanswer 0 0 [7]).2
    rw [hrest] at htwice
    rw [hnone, List.length_nil, List.drop_zero, hstored] at hboth
    refine ⟨e, .start h, by rw [hrun], by rw [htwice]; rfl, by rw [hfed], by rw [hboth]; rfl⟩
  · obtain ⟨e, h⟩ := exists_start .vast [0x00, 0xEE] 64 32 (.cycle []) false
      (by decide) (by decide) (by decide) (by decide)
    obtain ⟨_, _, he⟩ := start_eq h
    have hw : e.machine.keyWait = .running := by rw [he]; rfl
    have hf : e.machine.fetch = .decode 0x00EE := by rw [he]; exact fetch_boot ..
    have hfault : e.machine.step.fault = some (.underflow 0x200) :=
      fault_step_iff.mpr ⟨hw, .inl ⟨by rw [hf]; decide, by rw [he]; rfl, by rw [he]; rfl⟩⟩
    have hanswer : e.step.1 = .error (.underflow 0x200) := by rw [step_answer, hfault]
    have hfed (keys : List Int) : e.feed 1 keys = (.error (.stack (.underflow 0x200)), e.step.2) :=
      (feed_faulted hw hanswer 0 0 keys).1
    have hrun : e.run 1 = (.error (.underflow 0x200), e.step.2) := run_of_feed_nil (hfed [])
    obtain ⟨-, hplain, hscheduled⟩ := run_and_feed_compose e
    have hmore := (hplain 1 4 (by decide) (by decide)).2 _ _ hrun
    have hboth := (hscheduled 1 4 [7] (by decide) (by decide)).2 _ _ (hfed [7])
    exact ⟨e, .start h, by rw [hmore], by rw [hboth]⟩

end Emulator

end ChipEight
