import ChipEight.Playground.Session
import ChipEight.Proofs.KeyFeed
import ChipEight.Proofs.Range
import ChipEight.Proofs.TraceHistory

/-!
# Sessions

A user loads programs into a session, runs them for a while and presses keys; the session goes on after every failure.

- `Session.operate` carries out an `Operation`; `Operation.events` are the events that it lets happen to the present
  emulator (`operate_eq`);
- `Sound` is what holds of the emulator of a session; a load begins with it (`load_ok`), and every operation keeps it
  (`sound_operate`, `sound_operateAll`);
- `Session.Answered` says that a wait was answered with a key that is not stored yet; it stays so until a step is made,
  and that step stores the key (`Session.Stores`, `stores_of_answered`, `stores_of_press`);
- `session_sound`: the main statement.
-/

namespace ChipEight

variable {e : Emulator} {r : Register} {key : Key}

/-! ## Runs and keys -/

namespace Emulator

theorem eq_step_of_mem_runEvents {budget : Nat} {event : Event} (h : event ∈ runEvents budget e) : event = .step := by
  induction budget generalizing e with
  | zero => cases h
  | succ budget ih =>
    rw [runEvents] at h
    split at h
    · cases h
    · split at h
      · exact List.mem_singleton.mp h
      · rcases List.mem_cons.mp h with h | h
        · exact h
        · exact ih h

/-- A run with a step to make makes it, unless a key is awaited. -/
theorem exists_runEvents_succ (h : e.machine.awaitingKey = false) (budget : Nat) :
    ∃ later, runEvents (budget + 1) e = .step :: later := by
  rw [runEvents, h, if_neg Bool.false_ne_true]
  split
  · exact ⟨_, rfl⟩
  · exact ⟨_, rfl⟩

/-- Steps do not change which keys are held down. -/
theorem keys_afterAll {events : List Event} (h : ∀ event ∈ events, event = .step) :
    (e.afterAll events).machine.keys = e.machine.keys := by
  induction events generalizing e with
  | nil => rfl
  | cons event events ih =>
    obtain ⟨rfl, hrest⟩ := List.forall_mem_cons.mp h
    rw [afterAll_cons, ih hrest, after_step, machine_step, Machine.keys_step]

/-- An answered wait stays so until a step is made. -/
theorem pending_until_step (h : e.machine.keyWait = .pending r key) (events : List Event) :
    (e.moments events = [] ∧ (e.afterAll events).machine.keyWait = .pending r key) ∨
      ∃ first later, e.moments events = first :: later ∧ first.machine.keyWait = .pending r key := by
  induction events generalizing e with
  | nil => exact .inl ⟨rfl, h⟩
  | cons event events ih =>
    cases event with
    | step => exact .inr ⟨e, _, rfl, h⟩
    | press other =>
      have hpress : (e.press other).machine.keyWait = .pending r key := by
        rw [machine_press, Machine.keyDown_other (by simp [h])]
        exact h
      rw [moments_press, afterAll_cons, after_press]
      exact ih hpress
    | release other =>
      rw [moments_release, afterAll_cons, after_release]
      exact ih h

end Emulator

namespace Playground

variable {s : Session}

/-- What a user does with a session. -/
inductive Operation where
  | load (platform : Platform) (request : Request) (files : FileSystem) (unseeded : RandomSource)
  | run (budget : Int)
  | press (index budget : Int)
  | render (message : String)

namespace Operation

/-- Whether an operation loads a program. -/
def isLoad : Operation → Bool
  | load .. => true
  | _ => false

/-- The events that an operation lets happen to the present emulator. -/
def events (op : Operation) (e : Emulator) : List Event :=
  match op with
  | run budget => Emulator.runEvents budget.toNat e
  | press index budget =>
    match Key.ofInt index with
    | .ok key => .press key :: (Emulator.runEvents budget.toNat (e.press key) ++ [.release key])
    | .error _ => []
  | load .. | render _ => []

end Operation

namespace Session

/-- Carries out an operation. A press that is refused gives no other session back. -/
def operate (s : Session) : Operation → Except InvalidKey Panels × Session
  | .load platform request files unseeded =>
    (.ok (s.load platform request files unseeded).1, (s.load platform request files unseeded).2)
  | .run budget => (.ok (s.run budget).1, (s.run budget).2)
  | .press index budget =>
    match s.press index budget with
    | .ok (panels, s) => (.ok panels, s)
    | .error fault => (.error fault, s)
  | .render message => (.ok (s.panels message), s)

/-- Carries out operations one after the other, also those behind one that is refused. -/
def operateAll (s : Session) (operations : List Operation) : Session :=
  operations.foldl (fun s op => (s.operate op).2) s

/-- The emulators that the steps of an operation start from, oldest first. -/
def steps (s : Session) (op : Operation) : List Emulator :=
  match s.emulator? with
  | some e => e.moments (op.events e)
  | none => []

/-- The emulators that the steps of some operations start from, oldest first. -/
def stepsOf (s : Session) : List Operation → List Emulator
  | [] => []
  | op :: operations => s.steps op ++ (s.operate op).2.stepsOf operations

theorem operate_load (s : Session) (platform : Platform) (request : Request) (files : FileSystem)
    (unseeded : RandomSource) :
    (s.operate (.load platform request files unseeded)).2 = (s.load platform request files unseeded).2 := rfl

theorem operateAll_nil (s : Session) : s.operateAll [] = s := rfl

theorem operateAll_cons (s : Session) (op : Operation) (operations : List Operation) :
    s.operateAll (op :: operations) = (s.operate op).2.operateAll operations := rfl

end Session

/-- What holds of the emulator of a session between two operations. -/
structure Sound (e : Emulator) : Prop where
  good : e.machine.Good
  released : e.machine.heldKeys = []
  tracing : e.tracing = true
  width : e.machine.screen.width = defaultWidth
  height : e.machine.screen.height = defaultHeight
  /-- Its notes were moved to the session. -/
  log : e.log = #[]

/-! ## Loading -/

/-- A program that was read for a session fits in memory. -/
theorem Request.length_le {request : Request} {files : FileSystem} {loaded : Loaded}
    (h : request.program files = .ok loaded) : loaded.program.length ≤ maxProgram := by
  unfold Request.program at h
  split at h
  · cases hp : HexListing.parse request.listing.toList with
    | error fault => simp [hp] at h
    | ok program =>
      simp only [hp, Except.ok.injEq] at h
      exact h ▸ HexListing.length_le_of_parse hp
  · cases hl : Rom.load files request.file with
    | error fault => simp [hl] at h
    | ok result =>
      simp only [hl, Except.ok.injEq] at h
      exact h ▸ Rom.length_le_of_load hl

/-- Every fault of a request is an error of the file system or of a value, and none of a start. -/
theorem Request.isTakenBy_of_fault {request : Request} {files : FileSystem} {unseeded : RandomSource}
    {fault : LoadFault} (h : request.program files = .error fault ∨ request.random unseeded = .error fault) :
    fault.errorClass.isTakenBy [.osError, .valueError] = true := by
  cases fault with
  | file fault => cases fault <;> rfl
  | listing fault => cases fault <;> rfl
  | seed fault => rfl
  | start fault =>
    unfold Request.program Request.random at h
    rcases h with h | h
    · repeat' split at h
      all_goals cases h
    · repeat' split at h
      all_goals cases h

namespace Session

/-- A load that fails leaves no emulator. -/
theorem load_error (s : Session) (platform : Platform) {request : Request} {files : FileSystem}
    {unseeded : RandomSource} {fault : LoadFault} (h : request.program files = .error fault ∨
      ∃ loaded, request.program files = .ok loaded ∧ request.random unseeded = .error fault) :
    (s.load platform request files unseeded).1 = { status := "Error: " ++ fault.message } ∧
      (s.load platform request files unseeded).2.emulator? = none := by
  have hmessage : ("Error: " ++ fault.message).isEmpty = false := by simp
  have habandon (notes : List Note) : (s.abandon fault notes).1 = { status := "Error: " ++ fault.message } ∧
      (s.abandon fault notes).2.emulator? = none := by
    refine ⟨?_, rfl⟩
    show Panels.of none ("Error: " ++ fault.message) = _
    rw [Panels.of, hmessage]
    rfl
  unfold load
  rcases h with h | ⟨loaded, hp, hr⟩
  · rw [h]
    exact habandon []
  · rw [hp]
    simp only [hr]
    exact habandon loaded.notes

/-- A load that does not fail starts an emulator that is tracing, on a screen of the usual size. -/
theorem load_ok (s : Session) (platform : Platform) {request : Request} {files : FileSystem}
    {unseeded random : RandomSource} {loaded : Loaded} (hp : request.program files = .ok loaded)
    (hr : request.random unseeded = .ok random) :
    ∃ e, Emulator.start platform loaded.program defaultWidth defaultHeight random true = .ok e ∧
      (s.load platform request files unseeded).2.emulator? = some { e with log := #[] } := by
  obtain ⟨e, he⟩ := Emulator.exists_start platform loaded.program defaultWidth defaultHeight random true
    (Request.length_le hp) (by decide) (by decide) platform.holds_default
  refine ⟨e, he, ?_⟩
  unfold load
  rw [hp]
  simp only [hr, he]
  rfl

end Session

theorem sound_start {platform : Platform} {program : List UInt8} {random : RandomSource}
    (h : Emulator.start platform program defaultWidth defaultHeight random true = .ok e) :
    Sound { e with log := #[] } := by
  obtain ⟨_, _, rfl⟩ := Emulator.start_eq h
  exact ⟨Machine.boot_good .., Machine.heldKeys_boot .., rfl, rfl, rfl, rfl⟩

/-! ## Running and pressing keys -/

namespace Session

/-- **An operation that loads nothing** lets its events happen to the present emulator. -/
theorem operate_eq (h : s.emulator? = some e) (hlog : e.log = #[]) {op : Operation} (hop : op.isLoad = false) :
    (s.operate op).2.emulator? = some { e.afterAll (op.events e) with log := #[] } := by
  have hsame : e = { e with log := #[] } := by rw [← hlog]
  cases op with
  | load platform request files unseeded => cases hop
  | render message => exact h.trans (congrArg some hsame)
  | run budget =>
    simp only [operate, run, h, Operation.events]
    rw [← Emulator.runFrom_events 0]
    rfl
  | press index budget =>
    cases hk : Key.ofInt index with
    | error fault =>
      simp only [operate, press, h, hk, Operation.events]
      exact congrArg some hsame
    | ok key =>
      simp only [operate, press, h, hk, Operation.events]
      rw [Emulator.afterAll_cons, Emulator.after_press, Emulator.afterAll_append, ← Emulator.runFrom_events 0,
        Emulator.afterAll_cons, Emulator.after_release]
      rfl

end Session

/-- After the events of an operation all keys are up again. -/
theorem heldKeys_afterAll (h : e.machine.heldKeys = []) (op : Operation) :
    (e.afterAll (op.events e)).machine.heldKeys = [] := by
  have hruns (budget : Nat) (e : Emulator) :
      (e.afterAll (Emulator.runEvents budget e)).machine.keys = e.machine.keys :=
    Emulator.keys_afterAll fun _ hm => Emulator.eq_step_of_mem_runEvents hm
  cases op with
  | load platform request files unseeded => exact h
  | render message => exact h
  | run budget =>
    unfold Machine.heldKeys at *
    rw [Operation.events, hruns]
    exact h
  | press index budget =>
    cases hk : Key.ofInt index with
    | error fault =>
      simp only [Operation.events, hk]
      exact h
    | ok key =>
      refine Machine.heldKeys_of_set h key ?_
      simp only [Operation.events, hk]
      rw [Emulator.afterAll_cons, Emulator.after_press, Emulator.afterAll_append, Emulator.afterAll_cons,
        Emulator.after_release]
      show ((Emulator.afterAll _ _).machine.keys).set key false = _
      rw [hruns, Emulator.machine_press, Machine.keyDown_eq]
      rfl

theorem Sound.afterAll (h : Sound e) (op : Operation) : Sound { e.afterAll (op.events e) with log := #[] } := by
  have hsize : (e.afterAll (op.events e)).machine.screen.width = defaultWidth ∧
      (e.afterAll (op.events e)).machine.screen.height = defaultHeight :=
    (Machine.size_kept defaultWidth defaultHeight).emulator.afterAll ⟨h.width, h.height⟩ (op.events e)
  exact ⟨Machine.good_kept.emulator.afterAll h.good _, heldKeys_afterAll h.released op,
    (Emulator.tracing_kept true).afterAll h.tracing _, hsize.1, hsize.2, rfl⟩

namespace Session

/-- **Every operation keeps the emulator of a session sound.** -/
theorem sound_operate (h : ∀ e, s.emulator? = some e → Sound e) (op : Operation) :
    ∀ e, (s.operate op).2.emulator? = some e → Sound e := by
  intro e he
  cases op with
  | load platform request files unseeded =>
    have hnone {fault : LoadFault} (hfault : request.program files = .error fault ∨
        ∃ loaded, request.program files = .ok loaded ∧ request.random unseeded = .error fault) : Sound e := by
      have hgone := (s.load_error platform hfault).2
      rw [operate_load, hgone] at he
      cases he
    cases hp : request.program files with
    | error fault => exact hnone (.inl hp)
    | ok loaded =>
      cases hr : request.random unseeded with
      | error fault => exact hnone (.inr ⟨loaded, hp, hr⟩)
      | ok random =>
        obtain ⟨started, hstart, hloaded⟩ := s.load_ok platform hp hr
        obtain rfl := Option.some.inj (he.symm.trans hloaded)
        exact sound_start hstart
  | run | press | render =>
    cases hs : s.emulator? with
    | some before =>
      have hsound := h before hs
      obtain rfl := Option.some.inj (he.symm.trans (operate_eq hs hsound.log rfl))
      exact hsound.afterAll _
    | none => simp [operate, run, press, hs] at he

theorem sound_operateAll (h : ∀ e, s.emulator? = some e → Sound e) (operations : List Operation) :
    ∀ e, (s.operateAll operations).emulator? = some e → Sound e := by
  induction operations generalizing s with
  | nil => exact h
  | cons op operations ih => exact ih (sound_operate h op)

/-! ## Answers that are not lost -/

/-- A wait was answered, and the key is not stored yet. -/
def Answered (s : Session) (r : Register) (key : Key) : Prop :=
  ∃ e, s.emulator? = some e ∧ Sound e ∧ e.machine.keyWait = .pending r key

/-- Some operations make no step and keep an answer, or their first step stores the key. -/
def Stores (s : Session) (operations : List Operation) (r : Register) (key : Key) : Prop :=
  (s.stepsOf operations = [] ∧ (s.operateAll operations).Answered r key) ∨
    ∃ first later, s.stepsOf operations = first :: later ∧ first.machine.keyWait = .pending r key

theorem stores_cons {op : Operation} {operations : List Operation} (h : s.Stores [op] r key)
    (hrest : (s.operate op).2.Answered r key → (s.operate op).2.Stores operations r key) :
    s.Stores (op :: operations) r key := by
  have hone : s.stepsOf [op] = s.steps op := List.append_nil _
  unfold Stores at h ⊢
  rw [hone] at h
  rw [stepsOf, operateAll_cons]
  rcases h with ⟨hnone, hkept⟩ | ⟨first, later, hfirst, hpending⟩
  · rw [hnone, List.nil_append]
    exact hrest hkept
  · rw [hfirst, List.cons_append]
    exact .inr ⟨first, _, rfl, hpending⟩

/-- An operation whose events find the wait answered keeps the answer, or its first step stores the key. -/
theorem stores_single (he : s.emulator? = some e) (hsound : Sound e) {op : Operation} (hop : op.isLoad = false)
    (h : (e.moments (op.events e) = [] ∧ (e.afterAll (op.events e)).machine.keyWait = .pending r key) ∨
      ∃ first later, e.moments (op.events e) = first :: later ∧ first.machine.keyWait = .pending r key) :
    s.Stores [op] r key := by
  have hsteps : s.stepsOf [op] = e.moments (op.events e) := by rw [stepsOf, stepsOf, List.append_nil, steps, he]
  unfold Stores
  rw [hsteps]
  rcases h with ⟨hnone, hkept⟩ | hfirst
  · exact .inl ⟨hnone, _, operate_eq he hsound.log hop, hsound.afterAll op, hkept⟩
  · exact .inr hfirst

/-- **An answer is kept until a step is made**, and that step stores the key. -/
theorem stores_of_answered (h : s.Answered r key) {operations : List Operation}
    (hops : ∀ op ∈ operations, op.isLoad = false) : s.Stores operations r key := by
  induction operations generalizing s with
  | nil => exact .inl ⟨rfl, h⟩
  | cons op operations ih =>
    obtain ⟨hop, hrest⟩ := List.forall_mem_cons.mp hops
    obtain ⟨e, he, hsound, hpending⟩ := h
    exact stores_cons (stores_single he hsound hop (Emulator.pending_until_step hpending _)) fun hkept => ih hkept hrest

/-- A key that is pressed while one is awaited is stored by the first step from then on. -/
theorem stores_of_press (he : s.emulator? = some e) (hsound : Sound e) (hw : e.machine.keyWait = .awaiting r)
    (key : Key) (budget : Int) {later : List Operation} (hlater : ∀ op ∈ later, op.isLoad = false) :
    s.Stores (.press key.val budget :: later) r key := by
  have hevents : (Operation.press key.val budget).events e =
      .press key :: (Emulator.runEvents budget.toNat (e.press key) ++ [.release key]) := by
    simp only [Operation.events, Emulator.ofInt_val]
  refine stores_cons (stores_single he hsound rfl ?_) fun hkept => stores_of_answered hkept hlater
  rw [hevents, Emulator.moments_press, Emulator.afterAll_cons, Emulator.after_press]
  exact Emulator.pending_until_step (Emulator.keyWait_press hw) _

/-- A key that is pressed while one is awaited lets the run make a step. -/
theorem steps_press (he : s.emulator? = some e) (hw : e.machine.keyWait = .awaiting r) (key : Key) {budget : Int}
    (hbudget : 1 ≤ budget) : s.stepsOf [.press key.val budget] ≠ [] := by
  obtain ⟨n, hn⟩ : ∃ n, budget.toNat = n + 1 := ⟨budget.toNat - 1, by omega⟩
  have hgoes : (e.press key).machine.awaitingKey = false := by
    rw [Machine.awaitingKey, Emulator.keyWait_press hw]
  obtain ⟨events, hruns⟩ := Emulator.exists_runEvents_succ hgoes n
  have hsteps : s.stepsOf [.press key.val budget] =
      e.moments (.press key :: (Emulator.runEvents budget.toNat (e.press key) ++ [.release key])) := by
    simp only [stepsOf, List.append_nil, steps, he, Operation.events, Emulator.ofInt_val]
  rw [hsteps, hn, hruns, Emulator.moments_press, List.cons_append, Emulator.moments_step]
  exact List.cons_ne_nil _ _

end Session

/-! ## Any sequence of operations -/

/-- **A session stays sound**, whatever is done with it: its emulator is consistent and has no key held down, a load
that fails leaves none, and the first key pressed in a wait is the one that is stored. -/
theorem session_sound (operations : List Operation) :
    let s := ({} : Session).operateAll operations
    (∀ e, s.emulator? = some e → e.machine.heldKeys = [] ∧ e.tracing = true ∧ e.machine.screen.width = 64 ∧
      e.machine.screen.height = 32 ∧ e.machine.consistent = true) ∧
    (∀ platform request files unseeded, (∀ fault, (request.program files = .error fault ∨
          (∃ loaded, request.program files = .ok loaded) ∧ request.random unseeded = .error fault) →
        (s.load platform request files unseeded).1 = { status := "Error: " ++ fault.message } ∧
        (s.load platform request files unseeded).2.emulator? = none) ∧
      ∀ loaded random, request.program files = .ok loaded → request.random unseeded = .ok random →
        ∃ e, Emulator.start platform loaded.program 64 32 random true = .ok e ∧
          (s.load platform request files unseeded).2.emulator? = some { e with log := #[] }) ∧
    (∀ e op, s.emulator? = some e → op.isLoad = false →
      (s.operate op).2.emulator? = some { e.afterAll (op.events e) with log := #[] }) ∧
    (∀ e index budget, s.emulator? = some e → index < 0 ∨ 15 < index →
      s.operate (.press index budget) = (.error ⟨index⟩, s)) ∧
    ∀ (e : Emulator) (r : Register) (key : Key) (budget : Int) (later : List Operation),
      s.emulator? = some e → e.machine.keyWait = .awaiting r → (∀ op ∈ later, op.isLoad = false) →
      let steps := s.stepsOf (.press key.val budget :: later)
      (1 ≤ budget → s.stepsOf [.press key.val budget] ≠ []) ∧
      (∀ first, steps.head? = some first → first.machine.keyWait = .pending r key ∧ first.step.2.machine =
        { first.machine.tick with registers := first.machine.registers.put r key.val, keyWait := .running }) ∧
      (steps = [] → ∃ e, (s.operateAll (.press key.val budget :: later)).emulator? = some e ∧
        e.machine.keyWait = .pending r key) := by
  intro s
  have hsound : ∀ e, s.emulator? = some e → Sound e :=
    Session.sound_operateAll (fun e he => by cases he) operations
  refine ⟨fun e he => ?_,
    fun platform request files unseeded => ⟨fun fault hfault => ?_, fun loaded random hp hr => ?_⟩,
    fun e op he hop => Session.operate_eq he (hsound e he).log hop, fun e index budget he hindex => ?_,
    fun e r key budget later he hw hlater => ?_⟩
  · have hs := hsound e he
    exact ⟨hs.released, hs.tracing, hs.width, hs.height, hs.good.consistent⟩
  · refine s.load_error platform ?_
    rcases hfault with hp | ⟨⟨loaded, hp⟩, hr⟩
    · exact .inl hp
    · exact .inr ⟨loaded, hp, hr⟩
  · exact s.load_ok platform hp hr
  · have hk : Key.ofInt index = .error ⟨index⟩ := by
      rw [Key.ofInt, dif_neg (by unfold keyCount; omega)]
    simp only [Session.operate, Session.press, he, hk]
  · intro steps
    have hstores := Session.stores_of_press he (hsound e he) hw key budget hlater
    refine ⟨fun hbudget => Session.steps_press he hw key hbudget, fun first hfirst => ?_, fun hnone => ?_⟩
    · rcases hstores with ⟨hnone, -⟩ | ⟨other, rest, hsteps, hpending⟩
      · rw [show steps = [] from hnone] at hfirst
        cases hfirst
      · rw [show steps = other :: rest from hsteps] at hfirst
        obtain rfl : other = first := Option.some.inj hfirst
        exact ⟨hpending, by rw [Emulator.machine_step, Machine.step_pending hpending]⟩
    · rcases hstores with ⟨-, e, he, -, hpending⟩ | ⟨other, rest, hsteps, -⟩
      · exact ⟨e, he, hpending⟩
      · rw [show steps = other :: rest from hsteps] at hnone
        cases hnone

/-- Seven is pressed while a program awaits a key, with two steps to make; the first of them stores it. -/
theorem session_sound_seven :
    let asking : Request := { exampleName := "Custom", listing := "F50A", file := "", seed := "" }
    ∃ first, ((({} : Session).operateAll [.load .vast asking (fun _ => .missing) (.cycle []), .run 1]).stepsOf
        [.press 7 2]).head? = some first ∧ first.step.2.machine.registers.value 5 = 7 := by
  intro asking
  have hp : asking.program (fun _ => .missing) = .ok ⟨[0xF5, 0x0A], "Custom", []⟩ := by
    have hlisting : HexListing.parse asking.listing.toList = .ok [0xF5, 0x0A] := by decide +kernel
    rw [Request.program, hlisting]
    rfl
  have hr : asking.random (.cycle []) = .ok (.cycle []) := rfl
  obtain ⟨started, hstart, hloaded⟩ := Session.load_ok {} .vast hp hr
  let e : Emulator := { started with log := #[] }
  have hwaits : e.step.2.machine.keyWait = .awaiting 5 := by
    obtain ⟨_, _, rfl⟩ := Emulator.start_eq hstart
    have hf : e.machine.fetch = .decode 0xF50A := Emulator.fetch_boot ..
    have hu : e.machine.upcoming? = some (.decode 0xF50A) := by rw [← hf]; rfl
    rw [Emulator.machine_step]
    exact (Machine.step_awaitKey hu rfl).2.1
  have hevents : (Operation.run 1).events e = [.step] := by
    have hgoes : e.machine.awaitingKey = false := by
      obtain ⟨_, _, rfl⟩ := Emulator.start_eq hstart
      rfl
    show Emulator.runEvents 1 e = [.step]
    rw [Emulator.runEvents, hgoes, if_neg Bool.false_ne_true]
    split
    · rfl
    · rfl
  have hran : (({} : Session).operateAll [.load .vast asking (fun _ => .missing) (.cycle []), .run 1]).emulator? =
      some { e.afterAll [.step] with log := #[] } := by
    rw [Session.operateAll_cons, Session.operateAll_cons, Session.operateAll_nil, Session.operate_load,
      Session.operate_eq hloaded rfl rfl, hevents]
  have hpress := (session_sound [.load .vast asking (fun _ => .missing) (.cycle []), .run 1]).2.2.2.2
    _ 5 7 2 [] hran hwaits (fun _ h => by cases h)
  have hsteps := hpress.1 (by decide)
  obtain ⟨first, hfirst⟩ := Option.ne_none_iff_exists'.mp (mt List.head?_eq_none_iff.mp hsteps)
  refine ⟨first, hfirst, ?_⟩
  rw [(hpress.2.1 first hfirst).2]
  exact Registers.value_put ..

end Playground

end ChipEight
