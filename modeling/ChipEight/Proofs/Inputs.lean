import ChipEight.Proofs.Coupling
import ChipEight.Proofs.Footprint

/-!
# What a program is told

Random numbers, held keys, the screen and the index reach a program only through the operations that read them.

- `Component.readers` are the operations that read a component of the machine, and `Machine.SameBut` says that two
  machines differ in that component at most;
- `effect_sameBut`: any other operation does the same on both machines, so such machines stay together while none of
  the readers is executed (`unread_coupling`);
- `random_coupling`: with sources of the same first numbers they stay together until these numbers are used up;
- `inputs_unread`: the main statement.
-/

namespace ChipEight

variable {op : Op} {ins : Instruction} {m m' n : Machine} {notes : List Note} {k : Nat}

/-! ## Components and their readers -/

/-- A component of the machine that few operations read. -/
inductive Component where
  | random
  | keys
  | screen
  | index
  deriving DecidableEq

/-- The operations that read the component. -/
def Component.readers : Component → List Op
  | random => [.random]
  | keys => [.skipPressed, .skipReleased]
  | screen => [.draw]
  | index => [.addIndex, .storeDecimal, .storeRegisters, .loadRegisters, .draw]

/-- The second machine is the first one but for the component. -/
inductive Machine.SameBut : Component → Machine → Machine → Prop where
  | random {m : Machine} (random : RandomSource) : SameBut .random m { m with random }
  | keys {m : Machine} (keys : Vector Bool keyCount) : SameBut .keys m { m with keys }
  | screen {m : Machine} (screen : Screen) : SameBut .screen m { m with screen }
  | index {m : Machine} (index : Int) : SameBut .index m { m with index }

namespace Machine.SameBut

theorem aligned (h : m.SameBut component m') : m.Aligned m' := by
  cases h <;> constructor <;> rfl

theorem tick (h : m.SameBut component m') : m.tick.SameBut component m'.tick := by
  cases h <;> constructor

theorem settled (h : m.SameBut component m') (valid : Bool) :
    SameBut component { m with pc := m.pc % memorySize, cycles := if valid then m.cycles + 1 else m.cycles }
      { m' with pc := m'.pc % memorySize, cycles := if valid then m'.cycles + 1 else m'.cycles } := by
  cases h <;> constructor

theorem setRegister (h : m.SameBut component m') (r : Register) (value : Int) :
    (m.setRegister r value).SameBut component (m'.setRegister r value) := by
  cases h <;> constructor

theorem setKey (h : m.SameBut component m') (key : Key) (held : Bool) :
    (m.setKey key held).SameBut component (m'.setKey key held) := by
  cases h <;> constructor

theorem setKeyWait (h : m.SameBut component m') (keyWait : KeyWait) :
    SameBut component { m with keyWait } { m' with keyWait } := by
  cases h <;> constructor

end Machine.SameBut

/-- **An operation that does not read the component** does the same on both machines. -/
theorem effect_sameBut (h : m.SameBut component m') (hop : op ∉ component.readers)
    (he : effect op ins m = .ok (n, notes)) : ∃ n', effect op ins m' = .ok (n', notes) ∧ n.SameBut component n' := by
  cases op
  case ret =>
    obtain ⟨address, rest, hstack, rfl, rfl⟩ := effect_ret he
    refine ⟨_, effect_ret_of_cons (h.aligned.stack.trans hstack), ?_⟩
    cases h <;> constructor
  case call =>
    obtain ⟨hstack, rfl, rfl⟩ := effect_call he
    refine ⟨_, effect_call_of_lt (h.aligned.stack ▸ hstack), ?_⟩
    cases h <;> constructor
  case storeRegisters | loadRegisters =>
    simp only [effect_storeRegisters, effect_loadRegisters] at he ⊢
    cases he
    cases h with
    | random random => exact ⟨_, rfl, .random random⟩
    | keys keys => exact ⟨_, rfl, .keys keys⟩
    | screen screen => exact ⟨_, rfl, .screen _⟩
    | index index => exact absurd (by decide) hop
  -- no other operation can fault, so both machines afterwards are read off; a reader of the component is excluded
  all_goals cases he
  all_goals cases h with
    | random random => first | exact absurd (by decide) hop | exact ⟨_, rfl, .random random⟩
    | keys keys => first | exact absurd (by decide) hop | exact ⟨_, rfl, .keys keys⟩
    | screen screen => first | exact absurd (by decide) hop | exact ⟨_, rfl, .screen _⟩
    | index index => first | exact absurd (by decide) hop | exact ⟨_, rfl, .index _⟩

/-! ## Machines that stay together -/

/-- Machines that differ in a component stay together if all operations keep them so, together with a relation `P` that
depends on their sources and indices only. -/
theorem Machine.SameBut.coupling {ops : List Op} {P : Nat → Machine → Machine → Prop}
    (hkept : ∀ {k m m' n n'}, P k m m' → n.random = m.random → n'.random = m'.random → n.index = m.index →
      n'.index = m'.index → P k n n')
    (heffect : ∀ {k m m' op ins n notes}, m.SameBut component m' → P ((if op ∈ ops then 1 else 0) + k) m m' →
      effect op ins m = .ok (n, notes) → ∃ n', effect op ins m' = .ok (n', notes) ∧ n.SameBut component n' ∧ P k n n') :
    Coupling ops fun k m m' => m.SameBut component m' ∧ P k m m' where
  aligned h := h.1.aligned
  tick h := ⟨h.1.tick, hkept h.2 rfl rfl rfl rfl⟩
  settled valid h := ⟨h.1.settled valid, hkept h.2 rfl rfl rfl rfl⟩
  setRegister r value h := ⟨h.1.setRegister r value, hkept h.2 rfl rfl rfl rfl⟩
  setKey key held h := ⟨h.1.setKey key held, hkept h.2 rfl rfl rfl rfl⟩
  setKeyWait keyWait h := ⟨h.1.setKeyWait keyWait, hkept h.2 rfl rfl rfl rfl⟩
  effect h he := heffect h.1 h.2 he

/-- Machines that differ in a component stay together while none of its readers is executed. -/
theorem unread_coupling (component : Component) :
    Machine.Coupling component.readers fun k m m' => m.SameBut component m' ∧ k = 0 := by
  apply Machine.SameBut.coupling
  · intro _ _ _ _ _ hnone _ _ _ _
    exact hnone
  · intro k m m' op ins n notes hsame hnone he
    split at hnone
    case isTrue => omega
    case isFalse hop =>
      obtain ⟨n', he', hn⟩ := effect_sameBut hsame hop he
      exact ⟨n', he', hn, by omega⟩

/-- The operation that asks for a random number draws one and masks it. -/
theorem effect_random (m : Machine) (ins : Instruction) : effect .random ins m =
    .ok (({ m with random := m.random.next.2 }.setRegister ins.x
      (Bitwise.and m.random.next.1.toNat ins.kk)).advance, []) := rfl

/-- Machines whose sources give the same first numbers stay together while no more than these are drawn. -/
theorem random_coupling : Machine.Coupling [.random] fun k m m' =>
    m.SameBut .random m' ∧ ∀ i < k, m'.random.nth i = m.random.nth i := by
  apply Machine.SameBut.coupling
  · intro _ m m' n n' hnumbers hm hm' _ _
    rw [hm, hm']
    exact hnumbers
  · intro k m m' op ins n notes hsame hnumbers he
    by_cases hop : op = .random
    · subst hop
      rw [if_pos (List.mem_singleton_self _)] at hnumbers
      have hfirst : m'.random.next.1 = m.random.next.1 := hnumbers 0 (by omega)
      have hrest (i : Nat) (hi : i < k) : m'.random.next.2.nth i = m.random.next.2.nth i := by
        rw [RandomSource.nth_next, RandomSource.nth_next]
        exact hnumbers (i + 1) (by omega)
      have he' := effect_random m' ins
      rw [hfirst] at he'
      rw [effect_random m ins] at he
      cases he
      refine ⟨_, he', ?_, hrest⟩
      cases hsame
      constructor
    · rw [if_neg (by simpa using hop), Nat.zero_add] at hnumbers
      obtain ⟨n', he', hn⟩ := effect_sameBut hsame (by simpa [Component.readers] using hop) he
      refine ⟨n', he', hn, ?_⟩
      rw [(effect_frame he).random hop, (effect_frame he').random hop]
      exact hnumbers

/-! ## Drawn numbers -/

theorem RandomSource.skip_add (a b : Nat) (source : RandomSource) : source.skip (a + b) = (source.skip a).skip b := by
  induction a generalizing source with
  | zero => rw [Nat.zero_add]; rfl
  | succ a ih => rw [Nat.succ_add]; exact ih source.next.2

namespace Emulator

/-- A step draws a number if it executes the operation that asks for one. -/
theorem random_step (e : Emulator) :
    e.step.2.machine.random = e.machine.random.skip (occurrences [.random] (e.executed [.step])) := by
  rw [machine_step, executed_step]
  cases hx : e.machine.executed? with
  | none =>
    rw [Machine.step_not_executed hx]
    rfl
  | some x =>
    obtain ⟨-, rfl, m', notes, hexecute, hstep⟩ := Machine.executed?_eq_some hx
    rw [hstep, Option.toList_some, occurrences_single, execute_random hexecute]
    by_cases hop : e.machine.fetch.op = .random
    · rw [if_pos hop, if_pos (by simp [hop])]
      rfl
    · rw [if_neg hop, if_neg (by simpa using hop)]
      rfl

/-- **A run draws as many numbers** as it executes operations that ask for one. -/
theorem random_afterAll (e : Emulator) (events : List Event) : (e.afterAll events).machine.random =
    e.machine.random.skip (occurrences [.random] (e.executed events)) := by
  induction events generalizing e with
  | nil => rfl
  | cons event events ih =>
    have hevent : (e.after event).machine.random =
        e.machine.random.skip (occurrences [.random] (e.executed [event])) := by
      cases event with
      | step => exact e.random_step
      | press key =>
        rw [after_press, machine_press, Machine.keyDown_eq]
        rfl
      | release key =>
        rw [after_release]
        rfl
    rw [afterAll_cons, ih, hevent, e.executed_cons event events, occurrences_append, RandomSource.skip_add]

end Emulator

namespace Emulator

/-- **What a program is told reaches it only through the operations that read it.** Until one of them is executed,
emulators that differ in that component alone do the same; so do random sources until the numbers they share end. -/
theorem inputs_unread (e e' : Emulator) (controls : List Control) :
    let executed := e.executed (e.eventsOfAll controls)
    (∀ component, e.machine.SameBut component e'.machine →
      (∀ x ∈ executed, x.instruction.op ∉ component.readers) →
      e.Alike e' controls ∧ (e.performAll controls).machine.SameBut component (e'.performAll controls).machine) ∧
    ∀ count, e.machine.SameBut .random e'.machine →
      (∀ i < count, e'.machine.random.nth i = e.machine.random.nth i) →
      occurrences [.random] executed ≤ count →
      e.Alike e' controls ∧ (e.performAll controls).machine.SameBut .random (e'.performAll controls).machine ∧
      (e.performAll controls).machine.random = e.machine.random.skip (occurrences [.random] executed) ∧
      (e'.performAll controls).machine.random = e'.machine.random.skip (occurrences [.random] executed) := by
  intro executed
  constructor
  · intro component hsame hunread
    have hnone : occurrences component.readers executed = 0 :=
      List.countP_eq_zero.mpr fun x hx => by simpa using hunread x hx
    obtain ⟨halike, hafter, -⟩ := (unread_coupling component).performAll (k := 0) ⟨hsame, hnone⟩
    exact ⟨halike, hafter⟩
  · intro count hsame hnumbers hcount
    obtain ⟨left, rfl⟩ := Nat.exists_eq_add_of_le hcount
    obtain ⟨halike, hafter, -⟩ := random_coupling.performAll (k := left) ⟨hsame, hnumbers⟩
    refine ⟨halike, hafter, ?_, ?_⟩
    · rw [performAll_eq, random_afterAll]
    · rw [performAll_eq, random_afterAll, halike.executed]

/-- A program that asks for a random number, on screens of two sizes, and with two sources that only begin alike. -/
theorem inputs_unread_begin : ∃ e small other : Emulator, e.Reachable ∧ small.Reachable ∧ other.Reachable ∧
    (e.machine.screen.width = 64 ∧ small.machine.screen.width = 8 ∧ e.Alike small [.step]) ∧
    (e.machine.random.nth 1 = 1 ∧ other.machine.random.nth 1 = 2 ∧ e.Alike other [.step]) := by
  obtain ⟨e, h⟩ := exists_start .vast [0xC0, 0xFF] 64 32 (.cycle [7, 1]) false
    (by decide) (by decide) (by decide) (by decide)
  obtain ⟨small, hsmall⟩ := exists_start .vast [0xC0, 0xFF] 8 4 (.cycle [7, 1]) false
    (by decide) (by decide) (by decide) (by decide)
  obtain ⟨other, hother⟩ := exists_start .vast [0xC0, 0xFF] 64 32 (.cycle [7, 2]) false
    (by decide) (by decide) (by decide) (by decide)
  obtain ⟨_, _, he⟩ := start_eq h
  obtain ⟨_, _, hs⟩ := start_eq hsmall
  obtain ⟨_, _, ho⟩ := start_eq hother
  have hfetch : e.machine.fetch = .decode 0xC0FF := by rw [he]; exact fetch_boot ..
  have hop : ∀ x ∈ e.executed [.step], x.instruction.op = .random := by
    intro x hx
    rw [executed_step, Option.mem_toList] at hx
    obtain ⟨-, rfl, -⟩ := Machine.executed?_eq_some hx
    show e.machine.fetch.op = .random
    rw [hfetch]
    decide
  have hcount : occurrences [.random] (e.executed [.step]) ≤ 1 :=
    Nat.le_trans List.countP_le_length (List.length_filterMap_le ..)
  have hscreen : e.machine.SameBut .screen small.machine := by
    rw [he, hs]
    exact .screen _
  have hrandom : e.machine.SameBut .random other.machine := by
    rw [he, ho]
    exact .random _
  have hfirst : ∀ i < 1, other.machine.random.nth i = e.machine.random.nth i := by
    intro i hi
    obtain rfl : i = 0 := by omega
    rw [he, ho]
    rfl
  refine ⟨e, small, other, .start h, .start hsmall, .start hother, ⟨?_, ?_, ?_⟩, ?_, ?_, ?_⟩
  · rw [he]
    rfl
  · rw [hs]
    rfl
  · refine ((inputs_unread e small [.step]).1 .screen hscreen fun x hx => ?_).1
    rw [hop x hx]
    decide
  · rw [he]
    rfl
  · rw [ho]
    rfl
  · exact ((inputs_unread e other [.step]).2 1 hrandom hfirst hcount).1

end Emulator

end ChipEight
