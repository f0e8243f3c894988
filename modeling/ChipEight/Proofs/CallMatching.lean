import Mathlib.Data.List.Induction
import ChipEight.Proofs.History
import ChipEight.Proofs.Range

/-!
# Calls and returns

In the history of a run every return is matched with the latest call before it that is not matched yet, and the stack
holds the addresses of the calls that are left.

- `pairs` are the positions of matched calls and returns and `unmatched` the calls that are left; `unmatched_call`,
  `unmatched_return` and `unmatched_other` say how one more instruction changes them;
- `stack_step_call`, `stack_step_return` and `stack_step_other`: how a step changes the stack;
- `stack_eq_unmatched`: the main statement, for any controls.
-/

namespace ChipEight

variable {history : List Executed} {x : Executed} {m : Machine}

/-! ## Matching -/

def Executed.isCall (x : Executed) : Bool := x.instruction.op == .call

def Executed.isReturn (x : Executed) : Bool := x.instruction.op == .ret

/-- The calls whose positions are not the first of any pair, with their positions, oldest first. -/
def callsOutside (pairs : List (Nat × Nat)) (history : List Executed) : List (Executed × Nat) :=
  history.zipIdx.filter fun call => call.1.isCall && !(pairs.map Prod.fst).contains call.2

/-- The positions of the calls and returns that are matched among the first `n` instructions: each return is matched
with the latest call before it that is not matched with an earlier return. -/
def pairsUpTo (history : List Executed) : Nat → List (Nat × Nat)
  | 0 => []
  | n + 1 =>
    if history[n]?.any Executed.isReturn then
      pairsUpTo history n ++
        ((callsOutside (pairsUpTo history n) (history.take n)).getLast?.map fun call => (call.2, n)).toList
    else pairsUpTo history n

/-- The positions of the calls and of the returns that they are matched with. -/
def pairs (history : List Executed) : List (Nat × Nat) :=
  pairsUpTo history history.length

/-- The calls that are not matched with any return, with their positions, oldest first. -/
def unmatched (history : List Executed) : List (Executed × Nat) :=
  callsOutside (pairs history) history

theorem pairsUpTo_append (history later : List Executed) {n : Nat} (h : n ≤ history.length) :
    pairsUpTo (history ++ later) n = pairsUpTo history n := by
  induction n with
  | zero => rfl
  | succ n ih =>
    have hn : n < history.length := h
    unfold pairsUpTo
    rw [ih (by omega), List.getElem?_append_left hn, List.take_append_of_le_length (by omega)]

theorem pairs_snoc (history : List Executed) (x : Executed) : pairs (history ++ [x]) =
    if x.isReturn then
      pairs history ++ ((unmatched history).getLast?.map fun call => (call.2, history.length)).toList
    else pairs history := by
  have hx : (history ++ [x])[history.length]? = some x := by simp
  have ht : (history ++ [x]).take history.length = history := by simp
  rw [pairs, List.length_append, List.length_singleton, pairsUpTo, hx, ht, pairsUpTo_append history [x] (Nat.le_refl _)]
  rfl

theorem zipIdx_snoc (history : List Executed) (x : Executed) :
    (history ++ [x]).zipIdx = history.zipIdx ++ [(x, history.length)] := by
  simp [List.zipIdx_append]

theorem mem_unmatched {call : Executed} {i : Nat} (h : (call, i) ∈ unmatched history) :
    history[i]? = some call ∧ call.isCall = true := by
  obtain ⟨hz, hc⟩ := List.mem_filter.mp h
  rw [Bool.and_eq_true] at hc
  exact ⟨List.mem_zipIdx_iff_getElem?.mp hz, hc.1⟩

theorem lt_of_mem_unmatched {call : Executed × Nat} (h : call ∈ unmatched history) : call.2 < history.length :=
  (List.getElem?_eq_some_iff.mp (mem_unmatched h).1).1

theorem fst_lt_of_mem_pairs {pair : Nat × Nat} (h : pair ∈ pairs history) : pair.1 < history.length := by
  induction history using List.reverseRecOn with
  | nil => cases h
  | append_singleton history x ih =>
    rw [List.length_append, List.length_singleton]
    rw [pairs_snoc] at h
    split at h
    · rcases List.mem_append.mp h with h | h
      · have := ih h
        omega
      · simp only [Option.mem_toList, Option.map_eq_some_iff] at h
        obtain ⟨call, hc, rfl⟩ := h
        have := lt_of_mem_unmatched (List.mem_of_getLast? hc)
        show call.2 < _
        omega
    · have := ih h
      omega

/-- A call is left until a return comes. -/
theorem unmatched_call (history : List Executed) (hx : x.isCall = true) :
    unmatched (history ++ [x]) = unmatched history ++ [(x, history.length)] := by
  have hr : x.isReturn = false := by
    simp only [Executed.isCall, beq_iff_eq] at hx
    simp [Executed.isReturn, hx]
  have hnew : ((pairs history).map Prod.fst).contains history.length = false := by
    rw [List.contains_eq_mem, decide_eq_false_iff_not, List.mem_map]
    rintro ⟨pair, hp, he⟩
    have := fst_lt_of_mem_pairs hp
    omega
  rw [unmatched, pairs_snoc, hr, if_neg Bool.false_ne_true, callsOutside, zipIdx_snoc, List.filter_append]
  have hkept : [(x, history.length)].filter
      (fun call => call.1.isCall && !((pairs history).map Prod.fst).contains call.2) = [(x, history.length)] :=
    List.filter_cons_of_pos (by rw [hx, hnew]; rfl)
  rw [hkept]
  rfl

/-- An instruction that is neither a call nor a return changes nothing. -/
theorem unmatched_other (history : List Executed) (hc : x.isCall = false) (hr : x.isReturn = false) :
    unmatched (history ++ [x]) = unmatched history := by
  rw [unmatched, pairs_snoc, hr, if_neg Bool.false_ne_true, callsOutside, zipIdx_snoc, List.filter_append]
  simp [unmatched, callsOutside, hc]

theorem nodup_unmatched (history : List Executed) : ((unmatched history).map Prod.snd).Nodup := by
  have hs : ((unmatched history).map Prod.snd).Sublist (history.zipIdx.map Prod.snd) :=
    List.filter_sublist.map Prod.snd
  refine hs.nodup ?_
  rw [List.zipIdx_map_snd]
  exact List.nodup_range'

/-- A return is matched with the latest call that is left. -/
theorem unmatched_return (history : List Executed) (hr : x.isReturn = true) :
    unmatched (history ++ [x]) = (unmatched history).dropLast := by
  have hc : x.isCall = false := by
    simp only [Executed.isReturn, beq_iff_eq] at hr
    simp [Executed.isCall, hr]
  have hx : unmatched (history ++ [x]) = callsOutside (pairs (history ++ [x])) history := by
    rw [unmatched, callsOutside, zipIdx_snoc, List.filter_append]
    simp [callsOutside, hc]
  have hnodup := nodup_unmatched history
  rw [hx, pairs_snoc, if_pos hr]
  rcases List.eq_nil_or_concat (unmatched history) with hu | ⟨earlier, latest, hu⟩
  · simp only [hu, List.getLast?_nil, Option.map_none, Option.toList_none, List.append_nil, List.dropLast_nil]
    exact hu
  · rw [List.concat_eq_append] at hu
    -- one more pair takes away the calls at its position, which is the latest alone
    have hmore : ∀ i n, callsOutside (pairs history ++ [(i, n)]) history =
        (unmatched history).filter fun call => call.2 != i := by
      intro i n
      unfold unmatched callsOutside
      rw [List.filter_filter]
      refine List.filter_congr fun call _ => ?_
      rw [List.map_append, List.contains_append, Bool.not_or, ← Bool.and_assoc, Bool.and_comm]
      simp only [List.map_cons, List.map_nil, List.contains_cons, List.contains_nil, Bool.or_false, bne]
    have hlast : (unmatched history).getLast? = some latest := by rw [hu, List.getLast?_append]; rfl
    rw [hlast, Option.map_some, Option.toList_some, hmore, hu, List.dropLast_concat, List.filter_append]
    rw [hu, List.map_append, List.nodup_append] at hnodup
    have hne : ∀ call ∈ earlier, (call.2 != latest.2) = true := by
      intro call hm
      have := hnodup.2.2 call.2 (List.mem_map_of_mem hm) latest.2 (by simp)
      simpa using this
    rw [List.filter_eq_self.mpr hne]
    simp

/-! ## The stack -/

/-- A step that executes a call puts its address on the stack. -/
theorem stack_step_call (h : m.executed? = some x) (hx : x.isCall = true) :
    m.step.machine.stack = x.address :: m.stack := by
  obtain ⟨-, rfl, m', notes, he, hs⟩ := Machine.executed?_eq_some h
  obtain ⟨n, hn, rfl⟩ := execute_eq_ok he
  rw [show m.fetch.op = .call by simpa [Executed.isCall] using hx] at hn
  obtain ⟨-, rfl, -⟩ := effect_call hn
  rw [hs]
  rfl

/-- A step that executes a return takes an address off the stack and goes on two bytes behind it. -/
theorem stack_step_return (h : m.executed? = some x) (hx : x.isReturn = true) :
    ∃ address rest, m.stack = address :: rest ∧ m.step.machine.stack = rest ∧
      m.step.machine.pc = (address + 2) % memorySize := by
  obtain ⟨-, rfl, m', notes, he, hs⟩ := Machine.executed?_eq_some h
  obtain ⟨n, hn, rfl⟩ := execute_eq_ok he
  rw [show m.fetch.op = .ret by simpa [Executed.isReturn] using hx] at hn
  obtain ⟨address, rest, hstack, rfl, -⟩ := effect_ret hn
  rw [hs]
  exact ⟨address, rest, hstack, rfl, rfl⟩

theorem stack_step_other (h : ∀ x, m.executed? = some x → x.isCall = false ∧ x.isReturn = false) :
    m.step.machine.stack = m.stack := by
  have hc := m.stepCase
  cases hx : m.executed? with
  | some x =>
    obtain ⟨hcall, hret⟩ := h x hx
    obtain ⟨-, rfl, m', notes, he, hs⟩ := Machine.executed?_eq_some hx
    obtain ⟨n, hn, rfl⟩ := execute_eq_ok he
    rw [hs]
    exact (effect_frame hn).stack (by simpa [Executed.isReturn] using hret) (by simpa [Executed.isCall] using hcall)
  | none =>
    generalize ho : m.step = outcome at hc
    cases hc with
    | stored r k _ => rfl
    | waited r _ => rfl
    | faulted fault _ _ => rfl
    | executed m' notes hw he =>
      rw [(Machine.executed?_of_execute hw he).1] at hx
      cases hx

namespace Emulator

/-- Only a step that executes a call or a return changes the stack. -/
theorem stack_change (e : Emulator) (event : Event) (h : (e.after event).machine.stack ≠ e.machine.stack) :
    event = .step ∧ ∃ x, e.machine.executed? = some x ∧ (x.isCall = true ∨ x.isReturn = true) := by
  cases event with
  | release key => rw [after_release] at h; exact absurd rfl h
  | press key =>
    rw [after_press, machine_press] at h
    cases hw : e.machine.keyWait with
    | awaiting r => rw [Machine.keyDown_awaiting hw] at h; exact absurd rfl h
    | running | pending => rw [Machine.keyDown_other (by simp [hw])] at h; exact absurd rfl h
  | step =>
    refine ⟨rfl, ?_⟩
    by_contra hno
    rw [after_step, machine_step] at h
    refine h (stack_step_other fun x hx => ?_)
    by_contra hop
    refine hno ⟨x, hx, ?_⟩
    cases hcall : x.isCall <;> cases hret : x.isReturn <;> simp_all

/-- The stack holds the addresses of the calls that are left, the latest on top. -/
def Matched (e : Emulator) (events : List Event) : Prop :=
  (e.afterAll events).machine.stack.reverse = (unmatched (e.executed events)).map fun call => call.1.address

theorem executed_snoc (e : Emulator) (events : List Event) (event : Event) : e.executed (events ++ [event]) =
    e.executed events ++ if event = .step then (e.afterAll events).machine.executed?.toList else [] := by
  rw [executed_append]
  cases event with
  | press | release => simp [executed]
  | step => rw [if_pos rfl, executed_step]

/-- **One more event keeps the calls that are left on the stack.** -/
theorem matched_snoc {e : Emulator} {events : List Event} (h : e.Matched events) (event : Event) :
    e.Matched (events ++ [event]) := by
  unfold Matched at *
  rw [afterAll_append, afterAll_cons, afterAll_nil, executed_snoc]
  generalize e.afterAll events = now at h ⊢
  by_cases hstep : event = .step
  · subst hstep
    rw [if_pos rfl, after_step, machine_step]
    cases hx : now.machine.executed? with
    | none =>
      rw [stack_step_other (by simp [hx]), Option.toList_none, List.append_nil]
      exact h
    | some x =>
      rw [Option.toList_some]
      cases hcall : x.isCall with
      | true =>
        rw [stack_step_call hx hcall, unmatched_call _ hcall, List.reverse_cons, h]
        simp
      | false =>
        cases hret : x.isReturn with
        | true =>
          obtain ⟨address, rest, hs, hrest, -⟩ := stack_step_return hx hret
          rw [hs, List.reverse_cons] at h
          rw [hrest, unmatched_return _ hret, List.map_dropLast, ← h, List.dropLast_concat]
        | false =>
          rw [stack_step_other (by simp [hx, hcall, hret]), unmatched_other _ hcall hret]
          exact h
  · have hs : (now.after event).machine.stack = now.machine.stack := by
      by_contra hne
      exact hstep (now.stack_change event hne).1
    rw [if_neg hstep, List.append_nil, hs]
    exact h

theorem matched {e : Emulator} (h : e.machine.stack = []) (events : List Event) : e.Matched events := by
  induction events using List.reverseRecOn with
  | nil => simp [Matched, h, unmatched, callsOutside, executed]
  | append_singleton events event ih => exact matched_snoc ih event

end Emulator

/-! ## Whole runs -/

/-- **The stack holds the calls that no return is matched with**, the latest on top, after any controls; a return goes
on two bytes behind its call. -/
theorem stack_eq_unmatched {platform : Platform} {program : List UInt8} {width height : Int} {random : RandomSource}
    {tracing : Bool} {e : Emulator} (h : Emulator.start platform program width height random tracing = .ok e)
    (controls : List Control) :
    let events := e.eventsOfAll controls
    let now := e.performAll controls
    let history := e.executed events
    now.machine.stack.reverse = (unmatched history).map (fun call => call.1.address) ∧
    (unmatched history).length ≤ 16 ∧
    (∀ x, now.machine.executed? = some x → x.isReturn = true → ∃ i call,
      e.executed (events ++ [.step]) = history ++ [x] ∧ (i, history.length) ∈ pairs (history ++ [x]) ∧
      history[i]? = some call ∧ call.isCall = true ∧
      now.step.2.machine.pc = (call.address + 2) % 0x1000) ∧
    ∀ event, (now.after event).machine.stack ≠ now.machine.stack →
      event = .step ∧ ∃ x, now.machine.executed? = some x ∧ (x.isCall = true ∨ x.isReturn = true) := by
  intro events now history
  obtain ⟨_, _, he⟩ := Emulator.start_eq h
  have hnow : now = e.afterAll events := e.performAll_eq controls
  have hmatched : now.machine.stack.reverse = (unmatched history).map fun call => call.1.address := by
    rw [hnow]
    exact Emulator.matched (by rw [he]; rfl) events
  have hgood : now.machine.Good := by
    refine Machine.good_kept.emulator.performAll ?_ controls
    rw [he]
    exact Machine.boot_good ..
  refine ⟨hmatched, ?_, fun x hx hr => ?_, fun event => now.stack_change event⟩
  · rw [← List.length_map (fun call : Executed × Nat => call.1.address), ← hmatched, List.length_reverse]
    exact hgood.depth
  · obtain ⟨address, rest, hs, -, hpc⟩ := stack_step_return hx hr
    rw [hs, List.reverse_cons] at hmatched
    obtain ⟨⟨call, i⟩, hlast, haddress⟩ :
        ∃ latest, (unmatched history).getLast? = some latest ∧ latest.1.address = address := by
      have := congrArg List.getLast? hmatched
      rw [List.getLast?_concat, List.getLast?_map] at this
      exact Option.map_eq_some_iff.mp this.symm
    obtain ⟨hcall, hop⟩ := mem_unmatched (List.mem_of_getLast? hlast)
    refine ⟨i, call, ?_, ?_, hcall, hop, ?_⟩
    · rw [Emulator.executed_snoc, if_pos rfl, ← hnow, hx]
      rfl
    · rw [pairs_snoc, if_pos hr, hlast]
      simp
    · rw [Emulator.machine_step, hpc, ← haddress]
      rfl

/-- A program that calls a subroutine, which returns at once: the return goes on behind the call. -/
theorem stack_eq_unmatched_return : ∃ e : Emulator,
    Emulator.start .vast [0x22, 0x04, 0x12, 0x02, 0x00, 0xEE] 64 32 (.cycle []) false = .ok e ∧
    let now := e.performAll [.step]
    now.machine.executed? = some ⟨0x204, .decode 0x00EE⟩ ∧
    ∃ (i : Nat) (call : Executed), (e.executed (e.eventsOfAll [.step]))[i]? = some call ∧ call.isCall = true ∧
      now.step.2.machine.pc = (call.address + 2) % 0x1000 := by
  obtain ⟨e, h⟩ := Emulator.exists_start .vast [0x22, 0x04, 0x12, 0x02, 0x00, 0xEE] 64 32 (.cycle []) false
    (by decide) (by decide) (by decide) (by decide)
  obtain ⟨_, _, he⟩ := Emulator.start_eq h
  have hcall : e.machine.step.machine = { e.machine.tick with pc := 0x204, stack := [0x200], cycles := 1 } := by
    have hf : e.machine.fetch = .decode 0x2204 := by rw [he]; exact Emulator.fetch_boot ..
    have hx : e.machine.tick.execute e.machine.fetch =
        .ok ({ e.machine.tick with pc := 0x204, stack := [0x200], cycles := 1 }, []) := by rw [hf, he]; rfl
    rw [(Machine.executed?_of_execute (by rw [he]; rfl) hx).2]
  have hreturn : e.machine.step.machine.executed? = some ⟨0x204, .decode 0x00EE⟩ := by
    have hf : e.machine.step.machine.fetch = .decode 0x00EE := by
      have hmemory : e.machine.step.machine.memory = .image [0x22, 0x04, 0x12, 0x02, 0x00, 0xEE] := by
        rw [hcall, he]; rfl
      have hword := Emulator.wordAt_image hmemory (k := 4) (by decide)
      rw [show (programStart + (4 : Nat) : Int) = e.machine.step.machine.pc by rw [hcall]; rfl] at hword
      rw [Machine.fetch, hword]
      rfl
    have hx : e.machine.step.machine.tick.execute e.machine.step.machine.fetch =
        .ok ({ e.machine.step.machine.tick with pc := 0x202, stack := [], cycles := 2 }, []) := by
      rw [hf, hcall]; rfl
    rw [(Machine.executed?_of_execute (by rw [hcall, he]; rfl) hx).1, hf, hcall]
  have hnow : (e.performAll [.step]).machine = e.machine.step.machine := Emulator.machine_step e
  obtain ⟨-, -, hpc, -⟩ := stack_eq_unmatched h [.step]
  obtain ⟨i, call, -, -, hi, hop, hnext⟩ := hpc ⟨0x204, .decode 0x00EE⟩ (by rw [hnow]; exact hreturn) (by decide)
  exact ⟨e, h, by rw [hnow]; exact hreturn, i, call, hi, hop, hnext⟩

end ChipEight
