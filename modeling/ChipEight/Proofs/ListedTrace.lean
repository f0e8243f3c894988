import ChipEight.Proofs.Listing
import ChipEight.Proofs.TraceHistory

/-!
# The trace in the listing

As long as a program stores nothing in memory, it is executed as it is listed.

- `Machine.memory_step` and `Emulator.memory_afterAll`: only two operations store bytes in memory, so memory stays as it
  is until one of them is executed, by induction on the events;
- `Emulator.exists_before`: an entry of the trace cuts the events in two, and `Emulator.mem_trace_of_executed`: what is
  executed is in the trace;
- `Machine.listed_fetch`: words fetched from a fresh memory are those of the listing, up to the end of the program;
- `trace_listed`: the main statement.
-/

namespace ChipEight

variable {m : Machine} {e : Emulator} {events : List Event} {platform : Platform} {program : List UInt8}

/-- Whether an operation stores bytes in memory. -/
def Op.stores : Op → Bool
  | .storeDecimal | .storeRegisters => true
  | _ => false

/-! ## Memory -/

/-- A step changes memory only by an operation that stores bytes. -/
theorem Machine.memory_step (h : ∀ x, m.executed? = some x → x.instruction.op.stores = false) :
    m.step.machine.memory = m.memory := by
  cases hx : m.executed? with
  | none => rw [step_not_executed hx]; rfl
  | some x =>
    obtain ⟨n, notes, hn, hs⟩ := step_executed hx
    have hop := h x hx
    rw [hs]
    apply (effect_frame hn).memory
    · intro hdecimal
      rw [hdecimal] at hop
      cases hop
    · intro hregisters
      rw [hregisters] at hop
      cases hop

namespace Emulator

/-- **Memory stays as it is** as long as nothing is stored. -/
theorem memory_afterAll (h : ∀ x ∈ e.executed events, x.instruction.op.stores = false) :
    (e.afterAll events).machine.memory = e.machine.memory := by
  induction events generalizing e with
  | nil => rfl
  | cons event events ih =>
    rw [executed, moments, List.filterMap_append, List.forall_mem_append] at h
    obtain ⟨hfirst, hrest⟩ := h
    rw [afterAll_cons, ih hrest]
    cases event with
    | press key => rw [after_press, machine_press, Machine.keyDown_eq]; rfl
    | release key => rw [after_release]; rfl
    | step =>
      rw [after_step, machine_step]
      apply Machine.memory_step
      intro x hx
      exact hfirst x (by simp [hx])

/-! ## Entries -/

/-- **An entry of the trace cuts the events in two**: the entries before it are the trace of the events before it. -/
theorem exists_before (ht : e.tracing = true) (hempty : e.trace = #[]) {earlier later : List TraceEntry}
    {entry : TraceEntry} (h : (e.afterAll events).trace.toList = earlier ++ entry :: later) :
    ∃ before, (e.afterAll before).trace.toList = earlier ∧ (e.afterAll before).machine.keyWait = .running ∧
      (e.afterAll before).entry = entry := by
  rw [trace_of_empty ht hempty] at h
  obtain ⟨_, _, hfilter, rfl, hrest⟩ := List.map_eq_append_iff.mp h
  obtain ⟨moment, _, rfl, hmoment, -⟩ := List.map_eq_cons_iff.mp hrest
  obtain ⟨first, _, hmoments, rfl, hnext⟩ := List.filter_eq_append_iff.mp hfilter
  obtain ⟨idle, _, rfl, hidle, hrunning, -⟩ := List.filter_eq_cons_iff.mp hnext
  rw [← List.append_assoc] at hmoments
  obtain ⟨before, _, -, hbefore, rfl, -⟩ := exists_split hmoments
  refine ⟨before, ?_, of_decide_eq_true hrunning, hmoment⟩
  rw [trace_of_empty ht hempty, hbefore, List.filter_append, List.filter_eq_nil_iff.mpr hidle, List.append_nil]

/-- An instruction that was executed is in the trace. -/
theorem mem_trace_of_executed (ht : e.tracing = true) (hempty : e.trace = #[]) {x : Executed}
    (hx : x ∈ e.executed events) :
    ∃ past ∈ (e.afterAll events).trace.toList, past.address = x.address ∧ past.instruction = x.instruction := by
  obtain ⟨moment, hm, hx⟩ := List.mem_filterMap.mp hx
  obtain ⟨hw, rfl, -⟩ := Machine.executed?_eq_some hx
  rw [trace_of_empty ht hempty]
  exact ⟨moment.entry, List.mem_map_of_mem (List.mem_filter.mpr ⟨hm, decide_eq_true hw⟩), rfl, rfl⟩

end Emulator

/-! ## Fetching -/

/-- **A word fetched from a fresh memory is the one that is listed**, if its first byte is one of the program. -/
theorem Machine.listed_fetch (hmemory : m.memory = .image program) (hfits : program.length ≤ maxProgram) {k : Nat}
    (hk : 2 * k < program.length) (hpc : m.pc = programStart + 2 * (k : Int)) :
    ∃ line, (Listing.ofBytes program programStart)[k]? = some line ∧ line.address = m.pc ∧
      (line.word : Int) = m.fetch.word ∧ line.assembly = m.fetch.assembly := by
  have hinside : 2 * k + 1 < maxProgram := by
    unfold maxProgram memorySize programStart at *
    omega
  have hword : (Listing.words program)[k]? = some (m.wordAt m.pc) := by
    have hpc : m.pc = programStart + ((2 * k : Nat) : Int) := by omega
    rw [Listing.getElem?_words, List.getElem?_eq_getElem hk, hpc, Emulator.wordAt_image hmemory hinside,
      List.getD_eq_getElem?_getD, List.getD_eq_getElem?_getD, List.getElem?_eq_getElem hk]
    rfl
  have hlt : m.wordAt m.pc < 0x10000 := Listing.lt_of_mem_words (List.mem_of_getElem? hword)
  refine ⟨.ofWord (programStart + 2 * k) (m.wordAt m.pc), ?_, hpc.symm, ?_, rfl⟩
  · rw [Listing.getElem?_ofBytes, hword]
    rfl
  · show (m.wordAt m.pc : Int) = (m.wordAt m.pc : Int) % 0x10000
    omega

/-- **The listing shows what is executed.** Until an instruction stores bytes, each one fetched at an even distance from
the start of the program has its address, its word and its text in the listing. -/
theorem trace_listed {width height : Int} {random : RandomSource}
    (h : Emulator.start platform program width height random true = .ok e) (controls : List Control)
    {earlier later : List TraceEntry} {entry : TraceEntry}
    (htrace : (e.performAll controls).trace.toList = earlier ++ entry :: later)
    (hstores : ∀ past ∈ earlier, past.instruction.op ≠ .storeDecimal ∧ past.instruction.op ≠ .storeRegisters)
    {k : Nat} (hk : 2 * k < program.length) (haddress : entry.address = programStart + 2 * (k : Int)) :
    ∃ line, (Listing.ofBytes program programStart)[k]? = some line ∧ line.address = entry.address ∧
      (line.word : Int) = entry.instruction.word ∧ line.assembly = entry.instruction.assembly := by
  have hfits := Emulator.length_le_of_start h
  obtain ⟨_, _, he⟩ := Emulator.start_eq h
  have ht : e.tracing = true := by rw [he]
  have hempty : e.trace = #[] := by rw [he]
  have himage : e.machine.memory = .image program := by rw [he]; rfl
  rw [Emulator.performAll_eq] at htrace
  obtain ⟨before, rfl, -, rfl⟩ := Emulator.exists_before ht hempty htrace
  have hmemory : (e.afterAll before).machine.memory = .image program := by
    rw [Emulator.memory_afterAll, himage]
    intro x hx
    obtain ⟨past, hpast, -, hinstruction⟩ := Emulator.mem_trace_of_executed ht hempty hx
    obtain ⟨hdecimal, hregisters⟩ := hstores past hpast
    rw [← hinstruction]
    unfold Op.stores
    split <;> trivial
  exact Machine.listed_fetch hmemory hfits hk haddress

/-- A jump to a last lone byte, which is listed and executed as the high byte of a word. -/
theorem trace_listed_lone : ∃ e first entry, Emulator.start .vast [0x12, 0x02, 0x6A] 64 32 (.cycle []) true = .ok e ∧
    (e.performAll [.step, .keyDown 5, .step]).trace.toList = [first, entry] ∧ first.instruction.op = .jump ∧
    entry.address = 0x202 ∧ entry.instruction.word = 0x6A00 ∧ entry.instruction.assembly = "LD VA, 0x00" := by
  obtain ⟨e, h⟩ := Emulator.exists_start .vast [0x12, 0x02, 0x6A] 64 32 (.cycle []) true
    (by decide) (by decide) (by decide) (by decide)
  obtain ⟨_, _, he⟩ := Emulator.start_eq h
  obtain ⟨-, hjump⟩ := Machine.executed?_image (m := e.machine) (k := 0)
    (n := { e.machine with pc := 0x202, cycles := 1 })
    (by rw [he]; rfl) (by decide) (by rw [he]; rfl) (by rw [he]; rfl) (by rw [he]; rfl)
  have hfirst : e.machine.keyWait = .running := by rw [he]; rfl
  have hsecond : (e.step.2.press ⟨5, by decide⟩).machine.keyWait = .running := by
    rw [Emulator.machine_press, Emulator.machine_step, hjump, he]
    rfl
  have haddress : (e.step.2.press ⟨5, by decide⟩).machine.pc = 0x202 := by
    rw [Emulator.machine_press, Emulator.machine_step, hjump, Machine.keyDown_eq]
    rfl
  have hop : e.machine.fetch.op = .jump := by
    rw [he, Emulator.fetch_boot]
    rfl
  have htrace : (e.performAll [.step, .keyDown 5, .step]).trace.toList =
      [e.entry] ++ (e.step.2.press ⟨5, by decide⟩).entry :: [] := by
    rw [Emulator.trace_performAll h, Emulator.map_entry_fetches]
    show (([e, e.step.2.press ⟨5, by decide⟩]).filter fun moment => moment.machine.keyWait = .running).map _ = _
    rw [List.filter_eq_self.mpr]
    · rfl
    · exact List.forall_mem_cons.mpr ⟨decide_eq_true hfirst, List.forall_mem_singleton.mpr (decide_eq_true hsecond)⟩
  obtain ⟨line, hline, -, hword, hassembly⟩ := trace_listed h [.step, .keyDown 5, .step] htrace
    (by simp [Emulator.entry, Emulator.entryOf, hop]) (k := 1) (by decide) haddress
  have hlisted : (Listing.ofBytes [0x12, 0x02, 0x6A] programStart)[1]? = some ⟨0x202, 0x6A00, "LD VA, 0x00"⟩ := by
    decide
  obtain rfl := Option.some.inj (hlisted.symm.trans hline)
  exact ⟨e, e.entry, (e.step.2.press ⟨5, by decide⟩).entry, h, htrace, hop, haddress, hword.symm, hassembly.symm⟩

end ChipEight
