import Mathlib.Data.List.Induction
import ChipEight.Machine.Execute

/-!
# Complete dispatch tables

A table is built from a list of handlers, and the list decides alone what comes of it.

- `registerAll_append`: handlers are registered in two parts as they are in one;
- `registerAll_fresh`, by induction on the list: handlers for different operations are all taken, in their order, and
  `registerAll_repeat`: the first operation that comes again is refused;
- `exists_first_repeat`: a list in which an operation comes again has a first place where one does;
- `perm_all_iff`: the lists of each operation once;
- `build_of_repeat`, `build_of_fresh`, `build_eq_ok_iff`: what is built;
- `Table.attemptAll` goes on to register handlers and keeps the table when one is refused; `attemptAll_of_frozen` says
  that nothing changes any more;
- `build_decided`: the main statement.
-/

namespace ChipEight

namespace Table

variable {α : Type} {t : Table α} {op : Op} {handler : α} {before handlers after : List (Op × α)}

/-! ## Registering a list of handlers -/

/-- Handlers are registered in two parts as they are in one. -/
theorem registerAll_append (t : Table α) (before after : List (Op × α)) :
    t.registerAll (before ++ after) =
      match t.registerAll before with
      | .error fault => .error fault
      | .ok t => t.registerAll after := by
  induction before generalizing t with
  | nil => rfl
  | cons entry before ih =>
    rw [List.cons_append, registerAll, registerAll]
    cases t.register entry.1 entry.2 with
    | error fault => rfl
    | ok t => exact ih t

theorem register_fresh (hopen : t.frozen = false) (hfresh : op ∉ t.keys) :
    t.register op handler = .ok { t with entries := t.entries ++ [(op, handler)] } := by
  rw [register, hopen, if_neg Bool.false_ne_true, if_neg hfresh]

theorem register_repeat (hopen : t.frozen = false) (hmem : op ∈ t.keys) :
    t.register op handler = .error (.duplicate op) := by
  rw [register, hopen, if_neg Bool.false_ne_true, if_pos hmem]

theorem register_frozen (h : t.frozen = true) (op : Op) (handler : α) : t.register op handler = .error .frozen := by
  rw [register, if_pos h]

/-- **Handlers for different operations are all taken**, in their order. -/
theorem registerAll_fresh (hopen : t.frozen = false) (hnodup : (t.keys ++ handlers.map Prod.fst).Nodup) :
    t.registerAll handlers = .ok { t with entries := t.entries ++ handlers } := by
  induction handlers generalizing t with
  | nil =>
    rw [List.append_nil]
    rfl
  | cons entry handlers ih =>
    obtain ⟨op, handler⟩ := entry
    have hfresh : op ∉ t.keys := fun hmem =>
      (List.nodup_append.mp hnodup).2.2 op hmem op List.mem_cons_self rfl
    let next : Table α := { t with entries := t.entries ++ [(op, handler)] }
    have hnext : (next.keys ++ handlers.map Prod.fst).Nodup := by
      have hkeys : next.keys = t.keys ++ [op] := List.map_append
      rwa [hkeys, List.append_assoc]
    rw [registerAll, register_fresh hopen hfresh]
    refine (ih (t := next) hopen hnext).trans ?_
    rw [List.append_assoc]
    rfl

/-- **The first operation that comes again is refused**, whatever is behind it. -/
theorem registerAll_repeat (hnodup : (before.map Prod.fst).Nodup) (hmem : op ∈ before.map Prod.fst) :
    ({} : Table α).registerAll (before ++ (op, handler) :: after) = .error (.duplicate op) := by
  have hbefore : ({} : Table α).registerAll before = .ok { entries := before } :=
    registerAll_fresh rfl hnodup
  rw [registerAll_append, hbefore]
  simp only
  rw [registerAll, register_repeat rfl hmem]

/-! ## Repeated and missing operations -/

/-- Where an operation comes again, there is a first place where one does. -/
theorem exists_first_repeat (h : ¬ (handlers.map Prod.fst).Nodup) :
    ∃ before op handler after, handlers = before ++ (op, handler) :: after ∧
      (before.map Prod.fst).Nodup ∧ op ∈ before.map Prod.fst := by
  induction handlers using List.reverseRecOn with
  | nil => exact absurd List.nodup_nil h
  | append_singleton handlers entry ih =>
    by_cases hnodup : (handlers.map Prod.fst).Nodup
    · obtain ⟨op, handler⟩ := entry
      refine ⟨handlers, op, handler, [], rfl, hnodup, ?_⟩
      by_contra hfresh
      refine h ?_
      rw [List.map_append]
      refine List.nodup_append.mpr ⟨hnodup, List.pairwise_singleton _ _, ?_⟩
      rintro a ha b hb rfl
      obtain rfl : a = op := List.mem_singleton.mp hb
      exact hfresh ha
    · obtain ⟨before, op, handler, after, rfl, hbefore, hmem⟩ := ih hnodup
      exact ⟨before, op, handler, after ++ [entry], List.append_assoc _ _ _, hbefore, hmem⟩

/-- Each operation once: none again, and none missing. -/
theorem perm_all_iff {ops : List Op} : ops.Perm Op.all ↔ ops.Nodup ∧ ∀ op, op ∈ ops := by
  constructor
  · intro h
    exact ⟨h.nodup_iff.mpr Op.nodup_all, fun op => h.mem_iff.mpr (Op.mem_all op)⟩
  · intro ⟨hnodup, hall⟩
    exact (List.perm_ext_iff_of_nodup hnodup Op.nodup_all).mpr fun op => ⟨fun _ => Op.mem_all op, fun _ => hall op⟩

theorem missing_eq_nil_iff : t.missing = [] ↔ ∀ op, op ∈ t.keys := by
  rw [missing, List.filter_eq_nil_iff]
  simp only [decide_eq_true_eq, not_not]
  exact ⟨fun h op => h op (Op.mem_all op), fun h op _ => h op⟩

/-! ## What is built -/

theorem build_of_repeat (hnodup : (before.map Prod.fst).Nodup) (hmem : op ∈ before.map Prod.fst) :
    build (before ++ (op, handler) :: after) = .error (.duplicate op) := by
  rw [build, registerAll_repeat hnodup hmem]

theorem build_of_fresh (h : (handlers.map Prod.fst).Nodup) : build handlers = complete { entries := handlers } := by
  have hall : ({} : Table α).registerAll handlers = .ok { entries := handlers } := registerAll_fresh rfl h
  rw [build, hall]

/-- A table is complete when no operation is missing, and then it is frozen. -/
theorem complete_eq_ok_iff {t' : Table α} :
    t.complete = .ok t' ↔ (∀ op, op ∈ t.keys) ∧ t' = { t with frozen := true } := by
  rw [← missing_eq_nil_iff, complete, ← List.isEmpty_iff]
  split
  case isTrue h => rw [Except.ok.injEq, eq_comm, and_iff_right h]
  case isFalse h => exact ⟨nofun, fun hall => absurd hall.1 h⟩

/-- **A table is built from the lists of each operation once**, and holds their handlers. -/
theorem build_eq_ok_iff : build handlers = .ok t ↔
    (handlers.map Prod.fst).Perm Op.all ∧ t = { entries := handlers, frozen := true } := by
  rw [perm_all_iff]
  by_cases hnodup : (handlers.map Prod.fst).Nodup
  · rw [build_of_fresh hnodup, complete_eq_ok_iff, and_iff_right hnodup]
    rfl
  · obtain ⟨before, op, handler, after, rfl, hbefore, hmem⟩ := exists_first_repeat hnodup
    rw [build_of_repeat hbefore hmem]
    exact ⟨nofun, fun h => absurd h.1.1 hnodup⟩

/-- The names are in order. -/
theorem pairwise_sortedNames (ops : List Op) : (sortedNames ops).Pairwise (· ≤ ·) := by
  have hsorted : (sortedNames ops).Pairwise fun a b => decide (a ≤ b) = true := by
    refine List.pairwise_mergeSort (fun a b c hab hbc => ?_) (fun a b => ?_) _
    · exact decide_eq_true (String.le_trans (of_decide_eq_true hab) (of_decide_eq_true hbc))
    · simpa using String.le_total a b
  exact hsorted.imp of_decide_eq_true

/-! ## Registering further handlers -/

/-- The table after one more registration, which is the same when it is refused. -/
def attempt (t : Table α) (op : Op) (handler : α) : Table α :=
  match t.register op handler with
  | .error _ => t
  | .ok t => t

/-- The table after more registrations. -/
def attemptAll (t : Table α) (handlers : List (Op × α)) : Table α :=
  handlers.foldl (fun t entry => t.attempt entry.1 entry.2) t

/-- **A frozen table never changes.** -/
theorem attemptAll_of_frozen (h : t.frozen = true) (handlers : List (Op × α)) : t.attemptAll handlers = t := by
  induction handlers with
  | nil => rfl
  | cons entry handlers ih =>
    have hsame : t.attempt entry.1 entry.2 = t := by rw [attempt, register_frozen h]
    rw [attemptAll, List.foldl_cons, hsame]
    exact ih

/-- The handler of an operation is the first one that was registered for it. -/
theorem find?_of_mem (h : op ∈ t.keys) : ∃ before handler after, t.entries = before ++ (op, handler) :: after ∧
    op ∉ before.map Prod.fst ∧ t.find? op = some handler := by
  cases hfind : t.find? op with
  | none =>
    obtain ⟨entry, hentry, rfl⟩ := List.mem_map.mp h
    have := List.lookup_eq_none_iff.mp hfind entry hentry
    simp at this
  | some handler =>
    obtain ⟨before, after, hentries, hbefore⟩ := List.lookup_eq_some_iff.mp hfind
    refine ⟨before, handler, after, hentries, fun hmem => ?_, rfl⟩
    obtain ⟨entry, hentry, rfl⟩ := List.mem_map.mp hmem
    have := hbefore entry hentry
    simp at this

/-! ## The main statement -/

/-- **Dispatch tables are complete.** A table is built just from the lists that give each operation one handler, and
once it is built every further handler is refused. -/
theorem build_decided (handlers : List (Op × α)) :
    ((∃ t, build handlers = .ok t) ↔ (handlers.map Prod.fst).Perm Op.all) ∧
    (¬ (handlers.map Prod.fst).Nodup → ∃ before op handler after, handlers = before ++ (op, handler) :: after ∧
      (before.map Prod.fst).Nodup ∧ op ∈ before.map Prod.fst ∧
      build handlers = .error (.duplicate op) ∧
      (Fault.duplicate op).message = "Primitive already registered: " ++ op.name) ∧
    ((handlers.map Prod.fst).Nodup → (∃ op, op ∉ handlers.map Prod.fst) → ∃ ops names,
      build handlers = .error (.missing ops) ∧
      (Fault.missing ops).message = "Opcodes without a handler: " ++ ", ".intercalate names ∧
      names.Perm ((Op.all.filter (· ∉ handlers.map Prod.fst)).map Op.name) ∧ names.Pairwise (· ≤ ·)) ∧
    ∀ t, build handlers = .ok t → t.frozen = true ∧
      (∀ op handler, t.register op handler = .error .frozen) ∧
      Fault.frozen.message = "Cannot register primitives: registry is frozen" ∧
      ∀ further op, ∃ before handler after, handlers = before ++ (op, handler) :: after ∧
        op ∉ before.map Prod.fst ∧ (t.attemptAll further).find? op = some handler := by
  refine ⟨?_, fun hrepeat => ?_, fun hnodup ⟨op, hop⟩ => ?_, fun t ht => ?_⟩
  · simp only [build_eq_ok_iff, exists_and_left, exists_eq, and_true]
  · obtain ⟨before, op, handler, after, rfl, hbefore, hmem⟩ := exists_first_repeat hrepeat
    exact ⟨before, op, handler, after, rfl, hbefore, hmem, build_of_repeat hbefore hmem, rfl⟩
  · have hlacks : ¬ ({ entries := handlers } : Table α).missing = [] := fun h => hop (missing_eq_nil_iff.mp h op)
    refine ⟨_, _, ?_, rfl, List.mergeSort_perm _ _, pairwise_sortedNames _⟩
    rw [build_of_fresh hnodup, complete, if_neg (by simpa using hlacks)]
    rfl
  · obtain ⟨hperm, rfl⟩ := build_eq_ok_iff.mp ht
    refine ⟨rfl, register_frozen rfl, rfl, fun further op => ?_⟩
    rw [attemptAll_of_frozen rfl]
    exact find?_of_mem (t := { entries := handlers, frozen := true }) ((perm_all_iff.mp hperm).2 op)

/-- The operations once, one of them twice, and one of them alone. -/
theorem build_three_lists :
    (∃ t, build (Op.all.map fun op => (op, op.name)) = .ok t ∧ t.frozen = true ∧
      t.register .clear "CLS" = .error .frozen) ∧
    (∃ op, build [(Op.clear, 0), (Op.ret, 1), (Op.clear, 2)] = .error (.duplicate op)) ∧
    ∃ ops, build [(Op.clear, 0)] = .error (.missing ops) := by
  have hperm : ((Op.all.map fun op => (op, op.name)).map Prod.fst).Perm Op.all := by decide
  obtain ⟨t, ht⟩ := (build_decided (Op.all.map fun op => (op, op.name))).1.mpr hperm
  obtain ⟨hfrozen, hregister, -⟩ := (build_decided _).2.2.2 t ht
  obtain ⟨-, op, -, -, -, -, -, hrepeat, -⟩ :=
    (build_decided [(Op.clear, 0), (Op.ret, 1), (Op.clear, 2)]).2.1 (by decide)
  obtain ⟨ops, -, hmissing, -⟩ :=
    (build_decided [(Op.clear, 0)]).2.2.1 (by decide) ⟨.ret, by decide⟩
  exact ⟨⟨t, ht, hfrozen, hregister _ _⟩, ⟨op, hrepeat⟩, ops, hmissing⟩

end Table

/-- The machine's own table is complete, and gives every operation its effect. -/
theorem standardTable_complete :
    ∃ t, standardTable = .ok t ∧ t.frozen = true ∧ ∀ op, t.find? op = some (effect op) := by
  let t : Table (Instruction → Machine → Effect) :=
    { entries := Op.all.map fun op => (op, effect op), frozen := true }
  have hkeys : t.keys = Op.all := by
    rw [Table.keys, List.map_map]
    exact List.map_id _
  refine ⟨t, Table.build_eq_ok_iff.mpr ⟨List.Perm.of_eq hkeys, rfl⟩, rfl, fun op => ?_⟩
  have hop : op ∈ t.keys := hkeys ▸ Op.mem_all op
  obtain ⟨before, handler, after, hentries, -, hfind⟩ := Table.find?_of_mem hop
  have hmem : (op, handler) ∈ t.entries := by
    rw [hentries]
    exact List.mem_append_right before List.mem_cons_self
  obtain ⟨other, -, heq⟩ := List.mem_map.mp hmem
  cases heq
  exact hfind

end ChipEight
