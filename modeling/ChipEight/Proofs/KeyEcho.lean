import ChipEight.Proofs.Font
import ChipEight.Proofs.Sessions
import ChipEight.Proofs.Stepping

/-!
# A program that shows keys

One of the examples awaits a key, draws its digit in the middle of the screen, and begins again. Each of its rounds is
the same, and what it leaves does not depend on the screen that it found.

- `keyEchoProgram` are the bytes of the example, and `parse_keyEcho` says that its listing is read as these;
- `drawn` is the screen with the glyph of a key, and `lit_drawn` and `collided_drawn` what drawing it comes to;
- `goes_asking`, `goes_placing`, `goes_drawing`: the parts of the program, and from them `goes_round`;
- `press_goes`: what a press comes to, and for the example `Awaits.press`; by induction on the presses `awaits_presses`;
- `keyEcho_shows`: the main statement.
-/

namespace ChipEight.Playground

open Machine

variable {m : Machine} {s : Screen} {registers : Registers} {key : Key} {cx cy : Nat}

/-- The bytes of the example that shows keys. -/
def keyEchoProgram : List UInt8 :=
  [0x00, 0xE0, 0xF0, 0x0A, 0x00, 0xE0, 0xF0, 0x29, 0x61, 0x1C, 0x62, 0x0D, 0xD1, 0x25, 0x12, 0x02]

theorem parse_keyEcho : HexListing.parse (exampleNamed "Key Echo").toList = .ok keyEchoProgram := by
  decide +kernel

/-! ## The screen -/

/-- The screen with nothing but the glyph of a key on it, and whether drawing it put a cell out. -/
def drawn (s : Screen) (key : Key) : Screen × Bool :=
  s.cleared.draw (glyph key) 28 13

/-- The glyph lies inside a screen of the usual size. -/
theorem inside_glyph (hw : s.width = 64) (hh : s.height = 32) : ∀ t ∈ targets (glyph key) 28 13, s.Inside t := by
  intro t ht
  obtain ⟨row, r, c, hrow, hc, -, rfl⟩ := mem_targets.mp ht
  obtain ⟨hr, -⟩ := List.getElem?_eq_some_iff.mp hrow
  rw [length_glyph] at hr
  unfold glyphSize at hr
  unfold spriteWidth at hc
  unfold Screen.Inside
  rw [hw, hh]
  dsimp only
  omega

/-- Whether a cell lies under a set bit of the glyph of a key with its top left corner in column 28 and row 13. -/
def UnderGlyph (key : Key) (cx cy : Nat) : Prop :=
  ∃ row column : Nat, row < 5 ∧ column < 8 ∧ cx = 28 + column ∧ cy = 13 + row ∧
    (font.getD (5 * key.val + row) 0).toNat.testBit (7 - column) = true

theorem mem_targets_glyph : ((cx : Int), (cy : Int)) ∈ targets (glyph key) 28 13 ↔ UnderGlyph key cx cy := by
  rw [mem_targets]
  constructor
  · rintro ⟨_, row, column, hrow, hcolumn, hbit, heq⟩
    obtain ⟨hr, rfl⟩ := getElem?_glyph.mp hrow
    simp only [Prod.mk.injEq] at heq
    exact ⟨row, column, hr, hcolumn, by omega, by omega, hbit⟩
  · rintro ⟨row, column, hr, hcolumn, rfl, rfl, hbit⟩
    exact ⟨_, row, column, getElem?_glyph.mpr ⟨hr, rfl⟩, hcolumn, hbit, by simp⟩

theorem lit_drawn (hw : s.width = 64) (hh : s.height = 32) (hx : cx < 64) (hy : cy < 32) :
    (drawn s key).1.lit cx cy = true ↔ UnderGlyph key cx cy := by
  rw [drawn, Screen.lit_draw_of_inside (s := s.cleared) (inside_glyph hw hh) (hw ▸ hx) (hh ▸ hy), Screen.lit_cleared,
    Bool.false_xor, decide_eq_true_eq, mem_targets_glyph]

/-- Nothing is put out. -/
theorem collided_drawn (hw : s.width = 64) (hh : s.height = 32) : (drawn s key).2 = false := by
  refine Bool.eq_false_iff.mpr fun h => ?_
  obtain ⟨cx, cy, -, hlit⟩ := (Screen.collided_draw_of_inside (s := s.cleared) (inside_glyph hw hh)).mp h
  rw [Screen.lit_cleared] at hlit
  cases hlit

/-! ## The program -/

/-- The glyph of a key stands in the memory of a machine that has any program. -/
theorem sprite_glyph {program : List UInt8} {k : Nat} {keyWait : KeyWait} (h : m.At program k keyWait) (key : Key) :
    (Memory.image program).sprite (key.val * glyphSize) glyphSize = glyph key := by
  have hfont : m.HasFont := by
    unfold HasFont
    rw [h.memory]
    exact Memory.slice_font_image program
  rw [← h.memory]
  exact hfont.slice_glyph key

/-- At first the screen is cleared and a key is awaited. -/
theorem goes_asking (h : m.At keyEchoProgram 0 .running) : ∃ after, Goes 2 m after ∧
    after.At keyEchoProgram 4 (.awaiting ⟨0, by decide⟩) ∧ after.view.cycles = m.view.cycles + 2 := by
  obtain ⟨m₁, hgo₁, hat₁, hview₁⟩ := h.clear 0x00E0 (by decide) (by decide)
  obtain ⟨m₂, hgo₂, hat₂, hview₂⟩ := hat₁.awaitKey 0xF00A (by decide) (by decide)
  refine ⟨m₂, hgo₁.trans hgo₂, hat₂, ?_⟩
  rw [hview₂, hview₁]
  exact Int.add_assoc _ 1 1

/-- The registers when the glyph of a key is drawn. -/
def placing (registers : Registers) (key : Key) : Registers :=
  ((registers.put ⟨0, by decide⟩ key.val).put ⟨1, by decide⟩ 28).put ⟨2, by decide⟩ 13

/-- A key that arrived is stored, the screen is cleared, and the glyph and its place are looked up. -/
theorem goes_placing (h : m.At keyEchoProgram 4 (.pending ⟨0, by decide⟩ key)) : ∃ after, Goes 5 m after ∧
    after.At keyEchoProgram 12 .running ∧
    after.view = { m.view with
      registers := placing m.view.registers key, index := key.val * glyphSize, screen := m.view.screen.cleared,
      cycles := m.view.cycles + 4 } := by
  obtain ⟨m₁, hgo₁, hat₁, hview₁⟩ := h.stored
  obtain ⟨m₂, hgo₂, hat₂, hview₂⟩ := hat₁.clear 0x00E0 (by decide) (by decide)
  obtain ⟨m₃, hgo₃, hat₃, hview₃⟩ := hat₂.pointGlyph 0xF029 (by decide) (by decide)
  obtain ⟨m₄, hgo₄, hat₄, hview₄⟩ := hat₃.loadByte 0x611C (by decide) (by decide)
  obtain ⟨m₅, hgo₅, hat₅, hview₅⟩ := hat₄.loadByte 0x620D (by decide) (by decide)
  refine ⟨m₅, hgo₁.trans (hgo₂.trans (hgo₃.trans (hgo₄.trans hgo₅))), hat₅, ?_⟩
  rw [hview₅, hview₄, hview₃, hview₂, hview₁]
  refine View.ext rfl ?_ rfl rfl ?_
  · exact congrArg (· * (glyphSize : Int)) ((Registers.value_put ..).trans (if_pos rfl))
  · show m.view.cycles + 1 + 1 + 1 + 1 = m.view.cycles + 4
    omega

/-- The glyph is drawn, and the program awaits the next key. -/
theorem goes_drawing (h : m.At keyEchoProgram 12 .running) (hregisters : m.view.registers = placing registers key)
    (hindex : m.view.index = key.val * glyphSize) : ∃ after, Goes 3 m after ∧
    after.At keyEchoProgram 4 (.awaiting ⟨0, by decide⟩) ∧
    after.view.registers = (placing registers key).put flag (bitOf (m.view.screen.draw (glyph key) 28 13).2) ∧
    after.view.screen = (m.view.screen.draw (glyph key) 28 13).1 ∧
    after.view.cycles = m.view.cycles + 3 := by
  obtain ⟨m₁, hgo₁, hat₁, hview₁⟩ := h.draw 0xD125 (by decide) (by decide)
  obtain ⟨m₂, hgo₂, hat₂, hview₂⟩ := hat₁.jump 0x1202 2 (by decide) (by decide) (by decide)
  obtain ⟨m₃, hgo₃, hat₃, hview₃⟩ := hat₂.awaitKey 0xF00A (by decide) (by decide)
  have hx : (placing registers key).value (hexDigit 0xD125 2) = 28 := by
    rw [placing, Registers.value_put, if_neg (by decide), Registers.value_put, if_pos (by decide)]
  have hy : (placing registers key).value (hexDigit 0xD125 1) = 13 := by
    rw [placing, Registers.value_put, if_pos (by decide)]
  have hglyph : (Memory.image keyEchoProgram).sprite (key.val * glyphSize) (hexDigit 0xD125 0).val = glyph key :=
    sprite_glyph h key
  rw [hregisters, hindex, hx, hy, hglyph] at hview₁
  refine ⟨m₃, hgo₁.trans (hgo₂.trans hgo₃), hat₃, ?_⟩
  rw [hview₃, hview₂, hview₁]
  refine ⟨rfl, rfl, ?_⟩
  show m.view.cycles + 1 + 1 + 1 = m.view.cycles + 3
  omega

/-- **One round of the program**: a key that arrived is shown in place of the last one. -/
theorem goes_round (h : m.At keyEchoProgram 4 (.pending ⟨0, by decide⟩ key)) (hw : m.view.screen.width = 64)
    (hh : m.view.screen.height = 32) : ∃ after, Goes 8 m after ∧
    after.At keyEchoProgram 4 (.awaiting ⟨0, by decide⟩) ∧
    after.view.registers.value ⟨0, by decide⟩ = key.val ∧ after.view.registers.value flag = 0 ∧
    after.view.screen = (drawn m.view.screen key).1 ∧ after.view.cycles = m.view.cycles + 7 := by
  obtain ⟨m₁, hgo₁, hat₁, hview₁⟩ := goes_placing h
  obtain ⟨m₂, hgo₂, hat₂, hregisters, hscreen, hcycles⟩ :=
    goes_drawing hat₁ (congrArg View.registers hview₁) (congrArg View.index hview₁)
  rw [congrArg View.screen hview₁] at hregisters hscreen
  rw [congrArg View.cycles hview₁] at hcycles
  have hnone : (m.view.screen.cleared.draw (glyph key) 28 13).2 = false := collided_drawn hw hh
  refine ⟨m₂, hgo₁.trans hgo₂, hat₂, ?_, ?_, hscreen, hcycles.trans (Int.add_assoc _ 4 3)⟩
  · rw [hregisters, Registers.value_put, if_neg (by decide), placing, Registers.value_put, if_neg (by decide),
      Registers.value_put, if_neg (by decide), Registers.value_put, if_pos rfl]
  · rw [hregisters, Registers.value_put, if_pos rfl, hnone]
    rfl

/-! ## Sessions -/

/-- An emulator that shows a key after so many presses, and awaits the next. -/
structure Echoed (e : Emulator) (key : Key) (presses : Nat) : Prop where
  awaiting : e.machine.keyWait = .awaiting ⟨0, by decide⟩
  width : e.machine.screen.width = 64
  height : e.machine.screen.height = 32
  /-- Nothing is lit but the glyph. -/
  lit : ∀ cx cy : Nat, cx < 64 → cy < 32 → (e.machine.screen.lit cx cy = true ↔ UnderGlyph key cx cy)
  value : e.machine.registers.value ⟨0, by decide⟩ = key.val
  flag : e.machine.registers.value flag = 0
  released : e.machine.heldKeys = []
  cycles : e.machine.cycles = 2 + 7 * presses

namespace Session

variable {s : Session} {e : Emulator} {presses : Nat}

/-- The session runs the example, which awaits a key after so many presses. -/
structure Awaits (s : Session) (presses : Nat) (e : Emulator) : Prop where
  emulator : s.emulator? = some e
  sound : Sound e
  waits : e.machine.At keyEchoProgram 4 (.awaiting ⟨0, by decide⟩)
  cycles : e.machine.cycles = 2 + 7 * presses

/-- The example awaits a key when it was loaded and made two steps. -/
theorem awaits_start (s : Session) (platform : Platform) {request : Request} (files : FileSystem)
    {unseeded random : RandomSource} (hlisting : request.listing = exampleNamed "Key Echo") (hfile : request.file = "")
    (hrandom : request.random unseeded = .ok random) {count : Int} (hcount : 2 ≤ count) :
    ∃ e, (s.operateAll [.load platform request files unseeded, .run count]).Awaits 0 e := by
  have hprogram : request.program files = .ok ⟨keyEchoProgram, request.exampleName, []⟩ := by
    rw [Request.program, hfile, hlisting, parse_keyEcho]
    rfl
  obtain ⟨e, hstart, hloaded⟩ := s.load_ok platform hprogram hrandom
  have hsound := sound_start hstart
  obtain ⟨_, _, he⟩ := Emulator.start_eq hstart
  have hat : e.machine.At keyEchoProgram 0 .running := by
    rw [he]
    exact ⟨rfl, rfl, rfl⟩
  obtain ⟨m, hgo, hwaits, hcycles⟩ := goes_asking hat
  have hcycles : m.cycles = 2 := by
    have hzero : e.machine.view.cycles = 0 := by rw [he]; rfl
    rw [hzero] at hcycles
    exact hcycles
  let started : Emulator := { e with log := #[] }
  have hasks : m.awaitingKey = true := by rw [awaitingKey, hwaits.keyWait]
  have hevents : (Operation.run count).events started = List.replicate 2 .step :=
    (Emulator.runFrom_goes (e := started) hgo rfl hasks (by omega) 0).2
  have hmachine : (started.afterAll ((Operation.run count).events started)).machine = m := by
    rw [hevents]
    exact Emulator.machine_afterAll_goes hgo rfl
  exact ⟨_, operate_eq hloaded rfl (rfl : (Operation.run count).isLoad = false), hsound.afterAll (.run count),
    hmachine ▸ hwaits, (congrArg Machine.cycles hmachine).trans hcycles⟩

/-- What a press comes to whose run makes some steps and ends in a wait. -/
theorem press_goes (he : s.emulator? = some e) {key : Key} {steps : Nat} {budget : Int}
    (hgo : Goes steps (e.machine.keyDown key).1 m) (hasks : m.awaitingKey = true) (hbudget : steps ≤ budget.toNat) :
    ((e.press key).run budget).1 = .ok steps ∧ (s.steps (.press key.val budget)).length = steps ∧
      (e.afterAll ((Operation.press key.val budget).events e)).machine = m.keyUp key := by
  obtain ⟨hran, hruns⟩ := Emulator.runFrom_goes (e := e.press key) hgo rfl hasks hbudget 0
  have hevents : (Operation.press key.val budget).events e =
      .press key :: (List.replicate steps .step ++ [.release key]) := by
    simp only [Operation.events, Emulator.ofInt_val, hruns]
  have hmoments : s.steps (.press key.val budget) = e.moments ((Operation.press key.val budget).events e) := by
    rw [Session.steps, he]
  refine ⟨hran.trans (congrArg Except.ok (Nat.zero_add steps)), ?_, ?_⟩
  · have hpress : Event.press key ≠ .step := fun h => Event.noConfusion h
    rw [hmoments, Emulator.length_moments, hevents, List.count_cons_of_ne hpress, List.count_append,
      List.count_replicate_self]
    rfl
  · rw [hevents, Emulator.afterAll_cons, Emulator.after_press, Emulator.afterAll_append, Emulator.afterAll_cons,
      Emulator.after_release, Emulator.afterAll_nil, Emulator.machine_release, Emulator.machine_afterAll_goes hgo rfl]

/-- The answer to a press whose run makes eight steps. -/
theorem press_eight (he : s.emulator? = some e) {key : Key} {budget : Int}
    (h : ((e.press key).run budget).1 = .ok 8) :
    s.press key.val budget = .ok ((s.operate (.press key.val budget)).2.panels
      ("Key " ++ key.name ++ " held for 8 steps"), (s.operate (.press key.val budget)).2) := by
  have hpress : s.press key.val budget =
      .ok ((s.hold (((e.press key).run budget).2.release key)).panels ("Key " ++ key.name ++ " held for 8 steps"),
        s.hold (((e.press key).run budget).2.release key)) := by
    simp only [press, he, Emulator.ofInt_val, h]
    rfl
  simp only [operate, hpress]

/-- **A press shows its key**, and the example awaits the next. -/
theorem Awaits.press (h : s.Awaits presses e) (key : Key) {budget : Int} (hbudget : 8 ≤ budget) : ∃ shown,
    s.press key.val budget = .ok ((s.operate (.press key.val budget)).2.panels
      ("Key " ++ key.name ++ " held for 8 steps"), (s.operate (.press key.val budget)).2) ∧
    (s.steps (.press key.val budget)).length = 8 ∧
    (s.operate (.press key.val budget)).2.Awaits (presses + 1) shown ∧ Echoed shown key (presses + 1) := by
  obtain ⟨hpending, hview⟩ := h.waits.keyDown key
  have hw : (e.machine.keyDown key).1.view.screen.width = 64 := by rw [hview]; exact h.sound.width
  have hh : (e.machine.keyDown key).1.view.screen.height = 32 := by rw [hview]; exact h.sound.height
  obtain ⟨m, hgo, hwaits, hvalue, hflag, hscreen, hcycles⟩ := goes_round hpending hw hh
  have hasks : m.awaitingKey = true := by rw [awaitingKey, hwaits.keyWait]
  obtain ⟨hran, hsteps, hmachine⟩ := press_goes h.emulator hgo hasks (by omega : 8 ≤ budget.toNat)
  let shown : Emulator := { e.afterAll ((Operation.press key.val budget).events e) with log := #[] }
  have hshown : shown.machine = m.keyUp key := hmachine
  have hoperate : (s.operate (.press key.val budget)).2.emulator? = some shown :=
    operate_eq h.emulator h.sound.log rfl
  have hsound : Sound shown := h.sound.afterAll (.press key.val budget)
  have hat : shown.machine.At keyEchoProgram 4 (.awaiting ⟨0, by decide⟩) := hshown ▸ (hwaits.keyUp key).1
  have hcount : shown.machine.cycles = 2 + 7 * (presses + 1 : Nat) := by
    have hbefore : (e.machine.keyDown key).1.view.cycles = 2 + 7 * presses := by rw [hview]; exact h.cycles
    rw [hbefore] at hcycles
    rw [hshown]
    show m.view.cycles = _
    omega
  have hcells : shown.machine.screen = (drawn (e.machine.keyDown key).1.view.screen key).1 := by
    rw [hshown]
    exact hscreen
  refine ⟨shown, press_eight h.emulator hran, hsteps, ⟨hoperate, hsound, hat, hcount⟩, hat.keyWait, hsound.width,
    hsound.height, fun cx cy hx hy => ?_, ?_, ?_, hsound.released, hcount⟩
  · rw [hcells]
    exact lit_drawn hw hh hx hy
  · rw [hshown]
    exact hvalue
  · rw [hshown]
    exact hflag

/-- **Any presses** leave the example awaiting a key. -/
theorem awaits_presses (h : s.Awaits presses e) {more : List (Key × Int)} (hmore : ∀ press ∈ more, 8 ≤ press.2) :
    ∃ e, (s.operateAll (more.map fun press => .press press.1.val press.2)).Awaits (presses + more.length) e := by
  induction more generalizing s e presses with
  | nil => exact ⟨e, h⟩
  | cons press more ih =>
    obtain ⟨hbudget, hrest⟩ := List.forall_mem_cons.mp hmore
    obtain ⟨shown, -, -, hafter, -⟩ := h.press press.1 hbudget
    obtain ⟨last, hlast⟩ := ih hafter hrest
    refine ⟨last, ?_⟩
    rw [List.length_cons, ← Nat.add_assoc, Nat.add_right_comm]
    exact hlast

end Session

/-! ## The main statement -/

/-- **The example shows every key that is pressed**, and nothing else: a press makes eight steps, after which the glyph
of its key is on the screen and the next key is awaited. -/
theorem keyEcho_shows (s : Session) (platform : Platform) {request : Request} (files : FileSystem)
    {unseeded random : RandomSource} (hlisting : request.listing = exampleNamed "Key Echo") (hfile : request.file = "")
    (hrandom : request.random unseeded = .ok random) {count : Int} (hcount : 2 ≤ count) {presses : List (Key × Int)}
    (hpresses : ∀ press ∈ presses, 8 ≤ press.2) (key : Key) {budget : Int} (hbudget : 8 ≤ budget) :
    let before := s.operateAll ([.load platform request files unseeded, .run count] ++
      presses.map fun press => .press press.1.val press.2)
    ∃ after shown,
      before.press key.val budget = .ok (after.panels ("Key " ++ key.name ++ " held for 8 steps"), after) ∧
      (before.steps (.press key.val budget)).length = 8 ∧
      after.emulator? = some shown ∧ Echoed shown key (presses.length + 1) := by
  intro before
  obtain ⟨e, hstart⟩ := s.awaits_start platform files hlisting hfile hrandom hcount
  obtain ⟨last, hbefore⟩ := Session.awaits_presses hstart hpresses
  rw [Nat.zero_add] at hbefore
  have hsame : before = (s.operateAll [.load platform request files unseeded, .run count]).operateAll
      (presses.map fun press => .press press.1.val press.2) := List.foldl_append
  rw [← hsame] at hbefore
  obtain ⟨shown, hpress, hsteps, hafter, hechoed⟩ := hbefore.press key hbudget
  exact ⟨_, shown, hpress, hsteps, hafter.emulator, hechoed⟩

/-- Seven is pressed, and then ten. -/
theorem keyEcho_shows_ten :
    let asking : Request := { exampleName := "Key Echo", listing := exampleNamed "Key Echo", file := "", seed := "" }
    ∃ after shown, (({} : Session).operateAll
        [.load .vast asking (fun _ => .missing) (.cycle []), .run 2, .press 7 8]).press 10 60 =
          .ok (after.panels "Key A held for 8 steps", after) ∧
      after.emulator? = some shown ∧ Echoed shown ⟨10, by decide⟩ 2 := by
  intro asking
  have hrandom : asking.random (.cycle []) = .ok (.cycle []) := rfl
  have hpresses : ∀ press ∈ [((⟨7, by decide⟩, 8) : Key × Int)], 8 ≤ press.2 := by decide
  obtain ⟨after, shown, hpress, -, hshown, hechoed⟩ :=
    keyEcho_shows ({} : Session) .vast (fun _ => .missing) (rfl : asking.listing = exampleNamed "Key Echo") rfl hrandom
      (by decide : (2 : Int) ≤ 2) hpresses ⟨10, by decide⟩ (by decide : (8 : Int) ≤ 60)
  exact ⟨after, shown, hpress, hshown, hechoed⟩

end ChipEight.Playground
