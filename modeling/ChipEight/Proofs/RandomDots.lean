import ChipEight.Playground.Session
import ChipEight.Proofs.Blit
import ChipEight.Proofs.Inputs
import ChipEight.Proofs.Stepping

/-!
# A program that toggles dots at random

One of the examples draws two random numbers, toggles the cell that they name, and begins again. A cell is lit if it was
drawn an odd number of times.

- `randomDotsProgram` are the bytes of the example, and `parse_randomDots` says that its listing is read as these;
- `dotColumn` and `dotRow` say where a dot falls, and `dotsOn` counts the dots that fall on a cell;
- `draw_dot`: the sprite of the example is a single flip;
- `Dotted` is the machine after some dots; `goes_placing_dot` and `goes_toggling` are the two halves of a round, and
  `goes_rounds` is the induction on the rounds;
- `randomDots_toggles`: the main statement.
-/

namespace ChipEight

namespace RandomSource

/-- A stream counts the numbers that were drawn. -/
theorem skip_stream (number : Nat → UInt8) (drawn k : Nat) :
    (stream number drawn).skip k = stream number (drawn + k) := by
  induction k generalizing drawn with
  | zero => rfl
  | succ k ih =>
    rw [skip]
    show (stream number (drawn + 1)).skip k = _
    rw [ih, Nat.add_assoc, Nat.add_comm 1 k]

theorem nth_stream (number : Nat → UInt8) (k : Nat) : (stream number 0).nth k = number k := by
  rw [nth, skip_stream, Nat.zero_add]
  rfl

end RandomSource

namespace Playground

open Machine

variable {m : Machine} {random : RandomSource} {n : Nat}

/-- The bytes of the example that toggles dots. -/
def randomDotsProgram : List UInt8 :=
  [0xA2, 0x0A, 0xC0, 0x3F, 0xC1, 0x1F, 0xD0, 0x11, 0x12, 0x02, 0x80]

theorem parse_randomDots : HexListing.parse (exampleNamed "Random Dots").toList = .ok randomDotsProgram := by
  decide +kernel

/-! ## Dots -/

/-- The column of the dot that comes after `j` others. -/
def dotColumn (random : RandomSource) (j : Nat) : Nat :=
  (random.nth (2 * j)).toNat % 64

/-- The row of the dot that comes after `j` others. -/
def dotRow (random : RandomSource) (j : Nat) : Nat :=
  (random.nth (2 * j + 1)).toNat % 32

/-- How many of the first `n` dots fall on the cell in column `cx` and row `cy`. -/
def dotsOn (random : RandomSource) (n cx cy : Nat) : Nat :=
  (List.range n).countP fun j => dotColumn random j = cx ∧ dotRow random j = cy

theorem dotColumn_lt (random : RandomSource) (j : Nat) : dotColumn random j < 64 :=
  Nat.mod_lt _ (by decide)

theorem dotRow_lt (random : RandomSource) (j : Nat) : dotRow random j < 32 :=
  Nat.mod_lt _ (by decide)

theorem dotsOn_succ (random : RandomSource) (n cx cy : Nat) : dotsOn random (n + 1) cx cy =
    dotsOn random n cx cy + if dotColumn random n = cx ∧ dotRow random n = cy then 1 else 0 := by
  simp [dotsOn, List.range_succ, List.countP_append, List.countP_singleton]

/-- A mask of low bits leaves the remainder. -/
theorem and_mask (byte : UInt8) (k : Nat) :
    Bitwise.and (byte.toNat : Int) ((2 ^ k - 1 : Nat) : Int) = ((byte.toNat % 2 ^ k : Nat) : Int) := by
  rw [Bitwise.and_ofNat, Nat.and_two_pow_sub_one_eq_mod]

/-! ## The screen -/

/-- A sprite of a single bit is a single flip. -/
theorem draw_dot (s : Screen) (x y : Int) : s.draw [0x80] x y = (s.toggle x y, s.lit x y) := by
  have htargets : targets [0x80] x y = [(x, y)] := by
    have hbits : (List.range spriteWidth).filter (hasBit 0x80) = [0] := by decide
    simp [targets, hbits]
  rw [Screen.draw, htargets]
  simp [Screen.hit]

/-- The sprite of the example stands behind its code. -/
theorem sprite_dot : (Memory.image randomDotsProgram).sprite 0x20A 1 = [0x80] := by
  have hread := Emulator.read_image randomDotsProgram (k := 10) (by decide)
  have hsprite : (Memory.image randomDotsProgram).sprite 0x20A 1 =
      [(Memory.image randomDotsProgram).read (programStart + (10 : Nat))] := rfl
  rw [hsprite, hread]
  rfl

/-! ## The program -/

/-- The example after `n` dots, about to draw the numbers of the next one. -/
structure Dotted (random : RandomSource) (n : Nat) (m : Machine) : Prop where
  place : m.At randomDotsProgram 2 .running
  width : m.screen.width = 64
  height : m.screen.height = 32
  index : m.index = 0x20A
  cycles : m.cycles = 1 + 4 * n
  drawn : m.random = random.skip (2 * n)
  lit : ∀ cx cy : Nat, cx < 64 → cy < 32 → (m.screen.lit cx cy = true ↔ Odd (dotsOn random n cx cy))

/-- The example after `n` dots, with the numbers of the next one drawn. -/
structure Placed (random : RandomSource) (n : Nat) (screen : Screen) (m : Machine) : Prop where
  place : m.At randomDotsProgram 6 .running
  screen : m.screen = screen
  index : m.index = 0x20A
  cycles : m.cycles = 3 + 4 * n
  drawn : m.random = random.skip (2 * n + 2)
  column : m.registers.value ⟨0, by decide⟩ = dotColumn random n
  row : m.registers.value ⟨1, by decide⟩ = dotRow random n

/-- At first the index is pointed at the sprite. -/
theorem goes_pointing (h : m.At randomDotsProgram 0 .running) : ∃ after, Goes 1 m after ∧
    after.At randomDotsProgram 2 .running ∧
    after.view = { m.view with index := 0x20A, cycles := m.view.cycles + 1 } :=
  h.loadIndex 0xA20A (by decide) (by decide)

/-- Two random numbers are drawn, and cut down to the size of the screen. -/
theorem goes_placing_dot (h : Dotted random n m) : ∃ after, Goes 2 m after ∧ Placed random n m.screen after := by
  obtain ⟨m₁, hgo₁, hat₁, hview₁⟩ := h.place.random 0xC03F (by decide) (by decide)
  obtain ⟨m₂, hgo₂, hat₂, hview₂⟩ := hat₁.random 0xC11F (by decide) (by decide)
  have hfirst : m.view.random.next.1 = random.nth (2 * n) := congrArg (fun r => r.next.1) h.drawn
  have hsecond : m.view.random.next.2.next.1 = random.nth (2 * n + 1) := by
    rw [RandomSource.nth, RandomSource.skip_add, ← h.drawn]
    rfl
  rw [hview₁] at hview₂
  refine ⟨m₂, hgo₁.trans hgo₂, hat₂, congrArg View.screen hview₂, (congrArg View.index hview₂).trans h.index, ?_, ?_,
    ?_, ?_⟩
  · rw [show m₂.cycles = m.cycles + 1 + 1 from congrArg View.cycles hview₂, h.cycles]
    omega
  · rw [show m₂.random = m.random.next.2.next.2 from congrArg View.random hview₂, RandomSource.skip_add, ← h.drawn]
    rfl
  · have hregisters := congrArg (fun view => view.registers.value ⟨0, by decide⟩) hview₂
    refine hregisters.trans ?_
    dsimp only
    rw [Registers.value_put, if_neg (by decide), Registers.value_put, if_pos (by decide), hfirst]
    exact and_mask _ 6
  · have hregisters := congrArg (fun view => view.registers.value ⟨1, by decide⟩) hview₂
    refine hregisters.trans ?_
    dsimp only
    rw [Registers.value_put, if_pos (by decide), hsecond]
    exact and_mask _ 5

/-- **The cell is toggled**, and the program begins again. -/
theorem goes_toggling {mid : Machine} (h : Dotted random n m) (hplaced : Placed random n m.screen mid) :
    ∃ after, Goes 2 mid after ∧ Dotted random (n + 1) after ∧
    after.registers.value ⟨0, by decide⟩ = dotColumn random n ∧
    after.registers.value ⟨1, by decide⟩ = dotRow random n ∧
    after.registers.value flag = bitOf (m.screen.lit (dotColumn random n) (dotRow random n)) := by
  obtain ⟨m₁, hgo₁, hat₁, hview₁⟩ := hplaced.place.draw 0xD011 (by decide) (by decide)
  obtain ⟨m₂, hgo₂, hat₂, hview₂⟩ := hat₁.jump 0x1202 2 (by decide) (by decide) (by decide)
  have hx : mid.view.registers.value (hexDigit 0xD011 2) = dotColumn random n := hplaced.column
  have hy : mid.view.registers.value (hexDigit 0xD011 1) = dotRow random n := hplaced.row
  have hsprite : (Memory.image randomDotsProgram).sprite mid.view.index (hexDigit 0xD011 0).val = [0x80] := by
    rw [show mid.view.index = 0x20A from hplaced.index]
    exact sprite_dot
  rw [hx, hy, hsprite, show mid.view.screen = m.screen from hplaced.screen, draw_dot] at hview₁
  rw [hview₁] at hview₂
  have hscreen : m₂.screen = m.screen.toggle (dotColumn random n) (dotRow random n) := congrArg View.screen hview₂
  have hcycles : m₂.cycles = mid.cycles + 1 + 1 := congrArg View.cycles hview₂
  have hregister : ∀ r : Register, m₂.registers.value r =
      if flag = r then bitOf (m.screen.lit (dotColumn random n) (dotRow random n)) else mid.registers.value r := by
    intro r
    rw [← Registers.value_put]
    exact congrArg (fun view => view.registers.value r) hview₂
  refine ⟨m₂, hgo₁.trans hgo₂, ⟨hat₂, ?_, ?_, ?_, ?_, ?_, ?_⟩, ?_, ?_, ?_⟩
  · rw [hscreen]
    exact h.width
  · rw [hscreen]
    exact h.height
  · exact (congrArg View.index hview₂).trans hplaced.index
  · rw [hcycles, hplaced.cycles]
    omega
  · exact (congrArg View.random hview₂).trans hplaced.drawn
  · intro cx cy hcx hcy
    rw [hscreen, Screen.lit_toggle_natCast (h.width ▸ dotColumn_lt random n) (h.height ▸ dotRow_lt random n)
      (h.width ▸ hcx) (h.height ▸ hcy), dotsOn_succ]
    have hlit := h.lit cx cy hcx hcy
    by_cases hfalls : dotColumn random n = cx ∧ dotRow random n = cy
    · rw [if_pos hfalls, Nat.odd_add_one, ← hlit, decide_eq_true hfalls]
      simp
    · rw [if_neg hfalls, Nat.add_zero, ← hlit, decide_eq_false hfalls]
      simp
  · rw [hregister, if_neg (by decide), hplaced.column]
  · rw [hregister, if_neg (by decide), hplaced.row]
  · rw [hregister, if_pos rfl]

/-- **Any number of rounds** adds as many dots. -/
theorem goes_rounds (h : Dotted random 0 m) (n : Nat) : ∃ after, Goes (4 * n) m after ∧ Dotted random n after := by
  induction n with
  | zero => exact ⟨m, .here m, h⟩
  | succ n ih =>
    obtain ⟨last, hgo, hlast⟩ := ih
    obtain ⟨mid, hplacing, hplaced⟩ := goes_placing_dot hlast
    obtain ⟨after, htoggling, hafter, -⟩ := goes_toggling hlast hplaced
    exact ⟨after, hgo.trans (hplacing.trans htoggling), hafter⟩

/-! ## The main statement -/

/-- The example points the index at its sprite, and has no dots yet. -/
theorem dotted_start {platform : Platform} {e : Emulator} {tracing : Bool}
    (h : Emulator.start platform randomDotsProgram 64 32 random tracing = .ok e) :
    ∃ after, Goes 1 e.machine after ∧ Dotted random 0 after := by
  obtain ⟨_, _, he⟩ := Emulator.start_eq h
  have hat : e.machine.At randomDotsProgram 0 .running := by
    rw [he]
    exact ⟨rfl, rfl, rfl⟩
  obtain ⟨after, hgo, hplace, hview⟩ := goes_pointing hat
  have hscreen : after.screen = e.machine.screen := congrArg View.screen hview
  have hcycles : after.cycles = e.machine.cycles + 1 := congrArg View.cycles hview
  have hrandom : after.random = e.machine.random := congrArg View.random hview
  refine ⟨after, hgo, hplace, ?_, ?_, congrArg View.index hview, ?_, ?_, ?_⟩
  · rw [hscreen, he]
    rfl
  · rw [hscreen, he]
    rfl
  · rw [hcycles, he]
    rfl
  · rw [hrandom, he]
    rfl
  · intro cx cy _ _
    have hdark : e.machine.screen.lit cx cy = false := by
      rw [he]
      exact Screen.lit_cleared (.blank 64 32 (by decide) (by decide)) cx cy
    rw [hscreen, hdark]
    simp [dotsOn]

/-- The first dots of a stream that fall on a cell. -/
theorem dotsOn_stream (number : Nat → UInt8) (n cx cy : Nat) : dotsOn (.stream number 0) n cx cy =
    (List.range n).countP fun j => (number (2 * j)).toNat % 64 = cx ∧ (number (2 * j + 1)).toNat % 32 = cy := by
  simp only [dotsOn, dotColumn, dotRow, RandomSource.nth_stream]

/-- **The example toggles the cells that are drawn.** After any number of rounds, just those cells are lit that the
stream of random bytes has drawn an odd number of times. -/
theorem randomDots_toggles (platform : Platform) (number : Nat → UInt8) (tracing : Bool) :
    ∃ program e, HexListing.parse (exampleNamed "Random Dots").toList = .ok program ∧
      Emulator.start platform program 64 32 (.stream number 0) tracing = .ok e ∧ ∀ n : Nat,
      let after (steps : Nat) := e.afterAll (List.replicate steps .step)
      let m := (after (1 + 4 * n)).machine
      (∀ answer ∈ e.answers (List.replicate (1 + 4 * n) .step), ∃ redraw, answer = .ok redraw) ∧
      m.pc = 0x202 ∧ m.cycles = 1 + 4 * n ∧ m.index = 0x20A ∧ m.random = .stream number (2 * n) ∧
      m.screen.width = 64 ∧ m.screen.height = 32 ∧
      (∀ cx cy : Nat, cx < 64 → cy < 32 → (m.screen.lit cx cy = true ↔ Odd ((List.range n).countP fun j =>
        (number (2 * j)).toNat % 64 = cx ∧ (number (2 * j + 1)).toNat % 32 = cy))) ∧
      ∀ j, n = j + 1 →
        let x := (number (2 * j)).toNat % 64
        let y := (number (2 * j + 1)).toNat % 32
        m.registers.value ⟨0, by decide⟩ = x ∧ m.registers.value ⟨1, by decide⟩ = y ∧
          m.registers.value flag = if (after (1 + 4 * j + 2)).machine.screen.lit x y then 1 else 0 := by
  obtain ⟨e, hstart⟩ := Emulator.exists_start platform randomDotsProgram 64 32 (.stream number 0) tracing
    (by decide) (by decide) (by decide) platform.holds_default
  obtain ⟨first, hfirst, hzero⟩ := dotted_start hstart
  refine ⟨randomDotsProgram, e, parse_randomDots, hstart, fun n => ?_⟩
  intro after m
  obtain ⟨last, hrounds, hdotted⟩ := goes_rounds hzero n
  have hgo : Goes (1 + 4 * n) e.machine last := hfirst.trans hrounds
  have hm : m = last := Emulator.machine_afterAll_goes hgo rfl
  refine ⟨Emulator.answers_goes hgo rfl, ?_, ?_, ?_, ?_, ?_, ?_, ?_, ?_⟩
  · rw [hm, hdotted.place.pc]
    rfl
  · rw [hm, hdotted.cycles]
  · rw [hm, hdotted.index]
  · rw [hm, hdotted.drawn, RandomSource.skip_stream, Nat.zero_add]
  · rw [hm, hdotted.width]
  · rw [hm, hdotted.height]
  · intro cx cy hcx hcy
    rw [hm, hdotted.lit cx cy hcx hcy, dotsOn_stream]
  · rintro j rfl
    intro x y
    obtain ⟨before, hearlier, hbefore⟩ := goes_rounds hzero j
    obtain ⟨mid, hplacing, hplaced⟩ := goes_placing_dot hbefore
    obtain ⟨ending, htoggling, -, hcolumn, hrow, hflag⟩ := goes_toggling hbefore hplaced
    have hmid : (after (1 + 4 * j + 2)).machine = mid :=
      Emulator.machine_afterAll_goes ((hfirst.trans hearlier).trans hplacing) rfl
    have hend : m = ending :=
      Emulator.machine_afterAll_goes (((hfirst.trans hearlier).trans hplacing).trans htoggling) rfl
    have hx : dotColumn (.stream number 0) j = x := by rw [dotColumn, RandomSource.nth_stream]
    have hy : dotRow (.stream number 0) j = y := by rw [dotRow, RandomSource.nth_stream]
    rw [hx] at hcolumn hflag
    rw [hy] at hrow hflag
    rw [hmid, hend, hplaced.screen]
    exact ⟨hcolumn, hrow, hflag⟩

/-- A stream of fives: after two rounds the one cell that was drawn is dark again. -/
theorem randomDots_toggles_fives : ∃ e,
    Emulator.start .vast randomDotsProgram 64 32 (.stream (fun _ => 5) 0) false = .ok e ∧
    let m := (e.afterAll (List.replicate 9 .step)).machine
    m.screen.lit 5 5 = false ∧ m.registers.value ⟨0, by decide⟩ = 5 ∧ m.random = .stream (fun _ => 5) 4 := by
  obtain ⟨program, e, hparse, hstart, hrounds⟩ := randomDots_toggles .vast (fun _ => 5) false
  obtain rfl : program = randomDotsProgram := Except.ok.inj (hparse.symm.trans parse_randomDots)
  obtain ⟨-, -, -, -, hrandom, -, -, hlit, hlast⟩ := hrounds 2
  obtain ⟨hcolumn, -⟩ := hlast 1 rfl
  refine ⟨e, hstart, ?_, hcolumn, hrandom⟩
  rw [Bool.eq_false_iff]
  intro h
  exact absurd ((hlit 5 5 (by decide) (by decide)).mp h) (by decide)

end Playground

end ChipEight
