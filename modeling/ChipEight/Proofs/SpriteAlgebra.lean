import ChipEight.Proofs.Blit
import ChipEight.Proofs.Decoding
import ChipEight.Proofs.Execution

/-!
# Sprites drawn one after the other

Every draw flips cells, and flips commute and cancel: what is on the screen after any number of draws depends on how
often each cell was flipped, and only on whether that number is odd.

- `Screen.flipAll` is a run of flips without the flag; `lit_flipAll` and `Screen.ext_lit` make two runs equal that flip
  each cell equally often modulo two (`flipAll_congr`), whatever their order (`flipAll_perm`);
- `collided_twice`: the flags of a run that is made twice;
- `Machine.drawAll` makes draws one after the other; their flips make up one run (`screen_drawAll`, `lit_drawAll`);
- `sprites_commute_and_cancel`: the main statement, for any machine and any draws.
-/

namespace ChipEight

variable {s t : Screen} {ts us : List (Int × Int)} {cx cy : Nat} {m : Machine}

namespace Screen

/-! ## Runs of flips -/

/-- Flips cells one after the other. -/
def flipAll (s : Screen) (ts : List (Int × Int)) : Screen :=
  ts.foldl (fun s t => s.toggle t.1 t.2) s

/-- The flag makes no difference to the screen. -/
theorem fst_foldl_hit (ts : List (Int × Int)) (state : Screen × Bool) :
    (ts.foldl hit state).1 = state.1.flipAll ts := by
  induction ts generalizing state with
  | nil => rfl
  | cons t ts ih => exact ih (hit state t)

theorem flipAll_append (s : Screen) (ts us : List (Int × Int)) :
    s.flipAll (ts ++ us) = (s.flipAll ts).flipAll us :=
  List.foldl_append

theorem falls_flipAll (s : Screen) (ts : List (Int × Int)) : (s.flipAll ts).falls = s.falls := by
  induction ts generalizing s with
  | nil => rfl
  | cons t ts ih => exact ih (s.toggle t.1 t.2)

theorem size_flipAll (s : Screen) (ts : List (Int × Int)) :
    (s.flipAll ts).width = s.width ∧ (s.flipAll ts).height = s.height := by
  rw [← fst_foldl_hit ts (s, false)]
  exact size_foldl_hit ts (s, false)

theorem lit_flipAll (ts : List (Int × Int)) (hx : cx < s.width) (hy : cy < s.height) :
    (s.flipAll ts).lit cx cy = (s.lit cx cy ^^ decide (Odd (ts.countP (s.falls cx cy)))) := by
  rw [← fst_foldl_hit ts (s, false)]
  exact lit_foldl_hit ts s false hx hy

/-- Screens of one size are equal if the same cells are lit. -/
theorem ext_lit (hw : s.width = t.width) (hh : s.height = t.height)
    (h : ∀ cx cy, cx < s.width → cy < s.height → s.lit cx cy = t.lit cx cy) : s = t := by
  refine Screen.ext hw hh (Array.ext_getElem? fun k => ?_)
  by_cases hk : k < s.width * s.height
  · -- the cell that is stored at `k`
    have hy : k / s.width < s.height := Nat.div_lt_of_lt_mul hk
    have hx : k % s.width < s.width := Nat.mod_lt _ s.width_pos
    have hplace : k / s.width * s.width + k % s.width = k := Nat.div_add_mod' k s.width
    have hs := getElem?_cells hx hy
    have ht := getElem?_cells (s := t) (hw ▸ hx) (hh ▸ hy)
    rw [← hw] at ht
    rw [← hplace, hs, ht, h _ _ hx hy]
  · rw [Array.getElem?_eq_none (by rw [s.size_eq]; omega),
      Array.getElem?_eq_none (by rw [t.size_eq, ← hw, ← hh]; omega)]

/-- **A run of flips comes to the parity of the flips of each cell.** -/
theorem flipAll_congr (h : ∀ cx cy, Odd (ts.countP (s.falls cx cy)) ↔ Odd (us.countP (s.falls cx cy))) :
    s.flipAll ts = s.flipAll us := by
  obtain ⟨hw, hh⟩ := s.size_flipAll ts
  obtain ⟨hw', hh'⟩ := s.size_flipAll us
  refine ext_lit (hw.trans hw'.symm) (hh.trans hh'.symm) fun cx cy hx hy => ?_
  rw [hw] at hx
  rw [hh] at hy
  rw [lit_flipAll ts hx hy, lit_flipAll us hx hy, decide_eq_decide.mpr (h cx cy)]

/-- Flips commute. -/
theorem flipAll_perm (h : ts.Perm us) : s.flipAll ts = s.flipAll us :=
  flipAll_congr fun cx cy => by rw [h.countP_eq]

/-- Flips that are made twice cancel. -/
theorem flipAll_cancel (s : Screen) (ts us : List (Int × Int)) : s.flipAll (ts ++ (ts ++ us)) = s.flipAll us := by
  refine flipAll_congr fun cx cy => ?_
  rw [List.countP_append, List.countP_append, Nat.odd_iff, Nat.odd_iff]
  omega

/-- A run of flips that is made twice puts a cell out, in the first or in the second half, unless it is empty. -/
theorem collided_twice (s : Screen) (ts : List (Int × Int)) :
    (ts.foldl hit (s, false)).2 = true ∨ (ts.foldl hit (s.flipAll ts, false)).2 = true ↔ ts ≠ [] := by
  obtain ⟨hw, hh⟩ := s.size_flipAll ts
  rw [collided_foldl_hit, collided_foldl_hit, falls_flipAll, hw, hh]
  simp only [Bool.false_eq_true, false_or]
  constructor
  · rintro h rfl
    rcases h with ⟨cx, cy, -, -, h⟩ | ⟨cx, cy, -, -, h⟩
    all_goals
      have := Bool.toNat_le (s.lit cx cy)
      simp only [flipAll, List.foldl_nil, List.countP_nil] at h
      omega
  · intro hts
    obtain ⟨t, ht⟩ := List.exists_mem_of_ne_nil ts hts
    obtain ⟨cx, cy, hx, hy, hfalls⟩ := s.exists_falls t
    have hpos : 0 < ts.countP (s.falls cx cy) := List.countP_pos_iff.mpr ⟨t, ht, hfalls⟩
    by_cases hfirst : 2 ≤ (s.lit cx cy).toNat + ts.countP (s.falls cx cy)
    · exact .inl ⟨cx, cy, hx, hy, hfirst⟩
    · -- the only flip of this cell lights it, and puts it out the second time
      refine .inr ⟨cx, cy, hx, hy, ?_⟩
      have hone : ts.countP (s.falls cx cy) = 1 := by omega
      have hdark : s.lit cx cy = false := by
        cases hlit : s.lit cx cy with
        | false => rfl
        | true =>
          rw [hlit, Bool.toNat_true] at hfirst
          omega
      rw [lit_flipAll ts hx hy, hone, hdark]
      decide

end Screen

/-! ## Sprites -/

/-- A sprite has flips to make if one of its bits is set. -/
theorem Memory.targets_sprite_ne_nil (mem : Memory) (address height x y : Int) :
    targets (mem.sprite address height) x y ≠ [] ↔
      ∃ row < height.toNat, ∃ column < spriteWidth,
        (mem.read (address + row)).toNat.testBit (7 - column) = true := by
  rw [targets, Memory.zipIdx_sprite]
  simp [List.flatMap_eq_nil_iff, hasBit]

/-- A sprite to draw: where it stands in memory, where its top left cell goes, and how many rows it has. -/
structure Draw where
  index : Int
  x : Int
  y : Int
  height : Int
  deriving DecidableEq, Repr

/-- The cells that the bits of a sprite in memory fall on. -/
def Draw.bits (d : Draw) (mem : Memory) : List (Int × Int) :=
  targets (mem.sprite d.index d.height) d.x d.y

namespace Machine

/-- Points the index at a sprite and draws it. -/
def drawAt (m : Machine) (d : Draw) : Machine × Bool :=
  { m with index := d.index }.drawSprite d.x d.y d.height

/-- Draws sprites one after the other. -/
def drawAll (m : Machine) (draws : List Draw) : Machine :=
  draws.foldl (fun m d => (m.drawAt d).1) m

theorem screen_drawAt (m : Machine) (d : Draw) : (m.drawAt d).1.screen = m.screen.flipAll (d.bits m.memory) :=
  Screen.fst_foldl_hit _ (m.screen, false)

/-- The flips of all sprites make up one run: no draw changes the sprites in memory. -/
theorem screen_drawAll (m : Machine) (draws : List Draw) :
    (m.drawAll draws).screen = m.screen.flipAll (draws.flatMap fun d => d.bits m.memory) := by
  induction draws generalizing m with
  | nil => rfl
  | cons d draws ih =>
    have hmemory : (m.drawAt d).1.memory = m.memory := rfl
    rw [List.flatMap_cons, Screen.flipAll_append, ← screen_drawAt, ← hmemory]
    exact ih (m.drawAt d).1

/-- After any draws a cell has changed if an odd number of their bits fell on it. -/
theorem lit_drawAll (m : Machine) (draws : List Draw) (hx : cx < m.screen.width) (hy : cy < m.screen.height) :
    (m.drawAll draws).screen.lit cx cy = (m.screen.lit cx cy ^^
      decide (Odd ((draws.flatMap fun d => d.bits m.memory).countP (m.screen.falls cx cy)))) := by
  rw [screen_drawAll]
  exact Screen.lit_flipAll _ hx hy

/-- **The order of draws makes no difference to the screen.** -/
theorem screen_drawAll_perm {draws draws' : List Draw} (h : draws.Perm draws') :
    (m.drawAll draws).screen = (m.drawAll draws').screen := by
  rw [screen_drawAll, screen_drawAll]
  exact Screen.flipAll_perm (h.flatMap_right _)

/-- **A draw that is made twice cancels**, wherever it is made. -/
theorem screen_drawAll_cancel (m : Machine) (d : Draw) (before between behind : List Draw) :
    (m.drawAll (before ++ d :: between ++ d :: behind)).screen = (m.drawAll (before ++ between ++ behind)).screen := by
  have hfront : (before ++ d :: between ++ d :: behind).Perm (d :: d :: (before ++ between ++ behind)) := by
    refine List.perm_middle.trans (.cons d ?_)
    rw [List.append_assoc, List.append_assoc]
    exact List.perm_middle
  rw [screen_drawAll_perm hfront, screen_drawAll, screen_drawAll, List.flatMap_cons, List.flatMap_cons]
  exact Screen.flipAll_cancel ..

/-- Of two draws of one sprite in a row one puts a cell out, unless no bit of the sprite is set. -/
theorem drawAt_twice (m : Machine) (d : Draw) :
    (m.drawAt d).2 = true ∨ ((m.drawAt d).1.drawAt d).2 = true ↔ d.bits m.memory ≠ [] := by
  rw [← m.screen.collided_twice, ← screen_drawAt]
  rfl

/-! ## Instructions -/

/-- The word that draws `n` rows at the place that two registers name. -/
theorem decode_drawRows (x y : Register) (n : Fin 16) :
    let ins := Instruction.decode (0xD000 + 0x100 * x.val + 0x10 * y.val + n.val)
    ins.op = .draw ∧ ins.x = x ∧ ins.y = y ∧ ins.n = n := by
  have hword : (0xD000 + 0x100 * x.val + 0x10 * y.val + n.val : Int) =
      0xD * 0x1000 + x.val * 0x100 + y.val * 0x10 + n.val := by omega
  exact decode_word 0xD x y n hword

/-- Drawing makes the flips of the sprite that the index points at, and of the registers it changes the flag only. -/
theorem execute_drawRows {ins : Instruction} (hop : ins.op = .draw) : ∃ drawn, m.execute ins = .ok (drawn, []) ∧
    drawn.screen = m.screen.flipAll
      (Draw.bits ⟨m.index, m.registers.value ins.x, m.registers.value ins.y, ins.n.val⟩ m.memory) ∧
    drawn.memory = m.memory ∧ drawn.index = m.index ∧
    ∀ r, r ≠ flag → drawn.registers.value r = m.registers.value r := by
  have he : effect ins.op ins m = effect .draw ins m := by rw [hop]
  refine ⟨_, execute_of_effect he, Screen.fst_foldl_hit _ (m.screen, false), rfl, rfl, fun r hr => ?_⟩
  refine (value_setRegister _ flag r _).trans ?_
  rw [if_neg hr]

/-- An instruction that draws undoes itself, provided that the flag, which it sets, does not say where to draw. -/
theorem execute_draw_twice {ins : Instruction} (hop : ins.op = .draw) (hx : ins.x ≠ flag) (hy : ins.y ≠ flag) :
    ∃ once twice, m.execute ins = .ok (once, []) ∧ once.execute ins = .ok (twice, []) ∧ twice.screen = m.screen := by
  obtain ⟨once, honce, hscreen, hmemory, hindex, hregisters⟩ := execute_drawRows (m := m) hop
  obtain ⟨twice, htwice, hscreen', -⟩ := execute_drawRows (m := once) hop
  refine ⟨once, twice, honce, htwice, ?_⟩
  rw [hscreen', hindex, hmemory, hregisters _ hx, hregisters _ hy, hscreen, ← Screen.flipAll_append]
  have hcancel := m.screen.flipAll_cancel
    (Draw.bits ⟨m.index, m.registers.value ins.x, m.registers.value ins.y, ins.n.val⟩ m.memory) []
  rwa [List.append_nil] at hcancel

end Machine

/-- **Sprites commute and cancel**, on a screen of any size, wherever they stand and wherever they go; of two draws of
one sprite in a row just one reports a collision, if any bit of the sprite is set. -/
theorem sprites_commute_and_cancel (m : Machine) :
    (∀ (draws : List Draw) (cx cy : Nat), cx < m.screen.width → cy < m.screen.height →
      (m.drawAll draws).screen.lit cx cy = (m.screen.lit cx cy ^^
        decide (Odd ((draws.flatMap fun d => d.bits m.memory).countP (m.screen.falls cx cy))))) ∧
    (∀ draws draws' : List Draw, draws.Perm draws' → (m.drawAll draws).screen = (m.drawAll draws').screen) ∧
    (∀ (d : Draw) (before between behind : List Draw),
      (m.drawAll (before ++ d :: between ++ d :: behind)).screen =
        (m.drawAll (before ++ between ++ behind)).screen) ∧
    (∀ d : Draw, ((m.drawAt d).2 = true ∨ ((m.drawAt d).1.drawAt d).2 = true) ↔
      ∃ row < d.height.toNat, ∃ column < 8,
        (m.memory.read (d.index + row)).toNat.testBit (7 - column) = true) ∧
    ∀ (x y : Register) (n : Fin 16), x ≠ flag → y ≠ flag →
      let ins := Instruction.decode (0xD000 + 0x100 * x.val + 0x10 * y.val + n.val)
      ∃ once twice, m.execute ins = .ok (once, []) ∧ once.execute ins = .ok (twice, []) ∧
        twice.screen = m.screen := by
  refine ⟨fun draws _ _ hcx hcy => m.lit_drawAll draws hcx hcy, fun _ _ h => Machine.screen_drawAll_perm h,
    m.screen_drawAll_cancel, fun d => ?_, fun x y n hx hy => ?_⟩
  · exact (m.drawAt_twice d).trans (m.memory.targets_sprite_ne_nil d.index d.height d.x d.y)
  · obtain ⟨hop, hinsx, hinsy, -⟩ := Machine.decode_drawRows x y n
    refine Machine.execute_draw_twice hop ?_ ?_
    · rwa [hinsx]
    · rwa [hinsy]

/-- The glyphs of two digits that overlap across the edges of a small screen, drawn in both orders; a glyph drawn twice;
and the instruction that draws one, executed twice. -/
theorem sprites_commute_and_cancel_glyphs : ∃ m : Machine, m.screen.width = 8 ∧ m.screen.height = 4 ∧
    (m.drawAll [⟨0, -1, 2, 5⟩, ⟨5, 5, 3, 4⟩]).screen = (m.drawAll [⟨5, 5, 3, 4⟩, ⟨0, -1, 2, 5⟩]).screen ∧
    ((m.drawAt ⟨0, -1, 2, 5⟩).2 = true ∨ ((m.drawAt ⟨0, -1, 2, 5⟩).1.drawAt ⟨0, -1, 2, 5⟩).2 = true) ∧
    ∃ once twice, m.execute (.decode 0xD125) = .ok (once, []) ∧ once.execute (.decode 0xD125) = .ok (twice, []) ∧
      twice.screen = m.screen := by
  obtain ⟨-, hperm, -, hflag, hexecute⟩ :=
    sprites_commute_and_cancel (.boot [] (.blank 8 4 (by decide) (by decide)) (.cycle []))
  refine ⟨_, rfl, rfl, hperm _ _ (.swap ..), ?_, hexecute ⟨1, by decide⟩ ⟨2, by decide⟩ 5 (by decide) (by decide)⟩
  refine (hflag ⟨0, -1, 2, 5⟩).mpr ⟨0, by decide, 0, by decide, ?_⟩
  have hread : (Memory.image []).read 0 = 0xF0 := by
    simp [Memory.read, Memory.image_eq, cell]
    rfl
  show ((Memory.image []).read 0).toNat.testBit (7 - 0) = true
  rw [hread]
  decide

end ChipEight
