import ChipEight.Proofs.Assembly

/-!
# Listings

A listing has a line for every two bytes of a program.

- `length_words` and `getElem?_words`: how many words a program has, and which bytes make each of them;
- `getElem?_ofBytes`: where each line stands, and what it shows;
- `flatMap_bytes_words`: the words give the program back, an odd one with a zero byte behind it;
- `ofBytes_lossless`: the main statement, that the assembly text alone determines the program.
-/

namespace ChipEight.Listing

variable {p q : List UInt8} {w : Nat}

/-! ## Words -/

/-- The program with a zero byte behind it if its length is odd. -/
def padded (p : List UInt8) : List UInt8 :=
  if p.length % 2 = 1 then p ++ [0] else p

/-- The two bytes of a word, high byte first. -/
def bytes (w : Nat) : List UInt8 :=
  [UInt8.ofNat (w / 256), UInt8.ofNat (w % 256)]

theorem padded_cons_cons (high low : UInt8) (rest : List UInt8) :
    padded (high :: low :: rest) = high :: low :: padded rest := by
  have hparity : (high :: low :: rest).length % 2 = rest.length % 2 := by
    simp only [List.length_cons]
    omega
  unfold padded
  rw [hparity]
  split <;> rfl

theorem bytes_word (high low : UInt8) : bytes (word high low) = [high, low] := by
  have hlow := low.toNat_lt
  have hdiv : word high low / 256 = high.toNat := by
    unfold word
    omega
  have hmod : word high low % 256 = low.toNat := by
    unfold word
    omega
  rw [bytes, hdiv, hmod, UInt8.ofNat_toNat, UInt8.ofNat_toNat]

theorem word_lt (high low : UInt8) : word high low < 0x10000 := by
  have hhigh := high.toNat_lt
  have hlow := low.toNat_lt
  unfold word
  omega

/-- There are half as many words as bytes, rounded up. -/
theorem length_words (p : List UInt8) : (words p).length = (p.length + 1) / 2 := by
  fun_induction words p with
  | case1 => rfl
  | case2 => simp
  | case3 high low rest ih =>
    simp only [List.length_cons, ih]
    omega

/-- Every word of a program has sixteen bits. -/
theorem lt_of_mem_words (h : w ∈ words p) : w < 0x10000 := by
  fun_induction words p with
  | case1 => cases h
  | case2 high =>
    obtain rfl := List.mem_singleton.mp h
    exact word_lt high 0
  | case3 high low rest ih =>
    rcases List.mem_cons.mp h with rfl | h
    · exact word_lt high low
    · exact ih h

/-- The word of a number is made of the two bytes at twice this number; beyond the end stands a zero byte. -/
theorem getElem?_words (p : List UInt8) (k : Nat) :
    (words p)[k]? = p[2 * k]?.map fun high => word high (p[2 * k + 1]?.getD 0) := by
  fun_induction words p generalizing k with
  | case1 => simp
  | case2 high =>
    cases k with
    | zero => rfl
    | succ k => simp
  | case3 high low rest ih =>
    cases k with
    | zero => rfl
    | succ k => exact ih k

/-- A zero byte behind an odd program does not change its words. -/
theorem words_padded (p : List UInt8) : words (padded p) = words p := by
  fun_induction words p with
  | case1 => rfl
  | case2 => rfl
  | case3 high low rest ih =>
    rw [padded_cons_cons, words, ih]

/-- **The words give the program back**, with a zero byte behind it if its length is odd. -/
theorem flatMap_bytes_words (p : List UInt8) : (words p).flatMap bytes = padded p := by
  fun_induction words p with
  | case1 => rfl
  | case2 high =>
    rw [List.flatMap_singleton, bytes_word]
    rfl
  | case3 high low rest ih =>
    rw [List.flatMap_cons, bytes_word, ih, padded_cons_cons]
    rfl

/-- Programs have the same words if and only if they are the same up to a last zero byte of odd ones. -/
theorem words_eq_iff : words p = words q ↔ padded p = padded q := by
  constructor
  · intro h
    rw [← flatMap_bytes_words, h, flatMap_bytes_words]
  · intro h
    rw [← words_padded, h, words_padded]

/-! ## Columns -/

/-- The addresses go up by two. -/
theorem map_address_ofBytes (p : List UInt8) (start : Int) : (ofBytes p start).map Line.address =
    (List.range (words p).length).map fun k : Nat => start + 2 * (k : Int) := by
  rw [ofBytes, ofWords, List.map_map, List.range_eq_range', ← List.zipIdx_map_snd, List.map_map]
  rfl

/-- The assembly text of a line depends on its word alone. -/
theorem map_assembly_ofBytes (p : List UInt8) (start : Int) : (ofBytes p start).map Line.assembly =
    (words p).map fun w : Nat => (Instruction.decode w).assembly := by
  calc (ofBytes p start).map Line.assembly
      = ((words p).zipIdx.map Prod.fst).map fun w : Nat => (Instruction.decode w).assembly := by
        rw [ofBytes, ofWords, List.map_map, List.map_map]
        rfl
    _ = (words p).map fun w : Nat => (Instruction.decode w).assembly := by rw [List.zipIdx_map_fst]

/-- The line of a number shows the word of this number. -/
theorem getElem?_ofBytes (p : List UInt8) (start : Int) (k : Nat) :
    (ofBytes p start)[k]? = (words p)[k]?.map (Line.ofWord (start + 2 * k)) := by
  simp [ofBytes, ofWords, List.getElem?_zipIdx, Function.comp_def]

/-- The assembly text of some words tells the words. -/
theorem eq_of_map_assembly_eq {ws vs : List Nat} (hws : ∀ w ∈ ws, w < 0x10000) (hvs : ∀ v ∈ vs, v < 0x10000)
    (h : (ws.map fun w : Nat => (Instruction.decode w).assembly) =
      vs.map fun v : Nat => (Instruction.decode v).assembly) : ws = vs := by
  have hlength : ws.length = vs.length := by simpa using congrArg List.length h
  apply List.ext_getElem hlength
  intro k hk hk'
  have hw := hws ws[k] (List.getElem_mem hk)
  have hv := hvs vs[k] (List.getElem_mem hk')
  have htext : (Instruction.decode ws[k]).assembly = (Instruction.decode vs[k]).assembly := by
    have hk := List.getElem_of_eq h (by simpa using hk)
    simpa using hk
  have hmod := assembly_decode_eq_iff.mp htext
  omega

/-- **The assembly text alone determines the program**, up to a zero byte behind an odd one; the lines of a listing
stand at every other address from the start on. -/
theorem ofBytes_lossless (p q : List UInt8) (start start' word word' : Int) :
    ((ofBytes p start).map Line.address =
      (List.range ((p.length + 1) / 2)).map fun k : Nat => start + 2 * (k : Int)) ∧
    ((ofBytes p start).map Line.assembly = (ofBytes q start').map Line.assembly ↔ padded p = padded q) ∧
    ((Instruction.decode word).assembly = (Instruction.decode word').assembly ↔
      word % 0x10000 = word' % 0x10000) := by
  refine ⟨?_, ?_, assembly_decode_eq_iff⟩
  · rw [map_address_ofBytes, length_words]
  · rw [map_assembly_ofBytes, map_assembly_ofBytes, ← words_eq_iff]
    constructor
    · exact eq_of_map_assembly_eq (fun _ => lt_of_mem_words) (fun _ => lt_of_mem_words)
    · intro h
      rw [h]

/-- A last lone byte is listed with a zero byte behind it. -/
example : (ofBytes [0x00, 0xE0, 0xD1] 0x200).map Line.assembly = ["CLS", "DRW V1, V0, 0"] := by decide

end ChipEight.Listing
