import RandxFpga.Oracle.TestScript
import RandxFpga.Run.Store

/-!
# The scratchpad file (`loop_engine_tb.py`, `loop_engine_tb.vhd`, `test_script.cpp`)

The Python bench writes each word as a numeral with the most significant digit first, and the VHDL
bench reads it the same way.  The oracle stores the bytes of a line from the lowest address on, and
its instructions read them as little-endian words, so it sees every word with its bytes reversed
(`loadScratchpadFrom_hexlines`); its dump reverses the bytes again (`dumpLine_eq`).

* `loadsAlike_iff`, `printsAlike_iff`   the two sides agree on the words that are their own reversal.
-/

namespace Randx
open HexText

/-- `f"{val.value:016X}"`; a word has at most 16 digits -/
def uintToHexline (w : Word) : List Char := digits 16 w.toNat

def hexFile (words : List Word) : List Char := unlines (words.map uintToHexline)

/-- `hread(line_buf, long_std_vec)`: 16 digits behind white space; the metavalues that `hread` also
takes do not occur in these files -/
def hread (line : List Char) : Option Word :=
  let ds := (line.dropWhile isSpace).take 16
  if ds.length = 16 ∧ ds.all (fun c => (digitVal c).isSome) = true then
    some (BitVec.ofNat 64 (numeral ds))
  else none

/-- the word that the VHDL bench has from line `i` of a file -/
def benchWord (file : List Char) (i : Nat) : Option Word := ((getlines file)[i]?).bind hread

def byteReverse (w : Word) : Word := load64 (fun k => byteOf w (7 - k)) 0

/-- the VHDL bench and the oracle read the same words from the file; `u` is what the oracle's
buffer held before -/
def LoadsAlike (u : Bytes) (words : List Word) : Prop :=
  ∃ m, loadScratchpadFrom u 0 (getlines (hexFile words)) = .ok m ∧
    ∀ i < words.length, benchWord (hexFile words) i = some (load64 m (8 * i))

/-- the oracle prints the word `v` that it stored at word `i` as the Python bench would -/
def PrintsAlike (m : Bytes) (i : Nat) (v : Word) : Prop :=
  (getlines (dump (store64 m (8 * i) v)))[i]? = some (uintToHexline v)

/-! ## bytes of a word -/

theorem byteOf_byteReverse (w : Word) {k : Nat} (h : k < 8) :
    byteOf (byteReverse w) k = byteOf w (7 - k) := by
  unfold byteReverse
  rw [byteOf_load64 _ _ h, Nat.zero_add]

theorem byteReverse_byteReverse (w : Word) : byteReverse (byteReverse w) = w := by
  refine (load64_eq_iff _ 0 w).mpr fun k hk => ?_
  show byteOf (byteReverse w) (7 - (0 + k)) = byteOf w k
  rw [byteOf_byteReverse w (by omega), show 7 - (7 - (0 + k)) = k by omega]

theorem byteOf_toNat (w : Word) (k : Nat) : (byteOf w k).toNat = w.toNat / 2 ^ (8 * k) % 256 := by
  unfold byteOf
  rw [BitVec.extractLsb'_toNat, Nat.shiftRight_eq_div_pow]

theorem hex_pow (k : Nat) : 16 ^ (2 * k) = 2 ^ (8 * k) := by
  rw [show 8 * k = 4 * (2 * k) by ring, pow_mul 2 4]
  norm_num

/-! ## the file -/

theorem getlines_hexFile (words : List Word) :
    getlines (hexFile words) = words.map uintToHexline := by
  refine getlines_unlines _ fun l hl => ?_
  obtain ⟨w, _, rfl⟩ := List.mem_map.mp hl
  exact newline_notMem_digits _ _

theorem hread_uintToHexline (w : Word) : hread (uintToHexline w) = some w := by
  have hlen := length_digits 16 w.toNat
  have hdig : ∀ c ∈ digits 16 w.toNat, (digitVal c).isSome := fun c => isDigit_of_mem_digits
  have hw : w.toNat % 16 ^ 16 = w.toNat := Nat.mod_eq_of_lt w.isLt
  unfold hread uintToHexline
  simp only [dropWhile_isSpace hdig, List.take_of_length_le (le_of_eq hlen)]
  rw [if_pos ⟨hlen, List.all_eq_true.mpr hdig⟩, numeral_digits, hw, BitVec.ofNat_toNat,
    BitVec.setWidth_eq]

/-! ## the oracle's loader -/

/-- a field of the line, with `rest` digits behind it -/
theorem substr_uintToHexline (w : Word) {pos len rest : Nat} (h : pos + len + rest = 16) :
    substr (uintToHexline w) pos len = .ok (digits len (w.toNat / 16 ^ rest)) := by
  have hsplit : (uintToHexline w).drop pos = digits (len + rest) w.toNat := by
    unfold uintToHexline
    rw [show digits 16 w.toNat = digits (pos + (len + rest)) w.toNat by
      rw [show pos + (len + rest) = 16 by omega], drop_digits]
  unfold substr
  rw [if_neg (by unfold uintToHexline; rw [length_digits]; omega), hsplit, take_digits]

theorem stoi_numeral {cs : List Char} {width : Nat} (hne : cs ≠ [])
    (hcs : ∀ c ∈ cs, (digitVal c).isSome) (hwidth : 4 * cs.length < width) :
    stoi width cs = .ok (numeral cs : Int) := by
  have hlt : numeral cs < 2 ^ (width - 1) := by
    calc numeral cs < 16 ^ cs.length := numeral_lt cs
      _ = 2 ^ (4 * cs.length) := by rw [pow_mul 2 4]; rfl
      _ ≤ 2 ^ (width - 1) := Nat.pow_le_pow_right (by omega) (by omega)
  have hlt' : (numeral cs : Int) < 2 ^ (width - 1) := by exact_mod_cast hlt
  unfold stoi
  rw [strtol16_numeral hne hcs]
  dsimp only
  rw [if_pos ⟨by omega, hlt'⟩]

theorem stoi_digits (n : Nat) {len width : Nat} (hlen : len ≠ 0) (hwidth : 4 * len < width) :
    stoi width (digits len n) = .ok ((n % 16 ^ len : Nat) : Int) := by
  have hne : digits len n ≠ [] := List.ne_nil_of_length_pos (by rw [length_digits]; omega)
  rw [stoi_numeral hne (fun c => isDigit_of_mem_digits) (by rwa [length_digits]), numeral_digits]

theorem loadByte_uintToHexline (w : Word) (i : Nat) (m : Bytes) {k : Nat} (hk : k < 8) :
    loadByte (uintToHexline w) i m k
      = if i < scratchpadBytes / 8 then .ok (Function.update m (i * 8 + k) (byteOf w (7 - k)))
        else .error .outOfBounds := by
  have hbyte : BitVec.ofInt 8 ((w.toNat / 2 ^ (8 * (7 - k)) % 16 ^ 2 : Nat) : Int)
      = byteOf w (7 - k) := by
    apply BitVec.eq_of_toNat_eq
    rw [BitVec.ofInt_natCast, BitVec.toNat_ofNat, byteOf_toNat]
    exact Nat.mod_mod _ _
  have ha : i * 8 + k < scratchpadBytes ↔ i < scratchpadBytes / 8 := by
    unfold scratchpadBytes
    omega
  unfold loadByte
  rw [substr_uintToHexline w (show k * 2 + 2 + 2 * (7 - k) = 16 by omega), hex_pow]
  show (stoi 32 _ >>= _) = _
  rw [stoi_digits _ (by omega) (by omega)]
  show (if _ then _ else _) = _
  simp only [ha, hbyte]

/-- the first `n` turns of the loop over a line -/
theorem loadBytes_uintToHexline (w : Word) (i : Nat) (m : Bytes) (hi : i < scratchpadBytes / 8) :
    ∀ n ≤ 8, (List.range n).foldlM (loadByte (uintToHexline w) i) m
      = .ok (fun j => if 8 * i ≤ j ∧ j < 8 * i + n then byteOf w (7 - (j - 8 * i)) else m j) := by
  intro n
  induction n with
  | zero =>
    intro _
    have hnone : ∀ j, ¬ (8 * i ≤ j ∧ j < 8 * i + 0) := fun j => by omega
    simp only [hnone, if_false]
    rfl
  | succ n ih =>
    intro hn
    rw [List.range_succ, List.foldlM_append, ih (by omega)]
    show (loadByte (uintToHexline w) i _ n >>= pure) = _
    rw [loadByte_uintToHexline w i _ (by omega), if_pos hi]
    show Except.ok _ = _
    congr 1
    funext j
    by_cases hj : j = i * 8 + n
    · subst hj
      rw [Function.update_self, if_pos (by omega), show i * 8 + n - 8 * i = n by omega]
    · rw [Function.update_of_ne hj]
      by_cases hin : 8 * i ≤ j ∧ j < 8 * i + n
      · rw [if_pos hin, if_pos (by omega)]
      · rw [if_neg hin, if_neg (by omega)]

theorem loadLine_uintToHexline (w : Word) (i : Nat) (m : Bytes) (hi : i < scratchpadBytes / 8) :
    (List.range 8).foldlM (loadByte (uintToHexline w) i) m
      = .ok (store64 m (8 * i) (byteReverse w)) := by
  rw [loadBytes_uintToHexline w i m hi 8 (le_refl 8)]
  congr 1
  funext j
  unfold store64
  by_cases hj : 8 * i ≤ j ∧ j < 8 * i + 8
  · rw [if_pos hj, if_pos hj, byteOf_byteReverse w (by omega)]
  · rw [if_neg hj, if_neg hj]

theorem loadScratchpadFrom_filling :
    Store.Filling (fun u i ws => loadScratchpadFrom u i (ws.map uintToHexline)) .ok
      (fun m i w => store64 m (8 * i) (byteReverse w)) (fun m j => load64 m (8 * j)) byteReverse
      (scratchpadBytes / 8) where
  nil u i := rfl
  cons u i w ws hi := by
    rw [List.map_cons, loadScratchpadFrom, loadLine_uintToHexline w i u hi]
    rfl
  written u i w _ := load64_store64 u (8 * i) (byteReverse w)
  frame u i w _ j hj := load64_store64_of_disjoint _ _ (by omega)

/-- **The oracle reads every word of the file with its bytes reversed.** -/
theorem loadScratchpadFrom_hexlines (words : List Word) :
    ∀ (i : Nat) (u : Bytes), i + words.length ≤ scratchpadBytes / 8 →
      ∃ m, loadScratchpadFrom u i (words.map uintToHexline) = .ok m ∧
        (∀ j < i, load64 m (8 * j) = load64 u (8 * j)) ∧
        ∀ k w, words[k]? = some w → load64 m (8 * (i + k)) = byteReverse w :=
  loadScratchpadFrom_filling.exists_load words

/-- a file with more lines than words of the scratchpad stops at a store outside it -/
theorem loadScratchpadFrom_too_long (words : List Word) :
    ∀ (i : Nat) (u : Bytes), scratchpadBytes / 8 < i + words.length → i ≤ scratchpadBytes / 8 →
      loadScratchpadFrom u i (words.map uintToHexline) = .error .outOfBounds := by
  induction words with
  | nil =>
    intro i u hlt hle
    rw [List.length_nil] at hlt
    omega
  | cons w words ih =>
    intro i u hlt hle
    rw [List.length_cons] at hlt
    rw [List.map_cons, loadScratchpadFrom]
    by_cases hi : i < scratchpadBytes / 8
    · rw [loadLine_uintToHexline w i u hi]
      exact ih (i + 1) _ (by omega) (by omega)
    · -- the first byte of this line lies behind the buffer
      have hline : (List.range 8).foldlM (loadByte (uintToHexline w) i) u
          = .error .outOfBounds := by
        show (loadByte (uintToHexline w) i u 0 >>= _) = _
        rw [loadByte_uintToHexline w i u (by omega), if_neg hi]
        rfl
      rw [hline]
      rfl

/-! ## the oracle's dump -/

/-- the first `n` bytes of a word, the highest first, are its first `2 * n` digits -/
theorem flatMap_digits_byteOf (w : Word) : ∀ n ≤ 8,
    ((List.range n).flatMap fun k => digits 2 (byteOf w (7 - k)).toNat)
      = digits (2 * n) (w.toNat / 16 ^ (2 * (8 - n))) := by
  intro n
  induction n with
  | zero => exact fun _ => rfl
  | succ n ih =>
    intro hn
    have hpow : w.toNat / 16 ^ (2 * (8 - (n + 1))) / 16 ^ 2 = w.toNat / 16 ^ (2 * (8 - n)) := by
      rw [Nat.div_div_eq_div_mul, ← pow_add, show 2 * (8 - (n + 1)) + 2 = 2 * (8 - n) by omega]
    rw [List.range_succ, List.flatMap_append, ih (by omega), List.flatMap_singleton,
      byteOf_toNat, show 256 = 16 ^ 2 by rfl, digits_mod, ← hex_pow,
      show 7 - n = 8 - (n + 1) by omega, show 2 * (n + 1) = 2 * n + 2 by ring, digits_add, hpow]

/-- the bytes of a word in hexadecimal, lowest address first -/
def hexBytes (v : Word) : List Char := (List.range 8).flatMap fun k => digits 2 (byteOf v k).toNat

theorem dumpLine_load64 (m : Bytes) (i : Nat) : dumpLine m i = hexBytes (load64 m (8 * i)) := by
  unfold dumpLine hexBytes
  refine List.flatMap_congr fun k hk => ?_
  rw [byteOf_load64 m _ (List.mem_range.mp hk), Nat.mul_comm 8 i]

/-- the loader and the dump are inverse, line by line -/
theorem hexBytes_byteReverse (w : Word) : hexBytes (byteReverse w) = uintToHexline w := by
  have hbytes : hexBytes (byteReverse w)
      = (List.range 8).flatMap fun k => digits 2 (byteOf w (7 - k)).toNat :=
    List.flatMap_congr fun k hk => by rw [byteOf_byteReverse w (List.mem_range.mp hk)]
  rw [hbytes, flatMap_digits_byteOf w 8 (le_refl 8)]
  simp [uintToHexline]

theorem dumpLine_eq (m : Bytes) (i : Nat) :
    dumpLine m i = uintToHexline (byteReverse (load64 m (8 * i))) := by
  rw [dumpLine_load64, ← hexBytes_byteReverse, byteReverse_byteReverse]

theorem getlines_dump (m : Bytes) {i : Nat} (h : i < scratchpadBytes / 8) :
    (getlines (dump m))[i]? = some (dumpLine m i) := by
  unfold dump
  rw [getlines_unlines]
  · rw [List.getElem?_map, List.getElem?_range h]
    rfl
  · intro l hl
    obtain ⟨j, _, rfl⟩ := List.mem_map.mp hl
    rw [dumpLine_eq]
    exact newline_notMem_digits _ _

/-! ## both sides -/

theorem loadsAlike_iff (u : Bytes) (words : List Word) :
    LoadsAlike u words ↔
      words.length ≤ scratchpadBytes / 8 ∧ ∀ w ∈ words, byteReverse w = w := by
  unfold LoadsAlike benchWord
  rw [getlines_hexFile]
  have hbench : ∀ i (h : i < words.length),
      ((words.map uintToHexline)[i]?).bind hread = some words[i] := by
    intro i h
    rw [List.getElem?_map, List.getElem?_eq_getElem h, Option.map_some, Option.bind_some,
      hread_uintToHexline]
  constructor
  · rintro ⟨m, hm, hread⟩
    by_cases hle : words.length ≤ scratchpadBytes / 8
    · refine ⟨hle, fun w hw => ?_⟩
      obtain ⟨m', hm', -, hword⟩ := loadScratchpadFrom_hexlines words 0 u (by omega)
      obtain rfl := Except.ok.inj (hm.symm.trans hm')
      obtain ⟨i, hi, rfl⟩ := List.getElem_of_mem hw
      have h1 := hread i hi
      have h2 := hword i _ (List.getElem?_eq_getElem hi)
      rw [Nat.zero_add] at h2
      rw [hbench i hi, h2] at h1
      exact (Option.some.inj h1).symm
    · rw [loadScratchpadFrom_too_long words 0 u (by omega) (Nat.zero_le _)] at hm
      exact nomatch hm
  · rintro ⟨hle, hrev⟩
    obtain ⟨m, hm, -, hword⟩ := loadScratchpadFrom_hexlines words 0 u (by omega)
    refine ⟨m, hm, fun i hi => ?_⟩
    have h2 := hword i _ (List.getElem?_eq_getElem hi)
    rw [Nat.zero_add, hrev _ (List.getElem_mem hi)] at h2
    rw [hbench i hi, h2]

theorem printsAlike_iff (m : Bytes) {i : Nat} (h : i < scratchpadBytes / 8) (v : Word) :
    PrintsAlike m i v ↔ byteReverse v = v := by
  unfold PrintsAlike
  rw [getlines_dump _ h, dumpLine_eq, load64_store64]
  constructor
  · intro hline
    exact BitVec.eq_of_toNat_eq
      (digits_inj (byteReverse v).isLt v.isLt (Option.some.inj hline))
  · intro hrev
    rw [hrev]

/-- **The bench and the oracle see the same scratchpad exactly when every word is its own byte
reversal** (and the words fit). -/
theorem sameScratchpad_iff (u : Bytes) (words : List Word) (m : Bytes)
    (i : Fin (scratchpadBytes / 8)) (v : Word) :
    (LoadsAlike u words ↔
        words.length ≤ scratchpadBytes / 8 ∧ ∀ w ∈ words, byteReverse w = w) ∧
      (PrintsAlike m i v ↔ byteReverse v = v) :=
  ⟨loadsAlike_iff u words, printsAlike_iff m i.isLt v⟩

theorem not_sameScratchpad_one :
    ¬ LoadsAlike (fun _ => 0) [1] ∧ ¬ PrintsAlike (fun _ => 0) 0 1 := by
  have h1 : byteReverse 1 ≠ 1 := by decide
  refine ⟨fun h => ?_, fun h => ?_⟩
  · exact h1 (((loadsAlike_iff _ _).mp h).2 1 (by simp))
  · exact h1 ((printsAlike_iff _ (by decide) 1).mp h)

end Randx
