import Mathlib.Data.List.Iterate
import RandxFpga.Num.Aes
import RandxFpga.Oracle.AesHash
import RandxFpga.Run.Loop

/-!
# AES rounds in software (`soft_aes.h`, `soft_aes.cpp`)

`saesInitializer` makes the S-box by a loop over the powers of a generator and eight tables from it.
`softAes1` takes the bytes of a vector from memory, `softAes2` from its words by shifts.

* `saesInitializer_eq`   the loops end, the tables are those of the S-box;
* `softAes_eq`           both instances compute the rounds of AES.
-/

namespace Randx

/-! ## the tables -/

/-- the variables of `mul_gf2` -/
structure MulGf2 where
  s : BitVec 32
  i : BitVec 32
  j : BitVec 32
  k : BitVec 32

namespace MulGf2

def turn (t : MulGf2) : MulGf2 :=
  let hit := t.j &&& t.k ≠ 0
  let i := t.i <<< 1
  { s := if hit then t.s ^^^ t.i else t.s
    i := if i &&& 0x100 ≠ 0 then i ^^^ 0x11b else i
    j := if hit then t.j ^^^ t.k else t.j
    k := t.k <<< 1 }

def done (t : MulGf2) : Bool := !(decide (t.k < 0x100) && decide (t.j ≠ 0))

end MulGf2

def mulGf2 (b c : BitVec 32) : Option (BitVec 32) :=
  (Loop.run MulGf2.done (fun t => some t.turn) 8 ⟨0, b, c, 1⟩).map (·.s)

/-- `ROTL8` -/
def rotl8 (x : Byte) (shift : Nat) : Byte := (x <<< shift) ||| (x >>> (8 - shift))

/-- the variables of the loop over `p` -/
structure SboxInit where
  p : Byte
  q : Byte
  sbox : Byte → Byte
  sboxReverse : Byte → Byte

def nextP (p : Byte) : Byte := p ^^^ (p <<< 1) ^^^ (if p &&& 0x80 ≠ 0 then 0x1b else 0)

def nextQ (q : Byte) : Byte :=
  let q := q ^^^ (q <<< 1)
  let q := q ^^^ (q <<< 2)
  let q := q ^^^ (q <<< 4)
  q ^^^ (if q &&& 0x80 ≠ 0 then 0x09 else 0)

def sboxValue (q : Byte) : Byte :=
  q ^^^ rotl8 q 1 ^^^ rotl8 q 2 ^^^ rotl8 q 3 ^^^ rotl8 q 4 ^^^ 0x63

namespace SboxInit

def turn (t : SboxInit) : SboxInit :=
  let p := nextP t.p
  let q := nextQ t.q
  let value := sboxValue q
  { p := p
    q := q
    sbox := fun i => if i = p then value else t.sbox i
    sboxReverse := fun i => if i = value then p else t.sboxReverse i }

/-- the entries for zero, which the loop does not reach -/
def zeroEntries (t : SboxInit) : SboxInit :=
  { t with
    sbox := fun i => if i = 0 then 0x63 else t.sbox i
    sboxReverse := fun i => if i = 0x63 then 0 else t.sboxReverse i }

def start : SboxInit := ⟨1, 1, fun _ => 0, fun _ => 0⟩

/-- `do … while (p != 1)` -/
def fill : Option SboxInit :=
  (Loop.run (fun t => t.p == 1) (fun t => some t.turn) 254 start.turn).map zeroEntries

end SboxInit

/-- `lutEnc0` to `lutEnc3` and `lutDec0` to `lutDec3` -/
structure Luts where
  enc : Fin 4 → Byte → BitVec 32
  dec : Fin 4 → Byte → BitVec 32

/-- the word with these bytes -/
def unionWord (p0 p1 p2 p3 : Byte) : BitVec 32 := p3 ++ p2 ++ p1 ++ p0

/-- `(w << 8) | (w >> 24)` -/
def rotateByte (w : BitVec 32) : BitVec 32 := (w <<< 8) ||| (w >>> 24)

def encWord (s : Byte) : Option (BitVec 32) := do
  let p0 ← mulGf2 (s.setWidth 32) 2
  let p3 ← mulGf2 (s.setWidth 32) 3
  return unionWord (p0.setWidth 8) s s (p3.setWidth 8)

def decWord (s : Byte) : Option (BitVec 32) := do
  let p0 ← mulGf2 (s.setWidth 32) 0xe
  let p1 ← mulGf2 (s.setWidth 32) 0x9
  let p2 ← mulGf2 (s.setWidth 32) 0xd
  let p3 ← mulGf2 (s.setWidth 32) 0xb
  return unionWord (p0.setWidth 8) (p1.setWidth 8) (p2.setWidth 8) (p3.setWidth 8)

/-- the entries `i` of the tables -/
def Luts.entry (t : SboxInit) (luts : Luts) (i : Byte) : Option Luts := do
  let enc ← encWord (t.sbox i)
  let dec ← decWord (t.sboxReverse i)
  return {
    enc := fun k j => if j = i then rotateByte^[k] enc else luts.enc k j
    dec := fun k j => if j = i then rotateByte^[k] dec else luts.dec k j }

/-- the loop over the entries below `n` -/
def Luts.fill (t : SboxInit) (n : Nat) : Option Luts :=
  (List.range n).foldlM (fun luts i => entry t luts (BitVec.ofNat 8 i)) ⟨fun _ _ => 0, fun _ _ => 0⟩

/-- `SAESInitializer` -/
def saesInitializer : Option Luts := SboxInit.fill.bind fun t => Luts.fill t 256

/-! ## the rounds -/

namespace VecI128

def word (v : VecI128) : Fin 4 → BitVec 32
  | 0 => v.x
  | 1 => v.y
  | 2 => v.z
  | 3 => v.w

/-- byte `j` of the vector in memory -/
def byte (v : VecI128) (j : Nat) : Byte :=
  (v.word (Fin.ofNat 4 (j / 4))).extractLsb' (8 * (j % 4)) 8

def xor (v w : VecI128) : VecI128 := ⟨v.x ^^^ w.x, v.y ^^^ w.y, v.z ^^^ w.z, v.w ^^^ w.w⟩

end VecI128

section
variable (luts : Luts)

/-- `aesenc<1>`, `aesdec<1>` -/
def softAes1 : AesRound where
  aesenc v key :=
    let s := v.byte
    let s0 := luts.enc 0 (s 0) ^^^ luts.enc 1 (s 5) ^^^ luts.enc 2 (s 10) ^^^ luts.enc 3 (s 15)
    let s1 := luts.enc 0 (s 4) ^^^ luts.enc 1 (s 9) ^^^ luts.enc 2 (s 14) ^^^ luts.enc 3 (s 3)
    let s2 := luts.enc 0 (s 8) ^^^ luts.enc 1 (s 13) ^^^ luts.enc 2 (s 2) ^^^ luts.enc 3 (s 7)
    let s3 := luts.enc 0 (s 12) ^^^ luts.enc 1 (s 1) ^^^ luts.enc 2 (s 6) ^^^ luts.enc 3 (s 11)
    (setIntVec s3 s2 s1 s0).xor key
  aesdec v key :=
    let s := v.byte
    let s0 := luts.dec 0 (s 0) ^^^ luts.dec 1 (s 13) ^^^ luts.dec 2 (s 10) ^^^ luts.dec 3 (s 7)
    let s1 := luts.dec 0 (s 4) ^^^ luts.dec 1 (s 1) ^^^ luts.dec 2 (s 14) ^^^ luts.dec 3 (s 11)
    let s2 := luts.dec 0 (s 8) ^^^ luts.dec 1 (s 5) ^^^ luts.dec 2 (s 2) ^^^ luts.dec 3 (s 15)
    let s3 := luts.dec 0 (s 12) ^^^ luts.dec 1 (s 9) ^^^ luts.dec 2 (s 6) ^^^ luts.dec 3 (s 3)
    (setIntVec s3 s2 s1 s0).xor key

/-- `lut0[a & 0xff] ^ lut1[(b >> 8) & 0xff] ^ lut2[(c >> 16) & 0xff] ^ lut3[d >> 24]` -/
def lookup4 (lut : Fin 4 → Byte → BitVec 32) (a b c d : BitVec 32) : BitVec 32 :=
  lut 0 ((a &&& 0xff).setWidth 8) ^^^ lut 1 ((b >>> 8 &&& 0xff).setWidth 8) ^^^
    lut 2 ((c >>> 16 &&& 0xff).setWidth 8) ^^^ lut 3 ((d >>> 24).setWidth 8)

/-- `aesenc<2>`, `aesdec<2>` -/
def softAes2 : AesRound where
  aesenc v key :=
    let s0 := v.w
    let s1 := v.z
    let s2 := v.y
    let s3 := v.x
    (setIntVec (lookup4 luts.enc s0 s3 s2 s1) (lookup4 luts.enc s1 s0 s3 s2)
      (lookup4 luts.enc s2 s1 s0 s3) (lookup4 luts.enc s3 s2 s1 s0)).xor key
  aesdec v key :=
    let s0 := v.w
    let s1 := v.z
    let s2 := v.y
    let s3 := v.x
    (setIntVec (lookup4 luts.dec s0 s1 s2 s3) (lookup4 luts.dec s1 s2 s3 s0)
      (lookup4 luts.dec s2 s3 s0 s1) (lookup4 luts.dec s3 s0 s1 s2)).xor key

end

/-! ## what the processor does -/

namespace VecI128

/-- a column for each word -/
def state (v : VecI128) : Aes.State := fun c r => (v.word c).extractLsb' (8 * r) 8

def ofState (s : Aes.State) : VecI128 :=
  let word := fun c => unionWord (s c 0) (s c 1) (s c 2) (s c 3)
  ⟨word 0, word 1, word 2, word 3⟩

end VecI128

/-- `_mm_aesenc_si128` and `_mm_aesdec_si128` -/
def hardAes (S : Aes.Sbox) : AesRound where
  aesenc v key := .ofState (S.round v.state key.state)
  aesdec v key := .ofState (S.invRound v.state key.state)

/-! ## `mul_gf2` -/

namespace MulGf2

/-- in front of turn `n`: the bits of `c` below are added and cleared -/
structure At (b c : Byte) (n : Nat) (t : MulGf2) : Prop where
  s : t.s = (Aes.mulBelow b c n).setWidth 32
  i : t.i = (Aes.xtime^[n] b).setWidth 32
  j : ∀ m, t.j.getLsbD m = (decide (n ≤ m) && c.getLsbD m)
  k : t.k = BitVec.twoPow 32 n

theorem double_eq (b : Byte) :
    (if (b.setWidth 32 <<< 1) &&& 0x100 ≠ 0 then (b.setWidth 32 <<< 1) ^^^ 0x11b
      else b.setWidth 32 <<< 1) = (Aes.xtime b).setWidth 32 := by
  revert b
  decide

variable {b c : Byte} {n : Nat} {t : MulGf2}

theorem At.hit (h : At b c n t) (hn : n < 8) : t.j &&& t.k ≠ 0 ↔ c.getLsbD n = true := by
  have hne : BitVec.twoPow 32 n ≠ 0#32 := fun h0 => by
    have hbit := BitVec.getLsbD_twoPow (w := 32) n n
    rw [h0] at hbit
    simp [show n < 32 by omega] at hbit
  rw [h.k, BitVec.and_twoPow, h.j n, decide_eq_true (Nat.le_refl n), Bool.true_and]
  cases c.getLsbD n with
  | true => exact ⟨fun _ => rfl, fun _ => hne⟩
  | false => exact ⟨fun h0 => absurd rfl h0, fun h0 => absurd h0 Bool.false_ne_true⟩

theorem At.turn (h : At b c n t) (hn : n < 8) : At b c (n + 1) t.turn where
  s := by
    show (if t.j &&& t.k ≠ 0 then t.s ^^^ t.i else t.s) = _
    rw [Aes.mulBelow, h.s, h.i]
    by_cases hc : c.getLsbD n = true
    · rw [if_pos ((h.hit hn).mpr hc), if_pos hc, BitVec.setWidth_xor]
    · rw [if_neg (mt (h.hit hn).mp hc), if_neg hc, BitVec.xor_zero]
  i := by
    show (if (t.i <<< 1) &&& 0x100 ≠ 0 then (t.i <<< 1) ^^^ 0x11b else t.i <<< 1) = _
    rw [h.i, double_eq, Function.iterate_succ_apply']
  j m := by
    show (if t.j &&& t.k ≠ 0 then t.j ^^^ t.k else t.j).getLsbD m = _
    by_cases hc : c.getLsbD n = true
    · rw [if_pos ((h.hit hn).mpr hc), BitVec.getLsbD_xor, h.j, h.k, BitVec.getLsbD_twoPow]
      obtain hm | rfl | hm := Nat.lt_trichotomy m n
      · simp [show ¬ n ≤ m by omega, show ¬ n + 1 ≤ m by omega, show n ≠ m by omega]
      · simp [hc, show m < 32 by omega]
      · simp [show n ≤ m by omega, show n + 1 ≤ m by omega, show n ≠ m by omega]
    · rw [if_neg (mt (h.hit hn).mp hc), h.j]
      obtain hm | rfl | hm := Nat.lt_trichotomy m n
      · simp [show ¬ n ≤ m by omega, show ¬ n + 1 ≤ m by omega]
      · simp [hc]
      · simp [show n ≤ m by omega, show n + 1 ≤ m by omega]
  k := by
    show t.k <<< 1 = _
    rw [h.k, BitVec.twoPow_eq, BitVec.twoPow_eq, BitVec.shiftLeft_add]

/-- the loop ends with all bits done, or with none left -/
theorem At.mul_eq (h : At b c n t) (hn : n ≤ 8) (hdone : t.done = true) :
    t.s = (Aes.mul b c).setWidth 32 := by
  have hzero : ∀ i, n ≤ i → c.getLsbD i = false := fun i hi => by
    by_cases hi8 : i < 8
    · have hk : t.k < 0x100 := by
        rw [h.k, BitVec.lt_def, BitVec.toNat_twoPow_of_lt (by omega)]
        exact Nat.pow_lt_pow_right (by omega) (show n < 8 by omega)
      have hj : t.j = 0 := by
        unfold MulGf2.done at hdone
        rw [decide_eq_true hk, Bool.true_and, Bool.not_eq_true', decide_eq_false_iff_not] at hdone
        exact not_not.mp hdone
      have hbit := h.j i
      rw [hj, decide_eq_true hi, Bool.true_and] at hbit
      exact hbit.symm.trans BitVec.getLsbD_zero
    · exact BitVec.getLsbD_of_ge c i (by omega)
  rw [h.s, Aes.mul_eq_mulBelow b hn hzero]

end MulGf2

theorem mulGf2_eq (b c : Byte) :
    mulGf2 (b.setWidth 32) (c.setWidth 32) = some ((Aes.mul b c).setWidth 32) := by
  have hrun : ∀ d n t, n + d = 8 → MulGf2.At b c n t →
      (Loop.run MulGf2.done (fun t => some t.turn) d t).map (·.s)
        = some ((Aes.mul b c).setWidth 32) := by
    intro d
    induction d with
    | zero =>
      intro n t hn h
      have hdone : t.done = true := by
        obtain rfl : n = 8 := by omega
        unfold MulGf2.done
        rw [h.k]
        rfl
      rw [Loop.run_of_done hdone, Option.map_some, h.mul_eq (by omega) hdone]
    | succ d ih =>
      intro n t hn h
      by_cases hdone : t.done = true
      · rw [Loop.run_of_done hdone, Option.map_some, h.mul_eq (by omega) hdone]
      · rw [Loop.run_some_succ (Bool.eq_false_iff.mpr hdone)]
        exact ih (n + 1) t.turn (by omega) (h.turn (by omega))
  refine hrun 8 0 _ (by omega) ⟨rfl, rfl, fun m => ?_, rfl⟩
  rw [BitVec.getLsbD_setWidth, decide_eq_true (Nat.zero_le m), Bool.true_and]
  by_cases hm : m < 32
  · rw [decide_eq_true hm, Bool.true_and]
  · rw [BitVec.getLsbD_of_ge c m (by omega), Bool.and_false]

/-! ## the S-box -/

theorem nextP_eq (p : Byte) : nextP p = Aes.mul p 3 := by
  revert p
  decide

theorem mul_nextQ (q : Byte) : Aes.mul (nextQ q) 3 = q := by
  revert q
  decide

theorem sboxValue_eq (q : Byte) : sboxValue q = Aes.affine q := by
  revert q
  decide

theorem nextP_injective : Function.Injective nextP := by
  refine Function.LeftInverse.injective (g := fun p => Aes.mul p 0xf6) fun p => ?_
  show Aes.mul (nextP p) 0xf6 = p
  rw [nextP_eq, Aes.mul_assoc, show Aes.mul 3 0xf6 = 1#8 by decide, Aes.mul_one]

/-- the generator has order 255 -/
theorem iterate_nextP_ne_one {i : Nat} (h0 : 0 < i) (hi : i < 255) : nextP^[i] 1 ≠ 1 := by
  have hmem : (1 : Byte) ∉ List.iterate nextP 3 254 := by decide +kernel
  intro h1
  refine hmem (List.mem_iterate.mpr ⟨i - 1, by omega, ?_⟩)
  rw [show (3 : Byte) = nextP 1 by decide, ← Function.iterate_succ_apply,
    show (i - 1).succ = i by omega, h1]

theorem iterate_nextP_255 : nextP^[255] 1 = 1 := by decide +kernel

theorem iterate_nextP_ne_zero (i : Nat) : nextP^[i] 1 ≠ 0 := by
  intro h0
  have hzero : nextP^[i] 0 = 0 := by
    clear h0
    induction i with
    | zero => rfl
    | succ i ih => rw [Function.iterate_succ_apply, show nextP 0 = 0 by decide, ih]
  exact absurd (nextP_injective.iterate i (h0.trans hzero.symm)) (by decide)

theorem iterate_nextP_injOn {i j : Nat} (hij : i < j) (hj : j - i < 255) :
    nextP^[i] 1 ≠ nextP^[j] 1 := by
  intro h
  rw [show j = i + (j - i) by omega, Function.iterate_add_apply] at h
  exact iterate_nextP_ne_one (by omega) hj (nextP_injective.iterate i h).symm

/-- the loop over `p` meets every byte but zero -/
theorem exists_iterate_nextP {b : Byte} (hb : b ≠ 0) : ∃ i, 0 < i ∧ i ≤ 255 ∧ nextP^[i] 1 = b := by
  let f : Fin (2 ^ 8) → Byte := fun i => if i.val = 0 then 0 else nextP^[i.val] 1
  have hf : Function.Injective f := by
    intro i j h
    have hi := i.isLt
    have hj := j.isLt
    by_cases hi0 : i.val = 0
    · by_cases hj0 : j.val = 0
      · exact Fin.ext (hi0.trans hj0.symm)
      · rw [show f i = 0 from if_pos hi0, show f j = _ from if_neg hj0] at h
        exact absurd h.symm (iterate_nextP_ne_zero _)
    · by_cases hj0 : j.val = 0
      · rw [show f j = 0 from if_pos hj0, show f i = _ from if_neg hi0] at h
        exact absurd h (iterate_nextP_ne_zero _)
      · rw [show f i = _ from if_neg hi0, show f j = _ from if_neg hj0] at h
        obtain hlt | heq | hlt := Nat.lt_trichotomy i.val j.val
        · exact absurd h (iterate_nextP_injOn hlt (by omega))
        · exact Fin.ext heq
        · exact absurd h.symm (iterate_nextP_injOn hlt (by omega))
  obtain ⟨i, rfl⟩ := (Finite.injective_iff_surjective_of_equiv BitVec.equivFin.symm.toEquiv).mp hf b
  have hi := i.isLt
  have hi0 : i.val ≠ 0 := fun h0 => hb (if_pos h0)
  exact ⟨i.val, by omega, by omega, (if_neg hi0).symm⟩

namespace SboxInit

/-- behind turn `n`: the entries of the first `n` powers are written -/
structure Written (n : Nat) (t : SboxInit) : Prop where
  p : t.p = nextP^[n] 1
  inverse : Aes.mul t.p t.q = 1#8
  entry : ∀ i, 0 < i → i ≤ n → ∃ c, Aes.mul (nextP^[i] 1) c = 1#8 ∧
    t.sbox (nextP^[i] 1) = Aes.affine c ∧ t.sboxReverse (Aes.affine c) = nextP^[i] 1

theorem mul_next (p q : Byte) : Aes.mul (nextP p) (nextQ q) = Aes.mul p q := by
  rw [nextP_eq, Aes.mul_assoc, Aes.mul_comm 3, mul_nextQ]

theorem Written.turn {n : Nat} {t : SboxInit} (h : Written n t) : Written (n + 1) t.turn where
  p := by
    show nextP t.p = _
    rw [h.p, Function.iterate_succ_apply']
  inverse := (mul_next t.p t.q).trans h.inverse
  entry i h0 hi := by
    have hnext : Aes.mul (nextP t.p) (nextQ t.q) = 1#8 := (mul_next t.p t.q).trans h.inverse
    have hp : nextP t.p = nextP^[n + 1] 1 := by rw [h.p, Function.iterate_succ_apply']
    show ∃ c, _ ∧ (if _ = nextP t.p then sboxValue (nextQ t.q) else _) = _ ∧
      (if _ = sboxValue (nextQ t.q) then nextP t.p else _) = _
    rw [sboxValue_eq]
    by_cases hpi : nextP^[i] 1 = nextP t.p
    · exact ⟨nextQ t.q, by rw [hpi, hnext], if_pos hpi, by rw [if_pos rfl, hpi]⟩
    · have hin : i ≤ n := by
        by_contra hlt
        exact hpi (by rw [hp, show i = n + 1 by omega])
      obtain ⟨c, hc, hsbox, hrev⟩ := h.entry i h0 hin
      refine ⟨c, hc, by rw [if_neg hpi, hsbox], ?_⟩
      rw [if_neg fun haff => hpi ?_, hrev]
      -- two bytes with one value have one inverse
      rw [Aes.affine_injective haff, Aes.mul_comm] at hc
      rw [Aes.mul_comm] at hnext
      exact Aes.inverse_unique hc hnext

theorem written_iterate (n : Nat) : Written n (SboxInit.turn^[n] start) := by
  induction n with
  | zero => exact ⟨rfl, by decide, fun i h0 hi => absurd h0 (by omega)⟩
  | succ n ih =>
    rw [Function.iterate_succ_apply']
    exact ih.turn

/-- the tables behind the loop -/
def filled : SboxInit := (SboxInit.turn^[255] start).zeroEntries

/-- the loop ends behind turn 255 -/
theorem fill_eq : fill = some filled := by
  have hp : ∀ i, (SboxInit.turn^[i] start.turn).p = nextP^[i + 1] 1 := fun i => by
    rw [← (written_iterate (i + 1)).p, Function.iterate_succ_apply]
  have hbefore : ∀ i < 254, ((SboxInit.turn^[i] start.turn).p == 1) = false := fun i hi => by
    rw [hp]
    exact beq_eq_false_iff_ne.mpr (iterate_nextP_ne_one (by omega) (by omega))
  have hdone : ((SboxInit.turn^[254] start.turn).p == 1) = true := by
    rw [hp]
    exact beq_iff_eq.mpr iterate_nextP_255
  have hrun : Loop.run (fun t : SboxInit => t.p == 1) (fun t => some t.turn) 254 start.turn = _ :=
    Loop.run_iterate (Nat.le_refl 254) hbefore hdone
  rw [fill, hrun, Option.map_some, ← Function.iterate_succ_apply, filled]

theorem zeroEntries_zero (t : SboxInit) : t.zeroEntries.sbox 0 = Aes.affine 0 ∧
    t.zeroEntries.sboxReverse (Aes.affine 0) = 0 := by
  rw [show Aes.affine 0 = 0x63 by decide]
  refine ⟨?_, ?_⟩
  · show (if (0 : Byte) = 0 then (0x63 : Byte) else t.sbox 0) = 0x63
    rw [if_pos rfl]
  · show (if (0x63 : Byte) = 0x63 then (0 : Byte) else t.sboxReverse 0x63) = 0
    rw [if_pos rfl]

theorem filled_zero : filled.sbox 0 = Aes.affine 0 ∧ filled.sboxReverse (Aes.affine 0) = 0 :=
  zeroEntries_zero _

theorem filled_entry {b : Byte} (hb : b ≠ 0) : ∃ c, Aes.mul b c = 1#8 ∧
    filled.sbox b = Aes.affine c ∧ filled.sboxReverse (Aes.affine c) = b := by
  obtain ⟨i, h0, hi, rfl⟩ := exists_iterate_nextP hb
  obtain ⟨c, hc, hsbox, hrev⟩ := (written_iterate 255).entry i h0 hi
  refine ⟨c, hc, (if_neg hb).trans hsbox, (if_neg fun haff => ?_).trans hrev⟩
  have hc0 : c = 0#8 := Aes.affine_injective (haff.trans (show Aes.affine 0 = 0x63 by decide).symm)
  rw [hc0, Aes.mul_zero] at hc
  exact absurd hc (by decide)

/-- the tables are the S-box and its inverse -/
def toSbox : Aes.Sbox where
  sub := filled.sbox
  invSub := filled.sboxReverse
  inverse b := by
    by_cases hb : b = 0
    · exact ⟨0, .inr ⟨hb, rfl⟩, by rw [hb, filled_zero.1]⟩
    · obtain ⟨c, hc, hsbox, -⟩ := filled_entry hb
      exact ⟨c, .inl hc, hsbox⟩
  left_inv b := by
    by_cases hb : b = 0
    · rw [hb, filled_zero.1, filled_zero.2]
    · obtain ⟨c, -, hsbox, hrev⟩ := filled_entry hb
      rw [hsbox, hrev]

end SboxInit

/-! ## the tables -/

theorem setWidth_of_byte (b : Byte) : (b.setWidth 32).setWidth 8 = b := by
  rw [BitVec.setWidth_setWidth_of_le _ (by omega), BitVec.setWidth_eq]

/-- a column of the matrix, times a byte -/
def columnWord (m : Fin 4 → Byte) (s : Byte) : BitVec 32 :=
  unionWord (Aes.mul s (m 0)) (Aes.mul s (m 1)) (Aes.mul s (m 2)) (Aes.mul s (m 3))

theorem encWord_eq (s : Byte) : encWord s = some (columnWord Aes.mixCoefficients s) := by
  have h2 := mulGf2_eq s 2
  have h3 := mulGf2_eq s 3
  unfold encWord
  rw [show (2 : BitVec 32) = (2 : Byte).setWidth 32 from rfl, h2,
    show (3 : BitVec 32) = (3 : Byte).setWidth 32 from rfl, h3]
  show some (unionWord _ s s _) = some (unionWord _ (Aes.mul s 1) (Aes.mul s 1) _)
  rw [setWidth_of_byte, setWidth_of_byte, show Aes.mul s 1 = s from Aes.mul_one s]
  rfl

theorem decWord_eq (s : Byte) : decWord s = some (columnWord Aes.invMixCoefficients s) := by
  have he := mulGf2_eq s 0xe
  have h9 := mulGf2_eq s 0x9
  have hd := mulGf2_eq s 0xd
  have hb := mulGf2_eq s 0xb
  unfold decWord
  rw [show (0xe : BitVec 32) = (0xe : Byte).setWidth 32 from rfl, he,
    show (0x9 : BitVec 32) = (0x9 : Byte).setWidth 32 from rfl, h9,
    show (0xd : BitVec 32) = (0xd : Byte).setWidth 32 from rfl, hd,
    show (0xb : BitVec 32) = (0xb : Byte).setWidth 32 from rfl, hb]
  show some (unionWord _ _ _ _) = _
  rw [setWidth_of_byte, setWidth_of_byte, setWidth_of_byte, setWidth_of_byte]
  rfl

/-- the tables of an S-box -/
def sboxLuts (S : Aes.Sbox) : Luts where
  enc k i := rotateByte^[k] (columnWord Aes.mixCoefficients (S.sub i))
  dec k i := rotateByte^[k] (columnWord Aes.invMixCoefficients (S.invSub i))

theorem entry_eq (luts : Luts) (i : Byte) :
    ∃ luts', Luts.entry SboxInit.filled luts i = some luts' ∧
      (∀ k, luts'.enc k i = (sboxLuts SboxInit.toSbox).enc k i ∧
        luts'.dec k i = (sboxLuts SboxInit.toSbox).dec k i) ∧
      ∀ j, j ≠ i → ∀ k, luts'.enc k j = luts.enc k j ∧ luts'.dec k j = luts.dec k j := by
  refine ⟨_, by rw [Luts.entry, encWord_eq, decWord_eq]; rfl, fun k => ?_, fun j hj k => ?_⟩
  · exact ⟨if_pos rfl, if_pos rfl⟩
  · exact ⟨if_neg hj, if_neg hj⟩

theorem fill_luts (n : Nat) : ∃ luts, Luts.fill SboxInit.filled n = some luts ∧
    ∀ i : Byte, i.toNat < n → ∀ k, luts.enc k i = (sboxLuts SboxInit.toSbox).enc k i ∧
      luts.dec k i = (sboxLuts SboxInit.toSbox).dec k i := by
  induction n with
  | zero => exact ⟨_, rfl, fun i hi => absurd hi (by omega)⟩
  | succ n ih =>
    obtain ⟨luts, hluts, hbelow⟩ := ih
    obtain ⟨luts', hentry, hnew, hold⟩ := entry_eq luts (BitVec.ofNat 8 n)
    refine ⟨luts', ?_, fun i hi k => ?_⟩
    · rw [Luts.fill] at hluts ⊢
      rw [List.range_succ, List.foldlM_append, hluts]
      show Luts.entry _ _ _ >>= pure = _
      rw [hentry]
      rfl
    · by_cases hin : i = BitVec.ofNat 8 n
      · rw [hin]
        exact hnew k
      · have hlt : i.toNat < n := by
          by_contra hge
          exact hin (by rw [show n = i.toNat by omega, BitVec.ofNat_toNat, BitVec.setWidth_eq])
        rw [(hold i hin k).1, (hold i hin k).2]
        exact hbelow i hlt k

/-- **The initialiser ends with the tables of the S-box.** -/
theorem saesInitializer_eq (S : Aes.Sbox) : saesInitializer = some (sboxLuts S) := by
  obtain ⟨luts, hluts, hentry⟩ := fill_luts 256
  rw [saesInitializer, SboxInit.fill_eq, Option.bind_some, hluts, S.unique SboxInit.toSbox]
  have henc : luts.enc = (sboxLuts SboxInit.toSbox).enc :=
    funext fun k => funext fun i => (hentry i i.isLt k).1
  have hdec : luts.dec = (sboxLuts SboxInit.toSbox).dec :=
    funext fun k => funext fun i => (hentry i i.isLt k).2
  exact congrArg some ((Luts.mk.injEq ..).mpr ⟨henc, hdec⟩)

/-! ## the rounds -/

/-- the bytes of a word, the lowest first -/
def wordBytes (w : BitVec 32) (r : Fin 4) : Byte := w.extractLsb' (8 * r) 8

theorem getLsbD_wordBytes (w : BitVec 32) (r : Fin 4) {j : Nat} (hj : j < 8) :
    (wordBytes w r).getLsbD j = w.getLsbD (8 * r + j) := by
  rw [wordBytes, BitVec.getLsbD_extractLsb', decide_eq_true hj, Bool.true_and]

theorem wordBytes_injective : Function.Injective wordBytes := by
  intro w w' h
  apply BitVec.eq_of_getLsbD_eq
  intro i hi
  have hbit := getLsbD_wordBytes w ⟨i / 8, by omega⟩ (show i % 8 < 8 by omega)
  have hbit' := getLsbD_wordBytes w' ⟨i / 8, by omega⟩ (show i % 8 < 8 by omega)
  rw [show 8 * (i / 8) + i % 8 = i by omega] at hbit hbit'
  rw [← hbit, ← hbit', h]

theorem wordBytes_unionWord (p : Fin 4 → Byte) :
    wordBytes (unionWord (p 0) (p 1) (p 2) (p 3)) = p := by
  funext r
  apply BitVec.eq_of_getLsbD_eq
  intro j hj
  rw [getLsbD_wordBytes _ r hj, unionWord, BitVec.getLsbD_append, BitVec.getLsbD_append,
    BitVec.getLsbD_append]
  match r with
  | 0 => simp [hj]
  | 1 =>
    rw [if_neg (by omega), if_pos (by omega)]
    exact congrArg (p 1).getLsbD (by omega)
  | 2 =>
    rw [if_neg (by omega), if_neg (by omega), if_pos (by omega)]
    exact congrArg (p 2).getLsbD (by omega)
  | 3 =>
    rw [if_neg (by omega), if_neg (by omega), if_neg (by omega)]
    exact congrArg (p 3).getLsbD (by omega)

theorem wordBytes_xor (w w' : BitVec 32) (r : Fin 4) :
    wordBytes (w ^^^ w') r = wordBytes w r ^^^ wordBytes w' r := BitVec.extractLsb'_xor

theorem wordBytes_rotateByte (w : BitVec 32) (r : Fin 4) :
    wordBytes (rotateByte w) r = wordBytes w (r - 1) := by
  apply BitVec.eq_of_getLsbD_eq
  intro j hj
  rw [getLsbD_wordBytes _ r hj, getLsbD_wordBytes _ _ hj, rotateByte, BitVec.getLsbD_or,
    BitVec.getLsbD_shiftLeft, BitVec.getLsbD_ushiftRight]
  match r with
  | 0 =>
    rw [show ((0 : Fin 4) - 1).val = 3 from rfl]
    simp [hj, show 24 + j = 8 * 3 + j by omega]
  | 1 =>
    rw [show ((1 : Fin 4) - 1).val = 0 from rfl]
    simp [show 8 + j < 32 by omega, BitVec.getLsbD_of_ge w (24 + (8 + j)) (by omega)]
  | 2 =>
    rw [show ((2 : Fin 4) - 1).val = 1 from rfl]
    simp [show 16 + j < 32 by omega, show ¬ 16 + j < 8 by omega, show 16 + j - 8 = 8 + j by omega,
      BitVec.getLsbD_of_ge w (24 + (16 + j)) (by omega)]
  | 3 =>
    rw [show ((3 : Fin 4) - 1).val = 2 from rfl]
    simp [show 24 + j < 32 by omega, show ¬ 24 + j < 8 by omega, show 24 + j - 8 = 16 + j by omega,
      BitVec.getLsbD_of_ge w (24 + (24 + j)) (by omega)]

theorem wordBytes_columnWord (m : Fin 4 → Byte) (s : Byte) (r : Fin 4) :
    wordBytes (columnWord m s) r = Aes.mul s (m r) :=
  congrFun (wordBytes_unionWord fun r => Aes.mul s (m r)) r

/-- four entries of the tables make a column -/
theorem wordBytes_lookup (m a : Fin 4 → Byte) :
    wordBytes (rotateByte^[0] (columnWord m (a 0)) ^^^ rotateByte^[1] (columnWord m (a 1)) ^^^
      rotateByte^[2] (columnWord m (a 2)) ^^^ rotateByte^[3] (columnWord m (a 3)))
      = Aes.mixColumn m a := by
  funext r
  have h2 : r - 1 - 1 = r - 2 := by
    revert r
    decide
  have h3 : r - 2 - 1 = r - 3 := by
    revert r
    decide
  rw [wordBytes_xor, wordBytes_xor, wordBytes_xor]
  show wordBytes (columnWord m (a 0)) r ^^^ wordBytes (rotateByte (columnWord m (a 1))) r ^^^
    wordBytes (rotateByte (rotateByte (columnWord m (a 2)))) r ^^^
    wordBytes (rotateByte (rotateByte (rotateByte (columnWord m (a 3))))) r = _
  rw [wordBytes_rotateByte, wordBytes_rotateByte, wordBytes_rotateByte, wordBytes_rotateByte,
    wordBytes_rotateByte, wordBytes_rotateByte, h2, h3, wordBytes_columnWord, wordBytes_columnWord,
    wordBytes_columnWord, wordBytes_columnWord]
  rfl

theorem lookup_column {lut : Fin 4 → Byte → BitVec 32} {m : Fin 4 → Byte} {f : Byte → Byte}
    (hlut : ∀ k i, lut k i = rotateByte^[k] (columnWord m (f i))) (a : Fin 4 → Byte)
    (key : BitVec 32) :
    lut 0 (a 0) ^^^ lut 1 (a 1) ^^^ lut 2 (a 2) ^^^ lut 3 (a 3) ^^^ key
      = unionWord (Aes.mixColumn m (fun r => f (a r)) 0 ^^^ wordBytes key 0)
        (Aes.mixColumn m (fun r => f (a r)) 1 ^^^ wordBytes key 1)
        (Aes.mixColumn m (fun r => f (a r)) 2 ^^^ wordBytes key 2)
        (Aes.mixColumn m (fun r => f (a r)) 3 ^^^ wordBytes key 3) := by
  apply wordBytes_injective
  rw [wordBytes_unionWord fun r => Aes.mixColumn m (fun r => f (a r)) r ^^^ wordBytes key r]
  funext r
  rw [wordBytes_xor, hlut, hlut, hlut, hlut]
  exact congrArg (· ^^^ wordBytes key r) (congrFun (wordBytes_lookup m fun r => f (a r)) r)

theorem setWidth_eq_wordBytes (w : BitVec 32) : w.setWidth 8 = wordBytes w 0 := by
  apply BitVec.eq_of_getLsbD_eq
  intro j hj
  rw [getLsbD_wordBytes w 0 hj, BitVec.getLsbD_setWidth, decide_eq_true hj, Bool.true_and]
  exact congrArg w.getLsbD (by omega)

theorem byte_of_and (w : BitVec 32) : (w &&& 0xff).setWidth 8 = wordBytes w 0 := by
  rw [BitVec.setWidth_and, show (0xff : BitVec 32).setWidth 8 = BitVec.allOnes 8 from rfl,
    BitVec.and_allOnes, setWidth_eq_wordBytes]

theorem wordBytes_ushiftRight (w : BitVec 32) (r : Fin 4) :
    wordBytes (w >>> (8 * r.val)) 0 = wordBytes w r := by
  apply BitVec.eq_of_getLsbD_eq
  intro j hj
  rw [getLsbD_wordBytes _ 0 hj, getLsbD_wordBytes w r hj, BitVec.getLsbD_ushiftRight]
  exact congrArg w.getLsbD (by omega)

theorem lookup4_eq (lut : Fin 4 → Byte → BitVec 32) (a b c d : BitVec 32) :
    lookup4 lut a b c d = lut 0 (wordBytes a 0) ^^^ lut 1 (wordBytes b 1) ^^^
      lut 2 (wordBytes c 2) ^^^ lut 3 (wordBytes d 3) := by
  have h1 : wordBytes (b >>> 8) 0 = wordBytes b 1 := wordBytes_ushiftRight b 1
  have h2 : wordBytes (c >>> 16) 0 = wordBytes c 2 := wordBytes_ushiftRight c 2
  have h3 : (d >>> 24).setWidth 8 = wordBytes d 3 := by
    rw [setWidth_eq_wordBytes]
    exact wordBytes_ushiftRight d 3
  rw [lookup4, byte_of_and, byte_of_and, byte_of_and, h1, h2, h3]

theorem softAes1_eq (S : Aes.Sbox) : softAes1 (sboxLuts S) = hardAes S := by
  have henc : ∀ k i, (sboxLuts S).enc k i
      = rotateByte^[k] (columnWord Aes.mixCoefficients (S.sub i)) := fun _ _ => rfl
  have hdec : ∀ k i, (sboxLuts S).dec k i
      = rotateByte^[k] (columnWord Aes.invMixCoefficients (S.invSub i)) := fun _ _ => rfl
  refine (AesRound.mk.injEq ..).mpr ⟨funext fun v => funext fun key => ?_,
    funext fun v => funext fun key => ?_⟩
  · exact (VecI128.mk.injEq ..).mpr
      ⟨lookup_column henc (Aes.shiftRows v.state 0) key.x,
        lookup_column henc (Aes.shiftRows v.state 1) key.y,
        lookup_column henc (Aes.shiftRows v.state 2) key.z,
        lookup_column henc (Aes.shiftRows v.state 3) key.w⟩
  · exact (VecI128.mk.injEq ..).mpr
      ⟨lookup_column hdec (Aes.invShiftRows v.state 0) key.x,
        lookup_column hdec (Aes.invShiftRows v.state 1) key.y,
        lookup_column hdec (Aes.invShiftRows v.state 2) key.z,
        lookup_column hdec (Aes.invShiftRows v.state 3) key.w⟩

theorem softAes2_eq (luts : Luts) : softAes2 luts = softAes1 luts := by
  refine (AesRound.mk.injEq ..).mpr ⟨funext fun v => funext fun key => ?_,
    funext fun v => funext fun key => ?_⟩
  · dsimp only
    rw [lookup4_eq, lookup4_eq, lookup4_eq, lookup4_eq]
    rfl
  · dsimp only
    rw [lookup4_eq, lookup4_eq, lookup4_eq, lookup4_eq]
    rfl

/-- **The tables of the initialiser give the rounds of AES, whichever instance uses them.** -/
theorem softAes_eq : Nonempty Aes.Sbox ∧ ∀ S : Aes.Sbox, ∃ luts, saesInitializer = some luts ∧
    softAes1 luts = hardAes S ∧ softAes2 luts = hardAes S :=
  ⟨⟨SboxInit.toSbox⟩, fun S =>
    ⟨sboxLuts S, saesInitializer_eq S, softAes1_eq S, (softAes2_eq _).trans (softAes1_eq S)⟩⟩

end Randx
