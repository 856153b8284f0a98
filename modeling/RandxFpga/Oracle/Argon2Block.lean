import RandxFpga.Oracle.Blake2b
import RandxFpga.Run.Stride
import Mathlib.Tactic.FinCases

/-!
# The blocks of Argon2 (`argon2-template-64.h`, `argon2-template-128.h`, `argon2-sse2.c`,
# `argon2-ssse3.c`, `argon2-xop.c`, `argon2-avx2.c`, `argon2-avx512f.c`)

`fillBlock` makes a block from two others: a round over each row of sixteen words, then one over
each column of the block.  The vector code works on registers of two, four or eight words; a `Simd`
carries that its two rounds compute the rounds of the words in the registers.

* `blake2RoundNoMsg_eq`  a round as its columns and its diagonals;
* `Simd.rounds_block`    the rounds over a block are the same;
* `Simd.fillBlock_eq`    the vector code leaves the same block, and keeps it in its registers.
-/

namespace Randx
namespace Argon2
open Blake2b (Quad M128.join)
open scoped Blake2b

/-- the words of a row and of a block -/
scoped instance neZero_row : NeZero 16 := ⟨by decide⟩

scoped instance neZero_block : NeZero 128 := ⟨by decide⟩

/-- `block` -/
abbrev Block := Fin 128 → Word

def Block.xor (x y : Block) : Block := fun k => x k ^^^ y k

/-! ## the portable code -/

/-- the macro of `argon2-arch.c`, which is the one of BLAKE2b -/
abbrev rotr64 (w : Word) (c : Nat) : Word := Blake2b.rotr64 w c

def F (x y : Word) : Word := x + y + 2 * (x &&& 0xFFFFFFFF) * (y &&& 0xFFFFFFFF)

/-- the first half of `G`, with its rotations -/
def half (r s : Nat) (q : Quad) : Quad :=
  let a := F q.a q.b
  let d := rotr64 (q.d ^^^ a) r
  let c := F q.c d
  let b := rotr64 (q.b ^^^ c) s
  ⟨a, b, c, d⟩

def G (q : Quad) : Quad := half 16 63 (half 32 24 q)

/-- `G(v[a], v[b], v[c], v[d])` -/
def mix (a b c d : Fin 16) (v : Fin 16 → Word) : Fin 16 → Word :=
  let q := G ⟨v a, v b, v c, v d⟩
  fun k => if k = a then q.a else if k = b then q.b else if k = c then q.c
    else if k = d then q.d else v k

/-- `BLAKE2_ROUND_NOMSG` -/
def blake2RoundNoMsg (v : Fin 16 → Word) : Fin 16 → Word :=
  let v := mix 0 4 8 12 v
  let v := mix 1 5 9 13 v
  let v := mix 2 6 10 14 v
  let v := mix 3 7 11 15 v
  let v := mix 0 5 10 15 v
  let v := mix 1 6 11 12 v
  let v := mix 2 7 8 13 v
  mix 3 4 9 14 v

/-- `v[k]` -/
def word (b : Block) (k : Nat) : Word := b (Fin.ofNat 128 k)

/-- `BLAKE2_ROUND_NOMSG1(blockR.v + i * 16)` -/
def round1 : Nat → Block → Block :=
  Stride.onClass (fun k : Fin 128 => k / 16)
    fun i b k => blake2RoundNoMsg (fun j => word b (16 * i + j)) (Fin.ofNat 16 (k % 16))

/-- `BLAKE2_ROUND_NOMSG2(blockR.v + i * 2)` -/
def round2 : Nat → Block → Block :=
  Stride.onClass (fun k : Fin 128 => k % 16 / 2)
    fun i b k => blake2RoundNoMsg (fun j => word b (16 * (j / 2) + 2 * i + j % 2))
      (Fin.ofNat 16 (2 * (k / 16) + k % 2))

def rounds (b : Block) : Block :=
  let b := (Stride.upTo round1 1 8 (0, b)).2
  (Stride.upTo round2 1 8 (0, b)).2

/-- `fill_block`, with what it leaves in `next_block` -/
def fillBlock (prevBlock refBlock nextBlock : Block) (withXor : Bool) : Block :=
  let blockR := refBlock.xor prevBlock
  let blockTmp := if withXor then blockR.xor nextBlock else blockR
  blockTmp.xor (rounds blockR)

/-! ## registers of words -/

abbrev Lanes (n : Nat) := Fin n → Word

namespace Lanes
variable {n : Nat}

def add (x y : Lanes n) : Lanes n := fun k => x k + y k

def xor (x y : Lanes n) : Lanes n := fun k => x k ^^^ y k

/-- `_mm_mul_epu32` -/
def mulEpu32 (x y : Lanes n) : Lanes n := fun k => (x k &&& 0xFFFFFFFF) * (y k &&& 0xFFFFFFFF)

/-- `_mm_srli_epi64`, `_mm_slli_epi64` -/
def srli (x : Lanes n) (c : Nat) : Lanes n := fun k => x k >>> c

def slli (x : Lanes n) (c : Nat) : Lanes n := fun k => x k <<< c

/-- `_mm_shuffle_epi32(x, _MM_SHUFFLE(2, 3, 0, 1))` -/
def shuffle32 (x : Lanes n) : Lanes n := fun k => (x k).extractLsb' 0 32 ++ (x k).extractLsb' 32 32

/-- `_MM_SHUFFLE(0, 3, 2, 1)` on the four parts of a word -/
def shuffle16 (w : Word) : Word :=
  w.extractLsb' 0 16 ++ w.extractLsb' 48 16 ++ w.extractLsb' 32 16 ++ w.extractLsb' 16 16

/-- `_mm_shufflelo_epi16`, `_mm_shufflehi_epi16` -/
def shufflelo16 (x : Lanes 2) : Lanes 2 := ![shuffle16 (x 0), x 1]

def shufflehi16 (x : Lanes 2) : Lanes 2 := ![x 0, shuffle16 (x 1)]

/-- `_mm_unpackhi_epi64`, `_mm_unpacklo_epi64` -/
def unpackhi (x y : Lanes 2) : Lanes 2 := ![x 1, y 1]

def unpacklo (x y : Lanes 2) : Lanes 2 := ![x 0, y 0]

/-- `_mm_alignr_epi8(x, y, 8)` -/
def alignr8 (x y : Lanes 2) : Lanes 2 := ![y 1, x 0]

/-- `_MM_SHUFFLE` -/
def mmShuffle (z y x w : Fin 4) : Fin 4 → Fin 4 := ![w, x, y, z]

/-- `_mm256_permute4x64_epi64` -/
def permute4x64 (x : Lanes 4) (s : Fin 4 → Fin 4) : Lanes 4 := fun k => x (s k)

/-- `_mm256_blend_epi32` -/
def blend32 (x y : Lanes 4) (mask : Byte) : Lanes 4 := fun k =>
  (if mask.getLsbD (2 * k + 1) then y k else x k).extractLsb' 32 32
    ++ (if mask.getLsbD (2 * k) then y k else x k).extractLsb' 0 32

/-- `_mm512_permutex_epi64`: both halves alike -/
def permutex (x : Lanes 8) (s : Fin 4 → Fin 4) : Lanes 8 :=
  fun k => x (Fin.ofNat 8 (4 * (k / 4) + s (Fin.ofNat 4 k)))

/-- `_mm512_shuffle_i64x2`: two pairs of words of `x`, then two of `y` -/
def shuffleI64x2 (x y : Lanes 8) (s : Fin 4 → Fin 4) : Lanes 8 :=
  fun k => (if k.val < 4 then x else y) (Fin.ofNat 8 (2 * s (Fin.ofNat 4 (k / 2)) + k % 2))

/-- `_mm512_permutexvar_epi64` -/
def permutexvar (s : Fin 8 → Fin 8) (x : Lanes 8) : Lanes 8 := fun k => x (s k)

section
variable [NeZero n]

def byte (x : Lanes n) (p : Nat) : Byte := byteOf (x (Fin.ofNat n (p / 8))) (p % 8)

/-- `_mm_shuffle_epi8`, `_mm256_shuffle_epi8` with positive indices: each sixteen bytes alike -/
def shuffle8 (x : Lanes n) (r : Nat → Nat) : Lanes n :=
  fun k => M128.join fun j => x.byte (16 * ((8 * k + j) / 16) + r (8 * k + j) % 16)

end
end Lanes

/-- the rotations of an instruction set, which rotate each word -/
structure Rotations (n : Nat) where
  ror32 : Lanes n → Lanes n
  ror24 : Lanes n → Lanes n
  ror16 : Lanes n → Lanes n
  ror63 : Lanes n → Lanes n
  ror32_eq : ∀ x k, ror32 x k = rotr64 (x k) 32
  ror24_eq : ∀ x k, ror24 x k = rotr64 (x k) 24
  ror16_eq : ∀ x k, ror16 x k = rotr64 (x k) 16
  ror63_eq : ∀ x k, ror63 x k = rotr64 (x k) 63

structure Regs (n : Nat) where
  a0 : Lanes n
  b0 : Lanes n
  c0 : Lanes n
  d0 : Lanes n
  a1 : Lanes n
  b1 : Lanes n
  c1 : Lanes n
  d1 : Lanes n

section
variable {n : Nat}

def f (x y : Lanes n) : Lanes n :=
  let z := x.mulEpu32 y
  (x.add y).add (z.add z)

def halfRegs (rorD rorB : Lanes n → Lanes n) (v : Regs n) : Regs n :=
  let a0 := f v.a0 v.b0
  let a1 := f v.a1 v.b1
  let d0 := rorD (v.d0.xor a0)
  let d1 := rorD (v.d1.xor a1)
  let c0 := f v.c0 d0
  let c1 := f v.c1 d1
  let b0 := rorB (v.b0.xor c0)
  let b1 := rorB (v.b1.xor c1)
  ⟨a0, b0, c0, d0, a1, b1, c1, d1⟩

/-- `G1`, `G2` -/
def Rotations.g1 (o : Rotations n) : Regs n → Regs n := halfRegs o.ror32 o.ror24

def Rotations.g2 (o : Rotations n) : Regs n → Regs n := halfRegs o.ror16 o.ror63

/-- `h` on the words of each lane -/
def Regs.map (h : Quad → Quad) (v : Regs n) : Regs n where
  a0 k := (h ⟨v.a0 k, v.b0 k, v.c0 k, v.d0 k⟩).a
  b0 k := (h ⟨v.a0 k, v.b0 k, v.c0 k, v.d0 k⟩).b
  c0 k := (h ⟨v.a0 k, v.b0 k, v.c0 k, v.d0 k⟩).c
  d0 k := (h ⟨v.a0 k, v.b0 k, v.c0 k, v.d0 k⟩).d
  a1 k := (h ⟨v.a1 k, v.b1 k, v.c1 k, v.d1 k⟩).a
  b1 k := (h ⟨v.a1 k, v.b1 k, v.c1 k, v.d1 k⟩).b
  c1 k := (h ⟨v.a1 k, v.b1 k, v.c1 k, v.d1 k⟩).c
  d1 k := (h ⟨v.a1 k, v.b1 k, v.c1 k, v.d1 k⟩).d

theorem f_eq (x y : Lanes n) (k : Fin n) : f x y k = F (x k) (y k) := by
  unfold f F Lanes.add Lanes.mulEpu32
  rw [BitVec.mul_assoc]
  exact congrArg (x k + y k + ·) BitVec.two_mul.symm

theorem halfRegs_eq {rorD rorB : Lanes n → Lanes n} {r s : Nat}
    (hD : ∀ x k, rorD x k = rotr64 (x k) r) (hB : ∀ x k, rorB x k = rotr64 (x k) s) (v : Regs n) :
    halfRegs rorD rorB v = v.map (half r s) := by
  have hf : ∀ x y : Lanes n, f x y = fun k => F (x k) (y k) := fun x y => funext (f_eq x y)
  have hD' : ∀ x, rorD x = fun k => rotr64 (x k) r := fun x => funext (hD x)
  have hB' : ∀ x, rorB x = fun k => rotr64 (x k) s := fun x => funext (hB x)
  unfold halfRegs
  simp only [hf, hD', hB']
  rfl

theorem Rotations.g2_g1 (o : Rotations n) (v : Regs n) : o.g2 (o.g1 v) = v.map G := by
  unfold g1 g2
  rw [halfRegs_eq o.ror32_eq o.ror24_eq, halfRegs_eq o.ror16_eq o.ror63_eq]
  rfl

end

/-! ## the instruction sets -/

section
variable {n : Nat}

/-- `ror64_32`, `ror64_63` of all of them but AVX-512F and XOP -/
theorem shuffle32_eq (x : Lanes n) (k : Fin n) : x.shuffle32 k = rotr64 (x k) 32 :=
  congrArg Blake2b.M128.lo (Blake2b.roti_32 ⟨x k, x k⟩)

def ror63 (x : Lanes n) : Lanes n := (x.srli 63).xor (x.add x)

theorem ror63_eq (x : Lanes n) (k : Fin n) : ror63 x k = rotr64 (x k) 63 :=
  congrArg Blake2b.M128.lo (Blake2b.roti_63 ⟨x k, x k⟩)

theorem getLsbD_shuffle16 (w : Word) {i : Nat} (hi : i < 64) :
    (Lanes.shuffle16 w).getLsbD i = w.getLsbD ((i + 16) % 64) := by
  unfold Lanes.shuffle16
  simp only [BitVec.getLsbD_append, BitVec.getLsbD_extractLsb']
  by_cases h0 : i < 16
  · rw [if_pos h0, decide_eq_true h0, Nat.mod_eq_of_lt (by omega), Nat.add_comm]
    rfl
  rw [if_neg h0]
  by_cases h1 : i - 16 < 16
  · rw [if_pos h1, decide_eq_true h1, Bool.true_and]
    congr 1
    omega
  rw [if_neg h1]
  by_cases h2 : i - 16 - 16 < 16
  · rw [if_pos h2, decide_eq_true h2, Bool.true_and]
    congr 1
    omega
  · rw [if_neg h2, decide_eq_true (by omega), Bool.true_and]
    congr 1
    omega

theorem shuffle16_eq (w : Word) : Lanes.shuffle16 w = rotr64 w 16 := by
  apply BitVec.eq_of_getLsbD_eq
  intro i hi
  rw [getLsbD_shuffle16 w hi, Blake2b.getLsbD_rotr64 w (by omega) hi]

theorem srli_slli_24 (w : Word) : (w >>> 24) ^^^ (w <<< 40) = rotr64 w 24 := by
  have hdisjoint : (w >>> 24) &&& (w <<< 40) = 0#64 := by
    apply BitVec.eq_of_getLsbD_eq
    intro i hi
    rw [BitVec.getLsbD_and, BitVec.getLsbD_ushiftRight, BitVec.getLsbD_shiftLeft,
      BitVec.getLsbD_zero]
    by_cases h : i < 40
    · simp [h]
    · rw [BitVec.getLsbD_of_ge w (24 + i) (by omega), Bool.false_and]
  show _ = (w >>> 24) ||| (w <<< 40)
  apply BitVec.eq_of_getLsbD_eq
  intro i hi
  have hbit := congrArg (BitVec.getLsbD · i) hdisjoint
  simp only [BitVec.getLsbD_and, BitVec.getLsbD_zero] at hbit
  rw [BitVec.getLsbD_xor, BitVec.getLsbD_or]
  cases hl : (w >>> 24).getLsbD i <;> cases hr : (w <<< 40).getLsbD i <;> simp_all

/-- a shuffle that rotates the bytes of each word by `c` -/
theorem shuffle8_eq [NeZero n] (x : Lanes n) (r : Nat → Nat) (c : Nat) (hc : c ≤ 8) (k : Fin n)
    (hr : ∀ j < 8, r (8 * k + j) % 16 = 8 * k % 16 + (j + c) % 8) :
    x.shuffle8 r k = rotr64 (x k) (8 * c) := by
  have hlt := k.isLt
  have hbyte : ∀ j < 8, x.byte (16 * ((8 * k + j) / 16) + r (8 * k + j) % 16)
      = byteOf (x k) ((j + c) % 8) := by
    intro j hj
    have hplace : 16 * ((8 * k.val + j) / 16) + r (8 * k + j) % 16 = 8 * k + (j + c) % 8 := by
      rw [hr j hj]
      omega
    rw [hplace]
    unfold Lanes.byte
    rw [show (8 * k.val + (j + c) % 8) / 8 = k by omega,
      show (8 * k.val + (j + c) % 8) % 8 = (j + c) % 8 by omega]
    exact congrArg (fun k => byteOf (x k) _) (Fin.ext (Nat.mod_eq_of_lt hlt))
  apply BitVec.eq_of_getLsbD_eq
  intro i hi
  unfold Lanes.shuffle8
  rw [Blake2b.getLsbD_join _ hi, hbyte _ (by omega),
    Blake2b.getLsbD_byteOf _ _ (Nat.mod_lt _ (by omega)), Blake2b.getLsbD_rotr64 _ (by omega) hi]
  congr 1
  omega

end

def sse2 : Rotations 2 where
  ror32 := Lanes.shuffle32
  ror24 x := (x.srli 24).xor (x.slli 40)
  ror16 x := (x.shufflelo16).shufflehi16
  ror63 := ror63
  ror32_eq := shuffle32_eq
  ror24_eq x k := srli_slli_24 (x k)
  ror16_eq x k := by
    match k with
    | 0 | 1 => exact shuffle16_eq _
  ror63_eq := ror63_eq

def ssse3 : Rotations 2 where
  ror32 := Lanes.shuffle32
  ror24 x := x.shuffle8 fun p => Blake2b.r24 (Fin.ofNat 16 p)
  ror16 x := x.shuffle8 fun p => Blake2b.r16 (Fin.ofNat 16 p)
  ror63 := ror63
  ror32_eq := shuffle32_eq
  ror24_eq x k := shuffle8_eq x _ 3 (by omega) k (by revert k; decide)
  ror16_eq x k := shuffle8_eq x _ 2 (by omega) k (by revert k; decide)
  ror63_eq := ror63_eq

/-- `_mm_roti_epi64(x, -c)` -/
def xop : Rotations 2 where
  ror32 x k := rotr64 (x k) 32
  ror24 x k := rotr64 (x k) 24
  ror16 x k := rotr64 (x k) 16
  ror63 x k := rotr64 (x k) 63
  ror32_eq _ _ := rfl
  ror24_eq _ _ := rfl
  ror16_eq _ _ := rfl
  ror63_eq _ _ := rfl

/-- the bytes of a register of AVX2 -/
scoped instance neZero_bytes : NeZero 32 := ⟨by decide⟩

/-- `r16`, `r24` of AVX2 -/
def r16 : Fin 32 → Nat :=
  ![2, 3, 4, 5, 6, 7, 0, 1, 10, 11, 12, 13, 14, 15, 8, 9, 18, 19, 20, 21, 22, 23, 16, 17, 26, 27,
    28, 29, 30, 31, 24, 25]

def r24 : Fin 32 → Nat :=
  ![3, 4, 5, 6, 7, 0, 1, 2, 11, 12, 13, 14, 15, 8, 9, 10, 19, 20, 21, 22, 23, 16, 17, 18, 27, 28,
    29, 30, 31, 24, 25, 26]

def avx2 : Rotations 4 where
  ror32 := Lanes.shuffle32
  ror24 x := x.shuffle8 fun p => r24 (Fin.ofNat 32 p)
  ror16 x := x.shuffle8 fun p => r16 (Fin.ofNat 32 p)
  ror63 := ror63
  ror32_eq := shuffle32_eq
  ror24_eq x k := shuffle8_eq x _ 3 (by omega) k (by revert k; decide)
  ror16_eq x k := shuffle8_eq x _ 2 (by omega) k (by revert k; decide)
  ror63_eq := ror63_eq

/-- `_mm512_ror_epi64` -/
def avx512f : Rotations 8 where
  ror32 x k := rotr64 (x k) 32
  ror24 x k := rotr64 (x k) 24
  ror16 x k := rotr64 (x k) 16
  ror63 x k := rotr64 (x k) 63
  ror32_eq _ _ := rfl
  ror24_eq _ _ := rfl
  ror16_eq _ _ := rfl
  ror63_eq _ _ := rfl

/-! ## the vector rounds -/

/-- `DIAGONALIZE`, `UNDIAGONALIZE` of SSE2 -/
def diagonalizeSse2 (v : Regs 2) : Regs 2 :=
  let t0 := v.d0
  let t1 := v.b0
  let d0 := v.d1.unpackhi (t0.unpacklo t0)
  let d1 := t0.unpackhi (v.d1.unpacklo v.d1)
  let b0 := v.b0.unpackhi (v.b1.unpacklo v.b1)
  let b1 := v.b1.unpackhi (t1.unpacklo t1)
  { v with b0 := b0, b1 := b1, d0 := d0, d1 := d1 }

def undiagonalizeSse2 (v : Regs 2) : Regs 2 :=
  let t0 := v.b0
  let t1 := v.d0
  let b0 := v.b1.unpackhi (v.b0.unpacklo v.b0)
  let b1 := t0.unpackhi (v.b1.unpacklo v.b1)
  let d0 := v.d0.unpackhi (v.d1.unpacklo v.d1)
  let d1 := v.d1.unpackhi (t1.unpacklo t1)
  { v with b0 := b0, b1 := b1, d0 := d0, d1 := d1 }

/-- `DIAGONALIZE`, `UNDIAGONALIZE` of SSSE3 and XOP -/
def diagonalize (v : Regs 2) : Regs 2 :=
  { v with
    b0 := v.b1.alignr8 v.b0
    b1 := v.b0.alignr8 v.b1
    d0 := v.d0.alignr8 v.d1
    d1 := v.d1.alignr8 v.d0 }

def undiagonalize (v : Regs 2) : Regs 2 :=
  { v with
    b0 := v.b0.alignr8 v.b1
    b1 := v.b1.alignr8 v.b0
    d0 := v.d1.alignr8 v.d0
    d1 := v.d0.alignr8 v.d1 }

/-- `C0` and `C1` change places as arguments -/
def swapC {n : Nat} (v : Regs n) : Regs n := { v with c0 := v.c1, c1 := v.c0 }

/-- `BLAKE2_ROUND(A0, A1, B0, B1, C0, C1, D0, D1)` -/
def blake2Round (o : Rotations 2) (diag undiag : Regs 2 → Regs 2) (x : Fin 8 → Lanes 2) :
    Fin 8 → Lanes 2 :=
  let v := o.g2 (o.g1 ⟨x 0, x 2, x 4, x 6, x 1, x 3, x 5, x 7⟩)
  let v := diag v
  let v := swapC (o.g2 (o.g1 (swapC v)))
  let v := undiag v
  ![v.a0, v.a1, v.b0, v.b1, v.c0, v.c1, v.d0, v.d1]

/-- `DIAGONALIZE1`, `UNDIAGONALIZE1` -/
def diagonalize1 (v : Regs 4) : Regs 4 :=
  { v with
    b0 := v.b0.permute4x64 (Lanes.mmShuffle 0 3 2 1)
    b1 := v.b1.permute4x64 (Lanes.mmShuffle 0 3 2 1)
    c0 := v.c0.permute4x64 (Lanes.mmShuffle 1 0 3 2)
    c1 := v.c1.permute4x64 (Lanes.mmShuffle 1 0 3 2)
    d0 := v.d0.permute4x64 (Lanes.mmShuffle 2 1 0 3)
    d1 := v.d1.permute4x64 (Lanes.mmShuffle 2 1 0 3) }

def undiagonalize1 (v : Regs 4) : Regs 4 :=
  { v with
    b0 := v.b0.permute4x64 (Lanes.mmShuffle 2 1 0 3)
    b1 := v.b1.permute4x64 (Lanes.mmShuffle 2 1 0 3)
    c0 := v.c0.permute4x64 (Lanes.mmShuffle 1 0 3 2)
    c1 := v.c1.permute4x64 (Lanes.mmShuffle 1 0 3 2)
    d0 := v.d0.permute4x64 (Lanes.mmShuffle 0 3 2 1)
    d1 := v.d1.permute4x64 (Lanes.mmShuffle 0 3 2 1) }

/-- `DIAGONALIZE2`, `UNDIAGONALIZE2` -/
def diagonalize2 (v : Regs 4) : Regs 4 :=
  { v with
    b0 := (v.b0.blend32 v.b1 0x33).permute4x64 (Lanes.mmShuffle 2 3 0 1)
    b1 := (v.b0.blend32 v.b1 0xCC).permute4x64 (Lanes.mmShuffle 2 3 0 1)
    c0 := v.c1
    c1 := v.c0
    d0 := (v.d0.blend32 v.d1 0xCC).permute4x64 (Lanes.mmShuffle 2 3 0 1)
    d1 := (v.d0.blend32 v.d1 0x33).permute4x64 (Lanes.mmShuffle 2 3 0 1) }

def undiagonalize2 (v : Regs 4) : Regs 4 :=
  { v with
    b0 := (v.b0.blend32 v.b1 0xCC).permute4x64 (Lanes.mmShuffle 2 3 0 1)
    b1 := (v.b0.blend32 v.b1 0x33).permute4x64 (Lanes.mmShuffle 2 3 0 1)
    c0 := v.c1
    c1 := v.c0
    d0 := (v.d0.blend32 v.d1 0x33).permute4x64 (Lanes.mmShuffle 2 3 0 1)
    d1 := (v.d0.blend32 v.d1 0xCC).permute4x64 (Lanes.mmShuffle 2 3 0 1) }

/-- `BLAKE2_ROUND1(A0, B0, C0, D0, A1, B1, C1, D1)` of AVX2 -/
def blake2Round1 (x : Fin 8 → Lanes 4) : Fin 8 → Lanes 4 :=
  let v := avx2.g2 (avx2.g1 ⟨x 0, x 1, x 2, x 3, x 4, x 5, x 6, x 7⟩)
  let v := avx2.g2 (avx2.g1 (diagonalize1 v))
  let v := undiagonalize1 v
  ![v.a0, v.b0, v.c0, v.d0, v.a1, v.b1, v.c1, v.d1]

/-- `BLAKE2_ROUND2(A0, A1, B0, B1, C0, C1, D0, D1)` of AVX2 -/
def blake2Round2 (x : Fin 8 → Lanes 4) : Fin 8 → Lanes 4 :=
  let v := avx2.g2 (avx2.g1 ⟨x 0, x 2, x 4, x 6, x 1, x 3, x 5, x 7⟩)
  let v := avx2.g2 (avx2.g1 (diagonalize2 v))
  let v := undiagonalize2 v
  ![v.a0, v.a1, v.b0, v.b1, v.c0, v.c1, v.d0, v.d1]

/-- `DIAGONALIZE`, `UNDIAGONALIZE` of AVX-512F -/
def diagonalizeAvx512f (v : Regs 8) : Regs 8 :=
  { v with
    b0 := v.b0.permutex (Lanes.mmShuffle 0 3 2 1)
    b1 := v.b1.permutex (Lanes.mmShuffle 0 3 2 1)
    c0 := v.c0.permutex (Lanes.mmShuffle 1 0 3 2)
    c1 := v.c1.permutex (Lanes.mmShuffle 1 0 3 2)
    d0 := v.d0.permutex (Lanes.mmShuffle 2 1 0 3)
    d1 := v.d1.permutex (Lanes.mmShuffle 2 1 0 3) }

def undiagonalizeAvx512f (v : Regs 8) : Regs 8 :=
  { v with
    b0 := v.b0.permutex (Lanes.mmShuffle 2 1 0 3)
    b1 := v.b1.permutex (Lanes.mmShuffle 2 1 0 3)
    c0 := v.c0.permutex (Lanes.mmShuffle 1 0 3 2)
    c1 := v.c1.permutex (Lanes.mmShuffle 1 0 3 2)
    d0 := v.d0.permutex (Lanes.mmShuffle 0 3 2 1)
    d1 := v.d1.permutex (Lanes.mmShuffle 0 3 2 1) }

/-- `BLAKE2_ROUND` of AVX-512F -/
def blake2RoundAvx512f (v : Regs 8) : Regs 8 :=
  let v := avx512f.g2 (avx512f.g1 v)
  let v := avx512f.g2 (avx512f.g1 (diagonalizeAvx512f v))
  undiagonalizeAvx512f v

/-- `SWAP_HALVES` -/
def swapHalves (x : Lanes 8 × Lanes 8) : Lanes 8 × Lanes 8 :=
  (x.1.shuffleI64x2 x.2 (Lanes.mmShuffle 1 0 1 0), x.1.shuffleI64x2 x.2 (Lanes.mmShuffle 3 2 3 2))

def quarters : Fin 8 → Fin 8 := ![0, 1, 4, 5, 2, 3, 6, 7]

def swapQuarters (x : Lanes 8 × Lanes 8) : Lanes 8 × Lanes 8 :=
  let x := swapHalves x
  (Lanes.permutexvar quarters x.1, Lanes.permutexvar quarters x.2)

def unswapQuarters (x : Lanes 8 × Lanes 8) : Lanes 8 × Lanes 8 :=
  swapHalves (Lanes.permutexvar quarters x.1, Lanes.permutexvar quarters x.2)

/-- `BLAKE2_ROUND1(A0, C0, B0, D0, A1, C1, B1, D1)` of AVX-512F -/
def blake2Round1Avx512f (x : Fin 8 → Lanes 8) : Fin 8 → Lanes 8 :=
  let ab0 := swapHalves (x 0, x 2)
  let cd0 := swapHalves (x 1, x 3)
  let ab1 := swapHalves (x 4, x 6)
  let cd1 := swapHalves (x 5, x 7)
  let v := blake2RoundAvx512f ⟨ab0.1, ab0.2, cd0.1, cd0.2, ab1.1, ab1.2, cd1.1, cd1.2⟩
  let ab0 := swapHalves (v.a0, v.b0)
  let cd0 := swapHalves (v.c0, v.d0)
  let ab1 := swapHalves (v.a1, v.b1)
  let cd1 := swapHalves (v.c1, v.d1)
  ![ab0.1, cd0.1, ab0.2, cd0.2, ab1.1, cd1.1, ab1.2, cd1.2]

/-- `BLAKE2_ROUND2(A0, A1, B0, B1, C0, C1, D0, D1)` of AVX-512F -/
def blake2Round2Avx512f (x : Fin 8 → Lanes 8) : Fin 8 → Lanes 8 :=
  let a := swapQuarters (x 0, x 1)
  let b := swapQuarters (x 2, x 3)
  let c := swapQuarters (x 4, x 5)
  let d := swapQuarters (x 6, x 7)
  let v := blake2RoundAvx512f ⟨a.1, b.1, c.1, d.1, a.2, b.2, c.2, d.2⟩
  let a := unswapQuarters (v.a0, v.a1)
  let b := unswapQuarters (v.b0, v.b1)
  let c := unswapQuarters (v.c0, v.c1)
  let d := unswapQuarters (v.d0, v.d1)
  ![a.1, a.2, b.1, b.2, c.1, c.2, d.1, d.2]

/-! ## the round of sixteen words -/

/-- the words of four columns, and of four diagonals -/
def ofColumns (q : Fin 4 → Quad) : Fin 16 → Word :=
  ![(q 0).a, (q 1).a, (q 2).a, (q 3).a, (q 0).b, (q 1).b, (q 2).b, (q 3).b,
    (q 0).c, (q 1).c, (q 2).c, (q 3).c, (q 0).d, (q 1).d, (q 2).d, (q 3).d]

def ofDiagonals (q : Fin 4 → Quad) : Fin 16 → Word :=
  ![(q 0).a, (q 1).a, (q 2).a, (q 3).a, (q 3).b, (q 0).b, (q 1).b, (q 2).b,
    (q 2).c, (q 3).c, (q 0).c, (q 1).c, (q 1).d, (q 2).d, (q 3).d, (q 0).d]

theorem mix_columns (v : Fin 16 → Word) :
    mix 3 7 11 15 (mix 2 6 10 14 (mix 1 5 9 13 (mix 0 4 8 12 v)))
      = ofColumns fun j => G (Blake2b.column v j) := by
  funext k
  fin_cases k <;> rfl

theorem mix_diagonals (v : Fin 16 → Word) :
    mix 3 4 9 14 (mix 2 7 8 13 (mix 1 6 11 12 (mix 0 5 10 15 v)))
      = ofDiagonals fun j => G (Blake2b.diagonal v j) := by
  funext k
  fin_cases k <;> rfl

theorem blake2RoundNoMsg_eq (v : Fin 16 → Word) : blake2RoundNoMsg v
    = ofDiagonals fun j => G (Blake2b.diagonal (ofColumns fun i => G (Blake2b.column v i)) j) := by
  rw [← mix_columns, ← mix_diagonals]
  rfl

theorem diagonalizeSse2_eq : diagonalizeSse2 = diagonalize := rfl

theorem undiagonalizeSse2_eq : undiagonalizeSse2 = undiagonalize := rfl

/-- the word at a place of eight registers -/
def wordAt {n : Nat} [NeZero n] (x : Fin 8 → Lanes n) (w : Nat) : Word :=
  x (Fin.ofNat 8 (w / n)) (Fin.ofNat n w)

/-- the words of a row in eight registers that hold rows -/
def RowRound {n : Nat} [NeZero n] (round : (Fin 8 → Lanes n) → Fin 8 → Lanes n) : Prop :=
  ∀ x j k, round x j k = blake2RoundNoMsg (fun t => wordAt x (16 * ((n * j + k) / 16) + t))
    (Fin.ofNat 16 (n * j + k))

/-- the words of a column in eight registers that hold a part of each row -/
def ColumnRound {n : Nat} [NeZero n] (round : (Fin 8 → Lanes n) → Fin 8 → Lanes n) : Prop :=
  ∀ x j k, round x j k = blake2RoundNoMsg
    (fun t => x (Fin.ofNat 8 (t / 2)) (Fin.ofNat n (2 * (k / 2) + t % 2)))
    (Fin.ofNat 16 (2 * j + k % 2))

theorem blake2Round_rows (o : Rotations 2) :
    RowRound (blake2Round o diagonalize undiagonalize) := by
  intro x j k
  rw [blake2RoundNoMsg_eq]
  unfold blake2Round
  simp only [Rotations.g2_g1]
  fin_cases j <;> fin_cases k <;> rfl

theorem blake2Round_columns (o : Rotations 2) :
    ColumnRound (blake2Round o diagonalize undiagonalize) := by
  intro x j k
  rw [blake2RoundNoMsg_eq]
  unfold blake2Round
  simp only [Rotations.g2_g1]
  fin_cases j <;> fin_cases k <;> rfl

theorem blake2Round1_rows : RowRound blake2Round1 := by
  intro x j k
  rw [blake2RoundNoMsg_eq]
  unfold blake2Round1
  simp only [Rotations.g2_g1]
  fin_cases j <;> fin_cases k <;> rfl

theorem blend32_eq (x y : Lanes 4) :
    x.blend32 y 0xCC = ![x 0, y 1, x 2, y 3] ∧ x.blend32 y 0x33 = ![y 0, x 1, y 2, x 3] := by
  have hjoin : ∀ w : Word, w.extractLsb' 32 32 ++ w.extractLsb' 0 32 = w := by
    intro w
    apply BitVec.eq_of_getLsbD_eq
    intro i hi
    rw [BitVec.getLsbD_append, BitVec.getLsbD_extractLsb', BitVec.getLsbD_extractLsb']
    by_cases h : i < 32
    · simp [h]
    · rw [if_neg h, decide_eq_true (show i - 32 < 32 by omega), Bool.true_and]
      congr 1
      omega
  refine ⟨funext fun k => ?_, funext fun k => ?_⟩
  · match k with
    | 0 | 1 | 2 | 3 => exact hjoin _
  · match k with
    | 0 | 1 | 2 | 3 => exact hjoin _

theorem blake2Round2_columns : ColumnRound blake2Round2 := by
  intro x j k
  rw [blake2RoundNoMsg_eq]
  unfold blake2Round2 diagonalize2 undiagonalize2
  simp only [Rotations.g2_g1, (blend32_eq _ _).1, (blend32_eq _ _).2]
  fin_cases j <;> fin_cases k <;> rfl

theorem blake2Round1Avx512f_rows : RowRound blake2Round1Avx512f := by
  intro x j k
  rw [blake2RoundNoMsg_eq]
  unfold blake2Round1Avx512f blake2RoundAvx512f
  simp only [Rotations.g2_g1]
  fin_cases j <;> fin_cases k <;> rfl

theorem blake2Round2Avx512f_columns : ColumnRound blake2Round2Avx512f := by
  intro x j k
  rw [blake2RoundNoMsg_eq]
  unfold blake2Round2Avx512f blake2RoundAvx512f
  simp only [Rotations.g2_g1]
  fin_cases j <;> fin_cases k <;> rfl

/-! ## the block in registers -/

/-- an instruction set: eight registers of `n` words at a time, `L` times for a block -/
structure Simd (n L : Nat) [NeZero n] [NeZero L] where
  rowRound : (Fin 8 → Lanes n) → Fin 8 → Lanes n
  columnRound : (Fin 8 → Lanes n) → Fin 8 → Lanes n
  rows : RowRound rowRound
  columns : ColumnRound columnRound
  widths : n = 2 ∧ L = 8 ∨ n = 4 ∧ L = 4 ∨ n = 8 ∧ L = 2

section
variable {n L : Nat} [NeZero n] [NeZero L]

/-- `state` -/
abbrev Registers (n L : Nat) := Fin (8 * L) → Lanes n

def Registers.load (n L : Nat) (b : Block) : Registers n L := fun r k => word b (n * r + k)

def Registers.xor (x y : Registers n L) : Registers n L := fun r => (x r).xor (y r)

def Registers.block (s : Registers n L) : Block :=
  fun w => s (Fin.ofNat (8 * L) (w / n)) (Fin.ofNat n w)

namespace Simd
variable (S : Simd n L)

/-- `BLAKE2_ROUND1(s[8 * i + 0], …, s[8 * i + 7])` -/
def rows1 : Nat → Registers n L → Registers n L :=
  Stride.onClass (fun r : Fin (8 * L) => r / 8)
    fun i s r => S.rowRound (fun t => s (Fin.ofNat (8 * L) (8 * i + t))) (Fin.ofNat 8 r)

/-- `BLAKE2_ROUND2(s[L * 0 + i], …, s[L * 7 + i])` -/
def columns2 : Nat → Registers n L → Registers n L :=
  Stride.onClass (fun r : Fin (8 * L) => r % L)
    fun i s r => S.columnRound (fun t => s (Fin.ofNat (8 * L) (L * t + i))) (Fin.ofNat 8 (r / L))

def rounds (s : Registers n L) : Registers n L :=
  let s := (Stride.upTo S.rows1 1 L (0, s)).2
  (Stride.upTo S.columns2 1 L (0, s)).2

/-- `fill_block`, with what it leaves in `s` and in `next_block` -/
def fillBlock (s : Registers n L) (refBlock nextBlock : Block) (withXor : Bool) :
    Registers n L × Block :=
  let s := s.xor (Registers.load n L refBlock)
  let blockXY := if withXor then s.xor (Registers.load n L nextBlock) else s
  let s := (S.rounds s).xor blockXY
  (s, s.block)

end Simd

/-! ### the rounds of a block -/

theorem word_of_lt (b : Block) {w : Nat} (h : w < 128) : word b w = b ⟨w, h⟩ :=
  congrArg b (Fin.ext (Nat.mod_eq_of_lt h))

theorem upTo_round1 (b : Block) (w : Fin 128) : (Stride.upTo round1 1 8 (0, b)).2 w
    = blake2RoundNoMsg (fun j => word b (16 * (w / 16) + j)) (Fin.ofNat 16 (w % 16)) := by
  refine Stride.upTo_onClass ?_ b (show w.val / 16 < 8 by omega)
  intro i s s' hs k hk
  have hword : ∀ j : Fin 16, word s (16 * i + j) = word s' (16 * i + j) := fun j => by
    rw [word_of_lt _ (by omega), word_of_lt _ (by omega)]
    exact hs _ (show (16 * i + j.val) / 16 = i by omega)
  simp only [hword]

theorem upTo_round2 (b : Block) (w : Fin 128) : (Stride.upTo round2 1 8 (0, b)).2 w
    = blake2RoundNoMsg (fun j => word b (16 * (j / 2) + 2 * (w % 16 / 2) + j % 2))
      (Fin.ofNat 16 (2 * (w / 16) + w % 2)) := by
  refine Stride.upTo_onClass ?_ b (show w.val % 16 / 2 < 8 by omega)
  intro i s s' hs k hk
  have hword : ∀ j : Fin 16, word s (16 * (j / 2) + 2 * i + j % 2)
      = word s' (16 * (j / 2) + 2 * i + j % 2) := fun j => by
    rw [word_of_lt _ (by omega), word_of_lt _ (by omega)]
    exact hs _ (show (16 * (j.val / 2) + 2 * i + j.val % 2) % 16 / 2 = i by omega)
  simp only [hword]

omit [NeZero n] in
theorem reg_of_lt (s : Registers n L) {r : Nat} (h : r < 8 * L) :
    s (Fin.ofNat (8 * L) r) = s ⟨r, h⟩ := congrArg s (Fin.ext (Nat.mod_eq_of_lt h))

namespace Simd
variable (S : Simd n L)

theorem upTo_rows1 (s : Registers n L) (r : Fin (8 * L)) :
    (Stride.upTo S.rows1 1 L (0, s)).2 r
      = S.rowRound (fun t => s (Fin.ofNat (8 * L) (8 * (r / 8) + t))) (Fin.ofNat 8 r) := by
  refine Stride.upTo_onClass ?_ s (show r.val / 8 < L by omega)
  intro i s s' hs k hk
  have hreg : ∀ t : Fin 8, s (Fin.ofNat (8 * L) (8 * i + t)) = s' (Fin.ofNat (8 * L) (8 * i + t)) :=
    fun t => by
      rw [reg_of_lt s (by omega), reg_of_lt s' (by omega)]
      exact hs _ (show (8 * i + t.val) / 8 = i by omega)
  simp only [hreg]

theorem upTo_columns2 (s : Registers n L) (r : Fin (8 * L)) :
    (Stride.upTo S.columns2 1 L (0, s)).2 r
      = S.columnRound (fun t => s (Fin.ofNat (8 * L) (L * t + r % L))) (Fin.ofNat 8 (r / L)) := by
  have hL := NeZero.pos L
  refine Stride.upTo_onClass ?_ s (Nat.mod_lt _ hL)
  intro i s s' hs k hk
  have hreg : ∀ t : Fin 8, s (Fin.ofNat (8 * L) (L * t + i)) = s' (Fin.ofNat (8 * L) (L * t + i)) :=
    fun t => by
      have hi : i < L := hk ▸ Nat.mod_lt _ hL
      have hlt : L * t + i < 8 * L :=
        calc L * t + i < L * (t + 1) := by rw [Nat.mul_succ]; omega
          _ ≤ L * 8 := Nat.mul_le_mul_left _ t.isLt
          _ = 8 * L := Nat.mul_comm ..
      rw [reg_of_lt s hlt, reg_of_lt s' hlt]
      exact hs _ (show (L * t.val + i) % L = i by rw [Nat.mul_add_mod, Nat.mod_eq_of_lt hi])
  simp only [hreg]

end Simd

theorem reg_congr (s : Registers n L) {r r' k k' : Nat} (hr : r % (8 * L) = r' % (8 * L))
    (hk : k % n = k' % n) :
    s (Fin.ofNat (8 * L) r) (Fin.ofNat n k) = s (Fin.ofNat (8 * L) r') (Fin.ofNat n k') :=
  congrArg₂ (fun r k => s r k) (Fin.ext hr) (Fin.ext hk)

namespace Simd
variable (S : Simd n L)

theorem rows_block (s : Registers n L) :
    Registers.block (Stride.upTo S.rows1 1 L (0, s)).2
      = (Stride.upTo round1 1 8 (0, s.block)).2 := by
  funext w
  have hw := w.isLt
  rw [upTo_round1]
  show (Stride.upTo S.rows1 1 L (0, s)).2 (Fin.ofNat (8 * L) (w / n)) (Fin.ofNat n w) = _
  rw [upTo_rows1, S.rows]
  rcases S.widths with ⟨rfl, rfl⟩ | ⟨rfl, rfl⟩ | ⟨rfl, rfl⟩ <;>
  · congr 1
    · funext t
      have ht := t.isLt
      refine reg_congr s ?_ ?_ <;> simp only [Fin.val_ofNat] <;> omega
    · apply Fin.ext
      simp only [Fin.val_ofNat]
      omega

theorem columns_block (s : Registers n L) :
    Registers.block (Stride.upTo S.columns2 1 L (0, s)).2
      = (Stride.upTo round2 1 8 (0, s.block)).2 := by
  funext w
  have hw := w.isLt
  rw [upTo_round2]
  show (Stride.upTo S.columns2 1 L (0, s)).2 (Fin.ofNat (8 * L) (w / n)) (Fin.ofNat n w) = _
  rw [upTo_columns2, S.columns]
  have hrow : w.val / n / L = w / 16 := by
    rcases S.widths with ⟨rfl, rfl⟩ | ⟨rfl, rfl⟩ | ⟨rfl, rfl⟩ <;> omega
  have hreg : w.val / n < 8 * L := by
    rcases S.widths with ⟨rfl, rfl⟩ | ⟨rfl, rfl⟩ | ⟨rfl, rfl⟩ <;> omega
  simp only [Fin.val_ofNat, Nat.mod_eq_of_lt hreg, hrow]
  congr 1
  · funext t
    have ht := t.isLt
    have hpair : t.val / 2 < 8 := by omega
    rcases S.widths with ⟨rfl, rfl⟩ | ⟨rfl, rfl⟩ | ⟨rfl, rfl⟩ <;>
      refine reg_congr s ?_ ?_ <;> simp only [Fin.val_ofNat, Nat.mod_eq_of_lt hpair] <;> omega
  · apply Fin.ext
    simp only [Fin.val_ofNat]
    rcases S.widths with ⟨rfl, rfl⟩ | ⟨rfl, rfl⟩ | ⟨rfl, rfl⟩ <;> omega

theorem rounds_block (s : Registers n L) : (S.rounds s).block = Argon2.rounds s.block := by
  unfold rounds Argon2.rounds
  dsimp only
  rw [columns_block, rows_block]

end Simd

theorem block_load (S : Simd n L) (b : Block) : (Registers.load n L b).block = b := by
  funext w
  have hw := w.isLt
  refine congrArg b (Fin.ext ?_)
  rcases S.widths with ⟨rfl, rfl⟩ | ⟨rfl, rfl⟩ | ⟨rfl, rfl⟩ <;> simp only [Fin.val_ofNat] <;>
    omega

theorem block_xor (x y : Registers n L) : (x.xor y).block = x.block.xor y.block := rfl

/-- **The vector code makes the block of the portable code, and keeps it in its registers.** -/
theorem Simd.fillBlock_eq (S : Simd n L) (s : Registers n L) (refBlock nextBlock : Block)
    (withXor : Bool) : (S.fillBlock s refBlock nextBlock withXor).1.block
        = Argon2.fillBlock s.block refBlock nextBlock withXor ∧
      (S.fillBlock s refBlock nextBlock withXor).2
        = Argon2.fillBlock s.block refBlock nextBlock withXor := by
  have hxor : ∀ x y : Block, x.xor y = y.xor x := fun x y => funext fun k => BitVec.xor_comm _ _
  have hload := block_load S
  have hblock : (S.fillBlock s refBlock nextBlock withXor).1.block
      = Argon2.fillBlock s.block refBlock nextBlock withXor := by
    unfold fillBlock Argon2.fillBlock
    dsimp only
    rw [block_xor, S.rounds_block, block_xor, hload, hxor s.block]
    cases withXor
    · simp only [Bool.false_eq_true, if_false, block_xor, hload, hxor]
    · simp only [if_true, block_xor, hload, hxor]
  exact ⟨hblock, hblock⟩

end

namespace Simd

/-- the five instruction sets -/
def sse2 : Simd 2 8 where
  rowRound := blake2Round Argon2.sse2 diagonalizeSse2 undiagonalizeSse2
  columnRound := blake2Round Argon2.sse2 diagonalizeSse2 undiagonalizeSse2
  rows := by
    rw [diagonalizeSse2_eq, undiagonalizeSse2_eq]
    exact blake2Round_rows Argon2.sse2
  columns := by
    rw [diagonalizeSse2_eq, undiagonalizeSse2_eq]
    exact blake2Round_columns Argon2.sse2
  widths := by decide

def ssse3 : Simd 2 8 where
  rowRound := blake2Round Argon2.ssse3 diagonalize undiagonalize
  columnRound := blake2Round Argon2.ssse3 diagonalize undiagonalize
  rows := blake2Round_rows Argon2.ssse3
  columns := blake2Round_columns Argon2.ssse3
  widths := by decide

def xop : Simd 2 8 where
  rowRound := blake2Round Argon2.xop diagonalize undiagonalize
  columnRound := blake2Round Argon2.xop diagonalize undiagonalize
  rows := blake2Round_rows Argon2.xop
  columns := blake2Round_columns Argon2.xop
  widths := by decide

def avx2 : Simd 4 4 where
  rowRound := blake2Round1
  columnRound := blake2Round2
  rows := blake2Round1_rows
  columns := blake2Round2_columns
  widths := by decide

def avx512f : Simd 8 2 where
  rowRound := blake2Round1Avx512f
  columnRound := blake2Round2Avx512f
  rows := blake2Round1Avx512f_rows
  columns := blake2Round2Avx512f_columns
  widths := by decide

end Simd
end Argon2
end Randx
