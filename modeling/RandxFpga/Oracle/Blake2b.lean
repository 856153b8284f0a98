import Mathlib.Data.Fin.VecNotation
import RandxFpga.Oracle.Splice

/-!
# The compression functions of BLAKE2b (`blake2b.c`, `blake2b_sse41.c`, `blake2b-round.h`)

`compressInteger` mixes sixteen words one quadruple after the other, `compressSse41` four quadruples
at a time: the words are rows of four, which are rotated against each other to mix the diagonals.

* `compressSse41_eq`  the vector code computes what the portable code computes.
-/

namespace Randx
namespace Blake2b

/-! ## the portable compression -/

/-- the counter and the flags -/
scoped instance neZero_two : NeZero 2 := ⟨by decide⟩

/-- `blake2b_IV` -/
def iv : Fin 8 → Word :=
  ![0x6a09e667f3bcc908, 0xbb67ae8584caa73b, 0x3c6ef372fe94f82b, 0xa54ff53a5f1d36f1,
    0x510e527fade682d1, 0x9b05688c2b3e6c1f, 0x1f83d9abfb41bd6b, 0x5be0cd19137e2179]

/-- `blake2b_sigma` -/
def sigma : Fin 12 → Fin 16 → Fin 16 :=
  ![![0, 1, 2, 3, 4, 5, 6, 7, 8, 9, 10, 11, 12, 13, 14, 15],
    ![14, 10, 4, 8, 9, 15, 13, 6, 1, 12, 0, 2, 11, 7, 5, 3],
    ![11, 8, 12, 0, 5, 2, 15, 13, 10, 14, 3, 6, 7, 1, 9, 4],
    ![7, 9, 3, 1, 13, 12, 11, 14, 2, 6, 5, 10, 4, 0, 15, 8],
    ![9, 0, 5, 7, 2, 4, 10, 15, 14, 1, 11, 12, 6, 8, 3, 13],
    ![2, 12, 6, 10, 0, 11, 8, 3, 4, 13, 7, 5, 15, 14, 1, 9],
    ![12, 5, 1, 15, 14, 13, 4, 10, 0, 7, 6, 3, 9, 2, 8, 11],
    ![13, 11, 7, 14, 12, 1, 3, 9, 5, 0, 15, 4, 8, 6, 2, 10],
    ![6, 15, 14, 9, 11, 3, 0, 8, 12, 2, 13, 7, 1, 4, 10, 5],
    ![10, 2, 8, 4, 7, 6, 1, 5, 15, 11, 9, 14, 3, 12, 13, 0],
    ![0, 1, 2, 3, 4, 5, 6, 7, 8, 9, 10, 11, 12, 13, 14, 15],
    ![14, 10, 4, 8, 9, 15, 13, 6, 1, 12, 0, 2, 11, 7, 5, 3]]

def rotr64 (w : Word) (c : Nat) : Word := (w >>> c) ||| (w <<< (64 - c))

/-- the four words that `G` mixes -/
structure Quad where
  a : Word
  b : Word
  c : Word
  d : Word

/-- the first half of `G`, with its rotations -/
def half (r s : Nat) (x : Word) (q : Quad) : Quad :=
  let a := q.a + q.b + x
  let d := rotr64 (q.d ^^^ a) r
  let c := q.c + d
  let b := rotr64 (q.b ^^^ c) s
  ⟨a, b, c, d⟩

def G (x y : Word) (q : Quad) : Quad := half 16 63 y (half 32 24 x q)

/-- `G(r, i, v[a], v[b], v[c], v[d])` with its two words of the message -/
def mix (x y : Word) (a b c d : Fin 16) (v : Fin 16 → Word) : Fin 16 → Word :=
  let q := G x y ⟨v a, v b, v c, v d⟩
  fun k => if k = a then q.a else if k = b then q.b else if k = c then q.c
    else if k = d then q.d else v k

/-- `ROUND(r)` -/
def round (m : Fin 16 → Word) (s : Fin 16 → Fin 16) (v : Fin 16 → Word) : Fin 16 → Word :=
  let v := mix (m (s 0)) (m (s 1)) 0 4 8 12 v
  let v := mix (m (s 2)) (m (s 3)) 1 5 9 13 v
  let v := mix (m (s 4)) (m (s 5)) 2 6 10 14 v
  let v := mix (m (s 6)) (m (s 7)) 3 7 11 15 v
  let v := mix (m (s 8)) (m (s 9)) 0 5 10 15 v
  let v := mix (m (s 10)) (m (s 11)) 1 6 11 12 v
  let v := mix (m (s 12)) (m (s 13)) 2 7 8 13 v
  mix (m (s 14)) (m (s 15)) 3 4 9 14 v

/-- what the compression reads besides the block -/
structure Chain where
  h : Fin 8 → Word
  t : Fin 2 → Word
  f : Fin 2 → Word

/-- `v` in front of the rounds -/
def initV (s : Chain) : Fin 16 → Word :=
  ![s.h 0, s.h 1, s.h 2, s.h 3, s.h 4, s.h 5, s.h 6, s.h 7, iv 0, iv 1, iv 2, iv 3,
    iv 4 ^^^ s.t 0, iv 5 ^^^ s.t 1, iv 6 ^^^ s.f 0, iv 7 ^^^ s.f 1]

/-- `rx_blake2b_compress_integer` -/
def compressInteger (s : Chain) (m : Fin 16 → Word) : Fin 8 → Word :=
  let v := (List.finRange 12).foldl (fun v r => round m (sigma r) v) (initV s)
  fun i => s.h i ^^^ v (Fin.castAdd 8 i) ^^^ v (Fin.natAdd 8 i)

/-! ## the vector compression -/

/-- `blake2b_sigma_sse41` -/
def sigmaSse41 : Fin 12 → Fin 16 → Fin 16 :=
  ![![0, 2, 4, 6, 1, 3, 5, 7, 8, 10, 12, 14, 9, 11, 13, 15],
    ![14, 4, 9, 13, 10, 8, 15, 6, 1, 0, 11, 5, 12, 2, 7, 3],
    ![11, 12, 5, 15, 8, 0, 2, 13, 10, 3, 7, 9, 14, 6, 1, 4],
    ![7, 3, 13, 11, 9, 1, 12, 14, 2, 5, 4, 15, 6, 10, 0, 8],
    ![9, 5, 2, 10, 0, 7, 4, 15, 14, 11, 6, 3, 1, 12, 8, 13],
    ![2, 6, 0, 8, 12, 10, 11, 3, 4, 7, 15, 1, 13, 5, 14, 9],
    ![12, 1, 14, 4, 5, 15, 13, 10, 0, 6, 9, 8, 7, 3, 2, 11],
    ![13, 7, 12, 3, 11, 14, 1, 9, 5, 15, 8, 2, 0, 4, 6, 10],
    ![6, 14, 11, 0, 15, 9, 3, 8, 12, 13, 1, 10, 2, 7, 4, 5],
    ![10, 8, 7, 1, 2, 4, 6, 5, 15, 9, 3, 13, 11, 14, 12, 0],
    ![0, 2, 4, 6, 1, 3, 5, 7, 8, 10, 12, 14, 9, 11, 13, 15],
    ![14, 4, 9, 13, 10, 8, 15, 6, 1, 0, 11, 5, 12, 2, 7, 3]]

/-- `__m128i` as two lanes of 64 bits -/
structure M128 where
  lo : Word
  hi : Word
  deriving DecidableEq

namespace M128

/-- `_mm_add_epi64`, `_mm_xor_si128` -/
def add (x y : M128) : M128 := ⟨x.lo + y.lo, x.hi + y.hi⟩

def xor (x y : M128) : M128 := ⟨x.lo ^^^ y.lo, x.hi ^^^ y.hi⟩

/-- `_mm_shuffle_epi32(x, _MM_SHUFFLE(2,3,0,1))`: the halves of each lane change places -/
def swap32 (x : M128) : M128 :=
  ⟨x.lo.extractLsb' 0 32 ++ x.lo.extractLsb' 32 32, x.hi.extractLsb' 0 32 ++ x.hi.extractLsb' 32 32⟩

/-- the byte at a position -/
def byte (x : M128) (k : Nat) : Byte := if k < 8 then byteOf x.lo k else byteOf x.hi (k - 8)

/-- the word of eight bytes, the lowest one first -/
def join (b : Nat → Byte) : Word := b 7 ++ b 6 ++ b 5 ++ b 4 ++ b 3 ++ b 2 ++ b 1 ++ b 0

/-- `_mm_shuffle_epi8`, with no index above 15 -/
def shuffle8 (x : M128) (r : Fin 16 → Nat) : M128 :=
  ⟨join fun k => x.byte (r (Fin.ofNat 16 k)), join fun k => x.byte (r (Fin.ofNat 16 (8 + k)))⟩

/-- `_mm_srli_epi64` -/
def srli (x : M128) (c : Nat) : M128 := ⟨x.lo >>> c, x.hi >>> c⟩

def slli (x : M128) (c : Nat) : M128 := ⟨x.lo <<< c, x.hi <<< c⟩

/-- `_mm_alignr_epi8(x, y, 8)`: the upper lane of `y`, then the lower one of `x` -/
def alignr8 (x y : M128) : M128 := ⟨y.hi, x.lo⟩

end M128

def r16 : Fin 16 → Nat := ![2, 3, 4, 5, 6, 7, 0, 1, 10, 11, 12, 13, 14, 15, 8, 9]

def r24 : Fin 16 → Nat := ![3, 4, 5, 6, 7, 0, 1, 2, 11, 12, 13, 14, 15, 8, 9, 10]

/-- `_mm_roti_epi64(x, -c)` -/
def roti (x : M128) (c : Nat) : M128 :=
  if c = 32 then x.swap32
  else if c = 24 then x.shuffle8 r24
  else if c = 16 then x.shuffle8 r16
  else if c = 63 then (x.srli 63).xor (x.add x)
  else (x.srli c).xor (x.slli (64 - c))

/-- `row1l` to `row4h` -/
structure Rows where
  row1l : M128
  row1h : M128
  row2l : M128
  row2h : M128
  row3l : M128
  row3h : M128
  row4l : M128
  row4h : M128

/-- `G1` for the rotations 32 and 24, `G2` for 16 and 63 -/
def vectorHalf (r s : Nat) (b0 b1 : M128) (v : Rows) : Rows :=
  let row1l := (v.row1l.add b0).add v.row2l
  let row1h := (v.row1h.add b1).add v.row2h
  let row4l := roti (v.row4l.xor row1l) r
  let row4h := roti (v.row4h.xor row1h) r
  let row3l := v.row3l.add row4l
  let row3h := v.row3h.add row4h
  let row2l := roti (v.row2l.xor row3l) s
  let row2h := roti (v.row2h.xor row3h) s
  ⟨row1l, row1h, row2l, row2h, row3l, row3h, row4l, row4h⟩

/-- `DIAGONALIZE` -/
def diagonalize (v : Rows) : Rows :=
  { v with
    row2l := v.row2h.alignr8 v.row2l
    row2h := v.row2l.alignr8 v.row2h
    row3l := v.row3h
    row3h := v.row3l
    row4l := v.row4l.alignr8 v.row4h
    row4h := v.row4h.alignr8 v.row4l }

/-- `UNDIAGONALIZE` -/
def undiagonalize (v : Rows) : Rows :=
  { v with
    row2l := v.row2l.alignr8 v.row2h
    row2h := v.row2h.alignr8 v.row2l
    row3l := v.row3h
    row3h := v.row3l
    row4l := v.row4h.alignr8 v.row4l
    row4h := v.row4l.alignr8 v.row4h }

/-- `LOAD_MSG(r, i, b0, b1)` -/
def loadMsg (m : Fin 16 → Word) (s : Fin 16 → Fin 16) (i : Fin 4) : M128 × M128 :=
  let k := fun j => m (s (Fin.ofNat 16 (i * 4 + j)))
  (⟨k 0, k 1⟩, ⟨k 2, k 3⟩)

def vectorRound (m : Fin 16 → Word) (s : Fin 16 → Fin 16) (v : Rows) : Rows :=
  let v := vectorHalf 32 24 (loadMsg m s 0).1 (loadMsg m s 0).2 v
  let v := vectorHalf 16 63 (loadMsg m s 1).1 (loadMsg m s 1).2 v
  let v := diagonalize v
  let v := vectorHalf 32 24 (loadMsg m s 2).1 (loadMsg m s 2).2 v
  let v := vectorHalf 16 63 (loadMsg m s 3).1 (loadMsg m s 3).2 v
  undiagonalize v

/-- the rows of sixteen words -/
def rows (v : Fin 16 → Word) : Rows :=
  ⟨⟨v 0, v 1⟩, ⟨v 2, v 3⟩, ⟨v 4, v 5⟩, ⟨v 6, v 7⟩, ⟨v 8, v 9⟩, ⟨v 10, v 11⟩, ⟨v 12, v 13⟩,
    ⟨v 14, v 15⟩⟩

/-- `rx_blake2b_compress_sse41` -/
def compressSse41 (s : Chain) (m : Fin 16 → Word) : Fin 8 → Word :=
  let v : Rows :=
    ⟨⟨s.h 0, s.h 1⟩, ⟨s.h 2, s.h 3⟩, ⟨s.h 4, s.h 5⟩, ⟨s.h 6, s.h 7⟩, ⟨iv 0, iv 1⟩, ⟨iv 2, iv 3⟩,
      M128.xor ⟨iv 4, iv 5⟩ ⟨s.t 0, s.t 1⟩, M128.xor ⟨iv 6, iv 7⟩ ⟨s.f 0, s.f 1⟩⟩
  let v := (List.finRange 12).foldl (fun v r => vectorRound m (sigmaSse41 r) v) v
  let h0 := M128.xor ⟨s.h 0, s.h 1⟩ (v.row3l.xor v.row1l)
  let h2 := M128.xor ⟨s.h 2, s.h 3⟩ (v.row3h.xor v.row1h)
  let h4 := M128.xor ⟨s.h 4, s.h 5⟩ (v.row4l.xor v.row2l)
  let h6 := M128.xor ⟨s.h 6, s.h 7⟩ (v.row4h.xor v.row2h)
  ![h0.lo, h0.hi, h2.lo, h2.hi, h4.lo, h4.hi, h6.lo, h6.hi]

/-! ### the rotations -/

theorem getLsbD_rotr64 (w : Word) {c i : Nat} (hc : c ≤ 64) (hi : i < 64) :
    (rotr64 w c).getLsbD i = w.getLsbD ((i + c) % 64) := by
  unfold rotr64
  rw [BitVec.getLsbD_or, BitVec.getLsbD_ushiftRight, BitVec.getLsbD_shiftLeft]
  by_cases h : i < 64 - c
  · rw [Nat.mod_eq_of_lt (by omega), Nat.add_comm]
    simp [h]
  · rw [BitVec.getLsbD_of_ge w (c + i) (by omega), show (i + c) % 64 = i - (64 - c) by omega]
    simp [h, hi]

theorem getLsbD_join (b : Nat → Byte) {i : Nat} (hi : i < 64) :
    (M128.join b).getLsbD i = (b (i / 8)).getLsbD (i % 8) := by
  have h := byteOf_load64 b 0 (k := i / 8) (by omega)
  rw [Nat.zero_add] at h
  rw [← h, byteOf, BitVec.getLsbD_extractLsb', decide_eq_true (Nat.mod_lt _ (by omega)),
    Bool.true_and, show 8 * (i / 8) + i % 8 = i by omega]
  rfl

theorem getLsbD_byteOf (w : Word) (k : Nat) {j : Nat} (hj : j < 8) :
    (byteOf w k).getLsbD j = w.getLsbD (8 * k + j) := by
  rw [byteOf, BitVec.getLsbD_extractLsb', decide_eq_true hj, Bool.true_and]

/-- a shuffle that rotates the bytes of each lane by `n` -/
theorem shuffle8_eq (x : M128) (r : Fin 16 → Nat) (n : Nat) (hn : n ≤ 8)
    (hr : ∀ k < 8, r (Fin.ofNat 16 k) = (k + n) % 8 ∧ r (Fin.ofNat 16 (8 + k)) = 8 + (k + n) % 8) :
    x.shuffle8 r = ⟨rotr64 x.lo (8 * n), rotr64 x.hi (8 * n)⟩ := by
  have hlane : ∀ (w : Word) (b : Nat → Byte), (∀ k < 8, b k = byteOf w ((k + n) % 8)) →
      M128.join b = rotr64 w (8 * n) := by
    intro w b hb
    apply BitVec.eq_of_getLsbD_eq
    intro i hi
    rw [getLsbD_join b hi, hb _ (by omega), getLsbD_byteOf w _ (Nat.mod_lt _ (by omega)),
      getLsbD_rotr64 w (by omega) hi]
    congr 1
    omega
  unfold M128.shuffle8
  rw [hlane x.lo _ fun k hk => ?_, hlane x.hi _ fun k hk => ?_]
  · rw [(hr k hk).2, M128.byte, if_neg (by omega), Nat.add_sub_cancel_left]
  · rw [(hr k hk).1, M128.byte, if_pos (Nat.mod_lt _ (by omega))]

theorem roti_32 (x : M128) : roti x 32 = ⟨rotr64 x.lo 32, rotr64 x.hi 32⟩ := by
  have hlane : ∀ w : Word, w.extractLsb' 0 32 ++ w.extractLsb' 32 32 = rotr64 w 32 := by
    intro w
    apply BitVec.eq_of_getLsbD_eq
    intro i hi
    rw [getLsbD_rotr64 w (by omega) hi, BitVec.getLsbD_append, BitVec.getLsbD_extractLsb',
      BitVec.getLsbD_extractLsb']
    by_cases h : i < 32
    · rw [Nat.mod_eq_of_lt (by omega), Nat.add_comm i]
      simp [h]
    · rw [show (i + 32) % 64 = i - 32 by omega]
      simp [h, show i - 32 < 32 by omega]
  exact (M128.mk.injEq ..).mpr ⟨hlane x.lo, hlane x.hi⟩

theorem roti_24 (x : M128) : roti x 24 = ⟨rotr64 x.lo 24, rotr64 x.hi 24⟩ :=
  shuffle8_eq x r24 3 (by omega) (by decide)

theorem roti_16 (x : M128) : roti x 16 = ⟨rotr64 x.lo 16, rotr64 x.hi 16⟩ :=
  shuffle8_eq x r16 2 (by omega) (by decide)

theorem roti_63 (x : M128) : roti x 63 = ⟨rotr64 x.lo 63, rotr64 x.hi 63⟩ := by
  have hlane : ∀ w : Word, (w >>> 63) ^^^ (w + w) = rotr64 w 63 := by
    intro w
    apply BitVec.eq_of_getLsbD_eq
    intro i hi
    rw [show w + w = w <<< 1 by
        apply BitVec.eq_of_toNat_eq
        rw [BitVec.toNat_add, BitVec.toNat_shiftLeft, Nat.shiftLeft_eq]
        omega,
      getLsbD_rotr64 w (by omega) hi, BitVec.getLsbD_xor, BitVec.getLsbD_ushiftRight,
      BitVec.getLsbD_shiftLeft]
    by_cases h : i < 1
    · obtain rfl : i = 0 := by omega
      simp
    · rw [BitVec.getLsbD_of_ge w (63 + i) (by omega), show (i + 63) % 64 = i - 1 by omega]
      simp [h, hi]
  exact (M128.mk.injEq ..).mpr ⟨hlane x.lo, hlane x.hi⟩

/-! ### the rounds -/

/-- the rows of four columns -/
def ofCols (q : Fin 4 → Quad) : Rows :=
  ⟨⟨(q 0).a, (q 1).a⟩, ⟨(q 2).a, (q 3).a⟩, ⟨(q 0).b, (q 1).b⟩, ⟨(q 2).b, (q 3).b⟩,
    ⟨(q 0).c, (q 1).c⟩, ⟨(q 2).c, (q 3).c⟩, ⟨(q 0).d, (q 1).d⟩, ⟨(q 2).d, (q 3).d⟩⟩

theorem vectorHalf_ofCols {r s : Nat} (hr : ∀ x, roti x r = ⟨rotr64 x.lo r, rotr64 x.hi r⟩)
    (hs : ∀ x, roti x s = ⟨rotr64 x.lo s, rotr64 x.hi s⟩) (b : Fin 4 → Word) (q : Fin 4 → Quad) :
    vectorHalf r s ⟨b 0, b 1⟩ ⟨b 2, b 3⟩ (ofCols q) = ofCols fun j => half r s (b j) (q j) := by
  have hq : ∀ j, half r s (b j) (q j)
      = (let a := (q j).a + b j + (q j).b
        let d := rotr64 ((q j).d ^^^ a) r
        let c := (q j).c + d
        ⟨a, rotr64 ((q j).b ^^^ c) s, c, d⟩) := fun j => by
    unfold half
    rw [BitVec.add_assoc, BitVec.add_comm (q j).b, ← BitVec.add_assoc]
  unfold vectorHalf
  simp only [hr, hs, hq]
  rfl

theorem vectorHalf_vectorHalf (x y : Fin 4 → Word) (q : Fin 4 → Quad) :
    vectorHalf 16 63 ⟨y 0, y 1⟩ ⟨y 2, y 3⟩ (vectorHalf 32 24 ⟨x 0, x 1⟩ ⟨x 2, x 3⟩ (ofCols q))
      = ofCols fun j => G (x j) (y j) (q j) := by
  rw [vectorHalf_ofCols roti_32 roti_24, vectorHalf_ofCols roti_16 roti_63]
  rfl

def column (v : Fin 16 → Word) : Fin 4 → Quad :=
  ![⟨v 0, v 4, v 8, v 12⟩, ⟨v 1, v 5, v 9, v 13⟩, ⟨v 2, v 6, v 10, v 14⟩, ⟨v 3, v 7, v 11, v 15⟩]

def diagonal (v : Fin 16 → Word) : Fin 4 → Quad :=
  ![⟨v 0, v 5, v 10, v 15⟩, ⟨v 1, v 6, v 11, v 12⟩, ⟨v 2, v 7, v 8, v 13⟩, ⟨v 3, v 4, v 9, v 14⟩]

/-- the first four `G` of a round, and the other four -/
def mixColumns (x y : Fin 4 → Word) (v : Fin 16 → Word) : Fin 16 → Word :=
  mix (x 3) (y 3) 3 7 11 15 (mix (x 2) (y 2) 2 6 10 14 (mix (x 1) (y 1) 1 5 9 13
    (mix (x 0) (y 0) 0 4 8 12 v)))

def mixDiagonals (x y : Fin 4 → Word) (v : Fin 16 → Word) : Fin 16 → Word :=
  mix (x 3) (y 3) 3 4 9 14 (mix (x 2) (y 2) 2 7 8 13 (mix (x 1) (y 1) 1 6 11 12
    (mix (x 0) (y 0) 0 5 10 15 v)))

theorem rows_mixColumns (x y : Fin 4 → Word) (v : Fin 16 → Word) :
    rows (mixColumns x y v) = ofCols fun j => G (x j) (y j) (column v j) := rfl

theorem rows_mixDiagonals (x y : Fin 4 → Word) (v : Fin 16 → Word) :
    rows (mixDiagonals x y v)
      = undiagonalize (ofCols fun j => G (x j) (y j) (diagonal v j)) := rfl

theorem diagonalize_rows (v : Fin 16 → Word) : diagonalize (rows v) = ofCols (diagonal v) := rfl

/-- the words of the message in the order of the vector code -/
theorem sigmaSse41_eq (r : Fin 12) (j : Fin 4) :
    sigmaSse41 r (Fin.ofNat 16 (0 * 4 + j)) = sigma r (Fin.ofNat 16 (2 * j)) ∧
      sigmaSse41 r (Fin.ofNat 16 (1 * 4 + j)) = sigma r (Fin.ofNat 16 (2 * j + 1)) ∧
      sigmaSse41 r (Fin.ofNat 16 (2 * 4 + j)) = sigma r (Fin.ofNat 16 (8 + 2 * j)) ∧
      sigmaSse41 r (Fin.ofNat 16 (3 * 4 + j)) = sigma r (Fin.ofNat 16 (8 + 2 * j + 1)) := by
  revert r j
  decide

theorem vectorRound_rows (m : Fin 16 → Word) (r : Fin 12) (v : Fin 16 → Word) :
    vectorRound m (sigmaSse41 r) (rows v) = rows (round m (sigma r) v) := by
  let word := fun (k : Nat) (j : Fin 4) => m (sigma r (Fin.ofNat 16 (k + 2 * j)))
  have hmsg : ∀ i k, (∀ j : Fin 4, sigmaSse41 r (Fin.ofNat 16 (i.val * 4 + j))
        = sigma r (Fin.ofNat 16 (k + 2 * j))) →
      loadMsg m (sigmaSse41 r) i = (⟨word k 0, word k 1⟩, ⟨word k 2, word k 3⟩) := by
    intro i k h
    have hword := fun j : Fin 4 => congrArg m (h j)
    exact Prod.ext ((M128.mk.injEq ..).mpr ⟨hword 0, hword 1⟩)
      ((M128.mk.injEq ..).mpr ⟨hword 2, hword 3⟩)
  have h0 := hmsg 0 0 fun j => by rw [Nat.zero_add]; exact (sigmaSse41_eq r j).1
  have h1 := hmsg 1 1 fun j => by rw [Nat.add_comm 1]; exact (sigmaSse41_eq r j).2.1
  have h2 := hmsg 2 8 fun j => (sigmaSse41_eq r j).2.2.1
  have h3 := hmsg 3 9 fun j => by
    rw [show 9 + 2 * j.val = 8 + 2 * j.val + 1 by omega]
    exact (sigmaSse41_eq r j).2.2.2
  have hround : round m (sigma r) v
      = mixDiagonals (word 8) (word 9) (mixColumns (word 0) (word 1) v) := rfl
  unfold vectorRound
  rw [h0, h1, h2, h3, hround, rows_mixDiagonals]
  show undiagonalize (vectorHalf 16 63 ⟨word 9 0, word 9 1⟩ ⟨word 9 2, word 9 3⟩
    (vectorHalf 32 24 ⟨word 8 0, word 8 1⟩ ⟨word 8 2, word 8 3⟩ (diagonalize
      (vectorHalf 16 63 ⟨word 1 0, word 1 1⟩ ⟨word 1 2, word 1 3⟩
        (vectorHalf 32 24 ⟨word 0 0, word 0 1⟩ ⟨word 0 2, word 0 3⟩ (ofCols (column v))))))) = _
  rw [vectorHalf_vectorHalf, ← rows_mixColumns, diagonalize_rows, vectorHalf_vectorHalf]

/-- **The vector code computes the same chain value.** -/
theorem compressSse41_eq (s : Chain) (m : Fin 16 → Word) :
    compressSse41 s m = compressInteger s m := by
  have hfold : ∀ (l : List (Fin 12)) (v : Fin 16 → Word),
      l.foldl (fun v r => vectorRound m (sigmaSse41 r) v) (rows v)
        = rows (l.foldl (fun v r => round m (sigma r) v) v) := by
    intro l
    induction l with
    | nil => exact fun v => rfl
    | cons r l ih =>
      intro v
      rw [List.foldl_cons, List.foldl_cons, vectorRound_rows, ih]
  have hv := hfold (List.finRange 12) (initV s)
  have hxor : ∀ x y z : Word, x ^^^ (z ^^^ y) = x ^^^ y ^^^ z := fun x y z => by
    rw [BitVec.xor_comm z y, BitVec.xor_assoc]
  have hrows : (⟨⟨s.h 0, s.h 1⟩, ⟨s.h 2, s.h 3⟩, ⟨s.h 4, s.h 5⟩, ⟨s.h 6, s.h 7⟩, ⟨iv 0, iv 1⟩,
    ⟨iv 2, iv 3⟩, M128.xor ⟨iv 4, iv 5⟩ ⟨s.t 0, s.t 1⟩,
    M128.xor ⟨iv 6, iv 7⟩ ⟨s.f 0, s.f 1⟩⟩ : Rows) = rows (initV s) := rfl
  unfold compressSse41
  dsimp only
  rw [hrows, hv]
  funext i
  match i with
  | 0 | 1 | 2 | 3 | 4 | 5 | 6 | 7 => exact hxor _ _ _

end Blake2b
end Randx
