import Mathlib.Data.BitVec
import Mathlib.Tactic.Ring

/-!
# Words of the oracle (`intrin_portable.h`, `instructions_portable.cpp`, `endian.h`)

* `mulh`, `smulh`                 the `__int128` versions of the high product halves;
* `mulhPortable`, `smulhPortable`   the versions built from 32-bit partial products, equal to them
                                  (`mulhPortable_eq`, `smulhPortable_eq`);
* `rotr64`, `rotl64`              rotations for amounts below `64`;
* `load64`, `store64`             little-endian words of a byte memory, with the two
                                  read-over-write laws `load64_store64`, `load64_store64_of_disjoint`.
-/

namespace Randx

abbrev Word := BitVec 64

def signExtend2sCompl (x : BitVec 32) : Word := x.signExtend 64

/-! ## high halves of products -/

/-- `((uint128_t)a * b) >> 64` -/
def mulh (a b : Word) : Word := ((a.setWidth 128 * b.setWidth 128) >>> 64).setWidth 64

/-- `((int128_t)a * b) >> 64` -/
def smulh (a b : Word) : Word :=
  ((a.signExtend 128 * b.signExtend 128).sshiftRight 64).setWidth 64

def lo32 (x : Word) : Word := x &&& 0xffffffff#64

def hi32 (x : Word) : Word := x >>> 32

def mulhPortable (a b : Word) : Word :=
  let ah := hi32 a
  let al := lo32 a
  let bh := hi32 b
  let bl := lo32 b
  let x00 := al * bl
  let x01 := al * bh
  let x10 := ah * bl
  let x11 := ah * bh
  let m1 := lo32 x10 + lo32 x01 + hi32 x00
  let m2 := hi32 x10 + hi32 x01 + lo32 x11 + hi32 m1
  let m3 := hi32 x11 + hi32 m2
  (m3 <<< 32) + lo32 m2

/-- two's complement subtractions, as the compilers the oracle is built with do them -/
def smulhPortable (a b : Word) : Word :=
  let hi := mulhPortable a b
  let hi := if a.slt 0 then hi - b else hi
  if b.slt 0 then hi - a else hi

theorem toNat_lo32 (x : Word) : (lo32 x).toNat = x.toNat % 2 ^ 32 := by
  show x.toNat &&& (2 ^ 32 - 1) = _
  exact Nat.and_two_pow_sub_one_eq_mod x.toNat 32

theorem toNat_hi32 (x : Word) : (hi32 x).toNat = x.toNat / 2 ^ 32 := by
  show x.toNat >>> 32 = _
  exact Nat.shiftRight_eq_div_pow _ _

theorem toNat_mulh (a b : Word) : (mulh a b).toNat = a.toNat * b.toNat / 2 ^ 64 := by
  have ha := a.isLt
  have hb := b.isLt
  have hp : a.toNat * b.toNat < 2 ^ 64 * 2 ^ 64 := Nat.mul_lt_mul'' ha hb
  unfold mulh
  rw [BitVec.toNat_setWidth, BitVec.toNat_ushiftRight, BitVec.toNat_mul, BitVec.toNat_setWidth,
    BitVec.toNat_setWidth, Nat.mod_eq_of_lt (show a.toNat < 2 ^ 128 by omega),
    Nat.mod_eq_of_lt (show b.toNat < 2 ^ 128 by omega), Nat.shiftRight_eq_div_pow]
  omega

theorem partialProducts (p q r s : Nat) :
    (s * 2 ^ 64 + (q + r) * 2 ^ 32 + p) / 2 ^ 64
      = (s / 2 ^ 32 + (r / 2 ^ 32 + q / 2 ^ 32 + s % 2 ^ 32
          + (r % 2 ^ 32 + q % 2 ^ 32 + p / 2 ^ 32) / 2 ^ 32) / 2 ^ 32) * 2 ^ 32
        + (r / 2 ^ 32 + q / 2 ^ 32 + s % 2 ^ 32
          + (r % 2 ^ 32 + q % 2 ^ 32 + p / 2 ^ 32) / 2 ^ 32) % 2 ^ 32 := by
  omega

theorem toNat_mul_half {x y : Word} (hx : x.toNat < 2 ^ 32) (hy : y.toNat < 2 ^ 32) :
    (x * y).toNat = x.toNat * y.toNat ∧ x.toNat * y.toNat ≤ (2 ^ 32 - 1) * (2 ^ 32 - 1) := by
  have h : x.toNat * y.toNat ≤ (2 ^ 32 - 1) * (2 ^ 32 - 1) :=
    Nat.mul_le_mul (by omega) (by omega)
  refine ⟨?_, h⟩
  rw [BitVec.toNat_mul]
  exact Nat.mod_eq_of_lt (by omega)

theorem mulhPortable_eq (a b : Word) : mulhPortable a b = mulh a b := by
  have ha := a.isLt
  have hb := b.isLt
  have lla := toNat_lo32 a
  have llb := toNat_lo32 b
  have hha := toNat_hi32 a
  have hhb := toNat_hi32 b
  obtain ⟨e00, b00⟩ := toNat_mul_half (x := lo32 a) (y := lo32 b) (by omega) (by omega)
  obtain ⟨e01, b01⟩ := toNat_mul_half (x := lo32 a) (y := hi32 b) (by omega) (by omega)
  obtain ⟨e10, b10⟩ := toNat_mul_half (x := hi32 a) (y := lo32 b) (by omega) (by omega)
  obtain ⟨e11, b11⟩ := toNat_mul_half (x := hi32 a) (y := hi32 b) (by omega) (by omega)
  apply BitVec.eq_of_toNat_eq
  rw [toNat_mulh]
  -- the product of the operands from the partial products
  have hab : a.toNat * b.toNat = (hi32 a).toNat * (hi32 b).toNat * 2 ^ 64
      + ((lo32 a).toNat * (hi32 b).toNat + (hi32 a).toNat * (lo32 b).toNat) * 2 ^ 32
      + (lo32 a).toNat * (lo32 b).toNat := by
    have ea : a.toNat = (hi32 a).toNat * 2 ^ 32 + (lo32 a).toNat := by omega
    have eb : b.toNat = (hi32 b).toNat * 2 ^ 32 + (lo32 b).toNat := by omega
    rw [ea, eb]
    ring
  rw [hab, partialProducts]
  generalize (lo32 a).toNat * (lo32 b).toNat = p at *
  generalize (lo32 a).toNat * (hi32 b).toNat = q at *
  generalize (hi32 a).toNat * (lo32 b).toNat = r at *
  generalize (hi32 a).toNat * (hi32 b).toNat = s at *
  simp only [mulhPortable, BitVec.toNat_add, BitVec.toNat_shiftLeft, toNat_lo32, toNat_hi32,
    e00, e01, e10, e11, Nat.shiftLeft_eq]
  omega

/-! ### the signed half from the unsigned one -/

theorem smulh_eq_extract (a b : Word) :
    smulh a b = (a.signExtend 128 * b.signExtend 128).extractLsb' 64 64 := by
  apply BitVec.eq_of_getLsbD_eq
  intro i hi
  unfold smulh
  rw [BitVec.getLsbD_setWidth, BitVec.getLsbD_sshiftRight, BitVec.getLsbD_extractLsb']
  simp [hi, show ¬ 128 ≤ i by omega, show 64 + i < 128 by omega]

theorem mulh_eq_extract (a b : Word) :
    mulh a b = (a.setWidth 128 * b.setWidth 128).extractLsb' 64 64 := by
  apply BitVec.eq_of_getLsbD_eq
  intro i hi
  unfold mulh
  rw [BitVec.getLsbD_setWidth, BitVec.getLsbD_ushiftRight, BitVec.getLsbD_extractLsb']

theorem toNat_signExtend128 (a : Word) :
    (a.signExtend 128).toNat = a.toNat + if a.msb then 2 ^ 128 - 2 ^ 64 else 0 := by
  have ha := a.isLt
  rw [BitVec.toNat_signExtend, BitVec.toNat_setWidth, Nat.mod_eq_of_lt (by omega)]

theorem toNat_smulh (a b : Word) :
    (smulh a b).toNat = (a.toNat * b.toNat / 2 ^ 64 + (if a.msb then 2 ^ 64 - b.toNat else 0)
      + (if b.msb then 2 ^ 64 - a.toNat else 0)) % 2 ^ 64 := by
  have ha := a.isLt
  have hb := b.isLt
  rw [smulh_eq_extract, BitVec.extractLsb'_toNat, BitVec.toNat_mul, toNat_signExtend128,
    toNat_signExtend128, Nat.shiftRight_eq_div_pow]
  -- the sign bits contribute multiples of `2 ^ 64`
  cases a.msb <;> cases b.msb <;>
    simp only [if_true, if_false, Bool.false_eq_true, Nat.add_mul, Nat.mul_add, Nat.add_zero] <;>
    omega

theorem smulhPortable_eq (a b : Word) : smulhPortable a b = smulh a b := by
  have ha := a.isLt
  have hb := b.isLt
  apply BitVec.eq_of_toNat_eq
  rw [toNat_smulh]
  have hz : ∀ x : Word, x.slt 0 = x.msb := fun x => BitVec.slt_zero_eq_msb
  unfold smulhPortable
  simp only [mulhPortable_eq, hz]
  have hm := toNat_mulh a b
  cases a.msb <;> cases b.msb <;>
    simp only [if_true, if_false, Bool.false_eq_true, BitVec.toNat_sub, hm] <;>
    omega

/-! ## rotations -/

/-- `(a >> b) | (a << (-b & 63))` -/
def rotr64 (a : Word) (b : BitVec 32) : Word := (a >>> b) ||| (a <<< (-b &&& 63))

/-- `(a << b) | (a >> (-b & 63))` -/
def rotl64 (a : Word) (b : BitVec 32) : Word := (a <<< b) ||| (a >>> (-b &&& 63))

theorem toNat_neg_and (b : BitVec 32) (h : b.toNat < 64) :
    (-b &&& 63).toNat = (64 - b.toNat) % 64 := by
  have e : (-b &&& 63).toNat = (-b).toNat % 64 := Nat.and_two_pow_sub_one_eq_mod (-b).toNat 6
  rw [e, BitVec.toNat_neg]
  omega

theorem rotr64_eq (a : Word) (b : BitVec 32) (h : b.toNat < 64) :
    rotr64 a b = a.rotateRight b.toNat := by
  apply BitVec.eq_of_getLsbD_eq
  intro i hi
  rw [rotr64, BitVec.getLsbD_or, BitVec.ushiftRight_eq', BitVec.shiftLeft_eq',
    BitVec.getLsbD_ushiftRight, BitVec.getLsbD_shiftLeft, BitVec.getLsbD_rotateRight_of_lt h,
    toNat_neg_and b h]
  by_cases h0 : b.toNat = 0
  · simp [h0, hi]
  · rw [Nat.mod_eq_of_lt (show 64 - b.toNat < 64 by omega)]
    by_cases hlt : i < 64 - b.toNat
    · simp [hlt]
    · rw [BitVec.getLsbD_of_ge a (b.toNat + i) (by omega)]
      simp [hlt, hi]

theorem rotl64_eq (a : Word) (b : BitVec 32) (h : b.toNat < 64) :
    rotl64 a b = a.rotateLeft b.toNat := by
  apply BitVec.eq_of_getLsbD_eq
  intro i hi
  rw [rotl64, BitVec.getLsbD_or, BitVec.ushiftRight_eq', BitVec.shiftLeft_eq',
    BitVec.getLsbD_ushiftRight, BitVec.getLsbD_shiftLeft, BitVec.getLsbD_rotateLeft_of_le h,
    toNat_neg_and b h]
  by_cases h0 : b.toNat = 0
  · simp [h0, hi]
  · rw [Nat.mod_eq_of_lt (show 64 - b.toNat < 64 by omega)]
    by_cases hlt : i < b.toNat
    · simp [hlt]
    · rw [BitVec.getLsbD_of_ge a (64 - b.toNat + i) (by omega)]
      simp [hlt, hi]

/-! ## the byte memory -/

abbrev Byte := BitVec 8

/-- bytes by address; the sources only reach addresses inside their buffers -/
abbrev Bytes := Nat → Byte

/-- `load32`, `load64`: the byte at the lowest address is the least significant one -/
def load32 (m : Bytes) (a : Nat) : BitVec 32 := m (a + 3) ++ m (a + 2) ++ m (a + 1) ++ m a

def load64 (m : Bytes) (a : Nat) : Word :=
  m (a + 7) ++ m (a + 6) ++ m (a + 5) ++ m (a + 4) ++ m (a + 3) ++ m (a + 2) ++ m (a + 1) ++ m a

theorem getLsbD_load32 (m : Bytes) (a : Nat) {k j : Nat} (hk : k < 4) (hj : j < 8) :
    (load32 m a).getLsbD (8 * k + j) = (m (a + k)).getLsbD j := by
  unfold load32
  obtain rfl | rfl | rfl | rfl : k = 0 ∨ k = 1 ∨ k = 2 ∨ k = 3 := by omega
  all_goals
    simp only [BitVec.getLsbD_append]
    grind

theorem load32_eq_iff (m : Bytes) (a b : Nat) :
    load32 m a = load32 m b ↔ ∀ k < 4, m (a + k) = m (b + k) := by
  constructor
  · intro h k hk
    apply BitVec.eq_of_getLsbD_eq
    intro j hj
    rw [← getLsbD_load32 m a hk hj, h, getLsbD_load32 m b hk hj]
  · intro h
    unfold load32
    rw [h 3 (by omega), h 2 (by omega), h 1 (by omega), show m a = m b from h 0 (by omega)]

def byteOf (w : Word) (k : Nat) : Byte := w.extractLsb' (8 * k) 8

def store64 (m : Bytes) (a : Nat) (w : Word) : Bytes :=
  fun j => if a ≤ j ∧ j < a + 8 then byteOf w (j - a) else m j

theorem store64_in (m : Bytes) (a : Nat) (w : Word) {k : Nat} (h : k < 8) :
    store64 m a w (a + k) = byteOf w k := by
  rw [store64, if_pos ⟨by omega, by omega⟩, Nat.add_sub_cancel_left]

theorem store64_out (m : Bytes) (a : Nat) (w : Word) {j : Nat} (h : j < a ∨ a + 8 ≤ j) :
    store64 m a w j = m j := by
  rw [store64, if_neg (by omega)]

theorem byteOf_load64 (m : Bytes) (a : Nat) {k : Nat} (h : k < 8) :
    byteOf (load64 m a) k = m (a + k) := by
  apply BitVec.eq_of_getLsbD_eq
  intro i hi
  unfold byteOf load64
  rw [BitVec.getLsbD_extractLsb']
  obtain rfl | rfl | rfl | rfl | rfl | rfl | rfl | rfl :
    k = 0 ∨ k = 1 ∨ k = 2 ∨ k = 3 ∨ k = 4 ∨ k = 5 ∨ k = 6 ∨ k = 7 := by omega
  all_goals
    simp only [BitVec.getLsbD_append, hi, decide_true, Bool.true_and]
    grind

theorem eq_of_byteOf_eq {v w : Word} (h : ∀ k < 8, byteOf v k = byteOf w k) : v = w := by
  apply BitVec.eq_of_getLsbD_eq
  intro i hi
  have hb := congrArg (fun b => b.getLsbD (i % 8)) (h (i / 8) (by omega))
  simp only [byteOf, BitVec.getLsbD_extractLsb'] at hb
  rw [show 8 * (i / 8) + i % 8 = i by omega] at hb
  simpa [Nat.mod_lt] using hb

theorem load64_eq_iff (m : Bytes) (a : Nat) (w : Word) :
    load64 m a = w ↔ ∀ k < 8, m (a + k) = byteOf w k := by
  refine ⟨fun h k hk => ?_, fun h => eq_of_byteOf_eq fun k hk => ?_⟩
  · rw [← h, byteOf_load64 m a hk]
  · rw [byteOf_load64 m a hk, h k hk]

theorem load64_store64 (m : Bytes) (a : Nat) (w : Word) : load64 (store64 m a w) a = w :=
  (load64_eq_iff _ a w).mpr fun _ hk => store64_in m a w hk

theorem load64_store64_of_disjoint (m : Bytes) {a b : Nat} (w : Word)
    (h : b + 8 ≤ a ∨ a + 8 ≤ b) : load64 (store64 m a w) b = load64 m b := by
  rw [load64_eq_iff]
  intro k hk
  rw [byteOf_load64 m b hk, store64_out m a w (by omega)]

end Randx
