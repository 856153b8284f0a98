import Mathlib.Data.BitVec
import Mathlib.Data.Fintype.EquivFin
import Mathlib.Logic.Function.Iterate

/-!
# The round of AES

Bytes are polynomials over GF(2) modulo `x ^ 8 + x ^ 4 + x ^ 3 + x + 1`.  An `Sbox` substitutes a
byte by the affine image of its inverse; a state has four columns of four bytes.

* `mul_right_comm`, `mul_comm`, `mul_assoc`  the product of two polynomials;
* `inverse_unique`   a byte has one inverse;
* `Sbox.unique`      so there is one S-box.
-/

namespace Aes

/-- times `x` -/
def xtime (b : BitVec 8) : BitVec 8 := (b <<< 1) ^^^ (if b.msb then 0x1b#8 else 0#8)

/-- the terms of `c` below `x ^ n`, times `b` -/
def mulBelow (b c : BitVec 8) : Nat → BitVec 8
  | 0 => 0#8
  | n + 1 => mulBelow b c n ^^^ (if c.getLsbD n then xtime^[n] b else 0#8)

def mul (b c : BitVec 8) : BitVec 8 := mulBelow b c 8

/-! ## products -/

theorem xtime_xor (b b' : BitVec 8) : xtime (b ^^^ b') = xtime b ^^^ xtime b' := by
  have hmsb : (if (b ^^^ b').msb then 0x1b#8 else 0#8)
      = (if b.msb then 0x1b#8 else 0#8) ^^^ (if b'.msb then 0x1b#8 else 0#8) := by
    rw [BitVec.msb_xor]
    cases b.msb <;> cases b'.msb <;> rfl
  unfold xtime
  rw [hmsb, BitVec.shiftLeft_xor_distrib, BitVec.xor_assoc, BitVec.xor_assoc,
    ← BitVec.xor_assoc (b' <<< 1), BitVec.xor_comm (b' <<< 1), BitVec.xor_assoc]

theorem iterate_xtime_xor (n : Nat) (b b' : BitVec 8) :
    xtime^[n] (b ^^^ b') = xtime^[n] b ^^^ xtime^[n] b' := by
  induction n generalizing b b' with
  | zero => rfl
  | succ n ih => rw [Function.iterate_succ_apply, xtime_xor, ih]; rfl

theorem xtime_zero : xtime 0#8 = 0#8 := by decide

theorem iterate_xtime_zero (n : Nat) : xtime^[n] 0#8 = 0#8 := by
  induction n with
  | zero => rfl
  | succ n ih => rw [Function.iterate_succ_apply, xtime_zero, ih]

theorem mulBelow_xor (b b' c : BitVec 8) (n : Nat) :
    mulBelow (b ^^^ b') c n = mulBelow b c n ^^^ mulBelow b' c n := by
  induction n with
  | zero => exact BitVec.xor_zero.symm
  | succ n ih =>
    rw [mulBelow, mulBelow, mulBelow, ih]
    cases c.getLsbD n with
    | true =>
      rw [if_pos rfl, if_pos rfl, if_pos rfl, iterate_xtime_xor]
      ac_rfl
    | false =>
      rw [if_neg Bool.false_ne_true, if_neg Bool.false_ne_true, if_neg Bool.false_ne_true,
        BitVec.xor_zero, BitVec.xor_zero, BitVec.xor_zero]

theorem mulBelow_zero (c : BitVec 8) (n : Nat) : mulBelow 0#8 c n = 0#8 := by
  induction n with
  | zero => rfl
  | succ n ih => rw [mulBelow, ih, iterate_xtime_zero, ite_self, BitVec.xor_zero]

theorem mulBelow_xtime (b c : BitVec 8) (n : Nat) :
    mulBelow (xtime b) c n = xtime (mulBelow b c n) := by
  induction n with
  | zero => exact xtime_zero.symm
  | succ n ih =>
    rw [mulBelow, mulBelow, ih, xtime_xor, ← Function.iterate_succ_apply,
      Function.iterate_succ_apply', apply_ite xtime, xtime_zero]

theorem mul_iterate_xtime (n : Nat) (b c : BitVec 8) : mul (xtime^[n] b) c = xtime^[n] (mul b c) := by
  induction n generalizing b with
  | zero => rfl
  | succ n ih =>
    rw [Function.iterate_succ_apply, ih, Function.iterate_succ_apply, mul, mulBelow_xtime]
    rfl

theorem mul_mulBelow (a b c : BitVec 8) (n : Nat) :
    mul (mulBelow a b n) c = mulBelow (mul a c) b n := by
  induction n with
  | zero => exact mulBelow_zero c 8
  | succ n ih =>
    rw [mulBelow, mulBelow, mul, mulBelow_xor]
    show mul _ c ^^^ mul _ c = _
    rw [ih]
    cases b.getLsbD n with
    | true => rw [if_pos rfl, if_pos rfl, mul_iterate_xtime]
    | false =>
      rw [if_neg Bool.false_ne_true, if_neg Bool.false_ne_true]
      exact congrArg _ (mulBelow_zero c 8)

theorem mul_right_comm (a b c : BitVec 8) : mul (mul a b) c = mul (mul a c) b := mul_mulBelow a b c 8

/-- one term for each bit -/
theorem one_mul (b : BitVec 8) : mul 1#8 b = b := by
  revert b
  decide

theorem mul_comm (b c : BitVec 8) : mul b c = mul c b := by
  have h := mul_right_comm 1#8 b c
  rwa [one_mul, one_mul] at h

theorem mul_assoc (a b c : BitVec 8) : mul (mul a b) c = mul a (mul b c) := by
  rw [mul_comm a b, mul_right_comm, mul_comm]

theorem mul_one (b : BitVec 8) : mul b 1#8 = b := by rw [mul_comm, one_mul]

theorem mul_zero (b : BitVec 8) : mul b 0#8 = 0#8 := by
  rw [mul_comm]
  exact mulBelow_zero b 8

theorem inverse_unique {b c c' : BitVec 8} (h : mul b c = 1#8) (h' : mul b c' = 1#8) : c = c' := by
  have hc : mul (mul b c) c' = mul (mul b c') c := mul_right_comm b c c'
  rw [h, h', one_mul, one_mul] at hc
  exact hc.symm

/-- the terms of degree `n` or more are absent -/
theorem mulBelow_add (b : BitVec 8) {c : BitVec 8} {n : Nat}
    (h : ∀ i, n ≤ i → c.getLsbD i = false) (d : Nat) : mulBelow b c (n + d) = mulBelow b c n := by
  induction d with
  | zero => rfl
  | succ d ih =>
    rw [← Nat.add_assoc, mulBelow, ih, h (n + d) (by omega), if_neg Bool.false_ne_true,
      BitVec.xor_zero]

theorem mul_eq_mulBelow (b : BitVec 8) {c : BitVec 8} {n : Nat} (hn : n ≤ 8)
    (h : ∀ i, n ≤ i → c.getLsbD i = false) : mul b c = mulBelow b c n := by
  have hadd := mulBelow_add b h (8 - n)
  rwa [show n + (8 - n) = 8 by omega] at hadd

/-! ## the S-box -/

/-- zero has itself in the place of an inverse -/
def IsInverse (b c : BitVec 8) : Prop := mul b c = 1#8 ∨ b = 0#8 ∧ c = 0#8

def affine (b : BitVec 8) : BitVec 8 :=
  b ^^^ b.rotateLeft 1 ^^^ b.rotateLeft 2 ^^^ b.rotateLeft 3 ^^^ b.rotateLeft 4 ^^^ 0x63#8

def invAffine (b : BitVec 8) : BitVec 8 :=
  b.rotateLeft 1 ^^^ b.rotateLeft 3 ^^^ b.rotateLeft 6 ^^^ 0x05#8

theorem invAffine_affine (b : BitVec 8) : invAffine (affine b) = b := by
  revert b
  decide

instance finite_byte : Finite (BitVec 8) :=
  Finite.of_equiv (Fin (2 ^ 8)) BitVec.equivFin.symm.toEquiv

theorem affine_injective : Function.Injective affine :=
  Function.LeftInverse.injective invAffine_affine

theorem IsInverse.unique {b c c' : BitVec 8} (h : IsInverse b c) (h' : IsInverse b c') : c = c' := by
  have hzero : ∀ {c : BitVec 8}, mul 0#8 c ≠ 1#8 := fun {c} => by
    rw [mul_comm, mul_zero]
    decide
  obtain h | ⟨rfl, rfl⟩ := h
  · obtain h' | ⟨rfl, -⟩ := h'
    · exact inverse_unique h h'
    · exact absurd h hzero
  · obtain h' | ⟨-, rfl⟩ := h'
    · exact absurd h' hzero
    · rfl

structure Sbox where
  sub : BitVec 8 → BitVec 8
  invSub : BitVec 8 → BitVec 8
  inverse : ∀ b, ∃ c, IsInverse b c ∧ sub b = affine c
  left_inv : ∀ b, invSub (sub b) = b

/-- **There is one S-box at most.** -/
theorem Sbox.unique (S S' : Sbox) : S = S' := by
  obtain ⟨sub, invSub, hinv, hleft⟩ := S
  obtain ⟨sub', invSub', hinv', hleft'⟩ := S'
  have hsub : sub = sub' := by
    funext b
    obtain ⟨c, hc, hb⟩ := hinv b
    obtain ⟨c', hc', hb'⟩ := hinv' b
    rw [hb, hb', hc.unique hc']
  subst hsub
  have hsurj : Function.Surjective sub :=
    Finite.surjective_of_injective (Function.LeftInverse.injective hleft)
  have hinvSub : invSub = invSub' := by
    funext b
    obtain ⟨a, rfl⟩ := hsurj b
    rw [hleft, hleft']
  subst hinvSub
  rfl

/-! ## the rounds -/

/-- columns, rows -/
scoped instance neZero_four : NeZero 4 := ⟨by decide⟩

/-- column and row of a byte -/
abbrev State := Fin 4 → Fin 4 → BitVec 8

def shiftRows (s : State) : State := fun c r => s (c + r) r

def invShiftRows (s : State) : State := fun c r => s (c - r) r

def subBytes (f : BitVec 8 → BitVec 8) (s : State) : State := fun c r => f (s c r)

/-- a column times the circulant matrix whose first column is `m` -/
def mixColumn (m : Fin 4 → BitVec 8) (a : Fin 4 → BitVec 8) : Fin 4 → BitVec 8 := fun j =>
  mul (a 0) (m j) ^^^ mul (a 1) (m (j - 1)) ^^^ mul (a 2) (m (j - 2)) ^^^ mul (a 3) (m (j - 3))

def mixColumns (m : Fin 4 → BitVec 8) (s : State) : State := fun c => mixColumn m (s c)

def addRoundKey (s k : State) : State := fun c r => s c r ^^^ k c r

def mixCoefficients : Fin 4 → BitVec 8
  | 0 => 0x02
  | 1 => 0x01
  | 2 => 0x01
  | 3 => 0x03

def invMixCoefficients : Fin 4 → BitVec 8
  | 0 => 0x0e
  | 1 => 0x09
  | 2 => 0x0d
  | 3 => 0x0b

def Sbox.round (S : Sbox) (s k : State) : State :=
  addRoundKey (mixColumns mixCoefficients (subBytes S.sub (shiftRows s))) k

def Sbox.invRound (S : Sbox) (s k : State) : State :=
  addRoundKey (mixColumns invMixCoefficients (subBytes S.invSub (invShiftRows s))) k

end Aes
