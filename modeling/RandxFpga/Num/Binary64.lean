import Mathlib.Algebra.Field.Rat
import Mathlib.Algebra.GroupWithZero.Basic
import Mathlib.Data.BitVec
import Mathlib.Tactic.FieldSimp
import Mathlib.Tactic.Ring

/-!
# The patterns of IEEE binary64

`sign`, `exponent` (biased) and `fraction` are the fields of a 64-bit pattern, `value` is its exact
value; the infinities and the NaNs have none.

* `sign_xor`, `exponent_xor`, `fraction_xor`   the fields of an exclusive or;
* `value_of_normal`     the value of a pattern with a biased exponent in `1 .. 2046`;
* `value_of_rescale`    **two normal patterns of one fraction differ by a power of two**, up to
                        the sign;
* `xor_low_four`        the exponent with its low four bits inverted.
-/

namespace Binary64

def sign (b : BitVec 64) : Bool := b.getLsbD 63

def exponent (b : BitVec 64) : Nat := (b.extractLsb' 52 11).toNat

def fraction (b : BitVec 64) : Nat := (b.extractLsb' 0 52).toNat

def signFactor (s : Bool) : ℚ := if s then -1 else 1

def value (b : BitVec 64) : Option ℚ :=
  if exponent b = 2047 then none
  else if exponent b = 0 then
    some (signFactor (sign b) * (fraction b / 2 ^ 52) * 2 ^ (-1022 : ℤ))
  else some (signFactor (sign b) * (1 + fraction b / 2 ^ 52) * 2 ^ ((exponent b : ℤ) - 1023))

def Normal (b : BitVec 64) : Prop := 1 ≤ exponent b ∧ exponent b ≤ 2046

theorem sign_xor (x y : BitVec 64) : sign (x ^^^ y) = (sign x ^^ sign y) := BitVec.getLsbD_xor

theorem exponent_xor (x y : BitVec 64) : exponent (x ^^^ y) = exponent x ^^^ exponent y := by
  rw [exponent, BitVec.extractLsb'_xor, BitVec.toNat_xor]
  rfl

theorem fraction_xor (x y : BitVec 64) : fraction (x ^^^ y) = fraction x ^^^ fraction y := by
  rw [fraction, BitVec.extractLsb'_xor, BitVec.toNat_xor]
  rfl

theorem signFactor_not (s : Bool) : signFactor (!s) = -signFactor s := by
  cases s with
  | false => rfl
  | true => exact (neg_neg (1 : ℚ)).symm

theorem value_of_normal {b : BitVec 64} (h : Normal b) :
    value b
      = some (signFactor (sign b) * (1 + fraction b / 2 ^ 52) * 2 ^ ((exponent b : ℤ) - 1023)) := by
  obtain ⟨h1, h2⟩ := h
  rw [value, if_neg (by omega), if_neg (by omega)]

theorem value_of_rescale {x y : BitVec 64} (hx : Normal x) (hy : Normal y) {k : ℤ}
    (hs : sign y = !sign x) (hf : fraction y = fraction x)
    (he : (exponent y : ℤ) = exponent x + k) {v : ℚ} (hv : value x = some v) :
    value y = some (-v * 2 ^ k) := by
  rw [value_of_normal hx, Option.some.injEq] at hv
  have hexp : (exponent y : ℤ) - 1023 = ((exponent x : ℤ) - 1023) + k := by omega
  rw [value_of_normal hy, hs, hf, hexp, signFactor_not, zpow_add₀ two_ne_zero, ← hv]
  congr 1
  ring

/-- inverting the low four digits of `e` adds `15 - 2 * (e % 16)` -/
theorem xor_low_four (e : Nat) : e ^^^ 15 = e / 16 * 16 + (15 - e % 16) := by
  have hdiv : (e ^^^ 15) / 2 ^ 4 = e / 2 ^ 4 := by
    rw [Nat.xor_div_two_pow, show 15 / 2 ^ 4 = 0 from rfl, Nat.xor_zero]
  have hall : ∀ d < 16, d ^^^ 15 = 15 - d := by decide
  have hmod : (e ^^^ 15) % 2 ^ 4 = 15 - e % 16 := by
    rw [Nat.xor_mod_two_pow, show 15 % 2 ^ 4 = 15 from rfl]
    exact hall (e % 16) (Nat.mod_lt _ (by omega))
  omega

theorem cast_xor_low_four (e : Nat) :
    ((e ^^^ 15 : Nat) : ℤ) = e + (15 - 2 * ((e % 16 : Nat) : ℤ)) := by
  have h := xor_low_four e
  omega

end Binary64
