import Mathlib.Data.Nat.Size
import Mathlib.Order.Bounds.Defs
import Mathlib.Tactic.Ring

/-!
# Long division of powers of two

`step d` takes quotient and remainder of a number by `d` to those of its double.

* `step_divMod`         a step doubles the dividend;
* `two_pow_div_lt_iff`  **which powers of two have a quotient below `2 ^ w`**, for a divisor that is
                        no power of two itself.
-/

namespace LongDivision

def step (d : Nat) (qr : Nat × Nat) : Nat × Nat :=
  if d ≤ 2 * qr.2 then (2 * qr.1 + 1, 2 * qr.2 - d) else (2 * qr.1, 2 * qr.2)

theorem step_divMod {d : Nat} (hd : 0 < d) (n : Nat) :
    step d (n / d, n % d) = (2 * n / d, 2 * n % d) := by
  have hlt : n % d < d := Nat.mod_lt n hd
  have hsplit : 2 * n = 2 * (n % d) + d * (2 * (n / d)) := by
    rw [show d * (2 * (n / d)) = 2 * (d * (n / d)) by ring, ← Nat.mul_add, Nat.mod_add_div]
  have hdiv : 2 * n / d = 2 * (n % d) / d + 2 * (n / d) := by
    conv_lhs => rw [hsplit]
    exact Nat.add_mul_div_left _ _ hd
  have hmod : 2 * n % d = 2 * (n % d) % d := by
    conv_lhs => rw [hsplit]
    exact Nat.add_mul_mod_self_left _ _ _
  rw [step, hdiv, hmod]
  by_cases h : d ≤ 2 * (n % d)
  · have hone : 2 * (n % d) / d = 1 := Nat.div_eq_of_lt_le (by omega) (by omega)
    have hsub : 2 * (n % d) % d = 2 * (n % d) - d := by
      rw [Nat.mod_eq_sub_mod h]
      exact Nat.mod_eq_of_lt (by omega)
    rw [if_pos h, hone, hsub, Nat.add_comm 1]
  · have hself : 2 * (n % d) % d = 2 * (n % d) := Nat.mod_eq_of_lt (by omega)
    rw [if_neg h, Nat.div_eq_of_lt (Nat.lt_of_not_le h), hself, Nat.zero_add]

section
variable {d : Nat} (hd : 0 < d) (hpow : ∀ k, d ≠ 2 ^ k)
include hd hpow

/-- between two powers of two, without being one -/
theorem size_bounds : 2 ^ (d.size - 1) < d ∧ d < 2 ^ d.size := by
  have hpos : 0 < d.size := Nat.size_pos.mpr hd
  have hle : 2 ^ (d.size - 1) ≤ d := Nat.lt_size.mp (by omega)
  exact ⟨lt_of_le_of_ne hle (hpow _).symm, Nat.lt_size_self d⟩

theorem two_pow_div_lt_iff (x w : Nat) : 2 ^ x / d < 2 ^ w ↔ x < w + d.size := by
  obtain ⟨hlow, hhigh⟩ := size_bounds hd hpow
  have hpos : 0 < d.size := Nat.size_pos.mpr hd
  rw [Nat.div_lt_iff_lt_mul hd]
  refine ⟨fun h => ?_, fun hx => ?_⟩
  · by_contra hx
    have hle : 2 ^ w * 2 ^ d.size ≤ 2 ^ x := by
      rw [← pow_add]
      exact Nat.pow_le_pow_right (by omega) (by omega)
    have hmul := Nat.mul_le_mul_left (2 ^ w) hhigh.le
    omega
  · calc 2 ^ x ≤ 2 ^ (w + (d.size - 1)) := Nat.pow_le_pow_right (by omega) (by omega)
      _ = 2 ^ w * 2 ^ (d.size - 1) := pow_add 2 w _
      _ < 2 ^ w * d := Nat.mul_lt_mul_of_pos_left hlow (Nat.two_pow_pos w)

/-- the largest of them -/
theorem isGreatest_two_pow_div (w : Nat) :
    IsGreatest {x | 2 ^ x / d < 2 ^ (w + 1)} (w + d.size) := by
  refine ⟨?_, fun x hx => ?_⟩
  · show 2 ^ (w + d.size) / d < 2 ^ (w + 1)
    rw [two_pow_div_lt_iff hd hpow]
    omega
  · have hlt := (two_pow_div_lt_iff hd hpow x (w + 1)).mp hx
    omega

end
end LongDivision
