import Mathlib.Data.BitVec

/-!
# Rotations and shifts of words

The bits of a rotated word, with indices modulo the length, and the amounts by which a word can be
rotated to the same result: `Period x k` says that the bits of `x` repeat after `k` places.  A
shift moves only the zero word to itself.
-/

namespace Hdl
section
variable {n : Nat}

theorem getLsbD_rotateRight_mod (x : BitVec n) (k : Nat) {i : Nat} (hi : i < n) :
    (x.rotateRight k).getLsbD i = x.getLsbD ((i + k) % n) := by
  have hk : k % n < n := Nat.mod_lt _ (by omega)
  rw [BitVec.getLsbD_rotateRight, ← Nat.add_mod_mod i k n]
  by_cases h : i < n - k % n
  · rw [cond_eq_ite, if_pos (by simpa using h), Nat.mod_eq_of_lt (by omega : i + k % n < n),
      Nat.add_comm]
  · have e : (i + k % n) % n = i - (n - k % n) := by
      rw [Nat.mod_eq_sub_mod (by omega), Nat.mod_eq_of_lt (by omega)]
      omega
    rw [cond_eq_ite, if_neg (by simpa using h), e]
    simp [hi]

theorem getLsbD_rotateLeft_mod (x : BitVec n) (k : Nat) {i : Nat} (hi : i < n) :
    (x.rotateLeft k).getLsbD i = x.getLsbD ((i + (n - k % n)) % n) := by
  have hk : k % n < n := Nat.mod_lt _ (by omega)
  rw [BitVec.getLsbD_rotateLeft]
  by_cases h : i < k % n
  · rw [cond_eq_ite, if_pos (by simpa using h),
      Nat.mod_eq_of_lt (by omega : i + (n - k % n) < n), Nat.add_comm]
  · have e : (i + (n - k % n)) % n = i - k % n := by
      rw [Nat.mod_eq_sub_mod (by omega), Nat.mod_eq_of_lt (by omega)]
      omega
    rw [cond_eq_ite, if_neg (by simpa using h), e]
    simp [hi]

/-- a shift by at least one place moves every one of the bits out in the end -/
theorem shiftLeft_eq_self_iff (x : BitVec n) (k : Nat) : x <<< k = x ↔ k = 0 ∨ x = 0 := by
  constructor
  · intro h
    by_cases hk : k = 0
    · exact Or.inl hk
    · refine Or.inr (BitVec.eq_of_getLsbD_eq fun i _ => ?_)
      show x.getLsbD i = (0#n).getLsbD i
      rw [BitVec.getLsbD_zero]
      induction i using Nat.strong_induction_on with
      | _ i ih =>
        rw [← h, BitVec.getLsbD_shiftLeft]
        by_cases hi : i < k
        · simp [hi]
        · by_cases hn : i < n
          · rw [ih (i - k) (by omega) (by omega), Bool.and_false]
          · simp [hn]
  · rintro (rfl | rfl)
    · exact BitVec.shiftLeft_zero x
    · exact BitVec.zero_shiftLeft k

/-! ## periods -/

def Period (x : BitVec n) (k : Nat) : Prop := ∀ i < n, x.getLsbD ((i + k) % n) = x.getLsbD i

theorem Period.congr {x : BitVec n} {k l : Nat} (h : 0 < n → k % n = l % n) :
    Period x k ↔ Period x l := by
  unfold Period
  refine forall₂_congr fun i hi => ?_
  rw [← Nat.add_mod_mod i k n, h (by omega), Nat.add_mod_mod]

theorem add_sub_mod (i q : Nat) (h : i < n) : (i + (n - q % n) + q) % n = i := by
  have hq : q % n < n := Nat.mod_lt _ (by omega)
  rw [← Nat.add_mod_mod, show i + (n - q % n) + q % n = i + n by omega, Nat.add_mod_right,
    Nat.mod_eq_of_lt h]

/-- the bits at distance `p` are those at distance `q` just if the difference is a period -/
theorem shift_eq_iff (x : BitVec n) (p q : Nat) :
    (∀ i < n, x.getLsbD ((i + p) % n) = x.getLsbD ((i + q) % n)) ↔
      Period x (p + (n - q % n)) := by
  constructor
  · intro h i hi
    have hj := h ((i + (n - q % n)) % n) (Nat.mod_lt _ (by omega))
    rw [Nat.mod_add_mod, Nat.mod_add_mod, add_sub_mod i q hi] at hj
    rw [← hj]
    congr 2
    omega
  · intro h i hi
    have hj := h ((i + q) % n) (Nat.mod_lt _ (by omega))
    have e : (i + q + (p + (n - q % n))) % n = (i + p) % n := by
      have hq : q % n < n := Nat.mod_lt _ (by omega)
      rw [show i + q + (p + (n - q % n)) = i + p + (n - q % n) + q by omega, ← Nat.add_mod_mod,
        show i + p + (n - q % n) + q % n = i + p + n by omega, Nat.add_mod_right]
    rw [Nat.mod_add_mod, e] at hj
    exact hj

theorem rotateRight_eq_iff (x : BitVec n) (p q : Nat) :
    x.rotateRight p = x.rotateRight q ↔ Period x (p + (n - q % n)) := by
  rw [← shift_eq_iff]
  constructor
  · intro h i hi
    rw [← getLsbD_rotateRight_mod x p hi, h, getLsbD_rotateRight_mod x q hi]
  · intro h
    apply BitVec.eq_of_getLsbD_eq
    intro i hi
    rw [getLsbD_rotateRight_mod x p hi, h i hi, getLsbD_rotateRight_mod x q hi]

theorem rotateLeft_eq_rotateRight (x : BitVec n) (k : Nat) :
    x.rotateLeft k = x.rotateRight (n - k % n) := by
  apply BitVec.eq_of_getLsbD_eq
  intro i hi
  rw [getLsbD_rotateLeft_mod x k hi, getLsbD_rotateRight_mod x _ hi]

theorem period_comm (x : BitVec n) (p q : Nat) :
    Period x (p + (n - q % n)) ↔ Period x (q + (n - p % n)) := by
  rw [← rotateRight_eq_iff, ← rotateRight_eq_iff, eq_comm]

theorem rotateLeft_eq_iff (x : BitVec n) (p q : Nat) :
    x.rotateLeft p = x.rotateLeft q ↔ Period x (p + (n - q % n)) := by
  have e (hn : 0 < n) : (n - p % n + (n - (n - q % n) % n)) % n = (q + (n - p % n)) % n := by
    rw [Nat.add_comm q, ← Nat.add_mod_mod, ← Nat.add_mod_mod _ q]
    congr 2
    have hq : q % n < n := Nat.mod_lt _ hn
    by_cases h0 : q % n = 0
    · rw [h0, Nat.sub_zero, Nat.mod_self, Nat.sub_zero, Nat.mod_self]
    · rw [Nat.mod_eq_of_lt (by omega : n - q % n < n), show n - (n - q % n) = q % n by omega,
        Nat.mod_mod]
  rw [rotateLeft_eq_rotateRight, rotateLeft_eq_rotateRight, rotateRight_eq_iff, Period.congr e,
    period_comm]

end
end Hdl
