import Mathlib.Data.Option.Basic

/-!
# Which operation wrote a register last

Operations of a list are known by their index.  `Latest p j i` says that `i` is the last index
below `j` with `p`, `lastBefore` finds it, and `Depends` is the dependency of `j` on `i` by a
register: `i` is the last operation before `j` that writes it, and `j` uses it.

* `lastBefore_eq_some`  the search;
* `recorded_iff`        **when a record of one register for each operation gives every
                        dependency**, of operations that may write others too, or none at all.
-/

namespace Dataflow

section
variable (p : Nat → Prop)

structure Latest (j i : Nat) : Prop where
  lt : i < j
  holds : p i
  none_between : ∀ k, i < k → k < j → ¬ p k

def lastBefore [DecidablePred p] : Nat → Option Nat
  | 0 => none
  | j + 1 => if p j then some j else lastBefore j

variable {p} {q : Nat → Prop} {i i' j : Nat}

theorem Latest.unique (h : Latest p j i) (h' : Latest p j i') : i = i' := by
  rcases Nat.lt_trichotomy i i' with hlt | rfl | hlt
  · exact absurd h'.holds (h.none_between i' hlt h'.lt)
  · rfl
  · exact absurd h.holds (h'.none_between i hlt h.lt)

theorem lastBefore_eq_some [DecidablePred p] : lastBefore p j = some i ↔ Latest p j i := by
  induction j with
  | zero => exact ⟨fun h => (nomatch h), fun h => absurd h.lt (Nat.not_lt_zero i)⟩
  | succ j ih =>
    rw [lastBefore]
    by_cases hj : p j
    · have hlatest : Latest p (j + 1) j := ⟨Nat.lt_succ_self j, hj, fun k _ _ => by omega⟩
      rw [if_pos hj]
      refine ⟨fun h => ?_, fun h => ?_⟩
      · exact Option.some.inj h ▸ hlatest
      · rw [hlatest.unique h]
    · rw [if_neg hj, ih]
      refine ⟨fun h => ?_, fun h => ?_⟩
      · refine ⟨Nat.lt_succ_of_lt h.lt, h.holds, fun k hk hkj => ?_⟩
        by_cases hkj' : k = j
        · exact hkj' ▸ hj
        · exact h.none_between k hk (by omega)
      · have hne : i ≠ j := fun e => hj (e ▸ h.holds)
        have hlt := h.lt
        exact ⟨by omega, h.holds, fun k hk hkj => h.none_between k hk (by omega)⟩

theorem exists_lastBefore [DecidablePred p] (hp : p i) (h : i < j) :
    ∃ k, lastBefore p j = some k := by
  induction j with
  | zero => exact absurd h (Nat.not_lt_zero i)
  | succ j ih =>
    rw [lastBefore]
    by_cases hj : p j
    · exact ⟨j, if_pos hj⟩
    · have hne : i ≠ j := fun e => hj (e ▸ hp)
      rw [if_neg hj]
      exact ih (by omega)

theorem lastBefore_congr [DecidablePred p] [DecidablePred q] (h : ∀ k < j, (p k ↔ q k)) :
    lastBefore p j = lastBefore q j := by
  induction j with
  | zero => rfl
  | succ j ih =>
    rw [lastBefore, lastBefore, ih fun k hk => h k (by omega)]
    exact if_congr (h j (Nat.lt_succ_self j)) rfl rfl

end

section
variable {ι ρ : Type*} (prog : List ι)

/-- the operation with index `k` is there and has `P` -/
def At (P : ι → Prop) (k : Nat) : Prop := ∃ b, prog[k]? = some b ∧ P b

variable (writes uses : ι → ρ → Prop)

def Depends (r : ρ) (i j : Nat) : Prop :=
  At prog (uses · r) j ∧ Latest (At prog (writes · r)) j i

variable {prog writes uses} {dest : ι → Option ρ}

/-- **When the record suffices**, if every operation that writes is recorded. -/
theorem recorded_iff (hdest : ∀ b ∈ prog, ∀ r, writes b r → ∃ q, dest b = some q) :
    (∀ i j r, Depends prog writes uses r i j →
        ∃ x, Depends prog (fun b x => dest b = some x) uses x i j) ↔
      (∀ i j r q, Depends prog writes uses r i j → At prog (dest · = some q) i → q ≠ r →
        At prog (uses · q) j ∧ ∀ k, i < k → k < j → ¬ At prog (dest · = some q) k) ∧
      ∀ i j r k, Depends prog writes uses r i j → At prog (dest · = some r) i → i < k → k < j →
        ¬ At prog (fun b => dest b = some r ∧ ¬ writes b r) k := by
  refine ⟨fun hall => ?_, fun ⟨hother, hsame⟩ i j r hdep => ?_⟩
  · -- the operation `i` is recorded with one register, so that is the one of the record
    have hrec : ∀ i j r q, Depends prog writes uses r i j → At prog (dest · = some q) i →
        Depends prog (fun b x => dest b = some x) uses q i j := by
      intro i j r q hdep hq
      obtain ⟨x, hx⟩ := hall i j r hdep
      obtain ⟨b, hb, hbq⟩ := hq
      obtain ⟨b', hb', hbx⟩ := hx.2.holds
      obtain rfl : b = b' := Option.some.inj (hb.symm.trans hb')
      obtain rfl : x = q := Option.some.inj (hbx.symm.trans hbq)
      exact hx
    refine ⟨fun i j r q hdep hq _ => ?_, fun i j r k hdep hr hik hkj hk => ?_⟩
    · exact ⟨(hrec i j r q hdep hq).1, (hrec i j r q hdep hq).2.none_between⟩
    · obtain ⟨b, hb, hbr, _⟩ := hk
      exact (hrec i j r r hdep hr).2.none_between k hik hkj ⟨b, hb, hbr⟩
  · obtain ⟨huse, hlast⟩ := hdep
    obtain ⟨b, hb, hw⟩ := hlast.holds
    obtain ⟨q, hq⟩ := hdest b (List.mem_of_getElem? hb) r hw
    by_cases hqr : q = r
    · subst hqr
      refine ⟨q, huse, hlast.lt, ⟨b, hb, hq⟩, fun k hik hkj hk => ?_⟩
      obtain ⟨b', hb', hq'⟩ := hk
      by_cases hw' : writes b' q
      · exact hlast.none_between k hik hkj ⟨b', hb', hw'⟩
      · exact hsame i j q k ⟨huse, hlast⟩ ⟨b, hb, hq⟩ hik hkj ⟨b', hb', hq', hw'⟩
    · obtain ⟨hq', hnone⟩ := hother i j r q ⟨huse, hlast⟩ ⟨b, hb, hq⟩ hqr
      exact ⟨q, hq', hlast.lt, ⟨b, hb, hq⟩, hnone⟩

end

end Dataflow
