import Mathlib.Algebra.BigOperators.Group.Finset.Basic
import Mathlib.Algebra.Order.BigOperators.Group.Finset
import Mathlib.Algebra.Group.Action.Defs
import RandxFpga.Run.Loop

/-!
# Loops of a program with back edges taken a bounded number of times

A program has the places `0 .. n-1`.  Control goes from a place to the next one, except that a
place with a back edge may go back to the place it lands on.  `Shape` says that the loops these
back edges close are disjoint, `Bounded` that each of them is taken at most `B` times in a row
(`lives` is how often it is still going to be taken).

* `rem q s`          how often the place `q` may still be visited from the state `s`;
* `rem_step`         a step raises no `rem` and lowers the one of the place it leaves;
* `run_bounded`, `steps_bounded`   **the program ends after at most `(B + 1) * n` steps**;
* `takes_bounded`    every back edge is taken at most `B` times in the whole run.
-/

namespace BackEdge

structure Shape (n : Nat) where
  br : Nat → Prop
  land : Nat → Nat
  land_le : ∀ i, br i → land i ≤ i
  disjoint : ∀ i j, br i → br j → i < j → i < land j

/-- the place `q` lies in the loop that the back edge of `i` closes -/
def Shape.InLoop {n : Nat} (sh : Shape n) (q i : Nat) : Prop :=
  sh.br i ∧ sh.land i ≤ q ∧ q ≤ i

theorem Shape.inLoop_unique {n : Nat} (sh : Shape n) {q i j : Nat} (hi : sh.InLoop q i)
    (hj : sh.InLoop q j) : i = j := by
  obtain ⟨bi, li, ui⟩ := hi
  obtain ⟨bj, lj, uj⟩ := hj
  rcases Nat.lt_trichotomy i j with h | h | h
  · have := sh.disjoint i j bi bj h
    omega
  · exact h
  · have := sh.disjoint j i bj bi h
    omega

/-- a machine whose control follows the shape; `I` is an invariant of its states -/
structure Bounded {σ : Type*} {n : Nat} (sh : Shape n) (B : Nat) (pc : σ → Nat)
    (lives : Nat → σ → Nat) (takes : σ → Bool) (I : σ → Prop) (done : σ → Bool)
    (step : σ → Option σ) : Prop where
  done_iff : ∀ s, I s → (done s = true ↔ n ≤ pc s)
  lives_le : ∀ i s, lives i s ≤ B
  plain : ∀ s, I s → pc s < n → ¬ sh.br (pc s) → ∃ t, step s = some t ∧ I t ∧
    pc t = pc s + 1 ∧ ∀ i, sh.InLoop (pc s) i → lives i t = lives i s
  back : ∀ s, I s → pc s < n → sh.br (pc s) → ∃ t, step s = some t ∧ I t ∧
    ((takes s = true ∧ pc t = sh.land (pc s) ∧ lives (pc s) t + 1 = lives (pc s) s) ∨
      (takes s = false ∧ pc t = pc s + 1))

section
variable {σ : Type*} {n : Nat} {sh : Shape n} {B : Nat} {pc : σ → Nat} {lives : Nat → σ → Nat}
  {takes : σ → Bool} {I : σ → Prop} {done : σ → Bool} {step : σ → Option σ}

/-- visits of `q` still to come, for `q` in the loop of `i` -/
def loopRem (sh : Shape n) (B : Nat) (pc : σ → Nat) (lives : Nat → σ → Nat) (i q : Nat) (s : σ) :
    Nat :=
  if pc s < sh.land i then B + 1
  else if pc s ≤ i then lives i s + (if pc s ≤ q then 1 else 0)
  else 0

open Classical in
noncomputable def rem (sh : Shape n) (B : Nat) (pc : σ → Nat) (lives : Nat → σ → Nat) (q : Nat)
    (s : σ) : Nat :=
  if h : ∃ i, sh.InLoop q i then loopRem sh B pc lives h.choose q s
  else if pc s ≤ q then 1 else 0

theorem rem_of_inLoop {q i : Nat} (h : sh.InLoop q i) (s : σ) :
    rem sh B pc lives q s = loopRem sh B pc lives i q s := by
  have hex : ∃ i, sh.InLoop q i := ⟨i, h⟩
  rw [rem, dif_pos hex, sh.inLoop_unique hex.choose_spec h]

theorem rem_of_not_inLoop {q : Nat} (h : ∀ i, ¬ sh.InLoop q i) (s : σ) :
    rem sh B pc lives q s = if pc s ≤ q then 1 else 0 := by
  rw [rem, dif_neg (fun ⟨i, hi⟩ => h i hi)]

theorem rem_le (H : Bounded sh B pc lives takes I done step) (q : Nat) (s : σ) :
    rem sh B pc lives q s ≤ B + 1 := by
  by_cases h : ∃ i, sh.InLoop q i
  · obtain ⟨i, hi⟩ := h
    have := H.lives_le i s
    rw [rem_of_inLoop hi, loopRem]
    split_ifs <;> omega
  · rw [rem_of_not_inLoop (fun i hi => h ⟨i, hi⟩)]
    split_ifs <;> omega

/-! ## one step -/

/-- what a step does, for both kinds of places -/
theorem step_cases (H : Bounded sh B pc lives takes I done step) {s t : σ} (hI : I s)
    (hd : done s = false) (ht : step s = some t) :
    I t ∧ pc s < n ∧
      ((pc t = pc s + 1 ∧ (∀ i, sh.InLoop (pc s) i → i ≠ pc s → lives i t = lives i s) ∧
          (sh.br (pc s) → takes s = false)) ∨
        (sh.br (pc s) ∧ takes s = true ∧ pc t = sh.land (pc s) ∧
          lives (pc s) t + 1 = lives (pc s) s)) := by
  have hlt : pc s < n := by
    by_contra hge
    exact absurd ((H.done_iff s hI).mpr (by omega)) (by simp [hd])
  by_cases hb : sh.br (pc s)
  · obtain ⟨u, hu, hIu, h⟩ := H.back s hI hlt hb
    obtain rfl := Option.some.inj (hu.symm.trans ht)
    rcases h with ⟨h1, h2, h3⟩ | ⟨h1, h2⟩
    · exact ⟨hIu, hlt, .inr ⟨hb, h1, h2, h3⟩⟩
    · refine ⟨hIu, hlt, .inl ⟨h2, fun i hi hne => ?_, fun _ => h1⟩⟩
      have hself : sh.InLoop (pc s) (pc s) := ⟨hb, sh.land_le _ hb, le_refl _⟩
      exact absurd (sh.inLoop_unique hi hself) hne
  · obtain ⟨u, hu, hIu, h1, h2⟩ := H.plain s hI hlt hb
    obtain rfl := Option.some.inj (hu.symm.trans ht)
    exact ⟨hIu, hlt, .inl ⟨h1, fun i hi _ => h2 i hi, fun h => absurd h hb⟩⟩

theorem rem_step (H : Bounded sh B pc lives takes I done step) {s t : σ} (hI : I s)
    (hd : done s = false) (ht : step s = some t) (q : Nat) :
    rem sh B pc lives q t + (if q = pc s then 1 else 0) ≤ rem sh B pc lives q s := by
  obtain ⟨_, _, hcase⟩ := step_cases H hI hd ht
  by_cases hq : ∃ i, sh.InLoop q i
  · obtain ⟨i, hi⟩ := hq
    obtain ⟨hbi, hl, hu⟩ := id hi
    have hB := H.lives_le i t
    rw [rem_of_inLoop hi, rem_of_inLoop hi, loopRem, loopRem]
    rcases hcase with ⟨hpc, hlives, _⟩ | ⟨hb, _, hpc, hdec⟩
    · -- to the next place: inside the loop `lives` stays
      by_cases hin : sh.InLoop (pc s) i ∧ i ≠ pc s
      · have := hlives i hin.1 hin.2
        obtain ⟨⟨_, h1, h2⟩, h3⟩ := hin
        split_ifs <;> omega
      · have hout : pc s < sh.land i ∨ i ≤ pc s := by
          by_contra hc
          push Not at hc
          exact hin ⟨⟨hbi, hc.1, hc.2.le⟩, by omega⟩
        have := sh.land_le i hbi
        split_ifs <;> omega
    · -- back: only the loop of this very place changes
      have hland := sh.land_le _ hb
      rcases Nat.lt_trichotomy i (pc s) with h | h | h
      · have := sh.disjoint i (pc s) hbi hb h
        split_ifs <;> omega
      · subst h
        split_ifs <;> omega
      · have := sh.disjoint (pc s) i hb hbi h
        split_ifs <;> omega
  · have hn : ∀ i, ¬ sh.InLoop q i := fun i hi => hq ⟨i, hi⟩
    rw [rem_of_not_inLoop hn, rem_of_not_inLoop hn]
    rcases hcase with ⟨hpc, _, _⟩ | ⟨hb, _, hpc, _⟩
    · split_ifs <;> omega
    · have hland := sh.land_le _ hb
      have hout : q < sh.land (pc s) ∨ pc s < q := by
        by_contra hc
        push Not at hc
        exact hn (pc s) ⟨hb, hc.1, hc.2⟩
      split_ifs <;> omega

/-! ## whole runs -/

/-- how often the back edge of `i` may still be taken -/
def takesLeft (sh : Shape n) (B : Nat) (pc : σ → Nat) (lives : Nat → σ → Nat) (i : Nat) (s : σ) :
    Nat :=
  if pc s < sh.land i then B else if pc s ≤ i then lives i s else 0

theorem takesLeft_step (H : Bounded sh B pc lives takes I done step) {s t : σ} (hI : I s)
    (hd : done s = false) (ht : step s = some t) {i : Nat} (hbi : sh.br i) :
    takesLeft sh B pc lives i t + (if (decide (pc s = i) && takes s) then 1 else 0)
      ≤ takesLeft sh B pc lives i s := by
  obtain ⟨_, _, hcase⟩ := step_cases H hI hd ht
  have hB := H.lives_le i t
  have hli := sh.land_le i hbi
  unfold takesLeft
  rcases hcase with ⟨hpc, hlives, hno⟩ | ⟨hb, htk, hpc, hdec⟩
  · by_cases he : pc s = i
    · rw [hno (by rwa [he]), Bool.and_false]
      simp only [Bool.false_eq_true, if_false]
      split_ifs <;> omega
    · have hlv : sh.InLoop (pc s) i → lives i t = lives i s := fun h => hlives i h (by omega)
      have hz : (decide (pc s = i) && takes s) = false := by simp [he]
      rw [hz]
      simp only [Bool.false_eq_true, if_false]
      by_cases hin : sh.land i ≤ pc s ∧ pc s ≤ i
      · have := hlv ⟨hbi, hin.1, hin.2⟩
        split_ifs <;> omega
      · split_ifs <;> omega
  · have hland := sh.land_le _ hb
    rw [htk, Bool.and_true]
    rcases Nat.lt_trichotomy i (pc s) with h | h | h
    · have := sh.disjoint i (pc s) hbi hb h
      simp only [decide_eq_true_eq]
      split_ifs <;> omega
    · subst h
      simp only [decide_true, if_true]
      split_ifs <;> omega
    · have := sh.disjoint (pc s) i hb hbi h
      simp only [decide_eq_true_eq]
      split_ifs <;> omega

/-- visits of all the places still to come -/
noncomputable def stepsLeft (sh : Shape n) (B : Nat) (pc : σ → Nat) (lives : Nat → σ → Nat)
    (s : σ) : Nat :=
  ∑ q ∈ Finset.range n, rem sh B pc lives q s

theorem stepsLeft_le (H : Bounded sh B pc lives takes I done step) (s : σ) :
    stepsLeft sh B pc lives s ≤ (B + 1) * n := by
  have h := Finset.sum_le_card_nsmul (Finset.range n) (fun q => rem sh B pc lives q s) (B + 1)
    (fun q _ => rem_le H q s)
  rw [Finset.card_range, smul_eq_mul, Nat.mul_comm] at h
  exact h

theorem stepsLeft_step (H : Bounded sh B pc lives takes I done step) {s t : σ} (hI : I s)
    (hd : done s = false) (ht : step s = some t) :
    stepsLeft sh B pc lives t < stepsLeft sh B pc lives s := by
  have hlt := (step_cases H hI hd ht).2.1
  refine Finset.sum_lt_sum (fun q _ => ?_) ⟨pc s, Finset.mem_range.mpr hlt, ?_⟩
  · have := rem_step H hI hd ht q
    omega
  · have := rem_step H hI hd ht (pc s)
    rw [if_pos rfl] at this
    omega

theorem exists_step (H : Bounded sh B pc lives takes I done step) {s : σ} (hI : I s)
    (hd : done s = false) : ∃ t, step s = some t ∧ I t := by
  have hlt : pc s < n := by
    by_contra hge
    exact absurd ((H.done_iff s hI).mpr (by omega)) (by simp [hd])
  by_cases hb : sh.br (pc s)
  · obtain ⟨t, ht, hIt, _⟩ := H.back s hI hlt hb
    exact ⟨t, ht, hIt⟩
  · obtain ⟨t, ht, hIt, _⟩ := H.plain s hI hlt hb
    exact ⟨t, ht, hIt⟩

theorem run_bounded (H : Bounded sh B pc lives takes I done step) (s : σ) (hI : I s) :
    ∃ t, Loop.run done step ((B + 1) * n) s = some t ∧ I t ∧ done t = true := by
  have hdec : ∀ s, I s → done s = false → ∃ t, step s = some t ∧ I t ∧
      stepsLeft sh B pc lives t < stepsLeft sh B pc lives s := by
    intro s hI hd
    obtain ⟨t, ht, hIt⟩ := exists_step H hI hd
    exact ⟨t, ht, hIt, stepsLeft_step H hI hd ht⟩
  exact Loop.run_of_measure I _ hdec _ s hI (stepsLeft_le H s)

theorem steps_bounded (H : Bounded sh B pc lives takes I done step) (k : Nat) (s : σ) (hI : I s) :
    (Loop.steps done step k s).length ≤ (B + 1) * n := by
  have h := Loop.count_le I (stepsLeft sh B pc lives) (fun _ => true)
    (fun s t hI hd ht => ⟨(step_cases H hI hd ht).1, stepsLeft_step H hI hd ht⟩) k s hI
  rw [List.countP_true] at h
  exact h.trans (stepsLeft_le H s)

theorem takes_bounded (H : Bounded sh B pc lives takes I done step) (k : Nat) (s : σ) (hI : I s)
    {i : Nat} (hbi : sh.br i) :
    ((Loop.steps done step k s).countP fun p => decide (pc p.1 = i) && takes p.1) ≤ B := by
  have h := Loop.count_le I (takesLeft sh B pc lives i) (fun s => decide (pc s = i) && takes s)
    (fun s t hI hd ht => ⟨(step_cases H hI hd ht).1, takesLeft_step H hI hd ht hbi⟩) k s hI
  refine h.trans ?_
  have := H.lives_le i s
  unfold takesLeft
  split_ifs <;> omega

end
end BackEdge
