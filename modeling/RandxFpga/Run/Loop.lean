import Mathlib.Data.List.Forall2
import Mathlib.Data.Option.Basic
import Mathlib.Logic.Function.Iterate

/-!
# Loops with a bound on the number of steps

`Loop.run done step n s` is the loop `while (!done(s)) s = step(s)` with at most `n` steps:
`none` means a stuck step or too few steps.  `Loop.steps` lists its steps as pairs of the state
before and the state after.

* `run_of_measure`  an invariant and a decreasing measure: the loop ends within the measure;
* `run_inv`         an invariant holds where the loop ends;
* `count_le`        a potential that pays for the steps of one kind bounds their number;
* `steps_inv`       every step starts and ends in the invariant;
* `run_view`        what the steps do to a part of the state, read off their log;
* `run_sim`         two loops in a relation that each pair of steps keeps, as long as the steps
                    of the first one satisfy a side condition;
* `run_iterate`     a step that is never stuck is iterated until it is done;
* `run_map`         a function that commutes with the step commutes with the loop.

`Loop.times step n` is a loop that counts its turns, with the same lemmas about an invariant
(`times_inv`), another step (`times_congr`) and a function that commutes (`times_map`).
-/

namespace Loop
section
variable {σ : Type*} (done : σ → Bool) (step : σ → Option σ)

def run : Nat → σ → Option σ
  | 0, s => if done s then some s else none
  | n + 1, s => if done s then some s else (step s).bind (run n)

def steps : Nat → σ → List (σ × σ)
  | 0, _ => []
  | n + 1, s =>
    if done s then [] else match step s with
      | none => []
      | some t => (s, t) :: steps n t

variable {done step}

theorem run_of_done {n : Nat} {s : σ} (h : done s = true) : run done step n s = some s := by
  cases n <;> rw [run, if_pos h]

theorem steps_of_done {n : Nat} {s : σ} (h : done s = true) : steps done step n s = [] := by
  cases n
  · rfl
  · rw [steps, if_pos h]

theorem run_succ {n : Nat} {s t : σ} (h : done s = false) (ht : step s = some t) :
    run done step (n + 1) s = run done step n t := by
  rw [run, if_neg (by simp [h]), ht, Option.bind_some]

theorem run_some_succ {f : σ → σ} {n : Nat} {s : σ} (h : done s = false) :
    run done (fun s => some (f s)) (n + 1) s = run done (fun s => some (f s)) n (f s) :=
  run_succ h rfl

/-- the first iterate that is done -/
theorem run_iterate {f : σ → σ} {k n : Nat} {s : σ} (hk : k ≤ n)
    (hbefore : ∀ i < k, done (f^[i] s) = false) (hdone : done (f^[k] s) = true) :
    run done (fun s => some (f s)) n s = some (f^[k] s) := by
  induction k generalizing n s with
  | zero => exact run_of_done hdone
  | succ k ih =>
    obtain ⟨n, rfl⟩ : ∃ m, n = m + 1 := ⟨n - 1, by omega⟩
    have hs : done s = false := hbefore 0 (by omega)
    rw [run_some_succ hs]
    exact ih (by omega) (fun i hi => hbefore (i + 1) (by omega)) hdone

theorem steps_succ {n : Nat} {s t : σ} (h : done s = false) (ht : step s = some t) :
    steps done step (n + 1) s = (s, t) :: steps done step n t := by
  rw [steps, if_neg (by simp [h]), ht]

theorem run_congr {step' : σ → Option σ} (h : ∀ s, done s = false → step s = step' s) (n : Nat)
    (s : σ) :
    run done step n s = run done step' n s ∧ steps done step n s = steps done step' n s := by
  induction n generalizing s with
  | zero => exact ⟨rfl, rfl⟩
  | succ n ih =>
    cases hd : done s with
    | true =>
      rw [run_of_done hd, run_of_done hd, steps_of_done hd, steps_of_done hd]
      exact ⟨rfl, rfl⟩
    | false =>
      cases ht : step s with
      | none =>
        have ht' : step' s = none := by rw [← h s hd, ht]
        rw [run, run, steps, steps, if_neg (by simp [hd]), if_neg (by simp [hd]),
          if_neg (by simp [hd]), if_neg (by simp [hd]), ht, ht']
        exact ⟨rfl, rfl⟩
      | some t =>
        have ht' : step' s = some t := by rw [← h s hd, ht]
        rw [run_succ hd ht, run_succ hd ht', steps_succ hd ht, steps_succ hd ht', (ih t).1, (ih t).2]
        exact ⟨rfl, rfl⟩

/-- **Termination**: the measure bounds the number of steps. -/
theorem run_of_measure (I : σ → Prop) (m : σ → Nat)
    (hstep : ∀ s, I s → done s = false → ∃ t, step s = some t ∧ I t ∧ m t < m s) :
    ∀ (n : Nat) (s : σ), I s → m s ≤ n →
      ∃ t, run done step n s = some t ∧ I t ∧ done t = true := by
  intro n
  induction n with
  | zero =>
    intro s hI hm
    cases hd : done s with
    | true => exact ⟨s, run_of_done hd, hI, hd⟩
    | false =>
      obtain ⟨t, _, _, hlt⟩ := hstep s hI hd
      omega
  | succ n ih =>
    intro s hI hm
    cases hd : done s with
    | true => exact ⟨s, run_of_done hd, hI, hd⟩
    | false =>
      obtain ⟨t, ht, hIt, hlt⟩ := hstep s hI hd
      obtain ⟨u, hu, hIu, hdu⟩ := ih t hIt (by omega)
      exact ⟨u, by rw [run_succ hd ht, hu], hIu, hdu⟩

/-- an invariant holds where the loop ends, if it does -/
theorem run_inv (I : σ → Prop) (hstep : ∀ s t, I s → done s = false → step s = some t → I t)
    {n : Nat} {s u : σ} (hI : I s) (h : run done step n s = some u) : I u ∧ done u = true := by
  induction n generalizing s with
  | zero =>
    cases hd : done s with
    | true =>
      rw [run_of_done hd] at h
      exact Option.some.inj h ▸ ⟨hI, hd⟩
    | false =>
      rw [run, if_neg (by simp [hd])] at h
      exact absurd h nofun
  | succ n ih =>
    cases hd : done s with
    | true =>
      rw [run_of_done hd] at h
      exact Option.some.inj h ▸ ⟨hI, hd⟩
    | false =>
      cases ht : step s with
      | none =>
        rw [run, if_neg (by simp [hd]), ht] at h
        exact absurd h nofun
      | some t =>
        rw [run_succ hd ht] at h
        exact ih (hstep s t hI hd ht) h

theorem steps_inv (I : σ → Prop)
    (hstep : ∀ s t, I s → done s = false → step s = some t → I t) :
    ∀ (n : Nat) (s : σ), I s → ∀ p ∈ steps done step n s,
      I p.1 ∧ I p.2 ∧ done p.1 = false ∧ step p.1 = some p.2 := by
  intro n
  induction n with
  | zero => intro s _ p hp; exact absurd hp (by simp [steps])
  | succ n ih =>
    intro s hI p hp
    cases hd : done s with
    | true =>
      rw [steps_of_done hd] at hp
      exact absurd hp (by simp)
    | false =>
      cases ht : step s with
      | none =>
        rw [steps, if_neg (by simp [hd]), ht] at hp
        exact absurd hp (by simp)
      | some t =>
        rw [steps_succ hd ht] at hp
        rcases List.mem_cons.mp hp with rfl | hp
        · exact ⟨hI, hstep s t hI hd ht, hd, ht⟩
        · exact ih t (hstep s t hI hd ht) p hp

/-- **The view of the final state is the log of the steps, applied to the view of the first.** -/
theorem run_view {β γ : Type*} (I : σ → Prop) (view : σ → β) (log : σ → List γ)
    (apply : β → γ → β)
    (hstep : ∀ s t, I s → done s = false → step s = some t →
      I t ∧ view t = (log s).foldl apply (view s)) :
    ∀ (n : Nat) (s t : σ), I s → run done step n s = some t →
      view t = ((steps done step n s).flatMap fun p => log p.1).foldl apply (view s) := by
  intro n
  induction n with
  | zero =>
    intro s t _ hrun
    cases hd : done s with
    | true =>
      rw [run_of_done hd, Option.some.injEq] at hrun
      rw [hrun]
      rfl
    | false =>
      rw [run, if_neg (by simp [hd])] at hrun
      exact absurd hrun (by simp)
  | succ n ih =>
    intro s t hI hrun
    cases hd : done s with
    | true =>
      rw [run_of_done hd, Option.some.injEq] at hrun
      rw [steps_of_done hd, hrun]
      rfl
    | false =>
      cases hu : step s with
      | none =>
        rw [run, if_neg (by simp [hd]), hu] at hrun
        exact absurd hrun (by simp)
      | some u =>
        obtain ⟨hIu, hview⟩ := hstep s u hI hd hu
        rw [run_succ hd hu] at hrun
        rw [steps_succ hd hu, List.flatMap_cons, List.foldl_append, ← hview]
        exact ih u t hIu hrun

/-- **A potential that no step raises and every step of the kind `P` lowers bounds the number of
steps of that kind.** -/
theorem count_le (I : σ → Prop) (T : σ → Nat) (P : σ → Bool)
    (hstep : ∀ s t, I s → done s = false → step s = some t →
      I t ∧ T t + (if P s then 1 else 0) ≤ T s) :
    ∀ (n : Nat) (s : σ), I s → ((steps done step n s).countP fun p => P p.1) ≤ T s := by
  intro n
  induction n with
  | zero => intro s _; exact Nat.zero_le _
  | succ n ih =>
    intro s hI
    cases hd : done s with
    | true =>
      rw [steps_of_done hd]
      exact Nat.zero_le _
    | false =>
      cases ht : step s with
      | none =>
        rw [steps, if_neg (by simp [hd]), ht]
        exact Nat.zero_le _
      | some t =>
        obtain ⟨hIt, hle⟩ := hstep s t hI hd ht
        rw [steps_succ hd ht, List.countP_cons]
        have := ih t hIt
        show _ + (if P s then 1 else 0) ≤ _
        omega

end

section
variable {σ τ : Type*} {done : σ → Bool} {step : σ → Option σ} {done' : τ → Bool}
  {step' : τ → Option τ}

/-- **Two loops step by step**: while the steps of the first loop satisfy `C`, related states
take related steps. -/
theorem run_sim (R : σ → τ → Prop) (C : σ → Prop) (hdone : ∀ s t, R s t → done s = done' t)
    (hstep : ∀ s t, R s t → done s = false → C s → Option.Rel R (step s) (step' t)) :
    ∀ (n : Nat) (s : σ) (t : τ), R s t → (∀ p ∈ steps done step n s, C p.1) →
      (∀ u, done u = false → step u = none → C u) →
      Option.Rel R (run done step n s) (run done' step' n t) ∧
      List.Forall₂ (fun p q => R p.1 q.1 ∧ R p.2 q.2) (steps done step n s)
        (steps done' step' n t) := by
  intro n
  induction n with
  | zero =>
    intro s t hR _ _
    refine ⟨?_, List.Forall₂.nil⟩
    rw [run, run, ← hdone s t hR]
    cases done s with
    | true => exact Option.Rel.some hR
    | false => exact Option.Rel.none
  | succ n ih =>
    intro s t hR hC hstuck
    cases hd : done s with
    | true =>
      have hd' : done' t = true := by rw [← hdone s t hR, hd]
      rw [run_of_done hd, run_of_done hd', steps_of_done hd, steps_of_done hd']
      exact ⟨Option.Rel.some hR, List.Forall₂.nil⟩
    | false =>
      have hd' : done' t = false := by rw [← hdone s t hR, hd]
      cases hs : step s with
      | none =>
        have hrel := hstep s t hR hd (hstuck s hd hs)
        rw [hs] at hrel
        cases ht : step' t with
        | some v => rw [ht] at hrel; cases hrel
        | none =>
          rw [run, run, steps, steps, if_neg (by simp [hd]), if_neg (by simp [hd']),
            if_neg (by simp [hd]), if_neg (by simp [hd']), hs, ht]
          exact ⟨Option.Rel.none, List.Forall₂.nil⟩
      | some u =>
        rw [steps_succ hd hs] at hC
        have hrel := hstep s t hR hd (hC (s, u) List.mem_cons_self)
        rw [hs] at hrel
        cases ht : step' t with
        | none => rw [ht] at hrel; cases hrel
        | some v =>
          rw [ht] at hrel
          have hRuv : R u v := by cases hrel; assumption
          obtain ⟨hrun, hall⟩ := ih u v hRuv (fun p hp => hC p (List.mem_cons_of_mem _ hp)) hstuck
          rw [run_succ hd hs, run_succ hd' ht, steps_succ hd hs, steps_succ hd' ht]
          exact ⟨hrun, List.Forall₂.cons ⟨hR, hRuv⟩ hall⟩

theorem forall_of_forall₂ {R : σ → τ → Prop} {P : σ → Prop} {Q : τ → Prop} {l : List σ}
    {l' : List τ} (h : List.Forall₂ R l l') (hPQ : ∀ a b, R a b → P a → Q b) (hP : ∀ a ∈ l, P a) :
    ∀ b ∈ l', Q b := by
  induction h with
  | nil => exact fun b hb => absurd hb (by simp)
  | cons hab _ ih =>
    intro b hb
    rcases List.mem_cons.mp hb with rfl | hb
    · exact hPQ _ _ hab (hP _ List.mem_cons_self)
    · exact ih (fun a ha => hP a (List.mem_cons_of_mem _ ha)) b hb

end

section
variable {σ τ : Type*} {done : σ → Bool} {step : σ → Option σ} {done' : τ → Bool}
  {step' : τ → Option τ}

theorem run_map (f : σ → τ) (hdone : ∀ s, done' (f s) = done s)
    (hstep : ∀ s, done s = false → step' (f s) = (step s).map f) (n : Nat) (s : σ) :
    run done' step' n (f s) = (run done step n s).map f := by
  induction n generalizing s with
  | zero =>
    rw [run, run, hdone]
    cases done s <;> rfl
  | succ n ih =>
    rw [run, run, hdone]
    cases hd : done s with
    | true => rfl
    | false =>
      rw [if_neg Bool.false_ne_true, if_neg Bool.false_ne_true, hstep s hd]
      cases step s with
      | none => rfl
      | some t => exact ih t

end

/-! ## loops that count their turns -/

section
variable {σ τ : Type*}

def times (step : σ → Option σ) : Nat → σ → Option σ
  | 0, s => some s
  | n + 1, s => (step s).bind (times step n)

theorem times_inv {step : σ → Option σ} (I : σ → Prop)
    (hstep : ∀ s, I s → ∃ t, step s = some t ∧ I t) (n : Nat) (s : σ) (hs : I s) :
    ∃ t, times step n s = some t ∧ I t := by
  induction n generalizing s with
  | zero => exact ⟨s, rfl, hs⟩
  | succ n ih =>
    obtain ⟨t, ht, hIt⟩ := hstep s hs
    obtain ⟨u, hu, hIu⟩ := ih t hIt
    exact ⟨u, by rw [times, ht, Option.bind_some, hu], hIu⟩

/-- two loops with related steps, side by side -/
theorem times_rel {step : σ → Option σ} {step' : τ → Option τ} (R : σ → τ → Prop)
    (hstep : ∀ s t, R s t → ∃ s' t', step s = some s' ∧ step' t = some t' ∧ R s' t') (n : Nat)
    {s : σ} {t : τ} (h : R s t) :
    ∃ s' t', times step n s = some s' ∧ times step' n t = some t' ∧ R s' t' := by
  induction n generalizing s t with
  | zero => exact ⟨s, t, rfl, rfl, h⟩
  | succ n ih =>
    obtain ⟨s', t', hs, ht, h'⟩ := hstep s t h
    obtain ⟨s'', t'', hs', ht', h''⟩ := ih h'
    exact ⟨s'', t'', by rw [times, hs, Option.bind_some, hs'],
      by rw [times, ht, Option.bind_some, ht'], h''⟩

theorem times_congr {step step' : σ → Option σ} (I : σ → Prop)
    (hstep : ∀ s, I s → step s = step' s ∧ ∀ t, step s = some t → I t) (n : Nat) (s : σ)
    (hs : I s) : times step n s = times step' n s := by
  induction n generalizing s with
  | zero => rfl
  | succ n ih =>
    obtain ⟨heq, hinv⟩ := hstep s hs
    rw [times, times, ← heq]
    cases ht : step s with
    | none => rfl
    | some t => exact ih t (hinv t ht)

theorem times_map {step : σ → Option σ} {step' : τ → Option τ} (f : σ → τ)
    (hstep : ∀ s, step' (f s) = (step s).map f) (n : Nat) (s : σ) :
    times step' n (f s) = (times step n s).map f := by
  induction n generalizing s with
  | zero => rfl
  | succ n ih =>
    rw [times, times, hstep]
    cases step s with
    | none => rfl
    | some t => exact ih t

end
end Loop
