import Mathlib.Algebra.Order.Group.Nat
import Mathlib.Tactic.Ring

/-!
# Loops that move a pointer

`Stride.upTo f d stop (p, s)` is `while (p < stop) { s = f(p, s); p += d; }` for a positive `d`,
`Stride.turns f d n` are `n` turns of it.

* `upTo_of_lt`, `upTo_of_ge`  the loop is the `while` loop;
* `upTo_upTo`     a loop to a first bound and then to a second one is the loop to the second;
* `upTo_unroll`   `k` bodies in each turn, where the length is a multiple of theirs;
* `upTo_rel`      what each turn of two loops keeps, the loops keep;
* `upTo_onClass`  turns that work on separate cells, in place.
-/

namespace Stride
variable {σ : Type*} (f : Nat → σ → σ) (d : Nat)

def turns : Nat → Nat × σ → Nat × σ
  | 0, x => x
  | n + 1, x => turns n (x.1 + d, f x.1 x.2)

def upTo (stop : Nat) (x : Nat × σ) : Nat × σ := turns f d ((stop - x.1 + (d - 1)) / d) x

/-- `k` bodies one after the other -/
def unroll (k p : Nat) (s : σ) : σ := (turns f d k (p, s)).2

theorem turns_fst (n : Nat) (x : Nat × σ) : (turns f d n x).1 = x.1 + d * n := by
  induction n generalizing x with
  | zero => rfl
  | succ n ih =>
    rw [turns, ih, Nat.mul_succ]
    omega

theorem turns_add (m n : Nat) (x : Nat × σ) :
    turns f d (m + n) x = turns f d n (turns f d m x) := by
  induction m generalizing x with
  | zero => rw [Nat.zero_add, turns]
  | succ m ih => rw [Nat.succ_add, turns, turns, ih]

variable {f d}

theorem upTo_of_ge {stop : Nat} {x : Nat × σ} (hd : 0 < d) (h : stop ≤ x.1) :
    upTo f d stop x = x := by
  unfold upTo
  rw [Nat.sub_eq_zero_of_le h, Nat.zero_add, Nat.div_eq_of_lt (by omega), turns]

theorem upTo_of_lt {stop : Nat} {x : Nat × σ} (hd : 0 < d) (h : x.1 < stop) :
    upTo f d stop x = upTo f d stop (x.1 + d, f x.1 x.2) := by
  unfold upTo
  have hcount : (stop - x.1 + (d - 1)) / d = (stop - (x.1 + d) + (d - 1)) / d + 1 := by
    by_cases hle : x.1 + d ≤ stop
    · rw [show stop - x.1 + (d - 1) = stop - (x.1 + d) + (d - 1) + d by omega,
        Nat.add_div_right _ hd]
    · rw [Nat.sub_eq_zero_of_le (show stop ≤ x.1 + d by omega), Nat.zero_add,
        Nat.div_eq_of_lt (show d - 1 < d by omega),
        show stop - x.1 + (d - 1) = stop - x.1 - 1 + d by omega, Nat.add_div_right _ hd,
        Nat.div_eq_of_lt (by omega)]
  rw [hcount, turns]

theorem upTo_eq_turns {stop n : Nat} {x : Nat × σ} (hd : 0 < d) (h : stop - x.1 = d * n) :
    upTo f d stop x = turns f d n x := by
  unfold upTo
  rw [h, Nat.mul_add_div hd, Nat.div_eq_of_lt (by omega), Nat.add_zero]

theorem upTo_upTo {stop stop' : Nat} (hd : 0 < d) (h : stop ≤ stop') (x : Nat × σ) :
    upTo f d stop' (upTo f d stop x) = upTo f d stop' x := by
  induction hn : stop - x.1 using Nat.strong_induction_on generalizing x with
  | _ n ih =>
    by_cases hlt : x.1 < stop
    · have hlt' : x.1 < stop' := by omega
      have hrest := ih (stop - (x.1 + d)) (by omega) (x.1 + d, f x.1 x.2) rfl
      rw [upTo_of_lt hd hlt, upTo_of_lt hd hlt', hrest]
    · have hge : stop ≤ x.1 := by omega
      rw [upTo_of_ge hd hge]

theorem turns_unroll (k n : Nat) (x : Nat × σ) :
    turns (unroll f d k) (d * k) n x = turns f d (k * n) x := by
  induction n generalizing x with
  | zero => rfl
  | succ n ih =>
    have hturn : (x.1 + d * k, unroll f d k x.1 x.2) = turns f d k x := by
      rw [← turns_fst f d k x]
      rfl
    rw [turns, ih, Nat.mul_succ, Nat.add_comm (k * n), turns_add, hturn]

theorem upTo_unroll {stop k : Nat} {x : Nat × σ} (hd : 0 < d) (hk : 0 < k)
    (h : d * k ∣ stop - x.1) : upTo (unroll f d k) (d * k) stop x = upTo f d stop x := by
  obtain ⟨n, hn⟩ := h
  rw [upTo_eq_turns (Nat.mul_pos hd hk) hn, turns_unroll,
    upTo_eq_turns hd (by rw [hn, Nat.mul_assoc])]

/-! ## counting by one -/

section
variable {τ : Type*} {f : Nat → σ → σ} {g : Nat → τ → τ} {start stop : Nat}

theorem upTo_rel (R : Nat → σ → τ → Prop) (hle : start ≤ stop)
    (hstep : ∀ i s t, start ≤ i → i < stop → R i s t → R (i + 1) (f i s) (g i t)) {s : σ} {t : τ}
    (h : R start s t) : R stop (upTo f 1 stop (start, s)).2 (upTo g 1 stop (start, t)).2 := by
  induction hn : stop - start generalizing start s t with
  | zero =>
    obtain rfl : start = stop := by omega
    rw [upTo_of_ge (x := (start, s)) Nat.one_pos (Nat.le_refl _),
      upTo_of_ge (x := (start, t)) Nat.one_pos (Nat.le_refl _)]
    exact h
  | succ n ih =>
    have hlt : start < stop := by omega
    rw [upTo_of_lt (x := (start, s)) Nat.one_pos hlt, upTo_of_lt (x := (start, t)) Nat.one_pos hlt]
    exact ih hlt (fun i s t hi => hstep i s t (by omega)) (hstep start s t (Nat.le_refl _) hlt h)
      (by omega)

theorem upTo_inv (I : Nat → σ → Prop) (hle : start ≤ stop)
    (hstep : ∀ i s, start ≤ i → i < stop → I i s → I (i + 1) (f i s)) {s : σ} (h : I start s) :
    I stop (upTo f 1 stop (start, s)).2 :=
  upTo_rel (g := f) (fun i s _ => I i s) hle (fun i s _ => hstep i s) (t := s) h

end

/-! ## separate cells -/

section
variable {κ β : Type*} (cls : κ → Nat) (g : Nat → (κ → β) → κ → β)

/-- turn `i` computes the cells of class `i` -/
def onClass (i : Nat) (s : κ → β) : κ → β := fun k => if cls k = i then g i s k else s k

variable {cls g}

/-- a turn that reads no cell of another class finds its own as they were -/
theorem upTo_onClass
    (hg : ∀ i s s', (∀ k, cls k = i → s k = s' k) → ∀ k, cls k = i → g i s k = g i s' k)
    (s : κ → β) {stop : Nat} {k : κ} (hk : cls k < stop) :
    (upTo (onClass cls g) 1 stop (0, s)).2 k = g (cls k) s k := by
  have h : ∀ k, (upTo (onClass cls g) 1 stop (0, s)).2 k
      = if cls k < stop then g (cls k) s k else s k := by
    refine upTo_inv (fun i (t : κ → β) => ∀ k, t k = if cls k < i then g (cls k) s k else s k)
      (Nat.zero_le _) ?_ (fun k => (if_neg (Nat.not_lt_zero _)).symm)
    intro i t _ _ ht k
    show (if cls k = i then g i t k else t k) = _
    by_cases heq : cls k = i
    · have hcells : ∀ j, cls j = i → t j = s j := fun j hj => by
        rw [ht j, if_neg (by omega)]
      rw [if_pos heq, if_pos (by omega), hg i t s hcells k heq, heq]
    · rw [if_neg heq, ht k]
      by_cases hlt : cls k < i
      · rw [if_pos hlt, if_pos (by omega)]
      · rw [if_neg hlt, if_neg (by omega)]
  rw [h, if_pos hk]

end

end Stride
