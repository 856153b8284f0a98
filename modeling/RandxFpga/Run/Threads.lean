import Mathlib.Algebra.Order.BigOperators.Group.Finset
import Mathlib.Logic.Relation
import RandxFpga.Run.Store

/-!
# Threads that share a store

In a `Pool` each thread has a list of requests that it has still to make of one store.  A `Step` is
one request, the first of any thread that has one.

* `Step.left_lt`, `exists_step`  every order of steps ends, and ends with all the requests made;
* `Reaches.cell`   threads that put no data but `g a` at an address `a`, in any order of steps,
                   leave each cell as it was or with `g` of its address;
* `Reaches.filled` and in the end the cells with `g` are those that some thread writes.
-/

namespace Threads
open Store

/-- the requests that each thread has left, and the contents of the store -/
structure Pool (ι α β : Type*) where
  left : ι → List (Op α β)
  store : α → β

section
variable {ι α β : Type*} [DecidableEq ι] [DecidableEq α] {p p' : Pool ι α β}

/-- the thread `t` makes its next request `q` -/
def Pool.turn (p : Pool ι α β) (t : ι) (q : Op α β) (rest : List (Op α β)) : Pool ι α β :=
  ⟨Function.update p.left t rest, apply p.store q⟩

inductive Step : Pool ι α β → Pool ι α β → Prop where
  | turn (p : Pool ι α β) (t : ι) (q : Op α β) (rest : List (Op α β)) (h : p.left t = q :: rest) :
    Step p (p.turn t q rest)

def Reaches : Pool ι α β → Pool ι α β → Prop := Relation.ReflTransGen Step

/-- all the threads are at their end -/
def Pool.Joined (p : Pool ι α β) : Prop := ∀ t, p.left t = []

section
variable {t : ι} {q : Op α β} {rest : List (Op α β)} (h : p.left t = q :: rest)

theorem turn_self : (p.turn t q rest).left t = rest := Function.update_self ..

theorem turn_of_ne {u : ι} (hu : u ≠ t) : (p.turn t q rest).left u = p.left u :=
  Function.update_of_ne hu ..

include h

theorem mem_of_mem_turn {u : ι} {x : Op α β} (hx : x ∈ (p.turn t q rest).left u) :
    x ∈ p.left u := by
  by_cases hu : u = t
  · subst hu
    rw [turn_self] at hx
    exact h ▸ List.mem_cons_of_mem _ hx
  · rwa [turn_of_ne hu] at hx

theorem mem_turn {u : ι} {x : Op α β} (hx : x ∈ p.left u) :
    x = q ∨ x ∈ (p.turn t q rest).left u := by
  by_cases hu : u = t
  · subst hu
    rw [turn_self]
    exact List.mem_cons.mp (h ▸ hx)
  · rw [turn_of_ne hu]
    exact .inr hx

end

/-! ## the end -/

theorem exists_step (h : ¬ p.Joined) : ∃ p', Step p p' := by
  obtain ⟨t, ht⟩ := not_forall.mp h
  obtain ⟨q, rest, hq⟩ := List.exists_cons_of_ne_nil ht
  exact ⟨_, .turn p t q rest hq⟩

/-- how many requests are left -/
def Pool.count [Fintype ι] (p : Pool ι α β) : Nat := ∑ t, (p.left t).length

theorem Step.count_lt [Fintype ι] (h : Step p p') : p'.count < p.count := by
  cases h with
  | turn t q rest h =>
    refine Finset.sum_lt_sum (fun u _ => ?_) ⟨t, Finset.mem_univ t, ?_⟩
    · by_cases hu : u = t
      · subst hu
        rw [turn_self, h]
        exact Nat.le_succ _
      · rw [turn_of_ne hu]
    · rw [turn_self, h]
      exact Nat.lt_succ_self _

/-- there is a way to the end from anywhere -/
theorem exists_joined [Fintype ι] (p : Pool ι α β) : ∃ p', Reaches p p' ∧ p'.Joined := by
  induction hn : p.count using Nat.strong_induction_on generalizing p with
  | _ n ih =>
    by_cases h : p.Joined
    · exact ⟨p, .refl, h⟩
    · obtain ⟨q, hq⟩ := exists_step h
      obtain ⟨p', hreach, hjoined⟩ := ih q.count (hn ▸ hq.count_lt) q rfl
      exact ⟨p', .head hq hreach, hjoined⟩

/-! ## threads that agree on the data -/

/-- all that is left to do at `a` is to write `v` -/
def Pool.Agrees (a : α) (v : β) (p : Pool ι α β) : Prop :=
  ∀ t, ∀ q ∈ p.left t, q.Writes a → q = .wr a v

/-- some thread writes to `a` -/
def Pool.Writes (a : α) (p : Pool ι α β) : Prop := ∃ t, ∃ q ∈ p.left t, q.Writes a

variable {a : α} {v : β}

theorem Step.agrees (h : Step p p') (ha : p.Agrees a v) : p'.Agrees a v := by
  cases h with
  | turn t q rest h =>
    intro u x hx hw
    exact ha u x (mem_of_mem_turn h hx) hw

/-- a step writes `v` to `a`, or leaves what is at `a` and what is left to do there -/
theorem Step.cell (h : Step p p') (ha : p.Agrees a v) :
    p'.store a = v ∧ p.Writes a ∨ p'.store a = p.store a ∧ (p'.Writes a ↔ p.Writes a) := by
  cases h with
  | turn t q rest h =>
    have hmem : q ∈ p.left t := h ▸ List.mem_cons_self
    by_cases hw : q.Writes a
    · refine .inl ⟨?_, t, q, hmem, hw⟩
      show apply p.store q a = v
      rw [ha t q hmem hw]
      exact Function.update_self ..
    · refine .inr ⟨apply_of_not_writes _ _ hw, fun hp => ?_, fun hp => ?_⟩
      · obtain ⟨u, x, hx, hxw⟩ := hp
        exact ⟨u, x, mem_of_mem_turn h hx, hxw⟩
      · obtain ⟨u, x, hx, hxw⟩ := hp
        obtain rfl | hx := mem_turn h hx
        · exact absurd hxw hw
        · exact ⟨u, x, hx, hxw⟩

/-- what a run does at an address that the threads agree on -/
theorem Reaches.agrees (h : Reaches p p') (ha : p.Agrees a v) :
    p'.Agrees a v ∧
      (p'.store a = v ∧ p.Writes a ∨ p'.store a = p.store a ∧ (p'.Writes a ↔ p.Writes a)) := by
  induction h with
  | refl => exact ⟨ha, .inr ⟨rfl, Iff.rfl⟩⟩
  | tail _ hstep ih =>
    obtain ⟨hq, hcell⟩ := ih
    refine ⟨hstep.agrees hq, ?_⟩
    obtain ⟨hv, hw⟩ | ⟨hs, hw⟩ := hcell
    · obtain ⟨hv', -⟩ | ⟨hs', -⟩ := hstep.cell hq
      · exact .inl ⟨hv', hw⟩
      · exact .inl ⟨hs'.trans hv, hw⟩
    · obtain ⟨hv', hw'⟩ | ⟨hs', hw'⟩ := hstep.cell hq
      · exact .inl ⟨hv', hw.mp hw'⟩
      · exact .inr ⟨hs'.trans hs, hw'.trans hw⟩

/-- the threads put no data but `g a` at `a` -/
def Pool.Puts (g : α → β) (p : Pool ι α β) : Prop :=
  ∀ t, ∀ q ∈ p.left t, ∃ a, q = .wr a (g a)

omit [DecidableEq ι] [DecidableEq α] in
theorem Pool.Puts.agrees {g : α → β} (h : p.Puts g) (a : α) : p.Agrees a (g a) := by
  intro t q hq hw
  obtain ⟨b, rfl⟩ := h t q hq
  obtain rfl : b = a := hw
  rfl

/-- **At any time a cell is as it was, or has its final data.** -/
theorem Reaches.cell {g : α → β} (h : Reaches p p') (hg : p.Puts g) (a : α) :
    p'.store a = p.store a ∨ p'.store a = g a ∧ p.Writes a := by
  obtain ⟨-, hcell⟩ := h.agrees (hg.agrees a)
  exact hcell.symm.imp_left And.left

/-- **In the end the cells that some thread writes have their final data, and no others.** -/
theorem Reaches.filled {g : α → β} (h : Reaches p p') (hg : p.Puts g) (hend : p'.Joined) (a : α) :
    (p.Writes a → p'.store a = g a) ∧ (¬ p.Writes a → p'.store a = p.store a) := by
  obtain ⟨-, hcell⟩ := h.agrees (hg.agrees a)
  refine ⟨fun hw => ?_, fun hw => ?_⟩
  · obtain ⟨hv, -⟩ | ⟨-, hiff⟩ := hcell
    · exact hv
    · obtain ⟨t, q, hq, -⟩ := hiff.mpr hw
      rw [hend t] at hq
      exact absurd hq List.not_mem_nil
  · obtain ⟨-, hw'⟩ | ⟨hs, -⟩ := hcell
    · exact absurd hw' hw
    · exact hs

end
end Threads
