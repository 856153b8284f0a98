import Mathlib.Data.Set.Lattice
import Mathlib.Logic.Relation
import Mathlib.Order.CompletePartialOrder
import Mathlib.Order.Interval.Set.Defs

/-!
# Numbers given out from a counter

An `Office` gives each party that asks a range of numbers from a counter on.  A party spends the
numbers that it holds, a set at a time, or lets them go.

* `Step.inv`      each step keeps `Inv`;
* `Reaches.inv`   then no number is spent twice, in any order of steps.
-/

namespace Tickets

structure Office (ι : Type*) where
  next : Nat
  held : ι → Set Nat
  spent : List (Set Nat)

section
variable {ι : Type*} [DecidableEq ι] {o o' : Office ι}

namespace Office

/-- `t` gets the next `n` numbers for those that it holds -/
def take (o : Office ι) (t : ι) (n : Nat) : Office ι :=
  { o with
    next := o.next + n
    held := Function.update o.held t (Set.Ico o.next (o.next + n)) }

/-- `t` spends `x` and keeps `rest` -/
def spend (o : Office ι) (t : ι) (x rest : Set Nat) : Office ι :=
  { o with
    held := Function.update o.held t rest
    spent := x :: o.spent }

/-- `t` lets the numbers go -/
def drop (o : Office ι) (t : ι) : Office ι := { o with held := Function.update o.held t ∅ }

end Office

inductive Step : Office ι → Office ι → Prop where
  | take (o : Office ι) (t : ι) (n : Nat) : Step o (o.take t n)
  | spend (o : Office ι) (t : ι) (x rest : Set Nat) (hx : x ⊆ o.held t) (hrest : rest ⊆ o.held t)
    (hdisjoint : Disjoint x rest) : Step o (o.spend t x rest)
  | drop (o : Office ι) (t : ι) : Step o (o.drop t)

def Reaches : Office ι → Office ι → Prop := Relation.ReflTransGen Step

/-- no number has two owners, and those in front of the counter have none -/
structure Inv (o : Office ι) : Prop where
  held_lt : ∀ t, ∀ x ∈ o.held t, x < o.next
  held_disjoint : ∀ t u, t ≠ u → Disjoint (o.held t) (o.held u)
  spent_lt : ∀ s ∈ o.spent, ∀ x ∈ s, x < o.next
  spent_held : ∀ s ∈ o.spent, ∀ t, Disjoint s (o.held t)
  spent_disjoint : o.spent.Pairwise Disjoint

theorem held_disjoint_update {held : ι → Set Nat} {t : ι} {s : Set Nat}
    (h : ∀ u v, u ≠ v → Disjoint (held u) (held v)) (hs : ∀ u, u ≠ t → Disjoint s (held u))
    (u v : ι) (huv : u ≠ v) :
    Disjoint (Function.update held t s u) (Function.update held t s v) := by
  by_cases hu : u = t
  · subst hu
    rw [Function.update_self, Function.update_of_ne huv.symm]
    exact hs v huv.symm
  · rw [Function.update_of_ne hu]
    by_cases hv : v = t
    · subst hv
      rw [Function.update_self]
      exact (hs u hu).symm
    · rw [Function.update_of_ne hv]
      exact h u v huv

/-- the numbers from the counter on are nobody's -/
theorem disjoint_of_lt {n m : Nat} {s : Set Nat} (h : ∀ x ∈ s, x < n) :
    Disjoint (Set.Ico n m) s := by
  rw [Set.disjoint_left]
  intro x hx hs
  exact absurd (h x hs) (Nat.not_lt.mpr hx.1)

theorem Step.inv (h : Step o o') (hi : Inv o) : Inv o' := by
  cases h with
  | take t n =>
    refine ⟨?_, ?_, fun s hs x hx => ?_, fun s hs => ?_, hi.spent_disjoint⟩
    · refine (Function.forall_update_iff o.held fun _ s => ∀ x ∈ s, x < o.next + n).mpr
        ⟨fun x hx => hx.2, ?_⟩
      intro u _ x hx
      exact Nat.lt_of_lt_of_le (hi.held_lt u x hx) (Nat.le_add_right _ _)
    · exact held_disjoint_update hi.held_disjoint fun u _ => disjoint_of_lt (hi.held_lt u)
    · exact Nat.lt_of_lt_of_le (hi.spent_lt s hs x hx) (Nat.le_add_right _ _)
    · exact (Function.forall_update_iff o.held fun _ s' => Disjoint s s').mpr
        ⟨(disjoint_of_lt (hi.spent_lt s hs)).symm, fun u _ => hi.spent_held s hs u⟩
  | spend t x rest hx hrest hdisjoint =>
    refine ⟨?_, ?_, fun s hs y hy => ?_, fun s hs => ?_, ?_⟩
    · exact (Function.forall_update_iff o.held fun _ s => ∀ y ∈ s, y < o.next).mpr
        ⟨fun y hy => hi.held_lt t y (hrest hy), fun u _ => hi.held_lt u⟩
    · exact held_disjoint_update hi.held_disjoint fun u hu =>
        (hi.held_disjoint t u hu.symm).mono_left hrest
    · obtain rfl | hs := List.mem_cons.mp hs
      · exact hi.held_lt t y (hx hy)
      · exact hi.spent_lt s hs y hy
    · obtain rfl | hs := List.mem_cons.mp hs
      · exact (Function.forall_update_iff o.held fun _ s' => Disjoint _ s').mpr
          ⟨hdisjoint, fun u hu => (hi.held_disjoint t u hu.symm).mono_left hx⟩
      · exact (Function.forall_update_iff o.held fun _ s' => Disjoint s s').mpr
          ⟨(hi.spent_held s hs t).mono_right hrest, fun u _ => hi.spent_held s hs u⟩
    · exact List.pairwise_cons.mpr
        ⟨fun s hs => ((hi.spent_held s hs t).mono_right hx).symm, hi.spent_disjoint⟩
  | drop t =>
    refine ⟨?_, ?_, hi.spent_lt, fun s hs => ?_, hi.spent_disjoint⟩
    · exact (Function.forall_update_iff o.held fun _ s => ∀ x ∈ s, x < o.next).mpr
        ⟨fun x hx => absurd hx id, fun u _ => hi.held_lt u⟩
    · exact held_disjoint_update hi.held_disjoint fun u _ => Set.empty_disjoint _
    · exact (Function.forall_update_iff o.held fun _ s' => Disjoint s s').mpr
        ⟨Set.disjoint_empty s, fun u _ => hi.spent_held s hs u⟩

/-- **No number is spent twice**, and none that another party holds. -/
theorem Reaches.inv (h : Reaches o o') (hi : Inv o) : Inv o' := by
  induction h with
  | refl => exact hi
  | tail _ hstep ih => exact hstep.inv ih

omit [DecidableEq ι] in
/-- nobody holds a number yet -/
theorem inv_start (n : Nat) : Inv (⟨n, fun _ => ∅, []⟩ : Office ι) where
  held_lt := fun _ _ hx => absurd hx id
  held_disjoint := fun _ _ _ => Set.empty_disjoint _
  spent_lt := fun _ hs => absurd hs List.not_mem_nil
  spent_held := fun _ hs => absurd hs List.not_mem_nil
  spent_disjoint := List.Pairwise.nil

end
end Tickets
