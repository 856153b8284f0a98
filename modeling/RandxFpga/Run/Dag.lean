import Mathlib.Data.List.Chain
import Mathlib.Logic.Relation
import Mathlib.Order.Lattice.Nat

/-!
# Edges that climb a rank

A path is a chain `a :: l` of the edge relation, and it has `l.length` edges.

* `acyclic_of_rank`       no node reaches itself when every edge climbs;
* `critical_of_rank`      **a longest path exists when the ranks of the heads are bounded**;
* `not_critical_of_loop`  with an edge from a node to itself there is none.
-/

namespace Dag

section
variable {α : Type*} (r : α → α → Prop)

def Acyclic : Prop := ∀ a, ¬ Relation.TransGen r a a

/-- some path has as many edges as any -/
def Critical : Prop :=
  ∃ a l, List.IsChain r (a :: l) ∧ ∀ b l', List.IsChain r (b :: l') → l'.length ≤ l.length

variable {r} {rank : α → Nat} (hrank : ∀ a b, r a b → rank a < rank b)
include hrank

theorem rank_lt_of_transGen {a b : α} (h : Relation.TransGen r a b) : rank a < rank b := by
  induction h with
  | single h => exact hrank _ _ h
  | tail _ h ih => exact ih.trans (hrank _ _ h)

theorem acyclic_of_rank : Acyclic r := fun _ h => Nat.lt_irrefl _ (rank_lt_of_transGen hrank h)

/-- along a path the rank of its first node grows by one an edge -/
theorem length_le_of_rank {n : Nat} (hn : ∀ a b, r a b → rank b ≤ n) (a : α) (l : List α)
    (h : List.IsChain r (a :: l)) : l = [] ∨ rank a + l.length ≤ n := by
  induction l generalizing a with
  | nil => exact .inl rfl
  | cons b l ih =>
    obtain ⟨hab, hl⟩ := List.isChain_cons_cons.mp h
    have hlt := hrank a b hab
    have hle := hn a b hab
    right
    rw [List.length_cons]
    rcases ih b hl with rfl | hrest
    · rw [List.length_nil]
      omega
    · omega

theorem critical_of_rank [Nonempty α] {n : Nat} (hn : ∀ a b, r a b → rank b ≤ n) :
    Critical r := by
  let lengths : Set Nat := {k | ∃ a l, List.IsChain r (a :: l) ∧ l.length = k}
  have hne : lengths.Nonempty := ⟨0, Classical.arbitrary α, [], List.isChain_singleton _, rfl⟩
  have hbdd : BddAbove lengths := by
    refine ⟨n, ?_⟩
    rintro k ⟨a, l, hl, rfl⟩
    rcases length_le_of_rank hrank hn a l hl with rfl | h
    · exact Nat.zero_le _
    · omega
  obtain ⟨a, l, hl, hlen⟩ := Nat.sSup_mem hne hbdd
  refine ⟨a, l, hl, fun b l' hl' => ?_⟩
  rw [hlen]
  exact le_csSup hbdd ⟨b, l', hl', rfl⟩

end

section
variable {α : Type*} {r : α → α → Prop} {a : α} (h : r a a)
include h

theorem not_acyclic_of_loop : ¬ Acyclic r := fun hr => hr a (.single h)

theorem isChain_replicate (n : Nat) : List.IsChain r (List.replicate (n + 1) a) := by
  induction n with
  | zero => exact List.isChain_singleton a
  | succ n ih => exact List.isChain_cons_cons.mpr ⟨h, ih⟩

theorem not_critical_of_loop : ¬ Critical r := by
  rintro ⟨b, l, _, hmax⟩
  have hle := hmax a (List.replicate (l.length + 1) a) (isChain_replicate h (l.length + 1))
  rw [List.length_replicate] at hle
  omega

end

end Dag
