import Mathlib.Logic.Function.Basic
import RandxFpga.Analysis.DepGraph

/-!
# The dependency graph as a DAG

The nodes of the registers carry the number 0 in their names, and the instructions are numbered
from 0 on.

* `wellFormedDag_iff`    the graph is a DAG with a node for each register and instruction exactly
                         when the program does not start with an integer instruction;
* `loop_of_first`        such a first instruction depends on itself.
-/

namespace Randx

namespace Analysis

/-- what a critical path analysis takes for granted -/
structure WellFormedDag (insts : List Inst) : Prop where
  distinct : ((analyze insts).dig.nodes.map Prod.fst).Nodup
  forward : ∀ u v, (analyze insts).dig.Edge u v →
    ∃ j, instNode insts j = some v ∧ (u ∈ initNames ∨ ∃ i < j, instNode insts i = some u)
  acyclic : Dag.Acyclic (analyze insts).dig.Edge
  critical : Dag.Critical (analyze insts).dig.Edge

/-! ## the names -/

theorem mem_initNames_iff {name : String} : name ∈ initNames ↔
    ∃ k ∈ [('r', 8), ('a', 4), ('f', 4), ('e', 4)], ∃ i < k.2, nodeName k.1 i 0 = name := by
  unfold initNames
  simp only [List.mem_flatMap, List.mem_map, List.mem_range]

theorem rName_mem_initNames (x : Fin 8) : nodeName 'r' x 0 ∈ initNames :=
  mem_initNames_iff.mpr ⟨('r', 8), List.mem_cons_self, x, x.isLt, rfl⟩

theorem nodup_initNames : initNames.Nodup := by
  unfold initNames
  rw [List.nodup_flatMap]
  refine ⟨fun k _ => ?_, ?_⟩
  · refine (List.nodup_map_iff_inj_on List.nodup_range).mpr ?_
    intro i _ j _ h
    exact (nodeName_inj.mp h).2.1
  · -- the four letters differ
    have hkinds : [('r', 8), ('a', 4), ('f', 4), ('e', 4)].Pairwise fun k l => k.1 ≠ l.1 := by
      decide
    refine hkinds.imp ?_
    intro k l hkl name hk hl
    obtain ⟨i, _, rfl⟩ := List.mem_map.mp hk
    obtain ⟨j, _, hj⟩ := List.mem_map.mp hl
    exact hkl (nodeName_inj.mp hj).1.symm

section
variable {insts : List Inst}

theorem instNode_eq_some {j : Nat} {v : String} : instNode insts j = some v ↔
    ∃ b d, insts[j]? = some b ∧ b.idst = some d ∧ v = nodeName 'r' d j := by
  unfold instNode
  simp only [Option.map_eq_some_iff, Option.bind_eq_some_iff]
  refine ⟨fun h => ?_, fun h => ?_⟩
  · obtain ⟨d, ⟨b, hb, hd⟩, hv⟩ := h
    exact ⟨b, d, hb, hd, hv.symm⟩
  · obtain ⟨b, d, hb, hd, hv⟩ := h
    exact ⟨d, ⟨b, hb, hd⟩, hv.symm⟩

theorem lt_of_instNode {j : Nat} {v : String} (h : instNode insts j = some v) :
    j < insts.length := by
  obtain ⟨b, _, hb, _⟩ := instNode_eq_some.mp h
  exact (List.getElem?_eq_some_iff.mp hb).1

theorem nodup_instNodes : ((List.range insts.length).filterMap (instNode insts)).Nodup := by
  refine List.Nodup.filterMap ?_ List.nodup_range
  intro i j v hi hj
  obtain ⟨_, _, _, _, hv⟩ := instNode_eq_some.mp hi
  obtain ⟨_, _, _, _, hv'⟩ := instNode_eq_some.mp hj
  exact (nodeName_inj.mp (hv.symm.trans hv')).2.2

/-- only the number 0 is given twice -/
theorem nodup_nodes_iff :
    ((analyze insts).dig.nodes.map Prod.fst).Nodup ↔ instNode insts 0 = none := by
  rw [nodes_analyze, List.nodup_append]
  refine ⟨fun hex => ?_, fun h => ?_⟩
  · obtain ⟨_, _, hne⟩ := hex
    cases h : instNode insts 0 with
    | none => rfl
    | some v =>
      obtain ⟨b, d, _, _, hv⟩ := instNode_eq_some.mp h
      have hinit : v ∈ initNames := hv ▸ rName_mem_initNames d
      have hinst : v ∈ (List.range insts.length).filterMap (instNode insts) :=
        List.mem_filterMap.mpr ⟨0, List.mem_range.mpr (lt_of_instNode h), h⟩
      exact absurd rfl (hne v hinit v hinst)
  · refine ⟨nodup_initNames, nodup_instNodes, ?_⟩
    intro u hu v hv huv
    obtain ⟨k, _, i, _, hi⟩ := mem_initNames_iff.mp hu
    obtain ⟨j, _, hj⟩ := List.mem_filterMap.mp hv
    obtain ⟨b, d, _, _, hd⟩ := instNode_eq_some.mp hj
    have hzero : 0 = j := (nodeName_inj.mp (hi.trans (huv.trans hd))).2.2
    rw [← hzero, h] at hj
    exact nomatch hj

/-! ## the edges -/

theorem lastRecorded_eq_some {x : Fin 8} {j i : Nat} (h : lastRecorded insts x j = some i) :
    i < j ∧ instNode insts i = some (nodeName 'r' x i) := by
  have hlatest := Dataflow.lastBefore_eq_some.mp h
  refine ⟨hlatest.lt, ?_⟩
  unfold instNode
  rw [hlatest.holds]
  rfl

/-- an edge that enters an instruction other than the first comes from a smaller number -/
theorem edge_climbs (h : instNode insts 0 = none) {u v : String}
    (he : (analyze insts).dig.Edge u v) : ∃ (i j : Nat) (x d : Fin 8), u = nodeName 'r' x i ∧
      v = nodeName 'r' d j ∧ i < j ∧ instNode insts j = some v ∧
      (u ∈ initNames ∨ instNode insts i = some u) := by
  obtain ⟨j, b, d, x, hb, hd, _, hu, hv⟩ := (mem_edges_analyze u v).mp he
  have hj : instNode insts j = some v := instNode_eq_some.mpr ⟨b, d, hb, hd, hv⟩
  have hpos : 0 < j := by
    refine Nat.pos_of_ne_zero ?_
    rintro rfl
    rw [h] at hj
    exact nomatch hj
  cases hlast : lastRecorded insts x j with
  | none =>
    rw [hlast, Option.getD_none] at hu
    exact ⟨0, j, x, d, hu, hv, hpos, hj, .inl (hu ▸ rName_mem_initNames x)⟩
  | some i =>
    rw [hlast, Option.getD_some] at hu
    obtain ⟨hij, hi⟩ := lastRecorded_eq_some hlast
    exact ⟨i, j, x, d, hu, hv, hij, hj, .inr (hu ▸ hi)⟩

/-- the number in a name of a register -/
noncomputable def nameRank : String → Nat :=
  Function.extend (fun p : Fin 8 × Nat => nodeName 'r' p.1 p.2) Prod.snd fun _ => 0

theorem nameRank_nodeName (x : Fin 8) (n : Nat) : nameRank (nodeName 'r' x n) = n := by
  have hinj : Function.Injective fun p : Fin 8 × Nat => nodeName 'r' p.1 p.2 := by
    rintro ⟨x, n⟩ ⟨y, m⟩ h
    obtain ⟨_, hx, hn⟩ := nodeName_inj.mp h
    exact Prod.ext (Fin.ext hx) hn
  exact hinj.extend_apply Prod.snd (fun _ => 0) (x, n)

/-- a first instruction of an integer class is its own predecessor -/
theorem loop_of_first {v : String} (h : instNode insts 0 = some v) :
    (analyze insts).dig.Edge v v := by
  obtain ⟨b, d, hb, hd, hv⟩ := instNode_eq_some.mp h
  exact (mem_edges_analyze v v).mpr ⟨0, b, d, d, hb, hd, .inr hd, hv, hv⟩

theorem not_acyclic_of_first {v : String} (h : instNode insts 0 = some v) :
    ¬ Dag.Acyclic (analyze insts).dig.Edge ∧ ¬ Dag.Critical (analyze insts).dig.Edge :=
  ⟨Dag.not_acyclic_of_loop (loop_of_first h), Dag.not_critical_of_loop (loop_of_first h)⟩

theorem wellFormedDag_iff_first : WellFormedDag insts ↔ instNode insts 0 = none := by
  refine ⟨fun h => ?_, fun h => ?_⟩
  · exact nodup_nodes_iff.mp h.distinct
  · have hrank : ∀ u v, (analyze insts).dig.Edge u v → nameRank u < nameRank v := by
      intro u v he
      obtain ⟨i, j, x, d, rfl, rfl, hij, _⟩ := edge_climbs h he
      rw [nameRank_nodeName, nameRank_nodeName]
      exact hij
    have hbound : ∀ u v, (analyze insts).dig.Edge u v → nameRank v ≤ insts.length := by
      intro u v he
      obtain ⟨i, j, x, d, _, rfl, _, hj, _⟩ := edge_climbs h he
      rw [nameRank_nodeName]
      exact Nat.le_of_lt (lt_of_instNode hj)
    constructor
    case distinct => exact nodup_nodes_iff.mpr h
    case forward =>
      intro u v he
      obtain ⟨i, j, x, d, _, _, hij, hj, hu⟩ := edge_climbs h he
      exact ⟨j, hj, hu.imp_right fun hi => ⟨i, hij, hi⟩⟩
    case acyclic => exact Dag.acyclic_of_rank hrank
    case critical => exact Dag.critical_of_rank hrank hbound

end

/-! ## programs -/

theorem isInteger_typeOf (b : Byte) :
    (RandomXConfiguration.base.typeOf b).isInteger = true ↔ b.toNat < 120 := by
  have hall : ∀ k : Fin 256,
      (RandomXConfiguration.base.typeOf (.ofFin k)).isInteger = decide (k.val < 120) := by
    decide +kernel
  exact (Bool.eq_iff_iff.mp (hall b.toFin)).trans decide_eq_true_iff

theorem instNode_insts (images : List Image) (j : Nat) :
    instNode (Program.insts images) j = none ↔
      ∀ img, images[j]? = some img → 120 ≤ (img 7).toNat := by
  unfold instNode
  rw [Program.getElem?_insts]
  cases images[j]? with
  | none => simp
  | some img =>
    show (nameToCls _ _).idst.map _ = none ↔ _
    rw [nameToCls_idst, Option.map_eq_none_iff]
    by_cases h : (RandomXConfiguration.base.typeOf (img 7)).isInteger = true
    · have hlt := (isInteger_typeOf (img 7)).mp h
      rw [if_pos h]
      refine ⟨fun hnone => ?_, fun hall => ?_⟩
      · exact nomatch hnone
      · have hle := hall img rfl
        omega
    · have hge : 120 ≤ (img 7).toNat :=
        Nat.le_of_not_lt fun hlt => h ((isInteger_typeOf (img 7)).mpr hlt)
      rw [if_neg h]
      refine ⟨fun _ img' himg => ?_, fun _ => rfl⟩
      exact Option.some.inj himg ▸ hge

/-- **The graph of a program is a DAG with distinct nodes exactly when the program does not start
with an integer instruction.** -/
theorem wellFormedDag_iff (images : List Image) : WellFormedDag (Program.insts images) ↔
    ∀ img, images[0]? = some img → 120 ≤ (img 7).toNat := by
  rw [wellFormedDag_iff_first, instNode_insts]

/-- `IADD_RS R0, R0` alone -/
theorem not_wellFormedDag_iadd_rs : ¬ WellFormedDag (Program.insts [fun _ => 0]) := by
  rw [wellFormedDag_iff_first, instNode_insts]
  intro h
  exact absurd (h _ rfl) (by decide)

end Analysis

end Randx
