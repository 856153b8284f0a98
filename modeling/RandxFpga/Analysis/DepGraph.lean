import Mathlib.Data.List.Basic
import Mathlib.Data.List.Nodup
import RandxFpga.Analysis.Instruction
import RandxFpga.Run.Dag
import RandxFpga.Run.Dataflow

/-!
# The dependency graph of the analyser (`python_analysis/randomx_vm/dep_graph.py`)

`analyze` passes the instructions to `add_dependencies` in their order.  Each one that writes an
integer register gets a node, an edge from the node that `r_nodes` holds for each register it
uses, and takes the place of the register it is recorded with.

* `rNodes_analyze`, `mem_edges_analyze`  what `r_nodes` and the edges are after any program;
* `nodes_analyze`                        the nodes, with `nodeName_inj` for their names.
-/

namespace Randx

namespace Analysis

/-! ## the graph -/

/-- the statements of a `Digraph`: names with labels, and pairs of tail and head -/
structure Digraph where
  nodes : List (String × String)
  edges : List (String × String)

def Digraph.node (dig : Digraph) (name label : String) : Digraph :=
  { dig with nodes := dig.nodes ++ [(name, label)] }

def Digraph.edge (dig : Digraph) (tailName headName : String) : Digraph :=
  { dig with edges := dig.edges ++ [(tailName, headName)] }

def Digraph.Edge (dig : Digraph) (u v : String) : Prop := (u, v) ∈ dig.edges

/-- a letter for the kind of a register, its number, and the number of an instruction -/
def nodeName (kind : Char) (i n : Nat) : String :=
  String.singleton kind ++ toString i ++ "_" ++ toString n

theorem nodeName_inj {kind kind' : Char} {i i' n n' : Nat} :
    nodeName kind i n = nodeName kind' i' n' ↔ kind = kind' ∧ i = i' ∧ n = n' := by
  have hlist : ∀ (c : Char) (a b : Nat), (nodeName c a b).toList
      = c :: (Nat.toDigits 10 a ++ '_' :: Nat.toDigits 10 b) := by
    intro c a b
    unfold nodeName
    simp [String.toList_append]
  have hdigits : ∀ {a b : Nat}, Nat.toDigits 10 a = Nat.toDigits 10 b → a = b := by
    intro a b h
    rw [← Nat.ofDigitChars_toDigits (b := 10) (n := a) (by omega) (by omega), h,
      Nat.ofDigitChars_toDigits (by omega) (by omega)]
  refine ⟨fun h => ?_, fun h => ?_⟩
  · have hl := congrArg String.toList h
    rw [hlist, hlist, List.cons.injEq, List.append_cons_inj_of_notMem
      Nat.underscore_not_in_toDigits Nat.underscore_not_in_toDigits] at hl
    obtain ⟨hkind, hi, _, hn⟩ := hl
    exact ⟨hkind, hdigits hi, hdigits hn⟩
  · obtain ⟨rfl, rfl, rfl⟩ := h
    rfl

/-! ## the analyser -/

/-- the names in `r_nodes`, `a_nodes`, `f_nodes` and `e_nodes` at the start -/
def initNames : List String :=
  [('r', 8), ('a', 4), ('f', 4), ('e', 4)].flatMap fun k =>
    (List.range k.2).map fun i => nodeName k.1 i 0

structure DependencyNodes where
  dig : Digraph
  rNodes : Fin 8 → String

def DependencyNodes.init : DependencyNodes where
  dig := initNames.foldl (fun dig name => dig.node name ("0_" ++ name ++ "_init")) ⟨[], []⟩
  rNodes := fun i => nodeName 'r' i 0

theorem foldl_node (dig : Digraph) (label : String → String) (names : List String) :
    names.foldl (fun dig name => dig.node name (label name)) dig
      = ⟨dig.nodes ++ names.map fun name => (name, label name), dig.edges⟩ := by
  induction names generalizing dig with
  | nil => simp
  | cons name names ih =>
    rw [List.foldl_cons, ih]
    simp [Digraph.node]

theorem init_dig : DependencyNodes.init.dig
    = ⟨initNames.map fun name => (name, "0_" ++ name ++ "_init"), []⟩ :=
  foldl_node ⟨[], []⟩ (fun name => "0_" ++ name ++ "_init") initNames

/-- no class assigns `fdst` or `fp_mode_src`, and the branches for them do nothing -/
def Inst.addDependencies (b : Inst) (depNodes : DependencyNodes) (instNum : Nat) :
    DependencyNodes :=
  match b.idst with
  | some idst =>
    let idstTargetName := nodeName 'r' idst instNum
    let dig := depNodes.dig.node idstTargetName (toString instNum ++ ": " ++ b.str)
    let dig := match b.isrc with
      | some isrc => dig.edge (depNodes.rNodes isrc) idstTargetName
      | none => dig
    { dig := dig.edge (depNodes.rNodes idst) idstTargetName
      rNodes := Function.update depNodes.rNodes idst idstTargetName }
  | none => depNodes

/-- `for num, inst in enumerate(self.program.insts)`; `render` only draws the result -/
def analyze (insts : List Inst) : DependencyNodes :=
  insts.zipIdx.foldl (fun nodes p => p.1.addDependencies nodes p.2) .init

theorem analyze_snoc (insts : List Inst) (b : Inst) :
    analyze (insts ++ [b]) = b.addDependencies (analyze insts) insts.length := by
  unfold analyze
  rw [List.zipIdx_append, List.foldl_append, Nat.zero_add]
  rfl

/-! ## one instruction -/

/-- reads the register, as `isrc` or as `idst` -/
def Inst.Uses (b : Inst) (x : Fin 8) : Prop := b.isrc = some x ∨ b.idst = some x

section
variable (b : Inst) (s : DependencyNodes) (n : Nat)

theorem addDependencies_rNodes (x : Fin 8) : (b.addDependencies s n).rNodes x
    = if b.idst = some x then nodeName 'r' x n else s.rNodes x := by
  unfold Inst.addDependencies
  cases b.idst with
  | none => rfl
  | some d =>
    by_cases h : d = x
    · subst h
      rw [if_pos rfl]
      exact Function.update_self _ _ _
    · rw [if_neg fun e => h (Option.some.inj e)]
      exact Function.update_of_ne (Ne.symm h) _ _

theorem addDependencies_edge (u v : String) : (b.addDependencies s n).dig.Edge u v ↔
    s.dig.Edge u v ∨ ∃ d x, b.idst = some d ∧ b.Uses x ∧ u = s.rNodes x ∧ v = nodeName 'r' d n := by
  unfold Inst.addDependencies Inst.Uses Digraph.Edge
  cases b.idst with
  | none => simp
  | some d =>
    cases b.isrc with
    | none => simp [Digraph.edge, Digraph.node]
    | some r =>
      simp only [Digraph.edge, Digraph.node, List.mem_append, List.mem_singleton, Prod.mk.injEq,
        Option.some.injEq, or_assoc]
      refine or_congr_right ⟨?_, ?_⟩
      · rintro (⟨hu, hv⟩ | ⟨hu, hv⟩)
        · exact ⟨d, r, rfl, .inl rfl, hu, hv⟩
        · exact ⟨d, d, rfl, .inr rfl, hu, hv⟩
      · rintro ⟨_, x, rfl, rfl | rfl, hu, hv⟩
        · exact .inl ⟨hu, hv⟩
        · exact .inr ⟨hu, hv⟩

theorem addDependencies_nodes : (b.addDependencies s n).dig.nodes = s.dig.nodes
    ++ (b.idst.map fun d : Fin 8 => (nodeName 'r' d n, toString n ++ ": " ++ b.str)).toList := by
  unfold Inst.addDependencies
  cases b.idst with
  | none => simp
  | some d => cases b.isrc <;> rfl

end

/-! ## a whole program -/

section
variable (insts : List Inst)

/-- the last instruction before `j` that is recorded with the register -/
def lastRecorded (x : Fin 8) (j : Nat) : Option Nat :=
  Dataflow.lastBefore (fun k => insts[k]?.bind Inst.idst = some x) j

/-- the name of the node of an instruction that gets one -/
def instNode (j : Nat) : Option String :=
  (insts[j]?.bind Inst.idst).map fun d : Fin 8 => nodeName 'r' d j

variable {insts}

theorem lastRecorded_append (l : List Inst) (x : Fin 8) {j : Nat} (h : j ≤ insts.length) :
    lastRecorded (insts ++ l) x j = lastRecorded insts x j := by
  refine Dataflow.lastBefore_congr fun k hk => ?_
  rw [List.getElem?_append_left (by omega)]

theorem lastRecorded_snoc (b : Inst) (x : Fin 8) :
    lastRecorded (insts ++ [b]) x (insts.length + 1)
      = if b.idst = some x then some insts.length else lastRecorded insts x insts.length := by
  show (if (insts ++ [b])[insts.length]?.bind Inst.idst = some x then some insts.length
    else lastRecorded (insts ++ [b]) x insts.length) = _
  rw [lastRecorded_append [b] x (Nat.le_refl _), List.getElem?_concat_length, Option.bind_some]

theorem rNodes_analyze (x : Fin 8) : (analyze insts).rNodes x
    = nodeName 'r' x ((lastRecorded insts x insts.length).getD 0) := by
  induction insts using List.reverseRecOn with
  | nil => rfl
  | append_singleton insts b ih =>
    rw [analyze_snoc, addDependencies_rNodes, List.length_append, List.length_singleton,
      lastRecorded_snoc, ih]
    by_cases h : b.idst = some x
    · rw [if_pos h, if_pos h, Option.getD_some]
    · rw [if_neg h, if_neg h]

/-- **The edges: from the last instruction recorded with a register that `j` uses, or from the
name with the number 0, to `j`.** -/
theorem mem_edges_analyze (u v : String) : (analyze insts).dig.Edge u v ↔
    ∃ (j : Nat) (b : Inst) (d x : Fin 8), insts[j]? = some b ∧ b.idst = some d ∧ b.Uses x ∧
      u = nodeName 'r' x ((lastRecorded insts x j).getD 0) ∧ v = nodeName 'r' d j := by
  induction insts using List.reverseRecOn with
  | nil =>
    refine ⟨fun h => ?_, fun h => ?_⟩
    · have hmem : (u, v) ∈ DependencyNodes.init.dig.edges := h
      rw [init_dig] at hmem
      exact absurd hmem List.not_mem_nil
    · obtain ⟨j, b, d, x, hb, _⟩ := h
      simp at hb
  | append_singleton insts b ih =>
    rw [analyze_snoc, addDependencies_edge, ih]
    refine ⟨fun h => ?_, fun h => ?_⟩
    · rcases h with ⟨j, c, d, x, hc, hd, hx, hu, hv⟩ | ⟨d, x, hd, hx, hu, hv⟩
      · have hj : j < insts.length := (List.getElem?_eq_some_iff.mp hc).1
        refine ⟨j, c, d, x, ?_, hd, hx, ?_, hv⟩
        · rw [List.getElem?_append_left hj, hc]
        · rw [hu, lastRecorded_append _ _ (by omega)]
      · refine ⟨insts.length, b, d, x, List.getElem?_concat_length, hd, hx, ?_, hv⟩
        rw [hu, rNodes_analyze, lastRecorded_append _ _ (Nat.le_refl _)]
    · obtain ⟨j, c, d, x, hc, hd, hx, hu, hv⟩ := h
      by_cases hj : j < insts.length
      · left
        rw [List.getElem?_append_left hj] at hc
        rw [lastRecorded_append _ _ (by omega)] at hu
        exact ⟨j, c, d, x, hc, hd, hx, hu, hv⟩
      · right
        obtain rfl : j = insts.length := by
          have hlt := (List.getElem?_eq_some_iff.mp hc).1
          rw [List.length_append, List.length_singleton] at hlt
          omega
        obtain rfl : b = c := by
          rw [List.getElem?_concat_length] at hc
          exact Option.some.inj hc
        rw [lastRecorded_append _ _ (Nat.le_refl _), ← rNodes_analyze] at hu
        exact ⟨d, x, hd, hx, hu, hv⟩

/-- the 20 nodes of the registers, then a node for each instruction that is recorded -/
theorem nodes_analyze : (analyze insts).dig.nodes.map Prod.fst
    = initNames ++ (List.range insts.length).filterMap (instNode insts) := by
  induction insts using List.reverseRecOn with
  | nil =>
    show DependencyNodes.init.dig.nodes.map Prod.fst = initNames ++ []
    rw [init_dig, List.map_map, List.append_nil]
    exact List.map_id initNames
  | append_singleton insts b ih =>
    have hold : (List.range insts.length).filterMap (instNode (insts ++ [b]))
        = (List.range insts.length).filterMap (instNode insts) := by
      refine List.filterMap_congr fun k hk => ?_
      unfold instNode
      rw [List.getElem?_append_left (List.mem_range.mp hk)]
    have hnew : instNode (insts ++ [b]) insts.length
        = b.idst.map fun d : Fin 8 => nodeName 'r' d insts.length := by
      unfold instNode
      rw [List.getElem?_concat_length, Option.bind_some]
    rw [analyze_snoc, addDependencies_nodes, List.map_append, ih, List.length_append,
      List.length_singleton, List.range_succ, List.filterMap_append, hold, List.append_assoc]
    congr 2
    cases hd : b.idst with
    | none => simp [hnew, hd]
    | some d => simp [hnew, hd]

end

end Analysis

end Randx
