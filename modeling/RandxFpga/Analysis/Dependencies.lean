import Mathlib.Data.Fin.VecNotation
import RandxFpga.Analysis.GraphOrder

/-!
# Register dependencies in the graph

An integer instruction writes its `idst`, `ISWAP_R` its `isrc` too, and one that is a no-op for the
oracle writes nothing.  `r_nodes` records the `idst` of every one.

* `edge_iff`            an edge between two instructions is a dependency by a recorded register;
* `missesNothing_iff`   the graph has every dependency exactly when the `isrc` of each `ISWAP_R`
                        is used only together with its `idst`, before that is recorded again, and
                        no dependency is hidden by a no-op that is recorded with its register.
-/

namespace Randx

namespace Analysis

open Dataflow

/-- what `compileInstruction` turns into a no-op: a multiplication without a reciprocal, and a swap
of a register with itself -/
def Inst.isNop (b : Inst) : Bool :=
  match b.cls with
  | .IMUL_RCP => b.instStruct.any fun s => isZeroOrPowerOf2 (s.imm32.setWidth 64)
  | .ISWAP_R => b.isrc == b.idst
  | _ => false

theorem nameToCls_isNop (s : InstructionStruct) (t : InstructionType) : (nameToCls s t).isNop
    = match t with
      | .IMUL_RCP => isZeroOrPowerOf2 (s.imm32.setWidth 64)
      | .ISWAP_R => s.srcReg == s.dstReg
      | _ => false := by
  cases t <;> rfl

/-- the registers that an instruction writes; `exe_ISWAP_R` writes both of its own -/
def Inst.Writes (b : Inst) (r : Fin 8) : Prop :=
  b.isNop = false ∧ (b.idst = some r ∨ b.cls = .ISWAP_R ∧ b.isrc = some r)

theorem Inst.Writes.of_idst_ne {b : Inst} {r q : Fin 8} (hw : b.Writes r) (hq : b.idst = some q)
    (hqr : q ≠ r) : b.cls = .ISWAP_R ∧ b.isrc = some r := by
  rcases hw.2 with hr | hswap
  · exact absurd (Option.some.inj (hq.symm.trans hr)) hqr
  · exact hswap

/-- only a no-op leaves the register that it is recorded with -/
theorem Inst.not_writes_idst {b : Inst} {r : Fin 8} (hr : b.idst = some r) :
    ¬ b.Writes r ↔ b.isNop = true := by
  rw [← Bool.not_eq_false]
  exact not_congr ⟨fun hw => hw.1, fun hnop => ⟨hnop, .inl hr⟩⟩

/-- an edge for every instruction that uses a register and the last one before it that writes it -/
def MissesNothing (insts : List Inst) : Prop :=
  ∀ i j r u v, Depends insts Inst.Writes Inst.Uses r i j → instNode insts i = some u →
    instNode insts j = some v → (analyze insts).dig.Edge u v

/-- an instruction that uses what an `ISWAP_R` left in its `isrc` also uses its `idst`, which no
instruction between them is recorded with -/
def SwapsCovered (insts : List Inst) : Prop :=
  ∀ i j b r q, insts[i]? = some b → b.cls = .ISWAP_R → b.isrc = some r → b.idst = some q → q ≠ r →
    Depends insts Inst.Writes Inst.Uses r i j →
      At insts (·.Uses q) j ∧ ∀ k, i < k → k < j → ¬ At insts (·.idst = some q) k

/-- no instruction behind a no-op uses what one before it left in the `idst` that both have -/
def NopsUnread (insts : List Inst) : Prop :=
  ∀ i j k b r, insts[k]? = some b → b.isNop = true → b.idst = some r → i < k → k < j →
    At insts (·.idst = some r) i → ¬ Depends insts Inst.Writes Inst.Uses r i j

section
variable {insts : List Inst}

theorem lastRecorded_eq_some_iff {x : Fin 8} {j i : Nat} :
    lastRecorded insts x j = some i ↔ Latest (At insts (·.idst = some x)) j i := by
  have hat : (fun k => insts[k]?.bind Inst.idst = some x) = At insts (·.idst = some x) := by
    funext k
    exact propext Option.bind_eq_some_iff
  unfold lastRecorded
  rw [lastBefore_eq_some, hat]

/-- between two instructions, the name with the number 0 gives no edge of its own -/
theorem edge_iff {i j : Nat} {u v : String} (hij : i < j) (hi : instNode insts i = some u)
    (hj : instNode insts j = some v) : (analyze insts).dig.Edge u v ↔
      ∃ x, Depends insts (fun b x => b.idst = some x) Inst.Uses x i j := by
  obtain ⟨bi, di, hbi, hdi, rfl⟩ := instNode_eq_some.mp hi
  obtain ⟨bj, dj, hbj, hdj, rfl⟩ := instNode_eq_some.mp hj
  rw [mem_edges_analyze]
  refine ⟨fun h => ?_, fun h => ?_⟩
  · obtain ⟨j', b, d, x, hb, hd, hx, hu, hv⟩ := h
    obtain ⟨_, _, rfl⟩ := nodeName_inj.mp hv
    obtain ⟨_, hxd, hn⟩ := nodeName_inj.mp hu
    obtain rfl : di = x := Fin.ext hxd
    -- the instruction `i` is recorded with the register, so the search below `j` finds one
    obtain ⟨k, hk⟩ : ∃ k, lastRecorded insts di j = some k := by
      refine exists_lastBefore (i := i) ?_ hij
      rw [hbi, Option.bind_some, hdi]
    rw [hk, Option.getD_some] at hn
    subst hn
    exact ⟨di, ⟨b, hb, hx⟩, lastRecorded_eq_some_iff.mp hk⟩
  · obtain ⟨x, ⟨b, hb, hx⟩, hlast⟩ := h
    obtain rfl : bj = b := Option.some.inj (hbj.symm.trans hb)
    obtain ⟨c, hc, hcx⟩ := hlast.holds
    obtain rfl : bi = c := Option.some.inj (hbi.symm.trans hc)
    obtain rfl : di = x := Option.some.inj (hdi.symm.trans hcx)
    refine ⟨j, bj, dj, di, hbj, hdj, hx, ?_, rfl⟩
    rw [lastRecorded_eq_some_iff.mpr hlast, Option.getD_some]

variable (h : ∀ b ∈ insts, b.isrc ≠ none → b.idst ≠ none)
include h

theorem exists_idst {b : Inst} {r : Fin 8} {k : Nat} (hb : insts[k]? = some b)
    (hr : b.isrc = some r ∨ b.idst = some r) : ∃ q, b.idst = some q := by
  rcases hr with hr | hr
  · refine Option.ne_none_iff_exists'.mp (h b (List.mem_of_getElem? hb) ?_)
    rw [hr]
    exact Option.some_ne_none r
  · exact ⟨r, hr⟩

theorem idst_of_writes (b : Inst) (hb : b ∈ insts) (r : Fin 8) (hw : b.Writes r) :
    ∃ q, b.idst = some q := by
  obtain ⟨k, hk⟩ := List.mem_iff_getElem?.mp hb
  rcases hw.2 with hr | ⟨_, hr⟩
  · exact ⟨r, hr⟩
  · exact exists_idst h hk (.inl hr)

theorem missesNothing_iff_recorded : MissesNothing insts ↔
    ∀ i j r, Depends insts Inst.Writes Inst.Uses r i j →
      ∃ x, Depends insts (fun b x => b.idst = some x) Inst.Uses x i j := by
  refine ⟨fun hall i j r hdep => ?_, fun hall i j r u v hdep hi hj => ?_⟩
  · obtain ⟨bj, hbj, huse⟩ := hdep.1
    obtain ⟨bi, hbi, hw⟩ := hdep.2.holds
    obtain ⟨dj, hdj⟩ := exists_idst h hbj huse
    obtain ⟨di, hdi⟩ := idst_of_writes h bi (List.mem_of_getElem? hbi) r hw
    have hi : instNode insts i = some _ := instNode_eq_some.mpr ⟨bi, di, hbi, hdi, rfl⟩
    have hj : instNode insts j = some _ := instNode_eq_some.mpr ⟨bj, dj, hbj, hdj, rfl⟩
    exact (edge_iff hdep.2.lt hi hj).mp (hall i j r _ _ hdep hi hj)
  · exact (edge_iff hdep.2.lt hi hj).mpr (hall i j r hdep)

theorem missesNothing_iff_covered :
    MissesNothing insts ↔ SwapsCovered insts ∧ NopsUnread insts := by
  rw [missesNothing_iff_recorded h, recorded_iff (idst_of_writes h)]
  refine and_congr ?swaps ?nops
  case swaps =>
    refine ⟨fun hall i j b r q hb _ _ hq hqr hdep => ?_, fun hall i j r q hdep hex hqr => ?_⟩
    · exact hall i j r q hdep ⟨b, hb, hq⟩ hqr
    · obtain ⟨b, hb, hq⟩ := hex
      obtain ⟨c, hc, hw⟩ := hdep.2.holds
      obtain rfl : b = c := Option.some.inj (hb.symm.trans hc)
      obtain ⟨hcls, hr⟩ := hw.of_idst_ne hq hqr
      exact hall i j b r q hb hcls hr hq hqr hdep
  case nops =>
    refine ⟨fun hall i j k b r hb hnop hr hik hkj hi hdep => ?_,
      fun hall i j r k hdep hi hik hkj hk => ?_⟩
    · exact hall i j r k hdep hi hik hkj ⟨b, hb, hr, (Inst.not_writes_idst hr).mpr hnop⟩
    · obtain ⟨b, hb, hr, hnot⟩ := hk
      exact hall i j k b r hb ((Inst.not_writes_idst hr).mp hnot) hr hik hkj hi hdep

end

/-! ## programs -/

theorem idst_of_isrc (images : List Image) :
    ∀ b ∈ Program.insts images, b.isrc ≠ none → b.idst ≠ none := by
  intro b hb hsrc
  rw [Program.insts_eq] at hb
  obtain ⟨img, _, rfl⟩ := List.mem_map.mp hb
  generalize RandomXConfiguration.base.typeOf (img 7) = t at hsrc ⊢
  have hinteger : t.hasSource = true → t.isInteger = true := by
    cases t <;> decide
  rw [nameToCls_isrc] at hsrc
  rw [nameToCls_idst]
  by_cases ht : t.hasSource = true
  · rw [if_pos (hinteger ht)]
    exact Option.some_ne_none _
  · rw [if_neg ht] at hsrc
    exact absurd rfl hsrc

/-- **The graph of a program has every register dependency exactly when its `ISWAP_R`
instructions are covered and its no-ops hide nothing.** -/
theorem missesNothing_iff (images : List Image) : MissesNothing (Program.insts images) ↔
    SwapsCovered (Program.insts images) ∧ NopsUnread (Program.insts images) :=
  missesNothing_iff_covered (idst_of_isrc images)

/-- a no-op, `ISWAP_R R0, R1` and `INEG_R R1` -/
def swapImages : List Image :=
  [![0, 0, 0, 0, 0, 0, 0, 255], ![0, 0, 0, 0, 0, 1, 0, 116], ![0, 0, 0, 0, 0, 0, 1, 84]]

/-- the edge from the `ISWAP_R` to the `INEG_R` is missing -/
theorem not_missesNothing_iswap : ¬ MissesNothing (Program.insts swapImages) := by
  rw [missesNothing_iff_covered (idst_of_isrc swapImages)]
  intro h
  have hswap : (Program.insts swapImages)[1]? = some (ISWAP_R_Inst
      (.fromBufferCopy ![0, 0, 0, 0, 0, 1, 0, 116])) := by
    rw [Program.getElem?_insts]
    rfl
  have hneg : (Program.insts swapImages)[2]? = some (INEG_R_Inst
      (.fromBufferCopy ![0, 0, 0, 0, 0, 0, 1, 84])) := by
    rw [Program.getElem?_insts]
    rfl
  have hdep : Depends (Program.insts swapImages) Inst.Writes Inst.Uses 1 1 2 :=
    ⟨⟨_, hneg, .inr rfl⟩, by decide, ⟨_, hswap, rfl, .inr ⟨rfl, rfl⟩⟩, fun k _ _ => by omega⟩
  obtain ⟨⟨b, hb, huse⟩, _⟩ := h.1 1 2 _ 1 0 hswap rfl rfl rfl (by decide) hdep
  obtain rfl := Option.some.inj (hneg.symm.trans hb)
  rcases huse with huse | huse
  · exact nomatch huse
  · exact absurd (Option.some.inj huse) (by decide)

end Analysis

end Randx
