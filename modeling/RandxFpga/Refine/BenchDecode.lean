import RandxFpga.Bench.ProgramFile
import RandxFpga.Refine.OperandSelection

/-!
# The decoder of the loop engine bench against the oracle (`loop_engine_tb.vhd`)

`benchDecode` slices a program word and reduces the raw instruction.  `to_opcode` knows two
operations, with thresholds of its own; the oracle subtracts thirty frequencies.

* `benchDecode_ofBV`      the fields are those of the oracle's instruction, for every word;
* `compileInstruction_type_eq_NOP`  where the oracle makes a no-op of an instruction;
* `decodesAsOracle_iff`   for which words the operation is the oracle's.
-/

namespace Randx
open Hdl

/-! ## the bench -/

def toOpcode (opcodeRaw : Slv 8) : RandXOp :=
  if opcodeRaw.ltNat 10 then .IADD_RS
  else if opcodeRaw.ltNat 20 then .IADD_M
  else .NOP

def rawToReducedInst (raw : RawInst) : ReducedInst where
  imm32 := raw.imm32
  modMem := raw.modField.slice 0 2
  modShift := raw.modField.slice 2 2
  modCond := raw.modField.slice 4 4
  src := raw.src.slice 0 3
  dst := raw.dst.slice 0 3
  opcode := toOpcode raw.opcode

def benchDecode (v : Slv 64) : ReducedInst := rawToReducedInst (rawInst v)

/-! ## the oracle -/

/-- the operation that the FPGA should be given: `IMUL_RCP` stays itself where the oracle compiles
it to a multiplication by the reciprocal -/
def oracleOp (selected compiled : InstructionType) : RandXOp :=
  if selected = .IMUL_RCP ∧ compiled ≠ .NOP then .IMUL_RCP else compiled.randXOp

/-- the reduced instruction has the operation and the fields that the oracle executes, whatever
else is in the bytecode -/
structure DecodesAsOracle (instr : Instruction) (red : ReducedInst) : Prop where
  opcode : ∀ c : RandomXConfiguration, c.freq = RandomXConfiguration.baseFreq → ∀ i ibc usage,
    red.opcode
      = oracleOp (c.typeOf instr.opcode) (compileInstruction c instr i ibc usage).1.type
  src : red.src.to01.map BitVec.toNat = some (instr.src.toNat % 8)
  dst : red.dst.to01.map BitVec.toNat = some (instr.dst.toNat % 8)
  modMem : red.modMem.to01.map BitVec.toNat = some instr.getModMem.val
  modShift : red.modShift.to01.map BitVec.toNat = some instr.getModShift.toNat
  modCond : red.modCond.to01.map BitVec.toNat = some instr.getModCond
  imm32 : red.imm32.to01 = some instr.imm32

section
variable (instr : Instruction)

/-- the oracle makes a no-op of the instruction -/
def isNop : InstructionType → Bool
  | .IMUL_RCP => isZeroOrPowerOf2 (instr.imm32.setWidth 64)
  | .ISWAP_R => instr.srcReg == instr.dstReg
  | .NOP => true
  | _ => false

/-- **The operation of the oracle**, where it is no no-op. -/
theorem oracleOp_gen (c : RandomXConfiguration) (i : Nat) (ibc : InstructionByteCode)
    (usage : RegisterUsage) (t : InstructionType) :
    oracleOp t (gen c instr i ibc usage t).1.type
      = if isNop instr t then .NOP else t.randXOp := by
  cases t with
  | IMUL_RCP =>
    cases h : isZeroOrPowerOf2 (instr.imm32.setWidth 64) <;>
      simp [gen, oracleOp, isNop, h, InstructionType.randXOp]
  | ISWAP_R =>
    by_cases h : instr.srcReg = instr.dstReg <;>
      simp [gen, oracleOp, isNop, h, InstructionType.randXOp]
  | _ => rfl

/-- the opcode bytes of the operations that matter here, under the default frequencies -/
theorem typeOf_base (b : Byte) :
    (RandomXConfiguration.base.typeOf b = .IADD_RS ↔ b.toNat < 16) ∧
      (RandomXConfiguration.base.typeOf b = .IADD_M ↔ 16 ≤ b.toNat ∧ b.toNat < 23) ∧
      (RandomXConfiguration.base.typeOf b = .IMUL_RCP ↔ 76 ≤ b.toNat ∧ b.toNat < 84) ∧
      (RandomXConfiguration.base.typeOf b = .ISWAP_R ↔ 116 ≤ b.toNat ∧ b.toNat < 120) ∧
      RandomXConfiguration.base.typeOf b ≠ .NOP := by
  have hall : ∀ k : Fin 256, let t := RandomXConfiguration.base.typeOf (.ofFin k)
      (t = .IADD_RS ↔ k.val < 16) ∧ (t = .IADD_M ↔ 16 ≤ k.val ∧ k.val < 23) ∧
        (t = .IMUL_RCP ↔ 76 ≤ k.val ∧ k.val < 84) ∧ (t = .ISWAP_R ↔ 116 ≤ k.val ∧ k.val < 120) ∧
        t ≠ .NOP := by decide +kernel
  exact hall b.toFin

/-! ## the same operation -/

/-- the bench and the oracle select the same operation -/
def SameOperation : Prop :=
  instr.opcode.toNat < 10 ∨ (16 ≤ instr.opcode.toNat ∧ instr.opcode.toNat < 20) ∨
    (116 ≤ instr.opcode.toNat ∧ instr.opcode.toNat < 120 ∧ instr.srcReg = instr.dstReg) ∨
    (76 ≤ instr.opcode.toNat ∧ instr.opcode.toNat < 84 ∧
      isZeroOrPowerOf2 (instr.imm32.setWidth 64) = true)

theorem toOpcode_ofBV (b : Byte) :
    toOpcode (.ofBV b)
      = if b.toNat < 10 then .IADD_RS else if b.toNat < 20 then .IADD_M else .NOP := by
  unfold toOpcode
  rw [Slv.ltNat_ofBV, Slv.ltNat_ofBV]
  simp only [decide_eq_true_eq]

theorem randXOp_eq_NOP {t : InstructionType} : t.randXOp = .NOP ↔ t = .NOP := by
  cases t <;> decide

theorem randXOp_eq_IADD_RS {t : InstructionType} : t.randXOp = .IADD_RS ↔ t = .IADD_RS := by
  cases t <;> decide

theorem randXOp_eq_IADD_M {t : InstructionType} : t.randXOp = .IADD_M ↔ t = .IADD_M := by
  cases t <;> decide

theorem isNop_of_ne {t : InstructionType} (hrcp : t ≠ .IMUL_RCP) (hswap : t ≠ .ISWAP_R)
    (hnop : t ≠ .NOP) : isNop instr t = false := by
  cases t with
  | IMUL_RCP => exact absurd rfl hrcp
  | ISWAP_R => exact absurd rfl hswap
  | NOP => exact absurd rfl hnop
  | _ => rfl

theorem sameOperation_of_rcp (h : 76 ≤ instr.opcode.toNat ∧ instr.opcode.toNat < 84) :
    SameOperation instr ↔ isZeroOrPowerOf2 (instr.imm32.setWidth 64) = true := by
  constructor
  · rintro (hop | hop | ⟨hop, -, -⟩ | ⟨-, -, hz⟩)
    · omega
    · omega
    · omega
    · exact hz
  · exact fun hz => Or.inr (Or.inr (Or.inr ⟨h.1, h.2, hz⟩))

theorem sameOperation_of_swap (h : 116 ≤ instr.opcode.toNat ∧ instr.opcode.toNat < 120) :
    SameOperation instr ↔ instr.srcReg = instr.dstReg := by
  constructor
  · rintro (hop | hop | ⟨-, -, hreg⟩ | ⟨-, hop, -⟩)
    · omega
    · omega
    · exact hreg
    · omega
  · exact fun hreg => Or.inr (Or.inr (Or.inl ⟨h.1, h.2, hreg⟩))

theorem sameOperation_of_other (hrcp : ¬ (76 ≤ instr.opcode.toNat ∧ instr.opcode.toNat < 84))
    (hswap : ¬ (116 ≤ instr.opcode.toNat ∧ instr.opcode.toNat < 120)) :
    SameOperation instr ↔
      instr.opcode.toNat < 10 ∨ (16 ≤ instr.opcode.toNat ∧ instr.opcode.toNat < 20) := by
  constructor
  · rintro (hop | hop | ⟨hlo, hhi, -⟩ | ⟨hlo, hhi, -⟩)
    · exact Or.inl hop
    · exact Or.inr hop
    · exact absurd ⟨hlo, hhi⟩ hswap
    · exact absurd ⟨hlo, hhi⟩ hrcp
  · rintro (hop | hop)
    · exact Or.inl hop
    · exact Or.inr (Or.inl hop)

theorem toOpcode_of_le (h : 20 ≤ instr.opcode.toNat) : toOpcode (.ofBV instr.opcode) = .NOP := by
  rw [toOpcode_ofBV, if_neg (by omega), if_neg (by omega)]

/-- `to_opcode` against the ranges of the oracle -/
theorem sameOperation_iff :
    toOpcode (.ofBV instr.opcode)
        = (if isNop instr (RandomXConfiguration.base.typeOf instr.opcode) then .NOP
          else (RandomXConfiguration.base.typeOf instr.opcode).randXOp)
      ↔ SameOperation instr := by
  obtain ⟨hrs, hm, hrcp, hswap, hnop⟩ := typeOf_base instr.opcode
  by_cases h1 : RandomXConfiguration.base.typeOf instr.opcode = .IMUL_RCP
  · have hrange := hrcp.mp h1
    rw [sameOperation_of_rcp instr hrange, toOpcode_of_le instr (by omega), h1]
    show RandXOp.NOP = (if isZeroOrPowerOf2 (instr.imm32.setWidth 64) = true then .NOP
      else .IMUL_RCP) ↔ _
    by_cases hz : isZeroOrPowerOf2 (instr.imm32.setWidth 64) = true
    · rw [if_pos hz]
      exact iff_of_true rfl hz
    · rw [if_neg hz]
      exact iff_of_false RandXOp.noConfusion hz
  · by_cases h2 : RandomXConfiguration.base.typeOf instr.opcode = .ISWAP_R
    · have hrange := hswap.mp h2
      rw [sameOperation_of_swap instr hrange, toOpcode_of_le instr (by omega), h2]
      show RandXOp.NOP = (if (instr.srcReg == instr.dstReg) = true then .NOP else .ISWAP_R) ↔ _
      by_cases hreg : instr.srcReg = instr.dstReg
      · rw [if_pos (beq_iff_eq.mpr hreg)]
        exact iff_of_true rfl hreg
      · rw [if_neg (mt beq_iff_eq.mp hreg)]
        exact iff_of_false RandXOp.noConfusion hreg
    · -- every other operation is what its opcode byte says
      rw [sameOperation_of_other instr (mt hrcp.mpr h1) (mt hswap.mpr h2),
        isNop_of_ne instr h1 h2 hnop, if_neg Bool.false_ne_true, toOpcode_ofBV]
      by_cases h10 : instr.opcode.toNat < 10
      · rw [if_pos h10]
        exact iff_of_true (randXOp_eq_IADD_RS.mpr (hrs.mpr (by omega))).symm (Or.inl h10)
      · rw [if_neg h10]
        by_cases h20 : instr.opcode.toNat < 20
        · rw [if_pos h20, eq_comm, randXOp_eq_IADD_M, hm]
          omega
        · rw [if_neg h20, eq_comm, randXOp_eq_NOP]
          exact iff_of_false hnop (by omega)

end

/-! ## one word -/

/-- the fields are those of the oracle's instruction -/
theorem benchDecode_ofBV (w : Word) :
    benchDecode (.ofBV w)
      = { ((Instruction.ofWord w).reducedInst .base).reduced with
          opcode := toOpcode (.ofBV (Instruction.ofWord w).opcode) } := by
  unfold benchDecode
  rw [rawInst_ofBV]
  unfold rawToReducedInst Instruction.raw InstWord.reduced Instruction.reducedInst
  simp only
  rw [Slv.slice_ofBV 0 2 _ (by omega), Slv.slice_ofBV 2 2 _ (by omega),
    Slv.slice_ofBV 4 4 _ (by omega), Slv.slice_ofBV 0 3 _ (by omega),
    Slv.slice_ofBV 0 3 _ (by omega)]

theorem getModMem_eq (instr : Instruction) :
    (instr.mod.extractLsb' 0 2).toNat = instr.getModMem.val := by
  rw [instr.val_getModMem, BitVec.extractLsb'_toNat, Nat.shiftRight_zero]

theorem getModCond_eq (instr : Instruction) :
    (instr.mod.extractLsb' 4 4).toNat = instr.getModCond := by
  have hlt := instr.mod.isLt
  rw [Instruction.getModCond, BitVec.extractLsb'_toNat, BitVec.toNat_ushiftRight,
    Nat.shiftRight_eq_div_pow, Nat.mod_eq_of_lt (by omega)]

theorem map_toNat_ofBV {n : Nat} (v : BitVec n) :
    (Slv.ofBV v).to01.map BitVec.toNat = some v.toNat := by
  rw [Slv.to01_ofBV]
  rfl

/-- **The bench decodes a word as the oracle does exactly if the two select the same operation**;
the fields are right in every word. -/
theorem decodesAsOracle_iff (w : Word) :
    DecodesAsOracle (.ofWord w) (benchDecode (.ofBV w)) ↔ SameOperation (.ofWord w) := by
  rw [← sameOperation_iff, benchDecode_ofBV]
  generalize Instruction.ofWord w = instr
  have hop : ∀ c : RandomXConfiguration, c.freq = RandomXConfiguration.baseFreq →
      ∀ i ibc usage,
        oracleOp (c.typeOf instr.opcode) (compileInstruction c instr i ibc usage).1.type
          = if isNop instr (RandomXConfiguration.base.typeOf instr.opcode) then .NOP
            else (RandomXConfiguration.base.typeOf instr.opcode).randXOp := by
    intro c hc i ibc usage
    unfold compileInstruction
    rw [RandomXConfiguration.typeOf_congr (d := .base) hc, oracleOp_gen]
  constructor
  · intro h
    exact (h.opcode .base rfl 0 default fun _ => -1).trans (hop .base rfl 0 default _)
  · intro h
    refine ⟨fun c hc i ibc usage => h.trans (hop c hc i ibc usage).symm, ?_, ?_, ?_, ?_, ?_, ?_⟩
    · show (Slv.ofBV (instr.src.extractLsb' 0 3)).to01.map BitVec.toNat = _
      rw [map_toNat_ofBV, BitVec.extractLsb'_toNat, Nat.shiftRight_zero]
    · show (Slv.ofBV (instr.dst.extractLsb' 0 3)).to01.map BitVec.toNat = _
      rw [map_toNat_ofBV, BitVec.extractLsb'_toNat, Nat.shiftRight_zero]
    · exact (map_toNat_ofBV _).trans (congrArg some (getModMem_eq instr))
    · show (Slv.ofBV (instr.mod.extractLsb' 2 2)).to01.map BitVec.toNat = _
      rw [map_toNat_ofBV, getModShift_eq .base, BitVec.toNat_setWidth, Nat.mod_eq_of_lt]
      · rfl
      · exact lt_of_lt_of_le (BitVec.isLt _) (by omega)
    · exact (map_toNat_ofBV _).trans (congrArg some (getModCond_eq instr))
    · exact Slv.to01_ofBV _

/-- opcode byte `10`: `IADD_RS` for the oracle, `IADD_M` for the bench -/
theorem not_decodesAsOracle_ten :
    ¬ ∀ w : Word, DecodesAsOracle (.ofWord w) (benchDecode (.ofBV w)) := by
  intro h
  have hop := (h 10).opcode .base rfl 0 default fun _ => -1
  rw [benchDecode_ofBV] at hop
  have hbench : toOpcode (.ofBV (Instruction.ofWord 10).opcode) = .IADD_M := by
    rw [toOpcode_ofBV]
    rfl
  exact RandXOp.noConfusion (hbench.symm.trans hop)

end Randx
