import RandxFpga.Fpga.LoopEngine
import RandxFpga.Refine.IntAlu

/-!
# Operand selection against the oracle

`Instruction.reducedInst` is the FPGA's form of an instruction of the oracle, and
`LoopEngine.aluResult` what the ALU makes of the operands that `ProgRunProcess` selects for it.
The engine always takes the source register; the oracle takes the immediate when source and
destination are the same register, and the reciprocal for `IMUL_RCP`.

* `execute_registerForm`   what the oracle leaves in the destination register;
* `aluResult_eq`           what the ALU gives;
* `operandSelection_iff`   when the two are the same.
-/

namespace Randx
open Hdl

/-! ## instructions of the oracle and of the FPGA -/

def InstructionType.randXOp : InstructionType → RandXOp
  | .IADD_RS => .IADD_RS
  | .IADD_M => .IADD_M
  | .ISUB_R => .ISUB_R
  | .ISUB_M => .ISUB_M
  | .IMUL_R => .IMUL_R
  | .IMUL_M => .IMUL_M
  | .IMULH_R => .IMULH_R
  | .IMULH_M => .IMULH_M
  | .ISMULH_R => .ISMULH_R
  | .ISMULH_M => .ISMULH_M
  | .IMUL_RCP => .IMUL_RCP
  | .INEG_R => .INEG_R
  | .IXOR_R => .IXOR_R
  | .IXOR_M => .IXOR_M
  | .IROR_R => .IROR_R
  | .IROL_R => .IROL_R
  | .ISWAP_R => .ISWAP_R
  | .FSWAP_R => .FSWAP_R
  | .FADD_R => .FADD_R
  | .FADD_M => .FADD_M
  | .FSUB_R => .FSUB_R
  | .FSUB_M => .FSUB_M
  | .FSCAL_R => .FSCAL_R
  | .FMUL_R => .FMUL_R
  | .FDIV_M => .FDIV_M
  | .FSQRT_R => .FSQRT_R
  | .CBRANCH => .CBRANCH
  | .CFROUND => .CFROUND
  | .ISTORE => .ISTORE
  | .NOP => .NOP

/-- `raw_to_reduced_inst`, with the operation that the configuration selects -/
def Instruction.reducedInst (c : RandomXConfiguration) (instr : Instruction) : InstWord where
  imm32 := instr.imm32
  modMem := instr.mod.extractLsb' 0 2
  modShift := instr.mod.extractLsb' 2 2
  modCond := instr.mod.extractLsb' 4 4
  src := instr.src.extractLsb' 0 3
  dst := instr.dst.extractLsb' 0 3
  opcode := (c.typeOf instr.opcode).randXOp

/-- the first opcode byte of an operation: the frequencies of those before it, summed up -/
def firstOpcode : RandXOp → Byte
  | .IADD_RS => 0
  | .IADD_M => 16
  | .ISUB_R => 23
  | .ISUB_M => 39
  | .IMUL_R => 46
  | .IMUL_M => 62
  | .IMULH_R => 66
  | .IMULH_M => 70
  | .ISMULH_R => 71
  | .ISMULH_M => 75
  | .IMUL_RCP => 76
  | .INEG_R => 84
  | .IXOR_R => 86
  | .IXOR_M => 101
  | .IROR_R => 106
  | .IROL_R => 114
  | .ISWAP_R => 116
  | .FSWAP_R => 120
  | .FADD_R => 124
  | .FADD_M => 140
  | .FSUB_R => 145
  | .FSUB_M => 161
  | .FSCAL_R => 166
  | .FMUL_R => 172
  | .FDIV_M => 204
  | .FSQRT_R => 208
  | .CBRANCH => 214
  | .CFROUND => 239
  | .ISTORE => 240
  | .NOP => 0

theorem randXOp_firstOpcode (op : RandXOp) (h : op ≠ .NOP) :
    (RandomXConfiguration.base.typeOf (firstOpcode op)).randXOp = op := by
  cases op with
  | NOP => exact absurd rfl h
  | _ => decide

theorem extract_mod (cond : BitVec 4) (shift mem : BitVec 2) :
    (cond ++ shift ++ mem).extractLsb' 0 2 = mem ∧ (cond ++ shift ++ mem).extractLsb' 2 2 = shift ∧
      (cond ++ shift ++ mem).extractLsb' 4 4 = cond := by
  refine ⟨?_, ?_, ?_⟩ <;> apply BitVec.eq_of_getLsbD_eq <;> intro i hi <;>
    rw [BitVec.getLsbD_extractLsb', decide_eq_true hi, Bool.true_and, BitVec.getLsbD_append,
      BitVec.getLsbD_append]
  · rw [if_pos (by omega)]
    congr 1
    omega
  · rw [if_neg (by omega), if_pos (by omega)]
    congr 1
    omega
  · rw [if_neg (by omega), if_neg (by omega)]
    congr 1
    omega

/-- every instruction of the FPGA is the form of one of the oracle -/
theorem exists_reducedInst (w : InstWord) (h : w.opcode ≠ .NOP) :
    ∃ instr : Instruction, instr.reducedInst .base = w := by
  obtain ⟨imm32, modMem, modShift, modCond, src, dst, op⟩ := w
  have hreg (v : BitVec 3) : (v.setWidth 8).extractLsb' 0 3 = v := by
    apply BitVec.eq_of_getLsbD_eq
    intro i hi
    simp [hi, show i < 8 by omega]
  obtain ⟨hmem, hshift, hcond⟩ := extract_mod modCond modShift modMem
  refine ⟨⟨firstOpcode op, dst.setWidth 8, src.setWidth 8, modCond ++ modShift ++ modMem, imm32⟩,
    ?_⟩
  simp only [Instruction.reducedInst, hreg, hmem, hshift, hcond, randXOp_firstOpcode op h]

section
variable (c : RandomXConfiguration) (instr : Instruction)

theorem reg8_dst : LoopEngine.reg8 (.ofBV (instr.reducedInst c).dst) = instr.dstReg.castSucc := by
  apply Fin.ext
  show (Slv.ofBV _).toInteger = instr.dst.toNat % 8
  rw [Slv.toInteger_ofBV, Instruction.reducedInst, BitVec.extractLsb'_toNat, Nat.shiftRight_zero]

theorem reg8_src : LoopEngine.reg8 (.ofBV (instr.reducedInst c).src) = instr.srcReg.castSucc := by
  apply Fin.ext
  show (Slv.ofBV _).toInteger = instr.src.toNat % 8
  rw [Slv.toInteger_ofBV, Instruction.reducedInst, BitVec.extractLsb'_toNat, Nat.shiftRight_zero]

theorem dst_eq_five : (instr.reducedInst c).dst = 5 ↔ instr.dstReg = registerNeedsDisplacement := by
  rw [← BitVec.toNat_inj, Fin.ext_iff]
  show (instr.dst.extractLsb' 0 3).toNat = 5 ↔ instr.dst.toNat % 8 = 5
  rw [BitVec.extractLsb'_toNat, Nat.shiftRight_zero]

theorem getModShift_eq : instr.getModShift = (instr.reducedInst c).modShift.setWidth 16 := by
  apply BitVec.eq_of_toNat_eq
  have h : (instr.mod >>> 2 &&& 3).toNat = (instr.mod >>> 2).toNat % 4 :=
    Nat.and_two_pow_sub_one_eq_mod (instr.mod >>> 2).toNat 2
  have hlt : (instr.mod >>> 2).toNat % 4 < 4 := Nat.mod_lt _ (by omega)
  rw [Instruction.getModShift, Instruction.reducedInst, BitVec.toNat_setWidth, h,
    BitVec.toNat_setWidth, BitVec.extractLsb'_toNat, BitVec.toNat_ushiftRight]

end

/-! ## the oracle -/

/-- the integer operations on two registers -/
def registerForm : InstructionType → Bool
  | .IADD_RS | .ISUB_R | .IMUL_R | .IMULH_R | .ISMULH_R | .IMUL_RCP | .INEG_R | .IXOR_R | .IROR_R
  | .IROL_R => true
  | _ => false

section
variable (c : RandomXConfiguration) (instr : Instruction) (r : Fin 8 → Word)

/-- the word that the oracle combines `r[dst]` with; `INEG_R` reads none -/
def oracleSource : Word :=
  match c.typeOf instr.opcode with
  | .ISUB_R | .IMUL_R | .IXOR_R =>
    if instr.srcReg ≠ instr.dstReg then r instr.srcReg else signExtend2sCompl instr.imm32
  | .IROR_R | .IROL_R =>
    if instr.srcReg ≠ instr.dstReg then r instr.srcReg else instr.imm32.setWidth 64
  | .IMUL_RCP => randomxReciprocal (instr.imm32.setWidth 64)
  | _ => r instr.srcReg

variable (i : Nat) (ibc : InstructionByteCode) (usage : RegisterUsage) (m : Machine) (fpu : Fpu)
  (config : ProgramConfiguration)

theorem sourceOperand_gen (hop : registerForm (c.typeOf instr.opcode) = true)
    (hneg : c.typeOf instr.opcode ≠ .INEG_R)
    (hrcp : c.typeOf instr.opcode = .IMUL_RCP →
      isZeroOrPowerOf2 (instr.imm32.setWidth 64) = false) :
    sourceOperand (compileInstruction c instr i ibc usage).1 m
      = oracleSource c instr m.nreg.r := by
  unfold compileInstruction oracleSource
  cases ht : c.typeOf instr.opcode with
  | IADD_RS | IMULH_R | ISMULH_R => rfl
  | ISUB_R | IMUL_R | IXOR_R | IROR_R | IROL_R =>
    by_cases h : instr.srcReg = instr.dstReg
    · simp [gen, genIntR, sourceOperand, InstructionByteCode.isrcVal, h]
    · simp [gen, genIntR, sourceOperand, InstructionByteCode.isrcVal, h]
  | IMUL_RCP => simp [gen, sourceOperand, InstructionByteCode.isrcVal, hrcp ht]
  | INEG_R => exact absurd ht hneg
  | _ =>
    rw [ht] at hop
    exact absurd hop Bool.false_ne_true

/-- **What the oracle leaves in `r[dst]`**: the word of the ALU's operation on `r[dst]` and the
oracle's source. -/
theorem execute_registerForm (hop : registerForm (c.typeOf instr.opcode) = true)
    (hrcp : c.typeOf instr.opcode = .IMUL_RCP →
      isZeroOrPowerOf2 (instr.imm32.setWidth 64) = false) :
    ∃ m', executeInstruction fpu config (compileInstruction c instr i ibc usage).1 m = some m' ∧
      IntAlu.resultWord (m.nreg.r instr.dstReg) (oracleSource c instr m.nreg.r)
        (instr.reducedInst c) = some (m'.nreg.r instr.dstReg) := by
  have hmatch : Matches (m.nreg.r instr.dstReg)
      (sourceOperand (compileInstruction c instr i ibc usage).1 m) (instr.reducedInst c)
      (compileInstruction c instr i ibc usage).1 m ∧
      (compileInstruction c instr i ibc usage).1.idst = instr.dstReg := by
    unfold compileInstruction
    cases ht : c.typeOf instr.opcode with
    | IADD_RS =>
      refine ⟨⟨?_, rfl, rfl, fun _ => getModShift_eq c instr, fun _ => ?_,
        fun h => InstructionType.noConfusion h⟩, rfl⟩
      · rw [Instruction.reducedInst, ht]
        rfl
      · rw [if_congr (dst_eq_five c instr) rfl rfl]
        exact ite_not _ _ _
    | ISUB_R | IMUL_R | IMULH_R | ISMULH_R | INEG_R | IXOR_R | IROR_R | IROL_R =>
      refine ⟨⟨?_, rfl, rfl, fun h => InstructionType.noConfusion h,
        fun h => InstructionType.noConfusion h, fun h => InstructionType.noConfusion h⟩, rfl⟩
      rw [Instruction.reducedInst, ht]
      rfl
    | IMUL_RCP =>
      have hgen : gen c instr i ibc usage .IMUL_RCP
          = ({ ibc with
                type := .IMUL_R, idst := instr.dstReg,
                imm := randomxReciprocal (instr.imm32.setWidth 64), isrc := .imm },
              Function.update usage instr.dstReg i) := by
        simp only [gen, hrcp ht, Bool.not_false, if_true]
      rw [hgen]
      refine ⟨⟨?_, rfl, rfl, fun h => InstructionType.noConfusion h,
        fun h => InstructionType.noConfusion h, fun h => InstructionType.noConfusion h⟩, rfl⟩
      rw [Instruction.reducedInst, ht]
      rfl
    | _ =>
      rw [ht] at hop
      exact absurd hop Bool.false_ne_true
  obtain ⟨hmatch, hidst⟩ := hmatch
  obtain ⟨m', hm', hword⟩ := exe_resultWord hmatch fpu config
  rw [hidst] at hword
  refine ⟨m', hm', ?_⟩
  by_cases hneg : c.typeOf instr.opcode = .INEG_R
  · rw [← hword]
    unfold IntAlu.resultWord Instruction.reducedInst
    rw [hneg]
    rfl
  · rw [← sourceOperand_gen c instr i ibc usage m hop hneg hrcp, hword]

end

/-! ## the engine -/

namespace LoopEngine
section
variable {n : Nat}

structure Executing (w : InstWord) (T : RegWords) (s : State n) : Prop where
  progState : s.progState = .Running
  curInst : s.curInst = w.reduced
  regTable : s.regTable = T.table

/-- the operands that `ProgRunProcess` assigns, put through the integer ALU -/
def aluResult (s : State n) : Slv 64 :=
  let o := (progRunProcess s).2
  (IntAlu.rising ⟨o.intALUInDst, o.intALUInSrc, s.curInst, inTag⟩).outDst

/-- **The engine combines `r[dst]` with `r[src]`.** -/
theorem aluResult_eq (c : RandomXConfiguration) (instr : Instruction) {T : RegWords} {s : State n}
    (hs : Executing (instr.reducedInst c) T s)
    (hop : registerForm (c.typeOf instr.opcode) = true) :
    aluResult s = ((IntAlu.resultWord (T.r instr.dstReg.castSucc) (T.r instr.srcReg.castSucc)
      (instr.reducedInst c)).map Slv.ofBV).getD Slv.allX := by
  have hsel : selectOperands (instr.reducedInst c).reduced T.table s.inputs.spadRd s.operands
      = intR (instr.reducedInst c).reduced T.table s.operands := by
    unfold selectOperands
    rw [show (instr.reducedInst c).reduced.opcode = (c.typeOf instr.opcode).randXOp from rfl]
    cases ht : c.typeOf instr.opcode with
    | IADD_RS | ISUB_R | IMUL_R | IMULH_R | ISMULH_R | IMUL_RCP | INEG_R | IXOR_R | IROR_R
    | IROL_R => rfl
    | _ =>
      rw [ht] at hop
      exact absurd hop Bool.false_ne_true
  have hrun : (progRunProcess s).2 = intR (instr.reducedInst c).reduced T.table s.operands := by
    rw [← hsel, ← hs.curInst, ← hs.regTable]
    unfold progRunProcess
    rw [hs.progState]
  unfold aluResult
  rw [hrun, hs.curInst, ← IntAlu.computedResult_ofWords _ _ _ inTag, ← reg8_dst c instr,
    ← reg8_src c instr]
  rfl

end
end LoopEngine

/-! ## when the two agree -/

/-- the operands make no difference: source and destination differ, or the operation gives the same
for `r[dst]` as for the immediate; for `IMUL_RCP`, the same for `r[src]` as for the reciprocal -/
def SelectionOk (c : RandomXConfiguration) (instr : Instruction) (r : Fin 8 → Word) : Prop :=
  match c.typeOf instr.opcode with
  | .ISUB_R | .IXOR_R =>
    instr.srcReg = instr.dstReg → r instr.dstReg = signExtend2sCompl instr.imm32
  | .IMUL_R =>
    instr.srcReg = instr.dstReg →
      r instr.dstReg * (r instr.dstReg - signExtend2sCompl instr.imm32) = 0
  | .IROR_R | .IROL_R =>
    instr.srcReg = instr.dstReg →
      Period (r instr.dstReg) ((r instr.dstReg - instr.imm32.setWidth 64).setWidth 6).toNat
  | .IMUL_RCP =>
    r instr.dstReg * (r instr.srcReg - randomxReciprocal (instr.imm32.setWidth 64)) = 0
  | _ => True

theorem mul_eq_mul_iff (x a b : Word) : x * a = x * b ↔ x * (a - b) = 0 := by
  rw [BitVec.mul_sub, sub_eq_zero]

theorem period_sub (x a b : Word) :
    Period x ((a.setWidth 6).toNat + (64 - (b.setWidth 6).toNat % 64))
      ↔ Period x ((a - b).setWidth 6).toNat := by
  refine Period.congr fun _ => ?_
  rw [BitVec.toNat_setWidth, BitVec.toNat_setWidth, BitVec.toNat_setWidth, BitVec.toNat_sub]
  omega

/-- the oracle's choice matters only where source and destination are the same register -/
theorem source_eq_iff {β : Type} (f : Word → β) (r : Fin 8 → Word) (src dst : Fin 8) (imm : Word) :
    f (r src) = f (if src ≠ dst then r src else imm) ↔ (src = dst → f (r dst) = f imm) := by
  by_cases h : src = dst
  · subst h
    rw [if_neg (not_not.mpr rfl)]
    exact ⟨fun e _ => e, fun e => e rfl⟩
  · rw [if_pos h]
    exact iff_of_true rfl fun e => absurd e h

theorem resultWord_eq_iff (c : RandomXConfiguration) (instr : Instruction) (r : Fin 8 → Word)
    (hop : registerForm (c.typeOf instr.opcode) = true) :
    IntAlu.resultWord (r instr.dstReg) (r instr.srcReg) (instr.reducedInst c)
        = IntAlu.resultWord (r instr.dstReg) (oracleSource c instr r) (instr.reducedInst c)
      ↔ SelectionOk c instr r := by
  unfold IntAlu.resultWord oracleSource SelectionOk
  rw [show (instr.reducedInst c).opcode = (c.typeOf instr.opcode).randXOp from rfl]
  have hsource (f : Word → Word) := source_eq_iff (fun x => some (f x)) r instr.srcReg instr.dstReg
  cases ht : c.typeOf instr.opcode with
  | IADD_RS | IMULH_R | ISMULH_R | INEG_R => exact iff_of_true rfl trivial
  | ISUB_R =>
    refine (hsource (r instr.dstReg - ·) _).trans (imp_congr_right fun _ => ?_)
    rw [Option.some.injEq, BitVec.sub_right_inj]
  | IXOR_R =>
    refine (hsource (r instr.dstReg ^^^ ·) _).trans (imp_congr_right fun _ => ?_)
    rw [Option.some.injEq, BitVec.xor_right_inj]
  | IMUL_R =>
    refine (hsource (r instr.dstReg * ·) _).trans (imp_congr_right fun _ => ?_)
    rw [Option.some.injEq, mul_eq_mul_iff]
  | IROR_R =>
    refine (hsource (fun x => (r instr.dstReg).rotateRight (x.setWidth 6).toNat) _).trans
      (imp_congr_right fun _ => ?_)
    rw [Option.some.injEq, rotateRight_eq_iff, period_sub]
  | IROL_R =>
    refine (hsource (fun x => (r instr.dstReg).rotateLeft (x.setWidth 6).toNat) _).trans
      (imp_congr_right fun _ => ?_)
    rw [Option.some.injEq, rotateLeft_eq_iff, period_sub]
  | IMUL_RCP =>
    show some (r instr.dstReg * _) = some (r instr.dstReg * _) ↔ _
    rw [Option.some.injEq, mul_eq_mul_iff]
  | _ =>
    rw [ht] at hop
    exact absurd hop Bool.false_ne_true

def registerTable (r : Fin 8 → Word) : RegWords where
  r := Fin.snoc r 0
  f := fun _ => (0, 0)
  e := fun _ => (0, 0)
  a := fun _ => (0, 0)
  fprc := 0

def registerMachine (r : Fin 8 → Word) : Machine :=
  ⟨0, { (default : NativeRegisterFile) with r := r }, fun _ => 0, 0⟩

theorem registerMachine_r (r : Fin 8 → Word) (k : Fin 8) :
    (registerMachine r).nreg.r k = (registerTable r).r k.castSucc :=
  (Fin.snoc_castSucc (α := fun _ => Word) 0 r k).symm

namespace LoopEngine
section
variable (c : RandomXConfiguration) (instr : Instruction) (i : Nat) (ibc : InstructionByteCode)
  (usage : RegisterUsage) (m : Machine) (fpu : Fpu) (config : ProgramConfiguration)

/-- compiled and executed by the oracle, the instruction leaves in `r[dst]` what the ALU gives -/
def SelectionAgrees {n : Nat} (s : State n) : Prop :=
  ∃ m', executeInstruction fpu config (compileInstruction c instr i ibc usage).1 m = some m' ∧
    aluResult s = .ofBV (m'.nreg.r instr.dstReg)

theorem resultWord_isSome (dst src : Word) (hop : registerForm (c.typeOf instr.opcode) = true) :
    (IntAlu.resultWord dst src (instr.reducedInst c)).isSome := by
  unfold IntAlu.resultWord
  rw [show (instr.reducedInst c).opcode = (c.typeOf instr.opcode).randXOp from rfl]
  cases ht : c.typeOf instr.opcode with
  | IADD_RS | ISUB_R | IMUL_R | IMULH_R | ISMULH_R | IMUL_RCP | INEG_R | IXOR_R | IROR_R
  | IROL_R => rfl
  | _ =>
    rw [ht] at hop
    exact absurd hop Bool.false_ne_true

variable {n : Nat} {T : RegWords} {s : State n}

theorem selectionAgrees_iff_resultWord (hs : Executing (instr.reducedInst c) T s)
    (hr : ∀ k, m.nreg.r k = T.r k.castSucc) (hop : registerForm (c.typeOf instr.opcode) = true)
    (hrcp : c.typeOf instr.opcode = .IMUL_RCP →
      isZeroOrPowerOf2 (instr.imm32.setWidth 64) = false) :
    SelectionAgrees c instr i ibc usage m fpu config s ↔
      IntAlu.resultWord (m.nreg.r instr.dstReg) (m.nreg.r instr.srcReg) (instr.reducedInst c)
        = IntAlu.resultWord (m.nreg.r instr.dstReg) (oracleSource c instr m.nreg.r)
          (instr.reducedInst c) := by
  obtain ⟨m', hm', hword⟩ := execute_registerForm c instr i ibc usage m fpu config hop hrcp
  obtain ⟨x, hx⟩ := Option.isSome_iff_exists.mp (resultWord_isSome c instr
    (m.nreg.r instr.dstReg) (m.nreg.r instr.srcReg) hop)
  have halu : aluResult s = .ofBV x := by
    rw [aluResult_eq c instr hs hop, ← hr, ← hr, hx]
    rfl
  unfold SelectionAgrees
  rw [hx, hword, hm', halu, Option.some.injEq]
  constructor
  · rintro ⟨m'', hm'', h⟩
    rw [← Option.some.inj hm''] at h
    exact Slv.ofBV_inj.mp h
  · intro h
    exact ⟨m', rfl, by rw [h]⟩

/-- **The selected operands give the oracle's result exactly when the immediate or the reciprocal
makes no difference.** -/
theorem operandSelection_iff (hs : Executing (instr.reducedInst c) T s)
    (hr : ∀ k, m.nreg.r k = T.r k.castSucc) (hop : registerForm (c.typeOf instr.opcode) = true)
    (hrcp : c.typeOf instr.opcode = .IMUL_RCP →
      isZeroOrPowerOf2 (instr.imm32.setWidth 64) = false) :
    SelectionAgrees c instr i ibc usage m fpu config s ↔ SelectionOk c instr m.nreg.r :=
  (selectionAgrees_iff_resultWord c instr i ibc usage m fpu config hs hr hop hrcp).trans
    (resultWord_eq_iff c instr m.nreg.r hop)

end

/-! ## instructions on a table -/

/-- an engine in `Running`, with `w` in every place of its program -/
def State.executing (w : InstWord) (T : RegWords) : State 0 :=
  { elaborated { idleInputs 0 with reset := .F0 } .F0 with
    program := fun _ => w.reduced
    progState := .Running
    nextProgState := .Running
    drvNext := T.table
    drvRun := T.table }

theorem State.executing_spec (w : InstWord) (T : RegWords) : Executing w T (.executing w T) :=
  ⟨rfl, rfl, RegWords.resolve_self T⟩

/-- `ISUB_R r1, r2` on equal registers -/
theorem operandSelection_iff_isub_r :
    SelectionAgrees .base ⟨23, 1, 2, 0, 7⟩ 0 default (fun _ => -1) (registerMachine fun _ => 5)
      default default (.executing (Instruction.reducedInst .base ⟨23, 1, 2, 0, 7⟩)
        (registerTable fun _ => 5)) :=
  (operandSelection_iff .base ⟨23, 1, 2, 0, 7⟩ 0 default _ (registerMachine fun _ => 5) default
    default (State.executing_spec _ _) (registerMachine_r _) (by decide) (by decide)).mpr
    (by show (2 : Fin 8) = 1 → _; decide)

/-- `ISUB_R r1, r1` with the immediate `7` -/
theorem not_selectionAgrees_isub_r : ¬ ∀ (c : RandomXConfiguration) (instr : Instruction) (i : Nat)
    (ibc : InstructionByteCode) (usage : RegisterUsage) (m : Machine) (fpu : Fpu)
    (config : ProgramConfiguration) (n : Nat) (T : RegWords) (s : State n),
    Executing (instr.reducedInst c) T s → (∀ k, m.nreg.r k = T.r k.castSucc) →
    registerForm (c.typeOf instr.opcode) = true →
    (c.typeOf instr.opcode = .IMUL_RCP → isZeroOrPowerOf2 (instr.imm32.setWidth 64) = false) →
    SelectionAgrees c instr i ibc usage m fpu config s := by
  intro h
  have hagrees := h .base ⟨23, 1, 1, 0, 7⟩ 0 default (fun _ => -1) (registerMachine fun _ => 5)
    default default 0 (registerTable fun _ => 5) (.executing _ _) (State.executing_spec _ _)
    (registerMachine_r _) (by decide) (by decide)
  rw [selectionAgrees_iff_resultWord _ _ _ _ _ _ _ _ (State.executing_spec _ _)
    (registerMachine_r _) (by decide) (by decide)] at hagrees
  exact absurd hagrees (by decide)

end LoopEngine

end Randx
