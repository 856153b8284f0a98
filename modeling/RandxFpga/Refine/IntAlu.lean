import RandxFpga.Fpga.IntAlu
import RandxFpga.Oracle.Exec

/-!
# The integer ALU computes what the oracle writes

`Matches` puts an instruction of the FPGA and its operands next to a bytecode of the oracle and its
state: the same operation (`oracleType`), the same destination and source operand.

* `exe_resultWord`      the oracle writes `IntAlu.resultWord` to its destination;
* `rising_eq_execute`   so does the ALU at the next rising edge.
-/

namespace Randx
open Hdl

/-- the operation of the oracle's bytecode for an integer operation of the FPGA; the oracle executes
`IMUL_RCP` as `IMUL_R` -/
def oracleType : RandXOp → Option InstructionType
  | .IADD_RS => some .IADD_RS
  | .IADD_M => some .IADD_M
  | .ISUB_R => some .ISUB_R
  | .ISUB_M => some .ISUB_M
  | .IMUL_R => some .IMUL_R
  | .IMUL_M => some .IMUL_M
  | .IMULH_R => some .IMULH_R
  | .IMULH_M => some .IMULH_M
  | .ISMULH_R => some .ISMULH_R
  | .ISMULH_M => some .ISMULH_M
  | .IMUL_RCP => some .IMUL_R
  | .INEG_R => some .INEG_R
  | .IXOR_R => some .IXOR_R
  | .IXOR_M => some .IXOR_M
  | .IROR_R => some .IROR_R
  | .IROL_R => some .IROL_R
  | .ISWAP_R => some .ISWAP_R
  | _ => none

/-- the source operand: the word at the offset of a memory operand, else `*ibc.isrc` -/
def sourceOperand (ibc : InstructionByteCode) (m : Machine) : Word :=
  match ibc.type with
  | .IADD_M | .ISUB_M | .IMUL_M | .IMULH_M | .ISMULH_M | .IXOR_M => memOperand ibc m
  | _ => ibc.isrcVal m.nreg

structure Matches (dst src : Word) (inst : InstWord) (ibc : InstructionByteCode) (m : Machine) :
    Prop where
  type : oracleType inst.opcode = some ibc.type
  dst : m.nreg.r ibc.idst = dst
  src : sourceOperand ibc m = src
  shift : ibc.type = .IADD_RS → ibc.shift = inst.modShift.setWidth 16
  imm : ibc.type = .IADD_RS → ibc.imm = if inst.dst = 5 then signExtend2sCompl inst.imm32 else 0
  swap : ibc.type = .ISWAP_R → ∃ k, ibc.isrc = .r k

/-! ## one operation -/

theorem rotateAmount_toNat (s : Word) :
    ((s &&& 63).setWidth 32).toNat = (s.setWidth 6).toNat ∧
      ((s &&& 63).setWidth 32).toNat < 64 := by
  have h : (s &&& 63).toNat = s.toNat % 64 := Nat.and_two_pow_sub_one_eq_mod s.toNat 6
  have hlt := Nat.mod_lt s.toNat (show 64 > 0 by omega)
  rw [BitVec.toNat_setWidth, BitVec.toNat_setWidth, h, Nat.mod_eq_of_lt (by omega)]
  exact ⟨rfl, hlt⟩

theorem setR_self (m : Machine) (k : Fin 8) (x : Word) : (m.setR k x).nreg.r k = x :=
  Function.update_self _ _ _

theorem exeInt_idst (ibc : InstructionByteCode) (m : Machine) (op : Word → Word → Word)
    (src : Word) : (exeInt ibc m op src).nreg.r ibc.idst = op (m.nreg.r ibc.idst) src :=
  setR_self _ _ _

/-- **What the oracle leaves in `*idst`.** -/
theorem exe_resultWord {dst src : Word} {inst : InstWord} {ibc : InstructionByteCode} {m : Machine}
    (h : Matches dst src inst ibc m) (fpu : Fpu) (config : ProgramConfiguration) :
    ∃ m', executeInstruction fpu config ibc m = some m' ∧
      IntAlu.resultWord dst src inst = some (m'.nreg.r ibc.idst) := by
  obtain ⟨htype, hdst, hsrc, hshift, himm, hswap⟩ := h
  obtain ⟨imm32, modMem, modShift, modCond, s, d, op⟩ := inst
  unfold sourceOperand at hsrc
  unfold executeInstruction IntAlu.resultWord
  cases op with
  | IADD_RS =>
    obtain ht := (Option.some.inj htype).symm
    rw [ht] at hsrc
    refine ⟨_, by rw [ht], ?_⟩
    have hsh : ibc.shift.toNat = modShift.toNat := by
      rw [hshift ht, BitVec.toNat_setWidth_of_le (by omega)]
    rw [exe_IADD_RS, exeInt_idst, hdst, show ibc.isrcVal m.nreg = src from hsrc, hsh, himm ht]
    rfl
  | IADD_M | ISUB_R | ISUB_M | IMUL_R | IMUL_M | IMUL_RCP | IXOR_R | IXOR_M =>
    obtain ht := (Option.some.inj htype).symm
    rw [ht] at hsrc
    refine ⟨_, by rw [ht], ?_⟩
    rw [← hdst, ← hsrc]
    exact congrArg some (exeInt_idst ibc m _ _).symm
  | IMULH_R | IMULH_M =>
    obtain ht := (Option.some.inj htype).symm
    rw [ht] at hsrc
    refine ⟨_, by rw [ht], ?_⟩
    show some _ = _
    rw [← mulh_eq_extract, ← hdst, ← hsrc]
    exact congrArg some (exeInt_idst ibc m _ _).symm
  | ISMULH_R | ISMULH_M =>
    obtain ht := (Option.some.inj htype).symm
    rw [ht] at hsrc
    refine ⟨_, by rw [ht], ?_⟩
    show some _ = _
    rw [← smulh_eq_extract, ← hdst, ← hsrc]
    exact congrArg some (exeInt_idst ibc m _ _).symm
  | INEG_R =>
    obtain ht := (Option.some.inj htype).symm
    refine ⟨_, by rw [ht], ?_⟩
    rw [exe_INEG_R, setR_self, hdst]
    exact congrArg some (BitVec.neg_eq_not_add dst)
  | IROR_R =>
    obtain ht := (Option.some.inj htype).symm
    rw [ht] at hsrc
    refine ⟨_, by rw [ht], ?_⟩
    obtain ⟨hamount, hlt⟩ := rotateAmount_toNat src
    rw [exe_IROR_R, exeInt_idst, hdst, show ibc.isrcVal m.nreg = src from hsrc,
      rotr64_eq _ _ hlt, hamount]
  | IROL_R =>
    obtain ht := (Option.some.inj htype).symm
    rw [ht] at hsrc
    refine ⟨_, by rw [ht], ?_⟩
    obtain ⟨hamount, hlt⟩ := rotateAmount_toNat src
    rw [exe_IROL_R, exeInt_idst, hdst, show ibc.isrcVal m.nreg = src from hsrc,
      rotl64_eq _ _ hlt, hamount]
  | ISWAP_R =>
    obtain ht := (Option.some.inj htype).symm
    obtain ⟨k, hk⟩ := hswap ht
    rw [ht] at hsrc
    have hsrc' : m.nreg.r k = src := by
      have hval : ibc.isrcVal m.nreg = src := hsrc
      rwa [InstructionByteCode.isrcVal, hk] at hval
    refine ⟨_, by rw [ht, exe_ISWAP_R, hk], ?_⟩
    show _ = some ((Machine.setR _ ibc.idst _).nreg.r ibc.idst)
    rw [setR_self, hsrc']
  | FSWAP_R | FADD_R | FADD_M | FSUB_R | FSUB_M | FSCAL_R | FMUL_R | FDIV_M | FSQRT_R | CBRANCH
  | CFROUND | ISTORE | NOP => exact absurd htype.symm (Option.some_ne_none _)

/-- **The ALU registers, at the next rising edge, the word that the oracle writes to `*idst`**; the
high halves of products are also those of the portable versions. -/
theorem rising_eq_execute (dst src : Word) (inst : InstWord) (tag : OpTag)
    (ibc : InstructionByteCode) (m : Machine) (fpu : Fpu) (config : ProgramConfiguration)
    (h : Matches dst src inst ibc m) :
    (∃ m', executeInstruction fpu config ibc m = some m' ∧
      (IntAlu.rising (.ofWords dst src inst tag)).outDst = .ofBV (m'.nreg.r ibc.idst)) ∧
      (inst.opcode = .IMULH_R ∨ inst.opcode = .IMULH_M →
        (IntAlu.rising (.ofWords dst src inst tag)).outDst = .ofBV (mulhPortable dst src)) ∧
      (inst.opcode = .ISMULH_R ∨ inst.opcode = .ISMULH_M →
        (IntAlu.rising (.ofWords dst src inst tag)).outDst = .ofBV (smulhPortable dst src)) := by
  have hout : (IntAlu.rising (.ofWords dst src inst tag)).outDst
      = ((IntAlu.resultWord dst src inst).map Slv.ofBV).getD Slv.allX :=
    IntAlu.computedResult_ofWords dst src inst tag
  rw [hout]
  refine ⟨?_, ?_, ?_⟩
  · obtain ⟨m', hm', hword⟩ := exe_resultWord h fpu config
    exact ⟨m', hm', by rw [hword]; rfl⟩
  · intro hop
    rw [mulhPortable_eq, mulh_eq_extract]
    unfold IntAlu.resultWord
    rcases hop with hop | hop <;> rw [hop] <;> rfl
  · intro hop
    rw [smulhPortable_eq, smulh_eq_extract]
    unfold IntAlu.resultWord
    rcases hop with hop | hop <;> rw [hop] <;> rfl

/-- `IADD_RS r5, r1, 3 << 2 + 8` on the operands 3 and 5 -/
theorem rising_eq_execute_iadd_rs :
    ∃ m', executeInstruction default default
        { (default : InstructionByteCode) with
          idst := 5, isrc := .r 1, shift := 2, imm := 8, type := .IADD_RS }
        ⟨0, { (default : NativeRegisterFile) with r := fun k => if k = 5 then 3 else 5 },
          fun _ => 0, 0⟩
        = some m' ∧
      (IntAlu.rising (.ofWords 3 5 ⟨8, 0, 2, 0, 1, 5, .IADD_RS⟩ ⟨.F0, 0⟩)).outDst
        = .ofBV (m'.nreg.r 5) :=
  (rising_eq_execute 3 5 ⟨8, 0, 2, 0, 1, 5, .IADD_RS⟩ ⟨.F0, 0⟩ _ _ default default
    ⟨rfl, rfl, rfl, fun _ => rfl, fun _ => rfl, by intro h; exact nomatch h⟩).1

end Randx
