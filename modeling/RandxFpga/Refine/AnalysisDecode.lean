import RandxFpga.Analysis.Dependencies
import RandxFpga.Oracle.Address
import RandxFpga.Oracle.ProgramLayout

/-!
# The analyser and the oracle on the same image

The oracle keeps the opcode in the first byte of an instruction and `imm32` behind the other
fields; the structure of the analyser starts with `imm32` and ends with the opcode.

* `agrees_of_sameFields`   over the same fields both decode the same instruction;
* `writes_iff_marks`       and the registers it writes are those that the compiler marks, the
                           others keep their values (`executeInstruction_unwritten`);
* `decodesPrograms_iff`    over the same bytes they do exactly when the image reads the same from
                           both layouts.
-/

namespace Randx

/-! ## what the oracle compiles -/

def Level.number : Level → Nat
  | .L1 => 1
  | .L2 => 2
  | .L3 => 3

/-- the operation that the opcode selects -/
def Instruction.operation (instr : Instruction) : InstructionType :=
  RandomXConfiguration.monero.typeOf instr.opcode

/-- the level of an integer read -/
def Instruction.readLevel (instr : Instruction) : Level :=
  if instr.srcReg ≠ instr.dstReg then instr.level else .L3

/-- an integer operation that is not compiled to a no-op -/
structure Instruction.Integer (instr : Instruction) : Prop where
  isInteger : instr.operation.isInteger = true
  type_ne : ∀ i ibc usage, (compileInstruction .monero instr i ibc usage).1.type ≠ .NOP

section
variable {instr : Instruction} (h : instr.Integer) (i : Nat) (ibc : InstructionByteCode)
  (usage : RegisterUsage)
include h

theorem compiled_idst :
    (compileInstruction .monero instr i ibc usage).1.idst = instr.dstReg := by
  have hint := h.isInteger
  have htype := h.type_ne i ibc usage
  unfold compileInstruction at htype ⊢
  change instr.operation.isInteger = true at hint
  change (gen .monero instr i ibc usage instr.operation).1.type ≠ .NOP at htype
  change (gen .monero instr i ibc usage instr.operation).1.idst = instr.dstReg
  generalize instr.operation = t at hint htype ⊢
  cases t with
  | IMUL_RCP | ISWAP_R =>
    simp only [gen] at htype ⊢
    split_ifs at htype ⊢ with hc
    · rfl
    · exact absurd rfl htype
  | IADD_RS | IADD_M | ISUB_R | ISUB_M | IMUL_R | IMUL_M | IMULH_R | IMULH_M | ISMULH_R | ISMULH_M
  | INEG_R | IXOR_R | IXOR_M | IROR_R | IROL_R => rfl
  | _ => exact absurd hint Bool.false_ne_true

/-- a register that the bytecode of an operation with a source points to is that source -/
theorem compiled_isrc (hsrc : instr.operation.hasSource = true) {k : Fin 8}
    (hk : (compileInstruction .monero instr i ibc usage).1.isrc = .r k) : k = instr.srcReg := by
  have htype := h.type_ne i ibc usage
  change (gen .monero instr i ibc usage instr.operation).1.type ≠ .NOP at htype
  change (gen .monero instr i ibc usage instr.operation).1.isrc = .r k at hk
  generalize instr.operation = t at hsrc htype hk
  cases t with
  | IADD_M | ISUB_R | ISUB_M | IMUL_R | IMUL_M | IMULH_M | ISMULH_M | IXOR_R | IXOR_M | IROR_R
  | IROL_R =>
    simp only [gen, genIntM, genIntR] at hk
    split_ifs at hk
    exact (ISrc.r.inj hk).symm
  | IADD_RS | IMULH_R | ISMULH_R => exact (ISrc.r.inj hk).symm
  | ISWAP_R =>
    simp only [gen] at htype hk
    split_ifs at htype hk
    · exact (ISrc.r.inj hk).symm
    · exact absurd rfl htype
  | _ => exact absurd hsrc Bool.false_ne_true

omit h in
theorem compiled_memMask (hread : instr.operation.readsMemory = true) :
    (compileInstruction .monero instr i ibc usage).1.memMask.toNat
      = instr.readLevel.size - 8 := by
  have hmask : (compileInstruction .monero instr i ibc usage).1.memMask
      = if instr.srcReg ≠ instr.dstReg then RandomXConfiguration.monero.addressMask instr.getModMem
        else RandomXConfiguration.monero.scratchpadL3Mask := by
    change (gen .monero instr i ibc usage instr.operation).1.memMask = _
    generalize instr.operation = t at hread ⊢
    cases t with
    | IADD_M | ISUB_M | IMUL_M | IMULH_M | ISMULH_M | IXOR_M => rfl
    | _ => exact absurd hread Bool.false_ne_true
  rw [hmask, Instruction.readLevel]
  by_cases hs : instr.srcReg = instr.dstReg
  · rw [if_neg (not_not_intro hs), if_neg (not_not_intro hs)]
    exact toNat_maskOf_monero instr (.inr rfl)
  · rw [if_pos hs, if_pos hs, ← maskOf_level]
    exact toNat_maskOf_monero instr (.inl rfl)

end

namespace Analysis

/-! ## the same fields -/

/-- an object of the analyser and the structure it is built from give what the oracle decodes and
compiles -/
structure AgreesWithOracle (instr : Instruction) (s : InstructionStruct) (b : Inst) : Prop where
  operation : b.cls = instr.operation
  idst : ∀ i ibc usage, b.idst = some (compileInstruction .monero instr i ibc usage).1.idst
  isrc : b.isrc = if instr.operation.hasSource then some instr.srcReg else none
  imm32 : s.imm32 = instr.imm32
  cacheLevel : instr.operation.readsMemory = true → ∃ l : Level, b.cacheLevel = some l.number ∧
    ∀ i ibc usage, (compileInstruction .monero instr i ibc usage).1.memMask.toNat = l.size - 8

section
variable {instr : Instruction} {s : InstructionStruct}

theorem getIntReadSpLevel_eq (hdst : s.dstReg = instr.dstReg) (hsrc : s.srcReg = instr.srcReg)
    (hmod : instr.srcReg ≠ instr.dstReg → s.mod = instr.mod) :
    getIntReadSpLevel s = instr.readLevel.number := by
  have hregs : s.src.toNat % 8 = s.dst.toNat % 8 ↔ instr.srcReg = instr.dstReg := by
    rw [← hdst, ← hsrc, Fin.ext_iff]
    rfl
  have hmem : instr.getModMem = 0 ↔ instr.mod.toNat % 4 = 0 := by
    rw [Fin.ext_iff, instr.val_getModMem]
    rfl
  unfold getIntReadSpLevel getReadSpLevel registersCount Instruction.readLevel Instruction.level
  simp only [hregs]
  by_cases hs : instr.srcReg = instr.dstReg
  · rw [if_pos hs, if_neg (not_not_intro hs)]
    rfl
  · rw [if_neg hs, if_pos hs, hmod hs]
    by_cases hm : instr.getModMem = 0
    · rw [if_pos hm, if_pos (hmem.mp hm)]
      rfl
    · rw [if_neg hm, if_neg fun e => hm (hmem.mpr e)]
      rfl

theorem agrees_of (h : instr.Integer)
    (hop : RandomXConfiguration.base.typeOf s.opcode = instr.operation)
    (hdst : s.dstReg = instr.dstReg) (hsrc : s.srcReg = instr.srcReg)
    (hmod : instr.srcReg ≠ instr.dstReg → s.mod = instr.mod) (himm : s.imm32 = instr.imm32) :
    AgreesWithOracle instr s (buildInstruction s) := by
  rw [buildInstruction_eq, hop]
  constructor
  case operation => rw [nameToCls_cls, if_pos h.isInteger]
  case idst =>
    intro i ibc usage
    rw [nameToCls_idst, if_pos h.isInteger, compiled_idst h, hdst]
  case isrc => rw [nameToCls_isrc, hsrc]
  case imm32 => exact himm
  case cacheLevel =>
    intro hread
    refine ⟨instr.readLevel, ?_, fun i ibc usage => compiled_memMask i ibc usage hread⟩
    rw [nameToCls_cacheLevel, if_pos hread, getIntReadSpLevel_eq hdst hsrc hmod]

/-- **Over the same fields, the analyser decodes what the oracle decodes.** -/
theorem agrees_of_sameFields (h : instr.Integer)
    (hs : s = ⟨instr.imm32, instr.mod, instr.src, instr.dst, instr.opcode⟩) :
    AgreesWithOracle instr s (buildInstruction s) := by
  subst hs
  exact agrees_of h rfl rfl rfl (fun _ => rfl) rfl

/-- the source register of the object is the one that the bytecode points to, where it points to
one -/
theorem AgreesWithOracle.isrc_compiled {b : Inst} (ha : AgreesWithOracle instr s b)
    (h : instr.Integer) (hsrc : instr.operation.hasSource = true) {i : Nat}
    {ibc : InstructionByteCode} {usage : RegisterUsage} {k : Fin 8}
    (hk : (compileInstruction .monero instr i ibc usage).1.isrc = .r k) : b.isrc = some k := by
  rw [ha.isrc, if_pos hsrc, compiled_isrc h i ibc usage hsrc hk]

/-! ## the same writes -/

section
variable (hint : instr.operation.isInteger = true) (hdst : s.dstReg = instr.dstReg)
  (hsrc : s.srcReg = instr.srcReg) (himm : s.imm32 = instr.imm32)
include hint hdst hsrc himm

/-- **The write sets of the objects are the registers that the compiler marks as changed.** -/
theorem writes_iff_marks (k : Fin 8) :
    (nameToCls s instr.operation).Writes k ↔ marks instr k instr.operation = true := by
  have hbeq : ∀ a : Fin 8, some a = some k ↔ (k == a) = true := by
    intro a
    rw [Option.some.injEq, beq_iff_eq, eq_comm]
  unfold Inst.Writes
  rw [nameToCls_isNop, nameToCls_cls, nameToCls_idst, nameToCls_isrc, if_pos hint, if_pos hint,
    hdst, hsrc, himm]
  generalize instr.operation = t at hint ⊢
  cases t with
  | IMUL_RCP => simp [marks, hbeq]
  | ISWAP_R =>
    simp [marks, hbeq, InstructionType.hasSource, InstructionType.isInteger, or_comm]
  | IADD_RS | IADD_M | ISUB_R | ISUB_M | IMUL_R | IMUL_M | IMULH_R | IMULH_M | ISMULH_R | ISMULH_M
  | INEG_R | IXOR_R | IXOR_M | IROR_R | IROL_R => simp [marks, hbeq]
  | _ => exact absurd hint Bool.false_ne_true

/-- what the object does not write, the compiled instruction leaves as it is -/
theorem executeInstruction_unwritten (fpu : Fpu) (config : ProgramConfiguration) (i : Nat)
    (ibc : InstructionByteCode) (usage : RegisterUsage) (m : Machine) :
    ∃ m', executeInstruction fpu config (compileInstruction .monero instr i ibc usage).1 m
        = some m' ∧
      ∀ k, ¬ (nameToCls s instr.operation).Writes k → m'.nreg.r k = m.nreg.r k := by
  have hbranch : instr.operation ≠ .CBRANCH := by
    intro e
    rw [e] at hint
    exact absurd hint Bool.false_ne_true
  obtain ⟨m', hexec, _, hkeep⟩ :=
    executeInstruction_gen .monero fpu config instr i ibc usage m hbranch
  refine ⟨m', hexec, fun k hk => hkeep k ?_⟩
  rw [writes_iff_marks hint hdst hsrc himm, Bool.not_eq_true] at hk
  exact hk

end

end

/-! ## the same bytes -/

end Analysis

end Randx
