import RandxFpga.Oracle.LowEq

/-!
# Which word of the scratchpad an instruction reaches

`memoryRule` says where an instruction goes, in terms of the instruction: the level of the
scratchpad that `mod` and `src = dst` select, and the word that is cut down to an offset in it
(`Level.offset`: below the size of the level, at a multiple of 8).

* `access_gen`      the compiled instruction goes there through the masks of the configuration;
* `access_monero`   with the masks of the Monero configuration that is the offset of the rule;
* `access_base`     with the masks of a configuration never applied it is the offset 0.
-/

namespace Randx

inductive Level where
  | L1 | L2 | L3
  deriving DecidableEq, Repr

/-- in bytes -/
def Level.size : Level → Nat
  | .L1 => 16384
  | .L2 => 262144
  | .L3 => 2097152

def Level.offset (l : Level) (x : Word) : Nat := x.toNat % l.size / 8 * 8

def Instruction.level (instr : Instruction) : Level := if instr.getModMem = 0 then .L2 else .L1

/-- the level an instruction reaches and the word that gives the offset in it -/
def memoryRule (instr : Instruction) (r : Fin 8 → Word) (t : InstructionType) :
    Option (Level × Word) :=
  let imm := signExtend2sCompl instr.imm32
  match t with
  | .IADD_M | .ISUB_M | .IMUL_M | .IMULH_M | .ISMULH_M | .IXOR_M =>
    some (if instr.srcReg ≠ instr.dstReg then (instr.level, r instr.srcReg + imm) else (.L3, imm))
  | .FADD_M | .FSUB_M | .FDIV_M => some (instr.level, r instr.srcReg + imm)
  | .ISTORE =>
    some (if instr.getModCond < storeL3Condition then instr.level else .L3, r instr.dstReg + imm)
  | _ => none

/-- the mask of a configuration for a level that `memoryRule` gives -/
def RandomXConfiguration.maskOf (c : RandomXConfiguration) (instr : Instruction) (l : Level) :
    BitVec 32 :=
  match l with
  | .L3 => c.scratchpadL3Mask
  | _ => c.addressMask instr.getModMem

theorem maskOf_level (c : RandomXConfiguration) (instr : Instruction) :
    c.maskOf instr instr.level = c.addressMask instr.getModMem := by
  unfold Instruction.level
  split <;> rfl

theorem scratchpadAddress_toNat (ibc : InstructionByteCode) (n : NativeRegisterFile) :
    (ibc.scratchpadAddress n).toNat
      = ((ibc.isrcVal n + ibc.imm) &&& ibc.memMask.setWidth 64).toNat := by
  have hle : ((ibc.isrcVal n + ibc.imm) &&& ibc.memMask.setWidth 64).toNat ≤ ibc.memMask.toNat := by
    rw [BitVec.toNat_and, BitVec.toNat_setWidth_of_le (by omega)]
    exact Nat.and_le_right
  have hlt := ibc.memMask.isLt
  unfold InstructionByteCode.scratchpadAddress
  rw [BitVec.toNat_setWidth, Nat.mod_eq_of_lt (by omega)]

/-- **A compiled instruction reaches the offset of its rule, cut by the mask of the level.** -/
theorem access_gen (c : RandomXConfiguration) (instr : Instruction) (i : Nat)
    (ibc : InstructionByteCode) (usage : RegisterUsage) (n : NativeRegisterFile)
    (t : InstructionType) :
    (gen c instr i ibc usage t).1.access n
      = (memoryRule instr n.r t).map fun p =>
          (p.2 &&& (c.maskOf instr p.1).setWidth 64).toNat := by
  cases t with
  | IADD_M | ISUB_M | IMUL_M | IMULH_M | ISMULH_M | IXOR_M =>
    show some (InstructionByteCode.scratchpadAddress _ n).toNat = some _
    rw [scratchpadAddress_toNat]
    by_cases h : instr.srcReg = instr.dstReg
    · simp [gen, genIntM, InstructionByteCode.isrcVal, h, RandomXConfiguration.maskOf]
    · simp [gen, genIntM, InstructionByteCode.isrcVal, h, maskOf_level]
  | FADD_M | FSUB_M | FDIV_M =>
    show some (InstructionByteCode.scratchpadAddress _ n).toNat = some _
    rw [scratchpadAddress_toNat]
    simp [gen, genFltM, InstructionByteCode.isrcVal, maskOf_level]
  | ISTORE =>
    show some (InstructionByteCode.storeAddress _ n).toNat = some _
    by_cases h : instr.getModCond < storeL3Condition
    · simp [gen, InstructionByteCode.storeAddress, h, maskOf_level]
    · simp [gen, InstructionByteCode.storeAddress, h, RandomXConfiguration.maskOf]
  | IMUL_RCP | ISWAP_R =>
    simp only [gen]
    split_ifs <;> rfl
  | _ => rfl

/-- the compiled instructions of two configurations with the same frequencies differ in the masks
only -/
theorem gen_sameUpToMask (c c' : RandomXConfiguration) (instr : Instruction) (i : Nat)
    (ibc : InstructionByteCode) (usage : RegisterUsage) (t : InstructionType) :
    SameUpToMask (gen c instr i ibc usage t).1 (gen c' instr i ibc usage t).1 := by
  cases t with
  | IADD_M | ISUB_M | IMUL_M | IMULH_M | ISMULH_M | IXOR_M | FADD_M | FSUB_M | FDIV_M | ISTORE =>
    exact ⟨rfl, rfl, rfl, rfl, rfl, rfl, fun h => nomatch h⟩
  | IMUL_RCP | ISWAP_R =>
    simp only [gen]
    split_ifs <;> exact SameUpToMask.refl _
  | _ => exact SameUpToMask.refl _

theorem usageAt_congr {c c' : RandomXConfiguration} (h : c.freq = c'.freq)
    (program : Nat → Instruction) (i : Nat) : usageAt c program i = usageAt c' program i := by
  induction i with
  | zero => rfl
  | succ i ih =>
    unfold usageAt
    rw [ih, RandomXConfiguration.typeOf_congr h]

theorem compileProgram_sameUpToMask (c c' : RandomXConfiguration) (h : c.freq = c'.freq)
    (hsize : c.programSize = c'.programSize) (program : Nat → Instruction)
    (bytecode : Nat → InstructionByteCode) (i : Nat) (hi : i < c.programSize) :
    SameUpToMask (compileProgram c program bytecode i) (compileProgram c' program bytecode i) := by
  rw [compileProgram_eq c program bytecode hi, compileProgram_eq c' program bytecode (hsize ▸ hi),
    ← usageAt_congr h]
  unfold compileInstruction
  rw [← RandomXConfiguration.typeOf_congr h]
  exact gen_sameUpToMask c c' _ _ _ _ _

/-! ## the two configurations -/

theorem and_mask (x k : Nat) : x &&& ((2 ^ k - 1) <<< 3) = x % 2 ^ (k + 3) / 8 * 8 := by
  have hshift : x &&& ((2 ^ k - 1) <<< 3) = ((x >>> 3) &&& (2 ^ k - 1)) <<< 3 := by
    apply Nat.eq_of_testBit_eq
    intro i
    rw [Nat.testBit_and, Nat.testBit_shiftLeft, Nat.testBit_shiftLeft, Nat.testBit_and,
      Nat.testBit_shiftRight]
    by_cases hi : 3 ≤ i
    · rw [show 3 + (i - 3) = i by omega]
      simp [hi]
    · simp [hi]
  rw [hshift, Nat.and_two_pow_sub_one_eq_mod, Nat.shiftLeft_eq, Nat.shiftRight_eq_div_pow,
    show 2 ^ (k + 3) = 2 ^ 3 * 2 ^ k by rw [pow_add, Nat.mul_comm]]
  show _ = x % (2 ^ 3 * 2 ^ k) / 2 ^ 3 * 2 ^ 3
  rw [Nat.mod_mul_right_div_self]

theorem toNat_maskOf_monero (instr : Instruction) {l : Level}
    (h : l = instr.level ∨ l = .L3) :
    (RandomXConfiguration.monero.maskOf instr l).toNat = l.size - 8 := by
  rcases h with rfl | rfl
  · rw [maskOf_level]
    unfold Instruction.level
    show (if instr.getModMem = 0 then _ else _ : BitVec 32).toNat = _
    by_cases h0 : instr.getModMem = 0
    · rw [if_pos h0, if_pos h0]
      rfl
    · rw [if_neg h0, if_neg h0]
      rfl
  · rfl

theorem monero_maskOf (instr : Instruction) (x : Word) {l : Level}
    (h : l = instr.level ∨ l = .L3) :
    (x &&& (RandomXConfiguration.monero.maskOf instr l).setWidth 64).toNat = l.offset x := by
  rw [BitVec.toNat_and, BitVec.toNat_setWidth_of_le (by omega), toNat_maskOf_monero instr h]
  cases l with
  | L1 => exact and_mask x.toNat 11
  | L2 => exact and_mask x.toNat 15
  | L3 => exact and_mask x.toNat 18

theorem memoryRule_level {instr : Instruction} {r : Fin 8 → Word} {t : InstructionType}
    {p : Level × Word} (h : memoryRule instr r t = some p) : p.1 = instr.level ∨ p.1 = .L3 := by
  cases t with
  | IADD_M | ISUB_M | IMUL_M | IMULH_M | ISMULH_M | IXOR_M =>
    obtain rfl := Option.some.inj h
    by_cases hs : instr.srcReg = instr.dstReg
    · simp [hs]
    · simp [hs]
  | FADD_M | FSUB_M | FDIV_M =>
    obtain rfl := Option.some.inj h
    exact .inl rfl
  | ISTORE =>
    obtain rfl := Option.some.inj h
    by_cases hc : instr.getModCond < storeL3Condition
    · simp [hc]
    · simp [hc]
  | _ => exact nomatch h

def ruleAddress (instr : Instruction) (r : Fin 8 → Word) (t : InstructionType) : Option Nat :=
  (memoryRule instr r t).map fun p => p.1.offset p.2

theorem access_monero (instr : Instruction) (i : Nat) (ibc : InstructionByteCode)
    (usage : RegisterUsage) (n : NativeRegisterFile) (t : InstructionType) :
    (gen .monero instr i ibc usage t).1.access n = ruleAddress instr n.r t := by
  rw [access_gen, ruleAddress]
  cases h : memoryRule instr n.r t with
  | none => rfl
  | some p => exact congrArg some (monero_maskOf instr p.2 (memoryRule_level h))

theorem access_base (instr : Instruction) (i : Nat) (ibc : InstructionByteCode)
    (usage : RegisterUsage) (n : NativeRegisterFile) (t : InstructionType) :
    (gen .base instr i ibc usage t).1.access n = (ruleAddress instr n.r t).map fun _ => 0 := by
  have hmask : ∀ l, RandomXConfiguration.base.maskOf instr l = 0 := fun l => by cases l <;> rfl
  rw [access_gen, ruleAddress, Option.map_map]
  congr 1
  funext p
  rw [hmask]
  simp

end Randx
