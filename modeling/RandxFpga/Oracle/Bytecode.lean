import RandxFpga.Oracle.Config

/-!
# Compilation of a program to bytecode (`instruction.hpp`, `bytecode_machine.cpp`)

`compileInstruction` is the function of that name: the operation that the opcode selects fixes
which members of an `InstructionByteCode` are assigned, the others keep what they held.  Pointers
to registers are register numbers, `ISrc` and `FReg` say what `isrc`, `fsrc` and `fdst` point to.
`compileProgram` compiles the instructions one after the other, with `registerUsage` going from
each to the next.

* `gen_usage`          which registers an instruction marks as used;
* `compileProgram_eq`  the bytecode at one place.
-/

namespace Randx

structure Instruction where
  opcode : Byte
  dst : Byte
  src : Byte
  mod : Byte
  imm32 : BitVec 32
  deriving DecidableEq, Inhabited

namespace Instruction

def getModMem (instr : Instruction) : Fin 4 := Fin.ofNat 4 (instr.mod &&& 3).toNat

def getModShift (instr : Instruction) : BitVec 16 := ((instr.mod >>> 2) &&& 3).setWidth 16

def getModCond (instr : Instruction) : Nat := (instr.mod >>> 4).toNat

theorem val_getModMem (instr : Instruction) : instr.getModMem.val = instr.mod.toNat % 4 := by
  have h : (instr.mod &&& 3).toNat = instr.mod.toNat % 4 :=
    Nat.and_two_pow_sub_one_eq_mod instr.mod.toNat 2
  show (instr.mod &&& 3).toNat % 4 = _
  rw [h, Nat.mod_mod]

/-- `instr.dst % RegistersCount` -/
def dstReg (instr : Instruction) : Fin 8 := Fin.ofNat 8 instr.dst.toNat

/-- `instr.src % RegistersCount` -/
def srcReg (instr : Instruction) : Fin 8 := Fin.ofNat 8 instr.src.toNat

/-- `instr.dst % RegisterCountFlt` -/
def dstFlt (instr : Instruction) : Fin 4 := Fin.ofNat 4 instr.dst.toNat

/-- `instr.src % RegisterCountFlt` -/
def srcFlt (instr : Instruction) : Fin 4 := Fin.ofNat 4 instr.src.toNat

end Instruction

inductive FReg where
  | f (k : Fin 4) | e (k : Fin 4) | a (k : Fin 4)
  deriving DecidableEq, Inhabited

/-- what `isrc` points to: a register, the member `imm` of the bytecode, the constant `zero` -/
inductive ISrc where
  | r (k : Fin 8) | imm | zero
  deriving DecidableEq, Inhabited

/-- the alternatives of a union are members of their own: no operation assigns one and reads the
other -/
structure InstructionByteCode where
  idst : Fin 8
  fdst : FReg
  isrc : ISrc
  fsrc : FReg
  imm : Word
  type : InstructionType
  target : BitVec 16
  shift : BitVec 16
  memMask : BitVec 32
  deriving Inhabited

/-- the last instruction that changed each register, `-1` for none -/
abbrev RegisterUsage := Fin 8 → Int

section
variable (c : RandomXConfiguration) (instr : Instruction) (i : Nat) (ibc : InstructionByteCode)
  (usage : RegisterUsage)

/-! ## the branches of `compileInstruction` that several operations share -/

def genIntM (t : InstructionType) : InstructionByteCode × RegisterUsage :=
  let dst := instr.dstReg
  let src := instr.srcReg
  ({ ibc with
      type := t, idst := dst, imm := signExtend2sCompl instr.imm32,
      isrc := if src ≠ dst then .r src else .zero,
      memMask := if src ≠ dst then c.addressMask instr.getModMem else c.scratchpadL3Mask },
    Function.update usage dst i)

/-- `ISUB_R`, `IMUL_R`, `IXOR_R`, `IROR_R`, `IROL_R`: the immediate in place of the register
itself -/
def genIntR (t : InstructionType) (imm : Word) : InstructionByteCode × RegisterUsage :=
  let dst := instr.dstReg
  let src := instr.srcReg
  ({ ibc with
      type := t, idst := dst, isrc := if src ≠ dst then .r src else .imm,
      imm := if src ≠ dst then ibc.imm else imm },
    Function.update usage dst i)

/-- `IMULH_R`, `ISMULH_R`: the register also when it is the destination -/
def genMulh (t : InstructionType) : InstructionByteCode × RegisterUsage :=
  let dst := instr.dstReg
  ({ ibc with type := t, idst := dst, isrc := .r instr.srcReg }, Function.update usage dst i)

def genFltR (t : InstructionType) (fdst : FReg) : InstructionByteCode × RegisterUsage :=
  ({ ibc with type := t, fdst := fdst, fsrc := .a instr.srcFlt }, usage)

def genFltM (t : InstructionType) (fdst : FReg) : InstructionByteCode × RegisterUsage :=
  ({ ibc with
      type := t, fdst := fdst, isrc := .r instr.srcReg, memMask := c.addressMask instr.getModMem,
      imm := signExtend2sCompl instr.imm32 }, usage)

/-! ## `compileInstruction` -/

/-- the immediate of a branch: the bit above the condition offset set, the one below cleared -/
def branchImm (imm32 : BitVec 32) (shift : Nat) : Word :=
  (signExtend2sCompl imm32 ||| ((1#64 <<< jumpOffset) <<< shift))
    &&& ~~~((1#64 <<< (jumpOffset - 1)) <<< shift)

/-- the branch of `compileInstruction` for an operation -/
def gen (t : InstructionType) : InstructionByteCode × RegisterUsage :=
  match t with
  | .IADD_RS =>
    let dst := instr.dstReg
    ({ ibc with
        type := .IADD_RS, idst := dst, isrc := .r instr.srcReg, shift := instr.getModShift,
        imm := if dst ≠ registerNeedsDisplacement then 0 else signExtend2sCompl instr.imm32 },
      Function.update usage dst i)
  | .IADD_M => genIntM c instr i ibc usage .IADD_M
  | .ISUB_R => genIntR instr i ibc usage .ISUB_R (signExtend2sCompl instr.imm32)
  | .ISUB_M => genIntM c instr i ibc usage .ISUB_M
  | .IMUL_R => genIntR instr i ibc usage .IMUL_R (signExtend2sCompl instr.imm32)
  | .IMUL_M => genIntM c instr i ibc usage .IMUL_M
  | .IMULH_R => genMulh instr i ibc usage .IMULH_R
  | .IMULH_M => genIntM c instr i ibc usage .IMULH_M
  | .ISMULH_R => genMulh instr i ibc usage .ISMULH_R
  | .ISMULH_M => genIntM c instr i ibc usage .ISMULH_M
  | .IMUL_RCP =>
    let divisor : Word := instr.imm32.setWidth 64
    if !isZeroOrPowerOf2 divisor then
      let dst := instr.dstReg
      ({ ibc with
          type := .IMUL_R, idst := dst, imm := randomxReciprocal divisor, isrc := .imm },
        Function.update usage dst i)
    else ({ ibc with type := .NOP }, usage)
  | .INEG_R =>
    ({ ibc with type := .INEG_R, idst := instr.dstReg }, Function.update usage instr.dstReg i)
  | .IXOR_R => genIntR instr i ibc usage .IXOR_R (signExtend2sCompl instr.imm32)
  | .IXOR_M => genIntM c instr i ibc usage .IXOR_M
  | .IROR_R => genIntR instr i ibc usage .IROR_R (instr.imm32.setWidth 64)
  | .IROL_R => genIntR instr i ibc usage .IROL_R (instr.imm32.setWidth 64)
  | .ISWAP_R =>
    let dst := instr.dstReg
    let src := instr.srcReg
    if src ≠ dst then
      ({ ibc with idst := dst, isrc := .r src, type := .ISWAP_R },
        Function.update (Function.update usage dst i) src i)
    else ({ ibc with type := .NOP }, usage)
  | .FSWAP_R =>
    let dst := instr.dstReg.val
    ({ ibc with
        type := .FSWAP_R,
        fdst := if dst < 4 then .f (Fin.ofNat 4 dst) else .e (Fin.ofNat 4 (dst - 4)) }, usage)
  | .FADD_R => genFltR instr ibc usage .FADD_R (.f instr.dstFlt)
  | .FADD_M => genFltM c instr ibc usage .FADD_M (.f instr.dstFlt)
  | .FSUB_R => genFltR instr ibc usage .FSUB_R (.f instr.dstFlt)
  | .FSUB_M => genFltM c instr ibc usage .FSUB_M (.f instr.dstFlt)
  | .FSCAL_R => ({ ibc with type := .FSCAL_R, fdst := .f instr.dstFlt }, usage)
  | .FMUL_R => genFltR instr ibc usage .FMUL_R (.e instr.dstFlt)
  | .FDIV_M => genFltM c instr ibc usage .FDIV_M (.e instr.dstFlt)
  | .FSQRT_R => ({ ibc with type := .FSQRT_R, fdst := .e instr.dstFlt }, usage)
  | .CBRANCH =>
    let creg := instr.dstReg
    let shift := instr.getModCond
    ({ ibc with
        type := .CBRANCH, idst := creg, target := BitVec.ofInt 16 (usage creg),
        imm := branchImm instr.imm32 shift, memMask := conditionMask <<< shift },
      fun _ => i)
  | .CFROUND =>
    ({ ibc with
        isrc := .r instr.srcReg, type := .CFROUND, imm := instr.imm32.setWidth 64 &&& 63 }, usage)
  | .ISTORE =>
    ({ ibc with
        type := .ISTORE, idst := instr.dstReg, isrc := .r instr.srcReg,
        imm := signExtend2sCompl instr.imm32,
        memMask := if instr.getModCond < storeL3Condition then c.addressMask instr.getModMem
          else c.scratchpadL3Mask }, usage)
  | .NOP => ({ ibc with type := .NOP }, usage)

def compileInstruction : InstructionByteCode × RegisterUsage :=
  gen c instr i ibc usage (c.typeOf instr.opcode)

end

/-! ## `compileProgram` -/

structure CompileState where
  bytecode : Nat → InstructionByteCode
  registerUsage : RegisterUsage

section
variable (c : RandomXConfiguration) (program : Nat → Instruction)

def compileStep (s : CompileState) (i : Nat) : CompileState :=
  let (ibc, usage) := compileInstruction c (program i) i (s.bytecode i) s.registerUsage
  ⟨Function.update s.bytecode i ibc, usage⟩

/-- the first `n` turns, after `beginCompilation` -/
def compileTurns (bytecode : Nat → InstructionByteCode) (n : Nat) : CompileState :=
  (List.range n).foldl (compileStep c program) ⟨bytecode, fun _ => -1⟩

def compileProgram (bytecode : Nat → InstructionByteCode) : Nat → InstructionByteCode :=
  (compileTurns c program bytecode c.programSize).bytecode

end

/-! ## the registers an instruction marks -/

/-- the branch for the operation `t` assigns `registerUsage[k] = i` -/
def marks (instr : Instruction) (k : Fin 8) (t : InstructionType) : Bool :=
  match t with
  | .IADD_RS | .IADD_M | .ISUB_R | .ISUB_M | .IMUL_R | .IMUL_M | .IMULH_R | .IMULH_M | .ISMULH_R
  | .ISMULH_M | .INEG_R | .IXOR_R | .IXOR_M | .IROR_R | .IROL_R => k == instr.dstReg
  | .IMUL_RCP => !isZeroOrPowerOf2 (instr.imm32.setWidth 64) && k == instr.dstReg
  | .ISWAP_R => instr.srcReg != instr.dstReg && (k == instr.srcReg || k == instr.dstReg)
  | .CBRANCH => true
  | _ => false

theorem gen_usage (c : RandomXConfiguration) (instr : Instruction) (i : Nat)
    (ibc : InstructionByteCode) (usage : RegisterUsage) (t : InstructionType) (k : Fin 8) :
    (gen c instr i ibc usage t).2 k = if marks instr k t then (i : Int) else usage k := by
  cases t with
  | IMUL_RCP =>
    cases h : isZeroOrPowerOf2 (instr.imm32.setWidth 64)
    · simp [gen, marks, h, Function.update_apply]
    · simp [gen, marks, h]
  | ISWAP_R =>
    by_cases h : instr.srcReg = instr.dstReg
    · simp [gen, marks, h]
    · by_cases h1 : k = instr.srcReg
      · simp [gen, marks, h, h1]
      · simp [gen, marks, h, h1, Function.update_apply]
  | CBRANCH => rfl
  | _ =>
    first
      | rfl
      | simp [gen, marks, genIntM, genIntR, genMulh, Function.update_apply]

/-- an operation is compiled to itself, to a multiplication or to a no-op -/
theorem gen_type (c : RandomXConfiguration) (instr : Instruction) (i : Nat)
    (ibc : InstructionByteCode) (usage : RegisterUsage) (t : InstructionType) :
    (gen c instr i ibc usage t).1.type = t ∨ (gen c instr i ibc usage t).1.type = .IMUL_R ∨
      (gen c instr i ibc usage t).1.type = .NOP := by
  cases t with
  | IMUL_RCP | ISWAP_R =>
    simp only [gen]
    split <;> simp
  | _ => exact Or.inl rfl

theorem eq_of_gen_type {c : RandomXConfiguration} {instr : Instruction} {i : Nat}
    {ibc : InstructionByteCode} {usage : RegisterUsage} {t t' : InstructionType}
    (h : (gen c instr i ibc usage t).1.type = t') (hmul : t' ≠ .IMUL_R) (hnop : t' ≠ .NOP) :
    t = t' := by
  rcases gen_type c instr i ibc usage t with ht | ht | ht
  · exact ht.symm.trans h
  · exact absurd (h.symm.trans ht) hmul
  · exact absurd (h.symm.trans ht) hnop

theorem compileTurns_succ (c : RandomXConfiguration) (program : Nat → Instruction)
    (bytecode : Nat → InstructionByteCode) (n : Nat) :
    compileTurns c program bytecode (n + 1)
      = compileStep c program (compileTurns c program bytecode n) n := by
  unfold compileTurns
  rw [List.range_succ, List.foldl_append]
  rfl

/-- `registerUsage` when the loop reaches instruction `i` -/
def usageAt (c : RandomXConfiguration) (program : Nat → Instruction) : Nat → RegisterUsage
  | 0 => fun _ => -1
  | i + 1 => fun k =>
    if marks (program i) k (c.typeOf (program i).opcode) then (i : Int) else usageAt c program i k

theorem compileTurns_usage (c : RandomXConfiguration) (program : Nat → Instruction)
    (bytecode : Nat → InstructionByteCode) (n : Nat) :
    (compileTurns c program bytecode n).registerUsage = usageAt c program n := by
  induction n with
  | zero => rfl
  | succ n ih =>
    rw [compileTurns_succ]
    funext k
    show (gen c (program n) n _ _ _).2 k = _
    rw [gen_usage, ih]
    rfl

theorem compileTurns_bytecode (c : RandomXConfiguration) (program : Nat → Instruction)
    (bytecode : Nat → InstructionByteCode) (n j : Nat) :
    (compileTurns c program bytecode n).bytecode j
      = if j < n then (compileInstruction c (program j) j (bytecode j) (usageAt c program j)).1
        else bytecode j := by
  induction n with
  | zero => rfl
  | succ n ih =>
    have hstep : (compileTurns c program bytecode (n + 1)).bytecode
        = Function.update (compileTurns c program bytecode n).bytecode n
          (compileInstruction c (program n) n ((compileTurns c program bytecode n).bytecode n)
            (compileTurns c program bytecode n).registerUsage).1 := by
      rw [compileTurns_succ]
      rfl
    rw [hstep, compileTurns_usage]
    by_cases hj : j = n
    · subst hj
      rw [Function.update_self, ih, if_neg (lt_irrefl _), if_pos (Nat.lt_succ_self _)]
    · rw [Function.update_of_ne hj, ih]
      by_cases hlt : j < n
      · rw [if_pos hlt, if_pos (by omega)]
      · rw [if_neg hlt, if_neg (by omega)]

theorem compileProgram_eq (c : RandomXConfiguration) (program : Nat → Instruction)
    (bytecode : Nat → InstructionByteCode) {i : Nat} (h : i < c.programSize) :
    compileProgram c program bytecode i
      = (compileInstruction c (program i) i (bytecode i) (usageAt c program i)).1 := by
  unfold compileProgram
  rw [compileTurns_bytecode, if_pos h]

end Randx
