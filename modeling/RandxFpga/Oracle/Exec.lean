import RandxFpga.Oracle.Bytecode
import RandxFpga.Run.Loop

/-!
# Execution of bytecode (`bytecode_machine.hpp`, `bytecode_machine.cpp`)

`executeInstruction` dispatches on the operation of a bytecode; `none` is its `UNREACHABLE`, and a
swap with something that is no register.  The arithmetic on doubles is that of the processor:
`Fpu` holds one function for each of the intrinsics, under the rounding mode in `MXCSR`.  The
moves and the bitwise operations on vectors are defined here.

`executeBytecode` is the fetch loop; it never takes more steps than its bound.
-/

namespace Randx

structure VecF128 where
  lo : Word
  hi : Word
  deriving DecidableEq, Inhabited

namespace VecF128

/-- `rx_and_vec_f128`, `rx_or_vec_f128`, `rx_xor_vec_f128` -/
def and (x y : VecF128) : VecF128 := ⟨x.lo &&& y.lo, x.hi &&& y.hi⟩

def or (x y : VecF128) : VecF128 := ⟨x.lo ||| y.lo, x.hi ||| y.hi⟩

def xor (x y : VecF128) : VecF128 := ⟨x.lo ^^^ y.lo, x.hi ^^^ y.hi⟩

def swap (x : VecF128) : VecF128 := ⟨x.hi, x.lo⟩

def set1 (x : Word) : VecF128 := ⟨x, x⟩

end VecF128

/-- the floating-point intrinsics; the first argument of the rounding ones is `MXCSR` -/
structure Fpu where
  cvtepi32Pd : Word → VecF128
  addPd : BitVec 32 → VecF128 → VecF128 → VecF128
  subPd : BitVec 32 → VecF128 → VecF128 → VecF128
  mulPd : BitVec 32 → VecF128 → VecF128 → VecF128
  divPd : BitVec 32 → VecF128 → VecF128 → VecF128
  sqrtPd : BitVec 32 → VecF128 → VecF128
  deriving Inhabited

structure ProgramConfiguration where
  eMask : Fin 2 → Word
  readReg0 : Fin 8
  readReg1 : Fin 8
  readReg2 : Fin 8
  readReg3 : Fin 8
  deriving Inhabited

structure NativeRegisterFile where
  r : Fin 8 → Word
  f : Fin 4 → VecF128
  e : Fin 4 → VecF128
  a : Fin 4 → VecF128
  deriving Inhabited

namespace NativeRegisterFile

def flt (n : NativeRegisterFile) : FReg → VecF128
  | .f k => n.f k
  | .e k => n.e k
  | .a k => n.a k

def setR (n : NativeRegisterFile) (k : Fin 8) (x : Word) : NativeRegisterFile :=
  { n with r := Function.update n.r k x }

def setFlt (n : NativeRegisterFile) (k : FReg) (x : VecF128) : NativeRegisterFile :=
  match k with
  | .f k => { n with f := Function.update n.f k x }
  | .e k => { n with e := Function.update n.e k x }
  | .a k => { n with a := Function.update n.a k x }

@[simp] theorem setR_r (n : NativeRegisterFile) (k : Fin 8) (x : Word) :
    (n.setR k x).r = Function.update n.r k x := rfl

@[simp] theorem setFlt_r (n : NativeRegisterFile) (k : FReg) (x : VecF128) :
    (n.setFlt k x).r = n.r := by
  cases k <;> rfl

end NativeRegisterFile

/-- `pc`, the registers, the scratchpad and the control bits of `MXCSR` -/
structure Machine where
  pc : Int
  nreg : NativeRegisterFile
  scratchpad : Bytes
  mxcsr : BitVec 32

namespace Machine

def setR (m : Machine) (k : Fin 8) (x : Word) : Machine := { m with nreg := m.nreg.setR k x }

def setFlt (m : Machine) (k : FReg) (x : VecF128) : Machine :=
  { m with nreg := m.nreg.setFlt k x }

@[simp] theorem setR_r (m : Machine) (k : Fin 8) (x : Word) :
    (m.setR k x).nreg.r = Function.update m.nreg.r k x := rfl

@[simp] theorem setFlt_r (m : Machine) (k : FReg) (x : VecF128) :
    (m.setFlt k x).nreg.r = m.nreg.r := NativeRegisterFile.setFlt_r _ _ _

end Machine

namespace InstructionByteCode

def isrcVal (ibc : InstructionByteCode) (n : NativeRegisterFile) : Word :=
  match ibc.isrc with
  | .r k => n.r k
  | .imm => ibc.imm
  | .zero => 0

/-- `getScratchpadAddress`: the offset into the scratchpad -/
def scratchpadAddress (ibc : InstructionByteCode) (n : NativeRegisterFile) : BitVec 32 :=
  ((ibc.isrcVal n + ibc.imm) &&& ibc.memMask.setWidth 64).setWidth 32

/-- the offset that `exe_ISTORE` writes at -/
def storeAddress (ibc : InstructionByteCode) (n : NativeRegisterFile) : Word :=
  (n.r ibc.idst + ibc.imm) &&& ibc.memMask.setWidth 64

end InstructionByteCode

/-- `rx_cvt_packed_int_vec_f128`: the 8 bytes at an address of the scratchpad -/
def cvtPackedInt (fpu : Fpu) (scratchpad : Bytes) (a : Nat) : VecF128 :=
  fpu.cvtepi32Pd (load64 scratchpad a)

def maskRegisterExponentMantissa (config : ProgramConfiguration) (x : VecF128) : VecF128 :=
  (x.and (.set1 dynamicMantissaMask)).or ⟨config.eMask 0, config.eMask 1⟩

def setRoundingMode (mode : BitVec 32) : BitVec 32 := mxcsrDefault ||| (mode <<< 13)

section
variable (fpu : Fpu) (config : ProgramConfiguration) (ibc : InstructionByteCode) (m : Machine)

/-! ## the `exe_*` functions -/

def exeInt (op : Word → Word → Word) (src : Word) : Machine :=
  m.setR ibc.idst (op (m.nreg.r ibc.idst) src)

def memOperand : Word := load64 m.scratchpad (ibc.scratchpadAddress m.nreg).toNat

def exe_IADD_RS : Machine :=
  exeInt ibc m (· + ·) ((ibc.isrcVal m.nreg <<< ibc.shift.toNat) + ibc.imm)

def exe_IADD_M : Machine := exeInt ibc m (· + ·) (memOperand ibc m)

def exe_ISUB_R : Machine := exeInt ibc m (· - ·) (ibc.isrcVal m.nreg)

def exe_ISUB_M : Machine := exeInt ibc m (· - ·) (memOperand ibc m)

def exe_IMUL_R : Machine := exeInt ibc m (· * ·) (ibc.isrcVal m.nreg)

def exe_IMUL_M : Machine := exeInt ibc m (· * ·) (memOperand ibc m)

def exe_IMULH_R : Machine := exeInt ibc m mulh (ibc.isrcVal m.nreg)

def exe_IMULH_M : Machine := exeInt ibc m mulh (memOperand ibc m)

def exe_ISMULH_R : Machine := exeInt ibc m smulh (ibc.isrcVal m.nreg)

def exe_ISMULH_M : Machine := exeInt ibc m smulh (memOperand ibc m)

def exe_INEG_R : Machine := m.setR ibc.idst (~~~ (m.nreg.r ibc.idst) + 1)

def exe_IXOR_R : Machine := exeInt ibc m (· ^^^ ·) (ibc.isrcVal m.nreg)

def exe_IXOR_M : Machine := exeInt ibc m (· ^^^ ·) (memOperand ibc m)

def exe_IROR_R : Machine :=
  exeInt ibc m (fun x s => rotr64 x ((s &&& 63).setWidth 32)) (ibc.isrcVal m.nreg)

def exe_IROL_R : Machine :=
  exeInt ibc m (fun x s => rotl64 x ((s &&& 63).setWidth 32)) (ibc.isrcVal m.nreg)

def exe_ISWAP_R : Option Machine :=
  match ibc.isrc with
  | .r k =>
    let temp := m.nreg.r k
    some ((m.setR k (m.nreg.r ibc.idst)).setR ibc.idst temp)
  | .imm | .zero => none

def exe_FSWAP_R : Machine := m.setFlt ibc.fdst (m.nreg.flt ibc.fdst).swap

def exeFlt (op : BitVec 32 → VecF128 → VecF128 → VecF128) (src : VecF128) : Machine :=
  m.setFlt ibc.fdst (op m.mxcsr (m.nreg.flt ibc.fdst) src)

def fltMemOperand : VecF128 :=
  cvtPackedInt fpu m.scratchpad (ibc.scratchpadAddress m.nreg).toNat

def exe_FADD_R : Machine := exeFlt ibc m fpu.addPd (m.nreg.flt ibc.fsrc)

def exe_FADD_M : Machine := exeFlt ibc m fpu.addPd (fltMemOperand fpu ibc m)

def exe_FSUB_R : Machine := exeFlt ibc m fpu.subPd (m.nreg.flt ibc.fsrc)

def exe_FSUB_M : Machine := exeFlt ibc m fpu.subPd (fltMemOperand fpu ibc m)

def exe_FSCAL_R : Machine :=
  m.setFlt ibc.fdst ((m.nreg.flt ibc.fdst).xor (.set1 0x80F0000000000000))

def exe_FMUL_R : Machine := exeFlt ibc m fpu.mulPd (m.nreg.flt ibc.fsrc)

def exe_FDIV_M : Machine :=
  exeFlt ibc m fpu.divPd (maskRegisterExponentMantissa config (fltMemOperand fpu ibc m))

def exe_FSQRT_R : Machine := m.setFlt ibc.fdst (fpu.sqrtPd m.mxcsr (m.nreg.flt ibc.fdst))

def exe_CBRANCH : Machine :=
  let m := m.setR ibc.idst (m.nreg.r ibc.idst + ibc.imm)
  if m.nreg.r ibc.idst &&& ibc.memMask.setWidth 64 = 0 then { m with pc := ibc.target.toInt }
  else m

def exe_CFROUND : Machine :=
  { m with
    mxcsr := setRoundingMode
      ((rotr64 (ibc.isrcVal m.nreg) (ibc.imm.setWidth 32) % 4).setWidth 32) }

def exe_ISTORE : Machine :=
  { m with
    scratchpad := store64 m.scratchpad (ibc.storeAddress m.nreg).toNat (ibc.isrcVal m.nreg) }

/-! ## `executeInstruction` and the fetch loop -/

def executeInstruction : Option Machine :=
  match ibc.type with
  | .IADD_RS => some (exe_IADD_RS ibc m)
  | .IADD_M => some (exe_IADD_M ibc m)
  | .ISUB_R => some (exe_ISUB_R ibc m)
  | .ISUB_M => some (exe_ISUB_M ibc m)
  | .IMUL_R => some (exe_IMUL_R ibc m)
  | .IMUL_M => some (exe_IMUL_M ibc m)
  | .IMULH_R => some (exe_IMULH_R ibc m)
  | .IMULH_M => some (exe_IMULH_M ibc m)
  | .ISMULH_R => some (exe_ISMULH_R ibc m)
  | .ISMULH_M => some (exe_ISMULH_M ibc m)
  | .INEG_R => some (exe_INEG_R ibc m)
  | .IXOR_R => some (exe_IXOR_R ibc m)
  | .IXOR_M => some (exe_IXOR_M ibc m)
  | .IROR_R => some (exe_IROR_R ibc m)
  | .IROL_R => some (exe_IROL_R ibc m)
  | .ISWAP_R => exe_ISWAP_R ibc m
  | .FSWAP_R => some (exe_FSWAP_R ibc m)
  | .FADD_R => some (exe_FADD_R fpu ibc m)
  | .FADD_M => some (exe_FADD_M fpu ibc m)
  | .FSUB_R => some (exe_FSUB_R fpu ibc m)
  | .FSUB_M => some (exe_FSUB_M fpu ibc m)
  | .FSCAL_R => some (exe_FSCAL_R ibc m)
  | .FMUL_R => some (exe_FMUL_R fpu ibc m)
  | .FDIV_M => some (exe_FDIV_M fpu config ibc m)
  | .FSQRT_R => some (exe_FSQRT_R fpu ibc m)
  | .CBRANCH => some (exe_CBRANCH ibc m)
  | .CFROUND => some (exe_CFROUND ibc m)
  | .ISTORE => some (exe_ISTORE ibc m)
  | .NOP => some m
  | .IMUL_RCP => none

end

/-! ## what compiled instructions do -/

theorem exe_CBRANCH_r (ibc : InstructionByteCode) (m : Machine) :
    (exe_CBRANCH ibc m).nreg.r
      = Function.update m.nreg.r ibc.idst (m.nreg.r ibc.idst + ibc.imm) := by
  unfold exe_CBRANCH
  dsimp only
  split_ifs <;> rfl

theorem exe_CBRANCH_pc (ibc : InstructionByteCode) (m : Machine) :
    (exe_CBRANCH ibc m).pc
      = if m.nreg.r ibc.idst + ibc.imm &&& ibc.memMask.setWidth 64 = 0 then ibc.target.toInt
        else m.pc := by
  unfold exe_CBRANCH
  simp only [Machine.setR_r, Function.update_self]
  split_ifs <;> rfl

theorem exe_CBRANCH_scratchpad (ibc : InstructionByteCode) (m : Machine) :
    (exe_CBRANCH ibc m).scratchpad = m.scratchpad := by
  unfold exe_CBRANCH
  dsimp only
  split_ifs <;> rfl

/-- a compiled instruction that is no branch: control stays, and so do the registers it does not
mark -/
theorem executeInstruction_gen (c : RandomXConfiguration) (fpu : Fpu)
    (config : ProgramConfiguration) (instr : Instruction) (i : Nat) (ibc : InstructionByteCode)
    (usage : RegisterUsage) (m : Machine) {t : InstructionType} (ht : t ≠ .CBRANCH) :
    ∃ m', executeInstruction fpu config (gen c instr i ibc usage t).1 m = some m' ∧
      m'.pc = m.pc ∧ ∀ k, marks instr k t = false → m'.nreg.r k = m.nreg.r k := by
  -- the destination is marked
  have hset : ∀ (x : Word) (k : Fin 8), (k == instr.dstReg) = false →
      (m.setR instr.dstReg x).nreg.r k = m.nreg.r k := fun x k hk =>
    Function.update_of_ne (by simpa using hk) _ _
  cases t with
  | CBRANCH => exact absurd rfl ht
  | IADD_RS | IADD_M | ISUB_R | ISUB_M | IMUL_R | IMUL_M | IMULH_R | IMULH_M | ISMULH_R | ISMULH_M
  | INEG_R | IXOR_R | IXOR_M | IROR_R | IROL_R => exact ⟨_, rfl, rfl, hset _⟩
  | IMUL_RCP =>
    cases h : isZeroOrPowerOf2 (instr.imm32.setWidth 64) with
    | true =>
      simp only [gen, h]
      exact ⟨m, rfl, rfl, fun _ _ => rfl⟩
    | false =>
      simp only [gen, marks, h, Bool.not_false, if_true, Bool.true_and]
      exact ⟨_, rfl, rfl, hset _⟩
  | ISWAP_R =>
    by_cases h : instr.srcReg = instr.dstReg
    · simp only [gen, h, ne_eq, not_true, if_false]
      exact ⟨m, rfl, rfl, fun _ _ => rfl⟩
    · simp only [gen, h, ne_eq, not_false_eq_true, if_true]
      refine ⟨_, rfl, rfl, fun k hk => ?_⟩
      have hk' : k ≠ instr.srcReg ∧ k ≠ instr.dstReg := by simpa [marks, h] using hk
      show Function.update (Function.update m.nreg.r instr.srcReg _) instr.dstReg _ k = _
      rw [Function.update_of_ne hk'.2, Function.update_of_ne hk'.1]
  | FSWAP_R | FADD_R | FADD_M | FSUB_R | FSUB_M | FSCAL_R | FMUL_R | FDIV_M | FSQRT_R =>
    exact ⟨_, rfl, rfl, fun k _ => congrFun (Machine.setFlt_r m _ _) k⟩
  | CFROUND | ISTORE | NOP => exact ⟨_, rfl, rfl, fun _ _ => rfl⟩

theorem executeInstruction_gen_congr (c : RandomXConfiguration) (fpu : Fpu)
    (config : ProgramConfiguration) (instr : Instruction) (i : Nat) (ibc ibc' : InstructionByteCode)
    (usage : RegisterUsage) (m : Machine) (t : InstructionType) :
    executeInstruction fpu config (gen c instr i ibc usage t).1 m
      = executeInstruction fpu config (gen c instr i ibc' usage t).1 m := by
  cases t with
  | ISUB_R | IMUL_R | IXOR_R | IROR_R | IROL_R =>
    show some (exeInt _ m _ _) = some (exeInt _ m _ _)
    by_cases h : instr.srcReg = instr.dstReg
    · simp [gen, genIntR, exeInt, InstructionByteCode.isrcVal, h]
    · simp [gen, genIntR, exeInt, InstructionByteCode.isrcVal, h]
  | IMUL_RCP | ISWAP_R =>
    simp only [gen]
    split_ifs <;> rfl
  | _ => rfl

section
variable (c : RandomXConfiguration) (fpu : Fpu) (config : ProgramConfiguration)
  (bytecode : Nat → InstructionByteCode)

/-- `!(pc < ProgramSize)` -/
def fetchDone (m : Machine) : Bool := decide ((c.programSize : Int) ≤ m.pc)

theorem pc_lt_of_fetch {c : RandomXConfiguration} {m : Machine} (h : fetchDone c m = false) :
    m.pc.toNat < c.programSize := by
  have hlt := of_decide_eq_false h
  have hpos := c.programSize_pos
  omega

/-- the body of the fetch loop, then `++pc` -/
def fetchStep (m : Machine) : Option Machine :=
  (executeInstruction fpu config (bytecode m.pc.toNat) m).map fun m => { m with pc := m.pc + 1 }

/-- `executeBytecode` with a bound on the instructions it executes -/
def executeBytecode (m : Machine) : Option Machine :=
  Loop.run (fetchDone c) (fetchStep fpu config bytecode) (3 * c.programSize) { m with pc := 0 }

/-- the first `n` executed instructions: the machine before and after each of them -/
def executeTrace (n : Nat) (m : Machine) : List (Machine × Machine) :=
  Loop.steps (fetchDone c) (fetchStep fpu config bytecode) n { m with pc := 0 }

/-! ## compiled programs -/

theorem fetchStep_ne_none (program : Nat → Instruction) (m : Machine) (hd : fetchDone c m = false) :
    fetchStep fpu config (compileProgram c program bytecode) m ≠ none := by
  unfold fetchStep
  rw [compileProgram_eq c program bytecode (pc_lt_of_fetch hd)]
  by_cases ht : c.typeOf (program m.pc.toNat).opcode = .CBRANCH
  · rw [compileInstruction, ht]
    exact Option.some_ne_none _
  · obtain ⟨m', hm', -⟩ := executeInstruction_gen c fpu config (program m.pc.toNat) m.pc.toNat
      (bytecode m.pc.toNat) (usageAt c program m.pc.toNat) m ht
    rw [compileInstruction, hm']
    exact Option.some_ne_none _

theorem executeBytecode_congr (program : Nat → Instruction)
    (bytecode' : Nat → InstructionByteCode) (n : Nat) (m : Machine) :
    executeBytecode c fpu config (compileProgram c program bytecode) m
        = executeBytecode c fpu config (compileProgram c program bytecode') m ∧
      executeTrace c fpu config (compileProgram c program bytecode) n m
        = executeTrace c fpu config (compileProgram c program bytecode') n m := by
  have hstep : ∀ s, fetchDone c s = false →
      fetchStep fpu config (compileProgram c program bytecode) s
        = fetchStep fpu config (compileProgram c program bytecode') s := by
    intro s hd
    unfold fetchStep
    rw [compileProgram_eq c program bytecode (pc_lt_of_fetch hd),
      compileProgram_eq c program bytecode' (pc_lt_of_fetch hd)]
    exact congrArg _ (executeInstruction_gen_congr c fpu config _ _ _ _ _ s _)
  exact ⟨(Loop.run_congr hstep _ _).1, (Loop.run_congr hstep _ _).2⟩

end
end Randx
