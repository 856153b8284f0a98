import Mathlib.Data.BitVec
import Mathlib.Tactic.Ring
import RandxFpga.Oracle.Word

/-!
# The configuration (`randomx.h`, `randomx.cpp`, `common.hpp`)

`RandomXConfiguration.base` is the constructor of `RandomX_ConfigurationBase` on a zeroed object:
it sets the sizes and the frequencies, and the three masks stay zero.  `apply` computes the masks.

* `wtSum`        the frequencies of a configuration sum up to 256, so that
* `typeOf`       every opcode byte selects an operation.
-/

namespace Randx

inductive InstructionType where
  | IADD_RS | IADD_M | ISUB_R | ISUB_M | IMUL_R | IMUL_M | IMULH_R | IMULH_M | ISMULH_R
  | ISMULH_M | IMUL_RCP | INEG_R | IXOR_R | IXOR_M | IROR_R | IROL_R | ISWAP_R | FSWAP_R
  | FADD_R | FADD_M | FSUB_R | FSUB_M | FSCAL_R | FMUL_R | FDIV_M | FSQRT_R | CBRANCH
  | CFROUND | ISTORE | NOP
  deriving DecidableEq, Repr, Inhabited

namespace InstructionType

/-- in the order of the tests in `compileInstruction` -/
def all : List InstructionType :=
  [IADD_RS, IADD_M, ISUB_R, ISUB_M, IMUL_R, IMUL_M, IMULH_R, IMULH_M, ISMULH_R, ISMULH_M,
    IMUL_RCP, INEG_R, IXOR_R, IXOR_M, IROR_R, IROL_R, ISWAP_R, FSWAP_R, FADD_R, FADD_M, FSUB_R,
    FSUB_M, FSCAL_R, FMUL_R, FDIV_M, FSQRT_R, CBRANCH, CFROUND, ISTORE, NOP]

/-- `opcode < FREQ`, else `opcode -= FREQ` and the next operation -/
def select (freq : InstructionType → Nat) : List InstructionType → Nat → Option InstructionType
  | [], _ => none
  | t :: ts, opcode => if opcode < freq t then some t else select freq ts (opcode - freq t)

theorem select_isSome (freq : InstructionType → Nat) (ts : List InstructionType) (opcode : Nat)
    (h : opcode < (ts.map freq).sum) : (select freq ts opcode).isSome := by
  induction ts generalizing opcode with
  | nil => exact absurd h (Nat.not_lt_zero _)
  | cons t ts ih =>
    rw [List.map_cons, List.sum_cons] at h
    unfold select
    by_cases hlt : opcode < freq t
    · rw [if_pos hlt]
      rfl
    · rw [if_neg hlt]
      exact ih _ (by omega)

end InstructionType

def programMaxSize : Nat := 256

structure RandomXConfiguration where
  scratchpadL1Size : BitVec 32
  scratchpadL2Size : BitVec 32
  scratchpadL3Size : BitVec 32
  programSize : Nat
  /-- `RANDOMX_FREQ_*` -/
  freq : InstructionType → Nat
  addressMask : Fin 4 → BitVec 32
  scratchpadL3Mask : BitVec 32
  scratchpadL3Mask64 : BitVec 32
  wtSum : (InstructionType.all.map freq).sum = 256
  programSize_pos : 0 < programSize
  programSize_le : programSize ≤ programMaxSize

namespace RandomXConfiguration

def baseFreq : InstructionType → Nat
  | .IADD_RS => 16
  | .IADD_M => 7
  | .ISUB_R => 16
  | .ISUB_M => 7
  | .IMUL_R => 16
  | .IMUL_M => 4
  | .IMULH_R => 4
  | .IMULH_M => 1
  | .ISMULH_R => 4
  | .ISMULH_M => 1
  | .IMUL_RCP => 8
  | .INEG_R => 2
  | .IXOR_R => 15
  | .IXOR_M => 5
  | .IROR_R => 8
  | .IROL_R => 2
  | .ISWAP_R => 4
  | .FSWAP_R => 4
  | .FADD_R => 16
  | .FADD_M => 5
  | .FSUB_R => 16
  | .FSUB_M => 5
  | .FSCAL_R => 6
  | .FMUL_R => 32
  | .FDIV_M => 4
  | .FSQRT_R => 6
  | .CBRANCH => 25
  | .CFROUND => 1
  | .ISTORE => 16
  | .NOP => 0

/-- `RandomX_CurrentConfig` before any `Apply`: a static object, so the masks are zero -/
def base : RandomXConfiguration where
  scratchpadL1Size := 16384
  scratchpadL2Size := 262144
  scratchpadL3Size := 2097152
  programSize := 256
  freq := baseFreq
  addressMask := fun _ => 0
  scratchpadL3Mask := 0
  scratchpadL3Mask64 := 0
  wtSum := by decide
  programSize_pos := by decide
  programSize_le := le_refl _

def apply (c : RandomXConfiguration) : RandomXConfiguration :=
  let scratchpadL1Mask := (c.scratchpadL1Size / 8 - 1) * 8
  let scratchpadL2Mask := (c.scratchpadL2Size / 8 - 1) * 8
  { c with
    addressMask := fun i => if i = 0 then scratchpadL2Mask else scratchpadL1Mask
    scratchpadL3Mask := (c.scratchpadL3Size / 8 - 1) * 8
    scratchpadL3Mask64 := (c.scratchpadL3Size / 8 / 8 - 1) * 64 }

/-- `randomx_apply_config(RandomX_MoneroConfig)`; the Monero configuration overrides nothing -/
def monero : RandomXConfiguration := base.apply

def typeOf (c : RandomXConfiguration) (opcode : Byte) : InstructionType :=
  (InstructionType.select c.freq InstructionType.all opcode.toNat).get
    (InstructionType.select_isSome _ _ _ (by rw [c.wtSum]; exact opcode.isLt))

theorem typeOf_congr {c d : RandomXConfiguration} (h : c.freq = d.freq) (opcode : Byte) :
    c.typeOf opcode = d.typeOf opcode := by
  simp only [typeOf, h]

end RandomXConfiguration

/-! ## constants of `RandomX_ConfigurationBase` and `common.hpp` -/

def jumpBits : Nat := 8

def jumpOffset : Nat := 8

/-- `ConditionMask_Calculated` -/
def conditionMask : BitVec 32 := ((1#32 <<< jumpBits) - 1) <<< jumpOffset

/-- `RegistersCount`, `RegisterCountFlt` -/
instance neZero_eight : NeZero 8 := ⟨by decide⟩

instance neZero_four : NeZero 4 := ⟨by decide⟩

def registerNeedsDisplacement : Fin 8 := 5

def storeL3Condition : Nat := 14

def mxcsrDefault : BitVec 32 := 0x9FC0

def dynamicMantissaMask : Word := (1#64 <<< (52 + 4)) - 1

/-! ## the reciprocal (`reciprocal.c`) -/

def isZeroOrPowerOf2 (x : Word) : Bool := x &&& (x - 1) == 0

/-- one turn of the loop over the bits of the divisor -/
def reciprocalStep (divisor : Word) (qr : Word × Word) : Word × Word :=
  let (quotient, remainder) := qr
  if divisor - remainder ≤ remainder then (quotient * 2 + 1, remainder * 2 - divisor)
  else (quotient * 2, remainder * 2)

/-- `for (bit = divisor; bit > 0; bit >>= 1) bsr++`, which ends within the 64 bits -/
def countBits : Nat → Word → Nat
  | 0, _ => 0
  | n + 1, bit => if bit = 0 then 0 else countBits n (bit >>> 1) + 1

def randomxReciprocal (divisor : Word) : Word :=
  let p2exp63 := 1#64 <<< 63
  let bsr := countBits 64 divisor
  ((reciprocalStep divisor)^[bsr] (p2exp63 / divisor, p2exp63 % divisor)).1

end Randx
