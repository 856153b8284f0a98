import RandxFpga.Fpga.Common

/-!
# The integer ALU (`int_alu.vhd`)

`computedResult` is `CalculateProc`, `IntAlu.rising` is `StorageProc`: the result of the
operands that are on the inputs at a rising edge is on `outDst` after it.
-/

namespace Randx
open Hdl

namespace IntAlu

structure Inputs where
  inDst : Slv 64
  inSrc : Slv 64
  inInst : ReducedInst
  inTag : OpTag

structure State where
  outDst : Slv 64
  outTag : OpTag

/-- `CalculateProc`: the value of the signal `computedResult` -/
def computedResult (i : Inputs) : Slv 64 :=
  match i.inInst.opcode with
  | .IADD_RS =>
    let tmp := i.inSrc.sll i.inInst.modShift.toInteger
    -- register 5 also takes the immediate
    let tmp := if i.inInst.dst.eqNat 5 then tmp.addSigned i.inInst.imm32 else tmp
    i.inDst.add tmp
  | .IADD_M => i.inDst.add i.inSrc
  | .ISUB_R => i.inDst.sub i.inSrc
  | .ISUB_M => i.inDst.sub i.inSrc
  | .IMUL_R => (i.inDst.mulUnsigned i.inSrc).slice 0 64
  | .IMUL_M => (i.inDst.mulUnsigned i.inSrc).slice 0 64
  | .IMULH_R => (i.inDst.mulUnsigned i.inSrc).slice 64 64
  | .IMULH_M => (i.inDst.mulUnsigned i.inSrc).slice 64 64
  | .ISMULH_R => (i.inDst.mulSigned i.inSrc).slice 64 64
  | .ISMULH_M => (i.inDst.mulSigned i.inSrc).slice 64 64
  | .IMUL_RCP => (i.inDst.mulUnsigned i.inSrc).slice 0 64
  | .INEG_R => i.inDst.neg
  | .IXOR_R => i.inDst.xorV i.inSrc
  | .IXOR_M => i.inDst.xorV i.inSrc
  | .IROR_R => i.inDst.ror (i.inSrc.slice 0 6).toInteger
  | .IROL_R => i.inDst.rol (i.inSrc.slice 0 6).toInteger
  | .ISWAP_R => i.inSrc
  | _ => Slv.allX

/-- `StorageProc` at a rising edge -/
def rising (i : Inputs) : State := ⟨computedResult i, i.inTag⟩

def Inputs.ofWords (dst src : BitVec 64) (inst : InstWord) (tag : OpTag) : Inputs :=
  ⟨.ofBV dst, .ofBV src, inst.reduced, tag⟩

/-! ## the result on words -/

def resultWord (dst src : BitVec 64) (inst : InstWord) : Option (BitVec 64) :=
  match inst.opcode with
  | .IADD_RS =>
    let imm := if inst.dst = 5 then inst.imm32.signExtend 64 else 0
    some (dst + (src <<< inst.modShift.toNat + imm))
  | .IADD_M => some (dst + src)
  | .ISUB_R | .ISUB_M => some (dst - src)
  | .IMUL_R | .IMUL_M | .IMUL_RCP => some (dst * src)
  | .IMULH_R | .IMULH_M =>
    some ((dst.setWidth 128 * src.setWidth 128).extractLsb' 64 64)
  | .ISMULH_R | .ISMULH_M =>
    some ((dst.signExtend 128 * src.signExtend 128).extractLsb' 64 64)
  | .INEG_R => some (-dst)
  | .IXOR_R | .IXOR_M => some (dst ^^^ src)
  | .IROR_R => some (dst.rotateRight (src.setWidth 6).toNat)
  | .IROL_R => some (dst.rotateLeft (src.setWidth 6).toNat)
  | .ISWAP_R => some src
  | _ => none

theorem low_mul (x y : BitVec 64) :
    (x.setWidth 128 * y.setWidth 128).extractLsb' 0 64 = x * y := by
  apply BitVec.eq_of_toNat_eq
  rw [BitVec.extractLsb'_toNat, BitVec.toNat_mul, BitVec.toNat_mul, BitVec.toNat_setWidth,
    BitVec.toNat_setWidth, Nat.shiftRight_zero,
    Nat.mod_eq_of_lt (show x.toNat < 2 ^ 128 by have := x.isLt; omega),
    Nat.mod_eq_of_lt (show y.toNat < 2 ^ 128 by have := y.isLt; omega)]
  exact Nat.mod_mod_of_dvd _ (Nat.pow_dvd_pow 2 (by omega))

theorem rotateAmount (s : BitVec 64) : s.extractLsb' 0 6 = s.setWidth 6 := by
  apply BitVec.eq_of_getLsbD_eq
  intro i hi
  simp [hi]

theorem mulUnsigned_ofBV (x y : BitVec 64) (lo : Nat) (h : lo + 64 ≤ 128) :
    Slv.slice lo 64 ((Slv.ofBV x).mulUnsigned (Slv.ofBV y))
      = .ofBV ((x.setWidth 128 * y.setWidth 128).extractLsb' lo 64) := by
  rw [Slv.mulUnsigned, Slv.lift2_ofBV, Slv.slice_ofBV _ _ _ h]

theorem mulSigned_ofBV (x y : BitVec 64) (lo : Nat) (h : lo + 64 ≤ 128) :
    Slv.slice lo 64 ((Slv.ofBV x).mulSigned (Slv.ofBV y))
      = .ofBV ((x.signExtend 128 * y.signExtend 128).extractLsb' lo 64) := by
  rw [Slv.mulSigned, Slv.lift2_ofBV, Slv.slice_ofBV _ _ _ h]

/-- **On two-valued inputs `CalculateProc` is arithmetic on words**; the other opcodes leave
`'X'`. -/
theorem computedResult_ofWords (dst src : BitVec 64) (inst : InstWord) (tag : OpTag) :
    computedResult (.ofWords dst src inst tag)
      = ((resultWord dst src inst).map Slv.ofBV).getD Slv.allX := by
  obtain ⟨imm32, modMem, modShift, modCond, s, d, op⟩ := inst
  have h5 : (d.toNat == 5) = decide (d = 5) := by
    rw [Bool.eq_iff_iff]
    simp [← BitVec.toNat_inj]
  cases op with
  | IADD_RS =>
    show (Slv.ofBV dst).add (if (Slv.ofBV d).eqNat 5
      then ((Slv.ofBV src).sll (Slv.ofBV modShift).toInteger).addSigned (Slv.ofBV imm32)
      else (Slv.ofBV src).sll (Slv.ofBV modShift).toInteger)
      = .ofBV (dst + (src <<< modShift.toNat + if d = 5 then imm32.signExtend 64 else 0))
    rw [Slv.toInteger_ofBV, Slv.sll_ofBV, Slv.eqNat_ofBV, h5]
    by_cases h : d = 5
    · rw [decide_eq_true h, if_pos rfl, if_pos h, Slv.addSigned, Slv.lift2_ofBV, Slv.add,
        Slv.lift2_ofBV]
    · have e : src <<< modShift.toNat + 0 = src <<< modShift.toNat := by simp
      rw [decide_eq_false h, if_neg Bool.false_ne_true, if_neg h, Slv.add, Slv.lift2_ofBV, e]
  | IADD_M => exact Slv.lift2_ofBV _ _ _
  | ISUB_R => exact Slv.lift2_ofBV _ _ _
  | ISUB_M => exact Slv.lift2_ofBV _ _ _
  | IMUL_R => exact (mulUnsigned_ofBV dst src 0 (by omega)).trans (by rw [low_mul]; rfl)
  | IMUL_M => exact (mulUnsigned_ofBV dst src 0 (by omega)).trans (by rw [low_mul]; rfl)
  | IMUL_RCP => exact (mulUnsigned_ofBV dst src 0 (by omega)).trans (by rw [low_mul]; rfl)
  | IMULH_R => exact mulUnsigned_ofBV dst src 64 (by omega)
  | IMULH_M => exact mulUnsigned_ofBV dst src 64 (by omega)
  | ISMULH_R => exact mulSigned_ofBV dst src 64 (by omega)
  | ISMULH_M => exact mulSigned_ofBV dst src 64 (by omega)
  | INEG_R => exact Slv.lift1_ofBV _ _
  | IXOR_R => exact Slv.xorV_ofBV _ _
  | IXOR_M => exact Slv.xorV_ofBV _ _
  | IROR_R =>
    show (Slv.ofBV dst).ror (Slv.slice 0 6 (Slv.ofBV src)).toInteger = _
    rw [Slv.slice_ofBV 0 6 src (by omega), Slv.toInteger_ofBV, Slv.ror_ofBV, rotateAmount]
    rfl
  | IROL_R =>
    show (Slv.ofBV dst).rol (Slv.slice 0 6 (Slv.ofBV src)).toInteger = _
    rw [Slv.slice_ofBV 0 6 src (by omega), Slv.toInteger_ofBV, Slv.rol_ofBV, rotateAmount]
    rfl
  | ISWAP_R => rfl
  | FSWAP_R | FADD_R | FADD_M | FSUB_R | FSUB_M | FSCAL_R | FMUL_R | FDIV_M | FSQRT_R | CBRANCH
  | CFROUND | ISTORE | NOP => rfl

end IntAlu
end Randx
