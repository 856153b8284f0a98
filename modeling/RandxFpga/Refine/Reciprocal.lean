import RandxFpga.Num.LongDivision
import RandxFpga.Refine.IntAlu

/-!
# The reciprocal operand of `IMUL_RCP` (`reciprocal.c`, `bytecode_machine.cpp`, `int_alu.vhd`)

`randomx_reciprocal` divides `2 ^ 63` by the divisor and then takes one step of a long division for
each bit of the divisor; `reciprocalState` are the variables of its loop.

* `reciprocalState_toNat`     quotient and remainder of `2 ^ (63 + k)` after `k` steps;
* `stepExact_reciprocalState`   no step overflows;
* `reciprocal_operand`        the value is that of the documentation, for the ALU and for the oracle.
-/

namespace Randx
open Hdl

/-! ## the loop -/

/-- `quotient` and `remainder` after `k` turns -/
def reciprocalState (divisor : Word) (k : Nat) : Word × Word :=
  (reciprocalStep divisor)^[k] ((1#64 <<< 63) / divisor, (1#64 <<< 63) % divisor)

theorem randomxReciprocal_eq (divisor : Word) :
    randomxReciprocal divisor = (reciprocalState divisor (countBits 64 divisor)).1 := rfl

/-- nothing in the turn from this state leaves the 64 bits or goes below zero -/
structure StepExact (divisor : Word) (qr : Word × Word) : Prop where
  borrow : qr.2.toNat ≤ divisor.toNat
  quotient : qr.1.toNat * 2 + 1 < 2 ^ 64
  remainder : qr.2.toNat * 2 < 2 ^ 64
  restore : divisor - qr.2 ≤ qr.2 → divisor.toNat ≤ qr.2.toNat * 2

theorem size_half {n : Nat} (h : n ≠ 0) : n.size = (n / 2).size + 1 := by
  have hbit := Nat.bit_bodd_div2 n
  have hsize : (Nat.bit n.bodd n.div2).size = n.div2.size + 1 := Nat.size_bit (by rwa [hbit])
  rwa [hbit, Nat.div2_val] at hsize

theorem countBits_eq_size (n : Nat) (x : Word) (h : x.toNat < 2 ^ n) :
    countBits n x = x.toNat.size := by
  induction n generalizing x with
  | zero =>
    have h0 : x.toNat = 0 := by omega
    rw [h0]
    rfl
  | succ n ih =>
    have hhalf : (x >>> 1).toNat = x.toNat / 2 := by
      rw [BitVec.toNat_ushiftRight, Nat.shiftRight_one]
    unfold countBits
    by_cases h0 : x = 0
    · rw [if_pos h0, h0]
      rfl
    · have hne : x.toNat ≠ 0 := fun e => h0 (BitVec.eq_of_toNat_eq e)
      rw [if_neg h0, ih _ (by rw [hhalf]; omega), hhalf, ← size_half hne]

theorem reciprocalStep_eq (divisor quotient remainder : Word) :
    reciprocalStep divisor (quotient, remainder)
      = if divisor - remainder ≤ remainder then (quotient * 2 + 1, remainder * 2 - divisor)
        else (quotient * 2, remainder * 2) := rfl

/-- a turn is a step of the long division on the numbers -/
theorem reciprocalStep_toNat {divisor quotient remainder : Word} (hd : divisor.toNat < 2 ^ 63)
    (hq : quotient.toNat < 2 ^ 63) (hr : remainder.toNat < divisor.toNat) :
    StepExact divisor (quotient, remainder) ∧
      Prod.map BitVec.toNat BitVec.toNat (reciprocalStep divisor (quotient, remainder))
        = LongDivision.step divisor.toNat (quotient.toNat, remainder.toNat) := by
  have hsub : (divisor - remainder).toNat = divisor.toNat - remainder.toNat :=
    BitVec.toNat_sub_of_le hr.le
  have hle : divisor - remainder ≤ remainder ↔ divisor.toNat ≤ 2 * remainder.toNat := by
    rw [BitVec.le_def, hsub]
    omega
  have hq2 : (quotient * 2).toNat = 2 * quotient.toNat := by
    rw [BitVec.toNat_mul]
    show quotient.toNat * 2 % 2 ^ 64 = _
    omega
  have hr2 : (remainder * 2).toNat = 2 * remainder.toNat := by
    rw [BitVec.toNat_mul]
    show remainder.toNat * 2 % 2 ^ 64 = _
    omega
  refine ⟨⟨hr.le, ?_, ?_, fun h => ?_⟩, ?_⟩
  · show quotient.toNat * 2 + 1 < 2 ^ 64
    omega
  · show remainder.toNat * 2 < 2 ^ 64
    omega
  · rw [Nat.mul_comm]
    exact hle.mp h
  · rw [reciprocalStep_eq, LongDivision.step]
    by_cases h : divisor - remainder ≤ remainder
    · have hq3 : (quotient * 2 + 1).toNat = 2 * quotient.toNat + 1 := by
        rw [BitVec.toNat_add, hq2]
        show (2 * quotient.toNat + 1) % 2 ^ 64 = _
        omega
      have hr3 : (remainder * 2 - divisor).toNat = 2 * remainder.toNat - divisor.toNat := by
        rw [BitVec.toNat_sub_of_le (by rw [BitVec.le_def, hr2]; exact hle.mp h), hr2]
      rw [if_pos h, if_pos (hle.mp h), Prod.map_apply, hq3, hr3]
    · rw [if_neg h, if_neg (mt hle.mpr h), Prod.map_apply, hq2, hr2]

section
variable {divisor : Word} (h0 : divisor ≠ 0) (hpow : ∀ k, divisor.toNat ≠ 2 ^ k)
  (hd : divisor.toNat < 2 ^ 63)
include h0 hpow hd

/-- **After `k` turns the loop holds quotient and remainder of `2 ^ (63 + k)`**, and no turn
before has overflowed. -/
theorem reciprocalState_spec {k : Nat} (hk : k ≤ divisor.toNat.size) :
    Prod.map BitVec.toNat BitVec.toNat (reciprocalState divisor k)
        = (2 ^ (63 + k) / divisor.toNat, 2 ^ (63 + k) % divisor.toNat) ∧
      ∀ j < k, StepExact divisor (reciprocalState divisor j) := by
  have hpos : 0 < divisor.toNat :=
    Nat.pos_of_ne_zero fun e => h0 (BitVec.eq_of_toNat_eq e)
  induction k with
  | zero =>
    refine ⟨?_, fun j hj => absurd hj (Nat.not_lt_zero j)⟩
    show Prod.map BitVec.toNat BitVec.toNat ((1#64 <<< 63) / divisor, (1#64 <<< 63) % divisor) = _
    rw [Prod.map_apply, BitVec.toNat_udiv, BitVec.toNat_umod]
    rfl
  | succ k ih =>
    obtain ⟨hstate, hexact⟩ := ih (by omega)
    have hlast : reciprocalState divisor (k + 1)
        = reciprocalStep divisor (reciprocalState divisor k) := Function.iterate_succ_apply' _ _ _
    obtain ⟨hq, hr⟩ := Prod.mk.inj hstate
    have hlt : 2 ^ (63 + k) / divisor.toNat < 2 ^ 63 :=
      (LongDivision.two_pow_div_lt_iff hpos hpow _ _).mpr (by omega)
    obtain ⟨hturn, hstep⟩ := reciprocalStep_toNat hd (hq.trans_lt hlt)
      (hr.trans_lt (Nat.mod_lt _ hpos))
    refine ⟨?_, fun j hj => ?_⟩
    · rw [hlast]
      refine hstep.trans ?_
      rw [hq, hr, LongDivision.step_divMod hpos, ← Nat.add_assoc, pow_succ, Nat.mul_comm 2]
    · by_cases hjk : j = k
      · rw [hjk]
        exact hturn
      · exact hexact j (by omega)

theorem randomxReciprocal_toNat :
    (randomxReciprocal divisor).toNat = 2 ^ (63 + divisor.toNat.size) / divisor.toNat := by
  rw [randomxReciprocal_eq, countBits_eq_size 64 divisor divisor.isLt]
  exact (Prod.mk.inj (reciprocalState_spec h0 hpow hd le_rfl).1).1

end

/-! ## the operand -/

theorem isZeroOrPowerOf2_eq_false {x : Word} (h0 : x ≠ 0) (hpow : ∀ k, x.toNat ≠ 2 ^ k) :
    isZeroOrPowerOf2 x = false := by
  have hne : x.toNat ≠ 0 := fun e => h0 (BitVec.eq_of_toNat_eq e)
  have hsub : (x - 1).toNat = x.toNat - 1 :=
    BitVec.toNat_sub_of_le (by rw [BitVec.le_def]; exact Nat.one_le_iff_ne_zero.mpr hne)
  rw [isZeroOrPowerOf2, beq_eq_false_iff_ne]
  intro h
  have hand : x.toNat &&& (x.toNat - 1) = 0 := by
    rw [← hsub, ← BitVec.toNat_and, h]
    rfl
  obtain ⟨k, hk⟩ := (Nat.and_sub_one_eq_zero_iff_isPowerOfTwo hne).mp hand
  exact hpow k hk

/-- the ALU multiplies by the word on `inSrc`, whatever else is in the instruction -/
theorem rising_imulRcp (dst src : Word) (inst : ReducedInst) (tag : OpTag)
    (hop : inst.opcode = .IMUL_RCP) :
    (IntAlu.rising ⟨.ofBV dst, .ofBV src, inst, tag⟩).outDst = .ofBV (dst * src) := by
  show IntAlu.computedResult _ = _
  unfold IntAlu.computedResult
  rw [hop]
  exact (IntAlu.mulUnsigned_ofBV dst src 0 (by omega)).trans (by rw [IntAlu.low_mul])

/-- the oracle compiles it to a multiplication by the reciprocal -/
theorem execute_imulRcp (c : RandomXConfiguration) (fpu : Fpu) (config : ProgramConfiguration)
    (instr : Instruction) (i : Nat) (ibc : InstructionByteCode) (usage : RegisterUsage)
    (m : Machine) (hop : c.typeOf instr.opcode = .IMUL_RCP)
    (hrcp : isZeroOrPowerOf2 (instr.imm32.setWidth 64) = false) :
    ∃ m', executeInstruction fpu config (compileInstruction c instr i ibc usage).1 m = some m' ∧
      m'.nreg.r instr.dstReg
        = m.nreg.r instr.dstReg * randomxReciprocal (instr.imm32.setWidth 64) := by
  unfold compileInstruction
  rw [hop]
  simp only [gen, hrcp, Bool.not_false, if_true]
  exact ⟨_, rfl, setR_self m instr.dstReg _⟩

theorem mul_eq_ofNat (x y : Word) : x * y = BitVec.ofNat 64 (x.toNat * y.toNat) := by
  apply BitVec.eq_of_toNat_eq
  rw [BitVec.toNat_mul, BitVec.toNat_ofNat]

/-- **The reciprocal is `2 ^ x / imm32` for the largest `x` that leaves it below `2 ^ 64`**; its
loop does not overflow, and the ALU and the oracle both multiply by it modulo `2 ^ 64`. -/
theorem reciprocal_operand (imm32 : BitVec 32) (h0 : imm32 ≠ 0) (hpow : ∀ k, imm32.toNat ≠ 2 ^ k) :
    (∀ k < countBits 64 (imm32.setWidth 64),
      StepExact (imm32.setWidth 64) (reciprocalState (imm32.setWidth 64) k)) ∧
    ∃ x, IsGreatest {x | 2 ^ x / imm32.toNat < 2 ^ 64} x ∧
      (randomxReciprocal (imm32.setWidth 64)).toNat = 2 ^ x / imm32.toNat ∧
      (∀ (dst : Word) (inst : ReducedInst) (tag : OpTag), inst.opcode = .IMUL_RCP →
        (IntAlu.rising ⟨.ofBV dst, .ofBV (randomxReciprocal (imm32.setWidth 64)), inst, tag⟩).outDst
          = .ofBV (BitVec.ofNat 64 (dst.toNat * (2 ^ x / imm32.toNat)))) ∧
      ∀ (c : RandomXConfiguration) (fpu : Fpu) (config : ProgramConfiguration)
        (instr : Instruction) (i : Nat) (ibc : InstructionByteCode) (usage : RegisterUsage)
        (m : Machine), instr.imm32 = imm32 → c.typeOf instr.opcode = .IMUL_RCP →
        ∃ m', executeInstruction fpu config (compileInstruction c instr i ibc usage).1 m = some m' ∧
          m'.nreg.r instr.dstReg
            = BitVec.ofNat 64 ((m.nreg.r instr.dstReg).toNat * (2 ^ x / imm32.toNat)) := by
  have hnat : (imm32.setWidth 64).toNat = imm32.toNat := BitVec.toNat_setWidth_of_le (by omega)
  have hlt := imm32.isLt
  have hpos : 0 < imm32.toNat := Nat.pos_of_ne_zero fun e => h0 (BitVec.eq_of_toNat_eq e)
  have hne : imm32.setWidth 64 ≠ 0#64 := by
    intro e
    rw [e] at hnat
    exact absurd hnat hpos.ne
  have hpow' : ∀ k, (imm32.setWidth 64).toNat ≠ 2 ^ k := by rwa [hnat]
  have hd : (imm32.setWidth 64).toNat < 2 ^ 63 := by omega
  have hvalue := randomxReciprocal_toNat hne hpow' hd
  rw [hnat] at hvalue
  refine ⟨?_, 63 + imm32.toNat.size, ?_, hvalue, ?_, ?_⟩
  · rw [countBits_eq_size 64 _ (BitVec.isLt _)]
    exact (reciprocalState_spec hne hpow' hd le_rfl).2
  · exact LongDivision.isGreatest_two_pow_div hpos hpow 63
  · intro dst inst tag hop
    rw [rising_imulRcp dst _ inst tag hop, mul_eq_ofNat, hvalue]
  · rintro c fpu config instr i ibc usage m rfl hop
    obtain ⟨m', hm', hr⟩ := execute_imulRcp c fpu config instr i ibc usage m hop
      (isZeroOrPowerOf2_eq_false hne hpow')
    refine ⟨m', hm', ?_⟩
    rw [hr, mul_eq_ofNat, hvalue]

theorem reciprocal_operand_three :
    ∃ x, IsGreatest {x | 2 ^ x / 3 < 2 ^ 64} x ∧
      (randomxReciprocal ((3#32).setWidth 64)).toNat = 2 ^ x / 3 := by
  have hpow : ∀ k, (3#32).toNat ≠ 2 ^ k := by
    intro k
    cases k with
    | zero => exact (Nat.succ_lt_succ Nat.two_pos).ne'
    | succ k =>
      show 3 ≠ 2 ^ (k + 1)
      omega
  obtain ⟨-, x, hx, hvalue, -⟩ := reciprocal_operand 3 (by decide) hpow
  exact ⟨x, hx, hvalue⟩

end Randx
