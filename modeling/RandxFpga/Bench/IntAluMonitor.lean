import RandxFpga.Fpga.IntAlu

/-!
# The reference model in the test bench of the integer ALU (`int_alu_tb.vhd`)

`expected` is the value that `MONITOR_PROC` compares `outDst` with.  The shift operators of VHDL
bind looser than `+`.

* `expected_eq`       apart from `IADD_RS` the monitor and the ALU agree, on rotations by eleven
                      and by six bits as well;
* `monitorAgrees_iff`  when they agree on `IADD_RS`.
-/

namespace Randx
open Hdl

namespace IntAluMonitor
open IntAlu (Inputs computedResult)

/-- the value for each of the 17 integer operations; any other is a failed test -/
def expected (i : Inputs) : Option (Slv 64) :=
  match i.inInst.opcode with
  | .IADD_RS =>
    -- `signed_indst + signed_insrc sll rotate_int`
    let expectSigned := (i.inDst.add i.inSrc).sll i.inInst.modShift.toInteger
    some (if i.inInst.dst.eqNat 5 then expectSigned.addSigned i.inInst.imm32 else expectSigned)
  | .IADD_M => some (i.inDst.add i.inSrc)
  | .ISUB_R => some (i.inDst.sub i.inSrc)
  | .ISUB_M => some (i.inDst.sub i.inSrc)
  | .IMUL_R => some ((i.inDst.mulUnsigned i.inSrc).slice 0 64)
  | .IMUL_M => some ((i.inDst.mulUnsigned i.inSrc).slice 0 64)
  | .IMULH_R => some ((i.inDst.mulUnsigned i.inSrc).slice 64 64)
  | .IMULH_M => some ((i.inDst.mulUnsigned i.inSrc).slice 64 64)
  | .ISMULH_R => some ((i.inDst.mulSigned i.inSrc).slice 64 64)
  | .ISMULH_M => some ((i.inDst.mulSigned i.inSrc).slice 64 64)
  | .IMUL_RCP => some ((i.inDst.mulUnsigned i.inSrc).slice 0 64)
  | .INEG_R => some i.inDst.neg
  | .IXOR_R => some (i.inDst.xorV i.inSrc)
  | .IXOR_M => some (i.inDst.xorV i.inSrc)
  | .IROR_R => some (i.inDst.ror (i.inSrc.slice 0 11).toInteger)
  | .IROL_R => some (i.inDst.rol (i.inSrc.slice 0 11).toInteger)
  | .ISWAP_R => some i.inSrc
  | _ => none

/-- operands of 64 bits, any instruction -/
def operands (dst src : BitVec 64) (inst : ReducedInst) (tag : OpTag) : Inputs :=
  ⟨.ofBV dst, .ofBV src, inst, tag⟩

/-- the result of `CalculateProc` is the value that the monitor expects -/
def MonitorAgrees (i : Inputs) : Prop := ∀ v, expected i = some v → computedResult i = v

/-! ## all operations but `IADD_RS` -/

/-- a rotation takes its amount modulo the length -/
theorem toInteger_slice_mod (s : BitVec 64) :
    ((Slv.ofBV s).slice 0 11).toInteger % 64 = ((Slv.ofBV s).slice 0 6).toInteger := by
  rw [Slv.slice_ofBV 0 11 s (by omega), Slv.slice_ofBV 0 6 s (by omega), Slv.toInteger_ofBV,
    Slv.toInteger_ofBV, BitVec.extractLsb'_toNat, BitVec.extractLsb'_toNat]
  omega

theorem expected_eq (dst src : BitVec 64) (inst : ReducedInst) (tag : OpTag)
    (h : inst.opcode ≠ .IADD_RS) {v : Slv 64}
    (hv : expected (operands dst src inst tag) = some v) :
    computedResult (operands dst src inst tag) = v := by
  obtain ⟨imm32, modMem, modShift, modCond, s, d, op⟩ := inst
  cases op with
  | IADD_RS => exact absurd rfl h
  | IROR_R =>
    have hv' := Option.some.inj hv
    rw [← hv']
    show (Slv.ofBV dst).ror ((Slv.ofBV src).slice 0 6).toInteger
      = (Slv.ofBV dst).ror ((Slv.ofBV src).slice 0 11).toInteger
    rw [← toInteger_slice_mod src]
    exact Slv.ror_mod _ _
  | IROL_R =>
    have hv' := Option.some.inj hv
    rw [← hv']
    show (Slv.ofBV dst).rol ((Slv.ofBV src).slice 0 6).toInteger
      = (Slv.ofBV dst).rol ((Slv.ofBV src).slice 0 11).toInteger
    rw [← toInteger_slice_mod src]
    exact Slv.rol_mod _ _
  | IADD_M | ISUB_R | ISUB_M | IMUL_R | IMUL_M | IMULH_R | IMULH_M | ISMULH_R | ISMULH_M
  | IMUL_RCP | INEG_R | IXOR_R | IXOR_M | ISWAP_R => exact Option.some.inj hv
  | FSWAP_R | FADD_R | FADD_M | FSUB_R | FSUB_M | FSCAL_R | FMUL_R | FDIV_M | FSQRT_R | CBRANCH
  | CFROUND | ISTORE | NOP => exact absurd hv (by simp [expected, operands])

/-! ## `IADD_RS` -/

/-- shifting the sum instead of the source shifts the destination too -/
theorem shift_sum_eq_iff (dst src w : BitVec 64) (k : Nat) :
    dst + (src <<< k + w) = (dst + src) <<< k + w ↔ k = 0 ∨ dst = 0 := by
  rw [BitVec.shiftLeft_add_distrib, ← shiftLeft_eq_self_iff dst k, ← BitVec.add_assoc]
  constructor
  · intro h
    exact ((BitVec.add_left_inj _).mp ((BitVec.add_left_inj _).mp h)).symm
  · intro h
    rw [h]

/-- the two sums, with the immediate as a nine-valued vector or not at all -/
theorem iaddRs_eq_iff (dst src : BitVec 64) (imm32 : Slv 32) (k : Nat) (b : Bool) :
    (Slv.ofBV dst).add (if b then ((Slv.ofBV src).sll k).addSigned imm32 else (Slv.ofBV src).sll k)
        = (if b then (((Slv.ofBV dst).add (Slv.ofBV src)).sll k).addSigned imm32
          else ((Slv.ofBV dst).add (Slv.ofBV src)).sll k)
      ↔ k = 0 ∨ dst = 0 ∨ (b = true ∧ imm32.to01 = none) := by
  have hsum : (Slv.ofBV dst).add (Slv.ofBV src) = .ofBV (dst + src) := Slv.lift2_ofBV _ _ _
  rw [hsum, Slv.sll_ofBV, Slv.sll_ofBV]
  cases b with
  | false =>
    have h0 := shift_sum_eq_iff dst src 0#64 k
    rw [BitVec.add_zero, BitVec.add_zero] at h0
    show (Slv.ofBV dst).add (.ofBV (src <<< k)) = .ofBV ((dst + src) <<< k) ↔ _
    rw [Slv.add, Slv.lift2_ofBV, Slv.ofBV_inj]
    simpa using h0
  | true =>
    show (Slv.ofBV dst).add ((Slv.ofBV (src <<< k)).addSigned imm32)
      = (Slv.ofBV ((dst + src) <<< k)).addSigned imm32 ↔ _
    cases himm : imm32.to01 with
    | none =>
      -- both sums are all `'X'`
      rw [Slv.addSigned, Slv.lift2_eq_allX _ _ himm, Slv.lift2_eq_allX _ _ himm, Slv.add,
        Slv.lift2_eq_allX _ _ (Slv.to01_allX (by omega))]
      simp
    | some w =>
      have hadd : ∀ x : BitVec 64,
          (Slv.ofBV x).addSigned imm32 = .ofBV (x + w.signExtend 64) := by
        intro x
        rw [Slv.addSigned, Slv.lift2, Slv.to01_ofBV, himm]
      rw [hadd, hadd, Slv.add, Slv.lift2_ofBV, Slv.ofBV_inj, shift_sum_eq_iff]
      simp

/-- **The monitor and the ALU agree on every instruction except an `IADD_RS` that shifts**, where
they agree just for a zero destination or an immediate that makes both all `'X'`. -/
theorem monitorAgrees_iff (dst src : BitVec 64) (inst : ReducedInst) (tag : OpTag) :
    MonitorAgrees (operands dst src inst tag) ↔
      (inst.opcode = .IADD_RS → inst.modShift.toInteger = 0 ∨ dst = 0 ∨
        (inst.dst.eqNat 5 = true ∧ inst.imm32.to01 = none)) := by
  by_cases hop : inst.opcode = .IADD_RS
  · obtain ⟨imm32, modMem, modShift, modCond, s, d, op⟩ := inst
    obtain rfl : op = .IADD_RS := hop
    rw [← iaddRs_eq_iff dst src]
    exact ⟨fun h _ => h _ rfl, fun h v hv => (h rfl).trans (Option.some.inj hv)⟩
  · exact iff_of_true (fun v hv => expected_eq dst src inst tag hop hv) (fun h => absurd h hop)

/-- `IADD_RS` of `1` and `0`, shifted by one place -/
theorem not_monitorAgrees_iadd_rs :
    ¬ ∀ (dst src : BitVec 64) (inst : ReducedInst) (tag : OpTag),
      MonitorAgrees (operands dst src inst tag) := by
  intro h
  let inst : ReducedInst :=
    ⟨.ofBV 0, .ofBV 0, .ofBV 1#2, .ofBV 0, .ofBV 0, .ofBV 0, .IADD_RS⟩
  have hsum := h 1 0 inst ⟨.F0, ⟨0, by omega⟩⟩ _ rfl
  have hdst : inst.dst.eqNat 5 = false := by rw [Slv.eqNat_ofBV]; rfl
  have hshift : inst.modShift.toInteger = 1 := by rw [Slv.toInteger_ofBV]; rfl
  have hone := (iaddRs_eq_iff 1 0 inst.imm32 1 false).mp (by rw [← hdst, ← hshift]; exact hsum)
  simp at hone

end IntAluMonitor
end Randx
