import RandxFpga.Fpga.Common
import RandxFpga.Num.Binary64

/-!
# The floating-point ALU (`float_alu.vhd`)

The arithmetic comes from an instance of `float_generic_pkg`, the parameter `FloatPkg` here;
`FSCAL_R` uses only its two conversions.

* `fscal_ofBV`     the twelve-bit `xor` of the source on words;
* `fscal_scales`   `FSCAL_R` multiplies each lane by `-2 ^ (15 - 2 * e)`, where `e` is the low four
                   bits of its biased exponent.
-/

namespace Randx
open Hdl

namespace FloatAlu

/-- `float64`, indexed from `11` down to `-52` in the package and from `63` down to `0` here -/
abbrev Float64 := Fin 64 → StdLogic

/-- what the ALU takes from `float_pkg_rnear` -/
structure FloatPkg where
  toFloat : Slv 64 → Float64
  toSlv : Float64 → Slv 64
  add : Float64 → Float64 → Float64
  subtract : Float64 → Float64 → Float64
  mul : Float64 → Float64 → Float64
  div : Float64 → Float64 → Float64
  sqrt : Float64 → Float64

/-- the conversions move each bit to its place -/
structure FloatPkg.CopiesBits (p : FloatPkg) : Prop where
  toFloat : ∀ v, p.toFloat v = v
  toSlv : ∀ x, p.toSlv x = x

structure Inputs where
  inDst : FloatReg
  inSrc : FloatReg
  inInst : ReducedInst
  inTag : OpTag

structure State where
  outDst : FloatReg
  outTag : OpTag

/-- `slv_temp(63 downto 52) := slv_temp(63 downto 52) xor "100000001111"` -/
def xorTop (v : Slv 64) : Slv 64 := fun i =>
  if i.val < 52 then v i
  else ((v.slice 52 12).xorV (.ofBV 0b100000001111#12)).get (i.val - 52)

section
variable (p : FloatPkg)

/-- `CalculateRNearProc`: `rnear_result_val_0` and `rnear_result_val_1` -/
def rnearResult (i : Inputs) : Float64 × Float64 :=
  let src0 := p.toFloat i.inSrc.val0
  let src1 := p.toFloat i.inSrc.val1
  let dst0 := p.toFloat i.inDst.val0
  let dst1 := p.toFloat i.inDst.val1
  match i.inInst.opcode with
  | .FSWAP_R => (dst1, dst0)
  | .FADD_R => (p.add dst0 src0, p.add dst1 src1)
  | .FADD_M => (p.add dst0 src0, p.add dst1 src1)
  | .FSUB_R => (p.subtract dst0 src0, p.subtract dst1 src1)
  | .FSUB_M => (p.subtract dst0 src0, p.subtract dst1 src1)
  | .FSCAL_R => (p.toFloat (xorTop (p.toSlv dst0)), p.toFloat (xorTop (p.toSlv dst1)))
  | .FMUL_R => (p.mul dst0 src0, p.mul dst1 src1)
  | .FDIV_M => (p.div dst0 src0, p.div dst1 src1)
  | .FSQRT_R => (p.sqrt dst0, p.sqrt dst1)
  | _ => (Slv.allX, Slv.allX)

/-- `RoundModeSelectProc`: the signal `computedResult` -/
def computedResult (i : Inputs) : FloatReg :=
  ⟨p.toSlv (rnearResult p i).1, p.toSlv (rnearResult p i).2⟩

/-- `StorageProc` at a rising edge -/
def rising (i : Inputs) : State := ⟨computedResult p i, i.inTag⟩

end

/-! ## `FSCAL_R` -/

/-- the mask of the documentation -/
def fscalMask : BitVec 64 := 0x80F0000000000000

theorem xorTop_ofBV (x : BitVec 64) : xorTop (.ofBV x) = .ofBV (x ^^^ fscalMask) := by
  funext i
  have hi := i.isLt
  show (if i.val < 52 then StdLogic.ofBool (x.getLsbD i)
    else ((Slv.slice 52 12 (Slv.ofBV x)).xorV (.ofBV 0b100000001111#12)).get (i.val - 52))
      = .ofBool ((x ^^^ fscalMask).getLsbD i)
  have hlow : ∀ j < 52, fscalMask.getLsbD j = false := by decide
  have hhigh : ∀ j < 12, (0b100000001111#12).getLsbD j = fscalMask.getLsbD (52 + j) := by decide
  rw [BitVec.getLsbD_xor]
  by_cases h : i.val < 52
  · rw [if_pos h, hlow i h, Bool.xor_false]
  · have h12 : i.val - 52 < 12 := by omega
    have he : 52 + (i.val - 52) = i.val := by omega
    rw [if_neg h, Slv.slice_ofBV 52 12 x (by omega), Slv.xorV_ofBV, Slv.get_ofBV _ h12,
      BitVec.getLsbD_xor, BitVec.getLsbD_extractLsb', hhigh _ h12, he]
    simp [h12]

theorem computedResult_fscal {p : FloatPkg} (hp : p.CopiesBits) (d : BitVec 64 × BitVec 64)
    {i : Inputs} (hd : i.inDst = .ofWords d) (hop : i.inInst.opcode = .FSCAL_R) :
    computedResult p i = .ofWords (d.1 ^^^ fscalMask, d.2 ^^^ fscalMask) := by
  unfold computedResult rnearResult
  rw [hop, hd]
  simp only [hp.toFloat, hp.toSlv, FloatReg.ofWords, xorTop_ofBV]

/-- a normal pattern whose exponent stays normal when its low four bits are inverted -/
def Scalable (x : BitVec 64) : Prop :=
  Binary64.Normal x ∧ 1 ≤ Binary64.exponent x ^^^ 15 ∧ Binary64.exponent x ^^^ 15 ≤ 2046

/-- `y` is `x` under the mask, and its value is `-2 ^ (15 - 2 * e)` times that of `x` -/
structure Scaled (x y : BitVec 64) : Prop where
  mask : y = x ^^^ 0x80F0000000000000#64
  fraction : Binary64.fraction y = Binary64.fraction x
  value : ∃ v, Binary64.value x = some v ∧
    Binary64.value y = some (-v * 2 ^ (15 - 2 * ((Binary64.exponent x % 16 : Nat) : ℤ)))

theorem scaled_xor {x : BitVec 64} (h : Scalable x) : Scaled x (x ^^^ fscalMask) := by
  have hsign : Binary64.sign (x ^^^ fscalMask) = !Binary64.sign x := by
    rw [Binary64.sign_xor, show Binary64.sign fscalMask = true from rfl, Bool.xor_true]
  have hexp : Binary64.exponent (x ^^^ fscalMask) = Binary64.exponent x ^^^ 15 := by
    rw [Binary64.exponent_xor, show Binary64.exponent fscalMask = 15 from rfl]
  have hfrac : Binary64.fraction (x ^^^ fscalMask) = Binary64.fraction x := by
    rw [Binary64.fraction_xor, show Binary64.fraction fscalMask = 0 from rfl, Nat.xor_zero]
  have hnormal : Binary64.Normal (x ^^^ fscalMask) := by
    rw [Binary64.Normal, hexp]
    exact h.2
  have hvalue := Binary64.value_of_normal h.1
  refine ⟨rfl, hfrac, _, hvalue, ?_⟩
  exact Binary64.value_of_rescale h.1 hnormal hsign hfrac
    (by rw [hexp, Binary64.cast_xor_low_four]) hvalue

/-- **`FSCAL_R` scales both lanes exactly, and undoes itself.** -/
theorem fscal_scales (p : FloatPkg) (hp : p.CopiesBits) (d : BitVec 64 × BitVec 64)
    (hd : Scalable d.1 ∧ Scalable d.2) (i : Inputs) (hdst : i.inDst = .ofWords d)
    (hop : i.inInst.opcode = .FSCAL_R) :
    ∃ r : BitVec 64 × BitVec 64, (rising p i).outDst = .ofWords r ∧
      Scaled d.1 r.1 ∧ Scaled d.2 r.2 ∧
      ∀ i', i'.inDst = (rising p i).outDst → i'.inInst.opcode = .FSCAL_R →
        (rising p i').outDst = .ofWords d := by
  have hout : (rising p i).outDst = .ofWords (d.1 ^^^ fscalMask, d.2 ^^^ fscalMask) :=
    computedResult_fscal hp d hdst hop
  refine ⟨_, hout, scaled_xor hd.1, scaled_xor hd.2, fun i' hdst' hop' => ?_⟩
  have hout' := computedResult_fscal hp _ (hdst'.trans hout) hop'
  rw [BitVec.xor_assoc, BitVec.xor_assoc, BitVec.xor_self, BitVec.xor_zero, BitVec.xor_zero]
    at hout'
  exact hout'

/-- a package with the conversions of the library and no arithmetic -/
def copyPkg : FloatPkg where
  toFloat := fun v => v
  toSlv := fun x => x
  add := fun _ _ => Slv.allX
  subtract := fun _ _ => Slv.allX
  mul := fun _ _ => Slv.allX
  div := fun _ _ => Slv.allX
  sqrt := fun _ => Slv.allX

/-- the lanes `1.0` and `-3.0` -/
theorem fscal_scales_one_three :
    let d : BitVec 64 × BitVec 64 := (0x3FF0000000000000#64, 0xC008000000000000#64)
    let inst : ReducedInst := { ReducedInst.default with opcode := .FSCAL_R }
    let i : Inputs := ⟨.ofWords d, .allU, inst, ⟨.F1, ⟨0, by omega⟩⟩⟩
    ∃ r : BitVec 64 × BitVec 64, (rising copyPkg i).outDst = .ofWords r ∧
      Scaled d.1 r.1 ∧ Scaled d.2 r.2 ∧
      ∀ i', i'.inDst = (rising copyPkg i).outDst → i'.inInst.opcode = .FSCAL_R →
        (rising copyPkg i').outDst = .ofWords d := by
  intro d inst i
  have hd : Scalable d.1 ∧ Scalable d.2 := by
    refine ⟨⟨⟨?_, ?_⟩, ?_, ?_⟩, ⟨⟨?_, ?_⟩, ?_, ?_⟩⟩ <;> decide
  exact fscal_scales copyPkg ⟨fun _ => rfl, fun _ => rfl⟩ d hd i rfl rfl

end FloatAlu
end Randx
