import RandxFpga.Bench.ProgramFile
import RandxFpga.Num.Binary64
import RandxFpga.Oracle.ProgramLayout

/-!
# The operands of the E group (`test_script.cpp`, `bytecode_machine.hpp`, `virtual_machine.cpp`)

`maskRegisterExponentMantissa` keeps 56 bits of a converted word and takes the rest from `eMask`.
The VM builds its masks by `getFloatMask`; `main` of the test script passes a configuration that it
never assigns.

* `validLane_masked`     the upper four bits of the mask decide, whatever the word;
* `validMask_getFloatMask`   the masks of the VM are good ones;
* `divisorsValid_iff`    when every E register and every divisor of a run is a valid divisor.
-/

namespace Randx
open HexText

/-- a positive normal pattern with a biased exponent from `0x300` to `0x3FF` -/
structure ValidLane (x : Word) : Prop where
  positive : Binary64.sign x = false
  normal : Binary64.Normal x
  low : 0x300 ≤ Binary64.exponent x
  high : Binary64.exponent x ≤ 0x3FF

structure ValidLanes (v : VecF128) : Prop where
  lo : ValidLane v.lo
  hi : ValidLane v.hi

/-- the sign cleared, the upper three bits of the exponent `011` -/
def ValidMask (e : Word) : Prop := e >>> 60 = 3

/-! ## one lane -/

theorem sign_eq (x : Word) : Binary64.sign x = decide (x.toNat / 2 ^ 63 = 1) := by
  have hlt := x.isLt
  unfold Binary64.sign
  rw [← BitVec.testBit_toNat, Nat.testBit_eq_decide_div_mod_eq, Nat.mod_eq_of_lt (by omega)]

theorem exponent_eq (x : Word) : Binary64.exponent x = x.toNat / 2 ^ 52 % 2048 := by
  unfold Binary64.exponent
  rw [BitVec.extractLsb'_toNat, Nat.shiftRight_eq_div_pow]

theorem validLane_iff (x : Word) : ValidLane x ↔ x >>> 60 = 3 := by
  have hlt := x.isLt
  have hshift : x >>> 60 = 3 ↔ x.toNat / 2 ^ 60 = 3 := by
    rw [← BitVec.toNat_inj, BitVec.toNat_ushiftRight, Nat.shiftRight_eq_div_pow]
    rfl
  rw [hshift]
  constructor
  · rintro ⟨hpos, -, hlow, hhigh⟩
    rw [sign_eq, decide_eq_false_iff_not] at hpos
    rw [exponent_eq] at hlow hhigh
    omega
  · intro h
    have hexp := exponent_eq x
    refine ⟨?_, ⟨?_, ?_⟩, ?_, ?_⟩
    · rw [sign_eq, decide_eq_false_iff_not]
      omega
    · omega
    · omega
    · omega
    · omega

/-- **The mask decides**: the converted word only reaches the low 56 bits. -/
theorem validLane_masked (x e : Word) :
    ValidLane ((x &&& dynamicMantissaMask) ||| e) ↔ ValidMask e := by
  have hmask : dynamicMantissaMask >>> 60 = 0#64 := rfl
  rw [validLane_iff, ValidMask, BitVec.ushiftRight_or_distrib, BitVec.ushiftRight_and_distrib,
    hmask, BitVec.and_zero, BitVec.zero_or]

theorem validLanes_masked (config : ProgramConfiguration) (x : VecF128) :
    ValidLanes (maskRegisterExponentMantissa config x) ↔ ∀ lane, ValidMask (config.eMask lane) := by
  rw [Fin.forall_fin_two, ← validLane_masked x.lo, ← validLane_masked x.hi]
  exact ⟨fun h => ⟨h.lo, h.hi⟩, fun h => ⟨h.1, h.2⟩⟩

theorem validMask_getFloatMask (entropy : Word) : ValidMask (getFloatMask entropy) := by
  have hlow : (entropy &&& ((1#64 <<< 22) - 1)) >>> 60 = 0#64 := by
    rw [BitVec.ushiftRight_and_distrib, show ((1#64 <<< 22) - 1) >>> 60 = 0#64 from rfl,
      BitVec.and_zero]
  have hhigh : getStaticExponent entropy >>> 60 = 3 := by
    -- the four bits of the entropy end up below the upper four of the mask
    have hall : ∀ t < 16, ((0x300#64 ||| (BitVec.ofNat 64 t <<< 4)) <<< 52) >>> 60 = 3 := by decide
    have ht : entropy >>> 60 = BitVec.ofNat 64 (entropy.toNat / 2 ^ 60) := by
      apply BitVec.eq_of_toNat_eq
      rw [BitVec.toNat_ushiftRight, Nat.shiftRight_eq_div_pow, BitVec.toNat_ofNat,
        Nat.mod_eq_of_lt (by have := entropy.isLt; omega)]
    unfold getStaticExponent
    rw [show 64 - 4 = 60 from rfl, ht]
    exact hall _ (by have := entropy.isLt; omega)
  rw [ValidMask, getFloatMask, BitVec.ushiftRight_or_distrib, hlow, hhigh, BitVec.zero_or]

/-! ## runs of the test script -/

/-- what `exe_FDIV_M` divides by -/
def divisor (fpu : Fpu) (config : ProgramConfiguration) (ibc : InstructionByteCode) (m : Machine) :
    VecF128 :=
  maskRegisterExponentMantissa config (fltMemOperand fpu ibc m)

theorem exe_FDIV_M_eq (fpu : Fpu) (config : ProgramConfiguration) (ibc : InstructionByteCode)
    (m : Machine) : exe_FDIV_M fpu config ibc m = exeFlt ibc m fpu.divPd (divisor fpu config ibc m) :=
  rfl

/-- both files load, as `program` and `scratchpad` -/
def Loads (u : Uninit) (programFile scratchpadFile : List Char) (program : Nat → Instruction)
    (scratchpad : Bytes) : Prop :=
  loadProgramFrom u.instructions 0 (getlines programFile) = .ok program ∧
    loadScratchpadFrom u.scratchpad 0 (getlines scratchpadFile) = .ok scratchpad

section
variable (fpu : Fpu) (config : ProgramConfiguration) (mxcsr : BitVec 32) (u : Uninit)
  (programFile scratchpadFile : List Char)

/-- the E registers before the execution, and the divisor of every executed `FDIV_M` -/
def DivisorsValid : Prop :=
  ∀ program scratchpad, Loads u programFile scratchpadFile program scratchpad →
    let s := initFlt fpu config mxcsr scratchpad
    (∀ i, ValidLanes (s.e i)) ∧
      ∀ p ∈ traceLoaded fpu s u.bytecode program scratchpad,
        let ibc := compileProgram .base program u.bytecode p.1.pc.toNat
        ibc.type = .FDIV_M → ValidLanes (divisor fpu s.config ibc p.1)

/-- **The operands of the E group are valid divisors exactly when the upper four bits of both
masks are `0011`**, in every run that gets past the loaders, and for every arithmetic on doubles. -/
theorem divisorsValid_iff :
    DivisorsValid fpu config mxcsr u programFile scratchpadFile ↔
      ((∃ program scratchpad, Loads u programFile scratchpadFile program scratchpad) →
        ∀ lane, ValidMask (config.eMask lane)) := by
  constructor
  · rintro h ⟨program, scratchpad, hload⟩
    exact (validLanes_masked config _).mp ((h program scratchpad hload).1 0)
  · intro h program scratchpad hload
    have hmask := h ⟨program, scratchpad, hload⟩
    exact ⟨fun i => (validLanes_masked config _).mpr hmask,
      fun p _ _ => (validLanes_masked config _).mpr hmask⟩

end

/-- masks of zero, with a program and a scratchpad of zeros -/
theorem not_divisorsValid_zero :
    ¬ ∀ (fpu : Fpu) (config : ProgramConfiguration) (mxcsr : BitVec 32) (u : Uninit)
        (programFile scratchpadFile : List Char),
      DivisorsValid fpu config mxcsr u programFile scratchpadFile := by
  intro h
  let u : Uninit := ⟨fun _ => default, fun _ => 0, fun _ => default⟩
  let program : List Word := List.replicate programMaxSize 0
  let scratchpad : List Word := List.replicate (scratchpadBytes / 8) 0
  obtain ⟨p, hp, -⟩ := loadProgramLong_hexlines (show 33 ≤ 64 by omega) program 0 u.instructions
    (by rw [List.length_replicate, Nat.zero_add])
  obtain ⟨m, hm, -⟩ := loadScratchpadFrom_hexlines scratchpad 0 u.scratchpad
    (by rw [List.length_replicate, Nat.zero_add])
  rw [loadProgramLong_64] at hp
  have hload : Loads u (hexFile program) (hexFile scratchpad) p m := by
    refine ⟨?_, ?_⟩
    · rw [getlines_hexFile, hp]
    · rw [getlines_hexFile, hm]
  let config : ProgramConfiguration := { (default : ProgramConfiguration) with eMask := fun _ => 0 }
  have hlanes := (h default config 0 u _ _ p m hload).1 0
  have hzero : 0#64 >>> 60 = 3 := (validLanes_masked config _).mp hlanes 0
  exact absurd hzero (by decide)

end Randx
