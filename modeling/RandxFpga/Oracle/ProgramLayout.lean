import RandxFpga.Oracle.Exec

/-!
# The layout of a `Program` (`program.hpp`, `virtual_machine.cpp`, `randomx_vm.cl`)

`generateProgram` writes `128 + 8 * 256` bytes over a `Program` object, which holds its instructions
first and the configuration words behind them.  The OpenCL kernel `init_vm` reads the same bytes
with the configuration words first.

* `programLayout_iff`   the object gives what the kernel reads exactly when the bytes repeat with
                        period 128.
-/

namespace Randx

/-! ## the object -/

/-- the members in their order: `programBuffer`, then `entropyBuffer` -/
def programBufferOffset : Nat := 0

def entropyBufferOffset : Nat := programBufferOffset + 8 * programMaxSize

/-- the bytes of the 16 configuration words -/
def entropyBytes : Nat := 128

/-- the instruction encoded in the 8 bytes at an address -/
def Instruction.decode (b : Bytes) (a : Nat) : Instruction :=
  ⟨b a, b (a + 1), b (a + 2), b (a + 3), load32 b (a + 4)⟩

/-- `operator()` of an object with these bytes -/
def Program.instr (b : Bytes) (pc : Nat) : Instruction := .decode b (programBufferOffset + 8 * pc)

def Program.getEntropy (b : Bytes) (i : Nat) : Word := load64 b (entropyBufferOffset + 8 * i)

/-! ## the configuration on the CPU -/

/-- the same text in `virtual_machine.cpp` and `randomx_vm.cl` -/
def getSmallPositiveFloatBits (entropy : Word) : Word :=
  let mantissa := entropy &&& ((1#64 <<< 52) - 1)
  ((((entropy >>> 59) + 1023) &&& ((1#64 <<< 11) - 1)) <<< 52) ||| mantissa

def getStaticExponent (entropy : Word) : Word := (0x300#64 ||| ((entropy >>> (64 - 4)) <<< 4)) <<< 52

def getFloatMask (entropy : Word) : Word :=
  (entropy &&& ((1#64 <<< 22) - 1)) ||| getStaticExponent entropy

def cacheLineAlignMask : Word := (2147483648#64 - 1) &&& ~~~(64#64 - 1)

def datasetExtraItems : Word := 33554368 / 64

/-- what `randomx_vm::initialize` assigns -/
structure Initialized where
  a : Fin 4 → VecF128
  ma : BitVec 32
  mx : BitVec 32
  config : ProgramConfiguration
  datasetOffset : Word

/-- one of two neighbouring registers by the lowest bit -/
def readReg (base : Fin 8) (addressRegisters : Word) : Fin 8 :=
  base + Fin.ofNat 8 (addressRegisters &&& 1).toNat

/-- `randomx_vm::initialize` -/
def vmInitialize (getEntropy : Nat → Word) : Initialized :=
  let addressRegisters := getEntropy 12
  { a := fun i =>
      ⟨getSmallPositiveFloatBits (getEntropy (2 * i)),
        getSmallPositiveFloatBits (getEntropy (2 * i + 1))⟩
    ma := (getEntropy 8 &&& cacheLineAlignMask).setWidth 32
    mx := (getEntropy 10).setWidth 32
    config :=
      { eMask := fun i => getFloatMask (getEntropy (14 + i))
        readReg0 := readReg 0 addressRegisters
        readReg1 := readReg 2 (addressRegisters >>> 1)
        readReg2 := readReg 4 (addressRegisters >>> 1 >>> 1)
        readReg3 := readReg 6 (addressRegisters >>> 1 >>> 1 >>> 1) }
    datasetOffset := (getEntropy 13 % (datasetExtraItems + 1)) * 64 }

/-! ## the same in OpenCL -/

namespace Cl

/-- the words that `init_vm` stores into a VM state; register numbers are byte offsets, one a
byte -/
structure VmState where
  A : Fin 8 → Word
  ma : BitVec 32
  mx : BitVec 32
  addressRegisters : BitVec 32
  datasetOffset : BitVec 32
  eMask : Fin 2 → Word

def initVm (entropy : Nat → Word) : VmState :=
  let x := (entropy 12).setWidth 32
  { A := fun sub => getSmallPositiveFloatBits (entropy sub)
    ma := (entropy 8).setWidth 32 &&& cacheLineAlignMask.setWidth 32
    mx := (entropy 10).setWidth 32 &&& cacheLineAlignMask.setWidth 32
    addressRegisters :=
      ((x &&& 1#32) ||| ((if x &&& 2 ≠ 0 then 3#32 else 2) <<< 8)
        ||| ((if x &&& 4 ≠ 0 then 5#32 else 4) <<< 16)
        ||| ((if x &&& 8 ≠ 0 then 7#32 else 6) <<< 24)) * 8
    datasetOffset := ((entropy 13 &&& datasetExtraItems) * 64).setWidth 32
    eMask := fun i => getFloatMask (entropy (14 + i)) }

/-- the fields that the kernel takes out of an instruction -/
structure Inst where
  opcode : BitVec 32
  dst : BitVec 32
  src : BitVec 32
  mod : BitVec 32
  imm32 : BitVec 32

/-- `src_program[i]`, with the flags in the upper bits of `dst` cleared -/
def inst (b : Bytes) (i : Nat) : Inst :=
  let x := load32 b (entropyBytes + 8 * i) &&& ~~~(0xF8#32 <<< 8)
  ⟨x &&& 0xff, (x >>> 8) &&& 7, (x >>> 16) &&& 7, x >>> 24, load32 b (entropyBytes + 8 * i + 4)⟩

end Cl

/-! ## what both sides have to agree on -/

/-- the CPU keeps `mx` whole and masks it where it uses it -/
structure SameConfiguration (v : Initialized) (s : Cl.VmState) : Prop where
  a : ∀ i : Fin 4, v.a i = ⟨s.A (Fin.ofNat 8 (2 * i)), s.A (Fin.ofNat 8 (2 * i + 1))⟩
  ma : v.ma = s.ma
  mx : v.mx &&& cacheLineAlignMask.setWidth 32 = s.mx
  readReg0 : s.addressRegisters.extractLsb' 0 8 = BitVec.ofNat 8 (8 * v.config.readReg0)
  readReg1 : s.addressRegisters.extractLsb' 8 8 = BitVec.ofNat 8 (8 * v.config.readReg1)
  readReg2 : s.addressRegisters.extractLsb' 16 8 = BitVec.ofNat 8 (8 * v.config.readReg2)
  readReg3 : s.addressRegisters.extractLsb' 24 8 = BitVec.ofNat 8 (8 * v.config.readReg3)
  datasetOffset : v.datasetOffset = s.datasetOffset.setWidth 64
  eMask : ∀ i, v.config.eMask i = s.eMask i

structure SameInstruction (instr : Instruction) (x : Cl.Inst) : Prop where
  opcode : x.opcode = instr.opcode.setWidth 32
  dst : x.dst.toNat = instr.dstReg
  src : x.src.toNat = instr.srcReg
  mod : x.mod = instr.mod.setWidth 32
  imm32 : x.imm32 = instr.imm32

/-- the object over the bytes `b` has the layout of its fillers, and the CPU decodes from it what
the kernel decodes from the bytes -/
structure ProgramLayout (b : Bytes) : Prop where
  getEntropy : ∀ k < 16, Program.getEntropy b k = load64 b (8 * k)
  instr : ∀ i < programMaxSize, Program.instr b i = .decode b (entropyBytes + 8 * i)
  configuration : SameConfiguration (vmInitialize (Program.getEntropy b))
    (Cl.initVm fun k => load64 b (8 * k))
  program : ∀ i < programMaxSize, SameInstruction (Program.instr b i) (Cl.inst b i)

/-! ## the two decoders -/

theorem and_one {n : Nat} (x : BitVec n) : x &&& 1#n = if x.getLsbD 0 then 1#n else 0 := by
  rw [BitVec.and_one_eq_setWidth_ofBool_getLsbD]
  cases x.getLsbD 0
  · simp
  · by_cases h : n = 0
    · subst h
      exact Subsingleton.elim _ _
    · apply BitVec.eq_of_toNat_eq
      simp

theorem readReg_eq (base : Fin 8) (w : Word) :
    readReg base w = base + if w.getLsbD 0 then 1 else 0 := by
  unfold readReg
  rw [show (1 : Word) = 1#64 from rfl, and_one]
  cases w.getLsbD 0 <;> rfl

/-- the four register numbers that the kernel packs, by the bits that select them -/
def Cl.pack (b0 b1 b2 b3 : Bool) : BitVec 32 :=
  ((if b0 then 1#32 else 0) ||| ((if b1 then 3#32 else 2) <<< 8)
    ||| ((if b2 then 5#32 else 4) <<< 16) ||| ((if b3 then 7#32 else 6) <<< 24)) * 8

theorem addressRegisters_eq (e : Nat → Word) :
    (Cl.initVm e).addressRegisters = Cl.pack ((e 12).getLsbD 0) ((e 12).getLsbD 1)
      ((e 12).getLsbD 2) ((e 12).getLsbD 3) := by
  -- a bit of the lower half
  have hbit : ∀ i < 4, (((e 12).setWidth 32 &&& BitVec.twoPow 32 i ≠ 0) ↔ (e 12).getLsbD i = true) := by
    intro i hi
    rw [BitVec.and_twoPow, BitVec.getLsbD_setWidth, decide_eq_true (show i < 32 by omega),
      Bool.true_and]
    have hne : BitVec.twoPow 32 i ≠ 0 := by
      intro h
      have := congrArg (fun v => v.getLsbD i) h
      simp [BitVec.getLsbD_twoPow] at this
      omega
    cases (e 12).getLsbD i with
    | false => simp
    | true => exact ⟨fun _ => rfl, fun _ => hne⟩
  have h1 : (e 12).setWidth 32 &&& 1#32 = if (e 12).getLsbD 0 then 1#32 else 0 := by
    rw [and_one, BitVec.getLsbD_setWidth]
    rfl
  unfold Cl.initVm Cl.pack
  dsimp only
  rw [h1, show (2 : BitVec 32) = BitVec.twoPow 32 1 from rfl,
    show (4 : BitVec 32) = BitVec.twoPow 32 2 from rfl,
    show (8 : BitVec 32) = BitVec.twoPow 32 3 from rfl]
  simp only [hbit 1 (by omega), hbit 2 (by omega), hbit 3 (by omega)]

theorem pack_bytes (b0 b1 b2 b3 : Bool) :
    (Cl.pack b0 b1 b2 b3).extractLsb' 0 8 = BitVec.ofNat 8 (8 * (0 + if b0 then 1 else 0 : Fin 8)) ∧
      (Cl.pack b0 b1 b2 b3).extractLsb' 8 8
        = BitVec.ofNat 8 (8 * (2 + if b1 then 1 else 0 : Fin 8)) ∧
      (Cl.pack b0 b1 b2 b3).extractLsb' 16 8
        = BitVec.ofNat 8 (8 * (4 + if b2 then 1 else 0 : Fin 8)) ∧
      (Cl.pack b0 b1 b2 b3).extractLsb' 24 8
        = BitVec.ofNat 8 (8 * (6 + if b3 then 1 else 0 : Fin 8)) := by
  revert b0 b1 b2 b3
  decide

theorem datasetOffset_eq (w : Word) :
    (w % (datasetExtraItems + 1)) * 64
      = (((w &&& datasetExtraItems) * 64).setWidth 32).setWidth 64 := by
  have hmod : w % (datasetExtraItems + 1) = w &&& datasetExtraItems := by
    apply BitVec.eq_of_toNat_eq
    rw [BitVec.toNat_umod, BitVec.toNat_and]
    exact (Nat.and_two_pow_sub_one_eq_mod w.toNat 19).symm
  have hlt : (w &&& datasetExtraItems).toNat < 2 ^ 19 := by
    rw [BitVec.toNat_and]
    exact lt_of_le_of_lt Nat.and_le_right (by decide)
  rw [hmod]
  apply BitVec.eq_of_toNat_eq
  rw [BitVec.toNat_setWidth, BitVec.toNat_setWidth, BitVec.toNat_mul]
  show _ * 64 % 2 ^ 64 = _ * 64 % 2 ^ 64 % 2 ^ 32 % 2 ^ 64
  omega

theorem sameConfiguration {e e' : Nat → Word} (h : ∀ k < 16, e k = e' k) :
    SameConfiguration (vmInitialize e) (Cl.initVm e') where
  a := fun i => by
    have hi := i.isLt
    have h0 : (Fin.ofNat 8 (2 * i.val)).val = 2 * i.val := Nat.mod_eq_of_lt (by omega)
    have h1 : (Fin.ofNat 8 (2 * i.val + 1)).val = 2 * i.val + 1 := Nat.mod_eq_of_lt (by omega)
    show VecF128.mk _ _ = ⟨getSmallPositiveFloatBits (e' _), getSmallPositiveFloatBits (e' _)⟩
    rw [h0, h1, h _ (by omega), h _ (by omega)]
  ma := by
    show ((e 8 &&& cacheLineAlignMask).setWidth 32) = _
    rw [h 8 (by omega), BitVec.setWidth_and]
    rfl
  mx := by
    show (e 10).setWidth 32 &&& _ = _
    rw [h 10 (by omega)]
    rfl
  readReg0 := by
    rw [addressRegisters_eq, (pack_bytes _ _ _ _).1, ← h 12 (by omega), ← readReg_eq]
    rfl
  readReg1 := by
    rw [addressRegisters_eq, (pack_bytes _ _ _ _).2.1, ← h 12 (by omega),
      show (e 12).getLsbD 1 = ((e 12) >>> 1).getLsbD 0 by rw [BitVec.getLsbD_ushiftRight],
      ← readReg_eq]
    rfl
  readReg2 := by
    rw [addressRegisters_eq, (pack_bytes _ _ _ _).2.2.1, ← h 12 (by omega),
      show (e 12).getLsbD 2 = ((e 12) >>> 1 >>> 1).getLsbD 0 by
        rw [BitVec.getLsbD_ushiftRight, BitVec.getLsbD_ushiftRight], ← readReg_eq]
    rfl
  readReg3 := by
    rw [addressRegisters_eq, (pack_bytes _ _ _ _).2.2.2, ← h 12 (by omega),
      show (e 12).getLsbD 3 = ((e 12) >>> 1 >>> 1 >>> 1).getLsbD 0 by
        rw [BitVec.getLsbD_ushiftRight, BitVec.getLsbD_ushiftRight, BitVec.getLsbD_ushiftRight],
      ← readReg_eq]
    rfl
  datasetOffset := by
    show (e 13 % (datasetExtraItems + 1)) * 64
      = (((e' 13 &&& datasetExtraItems) * 64).setWidth 32).setWidth 64
    rw [h 13 (by omega), datasetOffset_eq]
  eMask := fun i => by
    have hi := i.isLt
    show getFloatMask (e _) = getFloatMask (e' _)
    rw [h _ (by omega)]

theorem inst_bit (b : Bytes) (a : Nat) {k j : Nat} (hk : k < 4) (hj : j < 8)
    (hkeep : k ≠ 1 ∨ j < 3) :
    (load32 b a &&& ~~~(0xF8#32 <<< 8)).getLsbD (8 * k + j) = (b (a + k)).getLsbD j := by
  have hmask : ∀ i : Fin 32, i.val < 11 ∨ 16 ≤ i.val →
      (~~~(0xF8#32 <<< 8)).getLsbD i = true := by decide
  rw [BitVec.getLsbD_and, getLsbD_load32 b a hk hj,
    hmask ⟨8 * k + j, by omega⟩ (by dsimp only; omega), Bool.and_true]

theorem inst_field (b : Bytes) (a : Nat) {k w : Nat} (hk : k < 4) (hw : w ≤ 8)
    (hkeep : k ≠ 1 ∨ w ≤ 3) :
    ((load32 b a &&& ~~~(0xF8#32 <<< 8)) >>> (8 * k) &&& BitVec.ofNat 32 (2 ^ w - 1)).toNat
      = (b (a + k)).toNat % 2 ^ w := by
  have hpow : 2 ^ w ≤ 2 ^ 8 := Nat.pow_le_pow_right (by omega) hw
  have hmask : (BitVec.ofNat 32 (2 ^ w - 1)).toNat = 2 ^ w - 1 := by
    rw [BitVec.toNat_ofNat]
    exact Nat.mod_eq_of_lt (by omega)
  rw [BitVec.toNat_and, hmask, Nat.and_two_pow_sub_one_eq_mod]
  apply Nat.eq_of_testBit_eq
  intro j
  rw [Nat.testBit_mod_two_pow, Nat.testBit_mod_two_pow]
  by_cases hj : j < w
  · have h := inst_bit b a hk (show j < 8 by omega) (by omega)
    rw [decide_eq_true hj, Bool.true_and, Bool.true_and, BitVec.testBit_toNat, BitVec.testBit_toNat,
      BitVec.getLsbD_ushiftRight, h]
  · rw [decide_eq_false hj, Bool.false_and, Bool.false_and]

theorem sameInstruction (b : Bytes) (i : Nat) :
    SameInstruction (.decode b (entropyBytes + 8 * i)) (Cl.inst b i) where
  opcode := by
    apply BitVec.eq_of_toNat_eq
    rw [BitVec.toNat_setWidth_of_le (by omega)]
    have h := inst_field b (entropyBytes + 8 * i) (k := 0) (w := 8) (by omega) (by omega) (by omega)
    rw [Nat.mod_eq_of_lt (BitVec.isLt _)] at h
    exact h
  dst := inst_field b (entropyBytes + 8 * i) (k := 1) (w := 3) (by omega) (by omega) (by omega)
  src := inst_field b (entropyBytes + 8 * i) (k := 2) (w := 3) (by omega) (by omega) (by omega)
  mod := by
    apply BitVec.eq_of_toNat_eq
    rw [BitVec.toNat_setWidth_of_le (by omega)]
    have h := inst_field b (entropyBytes + 8 * i) (k := 3) (w := 8) (by omega) (by omega) (by omega)
    rw [Nat.mod_eq_of_lt (BitVec.isLt _)] at h
    refine Eq.trans ?_ h
    -- the shift leaves eight bits
    have hlt := (load32 b (entropyBytes + 8 * i) &&& ~~~(0xF8#32 <<< 8)).isLt
    have hand := Nat.and_two_pow_sub_one_eq_mod
      ((load32 b (entropyBytes + 8 * i) &&& ~~~(0xF8#32 <<< 8)).toNat >>> 24) 8
    rw [Nat.shiftRight_eq_div_pow, Nat.mod_eq_of_lt (by omega)] at hand
    show ((load32 b (entropyBytes + 8 * i) &&& ~~~(0xF8#32 <<< 8)) >>> 24).toNat = _
    rw [BitVec.toNat_and, BitVec.toNat_ushiftRight, Nat.shiftRight_eq_div_pow]
    exact hand.symm
  imm32 := rfl

/-! ## the condition -/

theorem decode_eq_iff (b : Bytes) (a a' : Nat) :
    Instruction.decode b a = .decode b a' ↔ ∀ m < 8, b (a + m) = b (a' + m) := by
  constructor
  · intro h m hm
    obtain ⟨h0, h1, h2, h3, himm⟩ := Instruction.mk.inj h
    have h4 := (load32_eq_iff b _ _).mp himm
    by_cases hlt : m < 4
    · obtain rfl | rfl | rfl | rfl : m = 0 ∨ m = 1 ∨ m = 2 ∨ m = 3 := by omega
      · exact h0
      · exact h1
      · exact h2
      · exact h3
    · have := h4 (m - 4) (by omega)
      rwa [show a + 4 + (m - 4) = a + m by omega, show a' + 4 + (m - 4) = a' + m by omega] at this
  · intro h
    unfold Instruction.decode
    rw [show b a = b a' from h 0 (by omega), h 1 (by omega), h 2 (by omega), h 3 (by omega),
      (load32_eq_iff b (a + 4) (a' + 4)).mpr fun k hk => ?_]
    rw [Nat.add_assoc, Nat.add_assoc]
    exact h (4 + k) (by omega)

/-- **The object has the layout its fillers assume exactly when the bytes repeat with period 128.** -/
theorem programLayout_iff (b : Bytes) :
    ProgramLayout b ↔ ∀ j < 8 * programMaxSize, b (entropyBytes + j) = b j := by
  constructor
  · intro h j hj
    have hi := h.instr (j / 8) (by omega)
    have hm := (decode_eq_iff b _ _).mp hi (j % 8) (Nat.mod_lt _ (by omega))
    rw [show programBufferOffset + 8 * (j / 8) + j % 8 = j by unfold programBufferOffset; omega,
      show entropyBytes + 8 * (j / 8) + j % 8 = entropyBytes + j by omega] at hm
    exact hm.symm
  · intro h
    have hinstr : ∀ i < programMaxSize, Program.instr b i = .decode b (entropyBytes + 8 * i) := by
      intro i hi
      refine (decode_eq_iff b _ _).mpr fun m hm => ?_
      rw [show programBufferOffset + 8 * i + m = 8 * i + m by unfold programBufferOffset; omega,
        ← h (8 * i + m) (by omega), Nat.add_assoc]
    -- sixteen periods take the words behind the instructions back to the first ones
    have hperiod : ∀ n j, j < entropyBytes → n ≤ 16 → b (entropyBytes * n + j) = b j := by
      intro n
      induction n with
      | zero => intro j _ _; rw [Nat.mul_zero, Nat.zero_add]
      | succ n ih =>
        intro j hj hn
        have hb : entropyBytes * n + j < 8 * programMaxSize := by
          unfold entropyBytes programMaxSize at *
          omega
        rw [Nat.mul_succ, Nat.add_comm (entropyBytes * n), Nat.add_assoc, h _ hb, ih j hj (by omega)]
    have hentropy : ∀ k < 16, Program.getEntropy b k = load64 b (8 * k) := by
      intro k hk
      unfold Program.getEntropy
      rw [load64_eq_iff]
      intro m hm
      rw [byteOf_load64 b _ hm]
      have hb := hperiod 16 (8 * k + m) (by unfold entropyBytes; omega) (le_refl 16)
      rw [← hb]
      congr 1
      unfold entropyBufferOffset programBufferOffset programMaxSize entropyBytes
      omega
    refine ⟨hentropy, hinstr, sameConfiguration hentropy, fun i hi => ?_⟩
    rw [hinstr i hi]
    exact sameInstruction b i

/-- all zero but for the first byte -/
theorem not_programLayout : ¬ ProgramLayout fun j => if j = 0 then 1 else 0 := by
  intro h
  have h0 := h.getEntropy 0 (by decide)
  revert h0
  decide

end Randx
