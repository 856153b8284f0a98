import RandxFpga.Oracle.AesRound
import RandxFpga.Oracle.Blake2bStream
import RandxFpga.Oracle.Dataset

/-!
# The hash (`randomx.cpp`, `virtual_machine.cpp`)

`calculateHash` is `randomx_calculate_hash`; `calculateHashFirst` and `calculateHashNext` overlap
the end of a hash with the start of the next one.

* `calculateHash_primed`  the hash depends on the input, not on what the VM did before;
* `execute_within`        a program stays within level 3 of the scratchpad and the dataset;
* `pipeline_inUse`        the overlapped functions give the same hashes for any sequence of inputs,
                          with each of the functions for AES and BLAKE2b;
* `calculateHash_frame`   the bytes behind level 3 of the scratchpad stay as they are;
* `randomxHash_light`     the light mode and the full mode give the same hash.
-/

namespace Randx

/-! ## the configurations -/

/-- a configuration that `Apply` has been called on, with the members that a program does not use -/
structure HashConfiguration extends RandomXConfiguration where
  programIterations : Nat
  programCount : BitVec 32
  fillAes4Rx4Key : Fin 8 → VecI128
  iterations_pos : 0 < programIterations
  programSize_eq : programSize = programMaxSize
  masksWithin : toRandomXConfiguration.MasksWithin
  lines : 256 ∣ scratchpadL3Size.toNat

namespace HashConfiguration

/-- `fillAes4Rx4_Key` of `RandomX_ConfigurationBase` -/
def baseKey : Fin 8 → VecI128
  | 0 => setIntVec 0x99e5d23f 0x2f546d2b 0xd1833ddb 0x6421aadd
  | 1 => setIntVec 0xa5dfcde5 0x06f79d53 0xb6913f55 0xb20e3450
  | 2 => setIntVec 0x171c02bf 0x0aa4679f 0x515e7baf 0x5c3ed904
  | 3 => setIntVec 0xd8ded291 0xcd673785 0xe78f5d08 0x85623763
  | 4 => setIntVec 0x229effb4 0x3d518b6d 0xe3d6a7a6 0xb5826f73
  | 5 => setIntVec 0xb272b7d2 0xe9024d4e 0x9c10b3d9 0xc7566bf3
  | 6 => setIntVec 0xf63befa7 0x2ba9660a 0xf765a38b 0xf273c9e7
  | 7 => setIntVec 0xc0b0762d 0x0c06d1fd 0x915839de 0x7a7cd609

def wowneroKey : Fin 8 → VecI128
  | 0 | 4 => setIntVec 0xcf359e95 0x141f82b7 0x7ffbe4a6 0xf890465d
  | 1 | 5 => setIntVec 0x6741ffdc 0xbd5c5ac3 0xfee8278a 0x6a55c450
  | 2 | 6 => setIntVec 0x3d324aac 0xa7279ad2 0xd524fde4 0x114c47a4
  | 3 | 7 => setIntVec 0x76f6db08 0x42d3dbd9 0x99a9aeff 0x810c3a2a

def wowneroFreq : InstructionType → Nat
  | .IADD_RS => 25
  | .IROR_R => 10
  | .IROL_R => 0
  | .FSWAP_R => 8
  | .FADD_R => 20
  | .FSUB_R => 20
  | .FMUL_R => 20
  | .CBRANCH => 16
  | t => RandomXConfiguration.baseFreq t

/-- `RandomX_MoneroConfig`, which overrides nothing -/
def monero : HashConfiguration where
  toRandomXConfiguration := RandomXConfiguration.base.apply
  programIterations := 2048
  programCount := 8
  fillAes4Rx4Key := baseKey
  iterations_pos := by omega
  programSize_eq := rfl
  masksWithin := apply_masksWithin (by constructor <;> decide)
  lines := by decide

/-- `RandomX_WowneroConfig` -/
def wownero : HashConfiguration where
  toRandomXConfiguration := RandomXConfiguration.apply { RandomXConfiguration.base with
    scratchpadL2Size := 131072
    scratchpadL3Size := 1048576
    freq := wowneroFreq
    wtSum := by decide }
  programIterations := 1024
  programCount := 16
  fillAes4Rx4Key := wowneroKey
  iterations_pos := by omega
  programSize_eq := rfl
  masksWithin := apply_masksWithin (by constructor <;> decide)
  lines := by decide

/-- `RandomX_ArqmaConfig` -/
def arqma : HashConfiguration where
  toRandomXConfiguration := RandomXConfiguration.apply { RandomXConfiguration.base with
    scratchpadL2Size := 131072
    scratchpadL3Size := 262144 }
  programIterations := 1024
  programCount := 4
  fillAes4Rx4Key := baseKey
  iterations_pos := by omega
  programSize_eq := rfl
  masksWithin := apply_masksWithin (by constructor <;> decide)
  lines := by decide

/-- `RandomX_KevaConfig` -/
def keva : HashConfiguration where
  toRandomXConfiguration := RandomXConfiguration.apply { RandomXConfiguration.base with
    scratchpadL2Size := 131072
    scratchpadL3Size := 1048576 }
  programIterations := 2048
  programCount := 8
  fillAes4Rx4Key := baseKey
  iterations_pos := by omega
  programSize_eq := rfl
  masksWithin := apply_masksWithin (by constructor <;> decide)
  lines := by decide

/-- `RandomX_SafexConfig` overrides the salt of Argon2 only -/
def safex : HashConfiguration := monero

end HashConfiguration

/-! ## the functions in use -/

/-- the instances of the templates and the compression function that a VM uses -/
structure Functions where
  /-- `aesenc<softAes>` and `aesdec<softAes>` of the VM -/
  round : AesRound
  /-- those of `hashAndFillAes1Rx4<softAes, unroll>` -/
  bothRound : AesRound
  softAes : Nat
  unroll : Nat
  compress : Blake2b.Compress

namespace Functions

/-- `VmBase<false>` -/
def hard (S : Aes.Sbox) (compress : Blake2b.Compress) : Functions :=
  ⟨hardAes S, hardAes S, 0, 2, compress⟩

/-- `VmBase<true>` with the functions that `SelectSoftAESImpl` chooses from -/
def soft (luts : Luts) (compress : Blake2b.Compress) : List Functions :=
  [⟨softAes1 luts, softAes1 luts, 1, 1, compress⟩, ⟨softAes1 luts, softAes2 luts, 2, 1, compress⟩,
    ⟨softAes1 luts, softAes2 luts, 2, 2, compress⟩, ⟨softAes1 luts, softAes2 luts, 2, 4, compress⟩]

/-- what may be in use once `saesInitializer` has made the tables -/
def inUse (S : Aes.Sbox) (luts : Luts) : List Functions :=
  [Blake2b.compressInteger, Blake2b.compressSse41].flatMap fun compress =>
    hard S compress :: soft luts compress

end Functions

/-! ## the VM -/

/-- the bytes of a lane as a register -/
def VecI128.toF128 (v : VecI128) : VecF128 := ⟨v.y ++ v.x, v.w ++ v.z⟩

/-- the words of a `RegisterFile` -/
def registerWord (reg : NativeRegisterFile) (i : Nat) : Word :=
  if i < 8 then reg.r (Fin.ofNat 8 i)
  else if i < 16 then fltWords reg.f (Fin.ofNat 8 i)
  else if i < 24 then fltWords reg.e (Fin.ofNat 8 i)
  else fltWords reg.a (Fin.ofNat 8 i)

def registerBytes (reg : NativeRegisterFile) : List Byte :=
  (List.range 256).map fun j => byteOf (registerWord reg (j / 8)) (j % 8)

/-- `tempHash` as the functions for AES take it -/
def lanesOf (tempHash : List Byte) : Lanes := loadLanes (Blake2b.listBytes tempHash) 0

namespace Vm
section
variable (c : HashConfiguration) (impl : Functions) (fpu : Fpu) (read : DatasetRead)

/-- the seed is written back -/
def initScratchpad (seed : Lanes) (vm : Vm) : Lanes × Vm :=
  let p := fillAes1Rx4 impl.round seed c.scratchpadL3Size.toNat vm.scratchpad
  (p.1, { vm with scratchpad := p.2 })

def resetRoundingMode (vm : Vm) : Vm := { vm with mxcsr := mxcsrDefault }

def generateProgram (seed : Lanes) (vm : Vm) : Vm :=
  { vm with
    program := fillAes4Rx4 impl.round c.fillAes4Rx4Key seed (128 + c.programSize * 8) vm.program }

/-- `InterpretedVm::run` -/
def run (seed : Lanes) (vm : Vm) : Option Vm :=
  (vm.generateProgram c impl seed).initialized.execute c.toRandomXConfiguration fpu read
    c.programIterations

/-- the hash of the scratchpad goes to the registers `a` -/
def withA (hash : Lanes) (vm : Vm) : Vm :=
  { vm with reg := { vm.reg with a := fun i => (hash i).toF128 } }

/-- `rx_blake2b_wrapper::run` -/
def blake2b (outlen : Nat) (pin : List Byte) : Option (List Byte) :=
  Blake2b.blake2b impl.compress outlen pin

def getFinalResult (vm : Vm) : Option (List Byte × Vm) := do
  let vm := vm.withA (hashAes1Rx4 impl.round vm.scratchpad c.scratchpadL3Size.toNat)
  let out ← blake2b impl 32 (registerBytes vm.reg)
  some (out, vm)

/-- the result, the fill state written back and the VM -/
def hashAndFill (fillState : Lanes) (vm : Vm) : Option (List Byte × Lanes × Vm) := do
  let s := hashAndFillAes1Rx4 impl.bothRound impl.softAes impl.unroll vm.scratchpad
    c.scratchpadL3Size.toNat fillState
  let vm := { vm with scratchpad := s.scratchpad }.withA s.hashState
  let out ← blake2b impl 32 (registerBytes vm.reg)
  some (out, s.fillState, vm)

/-- a turn of the loop over `chain` -/
def chainStep (x : Lanes × Vm) : Option (Lanes × Vm) := do
  let vm ← run c impl fpu read x.1 x.2
  let tempHash ← blake2b impl 64 (registerBytes vm.reg)
  some (lanesOf tempHash, vm)

/-- all the programs of a hash -/
def runAll (tempHash : Lanes) (vm : Vm) : Option Vm := do
  let x ← Loop.times (chainStep c impl fpu read) (c.programCount - 1).toNat
    (tempHash, vm.resetRoundingMode)
  run c impl fpu read x.1 x.2

/-- `randomx_calculate_hash` -/
def calculateHash (input : List Byte) (vm : Vm) : Option (List Byte × Vm) := do
  let tempHash ← blake2b impl 64 input
  let (tempHash, vm) := vm.initScratchpad c impl (lanesOf tempHash)
  let vm ← runAll c impl fpu read tempHash vm
  vm.getFinalResult c impl

/-- `randomx_calculate_hash_first`: `tempHash` and the VM -/
def calculateHashFirst (input : List Byte) (vm : Vm) : Option (Lanes × Vm) := do
  let tempHash ← blake2b impl 64 input
  some (vm.initScratchpad c impl (lanesOf tempHash))

/-- `randomx_calculate_hash_next`: the hash of the input before, `tempHash` and the VM -/
def calculateHashNext (nextInput : List Byte) (x : Lanes × Vm) :
    Option (List Byte × Lanes × Vm) := do
  let vm ← runAll c impl fpu read x.1 x.2
  let tempHash ← blake2b impl 64 nextInput
  vm.hashAndFill c impl (lanesOf tempHash)

/-- the hashes that the calls of `randomx_calculate_hash_next` give for these inputs -/
def hashNexts (x : Lanes × Vm) : List (List Byte) → Option (List (List Byte))
  | [] => some []
  | nextInput :: inputs => do
    let (out, x) ← calculateHashNext c impl fpu read nextInput x
    let outs ← hashNexts x inputs
    some (out :: outs)

/-- one call of `randomx_calculate_hash_first` and then the others -/
def pipeline (input : List Byte) (inputs : List (List Byte)) (vm : Vm) :
    Option (List (List Byte)) := do
  let x ← calculateHashFirst c impl input vm
  hashNexts c impl fpu read x inputs

end

/-! ## a run -/

theorem getEntropy_congr {m m' : Bytes} (h : ∀ j < 2176, m j = m' j) {i : Nat} (hi : i < 16) :
    Program.getEntropy m i = Program.getEntropy m' i :=
  load64_congr fun j hj => h _ (by show 0 + 8 * 256 + 8 * i + j < 2176; omega)

theorem instr_congr {m m' : Bytes} (h : ∀ j < 2176, m j = m' j) {i : Nat} (hi : i < 256) :
    Program.instr m i = Program.instr m' i := by
  have hbyte : ∀ k < 8, m (programBufferOffset + 8 * i + k) = m' (programBufferOffset + 8 * i + k) :=
    fun k hk => h _ (by show 0 + 8 * i + k < 2176; omega)
  have himm : load32 m (programBufferOffset + 8 * i + 4)
      = load32 m' (programBufferOffset + 8 * i + 4) :=
    load32_congr fun j hj hlt => h j (by
      have hbuffer : programBufferOffset = 0 := rfl
      omega)
  refine (Instruction.mk.injEq ..).mpr ⟨hbyte 0 (by omega), hbyte 1 (by omega), hbyte 2 (by omega),
    hbyte 3 (by omega), himm⟩

theorem vmInitialize_congr {e e' : Nat → Word} (h : ∀ k < 16, e k = e' k) :
    vmInitialize e = vmInitialize e' := by
  have hlo : ∀ i : Fin 4, e (2 * i) = e' (2 * i) := fun i => h _ (by omega)
  have hhi : ∀ i : Fin 4, e (2 * i + 1) = e' (2 * i + 1) := fun i => h _ (by omega)
  have hmask : ∀ i : Fin 2, e (14 + i) = e' (14 + i) := fun i => h _ (by omega)
  simp only [vmInitialize, hlo, hhi, hmask, h 8 (by omega), h 10 (by omega), h 12 (by omega),
    h 13 (by omega)]

/-- what a run depends on of the VM: level 3 of the scratchpad and the rounding mode -/
structure Ready (n : Nat) (vm vm' : Vm) : Prop where
  scratchpad : ∀ j < n, vm.scratchpad j = vm'.scratchpad j
  mxcsr : vm.mxcsr = vm'.mxcsr

section
variable {c : HashConfiguration} {vm vm' : Vm}

/-- the program and the registers `a` come from the seed -/
theorem generateProgram_alike (impl : Functions) (seed : Lanes)
    (h : Ready c.scratchpadL3Size.toNat vm vm') :
    Alike c.toRandomXConfiguration (vm.generateProgram c impl seed).initialized
      ((vm'.generateProgram c impl seed).initialized.splice c.scratchpadL3Size.toNat
        vm.scratchpad) := by
  have hsize : 128 + c.programSize * 8 = 2176 := by rw [c.programSize_eq]; rfl
  have hbytes : ∀ j < 2176, (vm.generateProgram c impl seed).program j
      = (vm'.generateProgram c impl seed).program j := fun j hj => by
    have hdvd : 64 ∣ 128 + c.programSize * 8 := by rw [hsize]; exact ⟨34, rfl⟩
    have hfill := fillAes4Rx4_eq impl.round c.fillAes4Rx4Key hdvd seed vm.program vm'.program
    exact (congrFun hfill j).trans (splice_of_lt (by omega))
  have hvm := vmInitialize_congr fun k hk => getEntropy_congr hbytes hk
  have hscratchpad : vm.scratchpad
      = Randx.splice c.scratchpadL3Size.toNat vm.scratchpad vm'.scratchpad := by
    rw [← splice_congr h.scratchpad, splice_self]
  exact ⟨fun i hi => instr_congr hbytes (by rw [c.programSize_eq] at hi; exact hi),
    congrArg (·.a) hvm, congrArg (·.config) hvm, congrArg (·.mx) hvm, congrArg (·.ma) hvm,
    hscratchpad, congrArg (·.datasetOffset) hvm, h.mxcsr⟩

variable (impl : Functions) (fpu : Fpu) (read : DatasetRead)

theorem run_ready (seed : Lanes) (h : Ready c.scratchpadL3Size.toNat vm vm') :
    ∃ w w', run c impl fpu read seed vm = some w ∧ run c impl fpu read seed vm' = some w' ∧
      Ready c.scratchpadL3Size.toNat w w' ∧ w.reg = w'.reg := by
  have halike := generateProgram_alike impl seed h
  obtain ⟨s, hs, hs'⟩ := execute_alike fpu read halike c.iterations_pos
  obtain ⟨t, ht⟩ := exists_execute c.toRandomXConfiguration fpu read
    (vm'.generateProgram c impl seed).initialized c.programIterations
  rw [execute_splice c.masksWithin, ht, Option.map_some] at hs'
  have heq := Option.some.inj hs'
  have hscratchpad := congrArg (·.scratchpad) heq
  refine ⟨_, _, hs, ht, ⟨fun j hj => ?_, (congrArg (·.mxcsr) heq).symm⟩, ?_⟩
  · exact (congrFun hscratchpad j).symm.trans (splice_of_lt hj)
  · have hreg := congrArg (·.reg) heq
    refine Eq.trans ?_ hreg.symm
    exact congrArg (fun a => { s.nreg with a := a }) halike.a

theorem blake2b_eq {outlen : Nat} (h : 1 ≤ outlen) (hle : outlen ≤ 64) (pin : List Byte) :
    blake2b impl outlen pin = some (Blake2b.hash impl.compress outlen pin) :=
  Blake2b.blake2b_eq impl.compress h hle pin

theorem chainStep_ready {x x' : Lanes × Vm} (hseed : x.1 = x'.1)
    (h : Ready c.scratchpadL3Size.toNat x.2 x'.2) :
    ∃ y y', chainStep c impl fpu read x = some y ∧ chainStep c impl fpu read x' = some y' ∧
      y.1 = y'.1 ∧ Ready c.scratchpadL3Size.toNat y.2 y'.2 := by
  obtain ⟨w, w', hw, hw', hready, hreg⟩ := run_ready impl fpu read x.1 h
  let tempHash := lanesOf (Blake2b.hash impl.compress 64 (registerBytes w.reg))
  refine ⟨(tempHash, w), (tempHash, w'), ?_, ?_, rfl, hready⟩
  · rw [chainStep, hw, Option.bind_eq_bind, Option.bind_some,
      blake2b_eq impl (by omega) (Nat.le_refl 64)]
    rfl
  · rw [chainStep, ← hseed, hw', Option.bind_eq_bind, Option.bind_some,
      blake2b_eq impl (by omega) (Nat.le_refl 64), ← hreg]
    rfl

theorem runAll_ready (tempHash : Lanes)
    (h : ∀ j < c.scratchpadL3Size.toNat, vm.scratchpad j = vm'.scratchpad j) :
    ∃ w w', runAll c impl fpu read tempHash vm = some w ∧
      runAll c impl fpu read tempHash vm' = some w' ∧
      Ready c.scratchpadL3Size.toNat w w' ∧ w.reg = w'.reg := by
  obtain ⟨x, x', hx, hx', hseed, hready⟩ := Loop.times_rel
    (fun x x' : Lanes × Vm => x.1 = x'.1 ∧ Ready c.scratchpadL3Size.toNat x.2 x'.2)
    (fun x x' hxx => chainStep_ready impl fpu read hxx.1 hxx.2) (c.programCount - 1).toNat
    (s := (tempHash, vm.resetRoundingMode)) (t := (tempHash, vm'.resetRoundingMode)) ⟨rfl, h, rfl⟩
  obtain ⟨w, w', hw, hw', hrun⟩ := run_ready impl fpu read x.1 hready
  refine ⟨w, w', ?_, ?_, hrun⟩
  · rw [runAll, hx]
    exact hw
  · rw [hseed] at hw'
    rw [runAll, hx']
    exact hw'

/-! ## the hash -/

/-- what `initScratchpad` leaves for the hash of an input -/
def primed (c : HashConfiguration) (impl : Functions) (input : List Byte) : Lanes × Bytes :=
  fillAes1Rx4 impl.round (lanesOf (Blake2b.hash impl.compress 64 input)) c.scratchpadL3Size.toNat
    fun _ => 0

/-- `tempHash` and the VM in front of the programs of the hash of an input -/
structure Primed (c : HashConfiguration) (impl : Functions) (input : List Byte)
    (x : Lanes × Vm) : Prop where
  tempHash : x.1 = (primed c impl input).1
  scratchpad : ∀ j < c.scratchpadL3Size.toNat, x.2.scratchpad j = (primed c impl input).2 j

theorem lines64 (c : HashConfiguration) : 64 ∣ c.scratchpadL3Size.toNat :=
  dvd_trans ⟨4, rfl⟩ c.lines

theorem initScratchpad_primed (input : List Byte) (vm : Vm) :
    Primed c impl input
      (vm.initScratchpad c impl (lanesOf (Blake2b.hash impl.compress 64 input))) := by
  obtain ⟨hstate, hbytes⟩ := fillAes1Rx4_eq impl.round (lines64 c)
    (lanesOf (Blake2b.hash impl.compress 64 input)) vm.scratchpad fun _ => 0
  exact ⟨hstate, fun j hj => (congrFun hbytes j).trans (splice_of_lt hj)⟩

/-- the hash of an input, on a VM without a past -/
def randomxHash (c : HashConfiguration) (impl : Functions) (fpu : Fpu) (read : DatasetRead)
    (input : List Byte) : List Byte :=
  ((calculateHash c impl fpu read input default).map Prod.fst).getD []

theorem calculateHash_eq_runAll (input : List Byte) (vm : Vm) :
    calculateHash c impl fpu read input vm
      = (runAll c impl fpu read (primed c impl input).1
          (vm.initScratchpad c impl (lanesOf (Blake2b.hash impl.compress 64 input))).2).bind
          (getFinalResult c impl) := by
  rw [calculateHash, blake2b_eq impl (by omega) (Nat.le_refl 64), Option.bind_eq_bind,
    Option.bind_some, ← (initScratchpad_primed impl input vm).tempHash]
  rfl

/-- the last hash, of VMs behind the same programs -/
theorem finalBytes_eq {w w' : Vm} (h : Ready c.scratchpadL3Size.toNat w w') (hreg : w.reg = w'.reg) :
    registerBytes (w.withA (hashAes1Rx4 impl.round w.scratchpad c.scratchpadL3Size.toNat)).reg
      = registerBytes
        (w'.withA (hashAes1Rx4 impl.round w'.scratchpad c.scratchpadL3Size.toNat)).reg := by
  unfold withA
  rw [hashAes1Rx4_congr impl.round (lines64 c) h.scratchpad, hreg]

/-- the programs from any VM that is primed for an input lead to its hash -/
theorem runAll_primed {input : List Byte} {x : Lanes × Vm} (h : Primed c impl input x) :
    ∃ w, runAll c impl fpu read x.1 x.2 = some w ∧
      randomxHash c impl fpu read input = Blake2b.hash impl.compress 32 (registerBytes
        (w.withA (hashAes1Rx4 impl.round w.scratchpad c.scratchpadL3Size.toNat)).reg) := by
  have hblank := initScratchpad_primed (c := c) impl input default
  obtain ⟨w, w', hw, hw', hready, hreg⟩ := runAll_ready impl fpu read (primed c impl input).1
    fun j hj => (h.scratchpad j hj).trans (hblank.scratchpad j hj).symm
  refine ⟨w, by rw [h.tempHash]; exact hw, ?_⟩
  rw [randomxHash, calculateHash_eq_runAll, hw', Option.bind_some, getFinalResult,
    blake2b_eq impl (by omega) (by omega), finalBytes_eq impl hready hreg]
  rfl

theorem calculateHash_primed (input : List Byte) (vm : Vm) :
    ∃ w, calculateHash c impl fpu read input vm
      = some (randomxHash c impl fpu read input, w) := by
  have hprimed := initScratchpad_primed (c := c) impl input vm
  obtain ⟨w, hw, hhash⟩ := runAll_primed impl fpu read hprimed
  rw [hprimed.tempHash] at hw
  refine ⟨w.withA (hashAes1Rx4 impl.round w.scratchpad c.scratchpadL3Size.toNat), ?_⟩
  rw [calculateHash_eq_runAll, hw, Option.bind_some, getFinalResult,
    blake2b_eq impl (by omega) (by omega), hhash]
  rfl

/-! ## first and next -/

theorem calculateHashFirst_primed (input : List Byte) (vm : Vm) :
    ∃ x, calculateHashFirst c impl input vm = some x ∧ Primed c impl input x :=
  ⟨_, by rw [calculateHashFirst, blake2b_eq impl (by omega) (Nat.le_refl 64)]; rfl,
    initScratchpad_primed impl input vm⟩

/-- the widths of the unrolled loops divide the size of the scratchpad -/
theorem hashAndFillWidth_dvd (softAes unroll : Nat) :
    hashAndFillWidth softAes unroll ∣ c.scratchpadL3Size.toNat := by
  refine dvd_trans ?_ c.lines
  unfold hashAndFillWidth
  match softAes, unroll with
  | 0, _ => exact ⟨2, rfl⟩
  | _ + 1, 4 => exact ⟨1, rfl⟩
  | _ + 1, 2 => exact ⟨2, rfl⟩
  | _ + 1, 0 | _ + 1, 1 | _ + 1, 3 | _ + 1, _ + 5 => exact ⟨4, rfl⟩

/-- the hash of one input, and the VM primed for the other -/
theorem calculateHashNext_primed (hround : impl.bothRound = impl.round) {input : List Byte}
    (nextInput : List Byte) {x : Lanes × Vm} (h : Primed c impl input x) :
    ∃ y, calculateHashNext c impl fpu read nextInput x
      = some (randomxHash c impl fpu read input, y) ∧ Primed c impl nextInput y := by
  obtain ⟨w, hw, hhash⟩ := runAll_primed impl fpu read h
  have hboth := hashAndFillAes1Rx4_eq impl.bothRound impl.softAes impl.unroll w.scratchpad
    c.scratchpadL3Size.toNat (lanesOf (Blake2b.hash impl.compress 64 nextInput))
    (hashAndFillWidth_dvd impl.softAes impl.unroll)
  have hprimed := initScratchpad_primed (c := c) impl nextInput w
  rw [hround] at hboth
  let filled := w.initScratchpad c impl (lanesOf (Blake2b.hash impl.compress 64 nextInput))
  refine ⟨(filled.1, filled.2.withA (hashAes1Rx4 impl.round w.scratchpad c.scratchpadL3Size.toNat)),
    ?_, hprimed.tempHash, hprimed.scratchpad⟩
  rw [calculateHashNext, hw, Option.bind_eq_bind, Option.bind_some,
    blake2b_eq impl (by omega) (Nat.le_refl 64), Option.bind_eq_bind, Option.bind_some, hashAndFill,
    hround, hboth, blake2b_eq impl (by omega) (by omega), hhash]
  rfl

theorem hashNexts_eq (hround : impl.bothRound = impl.round) (inputs : List (List Byte))
    {input : List Byte} {x : Lanes × Vm} (h : Primed c impl input x) :
    hashNexts c impl fpu read x inputs
      = some ((input :: inputs).dropLast.map (randomxHash c impl fpu read)) := by
  induction inputs generalizing input x with
  | nil => rfl
  | cons nextInput inputs ih =>
    obtain ⟨y, hy, hprimed⟩ := calculateHashNext_primed impl fpu read hround nextInput h
    rw [hashNexts, hy]
    show (hashNexts c impl fpu read y inputs).bind _ = _
    rw [ih hprimed]
    rfl

/-! ## the bytes behind the scratchpad -/

theorem run_frame {seed : Lanes} {w : Vm} (h : run c impl fpu read seed vm = some w) {j : Nat}
    (hj : c.scratchpadL3Size.toNat ≤ j) : w.scratchpad j = vm.scratchpad j := by
  have hsplice := execute_splice c.masksWithin fpu read (vm.generateProgram c impl seed).initialized
    c.programIterations vm.scratchpad
  have hself : ((vm.generateProgram c impl seed).initialized.splice c.scratchpadL3Size.toNat
      vm.scratchpad) = (vm.generateProgram c impl seed).initialized := by
    unfold Vm.splice
    rw [show (vm.generateProgram c impl seed).initialized.scratchpad = vm.scratchpad from rfl,
      splice_self]
    rfl
  rw [hself] at hsplice
  have hw : some w = (some w).map (Vm.splice c.scratchpadL3Size.toNat vm.scratchpad) := by
    rw [← h]
    exact hsplice
  have hscratchpad := congrArg (·.scratchpad) (Option.some.inj hw)
  exact (congrFun hscratchpad j).trans (splice_of_ge hj)

theorem runAll_frame {tempHash : Lanes} {w : Vm}
    (h : runAll c impl fpu read tempHash vm = some w) {j : Nat}
    (hj : c.scratchpadL3Size.toNat ≤ j) : w.scratchpad j = vm.scratchpad j := by
  have hstep : ∀ x : Lanes × Vm, x.2.scratchpad j = vm.scratchpad j →
      ∃ y, chainStep c impl fpu read x = some y ∧ y.2.scratchpad j = vm.scratchpad j := by
    intro x hx
    have hself : Ready c.scratchpadL3Size.toNat x.2 x.2 := ⟨fun _ _ => rfl, rfl⟩
    obtain ⟨v, -, hv, -, -⟩ := run_ready impl fpu read x.1 hself
    refine ⟨(lanesOf (Blake2b.hash impl.compress 64 (registerBytes v.reg)), v), ?_,
      (run_frame impl fpu read hv hj).trans hx⟩
    rw [chainStep, hv, Option.bind_eq_bind, Option.bind_some,
      blake2b_eq impl (by omega) (Nat.le_refl 64)]
    rfl
  obtain ⟨x, hx, hframe⟩ := Loop.times_inv _ hstep (c.programCount - 1).toNat
    (tempHash, vm.resetRoundingMode) rfl
  rw [runAll, hx] at h
  exact (run_frame impl fpu read h hj).trans hframe

theorem initScratchpad_frame (seed : Lanes) {j : Nat} (hj : c.scratchpadL3Size.toNat ≤ j) :
    (vm.initScratchpad c impl seed).2.scratchpad j = vm.scratchpad j := by
  obtain ⟨-, hbytes⟩ := fillAes1Rx4_eq impl.round (lines64 c) seed vm.scratchpad vm.scratchpad
  exact (congrFun hbytes j).trans (splice_of_ge hj)

/-- **A hash writes no byte behind level 3 of the scratchpad**, nor does an overlapped one. -/
theorem calculateHash_frame {j : Nat} (hj : c.scratchpadL3Size.toNat ≤ j) :
    (∀ input vm out w, calculateHash c impl fpu read input vm = some (out, w) →
      w.scratchpad j = vm.scratchpad j) ∧
    (∀ input vm x, calculateHashFirst c impl input vm = some x →
      x.2.scratchpad j = vm.scratchpad j) ∧
    ∀ nextInput x out y, calculateHashNext c impl fpu read nextInput x = some (out, y) →
      y.2.scratchpad j = x.2.scratchpad j := by
  refine ⟨fun input vm out w h => ?_, fun input vm x h => ?_, fun nextInput x out y h => ?_⟩
  · rw [calculateHash_eq_runAll] at h
    obtain ⟨v, hv, h⟩ := Option.bind_eq_some_iff.mp h
    rw [getFinalResult, blake2b_eq impl (by omega) (by omega)] at h
    obtain ⟨-, rfl⟩ := Prod.mk.inj (Option.some.inj h)
    exact (runAll_frame impl fpu read hv hj).trans (initScratchpad_frame impl _ hj)
  · rw [calculateHashFirst, blake2b_eq impl (by omega) (Nat.le_refl 64)] at h
    obtain rfl := Option.some.inj h
    exact initScratchpad_frame impl _ hj
  · obtain ⟨v, hv, h⟩ := Option.bind_eq_some_iff.mp h
    rw [blake2b_eq impl (by omega) (Nat.le_refl 64), Option.bind_eq_bind, Option.bind_some,
      hashAndFill, hashAndFillAes1Rx4_eq impl.bothRound impl.softAes impl.unroll v.scratchpad
        c.scratchpadL3Size.toNat _ (hashAndFillWidth_dvd impl.softAes impl.unroll),
      blake2b_eq impl (by omega) (by omega)] at h
    obtain ⟨-, rfl⟩ := Prod.mk.inj (Option.some.inj h)
    obtain ⟨-, hbytes⟩ := fillAes1Rx4_eq impl.bothRound (lines64 c)
      (lanesOf (Blake2b.hash impl.compress 64 nextInput)) v.scratchpad v.scratchpad
    exact ((congrFun hbytes j).trans (splice_of_ge hj)).trans (runAll_frame impl fpu read hv hj)

theorem calculateHash_frame_monero :
    (∀ input vm out w, calculateHash .monero (.hard SboxInit.toSbox Blake2b.compressInteger) default
        (fun _ _ => 0) input vm = some (out, w) → w.scratchpad 2097152 = vm.scratchpad 2097152) ∧
    (∀ input vm x, calculateHashFirst .monero (.hard SboxInit.toSbox Blake2b.compressInteger) input
      vm = some x → x.2.scratchpad 2097152 = vm.scratchpad 2097152) ∧
    ∀ nextInput x out y, calculateHashNext .monero
      (.hard SboxInit.toSbox Blake2b.compressInteger) default (fun _ _ => 0) nextInput x
        = some (out, y) → y.2.scratchpad 2097152 = x.2.scratchpad 2097152 :=
  calculateHash_frame _ _ _ (Nat.le_refl 2097152)

/-! ## the functions and the modes -/

/-- only the overlapped functions use the other members -/
theorem randomxHash_impl_congr {impl' : Functions} (hround : impl.round = impl'.round)
    (hcompress : impl.compress = impl'.compress) :
    randomxHash c impl fpu read = randomxHash c impl' fpu read := by
  cases impl
  cases impl'
  obtain rfl := hround
  obtain rfl := hcompress
  rfl

theorem inUse_eq {S : Aes.Sbox} {luts : Luts} (hluts : saesInitializer = some luts)
    (h : impl ∈ Functions.inUse S luts) :
    impl.round = hardAes S ∧ impl.bothRound = hardAes S ∧
      impl.compress = Blake2b.compressInteger := by
  obtain ⟨luts', hluts', hsoft1, hsoft2⟩ := softAes_eq.2 S
  obtain rfl : luts' = luts := Option.some.inj (hluts'.symm.trans hluts)
  have hsse : Blake2b.compressSse41 = Blake2b.compressInteger :=
    funext fun s => funext fun m => Blake2b.compressSse41_eq s m
  simp only [Functions.inUse, Functions.soft, Functions.hard, hsoft1, hsoft2, hsse,
    List.mem_flatMap, List.mem_cons, List.not_mem_nil, or_false, or_self] at h
  obtain ⟨compress, rfl, h⟩ := h
  obtain rfl | rfl | rfl | rfl | rfl := h <;> exact ⟨rfl, rfl, rfl⟩

theorem run_read_congr {read' : DatasetRead} (hread : ∀ a, DatasetAddress a → read a = read' a) :
    run c impl fpu read = run c impl fpu read' := by
  funext seed vm
  exact execute_congr fpu hread (initialized_datasetRegisters _) c.programIterations

theorem randomxHash_read_congr {read' : DatasetRead}
    (hread : ∀ a, DatasetAddress a → read a = read' a) :
    randomxHash c impl fpu read = randomxHash c impl fpu read' := by
  funext input
  unfold randomxHash calculateHash runAll chainStep
  rw [run_read_congr impl fpu read hread]

/-! ## the functions and the modes together -/

/-- **A run of a program ends, and stays within level 3 of the scratchpad and the dataset**: it
writes no other byte, and what else there is does not matter. -/
theorem execute_within (vm : Vm) (iterations : Nat) :
    ∃ w, vm.initialized.execute c.toRandomXConfiguration fpu read iterations = some w ∧
      (∀ j, c.scratchpadL3Size.toNat ≤ j → w.scratchpad j = vm.initialized.scratchpad j) ∧
      ∀ (b : Bytes) (read' : DatasetRead), (∀ a, DatasetAddress a → read' a = read a) →
        (vm.initialized.splice c.scratchpadL3Size.toNat b).execute c.toRandomXConfiguration fpu
          read' iterations = some (w.splice c.scratchpadL3Size.toNat b) := by
  obtain ⟨s, hs⟩ := vm.initialized.exists_execute c.toRandomXConfiguration fpu read iterations
  have hsplice := fun b => execute_splice c.masksWithin fpu read vm.initialized iterations b
  rw [hs] at hsplice
  refine ⟨_, hs, fun j hj => ?_, fun b read' hread => ?_⟩
  · have hself := hsplice vm.initialized.scratchpad
    rw [show vm.initialized.splice c.scratchpadL3Size.toNat vm.initialized.scratchpad
      = vm.initialized by unfold Vm.splice; rw [splice_self], hs] at hself
    exact (congrFun (congrArg (·.scratchpad) (Option.some.inj hself)) j).trans (splice_of_ge hj)
  · have hregisters : (vm.initialized.splice c.scratchpadL3Size.toNat b).DatasetRegisters
        vm.initialized.ma := { initialized_datasetRegisters vm with }
    exact (execute_congr fpu hread hregisters iterations).trans (hsplice b)

/-- **Whatever functions for AES and BLAKE2b are in use, the overlapped functions give the hashes
that one VM after the other would give.** -/
theorem pipeline_inUse (S : Aes.Sbox) :
    ∃ luts, saesInitializer = some luts ∧ ∃ hash : List Byte → List Byte,
      ∀ impl ∈ Functions.inUse S luts,
        (∀ input vm, ∃ w, calculateHash c impl fpu read input vm = some (hash input, w)) ∧
        ∀ input inputs vm, pipeline c impl fpu read input inputs vm
          = some ((input :: inputs).dropLast.map hash) := by
  obtain ⟨luts, hluts, -, -⟩ := softAes_eq.2 S
  refine ⟨luts, hluts, randomxHash c (.hard S Blake2b.compressInteger) fpu read,
    fun impl himpl => ?_⟩
  obtain ⟨hround, hboth, hcompress⟩ := inUse_eq impl hluts himpl
  have hhash : randomxHash c impl fpu read
      = randomxHash c (.hard S Blake2b.compressInteger) fpu read :=
    randomxHash_impl_congr impl fpu read hround hcompress
  refine ⟨fun input vm => ?_, fun input inputs vm => ?_⟩
  · rw [← hhash]
    exact calculateHash_primed impl fpu read input vm
  · rw [← hhash]
    obtain ⟨x, hx, hprimed⟩ := calculateHashFirst_primed impl input vm
    rw [pipeline, hx, Option.bind_eq_bind, Option.bind_some]
    exact hashNexts_eq impl fpu read (hboth.trans hround.symm) inputs hprimed

/-- **The loop for both is the hash and then the fill with AES rounds**, from tables or from the
instructions, unrolled or not. -/
theorem hashAndFill_inUse (S : Aes.Sbox) :
    ∃ luts, saesInitializer = some luts ∧ ∀ impl ∈ Functions.inUse S luts,
      ∀ scratchpad fillState,
        hashAndFillAes1Rx4 impl.bothRound impl.softAes impl.unroll scratchpad
            c.scratchpadL3Size.toNat fillState
          = ⟨hashAes1Rx4 (hardAes S) scratchpad c.scratchpadL3Size.toNat,
            (fillAes1Rx4 (hardAes S) fillState c.scratchpadL3Size.toNat scratchpad).1,
            (fillAes1Rx4 (hardAes S) fillState c.scratchpadL3Size.toNat scratchpad).2⟩ := by
  obtain ⟨luts, hluts, -, -⟩ := softAes_eq.2 S
  refine ⟨luts, hluts, fun impl himpl scratchpad fillState => ?_⟩
  obtain ⟨-, hboth, -⟩ := inUse_eq impl hluts himpl
  rw [hboth]
  exact hashAndFillAes1Rx4_eq _ _ _ _ _ _ (hashAndFillWidth_dvd impl.softAes impl.unroll)

/-- **The light mode and the full mode give the same hash**, in whatever order the threads have
filled the dataset; and every order ends. -/
theorem randomxHash_light (cache : Cache) (hasAVX2 : Bool) {numThreads : BitVec 32}
    (h : 5 * numThreads.toNat ≤ 34078719) (memory : Bytes) :
    ∃ ls, initThreads hasAVX2 cache numThreads = some ls ∧
      (∀ p, Threads.Reaches (dataPool ls memory) p →
        ∃ p', Threads.Reaches p p' ∧ p'.Joined) ∧
      ∀ p, Threads.Reaches (dataPool ls memory) p → p.Joined →
        randomxHash c impl fpu (fullRead p.store) = randomxHash c impl fpu (lightRead cache) := by
  obtain ⟨ls, hls, hfilled⟩ := initThreads_spec cache hasAVX2 h memory
  refine ⟨ls, hls, fun p _ => Threads.exists_joined p, fun p hp hend => ?_⟩
  have hstore := (hfilled p hp).2 hend
  exact randomxHash_read_congr impl fpu _ fun a ha =>
    fullRead_eq_lightRead (fun a ha => by rw [hstore, if_pos ha]) ha

end

theorem randomxHash_light_four :
    ∃ ls, initThreads true Cache.threes 4 = some ls ∧
      (∀ p, Threads.Reaches (dataPool ls fun _ => 0) p →
        ∃ p', Threads.Reaches p p' ∧ p'.Joined) ∧
      ∀ p, Threads.Reaches (dataPool ls fun _ => 0) p → p.Joined →
        randomxHash .monero (.hard SboxInit.toSbox Blake2b.compressInteger) default
            (fullRead p.store)
          = randomxHash .monero (.hard SboxInit.toSbox Blake2b.compressInteger) default
            (lightRead Cache.threes) :=
  randomxHash_light _ _ Cache.threes true (by show 5 * 4 ≤ 34078719; omega) fun _ => 0

end Vm
end Randx
