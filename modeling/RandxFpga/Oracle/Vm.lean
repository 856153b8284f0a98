import RandxFpga.Oracle.Address
import RandxFpga.Oracle.Branch
import RandxFpga.Oracle.TestScript

/-!
# The interpreter and its test driver (`vm_interpreted.cpp`, `test_script.cpp`)

`InterpretedVm.firstRun` is the first iteration of `InterpretedVm::execute` up to and including
`executeBytecode`.  The interpreter runs under the applied Monero configuration; `test_script` runs
the same bytecode machine but never applies a configuration, so all of its masks are zero.

* `computesIteration_iff`   `test_script` computes that iteration exactly when every offset the
                            iteration reaches is zero.
-/

namespace Randx

/-- the members that `execute` reads, and `MXCSR` -/
structure InterpretedVm where
  program : Nat → Instruction
  config : ProgramConfiguration
  regA : Fin 4 → VecF128
  mx : BitVec 32
  ma : BitVec 32
  scratchpad : Bytes
  bytecode : Nat → InstructionByteCode
  mxcsr : BitVec 32
  deriving Inhabited

namespace InterpretedVm
section
variable (c : RandomXConfiguration) (fpu : Fpu) (vm : InterpretedVm)

/-- an iteration of the loop from its addresses and integer registers to the call of
`executeBytecode` -/
def iterationStart (spAddr0 spAddr1 : BitVec 32) (r : Fin 8 → Word) : Machine :=
  let spMix := r vm.config.readReg0 ^^^ r vm.config.readReg1
  let spAddr0 := (spAddr0 ^^^ spMix.setWidth 32) &&& c.scratchpadL3Mask64
  let spAddr1 := (spAddr1 ^^^ (spMix >>> 32).setWidth 32) &&& c.scratchpadL3Mask64
  { pc := 0
    nreg :=
      { r := fun i => r i ^^^ load64 vm.scratchpad (spAddr0.toNat + 8 * i)
        f := fun i => cvtPackedInt fpu vm.scratchpad (spAddr1.toNat + 8 * i)
        e := fun i => maskRegisterExponentMantissa vm.config
          (cvtPackedInt fpu vm.scratchpad (spAddr1.toNat + 8 * (4 + i)))
        a := vm.regA }
    scratchpad := vm.scratchpad
    mxcsr := vm.mxcsr }

/-- the first iteration: `spAddr0 = mem.mx`, `spAddr1 = mem.ma`, the integer registers zero -/
def firstMachine : Machine := iterationStart c fpu vm vm.mx vm.ma fun _ => 0

def firstRun : Option Machine :=
  executeBytecode c fpu vm.config (compileProgram c vm.program vm.bytecode) (firstMachine c fpu vm)

def firstTrace : List (Machine × Machine) :=
  executeTrace c fpu vm.config (compileProgram c vm.program vm.bytecode) (3 * c.programSize)
    (firstMachine c fpu vm)

end

/-- a machine with this program and scratchpad, and the addresses of `test_script` -/
def load (vm : InterpretedVm) (program : Nat → Instruction) (scratchpad : Bytes) : InterpretedVm :=
  { vm with program := program, scratchpad := scratchpad, mx := 128, ma := 256 }

end InterpretedVm

def ruleAt (program : Nat → Instruction) (m : Machine) : Option Nat :=
  ruleAddress (program m.pc.toNat) m.nreg.r (opAt .monero program m.pc.toNat)

/-- `test_script` ends with the integer registers and the scratchpad of the first iteration, and
each of its instructions reaches the offset of its rule -/
def ComputesIteration (fpu fpu' : Fpu) (s : FltState) (bytecode : Nat → InstructionByteCode)
    (vm : InterpretedVm) (program : Nat → Instruction) (scratchpad : Bytes) : Prop :=
  (∃ m v, runLoaded fpu s bytecode program scratchpad = some m ∧
    (vm.load program scratchpad).firstRun .monero fpu' = some v ∧
    m.nreg.r = v.nreg.r ∧ m.scratchpad = v.scratchpad) ∧
  ∀ p ∈ traceLoaded fpu s bytecode program scratchpad,
    (compileProgram .base program bytecode p.1.pc.toNat).access p.1.nreg = ruleAt program p.1

/-! ## the two runs -/

section
variable (fpu fpu' : Fpu) (s : FltState) (bytecode : Nat → InstructionByteCode)
  (vm : InterpretedVm) (program : Nat → Instruction) (scratchpad : Bytes)

theorem firstMachine_lowEq :
    LowEq (initMachine scratchpad s) ((vm.load program scratchpad).firstMachine .monero fpu') where
  pc := rfl
  r := by
    have h128 : (((128 : BitVec 32) ^^^ (0 ^^^ 0 : Word).setWidth 32)
        &&& RandomXConfiguration.monero.scratchpadL3Mask64).toNat = 128 := by decide
    funext i
    show 0 ^^^ load64 scratchpad (128 + 8 * i) = 0 ^^^ load64 scratchpad (_ + 8 * i)
    exact congrArg (fun a => 0 ^^^ load64 scratchpad (a + 8 * i)) h128.symm
  scratchpad := rfl

theorem first_congr :
    (vm.load program scratchpad).firstRun .monero fpu'
        = executeBytecode .monero fpu' vm.config (compileProgram .monero program bytecode)
          ((vm.load program scratchpad).firstMachine .monero fpu') ∧
      (vm.load program scratchpad).firstTrace .monero fpu'
        = executeTrace .monero fpu' vm.config (compileProgram .monero program bytecode)
          (3 * RandomXConfiguration.monero.programSize)
          ((vm.load program scratchpad).firstMachine .monero fpu') :=
  executeBytecode_congr .monero fpu' vm.config vm.bytecode program bytecode _ _

theorem base_access {m : Machine} (h : m.pc.toNat < 256) :
    (compileProgram .base program bytecode m.pc.toNat).access m.nreg
      = (ruleAt program m).map fun _ => 0 := by
  rw [compileProgram_eq .base program bytecode h]
  exact access_base _ _ _ _ _ _

theorem monero_access {m : Machine} (h : m.pc.toNat < 256) :
    (compileProgram .monero program bytecode m.pc.toNat).access m.nreg = ruleAt program m := by
  rw [compileProgram_eq .monero program bytecode h]
  exact access_monero _ _ _ _ _ _

/-- the offset of the instruction at `pc`, if it has one, is zero -/
def ReachesZero (m : Machine) : Prop := ∀ a, ruleAt program m = some a → a = 0

theorem map_zero_iff (o : Option Nat) : (o.map fun _ => 0) = o ↔ ∀ a, o = some a → a = 0 := by
  cases o with
  | none => simp
  | some b => simp [eq_comm]

theorem ReachesZero.congr {m n : Machine} (h : LowEq m n) (hm : ReachesZero program m) :
    ReachesZero program n := by
  unfold ReachesZero ruleAt at *
  rw [← h.pc, ← h.r]
  exact hm

theorem sameAccess_iff {m : Machine} (h : m.pc.toNat < 256) :
    SameAccess (compileProgram .base program bytecode) (compileProgram .monero program bytecode) m
      ↔ ReachesZero program m := by
  unfold SameAccess
  rw [base_access bytecode program h, monero_access bytecode program h, map_zero_iff]
  rfl

theorem pc_lt_of_mem_trace {c : RandomXConfiguration} {config : ProgramConfiguration}
    {code : Nat → InstructionByteCode} {n : Nat} {m : Machine} {p : Machine × Machine}
    (h : p ∈ executeTrace c fpu config code n m) : p.1.pc.toNat < c.programSize :=
  pc_lt_of_fetch (Loop.steps_inv (fun _ => True) (fun _ _ _ _ _ => trivial) _ _ trivial p h).2.2.1

theorem first_of_loaded
    (h : ∀ p ∈ traceLoaded fpu s bytecode program scratchpad, ReachesZero program p.1) :
    ∀ p ∈ (vm.load program scratchpad).firstTrace .monero fpu', ReachesZero program p.1 := by
  unfold traceLoaded at h
  have hsame := fun p hp =>
    (sameAccess_iff bytecode program (pc_lt_of_mem_trace fpu hp)).mpr (h p hp)
  have hsim := (executeBytecode_lowEq .base .monero fpu fpu' s.config vm.config rfl
    (compileProgram_sameUpToMask .base .monero rfl rfl program bytecode)
    (firstMachine_lowEq fpu' s vm program scratchpad) hsame
    fun u hd hs => absurd hs (fetchStep_ne_none .base fpu s.config bytecode program u hd)).2
  rw [(first_congr fpu' bytecode vm program scratchpad).2]
  exact Loop.forall_of_forall₂ hsim (fun p q hpq hp => hp.congr program hpq.1) h

theorem loaded_of_first
    (h : ∀ p ∈ (vm.load program scratchpad).firstTrace .monero fpu', ReachesZero program p.1) :
    ComputesIteration fpu fpu' s bytecode vm program scratchpad := by
  rw [(first_congr fpu' bytecode vm program scratchpad).2] at h
  have hm := firstMachine_lowEq fpu' s vm program scratchpad
  have hsame := fun p hp => ((sameAccess_iff bytecode program (pc_lt_of_mem_trace fpu' hp)).mpr
    (h p hp)).symm
  obtain ⟨hrun, hsim⟩ := executeBytecode_lowEq .monero .base fpu' fpu vm.config s.config rfl
    (compileProgram_sameUpToMask .monero .base rfl rfl program bytecode)
    ⟨hm.pc.symm, hm.r.symm, hm.scratchpad.symm⟩ hsame
    fun u hd hs => absurd hs (fetchStep_ne_none .monero fpu' vm.config bytecode program u hd)
  refine ⟨?_, fun p hp => ?_⟩
  · obtain ⟨v, hv, -⟩ := exists_executeBytecode .monero fpu' vm.config program bytecode
      ((vm.load program scratchpad).firstMachine .monero fpu')
    obtain ⟨m, hmrun, -⟩ := exists_executeBytecode .base fpu s.config program bytecode
      (initMachine scratchpad s)
    rw [hv, hmrun] at hrun
    have hmv : LowEq v m := by cases hrun; assumption
    exact ⟨m, v, hmrun, (first_congr fpu' bytecode vm program scratchpad).1.trans hv, hmv.r.symm,
      hmv.scratchpad.symm⟩
  · have hzero := Loop.forall_of_forall₂ (P := fun p => ReachesZero program p.1)
      (Q := fun q => ReachesZero program q.1) hsim (fun p q hpq hp => hp.congr program hpq.1) h p hp
    rw [base_access bytecode program (pc_lt_of_mem_trace fpu hp)]
    exact (map_zero_iff _).mpr hzero

/-- **`test_script` computes one iteration of the interpreter exactly when that iteration reaches no
offset of the scratchpad but 0.** -/
theorem computesIteration_iff :
    ComputesIteration fpu fpu' s bytecode vm program scratchpad ↔
      ∀ p ∈ (vm.load program scratchpad).firstTrace .monero fpu',
        ∀ a, ruleAt program p.1 = some a → a = 0 := by
  refine ⟨fun h => ?_, loaded_of_first fpu fpu' s bytecode vm program scratchpad⟩
  refine first_of_loaded fpu fpu' s bytecode vm program scratchpad fun p hp => ?_
  have haccess := h.2 p hp
  rw [base_access bytecode program (pc_lt_of_mem_trace fpu hp)] at haccess
  exact (map_zero_iff _).mp haccess

end

/-! ### a program that stores at offset 8 -/

/-- `00000008000100F0`, an `ISTORE` of register 1 at register 0 plus 8, and swaps of register 0 with
itself -/
def storeProgram : Nat → Instruction :=
  fun i => if i = 0 then ⟨0xF0, 0, 1, 0, 8⟩ else ⟨0x74, 0, 0, 0, 0⟩

/-- all zero but for the lowest byte of the initial register 1 -/
def storeScratchpad : Bytes := fun j => if j = 136 then 1 else 0

theorem storeProgram_run (c : RandomXConfiguration) (hfreq : c.freq = RandomXConfiguration.baseFreq)
    (hsize : c.programSize = 256) (fpu : Fpu) (config : ProgramConfiguration)
    (bytecode : Nat → InstructionByteCode) (m : Machine) :
    ∃ v, executeBytecode c fpu config (compileProgram c storeProgram bytecode) m = some v ∧
      v.scratchpad = store64 m.scratchpad
        (m.nreg.r 0 + 8 &&& (c.addressMask 0).setWidth 64).toNat (m.nreg.r 1) := by
  have htype : ∀ b, c.typeOf b = RandomXConfiguration.base.typeOf b :=
    RandomXConfiguration.typeOf_congr hfreq
  let m1 : Machine :=
    { m with
      pc := 1
      scratchpad := store64 m.scratchpad
        (m.nreg.r 0 + 8 &&& (c.addressMask 0).setWidth 64).toNat (m.nreg.r 1) }
  have hfirst : fetchStep fpu config (compileProgram c storeProgram bytecode) { m with pc := 0 }
      = some m1 := by
    unfold fetchStep
    rw [compileProgram_eq c storeProgram bytecode (show Int.toNat 0 < _ by rw [hsize]; decide)]
    unfold compileInstruction
    rw [show c.typeOf (storeProgram (Int.toNat 0)).opcode = .ISTORE by rw [htype]; decide]
    rfl
  -- the swaps change nothing but `pc`
  have hrest : ∀ s : Machine, 1 ≤ s.pc ∧ s.scratchpad = m1.scratchpad → fetchDone c s = false →
      ∃ t, fetchStep fpu config (compileProgram c storeProgram bytecode) s = some t ∧
        (1 ≤ t.pc ∧ t.scratchpad = m1.scratchpad) ∧ (256 - t.pc).toNat < (256 - s.pc).toNat := by
    intro s hs hd
    have hlt := pc_lt_of_fetch hd
    have hinstr : storeProgram s.pc.toNat = ⟨0x74, 0, 0, 0, 0⟩ := if_neg (by omega)
    refine ⟨{ s with pc := s.pc + 1 }, ?_, ⟨?_, hs.2⟩, ?_⟩
    · unfold fetchStep
      rw [compileProgram_eq c storeProgram bytecode hlt, hinstr]
      unfold compileInstruction
      rw [show c.typeOf (Instruction.mk 0x74 0 0 0 0).opcode = .ISWAP_R by rw [htype]; decide]
      rfl
    · show 1 ≤ s.pc + 1
      omega
    · show (256 - (s.pc + 1)).toNat < _
      omega
  obtain ⟨v, hv, hIv, -⟩ := Loop.run_of_measure
    (fun s : Machine => 1 ≤ s.pc ∧ s.scratchpad = m1.scratchpad) (fun s => (256 - s.pc).toNat) hrest
    767 m1 ⟨le_refl _, rfl⟩ (show (256 - (1 : Int)).toNat ≤ 767 by omega)
  have hstart : fetchDone c { m with pc := 0 } = false := by
    unfold fetchDone
    rw [hsize]
    rfl
  refine ⟨v, ?_, hIv.2⟩
  unfold executeBytecode
  rw [hsize]
  exact (Loop.run_succ hstart hfirst).trans hv

/-- the store at offset 8 ends up at offset 0, whatever the rest of the state -/
theorem storeProgram_scratchpad (fpu fpu' : Fpu) (s : FltState)
    (bytecode : Nat → InstructionByteCode) (vm : InterpretedVm) :
    ¬ ComputesIteration fpu fpu' s bytecode vm storeProgram storeScratchpad := by
  rintro ⟨⟨m, v, hm, hv, -, hscratchpad⟩, -⟩
  obtain ⟨m', hm', hsm⟩ := storeProgram_run .base rfl rfl fpu s.config bytecode
    (initMachine storeScratchpad s)
  obtain ⟨v', hv', hsv⟩ := storeProgram_run .monero rfl rfl fpu' vm.config vm.bytecode
    ((vm.load storeProgram storeScratchpad).firstMachine .monero fpu')
  obtain rfl := Option.some.inj (hm.symm.trans hm')
  obtain rfl := Option.some.inj (hv.symm.trans hv')
  have hlow := firstMachine_lowEq fpu' s vm storeProgram storeScratchpad
  rw [hsm, hsv, ← hlow.r, ← hlow.scratchpad] at hscratchpad
  have hbyte : store64 storeScratchpad (initR storeScratchpad 0 + 8 &&&
        (RandomXConfiguration.base.addressMask 0).setWidth 64).toNat (initR storeScratchpad 1) 0
      = store64 storeScratchpad (initR storeScratchpad 0 + 8 &&&
        (RandomXConfiguration.monero.addressMask 0).setWidth 64).toNat (initR storeScratchpad 1) 0 :=
    congrFun hscratchpad 0
  revert hbyte
  decide

theorem not_computesIteration_store :
    ¬ ComputesIteration default default default default default storeProgram storeScratchpad :=
  storeProgram_scratchpad _ _ _ _ _

end Randx
