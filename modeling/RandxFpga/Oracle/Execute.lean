import RandxFpga.Oracle.ProgramLayout
import RandxFpga.Oracle.Splice
import RandxFpga.Oracle.Vm

/-!
# A program on the VM (`virtual_machine.hpp`, `vm_interpreted.cpp`)

`Vm.execute` is `InterpretedVm::execute` with all its iterations.  What `datasetRead` gives for an
address is a parameter: the words of a line of the dataset, or the ones the light VM computes.

* `exists_execute`   the function returns;
* `execute_splice`   it reads and writes no byte behind level 3 of the scratchpad;
* `execute_congr`    it reads whole lines of the dataset only, each inside the dataset;
* `execute_alike`    it does not depend on the bytecode and the registers of the program before.
-/

namespace Randx

/-- the members of `randomx_vm` and `InterpretedVm` that a program changes, and `MXCSR` -/
structure Vm where
  program : Bytes
  reg : NativeRegisterFile
  config : ProgramConfiguration
  mx : BitVec 32
  ma : BitVec 32
  scratchpad : Bytes
  datasetOffset : Word
  bytecode : Nat → InstructionByteCode
  mxcsr : BitVec 32
  deriving Inhabited

/-- what `datasetRead` adds to the integer registers -/
abbrev DatasetRead := Word → Fin 8 → Word

/-- `DatasetBaseSize + DatasetExtraSize` -/
def datasetSize : Nat := 2147483648 + 33554368

/-- a line of the dataset, all of it inside -/
structure DatasetAddress (a : Word) : Prop where
  aligned : a.toNat % 64 = 0
  inside : a.toNat + 64 ≤ datasetSize

/-- eight words one after the other -/
def storeLine (m : Bytes) (a : Nat) (w : Fin 8 → Word) : Bytes :=
  (List.finRange 8).foldl (fun m (i : Fin 8) => store64 m (a + 8 * i) (w i)) m

/-- the words of four vectors in memory -/
def fltWords (f : Fin 4 → VecF128) (i : Fin 8) : Word :=
  if i.val % 2 = 0 then (f (Fin.ofNat 4 (i / 2))).lo else (f (Fin.ofNat 4 (i / 2))).hi

/-- the variables of the loop in `execute`, and the members it assigns -/
structure Iteration where
  spAddr0 : BitVec 32
  spAddr1 : BitVec 32
  mx : BitVec 32
  ma : BitVec 32
  nreg : NativeRegisterFile
  scratchpad : Bytes
  mxcsr : BitVec 32

def Iteration.splice (n : Nat) (b : Bytes) (s : Iteration) : Iteration :=
  { s with scratchpad := Randx.splice n b s.scratchpad }

namespace Vm

/-- `randomx_vm::initialize` -/
def initialized (vm : Vm) : Vm :=
  let v := vmInitialize (Program.getEntropy vm.program)
  { vm with
    reg := { vm.reg with a := v.a }
    ma := v.ma
    mx := v.mx
    config := v.config
    datasetOffset := v.datasetOffset }

section
variable (c : RandomXConfiguration) (fpu : Fpu) (read : DatasetRead) (vm : Vm)

/-- the VM as `firstMachine` has it, in the state of an iteration -/
def interpreted (s : Iteration) : InterpretedVm :=
  { program := Program.instr vm.program
    config := vm.config
    regA := s.nreg.a
    mx := s.mx
    ma := s.ma
    scratchpad := s.scratchpad
    bytecode := vm.bytecode
    mxcsr := s.mxcsr }

def spMix (s : Iteration) : Word := s.nreg.r vm.config.readReg0 ^^^ s.nreg.r vm.config.readReg1

def lineAddr0 (s : Iteration) : BitVec 32 :=
  (s.spAddr0 ^^^ (vm.spMix s).setWidth 32) &&& c.scratchpadL3Mask64

def lineAddr1 (s : Iteration) : BitVec 32 :=
  (s.spAddr1 ^^^ (vm.spMix s >>> 32).setWidth 32) &&& c.scratchpadL3Mask64

def startMachine (s : Iteration) : Machine :=
  InterpretedVm.iterationStart c fpu (vm.interpreted s) s.spAddr0 s.spAddr1 s.nreg.r

/-- an iteration behind `executeBytecode` -/
def iterationEnd (s : Iteration) (m : Machine) : Iteration :=
  let mx := (s.mx ^^^ (m.nreg.r vm.config.readReg2 ^^^ m.nreg.r vm.config.readReg3).setWidth 32)
    &&& cacheLineAlignMask.setWidth 32
  let line := read (vm.datasetOffset + s.ma.setWidth 64)
  let r := fun i => m.nreg.r i ^^^ line i
  let f := fun i => (m.nreg.f i).xor (m.nreg.e i)
  { spAddr0 := 0
    spAddr1 := 0
    mx := s.ma
    ma := mx
    nreg := { m.nreg with r := r, f := f }
    scratchpad := storeLine (storeLine m.scratchpad (vm.lineAddr1 c s).toNat r)
      (vm.lineAddr0 c s).toNat (fltWords f)
    mxcsr := m.mxcsr }

def code : Nat → InstructionByteCode := compileProgram c (Program.instr vm.program) vm.bytecode

def iteration (s : Iteration) : Option Iteration :=
  (executeBytecode c fpu vm.config (vm.code c) (vm.startMachine c fpu s)).map
    (vm.iterationEnd c read s)

/-- in front of the loop -/
def start : Iteration :=
  { spAddr0 := vm.mx
    spAddr1 := vm.ma
    mx := vm.mx
    ma := vm.ma
    nreg := { r := fun _ => 0, f := vm.reg.f, e := vm.reg.e, a := vm.reg.a }
    scratchpad := vm.scratchpad
    mxcsr := vm.mxcsr }

/-- behind the loop: the registers go to `reg`, but for the `a` registers -/
def finish (s : Iteration) : Vm :=
  { vm with
    reg := { s.nreg with a := vm.reg.a }
    mx := s.mx
    ma := s.ma
    scratchpad := s.scratchpad
    bytecode := vm.code c
    mxcsr := s.mxcsr }

/-- `InterpretedVm::execute`, with `ProgramIterations` turns -/
def execute (iterations : Nat) : Option Vm :=
  (Loop.times (vm.iteration c fpu read) iterations vm.start).map (vm.finish c)

end

/-! ## the function returns -/

section
variable (c : RandomXConfiguration) (fpu : Fpu) (read : DatasetRead) (vm : Vm)

/-- the first turn executes what `firstRun` does -/
theorem iteration_start :
    vm.iteration c fpu read vm.start
      = ((vm.interpreted vm.start).firstRun c fpu).map (vm.iterationEnd c read vm.start) := rfl

theorem exists_iteration (s : Iteration) :
    ∃ m, vm.iteration c fpu read s = some (vm.iterationEnd c read s m) := by
  obtain ⟨m, hm, -⟩ := exists_executeBytecode c fpu vm.config (Program.instr vm.program) vm.bytecode
    (vm.startMachine c fpu s)
  exact ⟨m, by rw [iteration, code, hm, Option.map_some]⟩

theorem exists_execute (iterations : Nat) :
    ∃ s, vm.execute c fpu read iterations = some (vm.finish c s) := by
  have hstep : ∀ s, True → ∃ t, vm.iteration c fpu read s = some t ∧ True := fun s _ => by
    obtain ⟨m, hm⟩ := vm.exists_iteration c fpu read s
    exact ⟨_, hm, trivial⟩
  obtain ⟨s, hs, -⟩ := Loop.times_inv (fun _ => True) hstep iterations vm.start trivial
  exact ⟨s, by rw [execute, hs, Option.map_some]⟩

end

/-! ## the scratchpad -/

theorem storeLine_splice {n : Nat} {b m : Bytes} {a : Nat} (w : Fin 8 → Word) (h : a + 64 ≤ n) :
    storeLine (Randx.splice n b m) a w = Randx.splice n b (storeLine m a w) := by
  unfold storeLine
  induction List.finRange 8 generalizing m with
  | nil => rfl
  | cons i l ih =>
    have hi := i.isLt
    rw [List.foldl_cons, List.foldl_cons, store64_splice _ (by omega), ih]

/-- the VM with another memory from `n` on -/
def splice (n : Nat) (b : Bytes) (vm : Vm) : Vm :=
  { vm with scratchpad := Randx.splice n b vm.scratchpad }

section
variable {c : RandomXConfiguration} (hc : c.MasksWithin) (fpu : Fpu) (read : DatasetRead) (vm : Vm)
include hc

theorem line_within (x : BitVec 32) :
    (x &&& c.scratchpadL3Mask64).toNat + 64 ≤ c.scratchpadL3Size.toNat := by
  have hle : (x &&& c.scratchpadL3Mask64).toNat ≤ c.scratchpadL3Mask64.toNat := by
    rw [BitVec.toNat_and]
    exact Nat.and_le_right
  have hmask := hc.scratchpadL3Mask64
  omega

theorem lineAddr_within (s : Iteration) :
    (vm.lineAddr0 c s).toNat + 64 ≤ c.scratchpadL3Size.toNat ∧
      (vm.lineAddr1 c s).toNat + 64 ≤ c.scratchpadL3Size.toNat :=
  ⟨line_within hc _, line_within hc _⟩

theorem startMachine_splice (b : Bytes) (s : Iteration) :
    vm.startMachine c fpu (s.splice c.scratchpadL3Size.toNat b)
      = (vm.startMachine c fpu s).splice c.scratchpadL3Size.toNat b := by
  obtain ⟨h0, h1⟩ := lineAddr_within hc vm s
  have hr : ∀ i : Fin 8, load64 (Randx.splice c.scratchpadL3Size.toNat b s.scratchpad)
      ((vm.lineAddr0 c s).toNat + 8 * i) = load64 s.scratchpad ((vm.lineAddr0 c s).toNat + 8 * i) :=
    fun i => load64_splice (by omega)
  have hf : ∀ j < 8, load64 (Randx.splice c.scratchpadL3Size.toNat b s.scratchpad)
      ((vm.lineAddr1 c s).toNat + 8 * j) = load64 s.scratchpad ((vm.lineAddr1 c s).toNat + 8 * j) :=
    fun j hj => load64_splice (by omega)
  have hmachine : (vm.startMachine c fpu (s.splice c.scratchpadL3Size.toNat b)).nreg
      = (vm.startMachine c fpu s).nreg := by
    refine (NativeRegisterFile.mk.injEq ..).mpr ⟨?_, ?_, ?_, rfl⟩
    · funext i
      exact congrArg (s.nreg.r i ^^^ ·) (hr i)
    · funext i
      exact congrArg fpu.cvtepi32Pd (hf i (by omega))
    · funext i
      exact congrArg (fun x => maskRegisterExponentMantissa vm.config (fpu.cvtepi32Pd x))
        (hf (4 + i) (by omega))
  unfold Machine.splice
  rw [← hmachine]
  rfl

theorem iterationEnd_splice (b : Bytes) (s : Iteration) (m : Machine) :
    vm.iterationEnd c read (s.splice c.scratchpadL3Size.toNat b)
        (m.splice c.scratchpadL3Size.toNat b)
      = (vm.iterationEnd c read s m).splice c.scratchpadL3Size.toNat b := by
  have hline : ∀ (w w' : Fin 8 → Word), storeLine (storeLine
        (Randx.splice c.scratchpadL3Size.toNat b m.scratchpad) (vm.lineAddr1 c s).toNat w)
        (vm.lineAddr0 c s).toNat w'
      = Randx.splice c.scratchpadL3Size.toNat b
        (storeLine (storeLine m.scratchpad (vm.lineAddr1 c s).toNat w)
          (vm.lineAddr0 c s).toNat w') := fun w w' => by
    rw [storeLine_splice w (lineAddr_within hc vm s).2, storeLine_splice w' (lineAddr_within hc vm s).1]
  exact congrArg (fun x => ({ vm.iterationEnd c read s m with scratchpad := x } : Iteration))
    (hline _ _)

theorem iteration_splice (b : Bytes) (s : Iteration) :
    vm.iteration c fpu read (s.splice c.scratchpadL3Size.toNat b)
      = (vm.iteration c fpu read s).map (Iteration.splice c.scratchpadL3Size.toNat b) := by
  unfold iteration
  rw [startMachine_splice hc, code, executeBytecode_splice hc, Option.map_map, Option.map_map]
  congr 1
  funext m
  exact iterationEnd_splice hc read vm b s m

/-- **`execute` neither reads nor writes a byte behind level 3 of the scratchpad.** -/
theorem execute_splice (iterations : Nat) (b : Bytes) :
    (vm.splice c.scratchpadL3Size.toNat b).execute c fpu read iterations
      = (vm.execute c fpu read iterations).map (Vm.splice c.scratchpadL3Size.toNat b) := by
  have htimes := Loop.times_map (Iteration.splice c.scratchpadL3Size.toNat b)
    (iteration_splice hc fpu read vm b) iterations vm.start
  unfold execute
  rw [Option.map_map]
  show Option.map _ (Loop.times (vm.iteration c fpu read) iterations
    (vm.start.splice c.scratchpadL3Size.toNat b)) = _
  rw [htimes, Option.map_map]
  rfl

end

/-! ## the dataset -/

/-- an offset that `initialized` gives, and a `ma` below the base size, both at a line -/
structure DatasetRegisters (vm : Vm) (ma : BitVec 32) : Prop where
  offset_aligned : vm.datasetOffset.toNat % 64 = 0
  offset_le : vm.datasetOffset.toNat ≤ 33554368
  ma_aligned : ma.toNat % 64 = 0
  ma_lt : ma.toNat + 64 ≤ 2147483648

theorem toNat_cacheLineAlign (x : BitVec 32) :
    (x &&& cacheLineAlignMask.setWidth 32).toNat % 64 = 0 ∧
      (x &&& cacheLineAlignMask.setWidth 32).toNat + 64 ≤ 2147483648 := by
  have hand : x &&& cacheLineAlignMask.setWidth 32 = (x.extractLsb' 6 25).setWidth 32 <<< 6 := by
    apply BitVec.eq_of_getLsbD_eq
    intro i hi
    have hmask : ∀ i : Fin 32, (cacheLineAlignMask.setWidth 32).getLsbD i
        = decide (6 ≤ i.val ∧ i.val < 31) := by decide
    rw [BitVec.getLsbD_and, hmask ⟨i, hi⟩, BitVec.getLsbD_shiftLeft, BitVec.getLsbD_setWidth,
      BitVec.getLsbD_extractLsb']
    by_cases h6 : 6 ≤ i
    · rw [show 6 + (i - 6) = i by omega]
      by_cases h31 : i < 31
      · simp [h6, h31, hi, show i - 6 < 25 by omega, show i - 6 < 32 by omega]
      · simp [h31, show ¬ i - 6 < 25 by omega]
    · simp [h6]
  have hlt := (x.extractLsb' 6 25).isLt
  rw [hand, BitVec.toNat_shiftLeft, BitVec.toNat_setWidth, Nat.shiftLeft_eq]
  omega

theorem initialized_datasetRegisters (vm : Vm) :
    vm.initialized.DatasetRegisters vm.initialized.ma where
  offset_aligned := by
    show ((Program.getEntropy vm.program 13 % (datasetExtraItems + 1)) * 64).toNat % 64 = 0
    rw [BitVec.toNat_mul]
    show _ * 64 % 2 ^ 64 % 64 = 0
    omega
  offset_le := by
    show ((Program.getEntropy vm.program 13 % (datasetExtraItems + 1)) * 64).toNat ≤ 33554368
    have hlt : (Program.getEntropy vm.program 13 % (datasetExtraItems + 1)).toNat < 524288 := by
      rw [BitVec.toNat_umod]
      exact Nat.mod_lt _ (by decide)
    rw [BitVec.toNat_mul]
    show _ * 64 % 2 ^ 64 ≤ _
    omega
  ma_aligned := by
    show ((Program.getEntropy vm.program 8 &&& cacheLineAlignMask).setWidth 32).toNat % 64 = 0
    rw [BitVec.setWidth_and]
    exact (toNat_cacheLineAlign _).1
  ma_lt := by
    show ((Program.getEntropy vm.program 8 &&& cacheLineAlignMask).setWidth 32).toNat + 64 ≤ _
    rw [BitVec.setWidth_and]
    exact (toNat_cacheLineAlign _).2

section
variable {c : RandomXConfiguration} (fpu : Fpu) {read read' : DatasetRead} {vm : Vm}

theorem DatasetRegisters.address {ma : BitVec 32} (h : vm.DatasetRegisters ma) :
    DatasetAddress (vm.datasetOffset + ma.setWidth 64) := by
  have ha := h.offset_aligned
  have hle := h.offset_le
  have hma := h.ma_aligned
  have hlt := h.ma_lt
  have hsum : (vm.datasetOffset + ma.setWidth 64).toNat = vm.datasetOffset.toNat + ma.toNat := by
    rw [BitVec.toNat_add, BitVec.toNat_setWidth_of_le (by omega)]
    exact Nat.mod_eq_of_lt (by omega)
  exact ⟨by omega, by unfold datasetSize; omega⟩

theorem iteration_congr (hread : ∀ a, DatasetAddress a → read a = read' a) {s : Iteration}
    (h : vm.DatasetRegisters s.ma) :
    vm.iteration c fpu read s = vm.iteration c fpu read' s ∧
      ∀ t, vm.iteration c fpu read s = some t → vm.DatasetRegisters t.ma := by
  refine ⟨?_, fun t ht => ?_⟩
  · unfold iteration iterationEnd
    rw [hread _ h.address]
  · unfold iteration at ht
    obtain ⟨m, -, rfl⟩ := Option.map_eq_some_iff.mp ht
    have hmx := toNat_cacheLineAlign
      (s.mx ^^^ (m.nreg.r vm.config.readReg2 ^^^ m.nreg.r vm.config.readReg3).setWidth 32)
    exact ⟨h.offset_aligned, h.offset_le, hmx.1, hmx.2⟩

/-- **`execute` reads whole lines of the dataset only, all of them inside.** -/
theorem execute_congr (hread : ∀ a, DatasetAddress a → read a = read' a)
    (h : vm.DatasetRegisters vm.ma) (iterations : Nat) :
    vm.execute c fpu read iterations = vm.execute c fpu read' iterations := by
  unfold execute
  rw [Loop.times_congr (fun s => vm.DatasetRegisters s.ma)
    (fun s hs => iteration_congr fpu hread hs) iterations vm.start h]

end

/-! ## the program before -/

/-- two VMs in front of the same program; `bytecode` and the registers `r`, `f` and `e` are those
of other programs -/
structure Alike (c : RandomXConfiguration) (vm vm' : Vm) : Prop where
  instr : ∀ i < c.programSize, Program.instr vm.program i = Program.instr vm'.program i
  a : vm.reg.a = vm'.reg.a
  config : vm.config = vm'.config
  mx : vm.mx = vm'.mx
  ma : vm.ma = vm'.ma
  scratchpad : vm.scratchpad = vm'.scratchpad
  datasetOffset : vm.datasetOffset = vm'.datasetOffset
  mxcsr : vm.mxcsr = vm'.mxcsr

section
variable {c : RandomXConfiguration} {program program' : Nat → Instruction}

theorem usageAt_of_eq {i : Nat} (h : ∀ j < i, program j = program' j) :
    usageAt c program i = usageAt c program' i := by
  induction i with
  | zero => rfl
  | succ i ih =>
    unfold usageAt
    rw [ih fun j hj => h j (by omega), h i (Nat.lt_succ_self i)]

theorem executeBytecode_of_eq (fpu : Fpu) (config : ProgramConfiguration)
    (h : ∀ i < c.programSize, program i = program' i)
    (bytecode bytecode' : Nat → InstructionByteCode) (m : Machine) :
    executeBytecode c fpu config (compileProgram c program bytecode) m
      = executeBytecode c fpu config (compileProgram c program' bytecode') m := by
  refine (Loop.run_congr (fun s hd => ?_) _ _).1
  have hlt := pc_lt_of_fetch hd
  unfold fetchStep
  rw [compileProgram_eq c program bytecode hlt, compileProgram_eq c program' bytecode' hlt, h _ hlt,
    usageAt_of_eq fun j hj => h j (hj.trans hlt)]
  unfold compileInstruction
  rw [executeInstruction_gen_congr]

variable {vm vm' : Vm} (fpu : Fpu) (read : DatasetRead)

theorem Alike.iteration (h : Alike c vm vm') (s : Iteration) :
    vm.iteration c fpu read s = vm'.iteration c fpu read s := by
  have hstart : vm.startMachine c fpu s = vm'.startMachine c fpu s := by
    unfold startMachine InterpretedVm.iterationStart interpreted
    rw [h.config]
  have hend : vm.iterationEnd c read s = vm'.iterationEnd c read s := by
    funext m
    unfold iterationEnd lineAddr0 lineAddr1 spMix
    rw [h.config, h.datasetOffset]
  unfold Vm.iteration code
  rw [hstart, hend, h.config, executeBytecode_of_eq fpu vm'.config h.instr vm.bytecode vm'.bytecode]

/-- the first turn assigns the floating-point registers before it reads them -/
theorem Alike.iteration_start (h : Alike c vm vm') :
    vm'.iteration c fpu read vm'.start = vm.iteration c fpu read vm.start := by
  have hstart : vm'.start
      = { vm.start with nreg := { vm.start.nreg with f := vm'.reg.f, e := vm'.reg.e } } := by
    unfold start
    rw [h.mx, h.ma, h.a, h.scratchpad, h.mxcsr]
  rw [← h.iteration, hstart]
  rfl

/-- **Two VMs compute the same from the same program**, whatever they computed before. -/
theorem execute_alike (h : Alike c vm vm') {iterations : Nat} (hpos : 0 < iterations) :
    ∃ s, vm.execute c fpu read iterations = some (vm.finish c s) ∧
      vm'.execute c fpu read iterations = some (vm'.finish c s) := by
  obtain ⟨n, rfl⟩ : ∃ n, iterations = n + 1 := ⟨iterations - 1, by omega⟩
  have hstep : ∀ s, True → ∃ t, vm.iteration c fpu read s = some t ∧ True := fun s _ => by
    obtain ⟨m, hm⟩ := vm.exists_iteration c fpu read s
    exact ⟨_, hm, trivial⟩
  obtain ⟨s, hs, -⟩ := Loop.times_inv (fun _ => True) hstep (n + 1) vm.start trivial
  have hs' : Loop.times (vm'.iteration c fpu read) (n + 1) vm'.start = some s := by
    have hsame : vm'.iteration c fpu read = vm.iteration c fpu read :=
      (funext (h.iteration fpu read)).symm
    rw [Loop.times, h.iteration_start, hsame]
    exact hs
  exact ⟨s, by rw [execute, hs, Option.map_some], by rw [execute, hs', Option.map_some]⟩

end
end Vm
end Randx
