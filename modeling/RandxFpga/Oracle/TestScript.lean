import RandxFpga.Oracle.LowEq
import RandxFpga.Text.Hex

/-!
# The oracle driver (`test_script.cpp`)

`main` loads a program and a scratchpad from two text files, runs the program once and writes the
scratchpad to a third file.  It never applies a configuration, so `RandomX_CurrentConfig` is
`RandomXConfiguration.base`.

Storage that `main` reads without having assigned it is a parameter: `Uninit`, and the floating-point
state `FltState`, of which `main` leaves `eMask` unassigned.  A text file is its list of characters.
A loader stops with a `Fault`: an exception of `substr` or `stoi`, or a store outside its buffer.

* `testScript_noninterference`   the result does not depend on the floating-point state.
-/

namespace Randx
open HexText

inductive Fault where
  | outOfRange | invalidArgument | outOfBounds | unreachable
  deriving DecidableEq

def scratchpadBytes : Nat := 2097152

/-! ## the loaders -/

/-- `line.substr(pos, n)` -/
def substr (line : List Char) (pos n : Nat) : Except Fault (List Char) :=
  if line.length < pos then .error .outOfRange else .ok ((line.drop pos).take n)

/-- `std::stoi(s, 0, 16)` and `std::stol(s, 0, 16)` for a result type of `w` bits -/
def stoi (w : Nat) (s : List Char) : Except Fault Int :=
  match strtol16 s with
  | none => .error .invalidArgument
  | some v => if -2 ^ (w - 1) ≤ v ∧ v < 2 ^ (w - 1) then .ok v else .error .outOfRange

def loadInstruction (line : List Char) : Except Fault Instruction := do
  let imm32 ← stoi 64 (← substr line 0 8)
  let mod ← stoi 32 (← substr line 8 2)
  let src ← stoi 32 (← substr line 10 2)
  let dst ← stoi 32 (← substr line 12 2)
  let opcode ← stoi 32 (← substr line 14 2)
  return ⟨.ofInt 8 opcode, .ofInt 8 dst, .ofInt 8 src, .ofInt 8 mod, .ofInt 32 imm32⟩

/-- the loop over the lines of the program, from `prog_index` -/
def loadProgramFrom (instructions : Nat → Instruction) (progIndex : Nat) :
    List (List Char) → Except Fault (Nat → Instruction)
  | [] => .ok instructions
  | line :: ls => do
    let instr ← loadInstruction line
    if progIndex < programMaxSize then
      loadProgramFrom (Function.update instructions progIndex instr) (progIndex + 1) ls
    else .error .outOfBounds

def loadByte (line : List Char) (scratchpadIndex : Nat) (m : Bytes) (byteIndex : Nat) :
    Except Fault Bytes := do
  let byteData ← stoi 32 (← substr line (byteIndex * 2) 2)
  let a := scratchpadIndex * 8 + byteIndex
  if a < scratchpadBytes then .ok (Function.update m a (.ofInt 8 byteData)) else .error .outOfBounds

/-- the loop over the lines of the scratchpad, from `scratchpad_index` -/
def loadScratchpadFrom (m : Bytes) (scratchpadIndex : Nat) :
    List (List Char) → Except Fault Bytes
  | [] => .ok m
  | line :: ls => do
    let m ← (List.range 8).foldlM (loadByte line scratchpadIndex) m
    loadScratchpadFrom m (scratchpadIndex + 1) ls

/-! ## the dump -/

/-- line `i` of the final file: the bytes of word `i`, lowest address first -/
def dumpLine (m : Bytes) (i : Nat) : List Char :=
  (List.range 8).flatMap fun byteIndex => digits 2 (m (i * 8 + byteIndex)).toNat

def dump (m : Bytes) : List Char := unlines ((List.range (scratchpadBytes / 8)).map (dumpLine m))

/-! ## `main` -/

/-- storage that `main` reads without having assigned it -/
structure Uninit where
  instructions : Nat → Instruction
  scratchpad : Bytes
  bytecode : Nat → InstructionByteCode

structure FltState where
  config : ProgramConfiguration
  f : Fin 4 → VecF128
  e : Fin 4 → VecF128
  a : Fin 4 → VecF128
  mxcsr : BitVec 32
  deriving Inhabited

/-- "Hardcoded for testing" -/
def spAddr0 : Nat := 128

def spAddr1 : Nat := 256

def initR (scratchpad : Bytes) : Fin 8 → Word :=
  fun i => 0 ^^^ load64 scratchpad (spAddr0 + 8 * i)

/-- the floating-point registers that `main` sets; the doubles `1.25` and `1.75` in `a` -/
def initFlt (fpu : Fpu) (config : ProgramConfiguration) (mxcsr : BitVec 32) (scratchpad : Bytes) :
    FltState where
  config := config
  f := fun i => cvtPackedInt fpu scratchpad (spAddr1 + 8 * i)
  e := fun i =>
    maskRegisterExponentMantissa config (cvtPackedInt fpu scratchpad (spAddr1 + 8 * (4 + i)))
  a := fun _ => ⟨0x3FF4000000000000, 0x3FFC000000000000⟩
  mxcsr := mxcsr

/-- the machine when `executeBytecode` is called -/
def initMachine (scratchpad : Bytes) (s : FltState) : Machine :=
  ⟨0, ⟨initR scratchpad, s.f, s.e, s.a⟩, scratchpad, s.mxcsr⟩

/-- what a run shows: the executed program counters, each with the integer registers after its
step, and the final file -/
structure Outcome where
  trace : List (Int × (Fin 8 → Word))
  final : List Char

section
variable (fpu : Fpu) (s : FltState) (bytecode : Nat → InstructionByteCode)
  (program : Nat → Instruction) (scratchpad : Bytes)

def runLoaded : Option Machine :=
  executeBytecode .base fpu s.config (compileProgram .base program bytecode)
    (initMachine scratchpad s)

def traceLoaded : List (Machine × Machine) :=
  executeTrace .base fpu s.config (compileProgram .base program bytecode)
    (3 * RandomXConfiguration.base.programSize) (initMachine scratchpad s)

end

/-- `main` from any floating-point state `flt` in place of the one it computes -/
def testScript (fpu : Fpu) (flt : Bytes → FltState) (u : Uninit)
    (programFile scratchpadFile : List Char) : Except Fault Outcome := do
  let program ← loadProgramFrom u.instructions 0 (getlines programFile)
  let scratchpad ← loadScratchpadFrom u.scratchpad 0 (getlines scratchpadFile)
  match runLoaded fpu (flt scratchpad) u.bytecode program scratchpad with
  | none => .error .unreachable
  | some m =>
    let steps := traceLoaded fpu (flt scratchpad) u.bytecode program scratchpad
    .ok ⟨steps.map fun p => (p.1.pc, p.2.nreg.r), dump m.scratchpad⟩

def main (fpu : Fpu) (config : ProgramConfiguration) (mxcsr : BitVec 32) (u : Uninit)
    (programFile scratchpadFile : List Char) : Except Fault Outcome :=
  testScript fpu (initFlt fpu config mxcsr) u programFile scratchpadFile

/-! ## the floating-point state does not show -/

theorem runLoaded_lowEq (fpu fpu' : Fpu) (s s' : FltState) (bytecode : Nat → InstructionByteCode)
    (program : Nat → Instruction) (scratchpad : Bytes) :
    Option.Rel LowEq (runLoaded fpu s bytecode program scratchpad)
        (runLoaded fpu' s' bytecode program scratchpad) ∧
      List.Forall₂ (fun p q => LowEq p.1 q.1 ∧ LowEq p.2 q.2)
        (traceLoaded fpu s bytecode program scratchpad)
        (traceLoaded fpu' s' bytecode program scratchpad) := by
  unfold runLoaded traceLoaded
  exact executeBytecode_lowEq .base .base fpu fpu' s.config s'.config rfl
    (fun _ _ => SameUpToMask.refl _) ⟨rfl, rfl, rfl⟩ (fun _ _ => rfl) (fun _ _ _ => rfl)

theorem map_eq_of_lowEq {l l' : List (Machine × Machine)}
    (h : List.Forall₂ (fun p q => LowEq p.1 q.1 ∧ LowEq p.2 q.2) l l') :
    l.map (fun p => (p.1.pc, p.2.nreg.r)) = l'.map fun p => (p.1.pc, p.2.nreg.r) := by
  induction h with
  | nil => rfl
  | cons hpq _ ih => rw [List.map_cons, List.map_cons, ih, hpq.1.pc, hpq.2.r]

/-- **The executed program counters, the integer registers after every step and the final file are
the same from any two floating-point states.** -/
theorem testScript_noninterference (fpu fpu' : Fpu) (flt flt' : Bytes → FltState) (u : Uninit)
    (programFile scratchpadFile : List Char) :
    testScript fpu flt u programFile scratchpadFile
      = testScript fpu' flt' u programFile scratchpadFile := by
  unfold testScript
  refine bind_congr fun program => bind_congr fun scratchpad => ?_
  obtain ⟨hm, hsteps⟩ := runLoaded_lowEq fpu fpu' (flt scratchpad) (flt' scratchpad) u.bytecode
    program scratchpad
  have htrace := map_eq_of_lowEq hsteps
  revert hm
  cases runLoaded fpu (flt scratchpad) u.bytecode program scratchpad with
  | none =>
    cases runLoaded fpu' (flt' scratchpad) u.bytecode program scratchpad with
    | none => exact fun _ => rfl
    | some n => exact fun hm => nomatch hm
  | some m =>
    cases runLoaded fpu' (flt' scratchpad) u.bytecode program scratchpad with
    | none => exact fun hm => nomatch hm
    | some n =>
      intro hm
      have hmn : LowEq m n := by cases hm; assumption
      dsimp only
      rw [htrace, hmn.scratchpad]

end Randx
