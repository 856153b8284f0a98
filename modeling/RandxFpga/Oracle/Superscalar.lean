import RandxFpga.Oracle.AesHash
import RandxFpga.Oracle.Blake2bStream
import RandxFpga.Oracle.Bytecode

/-!
# Superscalar instructions (`superscalar.hpp`, `superscalar.cpp`, `blake2_generator.cpp`)

An instruction is drawn from the bytes of a `Blake2Generator` for a slot of the decoder and gets its
operands later.  The function that refills the generator is a parameter, and so is the number of
draws after which a `do … while` that wants another value gives up (`none`); the pointer to an
`SuperscalarInstructionInfo` is the type that the table entry belongs to.

* `createForSlot_spec`     what is drawn for a slot fits it;
* `createForSlot_isSome`   a drawing ends when the generator is productive;
* `selectSource_spec`, `selectDestination_spec`  the operands are ready, and differ where they must;
* `exists_executeSuperscalar`   a well-formed program runs to its end.
-/

namespace Randx

/-! ## the generator of bytes -/

structure Blake2Generator where
  data : List Byte
  dataIndex : Nat

namespace Blake2Generator

def maxSeedSize : Nat := 60

/-- the size of `data` -/
def dataSize : Nat := 64

/-- the constructor -/
def ofSeed (seed : Bytes) (seedSize : Nat) (nonce : BitVec 32) : Blake2Generator where
  data := (List.range dataSize).map
    (store32 (fun j => if j < min seedSize maxSeedSize then seed j else 0) maxSeedSize nonce)
  dataIndex := dataSize

section
variable (H : List Byte → List Byte)

def checkData (bytesNeeded : Nat) (gen : Blake2Generator) : Blake2Generator :=
  if gen.dataIndex + bytesNeeded > dataSize then ⟨H gen.data, 0⟩ else gen

def getByte (gen : Blake2Generator) : Byte × Blake2Generator :=
  let gen := gen.checkData H 1
  (Blake2b.listBytes gen.data gen.dataIndex, { gen with dataIndex := gen.dataIndex + 1 })

def getUInt32 (gen : Blake2Generator) : BitVec 32 × Blake2Generator :=
  let gen := gen.checkData H 4
  (load32 (Blake2b.listBytes gen.data) gen.dataIndex, { gen with dataIndex := gen.dataIndex + 4 })

end

/-- `do x = draw(); while (again(x));` with a bound on the draws -/
def retry {α : Type} (draw : Blake2Generator → α × Blake2Generator) (again : α → Bool) :
    Nat → Blake2Generator → Option (α × Blake2Generator)
  | 0, _ => none
  | n + 1, gen =>
    let (x, gen) := draw gen
    if again x then retry draw again n gen else some (x, gen)

end Blake2Generator

open Blake2Generator

/-! ## the tables -/

inductive SuperscalarInstructionType where
  | ISUB_R | IXOR_R | IADD_RS | IMUL_R | IROR_C | IADD_C7 | IXOR_C7 | IADD_C8 | IXOR_C8 | IADD_C9
  | IXOR_C9 | IMULH_R | ISMULH_R | IMUL_RCP | INVALID
  deriving DecidableEq, Inhabited

open SuperscalarInstructionType

/-- the ports a micro-op can go to -/
abbrev ExecutionPort := BitVec 3

namespace ExecutionPort

def Null : ExecutionPort := 0
def P0 : ExecutionPort := 1
def P1 : ExecutionPort := 2
def P5 : ExecutionPort := 4
def P01 : ExecutionPort := P0 ||| P1
def P05 : ExecutionPort := P0 ||| P5
def P015 : ExecutionPort := P0 ||| P1 ||| P5

end ExecutionPort

open ExecutionPort

structure MacroOp where
  size : Nat
  latency : Nat
  uop1 : ExecutionPort
  uop2 : ExecutionPort
  dependent : Bool

namespace MacroOp

def one (size latency : Nat) (uop : ExecutionPort) : MacroOp := ⟨size, latency, uop, Null, false⟩

def Sub_rr : MacroOp := one 3 1 P015
def Xor_rr : MacroOp := one 3 1 P015
def Imul_r : MacroOp := ⟨3, 4, P1, P5, false⟩
def Mul_r : MacroOp := ⟨3, 4, P1, P5, false⟩
def Mov_rr : MacroOp := one 3 0 Null
def Lea_sib : MacroOp := one 4 1 P01
def Imul_rr : MacroOp := one 4 3 P1
def Ror_ri : MacroOp := one 4 1 P05
def Add_ri : MacroOp := one 7 1 P015
def Xor_ri : MacroOp := one 7 1 P015
def Mov_ri64 : MacroOp := one 10 1 P015

def isSimple (mop : MacroOp) : Bool := mop.uop2 == Null

def isEliminated (mop : MacroOp) : Bool := mop.uop1 == Null

end MacroOp

/-- the macro-ops, and which of them writes the result, has the destination, has the source -/
structure SuperscalarInstructionInfo where
  ops : List MacroOp
  resultOp : Int
  dstOp : Int
  srcOp : Int

namespace SuperscalarInstructionType

def info : SuperscalarInstructionType → SuperscalarInstructionInfo
  | ISUB_R => ⟨[.Sub_rr], 0, 0, 0⟩
  | IXOR_R => ⟨[.Xor_rr], 0, 0, 0⟩
  | IADD_RS => ⟨[.Lea_sib], 0, 0, 0⟩
  | IMUL_R => ⟨[.Imul_rr], 0, 0, 0⟩
  | IROR_C => ⟨[.Ror_ri], 0, 0, -1⟩
  | IADD_C7 | IADD_C8 | IADD_C9 => ⟨[.Add_ri], 0, 0, -1⟩
  | IXOR_C7 | IXOR_C8 | IXOR_C9 => ⟨[.Xor_ri], 0, 0, -1⟩
  | IMULH_R => ⟨[.Mov_rr, .Mul_r, .Mov_rr], 1, 0, 1⟩
  | ISMULH_R => ⟨[.Mov_rr, .Imul_r, .Mov_rr], 1, 0, 1⟩
  | IMUL_RCP => ⟨[.Mov_ri64, { MacroOp.Imul_rr with dependent := true }], 1, 1, -1⟩
  -- `NOP`
  | INVALID => ⟨[], 0, 0, 0⟩

/-- `getInfo().getSize()` -/
def size (t : SuperscalarInstructionType) : Nat := t.info.ops.length

/-- the value of the enumeration as an opcode -/
def opcode : SuperscalarInstructionType → Byte
  | ISUB_R => 0
  | IXOR_R => 1
  | IADD_RS => 2
  | IMUL_R => 3
  | IROR_C => 4
  | IADD_C7 => 5
  | IXOR_C7 => 6
  | IADD_C8 => 7
  | IXOR_C8 => 8
  | IADD_C9 => 9
  | IXOR_C9 => 10
  | IMULH_R => 11
  | ISMULH_R => 12
  | IMUL_RCP => 13
  | INVALID => 255

def isMultiplication (t : SuperscalarInstructionType) : Bool :=
  t == IMUL_R || t == IMULH_R || t == ISMULH_R || t == IMUL_RCP

end SuperscalarInstructionType

/-- how 16 bytes are split into slots -/
inductive DecoderBuffer where
  | buffer484 | buffer7333 | buffer3733 | buffer493 | buffer4444 | buffer3310
  deriving DecidableEq, Inhabited

namespace DecoderBuffer

def counts : DecoderBuffer → List Nat
  | buffer484 => [4, 8, 4]
  | buffer7333 => [7, 3, 3, 3]
  | buffer3733 => [3, 7, 3, 3]
  | buffer493 => [4, 9, 3]
  | buffer4444 => [4, 4, 4, 4]
  | buffer3310 => [3, 3, 10]

def index : DecoderBuffer → Nat
  | buffer484 => 0
  | buffer7333 => 1
  | buffer3733 => 2
  | buffer493 => 3
  | buffer4444 => 4
  | buffer3310 => 5

variable (H : List Byte → List Byte)

def fetchNextDefault (gen : Blake2Generator) : DecoderBuffer × Blake2Generator :=
  let (b, gen) := gen.getByte H
  (match (b &&& 3).toNat with
    | 0 => buffer484
    | 1 => buffer7333
    | 2 => buffer3733
    | _ => buffer493, gen)

def fetchNext (instrType : SuperscalarInstructionType) (cycle mulCount : Nat)
    (gen : Blake2Generator) : DecoderBuffer × Blake2Generator :=
  if instrType = IMULH_R ∨ instrType = ISMULH_R then (buffer3310, gen)
  else if mulCount < cycle + 1 then (buffer4444, gen)
  else if instrType = IMUL_RCP then
    let (b, gen) := gen.getByte H
    (if b &&& 1 ≠ 0 then buffer484 else buffer493, gen)
  else fetchNextDefault H gen

end DecoderBuffer

/-! ## an instruction on its way -/

structure RegisterInfo where
  latency : Nat
  lastOpGroup : SuperscalarInstructionType
  lastOpPar : BitVec 32

/-- `none` is the register number -1 -/
structure SuperscalarInstruction where
  info : SuperscalarInstructionType
  src : Option (Fin 8)
  dst : Option (Fin 8)
  mod : Byte
  imm32 : BitVec 32
  opGroup : SuperscalarInstructionType
  opGroupPar : BitVec 32
  canReuse : Bool
  groupParIsSource : Bool

/-- `registers` of the generator -/
abbrev RegisterInfos := Fin 8 → RegisterInfo

/-- a register number as the `int` that operations are grouped by -/
def registerPar (k : Fin 8) : BitVec 32 := BitVec.ofNat 32 k

def selectRegister (H : List Byte → List Byte) (availableRegisters : List (Fin 8))
    (gen : Blake2Generator) : Option (Fin 8 × Blake2Generator) :=
  match availableRegisters with
  | [] => none
  | [reg] => some (reg, gen)
  | _ =>
    let (x, gen) := gen.getUInt32 H
    (availableRegisters[x.toNat % availableRegisters.length]?).map fun reg => (reg, gen)

namespace SuperscalarInstruction

/-- the constant `Null` -/
def Null : SuperscalarInstruction where
  info := INVALID
  src := none
  dst := none
  mod := 0
  imm32 := 0
  opGroup := INVALID
  opGroupPar := 0
  canReuse := false
  groupParIsSource := false

def registerByte (k : Option (Fin 8)) : Byte := (k.map fun k => BitVec.ofNat 8 k).getD 255

def toInstr (c : SuperscalarInstruction) : Instruction where
  opcode := c.info.opcode
  dst := registerByte c.dst
  src := if c.src.isSome then registerByte c.src else registerByte c.dst
  mod := c.mod
  imm32 := c.imm32

section
variable (H : List Byte → List Byte) (retries : Nat)

/-- the members that `create` assigns to whatever the type is -/
def reset (c : SuperscalarInstruction) (info : SuperscalarInstructionType) :
    SuperscalarInstruction :=
  { c with
    info := info
    src := none
    dst := none
    canReuse := false
    groupParIsSource := false }

/-- `gen.getByte() & 63` -/
def rotation (gen : Blake2Generator) : BitVec 32 × Blake2Generator :=
  let (b, gen) := gen.getByte H
  ((b &&& 63).setWidth 32, gen)

def noDivisor (imm32 : BitVec 32) : Bool := isZeroOrPowerOf2 (imm32.setWidth 64)

def create (info : SuperscalarInstructionType) (c : SuperscalarInstruction)
    (gen : Blake2Generator) : Option (SuperscalarInstruction × Blake2Generator) :=
  let c := c.reset info
  match info with
  | ISUB_R =>
    some ({ c with mod := 0, imm32 := 0, opGroup := IADD_RS, groupParIsSource := true }, gen)
  | IXOR_R =>
    some ({ c with mod := 0, imm32 := 0, opGroup := IXOR_R, groupParIsSource := true }, gen)
  | IADD_RS =>
    let (mod, gen) := gen.getByte H
    some ({ c with mod := mod, imm32 := 0, opGroup := IADD_RS, groupParIsSource := true }, gen)
  | IMUL_R =>
    some ({ c with mod := 0, imm32 := 0, opGroup := IMUL_R, groupParIsSource := true }, gen)
  | IROR_C =>
    (retry (rotation H) (· == 0) retries gen).map fun (imm32, gen) =>
      ({ c with mod := 0, imm32 := imm32, opGroup := IROR_C, opGroupPar := -1 }, gen)
  | IADD_C7 | IADD_C8 | IADD_C9 =>
    let (imm32, gen) := gen.getUInt32 H
    some ({ c with mod := 0, imm32 := imm32, opGroup := IADD_C7, opGroupPar := -1 }, gen)
  | IXOR_C7 | IXOR_C8 | IXOR_C9 =>
    let (imm32, gen) := gen.getUInt32 H
    some ({ c with mod := 0, imm32 := imm32, opGroup := IXOR_C7, opGroupPar := -1 }, gen)
  | IMULH_R =>
    let (opGroupPar, gen) := gen.getUInt32 H
    some ({ c with
      canReuse := true, mod := 0, imm32 := 0, opGroup := IMULH_R, opGroupPar := opGroupPar }, gen)
  | ISMULH_R =>
    let (opGroupPar, gen) := gen.getUInt32 H
    some ({ c with
      canReuse := true, mod := 0, imm32 := 0, opGroup := ISMULH_R, opGroupPar := opGroupPar }, gen)
  | IMUL_RCP =>
    (retry (getUInt32 H) noDivisor retries gen).map fun (imm32, gen) =>
      ({ c with mod := 0, imm32 := imm32, opGroup := IMUL_RCP, opGroupPar := -1 }, gen)
  | INVALID => some (c, gen)

/-- the type that one more byte selects among two -/
def selectType (t0 t1 : SuperscalarInstructionType) (gen : Blake2Generator) :
    SuperscalarInstructionType × Blake2Generator :=
  let (b, gen) := gen.getByte H
  (if b &&& 1 = 0 then t0 else t1, gen)

/-- `slot_3L[gen.getByte() & 3]` -/
def selectLast (gen : Blake2Generator) : SuperscalarInstructionType × Blake2Generator :=
  let (b, gen) := gen.getByte H
  (match (b &&& 3).toNat with
    | 0 => ISUB_R
    | 1 => IXOR_R
    | 2 => IMULH_R
    | _ => ISMULH_R, gen)

/-- the `switch` in `createForSlot` -/
def typeForSlot (slotSize fetchType : Nat) (isLast : Bool) (gen : Blake2Generator) :
    Option (SuperscalarInstructionType × Blake2Generator) :=
  match slotSize with
  | 3 => some (if isLast then selectLast H gen else selectType H ISUB_R IXOR_R gen)
  | 4 =>
    some (if fetchType = 4 ∧ isLast = false then (IMUL_R, gen)
      else selectType H IROR_C IADD_RS gen)
  | 7 => some (selectType H IXOR_C7 IADD_C7 gen)
  | 8 => some (selectType H IXOR_C8 IADD_C8 gen)
  | 9 => some (selectType H IXOR_C9 IADD_C9 gen)
  | 10 => some (IMUL_RCP, gen)
  -- `UNREACHABLE`
  | _ => none

/-- the parameter `isFirst` of the source is not used there -/
def createForSlot (slotSize fetchType : Nat) (isLast : Bool) (c : SuperscalarInstruction)
    (gen : Blake2Generator) : Option (SuperscalarInstruction × Blake2Generator) :=
  (typeForSlot H slotSize fetchType isLast gen).bind fun (info, gen) =>
    create H retries info c gen

/-- a destination for this instruction at this cycle -/
def admits (c : SuperscalarInstruction) (cycle : Nat) (allowChainedMul : Bool)
    (registers : RegisterInfos) (i : Fin 8) : Bool :=
  decide ((registers i).latency ≤ cycle) && (c.canReuse || some i != c.src) &&
    (allowChainedMul || c.opGroup != IMUL_R || (registers i).lastOpGroup != IMUL_R) &&
    ((registers i).lastOpGroup != c.opGroup || (registers i).lastOpPar != c.opGroupPar) &&
    (c.info != IADD_RS || i != registerNeedsDisplacement)

def selectDestination (allowChainedMul : Bool) (registers : RegisterInfos) (cycle : Nat)
    (c : SuperscalarInstruction) (gen : Blake2Generator) :
    Option (SuperscalarInstruction × Blake2Generator) :=
  (selectRegister H ((List.finRange 8).filter (c.admits cycle allowChainedMul registers)) gen).map
    fun (reg, gen) => ({ c with dst := some reg }, gen)

def selectSource (registers : RegisterInfos) (cycle : Nat) (c : SuperscalarInstruction)
    (gen : Blake2Generator) : Option (SuperscalarInstruction × Blake2Generator) :=
  let availableRegisters :=
    (List.finRange 8).filter fun i => decide ((registers i).latency ≤ cycle)
  if availableRegisters.length = 2 ∧ c.info = IADD_RS ∧
      registerNeedsDisplacement ∈ availableRegisters then
    some ({ c with
      src := some registerNeedsDisplacement
      opGroupPar := registerPar registerNeedsDisplacement }, gen)
  else
    (selectRegister H availableRegisters gen).map fun (reg, gen) =>
      ({ c with
        src := some reg
        opGroupPar := if c.groupParIsSource then registerPar reg else c.opGroupPar }, gen)

end
end SuperscalarInstruction

/-! ## execution -/

structure SuperscalarProgram where
  programBuffer : List Instruction
  addressRegister : Nat
  codeSize : Nat
  macroOps : Nat
  decodeCycles : Nat
  cpuLatency : Nat
  asicLatency : Nat
  mulCount : Nat
  cpuLatencies : Fin 8 → Nat
  asicLatencies : List Nat

/-- the cases of the `switch` in `executeSuperscalar` -/
def superscalarCases : List SuperscalarInstructionType :=
  [ISUB_R, IXOR_R, IADD_RS, IMUL_R, IROR_C, IADD_C7, IXOR_C7, IADD_C8, IXOR_C8, IADD_C9, IXOR_C9,
    IMULH_R, ISMULH_R, IMUL_RCP]

/-- the new value of the destination; a reciprocal of zero divides by zero -/
def superscalarResult (t : SuperscalarInstructionType) (instr : Instruction) (dst src : Word) :
    Option Word :=
  match t with
  | ISUB_R => some (dst - src)
  | IXOR_R => some (dst ^^^ src)
  | IADD_RS => some (dst + src <<< instr.getModShift)
  | IMUL_R => some (dst * src)
  | IROR_C => some (rotr64 dst instr.imm32)
  | IADD_C7 | IADD_C8 | IADD_C9 => some (dst + signExtend2sCompl instr.imm32)
  | IXOR_C7 | IXOR_C8 | IXOR_C9 => some (dst ^^^ signExtend2sCompl instr.imm32)
  | IMULH_R => some (mulh dst src)
  | ISMULH_R => some (smulh dst src)
  | IMUL_RCP =>
    if instr.imm32 = 0 then none else some (dst * randomxReciprocal (instr.imm32.setWidth 64))
  -- `UNREACHABLE`
  | INVALID => none

/-- one turn; a register number above 7 is outside the array -/
def superscalarStep (r : Fin 8 → Word) (instr : Instruction) : Option (Fin 8 → Word) :=
  if h : instr.dst.toNat < 8 ∧ instr.src.toNat < 8 then
    (superscalarCases.find? fun t => t.opcode == instr.opcode).bind fun t =>
      (superscalarResult t instr (r ⟨instr.dst.toNat, h.1⟩) (r ⟨instr.src.toNat, h.2⟩)).map
        fun x => fun k => if k.val = instr.dst.toNat then x else r k
  else none

def executeSuperscalar (r : Fin 8 → Word) (prog : SuperscalarProgram) : Option (Fin 8 → Word) :=
  prog.programBuffer.foldlM superscalarStep r

/-! ## what is drawn -/

/-- the loops over another draw end within `retries` draws, whatever the generator holds -/
structure Productive (H : List Byte → List Byte) (retries : Nat) : Prop where
  rotation : ∀ gen, (retry (SuperscalarInstruction.rotation H) (· == 0) retries gen).isSome = true
  divisor : ∀ gen,
    (retry (getUInt32 H) SuperscalarInstruction.noDivisor retries gen).isSome = true

/-- draws that end once the data is new: at the latest when `dataIndex` has passed the old data -/
theorem retry_isSome {α : Type} {draw : Blake2Generator → α × Blake2Generator} {again : α → Bool}
    {size : Nat} (hsize : 0 < size)
    (hdraw : ∀ gen, again (draw gen).1 = true →
      gen.dataIndex + size ≤ Blake2Generator.dataSize ∧
        (draw gen).2.dataIndex = gen.dataIndex + size)
    {n : Nat} {gen : Blake2Generator} (hpos : 0 < n)
    (h : Blake2Generator.dataSize < n + gen.dataIndex) :
    (retry draw again n gen).isSome = true := by
  induction n generalizing gen with
  | zero => exact absurd hpos (Nat.lt_irrefl 0)
  | succ n ih =>
    show (if again (draw gen).1 = true then retry draw again n (draw gen).2
      else some ((draw gen).1, (draw gen).2)).isSome = true
    by_cases hagain : again (draw gen).1 = true
    · obtain ⟨hle, hindex⟩ := hdraw gen hagain
      rw [if_pos hagain]
      exact ih (by omega) (by omega)
    · rw [if_neg hagain]
      rfl

theorem productive_threes : Productive (fun _ => List.replicate 64 3) 65 where
  rotation gen := retry_isSome Nat.one_pos (fun gen hagain => by
      by_cases hfull : gen.dataIndex + 1 > Blake2Generator.dataSize
      · have hdraw : (SuperscalarInstruction.rotation (fun _ => List.replicate 64 3) gen).1 = 3 := by
          unfold SuperscalarInstruction.rotation Blake2Generator.getByte Blake2Generator.checkData
          rw [if_pos hfull]
          show (Blake2b.listBytes (List.replicate 64 3) 0 &&& 63).setWidth 32 = 3
          decide
        rw [hdraw] at hagain
        exact absurd hagain nofun
      · refine ⟨Nat.not_lt.mp hfull, ?_⟩
        unfold SuperscalarInstruction.rotation Blake2Generator.getByte Blake2Generator.checkData
        rw [if_neg hfull]) (by omega) (by unfold Blake2Generator.dataSize; omega)
  divisor gen := retry_isSome (show 0 < 4 by omega) (fun gen hagain => by
      by_cases hfull : gen.dataIndex + 4 > Blake2Generator.dataSize
      · have hdraw : (Blake2Generator.getUInt32 (fun _ => List.replicate 64 3) gen).1
            = 0x03030303 := by
          unfold Blake2Generator.getUInt32 Blake2Generator.checkData
          rw [if_pos hfull]
          show load32 (Blake2b.listBytes (List.replicate 64 3)) 0 = 0x03030303
          decide
        rw [hdraw] at hagain
        exact absurd hagain nofun
      · refine ⟨Nat.not_lt.mp hfull, ?_⟩
        unfold Blake2Generator.getUInt32 Blake2Generator.checkData
        rw [if_neg hfull]) (by omega) (by unfold Blake2Generator.dataSize; omega)

theorem retry_spec {α : Type} {draw : Blake2Generator → α × Blake2Generator} {again : α → Bool}
    {n : Nat} {gen gen' : Blake2Generator} {x : α} (h : retry draw again n gen = some (x, gen')) :
    again x = false ∧ ∃ g, (draw g).1 = x := by
  induction n generalizing gen with
  | zero => exact absurd h nofun
  | succ n ih =>
    change (if again (draw gen).1 = true then _ else _) = _ at h
    by_cases hagain : again (draw gen).1 = true
    · rw [if_pos hagain] at h
      exact ih h
    · rw [if_neg hagain] at h
      obtain ⟨rfl, -⟩ := Prod.mk.inj (Option.some.inj h)
      exact ⟨Bool.eq_false_iff.mpr hagain, gen, rfl⟩

/-- an instruction with its immediate and without its operands -/
structure SuperscalarInstruction.Drawn (t : SuperscalarInstructionType)
    (c : SuperscalarInstruction) : Prop where
  info : c.info = t
  src : c.src = none
  dst : c.dst = none
  reuse : c.canReuse = true → t = IMULH_R ∨ t = ISMULH_R
  rotation : t = IROR_C → 0 < c.imm32.toNat ∧ c.imm32.toNat < 64
  divisor : t = IMUL_RCP → SuperscalarInstruction.noDivisor c.imm32 = false

namespace SuperscalarInstruction
variable {H : List Byte → List Byte} {retries : Nat} {t : SuperscalarInstructionType}
  {c c' : SuperscalarInstruction} {gen gen' : Blake2Generator}

theorem rotation_lt (gen : Blake2Generator) : (rotation H gen).1.toNat < 64 := by
  show (((gen.getByte H).1 &&& 63).setWidth 32).toNat < 64
  rw [BitVec.toNat_setWidth_of_le (by omega), BitVec.toNat_and]
  exact Nat.lt_succ_of_le Nat.and_le_right

theorem create_spec (ht : t ≠ INVALID) (h : create H retries t c gen = some (c', gen')) :
    Drawn t c' := by
  cases t with
  | INVALID => exact absurd rfl ht
  | IROR_C =>
    obtain ⟨⟨imm32, g⟩, hretry, heq⟩ := Option.map_eq_some_iff.mp h
    obtain ⟨rfl, -⟩ := Prod.mk.inj heq
    obtain ⟨hne, g', rfl⟩ := retry_spec hretry
    refine ⟨rfl, rfl, rfl, Bool.false_ne_true.elim, fun _ => ⟨?_, rotation_lt g'⟩, nofun⟩
    exact Nat.pos_of_ne_zero fun h0 => beq_eq_false_iff_ne.mp hne (BitVec.eq_of_toNat_eq h0)
  | IMUL_RCP =>
    obtain ⟨⟨imm32, g⟩, hretry, heq⟩ := Option.map_eq_some_iff.mp h
    obtain ⟨rfl, -⟩ := Prod.mk.inj heq
    exact ⟨rfl, rfl, rfl, Bool.false_ne_true.elim, nofun, fun _ => (retry_spec hretry).1⟩
  | IMULH_R =>
    obtain ⟨rfl, -⟩ := Prod.mk.inj (Option.some.inj h)
    exact ⟨rfl, rfl, rfl, fun _ => .inl rfl, nofun, nofun⟩
  | ISMULH_R =>
    obtain ⟨rfl, -⟩ := Prod.mk.inj (Option.some.inj h)
    exact ⟨rfl, rfl, rfl, fun _ => .inr rfl, nofun, nofun⟩
  | ISUB_R | IXOR_R | IADD_RS | IMUL_R | IADD_C7 | IADD_C8 | IADD_C9 | IXOR_C7 | IXOR_C8
  | IXOR_C9 =>
    obtain ⟨rfl, -⟩ := Prod.mk.inj (Option.some.inj h)
    exact ⟨rfl, rfl, rfl, Bool.false_ne_true.elim, nofun, nofun⟩

theorem create_isSome (hH : Productive H retries) (t : SuperscalarInstructionType)
    (c : SuperscalarInstruction) (gen : Blake2Generator) :
    (create H retries t c gen).isSome = true := by
  cases t with
  | IROR_C => exact (Option.isSome_map ..).trans (hH.rotation gen)
  | IMUL_RCP => exact (Option.isSome_map ..).trans (hH.divisor gen)
  | _ => rfl

/-- the first macro-op fits the slot; only the last one of a buffer is left with more to do -/
structure Fits (t : SuperscalarInstructionType) (slotSize : Nat) (isLast : Bool) : Prop where
  real : t ≠ INVALID
  head : ∃ mop, t.info.ops[0]? = some mop ∧ mop.size ≤ slotSize
  rest : t.size = 1 ∨ (isLast = true ∧ (t = IMULH_R ∨ t = ISMULH_R)) ∨
    (slotSize = 10 ∧ t = IMUL_RCP)

theorem fits_single {t : SuperscalarInstructionType} {mop : MacroOp} {slotSize : Nat} {isLast : Bool}
    (ht : t ≠ INVALID) (h : t.info.ops = [mop]) (hle : mop.size ≤ slotSize) :
    Fits t slotSize isLast where
  real := ht
  head := ⟨mop, by rw [h]; rfl, hle⟩
  rest := .inl (congrArg List.length h)

theorem selectType_cases (t0 t1 : SuperscalarInstructionType) (gen : Blake2Generator) :
    (selectType H t0 t1 gen).1 = t0 ∨ (selectType H t0 t1 gen).1 = t1 := by
  show (if _ then t0 else t1) = t0 ∨ (if _ then t0 else t1) = t1
  split
  · exact .inl rfl
  · exact .inr rfl

theorem selectLast_fits (gen : Blake2Generator) : Fits (selectLast H gen).1 3 true := by
  unfold selectLast
  dsimp only
  split
  · exact fits_single (by decide) rfl (Nat.le_refl 3)
  · exact fits_single (by decide) rfl (Nat.le_refl 3)
  · exact ⟨by decide, ⟨_, rfl, Nat.le_refl 3⟩, .inr (.inl ⟨rfl, .inl rfl⟩)⟩
  · exact ⟨by decide, ⟨_, rfl, Nat.le_refl 3⟩, .inr (.inl ⟨rfl, .inr rfl⟩)⟩

theorem selectType_fits {t0 t1 : SuperscalarInstructionType} {slotSize : Nat} {isLast : Bool}
    (h0 : Fits t0 slotSize isLast) (h1 : Fits t1 slotSize isLast) (gen : Blake2Generator) :
    Fits (selectType H t0 t1 gen).1 slotSize isLast := by
  obtain h | h := selectType_cases (H := H) t0 t1 gen
  · rwa [h]
  · rwa [h]

/-- the sizes of the slots -/
def slotSizes : List Nat := [3, 4, 7, 8, 9, 10]

theorem typeForSlot_fits (H : List Byte → List Byte) {slotSize : Nat} (hslot : slotSize ∈ slotSizes)
    (fetchType : Nat) (isLast : Bool) (gen : Blake2Generator) :
    ∃ p, typeForSlot H slotSize fetchType isLast gen = some p ∧ Fits p.1 slotSize isLast := by
  obtain rfl | rfl | rfl | rfl | rfl | rfl : slotSize = 3 ∨ slotSize = 4 ∨ slotSize = 7 ∨
      slotSize = 8 ∨ slotSize = 9 ∨ slotSize = 10 := by simpa [slotSizes] using hslot
  · refine ⟨_, rfl, ?_⟩
    have hsub : Fits ISUB_R 3 false := fits_single (by decide) rfl (Nat.le_refl 3)
    have hxor : Fits IXOR_R 3 false := fits_single (by decide) rfl (Nat.le_refl 3)
    cases isLast with
    | true => exact selectLast_fits gen
    | false => exact selectType_fits hsub hxor gen
  · refine ⟨_, rfl, ?_⟩
    have hmul : Fits IMUL_R 4 isLast := fits_single (by decide) rfl (Nat.le_refl 4)
    have hror : Fits IROR_C 4 isLast := fits_single (by decide) rfl (Nat.le_refl 4)
    have hlea : Fits IADD_RS 4 isLast := fits_single (by decide) rfl (Nat.le_refl 4)
    by_cases hfirst : fetchType = 4 ∧ isLast = false
    · rwa [if_pos hfirst]
    · rw [if_neg hfirst]
      exact selectType_fits hror hlea gen
  · have hxor : Fits IXOR_C7 7 isLast := fits_single (by decide) rfl (Nat.le_refl 7)
    have hadd : Fits IADD_C7 7 isLast := fits_single (by decide) rfl (Nat.le_refl 7)
    exact ⟨_, rfl, selectType_fits hxor hadd gen⟩
  · have hxor : Fits IXOR_C8 8 isLast := fits_single (by decide) rfl (show 7 ≤ 8 by omega)
    have hadd : Fits IADD_C8 8 isLast := fits_single (by decide) rfl (show 7 ≤ 8 by omega)
    exact ⟨_, rfl, selectType_fits hxor hadd gen⟩
  · have hxor : Fits IXOR_C9 9 isLast := fits_single (by decide) rfl (show 7 ≤ 9 by omega)
    have hadd : Fits IADD_C9 9 isLast := fits_single (by decide) rfl (show 7 ≤ 9 by omega)
    exact ⟨_, rfl, selectType_fits hxor hadd gen⟩
  · have hrcp : IMUL_RCP ≠ INVALID := by decide
    exact ⟨_, rfl, hrcp, ⟨_, rfl, Nat.le_refl 10⟩, .inr (.inr ⟨rfl, rfl⟩)⟩

/-- **An instruction drawn for a slot fits it and gets an immediate it can be executed with.** -/
theorem createForSlot_spec {slotSize fetchType : Nat} {isLast : Bool} (hslot : slotSize ∈ slotSizes)
    (h : createForSlot H retries slotSize fetchType isLast c gen = some (c', gen')) :
    ∃ t, Fits t slotSize isLast ∧ Drawn t c' := by
  obtain ⟨p, hp, hfits⟩ := typeForSlot_fits H hslot fetchType isLast gen
  rw [createForSlot, hp] at h
  exact ⟨p.1, hfits, create_spec hfits.real h⟩

theorem createForSlot_isSome (hH : Productive H retries) {slotSize fetchType : Nat}
    {isLast : Bool} (hslot : slotSize ∈ slotSizes) (c : SuperscalarInstruction)
    (gen : Blake2Generator) :
    (createForSlot H retries slotSize fetchType isLast c gen).isSome = true := by
  obtain ⟨p, hp, -⟩ := typeForSlot_fits H hslot fetchType isLast gen
  rw [createForSlot, hp]
  exact create_isSome hH p.1 c p.2

/-! ### operands -/

theorem mem_of_selectRegister {l : List (Fin 8)} {reg : Fin 8}
    (h : selectRegister H l gen = some (reg, gen')) : reg ∈ l := by
  unfold selectRegister at h
  split at h
  · exact absurd h nofun
  · obtain ⟨rfl, -⟩ := Prod.mk.inj (Option.some.inj h)
    exact List.mem_singleton_self _
  · obtain ⟨r, hr, heq⟩ := Option.map_eq_some_iff.mp h
    obtain ⟨rfl, -⟩ := Prod.mk.inj heq
    exact List.mem_of_getElem? hr

/-- what operand selection leaves as it was -/
structure SameDraw (c c' : SuperscalarInstruction) : Prop where
  info : c'.info = c.info
  mod : c'.mod = c.mod
  imm32 : c'.imm32 = c.imm32
  canReuse : c'.canReuse = c.canReuse

theorem selectSource_spec {registers : RegisterInfos} {cycle : Nat}
    (h : selectSource H registers cycle c gen = some (c', gen')) :
    SameDraw c c' ∧ c'.dst = c.dst ∧
      ∃ k, c'.src = some k ∧ (registers k).latency ≤ cycle := by
  have hready : ∀ k ∈ (List.finRange 8).filter fun i => decide ((registers i).latency ≤ cycle),
      (registers k).latency ≤ cycle := fun k hk => of_decide_eq_true (List.mem_filter.mp hk).2
  unfold selectSource at h
  dsimp only at h
  split at h
  · rename_i hcond
    obtain ⟨rfl, -⟩ := Prod.mk.inj (Option.some.inj h)
    exact ⟨⟨rfl, rfl, rfl, rfl⟩, rfl, _, rfl, hready _ hcond.2.2⟩
  · obtain ⟨⟨reg, g⟩, hreg, heq⟩ := Option.map_eq_some_iff.mp h
    obtain ⟨rfl, -⟩ := Prod.mk.inj heq
    exact ⟨⟨rfl, rfl, rfl, rfl⟩, rfl, _, rfl, hready _ (mem_of_selectRegister hreg)⟩

theorem selectDestination_spec {registers : RegisterInfos} {cycle : Nat} {allowChainedMul : Bool}
    (h : selectDestination H allowChainedMul registers cycle c gen = some (c', gen')) :
    SameDraw c c' ∧ c'.src = c.src ∧
      ∃ k, c'.dst = some k ∧ c.admits cycle allowChainedMul registers k = true := by
  obtain ⟨⟨reg, g⟩, hreg, heq⟩ := Option.map_eq_some_iff.mp h
  obtain ⟨rfl, -⟩ := Prod.mk.inj heq
  exact ⟨⟨rfl, rfl, rfl, rfl⟩, rfl, reg, rfl, (List.mem_filter.mp (mem_of_selectRegister hreg)).2⟩

theorem admits_spec {cycle : Nat} {allowChainedMul : Bool} {registers : RegisterInfos} {k : Fin 8}
    (h : c.admits cycle allowChainedMul registers k = true) :
    (registers k).latency ≤ cycle ∧ (c.canReuse = false → c.src ≠ some k) ∧
      (c.info = IADD_RS → k ≠ registerNeedsDisplacement) := by
  unfold admits at h
  simp only [Bool.and_eq_true, Bool.or_eq_true, decide_eq_true_eq, bne_iff_ne, ne_eq] at h
  obtain ⟨⟨⟨⟨hready, hreuse⟩, -⟩, -⟩, hlea⟩ := h
  refine ⟨hready, fun hc hsrc => ?_, fun hinfo => ?_⟩
  · obtain hreuse | hreuse := hreuse
    · exact absurd (hc.symm.trans hreuse) Bool.false_ne_true
    · exact hreuse hsrc.symm
  · obtain hlea | hlea := hlea
    · exact absurd hinfo hlea
    · exact hlea

end SuperscalarInstruction

/-! ## programs that run -/

/-- an instruction of this type that can be executed, and that does not depend on itself -/
structure Instruction.IsSuperscalar (t : SuperscalarInstructionType) (instr : Instruction) :
    Prop where
  real : t ≠ INVALID
  opcode : instr.opcode = t.opcode
  dst_lt : instr.dst.toNat < 8
  src_lt : instr.src.toNat < 8
  distinct : t = ISUB_R ∨ t = IXOR_R ∨ t = IADD_RS ∨ t = IMUL_R → instr.src ≠ instr.dst
  displacement : t = IADD_RS → instr.dst.toNat ≠ registerNeedsDisplacement
  rotation : t = IROR_C → 0 < instr.imm32.toNat ∧ instr.imm32.toNat < 64
  divisor : t = IMUL_RCP → SuperscalarInstruction.noDivisor instr.imm32 = false

theorem find_opcode {t : SuperscalarInstructionType} (ht : t ≠ INVALID) :
    superscalarCases.find? (fun t' => t'.opcode == t.opcode) = some t := by
  cases t with
  | INVALID => exact absurd rfl ht
  | _ => rfl

theorem exists_superscalarStep {t : SuperscalarInstructionType} {instr : Instruction}
    (h : instr.IsSuperscalar t) (r : Fin 8 → Word) : ∃ r', superscalarStep r instr = some r' := by
  have hresult : ∀ dst src, ∃ x, superscalarResult t instr dst src = some x := by
    intro dst src
    cases t with
    | INVALID => exact absurd rfl h.real
    | IMUL_RCP =>
      have hne : instr.imm32 ≠ 0 := fun h0 => by
        have hdiv := h.divisor rfl
        rw [h0] at hdiv
        exact absurd hdiv (by decide)
      exact ⟨_, if_neg hne⟩
    | _ => exact ⟨_, rfl⟩
  obtain ⟨x, hx⟩ := hresult (r ⟨instr.dst.toNat, h.dst_lt⟩) (r ⟨instr.src.toNat, h.src_lt⟩)
  refine ⟨fun k => if k.val = instr.dst.toNat then x else r k, ?_⟩
  rw [superscalarStep, dif_pos ⟨h.dst_lt, h.src_lt⟩, h.opcode, find_opcode h.real, Option.bind_some,
    hx, Option.map_some]

theorem exists_superscalarSteps {l : List Instruction} (h : ∀ instr ∈ l, ∃ t, instr.IsSuperscalar t)
    (r : Fin 8 → Word) : ∃ r', l.foldlM superscalarStep r = some r' := by
  induction l generalizing r with
  | nil => exact ⟨r, rfl⟩
  | cons instr l ih =>
    obtain ⟨t, ht⟩ := h instr List.mem_cons_self
    obtain ⟨r', hr'⟩ := exists_superscalarStep ht r
    obtain ⟨r'', hr''⟩ := ih (fun x hx => h x (List.mem_cons_of_mem _ hx)) r'
    exact ⟨r'', by rw [List.foldlM_cons, hr']; exact hr''⟩

/-- **A program of such instructions runs to its end.** -/
theorem exists_executeSuperscalar {prog : SuperscalarProgram}
    (h : ∀ instr ∈ prog.programBuffer, ∃ t, instr.IsSuperscalar t) (r : Fin 8 → Word) :
    ∃ r', executeSuperscalar r prog = some r' := exists_superscalarSteps h r

end Randx
