import RandxFpga.Oracle.Superscalar
import RandxFpga.Run.Loop

/-!
# The generator of superscalar programs (`generateSuperscalar` in `superscalar.cpp`)

Every cycle fetches a decoder buffer and fills its slots with macro-ops, which are scheduled to the
ports of the processor.  An instruction of several macro-ops goes on in the next buffer
(`Carried`), whose first slots it fits.

* `slotStep_inv`     what a turn of the inner loop keeps (`AtSlot`), and that it comes nearer the end;
* `cycleStep_inv`    what a decode cycle keeps;
* `generateSuperscalar_wellFormed`   the program can be executed, is not too long, and needs no more
                     code than the decoder fetches;
* `generateSuperscalar_isSome`       the loops end.
-/

namespace Randx
open SuperscalarInstructionType SuperscalarInstruction

/-! ## ports -/

/-- the micro-op in each cycle at the ports 0, 1 and 5 -/
abbrev PortBusy := Nat → Nat → ExecutionPort

section
variable (superscalarLatency : Nat)

/-- the order is P5, P0, P1 -/
def freePort (uop : ExecutionPort) (portBusy : PortBusy) (cycle : Nat) : Option Nat :=
  if uop &&& .P5 ≠ 0 ∧ portBusy cycle 2 = .Null then some 2
  else if uop &&& .P0 ≠ 0 ∧ portBusy cycle 0 = .Null then some 0
  else if uop &&& .P1 ≠ 0 ∧ portBusy cycle 1 = .Null then some 1
  else none

/-- `n` turns of the loop over the cycles -/
def scheduleUopTurns (uop : ExecutionPort) (portBusy : PortBusy) :
    Nat → Nat → Option (Nat × PortBusy)
  | 0, _ => none
  | n + 1, cycle =>
    match freePort uop portBusy cycle with
    | some port =>
      some (cycle, fun c p => if c = cycle ∧ p = port then uop else portBusy c p)
    | none => scheduleUopTurns uop portBusy n (cycle + 1)

/-- the cycle, and the ports behind `scheduleUop<true>`; `none` is -1 -/
def scheduleUop (uop : ExecutionPort) (portBusy : PortBusy) (cycle : Nat) :
    Option (Nat × PortBusy) :=
  scheduleUopTurns uop portBusy (superscalarLatency + 4 - cycle) cycle

/-- the loop for two micro-ops, which have to go in one cycle -/
def schedulePairTurns (mop : MacroOp) (portBusy : PortBusy) : Nat → Nat → Option (Nat × PortBusy)
  | 0, _ => none
  | n + 1, cycle =>
    let cycle1 := (scheduleUop superscalarLatency mop.uop1 portBusy cycle).map Prod.fst
    let cycle2 := (scheduleUop superscalarLatency mop.uop2 portBusy cycle).map Prod.fst
    match cycle1 with
    | some c =>
      if cycle1 = cycle2 then
        let portBusy := (scheduleUop superscalarLatency mop.uop1 portBusy c).elim portBusy Prod.snd
        some (c, (scheduleUop superscalarLatency mop.uop2 portBusy c).elim portBusy Prod.snd)
      else schedulePairTurns mop portBusy n (cycle + 1)
    | none => schedulePairTurns mop portBusy n (cycle + 1)

def scheduleMop (mop : MacroOp) (portBusy : PortBusy) (cycle depCycle : Nat) :
    Option (Nat × PortBusy) :=
  let cycle := if mop.dependent then max cycle depCycle else cycle
  if mop.isEliminated then some (cycle, portBusy)
  else if mop.isSimple then scheduleUop superscalarLatency mop.uop1 portBusy cycle
  else schedulePairTurns superscalarLatency mop portBusy (superscalarLatency + 4 - cycle) cycle

end

/-! ## the inner loop -/

/-- the variables of `generateSuperscalar` that outlive a decode cycle -/
structure GeneratorState where
  gen : Blake2Generator
  portBusy : PortBusy
  registers : RegisterInfos
  currentInstruction : SuperscalarInstruction
  macroOpIndex : Nat
  codeSize : Nat
  macroOpCount : Nat
  cycle : Nat
  depCycle : Nat
  retireCycle : Nat
  portsSaturated : Bool
  programBuffer : List Instruction
  mulCount : Nat
  throwAwayCount : Nat

/-- the inner loop; `left` is its `break` -/
structure Slots where
  state : GeneratorState
  bufferIndex : Nat
  left : Bool

/-- an instruction that waits for operands -/
structure Operands where
  instr : SuperscalarInstruction
  gen : Blake2Generator
  scheduleCycle : Nat
  cycle : Nat

def lookForwardCycles : Nat := 4

def maxThrowawayCount : Nat := 256

/-- `3 * SuperscalarLatency + 2` -/
def programLimit (superscalarLatency : Nat) : Nat := 3 * superscalarLatency + 2

/-- the operation of an instruction that is due has this number -/
def GeneratorState.isOp (s : GeneratorState) (op : Int) : Bool := decide ((s.macroOpIndex : Int) = op)

/-- the loop over `forward`; an error when no register was found -/
def lookForward (select : Nat → SuperscalarInstruction → Blake2Generator →
      Option (SuperscalarInstruction × Blake2Generator)) : Nat → Operands → Except Operands Operands
  | 0, o => .error o
  | n + 1, o =>
    match select o.scheduleCycle o.instr o.gen with
    | some (instr, gen) => .ok { o with instr := instr, gen := gen }
    | none =>
      lookForward select n { o with scheduleCycle := o.scheduleCycle + 1, cycle := o.cycle + 1 }

section
variable (H : List Byte → List Byte) (retries superscalarLatency : Nat)

/-- source and destination, where this macro-op has them -/
def selectOperands (s : GeneratorState) (scheduleCycle : Nat) : Except Operands Operands :=
  let info := s.currentInstruction.info.info
  let source := fun o =>
    if s.isOp info.srcOp then lookForward (selectSource H s.registers) lookForwardCycles o
    else .ok o
  let destination := fun o =>
    if s.isOp info.dstOp then
      lookForward (selectDestination H (decide (s.throwAwayCount > 0)) s.registers)
        lookForwardCycles o
    else .ok o
  (source ⟨s.currentInstruction, s.gen, scheduleCycle, s.cycle⟩).bind destination

/-- no operand: another instruction, or the end of this buffer -/
def throwAway (s : GeneratorState) (o : Operands) (bufferIndex : Nat) : Slots :=
  let s := { s with currentInstruction := o.instr, gen := o.gen, cycle := o.cycle }
  if s.throwAwayCount < maxThrowawayCount then
    ⟨{ s with
      throwAwayCount := s.throwAwayCount + 1
      macroOpIndex := s.currentInstruction.info.size }, bufferIndex, false⟩
  else ⟨{ s with currentInstruction := Null }, bufferIndex, true⟩

/-- the registers when the result is written; the register number -1 is outside the array -/
def retire (s : GeneratorState) : Option RegisterInfos :=
  let c := s.currentInstruction
  if s.isOp c.info.info.resultOp then
    c.dst.map fun dst k => if k = dst then ⟨s.depCycle, c.opGroup, c.opGroupPar⟩ else s.registers k
  else some s.registers

/-- when all macro-ops are issued the instruction goes into the program -/
def finishInstruction (s : GeneratorState) : GeneratorState :=
  let c := s.currentInstruction
  if c.info.size ≤ s.macroOpIndex then
    { s with
      programBuffer := s.programBuffer ++ [c.toInstr]
      mulCount := s.mulCount + c.info.isMultiplication.toNat }
  else s

/-- the macro-op with its operands -/
def issueMop (mop : MacroOp) (topCycle : Nat) (s : GeneratorState) (o : Operands)
    (bufferIndex : Nat) : Option Slots :=
  let s := { s with
    currentInstruction := o.instr
    gen := o.gen
    cycle := o.cycle
    throwAwayCount := 0 }
  match scheduleMop superscalarLatency mop s.portBusy o.scheduleCycle o.scheduleCycle with
  | none => some ⟨{ s with portsSaturated := true }, bufferIndex, true⟩
  | some (scheduleCycle, portBusy) =>
    let s := { s with portBusy := portBusy, depCycle := scheduleCycle + mop.latency }
    (retire s).map fun registers =>
      ⟨finishInstruction { s with
        registers := registers
        retireCycle :=
          if s.isOp s.currentInstruction.info.info.resultOp then s.depCycle else s.retireCycle
        codeSize := s.codeSize + mop.size
        macroOpIndex := s.macroOpIndex + 1
        macroOpCount := s.macroOpCount + 1
        portsSaturated := s.portsSaturated || decide (superscalarLatency ≤ scheduleCycle)
        cycle := topCycle }, bufferIndex + 1, false⟩

/-- the next macro-op of the instruction; one that the table does not have is outside the array -/
def issueNext (s : GeneratorState) (bufferIndex : Nat) : Option Slots :=
  s.currentInstruction.info.info.ops[s.macroOpIndex]?.bind fun mop =>
    match scheduleMop superscalarLatency mop s.portBusy s.cycle s.depCycle with
    | none => some ⟨{ s with portsSaturated := true }, bufferIndex, true⟩
    | some (scheduleCycle, _) =>
      match selectOperands H s scheduleCycle with
      | .error o => some (throwAway s o bufferIndex)
      | .ok o => issueMop superscalarLatency mop s.cycle s o bufferIndex

/-- a new instruction when all macro-ops of the current one have been issued -/
def nextInstruction (buf : DecoderBuffer) (s : GeneratorState) (bufferIndex : Nat) :
    Option GeneratorState :=
  if s.currentInstruction.info.size ≤ s.macroOpIndex then
    buf.counts[bufferIndex]?.bind fun slotSize =>
      (createForSlot H retries slotSize buf.index (decide (buf.counts.length = bufferIndex + 1))
        s.currentInstruction s.gen).map fun (c, gen) =>
          { s with currentInstruction := c, gen := gen, macroOpIndex := 0 }
  else some s

/-- a turn of the inner loop -/
def slotStep (buf : DecoderBuffer) (x : Slots) : Option Slots :=
  let s := x.state
  if s.currentInstruction.info.size ≤ s.macroOpIndex ∧
      (s.portsSaturated = true ∨ programLimit superscalarLatency ≤ s.programBuffer.length) then
    some { x with left := true }
  else
    (nextInstruction H retries buf s x.bufferIndex).bind fun s =>
      issueNext H superscalarLatency s x.bufferIndex

def slotsDone (buf : DecoderBuffer) (x : Slots) : Bool :=
  x.left || decide (buf.counts.length ≤ x.bufferIndex)

/-- a bound on the turns of the inner loop -/
def slotTurns (buf : DecoderBuffer) : Nat := (maxThrowawayCount + 1) * (buf.counts.length + 1)

/-! ## the program -/

/-- a turn of the outer loop -/
def cycleStep (x : GeneratorState × Nat) : Option (GeneratorState × Nat) :=
  let (s, decodeCycle) := x
  let (buf, gen) := DecoderBuffer.fetchNext H s.currentInstruction.info decodeCycle s.mulCount s.gen
  (Loop.run (slotsDone buf) (slotStep H retries superscalarLatency buf) (slotTurns buf)
    ⟨{ s with gen := gen }, 0, false⟩).map fun x =>
      ({ x.state with cycle := x.state.cycle + 1 }, decodeCycle + 1)

def cyclesDone (x : GeneratorState × Nat) : Bool :=
  decide (superscalarLatency ≤ x.2) || x.1.portsSaturated ||
    decide (programLimit superscalarLatency ≤ x.1.programBuffer.length)

/-- the variables at the beginning -/
def generatorStart (gen : Blake2Generator) : GeneratorState where
  gen := gen
  portBusy := fun _ _ => .Null
  registers := fun _ => ⟨0, INVALID, -1⟩
  currentInstruction := Null
  macroOpIndex := 0
  codeSize := 0
  macroOpCount := 0
  cycle := 0
  depCycle := 0
  retireCycle := 0
  portsSaturated := false
  programBuffer := []
  mulCount := 0
  throwAwayCount := 0

/-- a turn of the loop over `asicLatencies` -/
def asicStep (asicLatencies : List Nat) (instr : Instruction) : List Nat :=
  let dst := instr.dst.toNat
  let src := instr.src.toNat
  let latDst := asicLatencies.getD dst 0 + 1
  let latSrc := if dst ≠ src then asicLatencies.getD src 0 + 1 else 0
  asicLatencies.set dst (max latDst latSrc)

/-- the highest latency of the first `n` registers, and the first register that has it -/
def addressTurns (asicLatencies : List Nat) : Nat → Nat × Nat
  | 0 => (0, 0)
  | i + 1 =>
    let (asicLatencyMax, addressReg) := addressTurns asicLatencies i
    if asicLatencies.getD i 0 > asicLatencyMax then (asicLatencies.getD i 0, i)
    else (asicLatencyMax, addressReg)

/-- behind the loops -/
def programOf (s : GeneratorState) (decodeCycle : Nat) : SuperscalarProgram :=
  let asicLatencies := s.programBuffer.foldl asicStep (List.replicate 8 0)
  let (asicLatencyMax, addressReg) := addressTurns asicLatencies 8
  { programBuffer := s.programBuffer
    addressRegister := addressReg
    codeSize := s.codeSize
    macroOps := s.macroOpCount
    decodeCycles := decodeCycle
    cpuLatency := s.retireCycle
    asicLatency := asicLatencyMax
    mulCount := s.mulCount
    cpuLatencies := fun k => (s.registers k).latency
    asicLatencies := asicLatencies }

def generateSuperscalar (gen : Blake2Generator) : Option (SuperscalarProgram × Blake2Generator) :=
  (Loop.run (cyclesDone superscalarLatency) (cycleStep H retries superscalarLatency)
    superscalarLatency (generatorStart gen, 0)).map fun (s, decodeCycle) =>
      (programOf s decodeCycle, s.gen)

end

/-! ## operands -/

variable {H : List Byte → List Byte} {retries superscalarLatency : Nat}

/-- what `lookForward` finds, one call of `select` has found -/
theorem lookForward_spec {select : Nat → SuperscalarInstruction → Blake2Generator →
      Option (SuperscalarInstruction × Blake2Generator)} {n : Nat} {o o' : Operands}
    (h : lookForward select n o = .ok o') :
    select o'.scheduleCycle o.instr o.gen = some (o'.instr, o'.gen) := by
  induction n generalizing o with
  | zero => exact absurd h nofun
  | succ n ih =>
    rw [lookForward] at h
    cases hs : select o.scheduleCycle o.instr o.gen with
    | some p =>
      rw [hs] at h
      obtain rfl := Except.ok.inj h
      exact hs
    | none =>
      rw [hs] at h
      exact ih (o := ⟨o.instr, o.gen, o.scheduleCycle + 1, o.cycle + 1⟩) h

/-- the operands of an instruction with the number of its macro-op -/
structure Selected (s : GeneratorState) (o : Operands) : Prop where
  same : SameDraw s.currentInstruction o.instr
  src : if s.isOp s.currentInstruction.info.info.srcOp then ∃ k, o.instr.src = some k
    else o.instr.src = s.currentInstruction.src
  dst : if s.isOp s.currentInstruction.info.info.dstOp then
      ∃ k, o.instr.dst = some k ∧
        (s.currentInstruction.canReuse = false → o.instr.src ≠ some k) ∧
        (s.currentInstruction.info = IADD_RS → k ≠ registerNeedsDisplacement)
    else o.instr.dst = s.currentInstruction.dst

theorem selectOperands_spec {s : GeneratorState} {scheduleCycle : Nat} {o : Operands}
    (h : selectOperands H s scheduleCycle = .ok o) : Selected s o := by
  have hself : ∀ c : SuperscalarInstruction, SameDraw c c := fun c => ⟨rfl, rfl, rfl, rfl⟩
  unfold selectOperands at h
  dsimp only at h
  cases hsource : (if s.isOp s.currentInstruction.info.info.srcOp then
      lookForward (selectSource H s.registers) lookForwardCycles
        ⟨s.currentInstruction, s.gen, scheduleCycle, s.cycle⟩
    else .ok ⟨s.currentInstruction, s.gen, scheduleCycle, s.cycle⟩) with
  | error e =>
    rw [hsource] at h
    exact absurd h nofun
  | ok o1 =>
    rw [hsource] at h
    change (if s.isOp s.currentInstruction.info.info.dstOp then
      lookForward (selectDestination H (decide (s.throwAwayCount > 0)) s.registers)
        lookForwardCycles o1 else .ok o1) = .ok o at h
    have hsrc : SameDraw s.currentInstruction o1.instr ∧
        o1.instr.dst = s.currentInstruction.dst ∧
        if s.isOp s.currentInstruction.info.info.srcOp then ∃ k, o1.instr.src = some k
        else o1.instr.src = s.currentInstruction.src := by
      by_cases hop : s.isOp s.currentInstruction.info.info.srcOp = true
      · rw [if_pos hop] at hsource ⊢
        obtain ⟨hsame, hdst, k, hk, -⟩ := selectSource_spec (lookForward_spec hsource)
        exact ⟨hsame, hdst, k, hk⟩
      · rw [if_neg hop] at hsource ⊢
        obtain rfl := Except.ok.inj hsource
        exact ⟨hself _, rfl, rfl⟩
    obtain ⟨hsame, hdst1, hsrc1⟩ := hsrc
    by_cases hop : s.isOp s.currentInstruction.info.info.dstOp = true
    · rw [if_pos hop] at h
      obtain ⟨hsame', hsrc', k, hk, hadmits⟩ := selectDestination_spec (lookForward_spec h)
      obtain ⟨-, hreuse, hlea⟩ := admits_spec hadmits
      refine ⟨⟨hsame'.info.trans hsame.info, hsame'.mod.trans hsame.mod,
        hsame'.imm32.trans hsame.imm32, hsame'.canReuse.trans hsame.canReuse⟩, ?_, ?_⟩
      · rwa [hsrc']
      · rw [if_pos hop, hsrc']
        exact ⟨k, hk, fun hc => hreuse (hsame.canReuse.trans hc),
          fun hi => hlea (hsame.info.trans hi)⟩
    · rw [if_neg hop] at h
      obtain rfl := Except.ok.inj h
      exact ⟨hsame, hsrc1, by rwa [if_neg hop]⟩

/-! ## which instruction is due -/

/-- a high multiplication behind its first macro-op -/
def MulhStarted (c : SuperscalarInstruction) : Prop :=
  (c.info = IMULH_R ∨ c.info = ISMULH_R) ∧ ∃ k, c.dst = some k

/-- a multiplication by a reciprocal behind its first macro-op -/
def RcpStarted (c : SuperscalarInstruction) : Prop :=
  c.info = IMUL_RCP ∧ noDivisor c.imm32 = false

/-- the instruction whose next macro-op goes to slot `b` -/
inductive Issuable (buf : DecoderBuffer) (b : Nat) (c : SuperscalarInstruction) : Nat → Prop
  | fresh (t : SuperscalarInstructionType) (slotSize : Nat) (slot : buf.counts[b]? = some slotSize)
      (fits : Fits t slotSize (decide (buf.counts.length = b + 1))) (drawn : Drawn t c) :
      Issuable buf b c 0
  | mul (fetched : buf = .buffer3310) (first : b = 0) (started : MulhStarted c) : Issuable buf b c 1
  | high (fetched : buf = .buffer3310) (second : b = 1) (started : MulhStarted c) :
      Issuable buf b c 2
  | product (slot : buf.counts[0]? = some 4) (first : b = 0) (started : RcpStarted c) :
      Issuable buf b c 1

/-- what a buffer leaves to the next one -/
def Carried (c : SuperscalarInstruction) (macroOpIndex : Nat) : Prop :=
  c.info.size ≤ macroOpIndex ∨ macroOpIndex = 1 ∧ (MulhStarted c ∨ RcpStarted c)

/-- in front of slot `b`, which is behind the buffer for `b = buf.counts.length` -/
def AtSlot (buf : DecoderBuffer) (b : Nat) (c : SuperscalarInstruction) (macroOpIndex : Nat) :
    Prop :=
  c.info.size ≤ macroOpIndex ∨ Issuable buf b c macroOpIndex ∨
    b = buf.counts.length ∧ Carried c macroOpIndex

theorem isOp_eq {s : GeneratorState} {i : Nat} (h : s.macroOpIndex = i) (op : Int) :
    s.isOp op = decide ((i : Int) = op) := by rw [GeneratorState.isOp, h]

theorem isSuperscalar_toInstr {c : SuperscalarInstruction} {k : Fin 8} (hreal : c.info ≠ INVALID)
    (hdst : c.dst = some k)
    (hdistinct : c.info = ISUB_R ∨ c.info = IXOR_R ∨ c.info = IADD_RS ∨ c.info = IMUL_R →
      ∃ j, c.src = some j ∧ j ≠ k)
    (hlea : c.info = IADD_RS → k ≠ registerNeedsDisplacement)
    (hrotation : c.info = IROR_C → 0 < c.imm32.toNat ∧ c.imm32.toNat < 64)
    (hdivisor : c.info = IMUL_RCP → noDivisor c.imm32 = false) :
    c.toInstr.IsSuperscalar c.info := by
  have hbyte : ∀ j : Fin 8, (registerByte (some j)).toNat = j := fun j => by
    show (BitVec.ofNat 8 j.val).toNat = j
    rw [BitVec.toNat_ofNat]
    exact Nat.mod_eq_of_lt (by omega)
  have hdstByte : c.toInstr.dst.toNat = k := by
    show (registerByte c.dst).toNat = k
    rw [hdst, hbyte]
  have hsrcByte : ∀ j, c.src = some j → c.toInstr.src.toNat = j := fun j hj => by
    show (if c.src.isSome then registerByte c.src else _).toNat = j
    rw [hj]
    exact hbyte j
  refine ⟨hreal, rfl, by omega, ?_, fun ht heq => ?_, fun ht heq => ?_, hrotation, hdivisor⟩
  · cases hsrc : c.src with
    | some j =>
      have hj := hsrcByte j hsrc
      omega
    | none =>
      have heq : c.toInstr.src = c.toInstr.dst := by
        show (if c.src.isSome then registerByte c.src else registerByte c.dst) = _
        rw [hsrc]
        rfl
      rw [heq]
      omega
  · obtain ⟨j, hj, hne⟩ := hdistinct ht
    have hj' := hsrcByte j hj
    rw [heq] at hj'
    exact hne (Fin.ext (by omega))
  · exact hlea ht (Fin.ext (hdstByte.symm.trans heq))

/-- what the tables have for the instructions of one macro-op -/
theorem info_of_size_one {t : SuperscalarInstructionType} (h : t.size = 1) :
    t.info.resultOp = 0 ∧ t.info.dstOp = 0 ∧ t ≠ INVALID ∧ t ≠ IMULH_R ∧ t ≠ ISMULH_R ∧
      (t = ISUB_R ∨ t = IXOR_R ∨ t = IADD_RS ∨ t = IMUL_R → t.info.srcOp = 0) := by
  revert h
  cases t <;> decide

theorem last_of_ten {buf : DecoderBuffer} {b : Nat} (h : buf.counts[b]? = some 10) :
    b + 1 = buf.counts.length := by
  have hb : b < buf.counts.length := (List.getElem?_eq_some_iff.mp h).1
  have hall : ∀ buf : DecoderBuffer, ∀ b < 4, buf.counts[b]? = some 10 → b + 1 = buf.counts.length := by
    intro buf
    cases buf <;> decide
  have hlen : buf.counts.length ≤ 4 := by cases buf <;> decide
  exact hall buf b (by omega) h

section
variable {buf : DecoderBuffer} {b : Nat} {s : GeneratorState} {o : Operands}
  {c : SuperscalarInstruction}

/-- what follows a macro-op with its operands -/
def Next (buf : DecoderBuffer) (b : Nat) (s : GeneratorState) (o : Operands) : Prop :=
  (s.isOp o.instr.info.info.resultOp = true → ∃ k, o.instr.dst = some k) ∧
    (o.instr.info.size ≤ s.macroOpIndex + 1 ∧ o.instr.toInstr.IsSuperscalar o.instr.info ∨
      s.macroOpIndex + 1 < o.instr.info.size ∧ AtSlot buf (b + 1) o.instr (s.macroOpIndex + 1))

theorem next_of_single {t : SuperscalarInstructionType} (hsize : t.size = 1)
    (drawn : Drawn t s.currentInstruction) (hi : s.macroOpIndex = 0) (hsel : Selected s o) :
    Next buf b s o := by
  obtain ⟨hres, hdstOp, hreal, hmulh, hsmulh, hsrcOp⟩ := info_of_size_one hsize
  have hinfo : o.instr.info = t := hsel.same.info.trans drawn.info
  have hdst := hsel.dst
  rw [drawn.info, hdstOp, isOp_eq hi, if_pos (by decide)] at hdst
  obtain ⟨k, hk, hne, hlea⟩ := hdst
  have hreuse : s.currentInstruction.canReuse = false := Bool.eq_false_iff.mpr fun h =>
    (drawn.reuse h).elim hmulh hsmulh
  refine ⟨fun _ => ⟨k, hk⟩, .inl ⟨by rw [hinfo, hsize]; omega, ?_⟩⟩
  refine isSuperscalar_toInstr (by rwa [hinfo]) hk (fun h => ?_) (fun h => hlea (hinfo ▸ h))
    (fun h => ?_) fun h => ?_
  · rw [hinfo] at h
    have hsrc := hsel.src
    rw [drawn.info, hsrcOp h, isOp_eq hi, if_pos (by decide)] at hsrc
    obtain ⟨j, hj⟩ := hsrc
    exact ⟨j, hj, fun heq => hne hreuse (heq ▸ hj)⟩
  · rw [hsel.same.imm32]
    exact drawn.rotation (hinfo ▸ h)
  · rw [hsel.same.imm32]
    exact drawn.divisor (hinfo ▸ h)

/-- the tables have the same for both high multiplications -/
theorem info_of_mulh {t : SuperscalarInstructionType} (h : t = IMULH_R ∨ t = ISMULH_R) :
    t.info.resultOp = 1 ∧ t.info.dstOp = 0 ∧ t.size = 3 ∧ t ≠ INVALID ∧
      ¬ (t = ISUB_R ∨ t = IXOR_R ∨ t = IADD_RS ∨ t = IMUL_R) ∧ t ≠ IADD_RS ∧ t ≠ IROR_C ∧
      t ≠ IMUL_RCP := by
  obtain rfl | rfl := h <;> decide

theorem next_of_mulh {t : SuperscalarInstructionType} (ht : t = IMULH_R ∨ t = ISMULH_R)
    (hlast : b + 1 = buf.counts.length) (drawn : Drawn t s.currentInstruction)
    (hi : s.macroOpIndex = 0) (hsel : Selected s o) : Next buf b s o := by
  obtain ⟨-, hdstOp, hsize, -⟩ := info_of_mulh ht
  have hinfo : o.instr.info = t := hsel.same.info.trans drawn.info
  have hdst := hsel.dst
  rw [drawn.info, hdstOp, isOp_eq hi, if_pos (by decide)] at hdst
  obtain ⟨k, hk, -⟩ := hdst
  refine ⟨fun _ => ⟨k, hk⟩, .inr ⟨by rw [hinfo, hsize, hi]; omega, .inr (.inr ⟨hlast, ?_⟩)⟩⟩
  exact .inr ⟨by rw [hi], .inl ⟨by rwa [hinfo], k, hk⟩⟩

theorem next_of_rcp (hlast : b + 1 = buf.counts.length) (drawn : Drawn IMUL_RCP s.currentInstruction)
    (hi : s.macroOpIndex = 0) (hsel : Selected s o) : Next buf b s o := by
  have hinfo : o.instr.info = IMUL_RCP := hsel.same.info.trans drawn.info
  refine ⟨fun h => ?_, .inr ⟨by rw [hinfo, hi]; decide, .inr (.inr ⟨hlast, ?_⟩)⟩⟩
  · rw [hinfo, isOp_eq hi] at h
    exact absurd h (by decide)
  · exact .inr ⟨by rw [hi], .inr ⟨hinfo, by rw [hsel.same.imm32]; exact drawn.divisor rfl⟩⟩

theorem next_of_mul (fetched : buf = .buffer3310) (first : b = 0)
    (started : MulhStarted s.currentInstruction) (hi : s.macroOpIndex = 1) (hsel : Selected s o) :
    Next buf b s o := by
  obtain ⟨ht, k, hk⟩ := started
  obtain ⟨-, hdstOp, hsize, -⟩ := info_of_mulh ht
  have hinfo := hsel.same.info
  have hdst := hsel.dst
  rw [hdstOp, isOp_eq hi, if_neg (by decide)] at hdst
  refine ⟨fun _ => ⟨k, hdst.trans hk⟩, .inr ⟨by rw [hinfo, hsize, hi]; omega, .inr (.inl ?_)⟩⟩
  rw [hi]
  exact .high fetched (by omega) ⟨by rwa [hinfo], k, hdst.trans hk⟩

theorem next_of_high (started : MulhStarted s.currentInstruction)
    (hi : s.macroOpIndex = 2) (hsel : Selected s o) : Next buf b s o := by
  obtain ⟨ht, k, hk⟩ := started
  obtain ⟨-, hdstOp, hsize, hreal, hdistinct, hlea, hror, hrcp⟩ := info_of_mulh ht
  have hinfo := hsel.same.info
  have hdst := hsel.dst
  rw [hdstOp, isOp_eq hi, if_neg (by decide)] at hdst
  refine ⟨fun _ => ⟨k, hdst.trans hk⟩, .inl ⟨by rw [hinfo, hsize, hi], ?_⟩⟩
  refine isSuperscalar_toInstr (by rwa [hinfo]) (hdst.trans hk) (fun h => ?_) (fun h => ?_)
    (fun h => ?_) fun h => ?_
  · exact absurd (hinfo ▸ h) hdistinct
  · exact absurd (hinfo ▸ h) hlea
  · exact absurd (hinfo ▸ h) hror
  · exact absurd (hinfo ▸ h) hrcp

theorem next_of_product (started : RcpStarted s.currentInstruction) (hi : s.macroOpIndex = 1)
    (hsel : Selected s o) : Next buf b s o := by
  obtain ⟨ht, hdivisor⟩ := started
  have hinfo : o.instr.info = IMUL_RCP := hsel.same.info.trans ht
  have hdst := hsel.dst
  rw [ht, isOp_eq hi, if_pos (by decide)] at hdst
  obtain ⟨k, hk, -, -⟩ := hdst
  refine ⟨fun _ => ⟨k, hk⟩, .inl ⟨by rw [hinfo, hi]; decide, ?_⟩⟩
  refine isSuperscalar_toInstr (by rw [hinfo]; decide) hk (fun h => ?_) (fun h => ?_) (fun h => ?_)
    fun _ => by rwa [hsel.same.imm32]
  · rw [hinfo] at h
    exact absurd h (by decide)
  · rw [hinfo] at h
    exact absurd h (by decide)
  · rw [hinfo] at h
    exact absurd h (by decide)

/-- **With its operands a macro-op ends the instruction, or leaves it for the next slot.** -/
theorem issuable_next (h : Issuable buf b s.currentInstruction s.macroOpIndex)
    (hsel : Selected s o) : Next buf b s o := by
  generalize hi : s.macroOpIndex = i at h
  cases h with
  | fresh t slotSize slot fits drawn =>
    obtain hsize | ⟨hlast, ht⟩ | ⟨rfl, rfl⟩ := fits.rest
    · exact next_of_single hsize drawn hi hsel
    · exact next_of_mulh ht (of_decide_eq_true hlast).symm drawn hi hsel
    · exact next_of_rcp (last_of_ten slot) drawn hi hsel
  | mul fetched first started => exact next_of_mul fetched first started hi hsel
  | high fetched second started => exact next_of_high started hi hsel
  | product slot first started => exact next_of_product started hi hsel

theorem issuable_mop {i : Nat} (h : Issuable buf b c i) : ∃ mop slotSize,
    c.info.info.ops[i]? = some mop ∧ buf.counts[b]? = some slotSize ∧ mop.size ≤ slotSize := by
  cases h with
  | fresh t slotSize slot fits drawn =>
    obtain ⟨mop, hmop, hle⟩ := fits.head
    exact ⟨mop, slotSize, by rwa [drawn.info], slot, hle⟩
  | mul fetched first started =>
    subst fetched first
    obtain h | h := started.1
    · exact ⟨.Mul_r, 3, by rw [h]; rfl, rfl, Nat.le_refl 3⟩
    · exact ⟨.Imul_r, 3, by rw [h]; rfl, rfl, Nat.le_refl 3⟩
  | high fetched second started =>
    subst fetched second
    obtain h | h := started.1
    · exact ⟨.Mov_rr, 3, by rw [h]; rfl, rfl, Nat.le_refl 3⟩
    · exact ⟨.Mov_rr, 3, by rw [h]; rfl, rfl, Nat.le_refl 3⟩
  | product slot first started =>
    subst first
    exact ⟨{ MacroOp.Imul_rr with dependent := true }, 4, by rw [started.1]; rfl, slot,
      Nat.le_refl 4⟩

end

/-! ## the inner loop keeps the invariant -/

/-- what a macro-op does to the loop -/
inductive Issued (buf : DecoderBuffer) (b : Nat) (s : GeneratorState) : Slots → Prop
  | saturated (s' : GeneratorState) (ports : s'.portsSaturated = true)
      (program : s'.programBuffer = s.programBuffer) (code : s'.codeSize = s.codeSize) :
      Issued buf b s ⟨s', b, true⟩
  | thrown (s' : GeneratorState) (idle : s'.currentInstruction.info.size ≤ s'.macroOpIndex)
      (program : s'.programBuffer = s.programBuffer) (code : s'.codeSize = s.codeSize)
      (before : s.throwAwayCount < maxThrowawayCount)
      (count : s'.throwAwayCount = s.throwAwayCount + 1) : Issued buf b s ⟨s', b, false⟩
  | aborted (s' : GeneratorState) (idle : s'.currentInstruction.info.size ≤ s'.macroOpIndex)
      (program : s'.programBuffer = s.programBuffer) (code : s'.codeSize = s.codeSize) :
      Issued buf b s ⟨s', b, true⟩
  | placed (s' : GeneratorState) (slotSize : Nat) (slot : buf.counts[b]? = some slotSize)
      (code : s'.codeSize ≤ s.codeSize + slotSize) (count : s'.throwAwayCount = 0)
      (next : (∃ instr t, instr.IsSuperscalar t ∧
          s'.programBuffer = s.programBuffer ++ [instr] ∧
          s'.currentInstruction.info.size ≤ s'.macroOpIndex) ∨
        s'.programBuffer = s.programBuffer ∧
          AtSlot buf (b + 1) s'.currentInstruction s'.macroOpIndex) :
      Issued buf b s ⟨s', b + 1, false⟩

section
variable {buf : DecoderBuffer} {b : Nat} {s : GeneratorState} {o : Operands}

theorem throwAway_issued (s : GeneratorState) (o : Operands) :
    Issued buf b s (throwAway s o b) := by
  unfold throwAway
  by_cases h : s.throwAwayCount < maxThrowawayCount
  · rw [if_pos h]
    exact .thrown _ (Nat.le_refl _) rfl rfl h rfl
  · rw [if_neg h]
    exact .aborted _ (Nat.zero_le _) rfl rfl

theorem finishInstruction_kept (s : GeneratorState) :
    (finishInstruction s).codeSize = s.codeSize ∧
      (finishInstruction s).throwAwayCount = s.throwAwayCount ∧
      (finishInstruction s).currentInstruction = s.currentInstruction ∧
      (finishInstruction s).macroOpIndex = s.macroOpIndex := by
  unfold finishInstruction
  dsimp only
  split
  · exact ⟨rfl, rfl, rfl, rfl⟩
  · exact ⟨rfl, rfl, rfl, rfl⟩

theorem exists_retire (h : s.isOp s.currentInstruction.info.info.resultOp = true →
    ∃ k, s.currentInstruction.dst = some k) : ∃ registers, retire s = some registers := by
  unfold retire
  dsimp only
  by_cases hop : s.isOp s.currentInstruction.info.info.resultOp = true
  · obtain ⟨k, hk⟩ := h hop
    rw [if_pos hop, hk]
    exact ⟨_, rfl⟩
  · rw [if_neg hop]
    exact ⟨_, rfl⟩

theorem issueMop_issued {mop : MacroOp} {slotSize : Nat} (hslot : buf.counts[b]? = some slotSize)
    (hle : mop.size ≤ slotSize) (hnext : Next buf b s o) (topCycle : Nat) :
    ∃ x, issueMop superscalarLatency mop topCycle s o b = some x ∧ Issued buf b s x := by
  unfold issueMop
  dsimp only
  cases hschedule : scheduleMop superscalarLatency mop s.portBusy o.scheduleCycle o.scheduleCycle with
  | none => exact ⟨_, rfl, .saturated _ rfl rfl rfl⟩
  | some p =>
    obtain ⟨hresult, hdone⟩ := hnext
    obtain ⟨registers, hregisters⟩ := exists_retire (s := { s with
      currentInstruction := o.instr, gen := o.gen, cycle := o.cycle, throwAwayCount := 0,
      portBusy := p.2, depCycle := p.1 + mop.latency }) hresult
    dsimp only
    rw [hregisters, Option.map_some]
    refine ⟨_, rfl, .placed _ slotSize hslot ?_ ?_ ?_⟩
    · rw [(finishInstruction_kept _).1]
      exact Nat.add_le_add_left hle s.codeSize
    · exact (finishInstruction_kept _).2.1
    · obtain ⟨hsize, hprogram⟩ | ⟨hsize, hat⟩ := hdone
      · refine .inl ⟨_, _, hprogram, ?_⟩
        rw [finishInstruction, if_pos hsize]
        exact ⟨rfl, hsize⟩
      · rw [finishInstruction, if_neg (Nat.not_le.mpr hsize)]
        exact .inr ⟨rfl, hat⟩

theorem issueNext_issued (H : List Byte → List Byte) (superscalarLatency : Nat)
    (h : Issuable buf b s.currentInstruction s.macroOpIndex) :
    ∃ x, issueNext H superscalarLatency s b = some x ∧ Issued buf b s x := by
  obtain ⟨mop, slotSize, hmop, hslot, hle⟩ := issuable_mop h
  unfold issueNext
  rw [hmop, Option.bind_some]
  cases hschedule : scheduleMop superscalarLatency mop s.portBusy s.cycle s.depCycle with
  | none => exact ⟨_, rfl, .saturated _ rfl rfl rfl⟩
  | some p =>
    dsimp only
    cases hsel : selectOperands H s p.1 with
    | error o => exact ⟨_, rfl, throwAway_issued s o⟩
    | ok o =>
      exact issueMop_issued hslot hle (issuable_next h (selectOperands_spec hsel)) s.cycle

theorem nextInstruction_issuable (H : List Byte → List Byte) (retries : Nat)
    (hb : b < buf.counts.length) (hat : AtSlot buf b s.currentInstruction s.macroOpIndex) :
    (∀ s', nextInstruction H retries buf s b = some s' →
      Issuable buf b s'.currentInstruction s'.macroOpIndex ∧ s'.programBuffer = s.programBuffer ∧
        s'.codeSize = s.codeSize ∧ s'.throwAwayCount = s.throwAwayCount) ∧
    (Productive H retries → (nextInstruction H retries buf s b).isSome = true) := by
  unfold nextInstruction
  by_cases hidle : s.currentInstruction.info.size ≤ s.macroOpIndex
  · rw [if_pos hidle]
    have hslot : buf.counts[b]? = some buf.counts[b] := List.getElem?_eq_getElem hb
    have hmem : buf.counts[b] ∈ slotSizes := by
      have hall : ∀ k ∈ buf.counts, k ∈ slotSizes := by cases buf <;> decide
      exact hall _ (List.getElem_mem hb)
    rw [hslot, Option.bind_some]
    refine ⟨fun s' h => ?_, fun hH => ?_⟩
    · obtain ⟨⟨c, gen⟩, hcreate, rfl⟩ := Option.map_eq_some_iff.mp h
      obtain ⟨t, hfits, hdrawn⟩ := createForSlot_spec hmem hcreate
      exact ⟨.fresh t _ hslot hfits hdrawn, rfl, rfl, rfl⟩
    · rw [Option.isSome_map]
      exact createForSlot_isSome hH hmem _ _
  · rw [if_neg hidle]
    refine ⟨fun s' h => ?_, fun _ => rfl⟩
    obtain rfl := Option.some.inj h
    obtain h | h | ⟨h, -⟩ := hat
    · exact absurd h hidle
    · exact ⟨h, rfl, rfl, rfl⟩
    · omega

end

/-- in front of a slot, with the code that there was in front of the buffer -/
structure SlotsInv (superscalarLatency : Nat) (buf : DecoderBuffer) (code : Nat) (x : Slots) :
    Prop where
  wellFormed : ∀ instr ∈ x.state.programBuffer, ∃ t, instr.IsSuperscalar t
  length_le : x.state.programBuffer.length ≤ programLimit superscalarLatency
  codeSize_le : x.state.codeSize ≤ code + (buf.counts.take x.bufferIndex).sum
  index_le : x.bufferIndex ≤ buf.counts.length
  slot : x.left = false →
    AtSlot buf x.bufferIndex x.state.currentInstruction x.state.macroOpIndex
  room : x.left = false → x.state.currentInstruction.info.size ≤ x.state.macroOpIndex ∨
    x.state.programBuffer.length < programLimit superscalarLatency
  left : x.left = true → x.state.portsSaturated = true ∨
    programLimit superscalarLatency ≤ x.state.programBuffer.length ∨
      x.state.currentInstruction.info.size ≤ x.state.macroOpIndex

/-- goes down with every turn -/
def slotsMeasure (buf : DecoderBuffer) (x : Slots) : Nat :=
  if x.left then 0
  else (maxThrowawayCount + 1) * (buf.counts.length - x.bufferIndex) +
    (maxThrowawayCount - x.state.throwAwayCount) + 1

section
variable {buf : DecoderBuffer} {code : Nat} {x : Slots}

theorem issued_inv {b : Nat} {s : GeneratorState} {y : Slots}
    (hb : b < buf.counts.length) (hwf : ∀ instr ∈ s.programBuffer, ∃ t, instr.IsSuperscalar t)
    (hlen : s.programBuffer.length < programLimit superscalarLatency)
    (hcode : s.codeSize ≤ code + (buf.counts.take b).sum) (h : Issued buf b s y) :
    SlotsInv superscalarLatency buf code y ∧
      slotsMeasure buf y < slotsMeasure buf ⟨s, b, false⟩ := by
  cases h with
  | saturated s' ports program codeSize =>
    refine ⟨⟨by rwa [program], by rw [program]; omega, by rwa [codeSize], Nat.le_of_lt hb, nofun,
      nofun, fun _ => .inl ports⟩, Nat.succ_pos _⟩
  | thrown s' idle program codeSize before count =>
    refine ⟨⟨by rwa [program], by rw [program]; omega, by rwa [codeSize], Nat.le_of_lt hb,
      fun _ => .inl idle, fun _ => .inl idle, nofun⟩, ?_⟩
    show (maxThrowawayCount + 1) * (buf.counts.length - b)
        + (maxThrowawayCount - s'.throwAwayCount) + 1
      < (maxThrowawayCount + 1) * (buf.counts.length - b) + (maxThrowawayCount - s.throwAwayCount) + 1
    omega
  | aborted s' idle program codeSize =>
    refine ⟨⟨by rwa [program], by rw [program]; omega, by rwa [codeSize], Nat.le_of_lt hb, nofun,
      nofun, fun _ => .inr (.inr idle)⟩, Nat.succ_pos _⟩
  | placed s' slotSize slot codeSize count next =>
    have htake : (buf.counts.take (b + 1)).sum = (buf.counts.take b).sum + slotSize := by
      rw [List.take_add_one, slot, List.sum_append]
      rfl
    have hle : s'.codeSize ≤ code + (buf.counts.take (b + 1)).sum := by omega
    have hmeasure : slotsMeasure buf ⟨s', b + 1, false⟩ < slotsMeasure buf ⟨s, b, false⟩ := by
      have hsub : buf.counts.length - b = buf.counts.length - (b + 1) + 1 := by omega
      show (maxThrowawayCount + 1) * (buf.counts.length - (b + 1))
          + (maxThrowawayCount - s'.throwAwayCount) + 1
        < (maxThrowawayCount + 1) * (buf.counts.length - b) + (maxThrowawayCount - s.throwAwayCount) + 1
      rw [hsub, Nat.mul_succ]
      omega
    obtain ⟨instr, t, hinstr, hprogram, hidle⟩ | ⟨hprogram, hat⟩ := next
    · refine ⟨⟨?_, ?_, hle, hb, fun _ => .inl hidle, fun _ => .inl hidle, nofun⟩, hmeasure⟩
      · show ∀ instr ∈ s'.programBuffer, _
        rw [hprogram]
        intro x hx
        obtain hx | hx := List.mem_append.mp hx
        · exact hwf x hx
        · exact ⟨t, List.mem_singleton.mp hx ▸ hinstr⟩
      · show s'.programBuffer.length ≤ _
        rw [hprogram, List.length_append]
        exact hlen
    · refine ⟨⟨by rwa [hprogram], by rw [hprogram]; omega, hle, hb, fun _ => hat, fun _ => .inr ?_,
        nofun⟩, hmeasure⟩
      show s'.programBuffer.length < _
      rwa [hprogram]

theorem slotStep_inv (hinv : SlotsInv superscalarLatency buf code x)
    (hdone : slotsDone buf x = false) :
    (∀ y, slotStep H retries superscalarLatency buf x = some y →
      SlotsInv superscalarLatency buf code y ∧ slotsMeasure buf y < slotsMeasure buf x) ∧
    (Productive H retries → (slotStep H retries superscalarLatency buf x).isSome = true) := by
  obtain ⟨s, b, left⟩ := x
  obtain ⟨hleft, hb⟩ := Bool.or_eq_false_iff.mp hdone
  obtain rfl : left = false := hleft
  have hb : b < buf.counts.length := Nat.not_le.mp (of_decide_eq_false hb)
  unfold slotStep
  dsimp only
  by_cases hend : s.currentInstruction.info.size ≤ s.macroOpIndex ∧
      (s.portsSaturated = true ∨ programLimit superscalarLatency ≤ s.programBuffer.length)
  · rw [if_pos hend]
    refine ⟨fun y h => ?_, fun _ => rfl⟩
    obtain rfl := Option.some.inj h
    exact ⟨⟨hinv.wellFormed, hinv.length_le, hinv.codeSize_le, hinv.index_le, nofun, nofun,
      fun _ => .inr (.inr hend.1)⟩, Nat.succ_pos _⟩
  · rw [if_neg hend]
    have hroom : s.programBuffer.length < programLimit superscalarLatency := by
      obtain h | h := hinv.room rfl
      · exact Nat.not_le.mp fun hle => hend ⟨h, .inr hle⟩
      · exact h
    obtain ⟨hnext, hsome⟩ := nextInstruction_issuable H retries hb (hinv.slot rfl)
    refine ⟨fun y h => ?_, fun hH => ?_⟩
    · obtain ⟨s', hs', hy⟩ := Option.bind_eq_some_iff.mp h
      obtain ⟨hissuable, hprogram, hcode, hcount⟩ := hnext s' hs'
      obtain ⟨z, hz, hissued⟩ := issueNext_issued H superscalarLatency hissuable
      obtain rfl : z = y := Option.some.inj (hz.symm.trans hy)
      obtain ⟨hkept, hmeasure⟩ := issued_inv hb (by rw [hprogram]; exact hinv.wellFormed)
        (by rwa [hprogram]) (by rw [hcode]; exact hinv.codeSize_le) hissued
      refine ⟨hkept, hmeasure.trans_eq ?_⟩
      show _ + (maxThrowawayCount - s'.throwAwayCount) + 1 = _
      rw [hcount]
      rfl
    · obtain ⟨s', hs'⟩ := Option.isSome_iff_exists.mp (hsome hH)
      obtain ⟨hissuable, -⟩ := hnext s' hs'
      obtain ⟨z, hz, -⟩ := issueNext_issued H superscalarLatency hissuable
      rw [hs', Option.bind_some, hz]
      rfl

/-- behind the buffer -/
theorem carried_of_done (hinv : SlotsInv superscalarLatency buf code x)
    (hdone : slotsDone buf x = true) : x.state.portsSaturated = true ∨
      programLimit superscalarLatency ≤ x.state.programBuffer.length ∨
        Carried x.state.currentInstruction x.state.macroOpIndex := by
  cases hleft : x.left with
  | true =>
    obtain h | h | h := hinv.left hleft
    · exact .inl h
    · exact .inr (.inl h)
    · exact .inr (.inr (.inl h))
  | false =>
    have hb : buf.counts.length ≤ x.bufferIndex := by
      unfold slotsDone at hdone
      rw [hleft, Bool.false_or] at hdone
      exact of_decide_eq_true hdone
    obtain h | h | ⟨-, h⟩ := hinv.slot hleft
    · exact .inr (.inr (.inl h))
    · obtain ⟨mop, slotSize, -, hslot, -⟩ := issuable_mop h
      have hlt := (List.getElem?_eq_some_iff.mp hslot).1
      omega
    · exact .inr (.inr h)

end

/-! ## the outer loop -/

/-- in front of a decode cycle -/
structure CycleInv (superscalarLatency : Nat) (x : GeneratorState × Nat) : Prop where
  wellFormed : ∀ instr ∈ x.1.programBuffer, ∃ t, instr.IsSuperscalar t
  length_le : x.1.programBuffer.length ≤ programLimit superscalarLatency
  codeSize_le : x.1.codeSize ≤ 16 * x.2
  cycle_le : x.2 ≤ superscalarLatency
  carried : x.1.portsSaturated = true ∨
    programLimit superscalarLatency ≤ x.1.programBuffer.length ∨
      Carried x.1.currentInstruction x.1.macroOpIndex

/-- **The next buffer starts with slots for what the one before left.** -/
theorem atSlot_of_carried {c : SuperscalarInstruction} {i : Nat} (h : Carried c i)
    (H : List Byte → List Byte) (cycle mulCount : Nat) (gen : Blake2Generator) :
    AtSlot (DecoderBuffer.fetchNext H c.info cycle mulCount gen).1 0 c i := by
  obtain h | ⟨rfl, h | h⟩ := h
  · exact .inl h
  · rw [DecoderBuffer.fetchNext, if_pos h.1]
    exact .inr (.inl (.mul rfl rfl h))
  · refine .inr (.inl (.product ?_ rfl h))
    rw [DecoderBuffer.fetchNext, h.1, if_neg (by decide)]
    by_cases hmul : mulCount < cycle + 1
    · rw [if_pos hmul]
      rfl
    · rw [if_neg hmul, if_pos rfl]
      dsimp only
      split <;> rfl

theorem sum_counts (buf : DecoderBuffer) : buf.counts.sum = 16 := by cases buf <;> rfl

theorem sum_take_le (l : List Nat) (n : Nat) : (l.take n).sum ≤ l.sum := by
  conv_rhs => rw [← List.take_append_drop n l, List.sum_append]
  exact Nat.le_add_right ..

section
variable {x : GeneratorState × Nat}

theorem cycleStep_inv (hinv : CycleInv superscalarLatency x)
    (hdone : cyclesDone superscalarLatency x = false) :
    (∀ y, cycleStep H retries superscalarLatency x = some y →
      CycleInv superscalarLatency y ∧ superscalarLatency - y.2 < superscalarLatency - x.2) ∧
    (Productive H retries → (cycleStep H retries superscalarLatency x).isSome = true) := by
  obtain ⟨s, decodeCycle⟩ := x
  obtain ⟨hdone, hlen⟩ := Bool.or_eq_false_iff.mp hdone
  obtain ⟨hcycle, hports⟩ := Bool.or_eq_false_iff.mp hdone
  have hlen : s.programBuffer.length < programLimit superscalarLatency :=
    Nat.not_le.mp (of_decide_eq_false hlen)
  have hcycle : decodeCycle < superscalarLatency := Nat.not_le.mp (of_decide_eq_false hcycle)
  have hcarried : Carried s.currentInstruction s.macroOpIndex := by
    obtain h | h | h := hinv.carried
    · exact absurd (hports.symm.trans h) Bool.false_ne_true
    · exact absurd h (Nat.not_le.mpr hlen)
    · exact h
  have hslot := atSlot_of_carried hcarried H decodeCycle s.mulCount s.gen
  unfold cycleStep
  dsimp only
  generalize DecoderBuffer.fetchNext H s.currentInstruction.info decodeCycle s.mulCount s.gen = p
    at hslot
  have hstart : SlotsInv superscalarLatency p.1 s.codeSize ⟨{ s with gen := p.2 }, 0, false⟩ :=
    ⟨hinv.wellFormed, hinv.length_le, Nat.le_refl _, Nat.zero_le _, fun _ => hslot,
      fun _ => .inr hlen, nofun⟩
  refine ⟨fun y h => ?_, fun hH => ?_⟩
  · obtain ⟨z, hz, rfl⟩ := Option.map_eq_some_iff.mp h
    obtain ⟨hkept, hend⟩ := Loop.run_inv (SlotsInv superscalarLatency p.1 s.codeSize)
      (fun a b ha hd hb => ((slotStep_inv ha hd).1 b hb).1) hstart hz
    have hcode := hkept.codeSize_le
    have hsum := sum_take_le p.1.counts z.bufferIndex
    have hcode0 := hinv.codeSize_le
    rw [sum_counts] at hsum
    refine ⟨⟨hkept.wellFormed, hkept.length_le, ?_, hcycle, carried_of_done hkept hend⟩, ?_⟩
    · show z.state.codeSize ≤ 16 * (decodeCycle + 1)
      dsimp only at hcode0
      omega
    · show superscalarLatency - (decodeCycle + 1) < superscalarLatency - decodeCycle
      omega
  · have hbound : slotsMeasure p.1 ⟨{ s with gen := p.2 }, 0, false⟩ ≤ slotTurns p.1 := by
      show (maxThrowawayCount + 1) * p.1.counts.length + (maxThrowawayCount - s.throwAwayCount) + 1
        ≤ (maxThrowawayCount + 1) * (p.1.counts.length + 1)
      rw [Nat.mul_succ]
      omega
    obtain ⟨z, hz, -⟩ := Loop.run_of_measure (SlotsInv superscalarLatency p.1 s.codeSize)
      (slotsMeasure p.1) (fun a ha hd => by
        obtain ⟨hkept, hsome⟩ := slotStep_inv (H := H) ha hd
        obtain ⟨b, hb⟩ := Option.isSome_iff_exists.mp (hsome hH)
        exact ⟨b, hb, hkept b hb⟩) _ _ hstart hbound
    rw [hz]
    rfl

theorem generatorStart_inv (gen : Blake2Generator) :
    CycleInv superscalarLatency (generatorStart gen, 0) where
  wellFormed := fun _ h => absurd h List.not_mem_nil
  length_le := Nat.zero_le _
  codeSize_le := Nat.le_refl _
  cycle_le := Nat.zero_le _
  carried := .inr (.inr (.inl (Nat.le_refl 0)))

end

/-- the address register has the highest latency -/
theorem addressTurns_spec (lat : List Nat) (n : Nat) :
    (∀ k < n, lat.getD k 0 ≤ (addressTurns lat n).1) ∧
      (addressTurns lat n).1 ≤ lat.getD (addressTurns lat n).2 0 ∧
      ((addressTurns lat n).2 < n ∨ (addressTurns lat n).2 = 0) := by
  induction n with
  | zero => exact ⟨fun k hk => absurd hk (Nat.not_lt_zero k), Nat.zero_le _, .inr rfl⟩
  | succ n ih =>
    obtain ⟨hmax, hreg, hlt⟩ := ih
    rw [addressTurns]
    dsimp only
    by_cases h : lat.getD n 0 > (addressTurns lat n).1
    · rw [if_pos h]
      refine ⟨fun k hk => ?_, Nat.le_refl _, .inl (Nat.lt_succ_self n)⟩
      by_cases hkn : k = n
      · exact hkn ▸ Nat.le_refl _
      · exact Nat.le_of_lt (Nat.lt_of_le_of_lt (hmax k (by omega)) h)
    · rw [if_neg h]
      refine ⟨fun k hk => ?_, hreg, hlt.imp_left Nat.lt_succ_of_lt⟩
      by_cases hkn : k = n
      · rw [hkn]
        exact Nat.not_lt.mp h
      · exact hmax k (by omega)

/-- what the callers of `generateSuperscalar` rely on -/
structure SuperscalarProgram.WellFormed (superscalarLatency : Nat) (prog : SuperscalarProgram) :
    Prop where
  instructions : ∀ instr ∈ prog.programBuffer, ∃ t, instr.IsSuperscalar t
  size_le : prog.programBuffer.length ≤ programLimit superscalarLatency
  decodeCycles_le : prog.decodeCycles ≤ superscalarLatency
  codeSize_le : prog.codeSize ≤ 16 * prog.decodeCycles
  addressRegister_lt : prog.addressRegister < 8
  addressRegister_max : ∀ k < 8,
    prog.asicLatencies.getD k 0 ≤ prog.asicLatencies.getD prog.addressRegister 0

theorem programOf_wellFormed {x : GeneratorState × Nat} (h : CycleInv superscalarLatency x) :
    (programOf x.1 x.2).WellFormed superscalarLatency := by
  obtain ⟨hmax, hreg, hlt⟩ :=
    addressTurns_spec (x.1.programBuffer.foldl asicStep (List.replicate 8 0)) 8
  have hlt8 : (programOf x.1 x.2).addressRegister < 8 := by
    obtain h | h := hlt
    · exact h
    · exact Nat.lt_of_le_of_lt (Nat.le_of_eq h) (by omega)
  exact ⟨h.wellFormed, h.length_le, h.cycle_le, h.codeSize_le, hlt8,
    fun k hk => (hmax k hk).trans hreg⟩

/-- **A generated program can be executed, and the decoder keeps up with its code.** -/
theorem generateSuperscalar_wellFormed {gen gen' : Blake2Generator} {prog : SuperscalarProgram}
    (h : generateSuperscalar H retries superscalarLatency gen = some (prog, gen')) :
    prog.WellFormed superscalarLatency := by
  obtain ⟨x, hx, heq⟩ := Option.map_eq_some_iff.mp h
  obtain ⟨rfl, -⟩ := Prod.mk.inj heq
  exact programOf_wellFormed (Loop.run_inv (CycleInv superscalarLatency)
    (fun a b ha hd hb => ((cycleStep_inv ha hd).1 b hb).1) (generatorStart_inv gen) hx).1

/-- **The loops of the generator end.** -/
theorem generateSuperscalar_isSome (hH : Productive H retries) (superscalarLatency : Nat)
    (gen : Blake2Generator) :
    (generateSuperscalar H retries superscalarLatency gen).isSome = true := by
  obtain ⟨x, hx, -⟩ := Loop.run_of_measure (CycleInv superscalarLatency)
    (fun x => superscalarLatency - x.2) (fun a ha hd => by
      obtain ⟨hkept, hsome⟩ := cycleStep_inv (H := H) ha hd
      obtain ⟨b, hb⟩ := Option.isSome_iff_exists.mp (hsome hH)
      exact ⟨b, hb, hkept b hb⟩) superscalarLatency (generatorStart gen, 0)
    (generatorStart_inv gen) (Nat.le_refl _)
  rw [generateSuperscalar, hx]
  rfl

/-- **Every program that is generated runs**: its instructions are cases of the `switch`, with
registers that exist and divisors that are not zero. -/
theorem generateSuperscalar_runs (hH : Productive H retries) (superscalarLatency : Nat)
    (gen : Blake2Generator) :
    ∃ prog gen', generateSuperscalar H retries superscalarLatency gen = some (prog, gen') ∧
      prog.WellFormed superscalarLatency ∧ ∀ r, ∃ r', executeSuperscalar r prog = some r' := by
  obtain ⟨⟨prog, gen'⟩, hprog⟩ :=
    Option.isSome_iff_exists.mp (generateSuperscalar_isSome hH superscalarLatency gen)
  have hwf := generateSuperscalar_wellFormed hprog
  exact ⟨prog, gen', hprog, hwf, exists_executeSuperscalar hwf.instructions⟩

theorem generateSuperscalar_runs_threes : ∃ prog gen',
    generateSuperscalar (fun _ => List.replicate 64 3) 65 170 (.ofSeed (fun _ => 0) 0 0)
      = some (prog, gen') ∧
    prog.WellFormed 170 ∧ ∀ r, ∃ r', executeSuperscalar r prog = some r' :=
  generateSuperscalar_runs productive_threes 170 _

end Randx
