import RandxFpga.Oracle.Config

/-!
# The instructions of the analyser (`python_analysis/randomx_vm/instruction.py`)

`getDecoderDict` fills a dictionary from a table of weights, `InstructionStruct.fromBufferCopy`
lays a packed structure over 8 bytes, and `Program.insts` builds an object of one of the classes
for each image.  The classes differ in what they assign to the members of `BaseInstByteCode`.

* `getDecoderDict_eq`  the dictionary is the selection of the oracle with the default frequencies,
                      and its assertions hold (`getDecoderDict_asserts`);
* `nameToCls_idst`, `nameToCls_isrc`, `nameToCls_cacheLevel`  what the class of each name assigns.
-/

namespace Randx

namespace InstructionType

/-- `IADD_RS` to `ISWAP_R` -/
def isInteger : InstructionType → Bool
  | IADD_RS | IADD_M | ISUB_R | ISUB_M | IMUL_R | IMUL_M | IMULH_R | IMULH_M | ISMULH_R | ISMULH_M
  | IMUL_RCP | INEG_R | IXOR_R | IXOR_M | IROR_R | IROL_R | ISWAP_R => true
  | _ => false

/-- the integer operations that have a source register -/
def hasSource : InstructionType → Bool
  | IMUL_RCP | INEG_R => false
  | t => t.isInteger

/-- the integer operations that read the scratchpad -/
def readsMemory : InstructionType → Bool
  | IADD_M | ISUB_M | IMUL_M | IMULH_M | ISMULH_M | IXOR_M => true
  | _ => false

end InstructionType

namespace Analysis

/-! ## the decoder -/

def instructionWeights : List (InstructionType × Nat) :=
  [(.IADD_RS, 16), (.IADD_M, 7), (.ISUB_R, 16), (.ISUB_M, 7), (.IMUL_R, 16), (.IMUL_M, 4),
    (.IMULH_R, 4), (.IMULH_M, 1), (.ISMULH_R, 4), (.ISMULH_M, 1), (.IMUL_RCP, 8), (.INEG_R, 2),
    (.IXOR_R, 15), (.IXOR_M, 5), (.IROR_R, 8), (.IROL_R, 2), (.ISWAP_R, 4), (.FSWAP_R, 4),
    (.FADD_R, 16), (.FADD_M, 5), (.FSUB_R, 16), (.FSUB_M, 5), (.FSCAL_R, 6), (.FMUL_R, 32),
    (.FDIV_M, 4), (.FSQRT_R, 6), (.CBRANCH, 25), (.CFROUND, 1), (.ISTORE, 16), (.NOP, 0)]

abbrev OpcodeDict := Nat → Option InstructionType

/-- `for code in range(cumul_code, cumul_code + weight)` -/
def assignCodes (d : OpcodeDict) (cumulCode : Nat) (e : InstructionType × Nat) : OpcodeDict :=
  (List.range' cumulCode e.2).foldl (fun d code => Function.update d code (some e.1)) d

def decoderStep (s : OpcodeDict × Nat) (e : InstructionType × Nat) : OpcodeDict × Nat :=
  (assignCodes s.1 s.2 e, s.2 + e.2)

def getDecoderDict : OpcodeDict := (instructionWeights.foldl decoderStep (fun _ => none, 0)).1

theorem assignCodes_apply (d : OpcodeDict) (c : Nat) (t : InstructionType) (n code : Nat) :
    assignCodes d c (t, n) code = if c ≤ code ∧ code < c + n then some t else d code := by
  unfold assignCodes
  dsimp only
  induction n generalizing c d with
  | zero =>
    rw [if_neg (by omega)]
    rfl
  | succ n ih =>
    rw [List.range'_succ, List.foldl_cons, ih]
    by_cases h : c + 1 ≤ code ∧ code < c + 1 + n
    · rw [if_pos h, if_pos (by omega)]
    · rw [if_neg h]
      by_cases hc : code = c
      · rw [hc, Function.update_self, if_pos (by omega)]
      · rw [Function.update_of_ne hc, if_neg (by omega)]

/-- the two loops over a table that gives each name of a list its weight -/
theorem foldl_decoderStep (freq : InstructionType → Nat) (ts : List InstructionType)
    (d : OpcodeDict) (c code : Nat) :
    ((ts.map fun t => (t, freq t)).foldl decoderStep (d, c)).1 code
      = if c ≤ code then (InstructionType.select freq ts (code - c)).or (d code) else d code := by
  induction ts generalizing d c with
  | nil => simp [InstructionType.select]
  | cons t ts ih =>
    rw [List.map_cons, List.foldl_cons]
    show ((ts.map fun t => (t, freq t)).foldl decoderStep
      (assignCodes d c (t, freq t), c + freq t)).1 code = _
    rw [ih, assignCodes_apply, InstructionType.select]
    by_cases hc : c ≤ code
    · by_cases hlt : code < c + freq t
      · rw [if_neg (by omega), if_pos ⟨hc, hlt⟩, if_pos hc, if_pos (by omega), Option.some_or]
      · rw [if_pos (by omega), if_neg (by omega), if_pos hc, if_neg (by omega), Nat.sub_sub]
    · rw [if_neg (by omega), if_neg (by omega), if_neg hc]

theorem instructionWeights_eq : instructionWeights
    = InstructionType.all.map fun t => (t, RandomXConfiguration.baseFreq t) := rfl

/-- **The dictionary holds what the oracle selects under the default frequencies.** -/
theorem getDecoderDict_eq (code : Nat) : getDecoderDict code
    = InstructionType.select RandomXConfiguration.baseFreq InstructionType.all code := by
  unfold getDecoderDict
  rw [instructionWeights_eq, foldl_decoderStep, if_pos (Nat.zero_le _), Nat.sub_zero, Option.or_none]

theorem getDecoderDict_isSome (opcode : Byte) : (getDecoderDict opcode.toNat).isSome := by
  rw [getDecoderDict_eq]
  exact InstructionType.select_isSome _ _ _ opcode.isLt

/-- over all its codes, a selection gives each operation of the list as often as it weighs -/
theorem countP_select (freq : InstructionType → Nat) {ts : List InstructionType} (h : ts.Nodup)
    (t : InstructionType) :
    (List.range (ts.map freq).sum).countP (fun k => InstructionType.select freq ts k = some t)
      = if t ∈ ts then freq t else 0 := by
  induction ts with
  | nil => rfl
  | cons u ts ih =>
    obtain ⟨hu, hts⟩ := List.nodup_cons.mp h
    have hlow : ∀ k ∈ List.range (freq u), InstructionType.select freq (u :: ts) k = some u :=
      fun k hk => if_pos (List.mem_range.mp hk)
    have hhigh : ∀ k, InstructionType.select freq (u :: ts) (freq u + k)
        = InstructionType.select freq ts k := by
      intro k
      rw [InstructionType.select, if_neg (by omega), Nat.add_sub_cancel_left]
    rw [List.map_cons, List.sum_cons, List.range_add, List.countP_append, List.countP_map]
    simp only [Function.comp_def, hhigh]
    rw [ih hts]
    by_cases htu : u = t
    · subst htu
      have hall : (List.range (freq u)).countP
          (fun k => InstructionType.select freq (u :: ts) k = some u) = freq u := by
        rw [List.countP_eq_length.mpr fun k hk => decide_eq_true (hlow k hk), List.length_range]
      rw [hall, if_neg hu, if_pos List.mem_cons_self, Nat.add_zero]
    · have hnone : (List.range (freq u)).countP
          (fun k => InstructionType.select freq (u :: ts) k = some t) = 0 := by
        refine List.countP_eq_zero.mpr fun k hk => ?_
        rw [hlow k hk]
        simpa using htu
      rw [hnone, Nat.zero_add]
      simp [List.mem_cons, Ne.symm htu]

/-- what `get_decoder_dict` asserts -/
theorem getDecoderDict_asserts :
    (instructionWeights.map Prod.snd).sum = 256 ∧
      (instructionWeights.foldl decoderStep (fun _ => none, 0)).2 = 256 ∧
      ∀ e ∈ instructionWeights,
        (List.range 256).countP (fun code => getDecoderDict code = some e.1) = e.2 := by
  refine ⟨rfl, rfl, ?_⟩
  intro e he
  rw [instructionWeights_eq] at he
  obtain ⟨t, ht, rfl⟩ := List.mem_map.mp he
  simp only [getDecoderDict_eq]
  have hsum : (InstructionType.all.map RandomXConfiguration.baseFreq).sum = 256 :=
    RandomXConfiguration.base.wtSum
  have hcount := countP_select RandomXConfiguration.baseFreq
    (show InstructionType.all.Nodup by decide) t
  rw [hsum, if_pos ht] at hcount
  exact hcount

/-! ## the structure over the bytes -/

abbrev Image := Fin 8 → Byte

/-- the image at address 0 -/
def Image.bytes (img : Image) : Bytes := fun k => if h : k < 8 then img ⟨k, h⟩ else 0

/-- `_fields_`, with `_pack_ = 1` -/
structure InstructionStruct where
  imm32 : BitVec 32
  mod : Byte
  src : Byte
  dst : Byte
  opcode : Byte
  deriving DecidableEq

def InstructionStruct.fromBufferCopy (img : Image) : InstructionStruct :=
  ⟨load32 img.bytes 0, img.bytes 4, img.bytes 5, img.bytes 6, img.bytes 7⟩

def registersCount : Nat := 8

def getReadSpLevel (s : InstructionStruct) (regCount : Nat) : Nat :=
  let srcReg := s.src.toNat % regCount
  let dstReg := s.dst.toNat % regCount
  if srcReg = dstReg then 3
  else if s.mod.toNat % 4 = 0 then 2
  else 1

def getIntReadSpLevel (s : InstructionStruct) : Nat := getReadSpLevel s registersCount

/-! ## the classes -/

/-- an object: its class, the members that some class assigns, and the text of `__str__` -/
structure Inst where
  cls : InstructionType
  instStruct : Option InstructionStruct
  idst : Option (Fin 8)
  isrc : Option (Fin 8)
  cacheLevel : Option Nat
  str : String
  deriving DecidableEq

section
variable (s : InstructionStruct)

/-- `inst_struct.dst % REGISTERS_COUNT` -/
def InstructionStruct.dstReg : Fin 8 := Fin.ofNat 8 s.dst.toNat

/-- `inst_struct.src % REGISTERS_COUNT` -/
def InstructionStruct.srcReg : Fin 8 := Fin.ofNat 8 s.src.toNat

/-- `BaseInstByteCode.__init__` -/
def baseInst (cls : InstructionType) (instStruct : Option InstructionStruct) (str : String) : Inst :=
  ⟨cls, instStruct, none, none, none, str⟩

def regInst (cls : InstructionType) (name : String) : Inst :=
  { baseInst cls none (name ++ " R" ++ toString s.dstReg.val ++ ", R" ++ toString s.srcReg.val) with
    idst := some s.dstReg, isrc := some s.srcReg }

def memInst (cls : InstructionType) (name : String) : Inst :=
  { baseInst cls none (name ++ " R" ++ toString s.dstReg.val ++ ", L"
      ++ toString (getIntReadSpLevel s) ++ "[mem]") with
    idst := some s.dstReg, isrc := some s.srcReg, cacheLevel := some (getIntReadSpLevel s) }

def IADD_RS_Inst : Inst := regInst s .IADD_RS "IADD_RS"

def IADD_M_Inst : Inst := memInst s .IADD_M "IADD_M"

def ISUB_R_Inst : Inst := regInst s .ISUB_R "ISUB_R"

def ISUB_M_Inst : Inst := memInst s .ISUB_M "ISUB_M"

def IMUL_R_Inst : Inst := regInst s .IMUL_R "IMUL_R"

def IMUL_M_Inst : Inst := memInst s .IMUL_M "IMUL_M"

def IMULH_R_Inst : Inst := regInst s .IMULH_R "IMULH_R"

def IMULH_M_Inst : Inst := memInst s .IMULH_M "IMULH_M"

def ISMULH_R_Inst : Inst := regInst s .ISMULH_R "ISMULH_R"

def ISMULH_M_Inst : Inst := memInst s .ISMULH_M "ISMULH_M"

/-- the class that keeps the structure, for its text -/
def IMUL_RCP_Inst : Inst :=
  { baseInst .IMUL_RCP (some s) ("IMUL_RCP R" ++ toString s.dstReg.val ++ ", "
      ++ toString s.imm32.toNat) with
    idst := some s.dstReg }

def INEG_R_Inst : Inst :=
  { baseInst .INEG_R none ("INEG_R R" ++ toString s.dstReg.val) with idst := some s.dstReg }

def IXOR_R_Inst : Inst := regInst s .IXOR_R "IXOR_R"

def IXOR_M_Inst : Inst := memInst s .IXOR_M "IXOR_M"

def IROR_R_Inst : Inst := regInst s .IROR_R "IROR_R"

def IROL_R_Inst : Inst := regInst s .IROL_R "IROL_R"

def ISWAP_R_Inst : Inst := regInst s .ISWAP_R "ISWAP_R"

def NOP_Inst : Inst := baseInst .NOP none "NOP"

/-! ## the builder -/

/-- `_name_to_cls` -/
def nameToCls : InstructionType → Inst
  | .IADD_RS => IADD_RS_Inst s
  | .IADD_M => IADD_M_Inst s
  | .ISUB_R => ISUB_R_Inst s
  | .ISUB_M => ISUB_M_Inst s
  | .IMUL_R => IMUL_R_Inst s
  | .IMUL_M => IMUL_M_Inst s
  | .IMULH_R => IMULH_R_Inst s
  | .IMULH_M => IMULH_M_Inst s
  | .ISMULH_R => ISMULH_R_Inst s
  | .ISMULH_M => ISMULH_M_Inst s
  | .IMUL_RCP => IMUL_RCP_Inst s
  | .INEG_R => INEG_R_Inst s
  | .IXOR_R => IXOR_R_Inst s
  | .IXOR_M => IXOR_M_Inst s
  | .IROR_R => IROR_R_Inst s
  | .IROL_R => IROL_R_Inst s
  | .ISWAP_R => ISWAP_R_Inst s
  | .FSWAP_R => NOP_Inst
  | .FADD_R => NOP_Inst
  | .FADD_M => NOP_Inst
  | .FSUB_R => NOP_Inst
  | .FSUB_M => NOP_Inst
  | .FSCAL_R => NOP_Inst
  | .FMUL_R => NOP_Inst
  | .FDIV_M => NOP_Inst
  | .FSQRT_R => NOP_Inst
  | .CBRANCH => NOP_Inst
  | .CFROUND => NOP_Inst
  | .ISTORE => NOP_Inst
  | .NOP => NOP_Inst

/-- the dictionary has an entry for every byte -/
def buildInstruction : Inst :=
  nameToCls s ((getDecoderDict s.opcode.toNat).get (getDecoderDict_isSome s.opcode))

variable (t : InstructionType)

theorem nameToCls_cls : (nameToCls s t).cls = if t.isInteger then t else .NOP := by
  cases t <;> rfl

theorem nameToCls_idst : (nameToCls s t).idst = if t.isInteger then some s.dstReg else none := by
  cases t <;> rfl

theorem nameToCls_isrc : (nameToCls s t).isrc = if t.hasSource then some s.srcReg else none := by
  cases t <;> rfl

theorem nameToCls_cacheLevel : (nameToCls s t).cacheLevel
    = if t.readsMemory then some (getIntReadSpLevel s) else none := by
  cases t <;> rfl

theorem buildInstruction_eq :
    buildInstruction s = nameToCls s (RandomXConfiguration.base.typeOf s.opcode) := by
  unfold buildInstruction RandomXConfiguration.typeOf
  congr 1
  simp only [getDecoderDict_eq]
  rfl

end

/-! ## `Program` -/

section
variable (images : List Image)

def Program.instStructs : List InstructionStruct := images.map .fromBufferCopy

def Program.insts : List Inst := (Program.instStructs images).map buildInstruction

theorem Program.insts_eq : Program.insts images = images.map fun img =>
    nameToCls (.fromBufferCopy img) (RandomXConfiguration.base.typeOf (img 7)) := by
  unfold Program.insts Program.instStructs
  rw [List.map_map]
  exact List.map_congr_left fun img _ => buildInstruction_eq _

theorem Program.getElem?_insts (n : Nat) : (Program.insts images)[n]? = images[n]?.map fun img =>
    nameToCls (.fromBufferCopy img) (RandomXConfiguration.base.typeOf (img 7)) := by
  rw [Program.insts_eq, List.getElem?_map]

end

end Analysis

end Randx
