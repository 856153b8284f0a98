import RandxFpga.Bench.HexFile
import RandxFpga.Oracle.Branch
import RandxFpga.Run.Store

/-!
# The final scratchpad file (`test_script.cpp`, `bytecode_machine.hpp`)

The driver with any configuration in `RandomX_CurrentConfig`.  Only `ISTORE` writes to the
scratchpad; with address masks that are multiples of 8 it writes one aligned word, so a run leaves
what its stores leave, and the dump undoes the loader line by line.

* `executeInstruction_scratchpad`   what one instruction writes;
* `runConfigured_words`   the aligned words after a run are a store under the executed `ISTORE`s;
* `finalFile_lines`       every line of the final file.
-/

namespace Randx
open HexText

/-! ## the driver -/

section
variable (c : RandomXConfiguration) (fpu : Fpu)

section
variable (s : FltState) (bytecode : Nat → InstructionByteCode) (program : Nat → Instruction)
  (scratchpad : Bytes)

def runConfigured : Option Machine :=
  executeBytecode c fpu s.config (compileProgram c program bytecode) (initMachine scratchpad s)

def traceConfigured : List (Machine × Machine) :=
  executeTrace c fpu s.config (compileProgram c program bytecode) (3 * c.programSize)
    (initMachine scratchpad s)

end

def testScriptConfigured (flt : Bytes → FltState) (u : Uninit)
    (programFile scratchpadFile : List Char) : Except Fault Outcome := do
  let program ← loadProgramFrom u.instructions 0 (getlines programFile)
  let scratchpad ← loadScratchpadFrom u.scratchpad 0 (getlines scratchpadFile)
  match runConfigured c fpu (flt scratchpad) u.bytecode program scratchpad with
  | none => .error .unreachable
  | some m =>
    let steps := traceConfigured c fpu (flt scratchpad) u.bytecode program scratchpad
    .ok ⟨steps.map fun p => (p.1.pc, p.2.nreg.r), dump m.scratchpad⟩

end

theorem runConfigured_base : runConfigured .base = runLoaded := rfl

theorem traceConfigured_base : traceConfigured .base = traceLoaded := rfl

/-- `main` runs it with the configuration that nobody applied -/
theorem testScriptConfigured_base : testScriptConfigured .base = testScript := by
  funext fpu flt u programFile scratchpadFile
  refine bind_congr fun program => bind_congr fun scratchpad => ?_
  cases hrun : runConfigured .base fpu (flt scratchpad) u.bytecode program scratchpad with
  | none =>
    rw [runConfigured_base] at hrun
    rw [hrun]
  | some m =>
    rw [runConfigured_base] at hrun
    rw [hrun, traceConfigured_base]

/-! ## what one instruction writes -/

/-- the write of an `ISTORE`; no other operation has one -/
def storeOf (ibc : InstructionByteCode) (m : Machine) : List (Store.Op Nat Word) :=
  if ibc.type = .ISTORE then
    [.wr (ibc.storeAddress m.nreg).toNat (ibc.isrcVal m.nreg)]
  else []

theorem executeInstruction_scratchpad {fpu : Fpu} {config : ProgramConfiguration}
    {ibc : InstructionByteCode} {m m' : Machine}
    (h : executeInstruction fpu config ibc m = some m') :
    m'.scratchpad = if ibc.type = .ISTORE
      then store64 m.scratchpad (ibc.storeAddress m.nreg).toNat (ibc.isrcVal m.nreg)
      else m.scratchpad := by
  unfold executeInstruction at h
  cases ht : ibc.type with
  | IMUL_RCP =>
    rw [ht] at h
    exact absurd h (by simp)
  | ISWAP_R =>
    rw [ht] at h
    have h' : exe_ISWAP_R ibc m = some m' := h
    unfold exe_ISWAP_R at h'
    cases hi : ibc.isrc with
    | r k =>
      rw [hi] at h'
      obtain rfl := Option.some.inj h'
      rfl
    | imm | zero =>
      rw [hi] at h'
      exact absurd h' (by simp)
  | CBRANCH =>
    rw [ht] at h
    obtain rfl := Option.some.inj h
    exact exe_CBRANCH_scratchpad ibc m
  | _ =>
    rw [ht] at h
    obtain rfl := Option.some.inj h
    rfl

/-! ## the aligned words -/

/-- the words at the multiples of 8 -/
def alignedWords (m : Bytes) (a : Nat) : Word := if a % 8 = 0 then load64 m a else 0

theorem alignedWords_store64 (m : Bytes) {a : Nat} (ha : a % 8 = 0) (w : Word) :
    alignedWords (store64 m a w) = Function.update (alignedWords m) a w := by
  funext b
  by_cases hb : b = a
  · subst hb
    rw [alignedWords, if_pos ha, load64_store64, Function.update_self]
  · rw [Function.update_of_ne hb, alignedWords, alignedWords]
    by_cases hb8 : b % 8 = 0
    · rw [if_pos hb8, if_pos hb8, load64_store64_of_disjoint m w (by omega)]
    · rw [if_neg hb8, if_neg hb8]

/-- every address mask is a multiple of 8 below the size of the scratchpad -/
structure AlignedMasks (c : RandomXConfiguration) : Prop where
  addressMask : ∀ i, (c.addressMask i).toNat % 8 = 0 ∧ (c.addressMask i).toNat < 2 ^ 21
  scratchpadL3Mask : c.scratchpadL3Mask.toNat % 8 = 0 ∧ c.scratchpadL3Mask.toNat < 2 ^ 21

theorem memMask_of_istore {c : RandomXConfiguration} (hc : AlignedMasks c) (instr : Instruction)
    (i : Nat) (ibc : InstructionByteCode) (usage : RegisterUsage)
    (h : (compileInstruction c instr i ibc usage).1.type = .ISTORE) :
    (compileInstruction c instr i ibc usage).1.memMask.toNat % 8 = 0 ∧
      (compileInstruction c instr i ibc usage).1.memMask.toNat < 2 ^ 21 := by
  unfold compileInstruction at h ⊢
  rw [eq_of_gen_type h InstructionType.noConfusion InstructionType.noConfusion]
  show (if instr.getModCond < storeL3Condition then _ else _ : BitVec 32).toNat % 8 = 0 ∧
    (if instr.getModCond < storeL3Condition then _ else _ : BitVec 32).toNat < 2 ^ 21
  by_cases hcond : instr.getModCond < storeL3Condition
  · rw [if_pos hcond]
    exact hc.addressMask _
  · rw [if_neg hcond]
    exact hc.scratchpadL3Mask

/-- a store through such a mask is one aligned word inside the scratchpad -/
theorem storeAddress_aligned (ibc : InstructionByteCode) (n : NativeRegisterFile)
    (h : ibc.memMask.toNat % 8 = 0 ∧ ibc.memMask.toNat < 2 ^ 21) :
    (ibc.storeAddress n).toNat % 8 = 0 ∧ (ibc.storeAddress n).toNat + 8 ≤ scratchpadBytes := by
  have haddr : (ibc.storeAddress n).toNat
      = (n.r ibc.idst + ibc.imm).toNat &&& ibc.memMask.toNat := by
    unfold InstructionByteCode.storeAddress
    rw [BitVec.toNat_and, BitVec.toNat_setWidth, Nat.mod_eq_of_lt (by omega)]
  have hle : (ibc.storeAddress n).toNat ≤ ibc.memMask.toNat := by
    rw [haddr]
    exact Nat.and_le_right
  have hmod : (ibc.storeAddress n).toNat % 2 ^ 3 = 0 := by
    rw [haddr, Nat.and_mod_two_pow, h.1, Nat.and_zero]
  have hsize : scratchpadBytes = 2 ^ 21 := rfl
  omega

/-! ## runs -/

/-- the writes of the executed instructions, in their order -/
def executedStores (c : RandomXConfiguration) (fpu : Fpu) (s : FltState)
    (bytecode : Nat → InstructionByteCode) (program : Nat → Instruction) (scratchpad : Bytes) :
    List (Store.Op Nat Word) :=
  (traceConfigured c fpu s bytecode program scratchpad).flatMap fun p =>
    storeOf (compileProgram c program bytecode p.1.pc.toNat) p.1

section
variable {c : RandomXConfiguration} (hc : AlignedMasks c) (fpu : Fpu) (s : FltState)
  (bytecode : Nat → InstructionByteCode) (program : Nat → Instruction) (scratchpad : Bytes)
include hc

theorem storeAddress_of_fetch {m : Machine} (hd : fetchDone c m = false)
    (ht : (compileProgram c program bytecode m.pc.toNat).type = .ISTORE) :
    ((compileProgram c program bytecode m.pc.toNat).storeAddress m.nreg).toNat % 8 = 0 ∧
      ((compileProgram c program bytecode m.pc.toNat).storeAddress m.nreg).toNat + 8
        ≤ scratchpadBytes := by
  rw [compileProgram_eq c program bytecode (pc_lt_of_fetch hd)] at ht ⊢
  exact storeAddress_aligned _ _ (memMask_of_istore hc _ _ _ _ ht)

/-- one turn of the fetch loop on the aligned words -/
theorem fetchStep_words {m t : Machine} (hd : fetchDone c m = false)
    (h : fetchStep fpu s.config (compileProgram c program bytecode) m = some t) :
    alignedWords t.scratchpad
      = (storeOf (compileProgram c program bytecode m.pc.toNat) m).foldl Store.apply
          (alignedWords m.scratchpad) := by
  obtain ⟨m', hm', rfl⟩ := Option.map_eq_some_iff.mp h
  show alignedWords m'.scratchpad = _
  rw [executeInstruction_scratchpad hm']
  unfold storeOf
  by_cases ht : (compileProgram c program bytecode m.pc.toNat).type = .ISTORE
  · rw [if_pos ht, if_pos ht]
    exact alignedWords_store64 _ (storeAddress_of_fetch hc bytecode program hd ht).1 _
  · rw [if_neg ht, if_neg ht]
    rfl

/-- **After a run the aligned words are those of a store under the executed writes.** -/
theorem runConfigured_words {m : Machine}
    (h : runConfigured c fpu s bytecode program scratchpad = some m) :
    alignedWords m.scratchpad
      = Store.after (alignedWords scratchpad)
          (executedStores c fpu s bytecode program scratchpad) := by
  unfold runConfigured executeBytecode at h
  have hview := Loop.run_view (fun _ => True) (fun m : Machine => alignedWords m.scratchpad)
    (fun m => storeOf (compileProgram c program bytecode m.pc.toNat) m) Store.apply
    (fun m t _ hd ht => ⟨trivial, fetchStep_words hc fpu s bytecode program hd ht⟩) _ _ _ trivial h
  exact hview

theorem executedStores_aligned {a : Nat} {v : Word}
    (h : Store.Op.wr a v ∈ executedStores c fpu s bytecode program scratchpad) :
    a % 8 = 0 ∧ a + 8 ≤ scratchpadBytes := by
  obtain ⟨p, hp, hmem⟩ := List.mem_flatMap.mp h
  obtain ⟨-, -, hd, -⟩ := Loop.steps_inv (fun _ => True) (fun _ _ _ _ _ => trivial) _ _ trivial p hp
  unfold storeOf at hmem
  by_cases ht : (compileProgram c program bytecode p.1.pc.toNat).type = .ISTORE
  · rw [if_pos ht, List.mem_singleton, Store.Op.wr.injEq] at hmem
    rw [hmem.1]
    exact storeAddress_of_fetch hc bytecode program hd ht
  · rw [if_neg ht] at hmem
    exact absurd hmem (by simp)

end

/-! ## files of words -/

/-- `n` lines of 16 digits each -/
structure IsHexFile (isDigit : Char → Bool) (n : Nat) (text : List Char) : Prop where
  length : (getlines text).length = n
  lines : ∀ l ∈ getlines text, l.length = 16 ∧ ∀ d ∈ l, isDigit d = true

/-- a digit of either case -/
def isHexDigit (c : Char) : Bool := (digitVal c).isSome

theorem exists_field {l : List Char} (hlen : l.length = 16) (hl : ∀ d ∈ l, isHexDigit d = true)
    {pos len width : Nat} (hpos : pos + len ≤ 16) (hne : len ≠ 0) (hwidth : 4 * len < width) :
    ∃ s v, substr l pos len = .ok s ∧ stoi width s = .ok v := by
  have hfield : ((l.drop pos).take len).length = len := by
    rw [List.length_take, List.length_drop, hlen]
    omega
  refine ⟨(l.drop pos).take len, _, if_neg (by omega), stoi_numeral ?_ ?_ ?_⟩
  · exact List.ne_nil_of_length_pos (by omega)
  · exact fun d hd => hl d (List.mem_of_mem_drop (List.mem_of_mem_take hd))
  · rwa [hfield]

theorem exists_loadInstruction {l : List Char} (hlen : l.length = 16)
    (hl : ∀ d ∈ l, isHexDigit d = true) : ∃ i, loadInstruction l = .ok i := by
  have hbyte : ∀ pos, pos + 2 ≤ 16 → ∃ s v, substr l pos 2 = .ok s ∧ stoi 32 s = .ok v :=
    fun pos hpos => exists_field hlen hl hpos (by omega) (by omega)
  obtain ⟨s₁, v₁, hs₁, hv₁⟩ := exists_field hlen hl (show 0 + 8 ≤ 16 by omega) (by omega)
    (show 4 * 8 < 64 by omega)
  obtain ⟨s₂, v₂, hs₂, hv₂⟩ := hbyte 8 (by omega)
  obtain ⟨s₃, v₃, hs₃, hv₃⟩ := hbyte 10 (by omega)
  obtain ⟨s₄, v₄, hs₄, hv₄⟩ := hbyte 12 (by omega)
  obtain ⟨s₅, v₅, hs₅, hv₅⟩ := hbyte 14 (by omega)
  unfold loadInstruction
  rw [hs₁, hs₂, hs₃, hs₄, hs₅]
  show ∃ i, (stoi 64 s₁ >>= fun imm32 => stoi 32 s₂ >>= fun mod => stoi 32 s₃ >>= fun src =>
    stoi 32 s₄ >>= fun dst => stoi 32 s₅ >>= fun opcode => _) = .ok i
  rw [hv₁, hv₂, hv₃, hv₄, hv₅]
  exact ⟨_, rfl⟩

theorem exists_loadProgramFrom {ls : List (List Char)}
    (hls : ∀ l ∈ ls, l.length = 16 ∧ ∀ d ∈ l, isHexDigit d = true) :
    ∀ (i : Nat) (u : Nat → Instruction), i + ls.length ≤ programMaxSize →
      ∃ p, loadProgramFrom u i ls = .ok p := by
  induction ls with
  | nil => exact fun i u _ => ⟨u, rfl⟩
  | cons l ls ih =>
    intro i u hle
    rw [List.length_cons] at hle
    obtain ⟨hlen, hl⟩ := hls l List.mem_cons_self
    obtain ⟨instr, hinstr⟩ := exists_loadInstruction hlen hl
    obtain ⟨p, hp⟩ := ih (fun l' hl' => hls l' (List.mem_cons_of_mem _ hl')) (i + 1)
      (Function.update u i instr) (by omega)
    refine ⟨p, ?_⟩
    rw [loadProgramFrom, hinstr]
    show (if i < programMaxSize then _ else _) = _
    rw [if_pos (by omega), hp]

theorem uintToHexline_numeral {l : List Char} (hlen : l.length = 16)
    (hl : ∀ d ∈ l, isUpperDigit d = true) : uintToHexline (BitVec.ofNat 64 (numeral l)) = l := by
  unfold uintToHexline
  rw [BitVec.toNat_ofNat, show 2 ^ 64 = 16 ^ 16 by rfl, digits_mod, ← hlen]
  exact digits_numeral l hl

theorem IsHexFile.words {n : Nat} {text : List Char} (h : IsHexFile isUpperDigit n text) :
    ∃ words : List Word, words.length = n ∧ getlines text = words.map uintToHexline := by
  refine ⟨(getlines text).map fun l => BitVec.ofNat 64 (numeral l), ?_, ?_⟩
  · rw [List.length_map, h.length]
  · rw [List.map_map]
    symm
    refine (List.map_congr_left fun l hl => ?_).trans (List.map_id _)
    exact uintToHexline_numeral (h.lines l hl).1 (h.lines l hl).2

/-- what the Python bench writes is such a file -/
theorem isHexFile_hexFile {words : List Word} {n : Nat} (h : words.length = n) :
    IsHexFile isUpperDigit n (hexFile words) := by
  refine ⟨by rw [getlines_hexFile, List.length_map, h], fun l hl => ?_⟩
  rw [getlines_hexFile] at hl
  obtain ⟨w, -, rfl⟩ := List.mem_map.mp hl
  refine ⟨length_digits _ _, fun d hd => ?_⟩
  obtain ⟨k, hk, rfl⟩ := mem_digits hd
  exact isUpperDigit_digit hk

theorem IsHexFile.isHexDigit {n : Nat} {text : List Char} (h : IsHexFile isUpperDigit n text) :
    IsHexFile isHexDigit n text := by
  refine ⟨h.length, fun l hl => ⟨(h.lines l hl).1, fun d hd => ?_⟩⟩
  obtain ⟨k, hk, rfl⟩ := exists_digit ((h.lines l hl).2 d hd)
  rw [Randx.isHexDigit, (digit_spec hk).1]
  rfl

/-! ## the final file -/

theorem length_getlines_dump (m : Bytes) : (getlines (dump m)).length = scratchpadBytes / 8 := by
  have hlines : getlines (dump m) = (List.range (scratchpadBytes / 8)).map (dumpLine m) := by
    refine getlines_unlines _ fun l hl => ?_
    obtain ⟨i, -, rfl⟩ := List.mem_map.mp hl
    rw [dumpLine_eq]
    exact newline_notMem_digits _ _
  rw [hlines, List.length_map, List.length_range]

theorem testScriptConfigured_ok {c : RandomXConfiguration} {fpu : Fpu} {flt : Bytes → FltState}
    {u : Uninit} {programFile scratchpadFile : List Char} {program : Nat → Instruction}
    {scratchpad : Bytes} {m : Machine}
    (hp : loadProgramFrom u.instructions 0 (getlines programFile) = .ok program)
    (hs : loadScratchpadFrom u.scratchpad 0 (getlines scratchpadFile) = .ok scratchpad)
    (hm : runConfigured c fpu (flt scratchpad) u.bytecode program scratchpad = some m) :
    ∃ out, testScriptConfigured c fpu flt u programFile scratchpadFile = .ok out ∧
      out.final = dump m.scratchpad := by
  refine ⟨⟨(traceConfigured c fpu (flt scratchpad) u.bytecode program scratchpad).map
    fun p => (p.1.pc, p.2.nreg.r), dump m.scratchpad⟩, ?_, ?_⟩
  · unfold testScriptConfigured
    rw [hp, hs]
    show (match runConfigured c fpu (flt scratchpad) u.bytecode program scratchpad with
      | none => _
      | some m => _) = _
    rw [hm]
  · generalize dump m.scratchpad = final
    rfl

/-- **Every line of the final file is the initial line, or the bytes of the last word that an
executed `ISTORE` wrote at its address**; every such write is one aligned word of the scratchpad. -/
theorem finalFile_lines {c : RandomXConfiguration} (hc : AlignedMasks c) (fpu : Fpu)
    (flt : Bytes → FltState) (u : Uninit) {programFile scratchpadFile : List Char}
    (hp : IsHexFile isHexDigit programMaxSize programFile)
    (hs : IsHexFile isUpperDigit (scratchpadBytes / 8) scratchpadFile) :
    ∃ program scratchpad out,
      loadProgramFrom u.instructions 0 (getlines programFile) = .ok program ∧
      loadScratchpadFrom u.scratchpad 0 (getlines scratchpadFile) = .ok scratchpad ∧
      testScriptConfigured c fpu flt u programFile scratchpadFile = .ok out ∧
      let stores := executedStores c fpu (flt scratchpad) u.bytecode program scratchpad
      (∀ a v, Store.Op.wr a v ∈ stores → a % 8 = 0 ∧ a + 8 ≤ scratchpadBytes) ∧
      (getlines out.final).length = scratchpadBytes / 8 ∧
      ∀ i < scratchpadBytes / 8, (getlines out.final)[i]?
        = match Store.lastWrite (8 * i) stores with
          | none => (getlines scratchpadFile)[i]?
          | some v => some (hexBytes v) := by
  obtain ⟨swords, hslen, hslines⟩ := hs.words
  obtain ⟨program, hprog⟩ := exists_loadProgramFrom hp.lines 0 u.instructions
    (by rw [hp.length, Nat.zero_add])
  obtain ⟨m₀, hm₀, -, hword⟩ := loadScratchpadFrom_hexlines swords 0 u.scratchpad (by omega)
  rw [← hslines] at hm₀
  obtain ⟨m, hm, -⟩ := exists_executeBytecode c fpu (flt m₀).config program u.bytecode
    (initMachine m₀ (flt m₀))
  have hrun : runConfigured c fpu (flt m₀) u.bytecode program m₀ = some m := hm
  obtain ⟨out, hout, hfinal⟩ := testScriptConfigured_ok hprog hm₀ hrun
  refine ⟨program, m₀, out, hprog, hm₀, hout, ?_, ?_, fun i hi => ?_⟩
  · exact fun a v hv => executedStores_aligned hc fpu _ _ _ _ hv
  · rw [hfinal, length_getlines_dump]
  · have hwords := congrFun (runConfigured_words hc fpu _ _ _ _ hrun) (8 * i)
    have haligned : ∀ b, alignedWords b (8 * i) = load64 b (8 * i) := fun b => if_pos (by omega)
    rw [Store.after_apply, haligned, haligned] at hwords
    have hget : swords[i]? = some swords[i] := List.getElem?_eq_getElem (by omega)
    have hinit := hword i _ hget
    rw [Nat.zero_add] at hinit
    rw [hfinal, getlines_dump _ hi, dumpLine_load64, hwords]
    cases Store.lastWrite (8 * i)
        (executedStores c fpu (flt m₀) u.bytecode program m₀) with
    | none =>
      show some (hexBytes (load64 m₀ (8 * i))) = (getlines scratchpadFile)[i]?
      rw [hinit, hexBytes_byteReverse, hslines, List.getElem?_map, hget]
      rfl
    | some v => rfl

theorem alignedMasks_monero : AlignedMasks .monero := ⟨by decide, by decide⟩

/-- one store of register 1, the other instructions no-ops -/
theorem finalFile_lines_store :
    let words : List Word := 0x00000008000100F0 :: List.replicate 255 0x74
    let u : Uninit := ⟨fun _ => default, fun _ => 0, fun _ => default⟩
    let scratchpadFile := hexFile (List.replicate (scratchpadBytes / 8) 1)
    ∃ program scratchpad out,
      loadProgramFrom u.instructions 0 (getlines (hexFile words)) = .ok program ∧
      loadScratchpadFrom u.scratchpad 0 (getlines scratchpadFile) = .ok scratchpad ∧
      testScriptConfigured .monero default (initFlt default default 0) u (hexFile words)
        scratchpadFile = .ok out ∧
      let stores := executedStores .monero default (initFlt default default 0 scratchpad)
        u.bytecode program scratchpad
      (∀ a v, Store.Op.wr a v ∈ stores → a % 8 = 0 ∧ a + 8 ≤ scratchpadBytes) ∧
      (getlines out.final).length = scratchpadBytes / 8 ∧
      ∀ i < scratchpadBytes / 8, (getlines out.final)[i]?
        = match Store.lastWrite (8 * i) stores with
          | none => (getlines scratchpadFile)[i]?
          | some v => some (hexBytes v) := by
  intro words u scratchpadFile
  have hp : IsHexFile isHexDigit programMaxSize (hexFile words) :=
    (isHexFile_hexFile (by rw [List.length_cons, List.length_replicate]; rfl)).isHexDigit
  have hs : IsHexFile isUpperDigit (scratchpadBytes / 8) scratchpadFile :=
    isHexFile_hexFile List.length_replicate
  exact finalFile_lines alignedMasks_monero default (initFlt default default 0) u hp hs

end Randx
