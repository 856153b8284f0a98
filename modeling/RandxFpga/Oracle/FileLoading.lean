import RandxFpga.Oracle.TestScript
import RandxFpga.Run.Store

/-!
# Which files the oracle driver loads (`test_script.cpp`)

The two loops of `main` run as long as there are lines: nothing compares the number of lines with
the size of a buffer, and the assertion on the length of a line is compiled out.  `loadLog` are the
stores that they make, with the exception that ends them if there is one.

* `loadProgramFrom_eq`, `loadScratchpadFrom_eq`   the loaders in terms of these stores;
* `acceptsOrRejects_iff`   **for which files every store is inside its buffer and a load that ends
                           without an exception has filled both**.
-/

namespace Randx
open HexText

/-! ## the stores -/

/-- `std::stoi(line.substr(byte_index*2, 2), 0, 16)` as a `uint8_t` -/
def loadPair (p : List Char × Nat) : Except Fault Byte := do
  let byteData ← stoi 32 (← substr p.1 (p.2 * 2) 2)
  return .ofInt 8 byteData

/-- the turns of the two nested loops over the scratchpad file -/
def bytePairs (lines : List (List Char)) : List (List Char × Nat) :=
  lines.flatMap fun line => (List.range 8).map fun byteIndex => (line, byteIndex)

structure LoadLog where
  instructions : List (Store.Op Nat Instruction)
  scratchpad : List (Store.Op Nat Byte)
  exception : Option Fault

/-- the stores of `main` up to the end of the second loop, or up to the exception -/
def loadLog (programFile scratchpadFile : List Char) : LoadLog :=
  let program := Store.fill loadInstruction 0 (getlines programFile)
  match program.2 with
  | some e => ⟨program.1, [], some e⟩
  | none =>
    let scratchpad := Store.fill loadPair 0 (bytePairs (getlines scratchpadFile))
    ⟨program.1, scratchpad.1, scratchpad.2⟩

section
variable {programFile : List Char} (scratchpadFile : List Char)

theorem loadLog_of_error {e : Fault}
    (h : (Store.fill loadInstruction 0 (getlines programFile)).2 = some e) :
    loadLog programFile scratchpadFile
      = ⟨(Store.fill loadInstruction 0 (getlines programFile)).1, [], some e⟩ := by
  simp only [loadLog, h]

theorem loadLog_of_none (h : (Store.fill loadInstruction 0 (getlines programFile)).2 = none) :
    loadLog programFile scratchpadFile
      = ⟨(Store.fill loadInstruction 0 (getlines programFile)).1,
        (Store.fill loadPair 0 (bytePairs (getlines scratchpadFile))).1,
        (Store.fill loadPair 0 (bytePairs (getlines scratchpadFile))).2⟩ := by
  simp only [loadLog, h]

end

theorem loadProgramFrom_eq (u : Nat → Instruction) (i : Nat) (ls : List (List Char)) :
    loadProgramFrom u i ls = Store.fillWithin loadInstruction programMaxSize .outOfBounds u i ls := by
  induction ls generalizing u i with
  | nil => rfl
  | cons line ls ih =>
    rw [loadProgramFrom, Store.fillWithin]
    refine bind_congr fun instr => ?_
    rw [ih]

/-- the inner loop, its first `n` turns -/
theorem loadBytes_eq (line : List Char) (i : Nat) (m : Bytes) (n : Nat) :
    (List.range n).foldlM (loadByte line i) m
      = Store.fillWithin loadPair scratchpadBytes .outOfBounds m (i * 8)
          ((List.range n).map fun byteIndex => (line, byteIndex)) := by
  induction n with
  | zero => rfl
  | succ n ih =>
    rw [List.range_succ, List.foldlM_append, List.map_append, Store.fillWithin_append, ih,
      List.length_map, List.length_range]
    refine bind_congr fun m' => ?_
    show (loadByte line i m' n >>= pure) = _
    rw [bind_pure]
    show (substr line (n * 2) 2 >>= fun s => stoi 32 s >>= fun byteData => _)
      = ((substr line (n * 2) 2 >>= fun s => stoi 32 s >>= fun byteData => _) >>= fun v => _)
    cases substr line (n * 2) 2 with
    | error e => rfl
    | ok s =>
      show (stoi 32 s >>= fun byteData => _) = ((stoi 32 s >>= fun byteData => _) >>= fun v => _)
      cases stoi 32 s with
      | error e => rfl
      | ok v => rfl

theorem loadScratchpadFrom_eq (m : Bytes) (i : Nat) (ls : List (List Char)) :
    loadScratchpadFrom m i ls
      = Store.fillWithin loadPair scratchpadBytes .outOfBounds m (i * 8) (bytePairs ls) := by
  induction ls generalizing m i with
  | nil => rfl
  | cons line ls ih =>
    rw [loadScratchpadFrom, bytePairs, List.flatMap_cons, Store.fillWithin_append, loadBytes_eq,
      List.length_map, List.length_range]
    refine bind_congr fun m' => ?_
    rw [ih, Nat.add_mul, Nat.one_mul]
    rfl

/-! ## the lines that convert -/

/-- `substr` finds the field and `strtol` a number at its beginning -/
def fieldConverts (line : List Char) (pos len : Nat) : Bool :=
  decide (pos ≤ line.length) && (strtol16 ((line.drop pos).take len)).isSome

/-- a line of the program: `imm32`, `mod`, `src`, `dst` and `opcode` convert -/
def programLine (line : List Char) : Bool :=
  fieldConverts line 0 8 && (fieldConverts line 8 2 && (fieldConverts line 10 2 &&
    (fieldConverts line 12 2 && fieldConverts line 14 2)))

/-- a byte of a line of the scratchpad -/
def digitPair (p : List Char × Nat) : Bool := fieldConverts p.1 (p.2 * 2) 2

/-- a field of `len` characters is never out of the range of a type of more than `4 * len` bits -/
theorem stoi_isOk {s : List Char} {len w : Nat} (hs : s.length ≤ len) (hw : 4 * len < w) :
    (stoi w s).isOk = (strtol16 s).isSome := by
  unfold stoi
  cases hv : strtol16 s with
  | none => rfl
  | some v =>
    have hpow : 16 ^ s.length ≤ 2 ^ (w - 1) := by
      calc 16 ^ s.length = 2 ^ (4 * s.length) := (pow_mul 2 4 s.length).symm
        _ ≤ 2 ^ (w - 1) := Nat.pow_le_pow_right (by omega) (by omega)
    have hpow' : (16 : Int) ^ s.length ≤ 2 ^ (w - 1) := by exact_mod_cast hpow
    obtain ⟨hlow, hhigh⟩ := strtol16_lt hv
    have hrange : -2 ^ (w - 1) ≤ v ∧ v < 2 ^ (w - 1) := by omega
    dsimp only
    rw [if_pos hrange]
    rfl

theorem isOk_field_bind {β : Type} {f : Int → Except Fault β} {b : Bool} (line : List Char)
    (pos : Nat) {len w : Nat} (hw : 4 * len < w) (hf : ∀ v, (f v).isOk = b) :
    (substr line pos len >>= fun s => stoi w s >>= f).isOk = (fieldConverts line pos len && b) := by
  unfold substr fieldConverts
  by_cases hpos : line.length < pos
  · rw [if_pos hpos, decide_eq_false (by omega)]
    rfl
  · rw [if_neg hpos, decide_eq_true (by omega), Bool.true_and,
      ← stoi_isOk (List.length_take_le _ _) hw]
    show (stoi w ((line.drop pos).take len) >>= f).isOk = _
    cases stoi w ((line.drop pos).take len) with
    | error e => rfl
    | ok v => exact hf v

theorem loadInstruction_isOk (line : List Char) : (loadInstruction line).isOk = programLine line := by
  refine isOk_field_bind line 0 (show 4 * 8 < 64 by omega) fun imm32 => ?_
  refine isOk_field_bind line 8 (show 4 * 2 < 32 by omega) fun mod => ?_
  refine isOk_field_bind line 10 (show 4 * 2 < 32 by omega) fun src => ?_
  refine isOk_field_bind line 12 (show 4 * 2 < 32 by omega) fun dst => ?_
  have hopcode := isOk_field_bind (b := true) line 14 (show 4 * 2 < 32 by omega)
    (f := fun opcode => .ok (⟨.ofInt 8 opcode, .ofInt 8 dst, .ofInt 8 src, .ofInt 8 mod,
      .ofInt 32 imm32⟩ : Instruction)) fun _ => rfl
  rwa [Bool.and_true] at hopcode

theorem loadPair_isOk (p : List Char × Nat) : (loadPair p).isOk = digitPair p := by
  have hbyte := isOk_field_bind (b := true) p.1 (p.2 * 2) (show 4 * 2 < 32 by omega)
    (f := fun byteData => .ok (BitVec.ofInt 8 byteData)) fun _ => rfl
  rwa [Bool.and_true] at hbyte

/-! ## accepted and rejected files -/

/-- no store leaves its buffer; without an exception every cell of both buffers has been stored -/
structure AcceptsOrRejects (log : LoadLog) : Prop where
  instructions : ∀ i instr, .wr i instr ∈ log.instructions → i < programMaxSize
  scratchpad : ∀ a b, .wr a b ∈ log.scratchpad → a < scratchpadBytes
  outcome : log.exception ≠ none ∨
    ((∀ i < programMaxSize, ∃ instr, .wr i instr ∈ log.instructions) ∧
      ∀ a < scratchpadBytes, ∃ b, .wr a b ∈ log.scratchpad)

/-- the lines of the program that convert before the first that does not -/
def programLines (programFile : List Char) : Nat :=
  ((getlines programFile).takeWhile programLine).length

/-- the digit pairs of the scratchpad that convert before the first that does not -/
def digitPairs (scratchpadFile : List Char) : Nat :=
  ((bytePairs (getlines scratchpadFile)).takeWhile digitPair).length

/-- a file that goes on after its buffer is full does so with something that does not convert, and
files in which everything converts have the sizes of the buffers -/
def FilesFit (programFile scratchpadFile : List Char) : Prop :=
  programLines programFile ≤ programMaxSize ∧
    (programLines programFile < (getlines programFile).length ∨
      (digitPairs scratchpadFile ≤ scratchpadBytes ∧
        (digitPairs scratchpadFile < 8 * (getlines scratchpadFile).length ∨
          (programLines programFile = programMaxSize ∧
            digitPairs scratchpadFile = scratchpadBytes))))

theorem converted_loadInstruction (programFile : List Char) :
    Store.converted loadInstruction (getlines programFile) = programLines programFile := by
  unfold Store.converted programLines
  simp only [loadInstruction_isOk]

theorem converted_loadPair (scratchpadFile : List Char) :
    Store.converted loadPair (bytePairs (getlines scratchpadFile)) = digitPairs scratchpadFile := by
  unfold Store.converted digitPairs
  simp only [loadPair_isOk]

theorem length_bytePairs (ls : List (List Char)) : (bytePairs ls).length = 8 * ls.length := by
  induction ls with
  | nil => rfl
  | cons l ls ih =>
    rw [bytePairs, List.flatMap_cons, List.length_append, List.length_map, List.length_range,
      List.length_cons]
    show 8 + (bytePairs ls).length = _
    omega

/-- **The driver rejects its files or fills both buffers, without a store outside them, exactly for
the files that fit.** -/
theorem acceptsOrRejects_iff (programFile scratchpadFile : List Char) :
    AcceptsOrRejects (loadLog programFile scratchpadFile) ↔ FilesFit programFile scratchpadFile := by
  have hpin := Store.fill_within_iff loadInstruction (getlines programFile) programMaxSize
  have hpall := Store.fill_covers_iff loadInstruction (getlines programFile) programMaxSize
  have hperr := Store.fill_error_iff loadInstruction (getlines programFile) 0
  have hple := Store.converted_le loadInstruction (getlines programFile)
  have hsin := Store.fill_within_iff loadPair (bytePairs (getlines scratchpadFile)) scratchpadBytes
  have hsall := Store.fill_covers_iff loadPair (bytePairs (getlines scratchpadFile)) scratchpadBytes
  have hserr := Store.fill_error_iff loadPair (bytePairs (getlines scratchpadFile)) 0
  have hsle := Store.converted_le loadPair (bytePairs (getlines scratchpadFile))
  rw [converted_loadInstruction] at hpin hpall hperr hple
  rw [converted_loadPair] at hsin hsall hserr hsle
  rw [length_bytePairs] at hserr hsle
  unfold FilesFit
  cases hp : (Store.fill loadInstruction 0 (getlines programFile)).2 with
  | some e =>
    rw [loadLog_of_error scratchpadFile hp]
    have hshort := hperr.mp (by rw [hp]; exact Option.some_ne_none e)
    refine ⟨fun h => ?_, fun h => ?_⟩
    · exact ⟨hpin.mp h.instructions, Or.inl hshort⟩
    · exact ⟨hpin.mpr h.1, fun a b hmem => absurd hmem (by simp), Or.inl (Option.some_ne_none e)⟩
  | none =>
    rw [loadLog_of_none scratchpadFile hp]
    have hlong : ¬ programLines programFile < (getlines programFile).length :=
      fun hlt => hperr.mpr hlt hp
    refine ⟨fun h => ?_, fun h => ?_⟩
    · obtain ⟨hinstr, hspad, hout⟩ := h
      refine ⟨hpin.mp hinstr, Or.inr ⟨hsin.mp hspad, ?_⟩⟩
      rcases hout with herr | ⟨hi, ha⟩
      · exact Or.inl (hserr.mp herr)
      · exact Or.inr ⟨le_antisymm (hpin.mp hinstr) (hpall.mp hi),
          le_antisymm (hsin.mp hspad) (hsall.mp ha)⟩
    · obtain ⟨hinstr, hlt | ⟨hspad, hout⟩⟩ := h
      · exact absurd hlt hlong
      · refine ⟨hpin.mpr hinstr, hsin.mpr hspad, ?_⟩
        rcases hout with hshort | ⟨hi, ha⟩
        · exact Or.inl (hserr.mpr hshort)
        · exact Or.inr ⟨hpall.mpr hi.ge, hsall.mpr ha.ge⟩

/-- the loaders of the driver leave these stores, or stop with this exception -/
theorem loaders_eq (u : Uninit) {programFile scratchpadFile : List Char}
    (h : AcceptsOrRejects (loadLog programFile scratchpadFile)) :
    (do
      let program ← loadProgramFrom u.instructions 0 (getlines programFile)
      let scratchpad ← loadScratchpadFrom u.scratchpad 0 (getlines scratchpadFile)
      return (program, scratchpad))
      = match (loadLog programFile scratchpadFile).exception with
        | none => .ok (Store.after u.instructions (loadLog programFile scratchpadFile).instructions,
            Store.after u.scratchpad (loadLog programFile scratchpadFile).scratchpad)
        | some e => .error e := by
  have hprogram := h.instructions
  have hscratchpad := h.scratchpad
  rw [loadProgramFrom_eq, loadScratchpadFrom_eq, Store.fillWithin_eq _ _ _ _ _ _ (Nat.zero_le _)]
  cases hp : (Store.fill loadInstruction 0 (getlines programFile)).2 with
  | some e =>
    rw [loadLog_of_error scratchpadFile hp] at hprogram ⊢
    rw [Store.fill_within_iff] at hprogram
    rw [if_pos (by omega)]
    rfl
  | none =>
    rw [loadLog_of_none scratchpadFile hp] at hprogram hscratchpad ⊢
    rw [Store.fill_within_iff] at hprogram hscratchpad
    rw [if_pos (by omega), Store.fillWithin_eq _ _ _ _ _ _ (by omega), if_pos (by omega)]
    cases (Store.fill loadPair 0 (bytePairs (getlines scratchpadFile))).2 with
    | none => rfl
    | some e => rfl

/-- two empty files: no exception, and nothing is stored -/
theorem not_acceptsOrRejects_empty :
    ¬ ∀ programFile scratchpadFile : List Char,
      AcceptsOrRejects (loadLog programFile scratchpadFile) := by
  intro h
  rcases (h [] []).outcome with herr | ⟨hinstr, -⟩
  · exact herr rfl
  · obtain ⟨instr, hmem⟩ := hinstr 0 (by decide)
    exact absurd hmem (List.not_mem_nil)

end Randx
