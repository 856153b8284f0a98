import RandxFpga.Bench.HexFile
import RandxFpga.Fpga.Common

/-!
# The program file (`loop_engine_tb.py`, `loop_engine_tb.vhd`, `test_script.cpp`)

The Python bench writes each word as 16 digits.  `test_script.cpp` cuts the line into numerals and
converts them one by one, the VHDL bench reads the whole line and slices the vector.

* `loadInstructionLong_hexline`, `loadProgInstructions_hexlines`   what each consumer reads;
* `programFile_fields`   both read the same fields, and these make up the word again.
-/

namespace Randx
open Hdl HexText

/-! ## `test_script.cpp`, with a `long` of any width -/

def loadInstructionLong (long : Nat) (line : List Char) : Except Fault Instruction := do
  let imm32 ← stoi long (← substr line 0 8)
  let mod ← stoi 32 (← substr line 8 2)
  let src ← stoi 32 (← substr line 10 2)
  let dst ← stoi 32 (← substr line 12 2)
  let opcode ← stoi 32 (← substr line 14 2)
  return ⟨.ofInt 8 opcode, .ofInt 8 dst, .ofInt 8 src, .ofInt 8 mod, .ofInt 32 imm32⟩

def loadProgramLong (long : Nat) (instructions : Nat → Instruction) (progIndex : Nat) :
    List (List Char) → Except Fault (Nat → Instruction)
  | [] => .ok instructions
  | line :: ls => do
    let instr ← loadInstructionLong long line
    if progIndex < programMaxSize then
      loadProgramLong long (Function.update instructions progIndex instr) (progIndex + 1) ls
    else .error .outOfBounds

/-- the loader of the driver is the one of a 64-bit `long` -/
theorem loadProgramLong_64 (instructions : Nat → Instruction) (progIndex : Nat)
    (ls : List (List Char)) :
    loadProgramLong 64 instructions progIndex ls = loadProgramFrom instructions progIndex ls := by
  induction ls generalizing instructions progIndex with
  | nil => rfl
  | cons line ls ih =>
    rw [loadProgramLong, loadProgramFrom]
    refine bind_congr fun instr => ?_
    rw [ih]

/-! ## `loop_engine_tb.vhd` -/

structure RawInst where
  imm32 : Slv 32
  modField : Slv 8
  src : Slv 8
  dst : Slv 8
  opcode : Slv 8

/-- `prog_inst_arr_t` -/
abbrev ProgInstructions := Fin 256 → Slv 64

/-- the loop that reads `program_file`, from `linenum` -/
def loadProgInstructions (insts : ProgInstructions) (linenum : Nat) :
    List (List Char) → Option ProgInstructions
  | [] => some insts
  | line :: ls => do
    let w ← hread line
    if h : linenum < 256 then
      loadProgInstructions (Function.update insts ⟨linenum, h⟩ (.ofBV w)) (linenum + 1) ls
    else none

/-- the slices of `cur_inst_slv` -/
def rawInst (v : Slv 64) : RawInst where
  imm32 := v.slice 32 32
  modField := v.slice 24 8
  src := v.slice 16 8
  dst := v.slice 8 8
  opcode := v.slice 0 8

/-! ## an instruction and its word -/

def Instruction.ofWord (w : Word) : Instruction where
  opcode := w.extractLsb' 0 8
  dst := w.extractLsb' 8 8
  src := w.extractLsb' 16 8
  mod := w.extractLsb' 24 8
  imm32 := w.extractLsb' 32 32

def Instruction.toWord (i : Instruction) : Word := i.imm32 ++ i.mod ++ i.src ++ i.dst ++ i.opcode

def Instruction.raw (i : Instruction) : RawInst :=
  ⟨.ofBV i.imm32, .ofBV i.mod, .ofBV i.src, .ofBV i.dst, .ofBV i.opcode⟩

theorem toWord_ofWord (w : Word) : (Instruction.ofWord w).toWord = w := by
  apply BitVec.eq_of_getLsbD_eq
  intro i hi
  simp only [Instruction.toWord, Instruction.ofWord, BitVec.getLsbD_append,
    BitVec.getLsbD_extractLsb']
  split_ifs
  · simp_all
  · simp only [show i - 8 < 8 by omega, decide_true, Bool.true_and]
    congr 1
    omega
  · simp only [show i - 8 - 8 < 8 by omega, decide_true, Bool.true_and]
    congr 1
    omega
  · simp only [show i - 8 - 8 - 8 < 8 by omega, decide_true, Bool.true_and]
    congr 1
    omega
  · simp only [show i - 8 - 8 - 8 - 8 < 32 by omega, decide_true, Bool.true_and]
    congr 1
    omega

theorem rawInst_ofBV (w : Word) : rawInst (.ofBV w) = (Instruction.ofWord w).raw := by
  unfold rawInst Instruction.raw Instruction.ofWord
  rw [Slv.slice_ofBV 32 32 w (by omega), Slv.slice_ofBV 24 8 w (by omega),
    Slv.slice_ofBV 16 8 w (by omega), Slv.slice_ofBV 8 8 w (by omega),
    Slv.slice_ofBV 0 8 w (by omega)]

/-! ## one line -/

theorem ofInt_field (w : Word) (rest len : Nat) :
    BitVec.ofInt (4 * len) ((w.toNat / 16 ^ rest % 16 ^ len : Nat) : Int)
      = w.extractLsb' (4 * rest) (4 * len) := by
  have hpow : ∀ k, 16 ^ k = 2 ^ (4 * k) := fun k => (pow_mul 2 4 k).symm
  apply BitVec.eq_of_toNat_eq
  rw [BitVec.ofInt_natCast, BitVec.toNat_ofNat, BitVec.extractLsb'_toNat,
    Nat.shiftRight_eq_div_pow, hpow, hpow, Nat.mod_mod]

theorem loadInstructionLong_hexline {long : Nat} (hlong : 33 ≤ long) (w : Word) :
    loadInstructionLong long (uintToHexline w) = .ok (.ofWord w) := by
  unfold loadInstructionLong
  rw [substr_uintToHexline w (show 0 + 8 + 8 = 16 by rfl),
    substr_uintToHexline w (show 8 + 2 + 6 = 16 by rfl),
    substr_uintToHexline w (show 10 + 2 + 4 = 16 by rfl),
    substr_uintToHexline w (show 12 + 2 + 2 = 16 by rfl),
    substr_uintToHexline w (show 14 + 2 + 0 = 16 by rfl)]
  show (stoi long _ >>= fun imm32 => stoi 32 _ >>= fun mod => stoi 32 _ >>= fun src =>
    stoi 32 _ >>= fun dst => stoi 32 _ >>= fun opcode => _) = _
  rw [stoi_digits _ (by omega) (show 4 * 8 < long by omega), stoi_digits _ (by omega) (by omega),
    stoi_digits _ (by omega) (by omega), stoi_digits _ (by omega) (by omega),
    stoi_digits _ (by omega) (by omega)]
  show Except.ok _ = Except.ok (Instruction.ofWord w)
  rw [ofInt_field w 8 8, ofInt_field w 6 2, ofInt_field w 4 2, ofInt_field w 2 2,
    ofInt_field w 0 2]
  rfl

/-! ## the whole file -/

theorem loadProgramLong_filling {long : Nat} (hlong : 33 ≤ long) :
    Store.Filling (fun u i ws => loadProgramLong long u i (ws.map uintToHexline)) .ok
      (fun p i w => Function.update p i (Instruction.ofWord w)) (fun p j => p j)
      Instruction.ofWord programMaxSize where
  nil u i := rfl
  cons u i w ws hi := by
    rw [List.map_cons, loadProgramLong, loadInstructionLong_hexline hlong]
    exact if_pos hi
  written u i w _ := Function.update_self i _ u
  frame u i w _ j hj := Function.update_of_ne (by omega) _ u

theorem loadProgramLong_hexlines {long : Nat} (hlong : 33 ≤ long) (words : List Word) :
    ∀ (i : Nat) (u : Nat → Instruction), i + words.length ≤ programMaxSize →
      ∃ p, loadProgramLong long u i (words.map uintToHexline) = .ok p ∧ (∀ j < i, p j = u j) ∧
        ∀ k w, words[k]? = some w → p (i + k) = .ofWord w :=
  (loadProgramLong_filling hlong).exists_load words

theorem loadProgInstructions_filling :
    Store.Filling (fun u i ws => loadProgInstructions u i (ws.map uintToHexline)) some
      (fun p i w => Function.update p (Fin.ofNat 256 i) (Slv.ofBV w))
      (fun p j => p (Fin.ofNat 256 j)) Slv.ofBV 256 where
  nil u i := rfl
  cons u i w ws hi := by
    have hfin : (⟨i, hi⟩ : Fin 256) = Fin.ofNat 256 i := Fin.ext (Nat.mod_eq_of_lt hi).symm
    rw [List.map_cons, loadProgInstructions, hread_uintToHexline]
    show (if h : i < 256 then _ else _) = _
    rw [dif_pos hi, hfin]
  written u i w _ := Function.update_self _ _ u
  frame u i w hi j hj := by
    refine Function.update_of_ne (fun he => ?_) _ u
    have hv : j % 256 = i % 256 := congrArg Fin.val he
    omega

theorem loadProgInstructions_hexlines (words : List Word) (i : Nat) (u : ProgInstructions)
    (hle : i + words.length ≤ 256) :
    ∃ p, loadProgInstructions u i (words.map uintToHexline) = some p ∧
      ∀ k w, words[k]? = some w → ∀ j : Fin 256, j.val = i + k → p j = .ofBV w := by
  obtain ⟨p, hp, -, hword⟩ := loadProgInstructions_filling.exists_load words i u hle
  refine ⟨p, hp, fun k w hk j hj => ?_⟩
  have hfin : Fin.ofNat 256 (i + k) = j :=
    Fin.ext ((congrArg (· % 256) hj).symm.trans (Nat.mod_eq_of_lt j.isLt))
  rw [← hword k w hk, hfin]

/-- **Both consumers read the same fields from every line, and the fields make up its word**, for
any `long` that holds the unsigned 32-bit numbers. -/
theorem programFile_fields {long : Nat} (hlong : 33 ≤ long) (u : Nat → Instruction)
    (v : ProgInstructions) (words : List Word) (hlen : words.length ≤ 256) :
    ∃ p insts, loadProgramLong long u 0 (getlines (hexFile words)) = .ok p ∧
      loadProgInstructions v 0 (getlines (hexFile words)) = some insts ∧
      ∀ n (hn : n < words.length),
        rawInst (insts ⟨n, by omega⟩) = (p n).raw ∧ (p n).toWord = words[n] := by
  obtain ⟨p, hp, -, hword⟩ := loadProgramLong_hexlines hlong words 0 u (by
    rw [Nat.zero_add]; exact hlen)
  obtain ⟨insts, hinsts, hvec⟩ := loadProgInstructions_hexlines words 0 v (by omega)
  rw [getlines_hexFile]
  refine ⟨p, insts, hp, hinsts, fun n hn => ?_⟩
  have hget : words[n]? = some words[n] := List.getElem?_eq_getElem hn
  have hpn : p n = .ofWord words[n] := by
    have := hword n _ hget
    rwa [Nat.zero_add] at this
  rw [hvec n _ hget ⟨n, by omega⟩ (Nat.zero_add n).symm, hpn, rawInst_ofBV, toWord_ofWord]
  exact ⟨rfl, rfl⟩

/-- a word with the top bit set, read with a `long` of 33 bits -/
theorem programFile_fields_top_bit :
    ∃ p insts,
      loadProgramLong 33 (fun _ => default) 0 (getlines (hexFile [0xF234567800010203])) = .ok p ∧
      loadProgInstructions (fun _ => Slv.allU) 0 (getlines (hexFile [0xF234567800010203]))
        = some insts ∧
      ∀ n (hn : n < [(0xF234567800010203 : Word)].length),
        rawInst (insts ⟨n, by rw [List.length_singleton] at hn; omega⟩) = (p n).raw ∧
          (p n).toWord = [(0xF234567800010203 : Word)][n] :=
  programFile_fields (le_refl 33) _ _ [0xF234567800010203] (Nat.le_add_left 1 255)

end Randx
