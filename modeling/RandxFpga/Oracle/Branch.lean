import RandxFpga.Oracle.Exec
import RandxFpga.Run.BackEdge

/-!
# The fetch loop ends (`CBRANCH`, `registerUsage`)

A `CBRANCH` jumps behind the last instruction that changed its condition register.  So no
instruction of the loop it closes changes that register or is a branch itself
(`usageAt_not_marks`), and the loops of two branches are disjoint (`shape`).

Each time the branch is reached its register has grown by the same immediate, whose bit at the
condition offset is set and whose bit below is clear.  The eight condition bits cannot be zero
three times in a row (`not_three_zero`), so a branch is taken at most twice (`lives`).

* `bounded`                      the fetch loop is a machine with bounded back edges;
* `executeBytecode_terminates`   it ends, after at most three instructions for each place.
-/

namespace Randx

/-! ## `registerUsage` -/

section
variable (c : RandomXConfiguration) (program : Nat → Instruction)

def opAt (i : Nat) : InstructionType := c.typeOf (program i).opcode

theorem usageAt_bounds (i : Nat) (k : Fin 8) :
    -1 ≤ usageAt c program i k ∧ usageAt c program i k < i := by
  induction i with
  | zero =>
    show (-1 : Int) ≤ -1 ∧ (-1 : Int) < 0
    omega
  | succ i ih =>
    unfold usageAt
    split <;> omega

theorem usageAt_not_marks (i : Nat) (k : Fin 8) {j : Nat} (hj : usageAt c program i k < j)
    (hlt : j < i) : marks (program j) k (opAt c program j) = false := by
  induction i with
  | zero => exact absurd hlt (Nat.not_lt_zero j)
  | succ i ih =>
    unfold usageAt at hj
    cases hm : marks (program i) k (c.typeOf (program i).opcode) with
    | true =>
      rw [if_pos hm] at hj
      omega
    | false =>
      rw [if_neg (by simp [hm])] at hj
      rcases Nat.lt_succ_iff_lt_or_eq.mp hlt with h | h
      · exact ih hj h
      · subst h
        exact hm

/-- where the branch `i` lands: behind its target -/
def landAt (i : Nat) : Nat := (usageAt c program i (program i).dstReg + 1).toNat

/-- the loops that the branches close -/
def shape (n : Nat) : BackEdge.Shape n where
  br := fun i => opAt c program i = .CBRANCH
  land := landAt c program
  land_le := fun i _ => by
    have h := usageAt_bounds c program i (program i).dstReg
    unfold landAt
    omega
  disjoint := fun i j hi _ hlt => by
    have hb := usageAt_bounds c program j (program j).dstReg
    -- a branch marks every register
    have hmark : marks (program i) (program j).dstReg (opAt c program i) = true := by
      rw [hi]
      rfl
    have hle : (i : Int) ≤ usageAt c program j (program j).dstReg := by
      by_contra hc
      have := usageAt_not_marks c program j (program j).dstReg (j := i) (by omega) hlt
      rw [this] at hmark
      exact absurd hmark Bool.false_ne_true
    unfold landAt
    omega

end

/-! ## the condition bits -/

theorem conditionMask_getLsbD (s i : Nat) (hs : s < 16) :
    ((conditionMask <<< s).setWidth 64).getLsbD i = decide (8 + s ≤ i ∧ i < 16 + s) := by
  have hm : ∀ j, conditionMask.getLsbD j = decide (8 ≤ j ∧ j < 16) := by
    intro j
    by_cases hj : j < 32
    · revert j
      decide
    · rw [BitVec.getLsbD_of_ge _ _ (by omega), eq_comm, decide_eq_false_iff_not]
      omega
  rw [BitVec.getLsbD_setWidth, BitVec.getLsbD_shiftLeft, hm, Bool.eq_iff_iff]
  simp only [Bool.and_eq_true, Bool.not_eq_true', decide_eq_true_eq, decide_eq_false_iff_not]
  omega

/-- the condition bits are zero iff the register is small modulo the bit above them -/
theorem and_conditionMask_eq_zero (x : Word) (s : Nat) (hs : s < 16) :
    x &&& (conditionMask <<< s).setWidth 64 = 0 ↔ x.toNat % (512 * 2 ^ (7 + s)) < 2 * 2 ^ (7 + s) := by
  have hfield : x &&& (conditionMask <<< s).setWidth 64 = 0 ↔ x.extractLsb' (8 + s) 8 = 0 := by
    constructor
    · intro h
      apply BitVec.eq_of_getLsbD_eq
      intro i hi
      have hbit := congrArg (fun v => v.getLsbD (8 + s + i)) h
      simp only [BitVec.getLsbD_and, conditionMask_getLsbD _ _ hs, BitVec.ofNat_eq_ofNat,
        BitVec.getLsbD_zero] at hbit
      rw [decide_eq_true (show 8 + s ≤ 8 + s + i ∧ 8 + s + i < 16 + s by omega),
        Bool.and_true] at hbit
      rw [BitVec.getLsbD_extractLsb', hbit]
      simp
    · intro h
      apply BitVec.eq_of_getLsbD_eq
      intro i hi
      rw [BitVec.getLsbD_and, conditionMask_getLsbD _ _ hs]
      by_cases hr : 8 + s ≤ i ∧ i < 16 + s
      · have hbit := congrArg (fun v => v.getLsbD (i - (8 + s))) h
        simp only [BitVec.getLsbD_extractLsb'] at hbit
        rw [show 8 + s + (i - (8 + s)) = i by omega,
          decide_eq_true (show i - (8 + s) < 8 by omega), Bool.true_and] at hbit
        rw [hbit]
        simp
      · rw [decide_eq_false hr]
        simp
  have hnat : (x.extractLsb' (8 + s) 8).toNat = x.toNat % (512 * 2 ^ (7 + s)) / (2 * 2 ^ (7 + s)) := by
    rw [BitVec.extractLsb'_toNat, Nat.shiftRight_eq_div_pow, ← Nat.mod_mul_right_div_self]
    have e1 : 2 ^ (8 + s) = 2 * 2 ^ (7 + s) := by
      rw [show 8 + s = (7 + s) + 1 by omega, pow_succ]
      ring
    rw [e1, show 2 * 2 ^ (7 + s) * 2 ^ 8 = 512 * 2 ^ (7 + s) by ring]
  rw [hfield, ← BitVec.toNat_inj, hnat]
  show _ / _ = 0 ↔ _
  rw [Nat.div_eq_zero_iff]
  have hp : 0 < 2 ^ (7 + s) := Nat.two_pow_pos _
  omega

/-- the two forced bits of a branch immediate keep it in a band of the condition field -/
theorem branchImm_band (imm32 : BitVec 32) (s : Nat) (hs : s < 16) :
    2 * 2 ^ (7 + s) ≤ (branchImm imm32 s).toNat % (512 * 2 ^ (7 + s)) ∧
      (branchImm imm32 s).toNat % (512 * 2 ^ (7 + s)) < 511 * 2 ^ (7 + s) := by
  have hset : (branchImm imm32 s).getLsbD (7 + s + 1) = true := by
    unfold branchImm jumpOffset
    simp only [BitVec.getLsbD_and, BitVec.getLsbD_or, BitVec.getLsbD_not, BitVec.getLsbD_shiftLeft,
      BitVec.getLsbD_one]
    simp
    omega
  have hclear : (branchImm imm32 s).getLsbD (7 + s) = false := by
    unfold branchImm jumpOffset
    simp only [BitVec.getLsbD_and, BitVec.getLsbD_or, BitVec.getLsbD_not, BitVec.getLsbD_shiftLeft,
      BitVec.getLsbD_one]
    simp
  rw [BitVec.getLsbD, Nat.testBit_eq_decide_div_mod_eq] at hset hclear
  have hs' := of_decide_eq_true hset
  have hc' := of_decide_eq_false hclear
  have hp : 0 < 2 ^ (7 + s) := Nat.two_pow_pos _
  rw [pow_succ, ← Nat.div_div_eq_div_mul] at hs'
  generalize hP : 2 ^ (7 + s) = P at *
  generalize (branchImm imm32 s).toNat = d at *
  -- the field above the cleared bit, an odd number of twice that bit
  have hq : d % (512 * P) / P = d / P % 512 := by
    rw [Nat.mul_comm 512 P, Nat.mod_mul_right_div_self]
  have hdm := Nat.div_add_mod (d % (512 * P)) P
  have hml := Nat.mod_lt (d % (512 * P)) hp
  rw [hq] at hdm
  generalize d % (512 * P) = e at *
  have hlo : 2 ≤ d / P % 512 := by omega
  have hhi : d / P % 512 ≤ 510 := by omega
  have h1 : P * 2 ≤ P * (d / P % 512) := Nat.mul_le_mul_left P hlo
  have h2 : P * (d / P % 512) ≤ P * 510 := Nat.mul_le_mul_left P hhi
  omega

/-- **The carry argument**: from a small field, two additions in the band cannot both come back to
a small field. -/
theorem not_three_zero {P y d : Nat} (hy : y % (512 * P) < 2 * P)
    (hlo : 2 * P ≤ d % (512 * P)) (hhi : d % (512 * P) < 511 * P)
    (h1 : (y + d) % (512 * P) < 2 * P) (h2 : (y + 2 * d) % (512 * P) < 2 * P) : False := by
  have hM : 0 < 512 * P := by omega
  -- one addition that comes back wraps around
  have hwrap : ∀ a, a < 2 * P → (a + d % (512 * P)) % (512 * P) < 2 * P →
      (a + d % (512 * P)) % (512 * P) + 512 * P = a + d % (512 * P) := by
    intro a ha hb
    by_cases hlt : a + d % (512 * P) < 512 * P
    · rw [Nat.mod_eq_of_lt hlt] at hb
      omega
    · rw [Nat.mod_eq_sub_mod (by omega), Nat.mod_eq_of_lt (by omega)] at hb ⊢
      omega
  have e1 : (y + d) % (512 * P) = (y % (512 * P) + d % (512 * P)) % (512 * P) := Nat.add_mod _ _ _
  have e2 : (y + 2 * d) % (512 * P)
      = ((y + d) % (512 * P) + d % (512 * P)) % (512 * P) := by
    rw [show y + 2 * d = y + d + d by ring, Nat.add_mod]
  have w1 := hwrap _ hy (by rw [← e1]; exact h1)
  have w2 := hwrap _ h1 (by rw [← e2]; exact h2)
  rw [← e1] at w1
  omega

/-! ## how often a branch is still taken -/

section
variable (c : RandomXConfiguration) (program : Nat → Instruction)

def immAt (i : Nat) : Word := branchImm (program i).imm32 (program i).getModCond

def maskAt (i : Nat) : Word := (conditionMask <<< (program i).getModCond).setWidth 64

/-- from the value `x` of the condition register -/
def livesOf (i : Nat) (x : Word) : Nat :=
  if x + immAt program i &&& maskAt program i ≠ 0 then 0
  else if x + immAt program i + immAt program i &&& maskAt program i ≠ 0 then 1
  else 2

def lives (i : Nat) (m : Machine) : Nat := livesOf program i (m.nreg.r (program i).dstReg)

theorem getModCond_lt (instr : Instruction) : instr.getModCond < 16 := by
  have h := instr.mod.isLt
  unfold Instruction.getModCond
  rw [BitVec.toNat_ushiftRight, Nat.shiftRight_eq_div_pow]
  omega

theorem condition_iff (i : Nat) (x : Word) :
    x &&& maskAt program i = 0 ↔
      x.toNat % (512 * 2 ^ (7 + (program i).getModCond)) < 2 * 2 ^ (7 + (program i).getModCond) :=
  and_conditionMask_eq_zero x _ (getModCond_lt _)

theorem toNat_add_mod (x y : Word) (s : Nat) (hs : s < 16) :
    (x + y).toNat % (512 * 2 ^ (7 + s)) = (x.toNat + y.toNat) % (512 * 2 ^ (7 + s)) := by
  have hdvd : 512 * 2 ^ (7 + s) ∣ 2 ^ 64 := by
    rw [show 512 * 2 ^ (7 + s) = 2 ^ (9 + (7 + s)) from (pow_add 2 9 _).symm]
    exact Nat.pow_dvd_pow 2 (by omega)
  rw [BitVec.toNat_add, Nat.mod_mod_of_dvd _ hdvd]

theorem livesOf_le (i : Nat) (x : Word) : livesOf program i x ≤ 2 := by
  unfold livesOf
  split_ifs <;> omega

/-- **A branch that is taken has one life less.** -/
theorem livesOf_taken (i : Nat) (x : Word)
    (h : x + immAt program i &&& maskAt program i = 0) :
    livesOf program i (x + immAt program i) + 1 = livesOf program i x := by
  have hs := getModCond_lt (program i)
  obtain ⟨hlo, hhi⟩ := branchImm_band (program i).imm32 _ hs
  unfold livesOf
  rw [if_neg (not_not.mpr h)]
  by_cases h2 : x + immAt program i + immAt program i &&& maskAt program i = 0
  · have h3 : x + immAt program i + immAt program i + immAt program i &&& maskAt program i ≠ 0 := by
      intro h3
      rw [condition_iff] at h h2 h3
      rw [toNat_add_mod _ _ _ hs] at h2
      rw [toNat_add_mod _ _ _ hs, Nat.add_mod, toNat_add_mod _ _ _ hs, ← Nat.add_mod, Nat.add_assoc,
        ← Nat.two_mul] at h3
      exact not_three_zero h hlo hhi h2 h3
    rw [if_neg (not_not.mpr h2), if_neg (not_not.mpr h2), if_pos h3]
  · rw [if_pos h2, if_pos h2]

end

/-! ## the fetch loop -/

def branchTaken (bytecode : Nat → InstructionByteCode) (m : Machine) : Bool :=
  let ibc := bytecode m.pc.toNat
  ibc.type == .CBRANCH && (m.nreg.r ibc.idst + ibc.imm) &&& ibc.memMask.setWidth 64 == 0

theorem target_toInt {i : Nat} {u : Int} (hi : i < 256) (h : -1 ≤ u ∧ u < i) :
    (BitVec.ofInt 16 u).toInt = u := by
  rw [BitVec.toInt_ofInt]
  exact Int.bmod_eq_of_le (by omega) (by omega)

section
variable (c : RandomXConfiguration) (fpu : Fpu) (config : ProgramConfiguration)
  (program : Nat → Instruction) (bytecode : Nat → InstructionByteCode)

def InProgram (m : Machine) : Prop := 0 ≤ m.pc ∧ m.pc ≤ c.programSize

/-- a branch at `pc`: the register grows and control goes to the landing place or on -/
theorem fetchStep_branch (m : Machine) (hI : InProgram c m) (hlt : m.pc.toNat < c.programSize)
    (hb : opAt c program m.pc.toNat = .CBRANCH) :
    ∃ t, fetchStep fpu config (compileProgram c program bytecode) m = some t ∧
      t.nreg.r (program m.pc.toNat).dstReg
        = m.nreg.r (program m.pc.toNat).dstReg + immAt program m.pc.toNat ∧
      ((branchTaken (compileProgram c program bytecode) m = true ∧
          m.nreg.r (program m.pc.toNat).dstReg + immAt program m.pc.toNat
            &&& maskAt program m.pc.toNat = 0 ∧
          t.pc = landAt c program m.pc.toNat) ∨
        (branchTaken (compileProgram c program bytecode) m = false ∧ t.pc = m.pc + 1)) := by
  obtain ⟨h0, h1⟩ := hI
  generalize hi : m.pc.toNat = i at *
  have hpc : m.pc = i := by omega
  have hsize : c.programSize ≤ 256 := c.programSize_le
  have hu := usageAt_bounds c program i (program i).dstReg
  have hcode := compileProgram_eq c program bytecode hlt
  rw [compileInstruction, show c.typeOf (program i).opcode = .CBRANCH from hb] at hcode
  unfold fetchStep branchTaken
  rw [hi, hcode]
  refine ⟨_, rfl, ?_, ?_⟩
  · show (exe_CBRANCH _ m).nreg.r _ = _
    rw [exe_CBRANCH_r]
    exact Function.update_self _ _ _
  · show ((_ : Bool) = true ∧ _ ∧ (exe_CBRANCH _ m).pc + 1 = _)
      ∨ ((_ : Bool) = false ∧ (exe_CBRANCH _ m).pc + 1 = _)
    rw [exe_CBRANCH_pc]
    by_cases hz : m.nreg.r (program i).dstReg + immAt program i &&& maskAt program i = 0
    · refine .inl ⟨beq_iff_eq.mpr hz, hz, (congrArg (· + 1) (if_pos hz)).trans ?_⟩
      show (BitVec.ofInt 16 _).toInt + 1 = _
      rw [target_toInt (i := i) (by omega) hu]
      unfold landAt
      omega
    · exact .inr ⟨beq_eq_false_iff_ne.mpr hz, congrArg (· + 1) (if_neg hz)⟩

theorem opAt_of_branchTaken (m : Machine) (hlt : m.pc.toNat < c.programSize)
    (h : branchTaken (compileProgram c program bytecode) m = true) :
    opAt c program m.pc.toNat = .CBRANCH := by
  unfold branchTaken at h
  rw [compileProgram_eq c program bytecode hlt] at h
  exact eq_of_gen_type (beq_iff_eq.mp (Bool.and_eq_true_iff.mp h).1) InstructionType.noConfusion
    InstructionType.noConfusion

/-- any other instruction: control goes on and keeps the condition registers of the loops around
it -/
theorem fetchStep_plain (m : Machine) (hlt : m.pc.toNat < c.programSize)
    (hb : opAt c program m.pc.toNat ≠ .CBRANCH) :
    ∃ t, fetchStep fpu config (compileProgram c program bytecode) m = some t ∧
      t.pc = m.pc + 1 ∧
      ∀ i, (shape c program c.programSize).InLoop m.pc.toNat i →
        lives program i t = lives program i m := by
  generalize hi : m.pc.toNat = i at *
  obtain ⟨m', hexec, hpc, hr⟩ := executeInstruction_gen c fpu config (program i) i (bytecode i)
    (usageAt c program i) m hb
  refine ⟨{ m' with pc := m'.pc + 1 }, ?_, by rw [hpc], fun j hj => ?_⟩
  · unfold fetchStep
    rw [hi, compileProgram_eq c program bytecode hlt]
    exact congrArg (Option.map _) hexec
  · obtain ⟨hbj, hland, hle⟩ := hj
    have hne : i ≠ j := fun h => hb (by rw [h]; exact hbj)
    have hu := usageAt_bounds c program j (program j).dstReg
    have hland' : landAt c program j ≤ i := hland
    unfold landAt at hland'
    have hmark := usageAt_not_marks c program j (program j).dstReg (j := i) (by omega) (by omega)
    show livesOf program j (m'.nreg.r _) = livesOf program j (m.nreg.r _)
    rw [hr _ hmark]

theorem bounded :
    BackEdge.Bounded (shape c program c.programSize) 2 (fun m : Machine => m.pc.toNat)
      (lives program) (branchTaken (compileProgram c program bytecode)) (InProgram c)
      (fetchDone c) (fetchStep fpu config (compileProgram c program bytecode)) where
  done_iff := fun m hI => by
    obtain ⟨h0, h1⟩ := hI
    rw [fetchDone, decide_eq_true_iff]
    omega
  lives_le := fun i m => livesOf_le program i _
  plain := fun m hI hlt hb => by
    obtain ⟨t, ht, hpc, hlives⟩ := fetchStep_plain c fpu config program bytecode m hlt hb
    obtain ⟨h0, h1⟩ := hI
    exact ⟨t, ht, ⟨by omega, by omega⟩, by omega, hlives⟩
  back := fun m hI hlt hb => by
    obtain ⟨t, ht, hr, hcase⟩ := fetchStep_branch c fpu config program bytecode m hI hlt hb
    obtain ⟨h0, h1⟩ := hI
    have hland := (shape c program c.programSize).land_le _ hb
    refine ⟨t, ht, ?_⟩
    rcases hcase with ⟨htk, hz, hpc⟩ | ⟨htk, hpc⟩
    · have hland' : landAt c program m.pc.toNat ≤ m.pc.toNat := hland
      refine ⟨⟨by omega, by omega⟩, .inl ⟨htk, ?_, ?_⟩⟩
      · show t.pc.toNat = landAt c program m.pc.toNat
        omega
      · show livesOf program _ (t.nreg.r _) + 1 = livesOf program _ (m.nreg.r _)
        rw [hr]
        exact livesOf_taken program _ _ hz
    · exact ⟨⟨by omega, by omega⟩, .inr ⟨htk, by omega⟩⟩

theorem inProgram_zero (m : Machine) : InProgram c { m with pc := 0 } :=
  ⟨le_refl _, Int.natCast_nonneg _⟩

theorem exists_executeBytecode (m : Machine) :
    ∃ m', executeBytecode c fpu config (compileProgram c program bytecode) m = some m' ∧
      m'.pc = c.programSize := by
  have H := bounded c fpu config program bytecode
  obtain ⟨t, ht, hIt, hd⟩ := BackEdge.run_bounded H _ (inProgram_zero c m)
  have hge := of_decide_eq_true hd
  have hle := hIt.2
  exact ⟨t, ht, by omega⟩

theorem branchTaken_countP (n : Nat) (m : Machine) (i : Nat) :
    ((executeTrace c fpu config (compileProgram c program bytecode) n m).countP fun p =>
      decide (p.1.pc.toNat = i) && branchTaken (compileProgram c program bytecode) p.1) ≤ 2 := by
  have H := bounded c fpu config program bytecode
  have hI := inProgram_zero c m
  by_cases hb : opAt c program i = .CBRANCH
  · exact BackEdge.takes_bounded H _ _ hI hb
  · rw [List.countP_eq_zero.mpr]
    · exact Nat.zero_le _
    · intro p hp htk
      obtain ⟨hpc, htk⟩ := Bool.and_eq_true_iff.mp htk
      obtain ⟨-, -, hdp, -⟩ := Loop.steps_inv (InProgram c)
        (fun s t hs hds hst => (BackEdge.step_cases H hs hds hst).1) _ _ hI p hp
      refine hb ?_
      rw [← of_decide_eq_true hpc]
      exact opAt_of_branchTaken c program bytecode p.1 (pc_lt_of_fetch hdp) htk

/-- **Every program ends within three instructions for each place, and no branch is taken more than
twice in the whole run.** -/
theorem executeBytecode_terminates (m : Machine) :
    (∃ m', executeBytecode c fpu config (compileProgram c program bytecode) m = some m' ∧
        m'.pc = c.programSize) ∧
      ∀ n, (executeTrace c fpu config (compileProgram c program bytecode) n m).length
          ≤ 3 * c.programSize ∧
        ∀ i : Nat,
          ((executeTrace c fpu config (compileProgram c program bytecode) n m).countP fun p =>
            decide (p.1.pc.toNat = i) && branchTaken (compileProgram c program bytecode) p.1)
              ≤ 2 :=
  ⟨exists_executeBytecode c fpu config program bytecode m, fun n =>
    ⟨BackEdge.steps_bounded (bounded c fpu config program bytecode) n _ (inProgram_zero c m),
      branchTaken_countP c fpu config program bytecode n m⟩⟩

end

end Randx
