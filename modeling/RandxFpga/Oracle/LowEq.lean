import RandxFpga.Oracle.Exec

/-!
# Runs that differ in their floating-point state

`LowEq` relates machines with the same `pc`, integer registers and scratchpad.  The floating-point
registers, the rounding mode, `eMask` and the arithmetic on doubles itself may differ.

`InstructionByteCode.access` is the offset into the scratchpad that an instruction reads or writes
at.  Bytecodes that agree in all but their mask (`SameUpToMask`) do the same to related machines as
long as they reach the same offset.

* `executeInstruction_lowEq`   one instruction;
* `executeBytecode_lowEq`      the whole fetch loop, executed instruction by executed instruction.
-/

namespace Randx

structure LowEq (m n : Machine) : Prop where
  pc : m.pc = n.pc
  r : m.nreg.r = n.nreg.r
  scratchpad : m.scratchpad = n.scratchpad

theorem LowEq.refl (m : Machine) : LowEq m m := ⟨rfl, rfl, rfl⟩

theorem LowEq.setR {m n : Machine} (h : LowEq m n) (k : Fin 8) {x y : Word} (hxy : x = y) :
    LowEq (m.setR k x) (n.setR k y) :=
  ⟨h.pc, by rw [Machine.setR_r, Machine.setR_r, h.r, hxy], h.scratchpad⟩

theorem LowEq.setFlt {m n : Machine} (h : LowEq m n) (k l : FReg) (x y : VecF128) :
    LowEq (m.setFlt k x) (n.setFlt l y) :=
  ⟨h.pc, by rw [Machine.setFlt_r, Machine.setFlt_r, h.r], h.scratchpad⟩

/-- the offset into the scratchpad that an instruction reads or writes at -/
def InstructionByteCode.access (ibc : InstructionByteCode) (n : NativeRegisterFile) : Option Nat :=
  match ibc.type with
  | .IADD_M | .ISUB_M | .IMUL_M | .IMULH_M | .ISMULH_M | .IXOR_M | .FADD_M | .FSUB_M | .FDIV_M =>
    some (ibc.scratchpadAddress n).toNat
  | .ISTORE => some (ibc.storeAddress n).toNat
  | _ => none

/-- the members an instruction with an integer result reads are the same, but for the mask of a
memory operand -/
structure SameUpToMask (b d : InstructionByteCode) : Prop where
  idst : b.idst = d.idst
  isrc : b.isrc = d.isrc
  imm : b.imm = d.imm
  type : b.type = d.type
  target : b.target = d.target
  shift : b.shift = d.shift
  memMask : b.type = .CBRANCH → b.memMask = d.memMask

theorem SameUpToMask.refl (b : InstructionByteCode) : SameUpToMask b b :=
  ⟨rfl, rfl, rfl, rfl, rfl, rfl, fun _ => rfl⟩

section
variable {b d : InstructionByteCode} {m n : Machine}

theorem SameUpToMask.isrcVal (h : SameUpToMask b d) (hm : LowEq m n) :
    b.isrcVal m.nreg = d.isrcVal n.nreg := by
  unfold InstructionByteCode.isrcVal
  rw [h.isrc, h.imm, hm.r]

theorem LowEq.exeInt (hm : LowEq m n) (h : SameUpToMask b d) (op : Word → Word → Word)
    {x y : Word} (hxy : x = y) : LowEq (exeInt b m op x) (exeInt d n op y) := by
  unfold Randx.exeInt
  rw [h.idst]
  exact hm.setR _ (by rw [hm.r, hxy])

/-- an instruction with a memory operand, at the same offset -/
theorem LowEq.exeInt_mem (hm : LowEq m n) (h : SameUpToMask b d) (op : Word → Word → Word)
    (ha : some (b.scratchpadAddress m.nreg).toNat = some (d.scratchpadAddress n.nreg).toNat) :
    LowEq (Randx.exeInt b m op (memOperand b m)) (Randx.exeInt d n op (memOperand d n)) := by
  refine hm.exeInt h op ?_
  unfold memOperand
  rw [Option.some.inj ha, hm.scratchpad]

theorem LowEq.exe_ISWAP_R (hm : LowEq m n) (h : SameUpToMask b d) :
    Option.Rel LowEq (exe_ISWAP_R b m) (exe_ISWAP_R d n) := by
  unfold Randx.exe_ISWAP_R
  rw [h.isrc, h.idst, hm.r]
  cases d.isrc with
  | r k => exact .some ((hm.setR k rfl).setR d.idst rfl)
  | imm => exact .none
  | zero => exact .none

theorem LowEq.exe_CBRANCH (hm : LowEq m n) (h : SameUpToMask b d) (ht : b.type = .CBRANCH) :
    LowEq (exe_CBRANCH b m) (exe_CBRANCH d n) where
  pc := by
    rw [exe_CBRANCH_pc, exe_CBRANCH_pc, h.idst, h.imm, h.memMask ht, h.target, hm.r, hm.pc]
  r := by
    rw [exe_CBRANCH_r, exe_CBRANCH_r, h.idst, h.imm, hm.r]
  scratchpad := by
    unfold Randx.exe_CBRANCH
    dsimp only
    split_ifs <;> exact hm.scratchpad

theorem LowEq.exe_ISTORE (hm : LowEq m n) (h : SameUpToMask b d)
    (ha : some (b.storeAddress m.nreg).toNat = some (d.storeAddress n.nreg).toNat) :
    LowEq (exe_ISTORE b m) (exe_ISTORE d n) where
  pc := hm.pc
  r := hm.r
  scratchpad := by
    show store64 _ _ _ = store64 _ _ _
    rw [Option.some.inj ha, hm.scratchpad, h.isrcVal hm]

/-- **One instruction keeps the relation**: nothing moves from the floating-point state into `pc`,
the integer registers or the scratchpad. -/
theorem executeInstruction_lowEq (fpu fpu' : Fpu) (config config' : ProgramConfiguration)
    (h : SameUpToMask b d) (hm : LowEq m n) (ha : b.access m.nreg = d.access n.nreg) :
    Option.Rel LowEq (executeInstruction fpu config b m) (executeInstruction fpu' config' d n) := by
  have hsrc := h.isrcVal hm
  unfold executeInstruction
  unfold InstructionByteCode.access at ha
  rw [← h.type] at ha ⊢
  cases ht : b.type with
  | IADD_M | ISUB_M | IMUL_M | IMULH_M | ISMULH_M | IXOR_M =>
    rw [ht] at ha
    exact .some (hm.exeInt_mem h _ ha)
  | IADD_RS => exact .some (hm.exeInt h _ (by rw [hsrc, h.shift, h.imm]))
  | ISUB_R | IMUL_R | IMULH_R | ISMULH_R | IXOR_R | IROR_R | IROL_R =>
    exact .some (hm.exeInt h _ hsrc)
  | INEG_R =>
    refine .some ?_
    unfold exe_INEG_R
    rw [h.idst]
    exact hm.setR _ (by rw [hm.r])
  | ISWAP_R => exact hm.exe_ISWAP_R h
  | FSWAP_R | FADD_R | FADD_M | FSUB_R | FSUB_M | FSCAL_R | FMUL_R | FDIV_M | FSQRT_R =>
    exact .some (hm.setFlt _ _ _ _)
  | CBRANCH => exact .some (hm.exe_CBRANCH h ht)
  | CFROUND => exact .some ⟨hm.pc, hm.r, hm.scratchpad⟩
  | ISTORE =>
    rw [ht] at ha
    exact .some (hm.exe_ISTORE h ha)
  | NOP => exact .some hm
  | IMUL_RCP => exact .none

end

/-! ## the fetch loop -/

theorem InstructionByteCode.access_congr (ibc : InstructionByteCode) {n n' : NativeRegisterFile}
    (h : n.r = n'.r) : ibc.access n = ibc.access n' := by
  have hval : ibc.isrcVal n = ibc.isrcVal n' := by
    unfold InstructionByteCode.isrcVal
    rw [h]
  unfold access scratchpadAddress storeAddress
  rw [hval, h]

section
variable {c : RandomXConfiguration} {bytecode bytecode' : Nat → InstructionByteCode}

/-- the instruction at `pc` reaches the same offset in both bytecodes -/
def SameAccess (bytecode bytecode' : Nat → InstructionByteCode) (m : Machine) : Prop :=
  (bytecode m.pc.toNat).access m.nreg = (bytecode' m.pc.toNat).access m.nreg

theorem fetchStep_lowEq (fpu fpu' : Fpu) (config config' : ProgramConfiguration)
    (hcode : ∀ i < c.programSize, SameUpToMask (bytecode i) (bytecode' i))
    {m n : Machine} (hm : LowEq m n) (hd : fetchDone c m = false)
    (ha : SameAccess bytecode bytecode' m) :
    Option.Rel LowEq (fetchStep fpu config bytecode m) (fetchStep fpu' config' bytecode' n) := by
  have hrel := executeInstruction_lowEq fpu fpu' config config' (hcode _ (pc_lt_of_fetch hd)) hm
    (ha.trans ((bytecode' m.pc.toNat).access_congr hm.r))
  unfold fetchStep
  rw [← hm.pc]
  revert hrel
  cases executeInstruction fpu config (bytecode m.pc.toNat) m with
  | none =>
    cases executeInstruction fpu' config' (bytecode' m.pc.toNat) n with
    | none => exact fun _ => .none
    | some n' => exact fun hrel => nomatch hrel
  | some m' =>
    cases executeInstruction fpu' config' (bytecode' m.pc.toNat) n with
    | none => exact fun hrel => nomatch hrel
    | some n' =>
      intro hrel
      have hmn : LowEq m' n' := by cases hrel; assumption
      exact .some ⟨congrArg (· + 1) hmn.pc, hmn.r, hmn.scratchpad⟩

/-- **Two runs instruction by instruction**, as long as those of the first one reach the same
offsets in both bytecodes. -/
theorem executeBytecode_lowEq (c c' : RandomXConfiguration) (fpu fpu' : Fpu)
    (config config' : ProgramConfiguration)
    (hsize : c.programSize = c'.programSize)
    (hcode : ∀ i < c.programSize, SameUpToMask (bytecode i) (bytecode' i))
    {m n : Machine} (hm : LowEq m n)
    (ha : ∀ p ∈ executeTrace c fpu config bytecode (3 * c.programSize) m,
      SameAccess bytecode bytecode' p.1)
    (hstuck : ∀ u, fetchDone c u = false → fetchStep fpu config bytecode u = none →
      SameAccess bytecode bytecode' u) :
    Option.Rel LowEq (executeBytecode c fpu config bytecode m)
        (executeBytecode c' fpu' config' bytecode' n) ∧
      List.Forall₂ (fun p q => LowEq p.1 q.1 ∧ LowEq p.2 q.2)
        (executeTrace c fpu config bytecode (3 * c.programSize) m)
        (executeTrace c' fpu' config' bytecode' (3 * c'.programSize) n) := by
  unfold executeBytecode executeTrace
  rw [← hsize]
  refine Loop.run_sim LowEq (SameAccess bytecode bytecode') ?_ ?_ _ _ _
    ⟨rfl, hm.r, hm.scratchpad⟩ ha hstuck
  · intro s t hst
    unfold fetchDone
    rw [hst.pc, hsize]
  · intro s t hst hd hs
    exact fetchStep_lowEq fpu fpu' config config' hcode hst hd hs

end
end Randx
