import RandxFpga.Oracle.Address

/-!
# The bytecode machine stays inside the scratchpad

`splice n b m` is a memory with the bytes of `m` below `n` and those of `b` from there on.  What
commutes with `splice n b` for every `b` reads no byte from `n` on and writes none.

* `apply_masksWithin`      the masks that `Apply` computes end inside level 3 of the scratchpad,
                           for any sizes with the first two levels inside the third;
* `executeBytecode_splice` then a compiled program commutes with `splice`, so it touches the
                           scratchpad only.
-/

namespace Randx

/-- the bytes of `m` below `n`, those of `b` from `n` on -/
def splice (n : Nat) (b m : Bytes) : Bytes := fun j => if j < n then m j else b j

section
variable {n : Nat} {b m : Bytes}

theorem splice_of_lt {j : Nat} (h : j < n) : splice n b m j = m j := if_pos h

theorem splice_of_ge {j : Nat} (h : n ≤ j) : splice n b m j = b j := if_neg (by omega)

theorem splice_self : splice n m m = m := by
  funext j
  exact ite_self _

theorem load64_congr {m m' : Bytes} {a b : Nat} (h : ∀ j < 8, m (a + j) = m' (b + j)) :
    load64 m a = load64 m' b := by
  rw [load64_eq_iff]
  intro k hk
  rw [byteOf_load64 m' b hk, h k hk]

theorem load64_splice {a : Nat} (h : a + 8 ≤ n) : load64 (splice n b m) a = load64 m a :=
  load64_congr fun j hj => splice_of_lt (by omega)

theorem store64_splice {a : Nat} (w : Word) (h : a + 8 ≤ n) :
    store64 (splice n b m) a w = splice n b (store64 m a w) := by
  funext j
  by_cases hj : a ≤ j ∧ j < a + 8
  · rw [splice_of_lt (by omega), store64, store64, if_pos hj, if_pos hj]
  · show (if _ then _ else splice n b m j) = if j < n then (if _ then _ else _) else b j
    rw [if_neg hj, if_neg hj]
    rfl

/-- two memories that agree below `n` are one memory under `splice` -/
theorem splice_congr {m' : Bytes} (h : ∀ j < n, m j = m' j) : splice n b m = splice n b m' := by
  funext j
  by_cases hj : j < n
  · rw [splice_of_lt hj, splice_of_lt hj, h j hj]
  · rw [splice_of_ge (by omega), splice_of_ge (by omega)]

end

def Machine.splice (n : Nat) (b : Bytes) (m : Machine) : Machine :=
  { m with scratchpad := Randx.splice n b m.scratchpad }

section
variable {n : Nat} {b : Bytes}

theorem memOperand_splice {ibc : InstructionByteCode} {m : Machine}
    (h : (ibc.scratchpadAddress m.nreg).toNat + 8 ≤ n) :
    memOperand ibc (m.splice n b) = memOperand ibc m := load64_splice h

theorem fltMemOperand_splice {fpu : Fpu} {ibc : InstructionByteCode} {m : Machine}
    (h : (ibc.scratchpadAddress m.nreg).toNat + 8 ≤ n) :
    fltMemOperand fpu ibc (m.splice n b) = fltMemOperand fpu ibc m :=
  congrArg fpu.cvtepi32Pd (load64_splice h)

theorem exe_ISWAP_R_splice (ibc : InstructionByteCode) (m : Machine) :
    exe_ISWAP_R ibc (m.splice n b) = (exe_ISWAP_R ibc m).map (Machine.splice n b) := by
  unfold exe_ISWAP_R
  cases ibc.isrc <;> rfl

theorem exe_CBRANCH_splice (ibc : InstructionByteCode) (m : Machine) :
    exe_CBRANCH ibc (m.splice n b) = (exe_CBRANCH ibc m).splice n b := by
  by_cases h : (m.setR ibc.idst (m.nreg.r ibc.idst + ibc.imm)).nreg.r ibc.idst
      &&& ibc.memMask.setWidth 64 = 0
  · rw [exe_CBRANCH, exe_CBRANCH, if_pos h]
    exact if_pos h
  · rw [exe_CBRANCH, exe_CBRANCH, if_neg h]
    exact if_neg h

/-- **An instruction that reaches a word below `n` neither reads nor writes a byte behind.** -/
theorem executeInstruction_splice (fpu : Fpu) (config : ProgramConfiguration)
    {ibc : InstructionByteCode} {m : Machine} (h : ∀ a, ibc.access m.nreg = some a → a + 8 ≤ n) :
    executeInstruction fpu config ibc (m.splice n b)
      = (executeInstruction fpu config ibc m).map (Machine.splice n b) := by
  unfold InstructionByteCode.access at h
  unfold executeInstruction
  cases ht : ibc.type with
  | IADD_M | ISUB_M | IMUL_M | IMULH_M | ISMULH_M | IXOR_M =>
    rw [ht] at h
    exact congrArg (fun x => some (exeInt ibc (m.splice n b) _ x)) (memOperand_splice (h _ rfl))
  | FADD_M | FSUB_M =>
    rw [ht] at h
    exact congrArg (fun x => some (exeFlt ibc (m.splice n b) _ x)) (fltMemOperand_splice (h _ rfl))
  | FDIV_M =>
    rw [ht] at h
    exact congrArg (fun x => some (exeFlt ibc (m.splice n b) _ (maskRegisterExponentMantissa _ x)))
      (fltMemOperand_splice (h _ rfl))
  | ISTORE =>
    rw [ht] at h
    exact congrArg (fun x => some ({ m with scratchpad := x } : Machine)) (store64_splice _ (h _ rfl))
  | ISWAP_R => exact exe_ISWAP_R_splice ibc m
  | CBRANCH => exact congrArg some (exe_CBRANCH_splice ibc m)
  | _ => rfl

end

/-! ## the masks -/

/-- an offset cut by a mask leaves room for a word, one cut by the 64-byte mask for a line -/
structure RandomXConfiguration.MasksWithin (c : RandomXConfiguration) : Prop where
  addressMask : ∀ i, (c.addressMask i).toNat + 8 ≤ c.scratchpadL3Size.toNat
  scratchpadL3Mask : c.scratchpadL3Mask.toNat + 8 ≤ c.scratchpadL3Size.toNat
  scratchpadL3Mask64 : c.scratchpadL3Mask64.toNat + 64 ≤ c.scratchpadL3Size.toNat

/-- the sizes of the levels: the first two hold a word and lie in the third, which holds a line -/
structure RandomXConfiguration.Levels (c : RandomXConfiguration) : Prop where
  word1 : 8 ≤ c.scratchpadL1Size.toNat
  word2 : 8 ≤ c.scratchpadL2Size.toNat
  le1 : c.scratchpadL1Size.toNat ≤ c.scratchpadL3Size.toNat
  le2 : c.scratchpadL2Size.toNat ≤ c.scratchpadL3Size.toNat
  line : 64 ≤ c.scratchpadL3Size.toNat

/-- `(size / k - 1) * k`, without overflow -/
theorem toNat_mask (size k : BitVec 32) (hk : 0 < k.toNat) (h : k.toNat ≤ size.toNat) :
    ((size / k - 1) * k).toNat = (size.toNat / k.toNat - 1) * k.toNat ∧
      ((size / k - 1) * k).toNat + k.toNat ≤ size.toNat := by
  have hq : 1 ≤ size.toNat / k.toNat := Nat.div_pos h hk
  have hmul : size.toNat / k.toNat * k.toNat ≤ size.toNat := Nat.div_mul_le_self _ _
  have hlt := size.isLt
  have hle : size.toNat / k.toNat ≤ size.toNat := Nat.div_le_self _ _
  have hsub : (size / k - 1).toNat = size.toNat / k.toNat - 1 := by
    rw [BitVec.toNat_sub_of_le (by rw [BitVec.le_def, BitVec.toNat_udiv]; exact hq),
      BitVec.toNat_udiv]
    rfl
  have hprod : (size.toNat / k.toNat - 1) * k.toNat + k.toNat ≤ size.toNat := by
    rw [← Nat.succ_mul, Nat.succ_eq_add_one, Nat.sub_add_cancel hq]
    exact hmul
  rw [BitVec.toNat_mul, hsub, Nat.mod_eq_of_lt (by omega)]
  exact ⟨rfl, hprod⟩

theorem apply_masksWithin {c : RandomXConfiguration} (h : c.Levels) : c.apply.MasksWithin where
  addressMask := fun i => by
    have h1 := (toNat_mask c.scratchpadL1Size 8 (by decide) h.word1).2
    have h2 := (toNat_mask c.scratchpadL2Size 8 (by decide) h.word2).2
    have hle1 := h.le1
    have hle2 := h.le2
    show (if i = 0 then _ else _ : BitVec 32).toNat + 8 ≤ c.scratchpadL3Size.toNat
    by_cases h0 : i = 0
    · rw [if_pos h0]
      exact le_trans h2 hle2
    · rw [if_neg h0]
      exact le_trans h1 hle1
  scratchpadL3Mask := by
    have hline := h.line
    exact (toNat_mask c.scratchpadL3Size 8 (by decide) (by show 8 ≤ _; omega)).2
  scratchpadL3Mask64 := by
    have hline := h.line
    have hdiv : (c.scratchpadL3Size / 8).toNat = c.scratchpadL3Size.toNat / 8 := BitVec.toNat_udiv
    have hq : 8 ≤ (c.scratchpadL3Size / 8).toNat := by omega
    show ((c.scratchpadL3Size / 8 / 8 - 1) * 64).toNat + 64 ≤ c.scratchpadL3Size.toNat
    have h64 : c.scratchpadL3Size / 8 / 8 = c.scratchpadL3Size / 64 := by
      apply BitVec.eq_of_toNat_eq
      rw [BitVec.toNat_udiv, hdiv, BitVec.toNat_udiv]
      exact Nat.div_div_eq_div_mul _ 8 8
    rw [h64]
    exact (toNat_mask c.scratchpadL3Size 64 (by decide) hline).2

/-! ## compiled programs -/

section
variable {c : RandomXConfiguration} (hc : c.MasksWithin)

theorem MasksWithin.maskOf (hc : c.MasksWithin) (instr : Instruction) (l : Level) :
    (c.maskOf instr l).toNat + 8 ≤ c.scratchpadL3Size.toNat := by
  cases l with
  | L1 | L2 => exact hc.addressMask _
  | L3 => exact hc.scratchpadL3Mask

include hc

theorem access_within (instr : Instruction) (i : Nat) (ibc : InstructionByteCode)
    (usage : RegisterUsage) (n : NativeRegisterFile) (t : InstructionType) {a : Nat}
    (h : (gen c instr i ibc usage t).1.access n = some a) :
    a + 8 ≤ c.scratchpadL3Size.toNat := by
  rw [access_gen, Option.map_eq_some_iff] at h
  obtain ⟨p, -, rfl⟩ := h
  have hmask := MasksWithin.maskOf hc instr p.1
  have hle : (p.2 &&& (c.maskOf instr p.1).setWidth 64).toNat ≤ (c.maskOf instr p.1).toNat := by
    rw [BitVec.toNat_and, BitVec.toNat_setWidth_of_le (by omega)]
    exact Nat.and_le_right
  omega

theorem executeBytecode_splice (fpu : Fpu) (config : ProgramConfiguration)
    (program : Nat → Instruction) (bytecode : Nat → InstructionByteCode) (b : Bytes) (m : Machine) :
    executeBytecode c fpu config (compileProgram c program bytecode)
        (m.splice c.scratchpadL3Size.toNat b)
      = (executeBytecode c fpu config (compileProgram c program bytecode) m).map
          (Machine.splice c.scratchpadL3Size.toNat b) := by
  refine Loop.run_map (Machine.splice c.scratchpadL3Size.toNat b) (fun _ => rfl) (fun s hd => ?_) _
    { m with pc := 0 }
  have hlt : s.pc.toNat < c.programSize := pc_lt_of_fetch (m := s) hd
  have hwithin : ∀ a, (compileProgram c program bytecode s.pc.toNat).access s.nreg = some a →
      a + 8 ≤ c.scratchpadL3Size.toNat := fun a ha => by
    rw [compileProgram_eq c program bytecode hlt] at ha
    exact access_within hc _ _ _ _ _ _ ha
  have hexec := executeInstruction_splice (b := b) fpu config hwithin
  unfold fetchStep
  show Option.map _ (executeInstruction fpu config (compileProgram c program bytecode s.pc.toNat) _)
    = _
  rw [hexec, Option.map_map, Option.map_map]
  rfl

end
end Randx
