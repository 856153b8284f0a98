import RandxFpga.Refine.OperandSelection

/-!
# A run of the loop engine against the oracle

`executeOnce` compiles a program and executes its instructions once each, in order.  `Completes`
asks the same of the engine: `prog_done` at some time, and the oracle's registers on
`reg_table_out` then.

* `run_of_start`     from the edge of the start on, the engine is in `Running` with the table it
                     started with;
* `completes_never`  so no schedule without a reset completes a program.
-/

namespace Randx
open Hdl

/-! ## the oracle -/

section
variable (c : RandomXConfiguration) (fpu : Fpu) (config : ProgramConfiguration)

/-- instructions `0`, `1`, .., `n - 1` -/
def executeOnce (program : Nat → Instruction) (n : Nat) (m : Machine) : Option Machine :=
  (List.range n).foldlM
    (fun m i => executeInstruction fpu config ((compileTurns c program default n).bytecode i) m) m

theorem executeOnce_isSome (program : Nat → Instruction) (n : Nat)
    (h : ∀ i < n, c.typeOf (program i).opcode ≠ .CBRANCH) (m : Machine) :
    (executeOnce c fpu config program n m).isSome := by
  have hexec : ∀ i < n, ∀ m, ∃ m', executeInstruction fpu config
      ((compileTurns c program default n).bytecode i) m = some m' := by
    intro i hi m
    rw [compileTurns_bytecode, if_pos hi]
    obtain ⟨m', hm', -⟩ := executeInstruction_gen c fpu config (program i) i (default)
      (usageAt c program i) m (h i hi)
    exact ⟨m', hm'⟩
  have hfold : ∀ (l : List Nat), (∀ i ∈ l, i < n) → ∀ m, (l.foldlM
      (fun m i => executeInstruction fpu config ((compileTurns c program default n).bytecode i) m)
      m).isSome := by
    intro l
    induction l with
    | nil => exact fun _ _ => rfl
    | cons i l ih =>
      intro hl m
      obtain ⟨m', hm'⟩ := hexec i (hl i List.mem_cons_self) m
      rw [List.foldlM_cons, hm']
      exact ih (fun j hj => hl j (List.mem_cons_of_mem _ hj)) m'
  exact hfold _ (fun i hi => List.mem_range.mp hi) m

end

def registerOnly : InstructionType → Bool
  | .IADD_RS | .ISUB_R | .IMUL_R | .IMULH_R | .ISMULH_R | .INEG_R | .IXOR_R | .IROR_R | .IROL_R =>
    true
  | _ => false

/-- those that combine two registers only if they differ -/
def needsDistinct : InstructionType → Bool
  | .ISUB_R | .IMUL_R | .IXOR_R | .IROR_R | .IROL_R => true
  | _ => false

def RegisterOnly (c : RandomXConfiguration) (instr : Instruction) : Prop :=
  registerOnly (c.typeOf instr.opcode) = true ∧
    (needsDistinct (c.typeOf instr.opcode) = true → instr.srcReg ≠ instr.dstReg)

instance (c : RandomXConfiguration) (instr : Instruction) : Decidable (RegisterOnly c instr) :=
  inferInstanceAs (Decidable (_ ∧ _))

namespace LoopEngine
section
variable {n : Nat}

/-! ## the engine -/

/-- about to start `program` on the table `T` -/
structure StartsOn (c : RandomXConfiguration) (program : Nat → Instruction) (T : RegWords)
    (s : State n) : Prop extends Starting T s where
  contents : ∀ k : Fin (n + 1), s.program k.castSucc = ((program k).reducedInst c).reduced
  registerOnly : ∀ i < n + 1, RegisterOnly c (program i)

/-- the events from a rising edge on, with `reset` at `'0'` -/
structure Schedule (s : State n) (es : Nat → Event n) : Prop where
  inputs : (es 0).inputs = s.inputs
  rising : (es 0).clk.bit = some true
  reset : ∀ k, (es k).inputs.reset = .F0

def runTo (s : State n) (es : Nat → Event n) (k : Nat) : State n :=
  run s ((List.range k).map es)

/-- at some time the program is done, and the register table holds what the oracle computes from
`T` -/
def Completes (c : RandomXConfiguration) (fpu : Fpu) (config : ProgramConfiguration)
    (program : Nat → Instruction) (T : RegWords) (s : State n) (es : Nat → Event n) : Prop :=
  ∃ k, (runTo s es k).progDone = .F1 ∧
    ∀ m : Machine, (∀ j, m.nreg.r j = T.r j.castSucc) →
      ∃ m', executeOnce c fpu config program (n + 1) m = some m' ∧
        ∀ j : Fin 8, (runTo s es k).regTable.r j.castSucc = .ofBV (m'.nreg.r j)

section
variable {c : RandomXConfiguration} {program : Nat → Instruction} {T : RegWords} {s : State n}
  {es : Nat → Event n}

/-- **From its first edge on the engine runs, on the table of the start.** -/
theorem run_of_start (hs : Starting T s) (hes : Schedule s es) (k : Nat) :
    RunningOn T (runTo s es (k + 1)) := by
  have hfirst : es 0 = ⟨s.inputs, (es 0).clk⟩ := by rw [← hes.inputs]
  unfold runTo
  rw [List.range_succ_eq_map, List.map_cons, run_cons, hfirst]
  refine run_running (step_starting hs hes.rising) fun e he => ?_
  obtain ⟨j, -, rfl⟩ := List.mem_map.mp he
  exact reset_ne_of_eq (hes.reset j)

theorem progDone_of_start (hs : Starting T s) (es : Nat → Event n) (k : Nat) :
    (runTo s es k).progDone = .F0 :=
  progDone_of_notDone (run_notDone hs.notDone _)

/-- **No program completes**: after its start the engine stays in `Running`, with `prog_done` at
`'0'` and the table of the start on `reg_table_out`. -/
theorem completes_never (fpu : Fpu) (config : ProgramConfiguration) (hs : StartsOn c program T s)
    (hes : Schedule s es) :
    ¬ Completes c fpu config program T s es ∧
      (∀ m, (executeOnce c fpu config program (n + 1) m).isSome) ∧
      ∀ k, (runTo s es (k + 1)).progState = .Running ∧ (runTo s es (k + 1)).progDone = .F0 ∧
        (runTo s es (k + 1)).regTable = T.table := by
  refine ⟨?_, ?_, fun k => ?_⟩
  · rintro ⟨k, hdone, -⟩
    rw [progDone_of_start hs.toStarting es] at hdone
    exact StdLogic.noConfusion hdone
  · refine executeOnce_isSome c fpu config program (n + 1) (fun i hi hbranch => ?_)
    have hop := (hs.registerOnly i hi).1
    rw [hbranch] at hop
    exact absurd hop Bool.false_ne_true
  · have hrun := run_of_start hs.toStarting hes k
    exact ⟨hrun.progState, progDone_of_start hs.toStarting es (k + 1), hrun.regTable⟩

end
end

/-! ## a program of one instruction -/

/-- `INEG_R r0` -/
def ineg : Instruction := ⟨84, 0, 0, 0, 0⟩

/-- ready to start `INEG_R r0` on registers that hold `1` -/
def State.readyIneg : State 0 :=
  nextProgStateProcess
    { State.executing (ineg.reducedInst .base) (registerTable fun _ => 1) with
      inputs := { idleInputs 0 with
        reset := .F0, startProg := .F1, regTableIn := (registerTable fun _ => 1).table }
      progState := .Ready }

theorem State.readyIneg_startsOn :
    StartsOn .base (fun _ => ineg) (registerTable fun _ => 1) State.readyIneg where
  stable := nextProgStateProcess_idem _
  progState := nextProgStateProcess_progState _
  clk := by rw [State.readyIneg, nextProgStateProcess_clk]; rfl
  reset := by rw [State.readyIneg, nextProgStateProcess_inputs]
  startProg := by rw [State.readyIneg, nextProgStateProcess_inputs]
  regTableIn := by rw [State.readyIneg, nextProgStateProcess_inputs]
  contents := fun _ => by rw [State.readyIneg, nextProgStateProcess_program]; rfl
  registerOnly := fun _ _ => by decide

def freeRunning {n : Nat} (s : State n) (k : Nat) : Event n :=
  ⟨s.inputs, if k % 2 = 0 then .F1 else .F0⟩

theorem State.readyIneg_schedule : Schedule State.readyIneg (freeRunning State.readyIneg) :=
  ⟨rfl, rfl, fun _ => by
    show State.readyIneg.inputs.reset = .F0
    exact State.readyIneg_startsOn.reset⟩

theorem completes_never_ineg :
    ¬ Completes .base default default (fun _ => ineg) (registerTable fun _ => 1)
      State.readyIneg (freeRunning State.readyIneg) :=
  (completes_never default default State.readyIneg_startsOn State.readyIneg_schedule).1

theorem not_completes_ineg : ¬ ∀ (n : Nat) (c : RandomXConfiguration) (fpu : Fpu)
    (config : ProgramConfiguration) (program : Nat → Instruction) (T : RegWords) (s : State n)
    (es : Nat → Event n), StartsOn c program T s → Schedule s es →
    Completes c fpu config program T s es := by
  intro h
  obtain ⟨k, hdone, -⟩ := h 0 .base default default (fun _ => ineg) _ _ _
    State.readyIneg_startsOn State.readyIneg_schedule
  rw [progDone_of_start State.readyIneg_startsOn.toStarting] at hdone
  exact StdLogic.noConfusion hdone

end LoopEngine
end Randx
