import RandxFpga.Fpga.IntAlu
import RandxFpga.Run.Store

/-!
# The loop engine (`loop_engine.vhd`)

The generic `num_instructions` is `m + 1`.  An `Event` is a change of the input ports, of `clk` or
of both in one delta cycle, and `step` runs the processes until the signals are stable again:

* `nextProgStateProcess`   the combinational process, with the latches it infers;
* `progRunProcess`         the process that is sensitive to `clk` without a test for the edge;
* `loadProgProcess`, `progStateStorageProcess` and the integer ALU, at rising edges.

`reg_table_s` has two drivers, `drvNext` of the first process and `drvRun` of the second.  No
process drives `prog_counter_s` and `prog_is_terminating`.

* `nextProgStateProcess_idem`   one run of the combinational process is enough;
* `NotDone`, `run_notDone`      `Done` is never entered;
* `run_running`                 a run that has started keeps its first register table.
-/

namespace Randx
open Hdl

namespace LoopEngine

inductive ProgState where
  | Ready | Running | Done
  deriving DecidableEq, Repr

theorem ProgState.eq_cases (p : ProgState) : p = .Ready ∨ p = .Running ∨ p = .Done := by
  cases p <;> decide

structure Inputs (m : Nat) where
  reset : StdLogic
  regTableIn : RegTable
  progInInst : ReducedInst
  progInAddr : Fin (m + 1)
  progInEnable : StdLogic
  startProg : StdLogic
  spadRd : Slv 64

/-- the operand registers of the two ALUs -/
structure Operands where
  intALUInDst : Slv 64
  intALUInSrc : Slv 64
  floatALUInDst : FloatReg
  floatALUInSrc : FloatReg

structure State (m : Nat) where
  inputs : Inputs m
  clk : StdLogic
  /-- `program_arr_t` runs from `0` to `num_instructions` -/
  program : Fin (m + 2) → ReducedInst
  progState : ProgState
  nextProgState : ProgState
  /-- driver of `reg_table_s` in `NextProgStateProcess` -/
  drvNext : RegTable
  /-- driver of `reg_table_s` in `ProgRunProcess` -/
  drvRun : RegTable
  operands : Operands
  intALU : IntAlu.State

/-- `intALU_inTag` -/
def inTag : OpTag := ⟨.F1, 0⟩

section
variable {m : Nat}

namespace State

/-- `reg_table_s`, also the output `reg_table_out` -/
def regTable (s : State m) : RegTable := s.drvNext.resolve s.drvRun

/-- `prog_counter_s` has no driver: the first value of its range -/
def progCounter (_ : State m) : Fin (m + 1) := 0

/-- `prog_is_terminating` has no driver -/
def progIsTerminating (_ : State m) : StdLogic := .U

def curInst (s : State m) : ReducedInst := s.program s.progCounter.castSucc

def progDone (s : State m) : StdLogic := if s.progState = .Done then .F1 else .F0

def aluInputs (s : State m) : IntAlu.Inputs :=
  ⟨s.operands.intALUInDst, s.operands.intALUInSrc, s.curInst, inTag⟩

end State

/-! ## `NextProgStateProcess` -/

def nextProgStateProcess (s : State m) : State m :=
  if s.inputs.reset = .F1 then { s with nextProgState := .Ready }
  else
    -- `reg_table_s <= reg_table_s`
    let s' := { s with drvNext := s.regTable }
    match s.progState with
    | .Ready =>
      if s.inputs.startProg = .F1 then
        { s' with drvNext := s.inputs.regTableIn, nextProgState := .Running }
      else { s' with nextProgState := .Ready }
    | .Running =>
      if s.progIsTerminating = .F1 then { s' with nextProgState := .Done }
      else { s' with nextProgState := .Running }
    | .Done => s'

/-! ## `ProgRunProcess` -/

/-- `cur_inst_src8`, `cur_inst_dst8`: an index of the nine registers -/
def reg8 (v : Slv 3) : Fin 9 := ⟨v.toInteger, Nat.lt_succ_of_lt v.toInteger_lt⟩

/-- `cur_inst_src4`, `cur_inst_dst4`: an index of the five registers -/
def reg4 (v : Slv 3) : Fin 5 :=
  ⟨(v.slice 0 2).toInteger, Nat.lt_succ_of_lt (v.slice 0 2).toInteger_lt⟩

section
variable (inst : ReducedInst) (table : RegTable) (spadRd : Slv 64) (o : Operands)

def intR : Operands :=
  { o with intALUInSrc := table.r (reg8 inst.src), intALUInDst := table.r (reg8 inst.dst) }

/-- the operations on a register and `spad_rd_r_convert` -/
def intM : Operands :=
  { o with intALUInSrc := spadRd, intALUInDst := table.r (reg8 inst.dst) }

def fltR : Operands :=
  { o with floatALUInSrc := table.a (reg4 inst.src), floatALUInDst := table.f (reg4 inst.dst) }

/-- `FADD_M`, `FSUB_M` on `spad_rd_f_convert` -/
def fltM : Operands :=
  { o with floatALUInSrc := ⟨spadRd, spadRd⟩, floatALUInDst := table.f (reg4 inst.dst) }

def fltE : Operands :=
  { o with floatALUInSrc := table.a (reg4 inst.src), floatALUInDst := table.e (reg4 inst.dst) }

/-- the operands that the `case` of `ProgRunProcess` assigns -/
def selectOperands : Operands :=
  match inst.opcode with
  | .IADD_RS => intR inst table o
  | .IADD_M => intM inst table spadRd o
  | .ISUB_R => intR inst table o
  | .ISUB_M => intM inst table spadRd o
  | .IMUL_R => intR inst table o
  | .IMUL_M => intM inst table spadRd o
  | .IMULH_R => intR inst table o
  | .IMULH_M => intM inst table spadRd o
  | .ISMULH_R => intR inst table o
  | .ISMULH_M => intM inst table spadRd o
  | .IMUL_RCP => intR inst table o
  | .INEG_R => intR inst table o
  | .IXOR_R => intR inst table o
  | .IXOR_M => intM inst table spadRd o
  | .IROR_R => intR inst table o
  | .IROL_R => intR inst table o
  | .ISWAP_R => o
  | .FSWAP_R => o
  | .FADD_R => fltR inst table o
  | .FADD_M => fltM inst table spadRd o
  | .FSUB_R => fltR inst table o
  | .FSUB_M => fltM inst table spadRd o
  | .FSCAL_R => fltR inst table o
  | .FMUL_R => fltE inst table o
  | .FDIV_M =>
    { o with floatALUInSrc := ⟨spadRd, spadRd⟩, floatALUInDst := table.e (reg4 inst.dst) }
  | .FSQRT_R => fltE inst table o
  | .CBRANCH => o
  | .CFROUND => o
  | .ISTORE => o
  | .NOP => o

end

/-- what `ProgRunProcess` assigns at an event of `clk` -/
def progRunProcess (s : State m) : RegTable × Operands :=
  match s.progState with
  | .Ready => (if s.nextProgState = .Running then s.inputs.regTableIn else s.drvRun, s.operands)
  | .Running => (s.drvRun, selectOperands s.curInst s.regTable s.inputs.spadRd s.operands)
  | .Done => (s.drvRun, s.operands)

/-! ## the other clocked processes -/

def loadProgProcess (s : State m) : Fin (m + 2) → ReducedInst :=
  if s.inputs.progInEnable = .F1 ∧ s.progState = .Done then
    Function.update s.program s.inputs.progInAddr.castSucc s.inputs.progInInst
  else s.program

def progStateStorageProcess (s : State m) : ProgState := s.nextProgState

/-! ## events -/

structure Event (m : Nat) where
  inputs : Inputs m
  clk : StdLogic

/-- `rising_edge(clk)`, at an event that takes `clk` from `old` to `new` -/
def risingEdge (old new : StdLogic) : Bool := old.bit == some false && new.bit == some true

/-- every clocked process reads the signals of `s`; the combinational one sees the same inputs -/
def clockEvent (s : State m) (clk : StdLogic) : State m :=
  let rising := risingEdge s.clk clk
  { nextProgStateProcess s with
    clk := clk
    program := if rising then loadProgProcess s else s.program
    progState := if rising then progStateStorageProcess s else s.progState
    drvRun := (progRunProcess s).1
    -- `spad_rd_r_convert` follows `spad_rd` in the next delta only: one that changes together with
    -- `clk` is taken too early here
    operands := (progRunProcess s).2
    intALU := if rising then IntAlu.rising s.aluInputs else s.intALU }

def State.drive (s : State m) (i : Inputs m) : State m := { s with inputs := i }

def step (s : State m) (e : Event m) : State m :=
  nextProgStateProcess
    (if e.clk = s.clk then s.drive e.inputs else clockEvent (s.drive e.inputs) e.clk)

def run (s : State m) (es : List (Event m)) : State m := es.foldl step s

/-- every signal at its default -/
def elaborated (i : Inputs m) (clk : StdLogic) : State m where
  inputs := i
  clk := clk
  program := fun _ => .default
  progState := .Ready
  nextProgState := .Ready
  drvNext := .allU
  drvRun := .allU
  operands := ⟨Slv.allU, Slv.allU, .allU, .allU⟩
  intALU := ⟨Slv.allU, ⟨.U, 0⟩⟩

/-- the clocked processes find no edge, and `ProgRunProcess` nothing to load -/
def powerUp (i : Inputs m) (clk : StdLogic) : State m := nextProgStateProcess (elaborated i clk)

/-- ports under reset, with nothing to load or to start -/
def idleInputs (m : Nat) : Inputs m := ⟨.F1, .allU, .default, 0, .F0, .F0, Slv.allU⟩

theorem run_cons (s : State m) (e : Event m) (es : List (Event m)) :
    run s (e :: es) = run (step s e) es := rfl

theorem run_append (s : State m) (es es' : List (Event m)) :
    run s (es ++ es') = run (run s es) es' := List.foldl_append

/-- no event of the list is a rising edge, where `clk` comes from the given value -/
def NoEdge (clk : StdLogic) : List (Event m) → Prop
  | [] => True
  | e :: es => risingEdge clk e.clk = false ∧ NoEdge e.clk es

/-! ## one event -/

section
variable (s : State m) (e : Event m)

theorem nextProgStateProcess_reset (hr : s.inputs.reset = .F1) :
    nextProgStateProcess s = { s with nextProgState := .Ready } := if_pos hr

theorem nextProgStateProcess_start (hr : s.inputs.reset ≠ .F1) (hs : s.progState = .Ready)
    (hst : s.inputs.startProg = .F1) :
    nextProgStateProcess s
      = { s with drvNext := s.inputs.regTableIn, nextProgState := .Running } := by
  unfold nextProgStateProcess
  rw [if_neg hr, hs]
  exact if_pos hst

theorem nextProgStateProcess_ready (hr : s.inputs.reset ≠ .F1) (hs : s.progState = .Ready)
    (hst : s.inputs.startProg ≠ .F1) :
    nextProgStateProcess s = { s with drvNext := s.regTable, nextProgState := .Ready } := by
  unfold nextProgStateProcess
  rw [if_neg hr, hs]
  exact if_neg hst

/-- `prog_is_terminating` is never `'1'` -/
theorem nextProgStateProcess_running (hr : s.inputs.reset ≠ .F1) (hs : s.progState = .Running) :
    nextProgStateProcess s = { s with drvNext := s.regTable, nextProgState := .Running } := by
  unfold nextProgStateProcess
  rw [if_neg hr, hs]
  rfl

theorem nextProgStateProcess_done (hr : s.inputs.reset ≠ .F1) (hs : s.progState = .Done) :
    nextProgStateProcess s = { s with drvNext := s.regTable } := by
  unfold nextProgStateProcess
  rw [if_neg hr, hs]

theorem nextProgStateProcess_frame :
    ∃ d n, nextProgStateProcess s = { s with drvNext := d, nextProgState := n } ∧
      (n = .Done → s.nextProgState = .Done) := by
  by_cases hr : s.inputs.reset = .F1
  · exact ⟨_, _, nextProgStateProcess_reset s hr, nofun⟩
  · rcases s.progState.eq_cases with hs | hs | hs
    · by_cases hst : s.inputs.startProg = .F1
      · exact ⟨_, _, nextProgStateProcess_start s hr hs hst, nofun⟩
      · exact ⟨_, _, nextProgStateProcess_ready s hr hs hst, nofun⟩
    · exact ⟨_, _, nextProgStateProcess_running s hr hs, nofun⟩
    · exact ⟨_, _, nextProgStateProcess_done s hr hs, id⟩

@[simp] theorem nextProgStateProcess_inputs : (nextProgStateProcess s).inputs = s.inputs := by
  obtain ⟨d, n, h, -⟩ := nextProgStateProcess_frame s
  rw [h]

@[simp] theorem nextProgStateProcess_clk : (nextProgStateProcess s).clk = s.clk := by
  obtain ⟨d, n, h, -⟩ := nextProgStateProcess_frame s
  rw [h]

@[simp] theorem nextProgStateProcess_program : (nextProgStateProcess s).program = s.program := by
  obtain ⟨d, n, h, -⟩ := nextProgStateProcess_frame s
  rw [h]

@[simp] theorem nextProgStateProcess_progState :
    (nextProgStateProcess s).progState = s.progState := by
  obtain ⟨d, n, h, -⟩ := nextProgStateProcess_frame s
  rw [h]

/-- **The combinational process is stable after one run**, although it reads what it drives. -/
theorem nextProgStateProcess_idem :
    nextProgStateProcess (nextProgStateProcess s) = nextProgStateProcess s := by
  have hlatch : (s.drvNext.resolve s.drvRun).resolve s.drvRun = s.drvNext.resolve s.drvRun :=
    RegTable.resolve_latch _ _
  -- the second run sees the inputs and the state of the first
  set t := nextProgStateProcess s with ht
  have hti : t.inputs = s.inputs := nextProgStateProcess_inputs s
  have hts : t.progState = s.progState := nextProgStateProcess_progState s
  by_cases hr : s.inputs.reset = .F1
  · rw [nextProgStateProcess_reset t (by rw [hti, hr]), ht, nextProgStateProcess_reset s hr]
  · have hr' : t.inputs.reset ≠ .F1 := by rwa [hti]
    rcases s.progState.eq_cases with hs | hs | hs
    · by_cases hst : s.inputs.startProg = .F1
      · rw [nextProgStateProcess_start t hr' (by rw [hts, hs]) (by rw [hti, hst]), ht,
          nextProgStateProcess_start s hr hs hst]
      · rw [nextProgStateProcess_ready t hr' (by rw [hts, hs]) (by rwa [hti]), ht,
          nextProgStateProcess_ready s hr hs hst]
        simp only [State.regTable, hlatch]
    · rw [nextProgStateProcess_running t hr' (by rw [hts, hs]), ht,
        nextProgStateProcess_running s hr hs]
      simp only [State.regTable, hlatch]
    · rw [nextProgStateProcess_done t hr' (by rw [hts, hs]), ht,
        nextProgStateProcess_done s hr hs]
      simp only [State.regTable, hlatch]

theorem risingEdge_self (v : StdLogic) : risingEdge v v = false := by cases v <;> rfl

theorem step_clk : (step s e).clk = e.clk := by
  unfold step
  rw [nextProgStateProcess_clk]
  by_cases h : e.clk = s.clk
  · rw [if_pos h]
    exact h.symm
  · rw [if_neg h]
    rfl

theorem step_progState :
    (step s e).progState = if risingEdge s.clk e.clk then s.nextProgState else s.progState := by
  unfold step
  rw [nextProgStateProcess_progState]
  by_cases h : e.clk = s.clk
  · rw [if_pos h, h, risingEdge_self]
    rfl
  · rw [if_neg h]
    rfl

theorem step_program :
    (step s e).program = if risingEdge s.clk e.clk
      then loadProgProcess (s.drive e.inputs) else s.program := by
  unfold step
  rw [nextProgStateProcess_program]
  by_cases h : e.clk = s.clk
  · rw [if_pos h, h, risingEdge_self]
    rfl
  · rw [if_neg h]
    rfl

end

/-! ## `Done` is never entered -/

def NotDone (s : State m) : Prop := s.progState ≠ .Done ∧ s.nextProgState ≠ .Done

theorem nextProgStateProcess_notDone {s : State m} (h : NotDone s) :
    NotDone (nextProgStateProcess s) := by
  obtain ⟨d, n, heq, hn⟩ := nextProgStateProcess_frame s
  rw [heq]
  exact ⟨h.1, fun hd => h.2 (hn hd)⟩

theorem step_notDone {s : State m} (h : NotDone s) (e : Event m) : NotDone (step s e) := by
  refine nextProgStateProcess_notDone ?_
  by_cases hc : e.clk = s.clk
  · rw [if_pos hc]
    exact h
  · rw [if_neg hc]
    refine ⟨?_, (nextProgStateProcess_notDone (s := s.drive e.inputs) h).2⟩
    show (if risingEdge s.clk e.clk then s.nextProgState else s.progState) ≠ .Done
    split_ifs
    · exact h.2
    · exact h.1

/-- **No run enters `Done`.** -/
theorem run_notDone {s : State m} (h : NotDone s) (es : List (Event m)) : NotDone (run s es) := by
  induction es generalizing s with
  | nil => exact h
  | cons e es ih => exact ih (step_notDone h e)

theorem powerUp_notDone (i : Inputs m) (clk : StdLogic) : NotDone (powerUp i clk) :=
  nextProgStateProcess_notDone ⟨ProgState.noConfusion, ProgState.noConfusion⟩

theorem progDone_of_notDone {s : State m} (h : NotDone s) : s.progDone = .F0 := if_neg h.1

/-! ## a run that has started -/

/-- in `Running`, with both drivers of the register table at `T` -/
structure RunningOn (T : RegWords) (s : State m) : Prop where
  progState : s.progState = .Running
  nextProgState : s.nextProgState = .Running
  drvNext : s.drvNext = T.table
  drvRun : s.drvRun = T.table

theorem RunningOn.regTable {T : RegWords} {s : State m} (h : RunningOn T s) :
    s.regTable = T.table := by
  rw [State.regTable, h.drvNext, h.drvRun, RegWords.resolve_self]

theorem progRunProcess_running {s : State m} (hs : s.progState = .Running) :
    (progRunProcess s).1 = s.drvRun := by
  unfold progRunProcess
  rw [hs]

theorem nextProgStateProcess_runningOn {T : RegWords} {s : State m} (hs : s.progState = .Running)
    (hreset : s.inputs.reset ≠ .F1) (hnext : s.drvNext = T.table) (hrun : s.drvRun = T.table) :
    RunningOn T (nextProgStateProcess s) := by
  have htable : s.regTable = T.table := by rw [State.regTable, hnext, hrun, RegWords.resolve_self]
  rw [nextProgStateProcess_running s hreset hs]
  exact ⟨hs, rfl, htable, hrun⟩

theorem step_running {T : RegWords} {s : State m} (h : RunningOn T s) {e : Event m}
    (hreset : e.inputs.reset ≠ .F1) : RunningOn T (step s e) := by
  have hcomb : RunningOn T (nextProgStateProcess (s.drive e.inputs)) :=
    nextProgStateProcess_runningOn h.progState hreset h.drvNext h.drvRun
  unfold step
  by_cases hc : e.clk = s.clk
  · rw [if_pos hc]
    exact hcomb
  · rw [if_neg hc]
    refine nextProgStateProcess_runningOn ?_ ?_ hcomb.drvNext ?_
    · show (if risingEdge s.clk e.clk then s.nextProgState else s.progState) = .Running
      rw [h.nextProgState, h.progState, ite_self]
    · show (nextProgStateProcess (s.drive e.inputs)).inputs.reset ≠ .F1
      rw [nextProgStateProcess_inputs]
      exact hreset
    · exact (progRunProcess_running (s := s.drive e.inputs) h.progState).trans h.drvRun

/-- **Without a reset a started run stays in `Running` and keeps the table it started with.** -/
theorem run_running {T : RegWords} {s : State m} (h : RunningOn T s) {es : List (Event m)}
    (hreset : ∀ e ∈ es, e.inputs.reset ≠ .F1) : RunningOn T (run s es) := by
  induction es generalizing s with
  | nil => exact h
  | cons e es ih =>
    exact ih (step_running h (hreset e List.mem_cons_self))
      (fun e' he' => hreset e' (List.mem_cons_of_mem _ he'))

/-- in `Ready` before a rising edge, with `start_prog` at `'1'` and the table `T` on its port -/
structure Starting (T : RegWords) (s : State m) : Prop where
  stable : nextProgStateProcess s = s
  progState : s.progState = .Ready
  clk : s.clk.bit = some false
  reset : s.inputs.reset = .F0
  startProg : s.inputs.startProg = .F1
  regTableIn : s.inputs.regTableIn = T.table

theorem reset_ne_of_eq {v : StdLogic} (h : v = .F0) : v ≠ .F1 := by
  rw [h]
  exact StdLogic.noConfusion

theorem Starting.next {T : RegWords} {s : State m} (h : Starting T s) :
    s.nextProgState = .Running ∧ s.drvNext = T.table := by
  rw [← h.stable,
    nextProgStateProcess_start s (reset_ne_of_eq h.reset) h.progState h.startProg]
  exact ⟨rfl, h.regTableIn⟩

theorem Starting.notDone {T : RegWords} {s : State m} (h : Starting T s) : NotDone s :=
  ⟨by rw [h.progState]; exact ProgState.noConfusion,
    by rw [h.next.1]; exact ProgState.noConfusion⟩

theorem step_starting {T : RegWords} {s : State m} (h : Starting T s) {clk : StdLogic}
    (hclk : clk.bit = some true) : RunningOn T (step s ⟨s.inputs, clk⟩) := by
  have hne : clk ≠ s.clk := by
    intro e
    rw [e, h.clk] at hclk
    exact absurd hclk (by decide)
  have hrise : risingEdge s.clk clk = true := by
    unfold risingEdge
    rw [h.clk, hclk]
    rfl
  obtain ⟨hnext, hdrv⟩ := h.next
  show RunningOn T (nextProgStateProcess (if clk = s.clk then s else clockEvent s clk))
  rw [if_neg hne]
  refine nextProgStateProcess_runningOn ?_ ?_ ?_ ?_
  · show (if risingEdge s.clk clk then s.nextProgState else s.progState) = .Running
    rw [hrise, if_pos rfl, hnext]
  · show (nextProgStateProcess s).inputs.reset ≠ .F1
    rw [h.stable]
    exact reset_ne_of_eq h.reset
  · show (nextProgStateProcess s).drvNext = T.table
    rw [h.stable, hdrv]
  · show (progRunProcess s).1 = T.table
    unfold progRunProcess
    rw [h.progState]
    show (if s.nextProgState = .Running then s.inputs.regTableIn else s.drvRun) = T.table
    rw [if_pos hnext, h.regTableIn]

end
end LoopEngine
end Randx
