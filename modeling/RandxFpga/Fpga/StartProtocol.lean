import RandxFpga.Fpga.LoopEngine

/-!
# Starting a program

A run of the engine is read at the rising edges of `clk`.  The value of a signal at an edge is the
one it has in the state before the edge, which is what a register clocked there takes.

* `Settled`            what holds in every reachable state between two events;
* `regTable_of_start`  both drivers of `reg_table_s` hold the table of the start until the next edge;
* `startsOnEdges_iff`  when the level-sensitive start is the documented edge-sensitive one.
-/

namespace Randx
open Hdl

namespace LoopEngine
section
variable {m : Nat}

/-! ## settled states -/

/-- the combinational process is stable and `Done` is not ahead -/
structure Settled (s : State m) : Prop where
  stable : nextProgStateProcess s = s
  notDone : NotDone s

theorem powerUp_settled (i : Inputs m) (clk : StdLogic) : Settled (powerUp i clk) :=
  ⟨nextProgStateProcess_idem _, powerUp_notDone i clk⟩

theorem step_settled {s : State m} (h : Settled s) (e : Event m) : Settled (step s e) :=
  ⟨nextProgStateProcess_idem _, step_notDone h.notDone e⟩

theorem run_settled {s : State m} (h : Settled s) (es : List (Event m)) : Settled (run s es) := by
  induction es generalizing s with
  | nil => exact h
  | cons e es ih => exact ih (step_settled h e)

section
variable {s : State m} (h : Settled s) (hreset : s.inputs.reset ≠ .F1)
include h hreset

theorem Settled.next_of_start (hs : s.progState = .Ready) (hstart : s.inputs.startProg = .F1) :
    s.nextProgState = .Running := by
  rw [← h.stable, nextProgStateProcess_start s hreset hs hstart]

theorem Settled.next_of_not_start (hs : s.progState = .Ready) (hstart : s.inputs.startProg ≠ .F1) :
    s.nextProgState = .Ready := by
  rw [← h.stable, nextProgStateProcess_ready s hreset hs hstart]

theorem Settled.next_of_running (hs : s.progState = .Running) : s.nextProgState = .Running := by
  rw [← h.stable, nextProgStateProcess_running s hreset hs]

end

/-! ## between two rising edges -/

theorem run_noEdge_progState {s : State m} {es : List (Event m)} (h : NoEdge s.clk es) :
    (run s es).progState = s.progState := by
  induction es generalizing s with
  | nil => rfl
  | cons e es ih =>
    obtain ⟨he, hes⟩ := h
    rw [run_cons, ih (by rwa [step_clk]), step_progState, he]
    rfl

/-- in `Running`, with both drivers of the register table at `T`, under reset or not -/
structure Holding (T : RegWords) (s : State m) : Prop where
  progState : s.progState = .Running
  drvNext : s.drvNext = T.table
  drvRun : s.drvRun = T.table

theorem RunningOn.holding {T : RegWords} {s : State m} (h : RunningOn T s) : Holding T s :=
  ⟨h.progState, h.drvNext, h.drvRun⟩

theorem Holding.regTable {T : RegWords} {s : State m} (h : Holding T s) :
    s.regTable = T.table := by
  rw [State.regTable, h.drvNext, h.drvRun, RegWords.resolve_self]

theorem nextProgStateProcess_holding {T : RegWords} {s : State m} (h : Holding T s) :
    Holding T (nextProgStateProcess s) := by
  by_cases hr : s.inputs.reset = .F1
  · -- a reset keeps the driver
    rw [nextProgStateProcess_reset s hr]
    exact ⟨h.progState, h.drvNext, h.drvRun⟩
  · exact (nextProgStateProcess_runningOn h.progState hr h.drvNext h.drvRun).holding

theorem step_holding {T : RegWords} {s : State m} (h : Holding T s) {e : Event m}
    (he : risingEdge s.clk e.clk = false) : Holding T (step s e) := by
  have hdrive : Holding T (s.drive e.inputs) := ⟨h.progState, h.drvNext, h.drvRun⟩
  unfold step
  refine nextProgStateProcess_holding ?_
  by_cases hc : e.clk = s.clk
  · rw [if_pos hc]
    exact hdrive
  · rw [if_neg hc]
    refine ⟨?_, (nextProgStateProcess_holding hdrive).drvNext, ?_⟩
    · show (if risingEdge s.clk e.clk then s.nextProgState else s.progState) = .Running
      rw [he]
      exact h.progState
    · exact (progRunProcess_running hdrive.progState).trans h.drvRun

theorem run_holding {T : RegWords} {s : State m} (h : Holding T s) {es : List (Event m)}
    (hes : NoEdge s.clk es) : Holding T (run s es) := by
  induction es generalizing s with
  | nil => exact h
  | cons e es ih =>
    obtain ⟨he, hes⟩ := hes
    exact ih (step_holding h he) (by rwa [step_clk])

/-! ## the table of a start -/

/-- the event is a rising edge without another change, and it starts a program on the table `T` -/
structure StartEdge (T : RegWords) (s : State m) (e : Event m) : Prop where
  edge : risingEdge s.clk e.clk = true
  inputs : e.inputs = s.inputs
  progState : s.progState = .Ready
  reset : s.inputs.reset = .F0
  startProg : s.inputs.startProg = .F1
  regTableIn : s.inputs.regTableIn = T.table

theorem bit_of_risingEdge {old new : StdLogic} (h : risingEdge old new = true) :
    old.bit = some false ∧ new.bit = some true := by
  unfold risingEdge at h
  rw [Bool.and_eq_true, beq_iff_eq, beq_iff_eq] at h
  exact h

theorem step_startEdge {T : RegWords} {s : State m} {e : Event m} (hs : Settled s)
    (h : StartEdge T s e) : RunningOn T (step s e) := by
  obtain ⟨hold, hnew⟩ := bit_of_risingEdge h.edge
  have hstart : Starting T s :=
    ⟨hs.stable, h.progState, hold, h.reset, h.startProg, h.regTableIn⟩
  have := step_starting hstart hnew
  rwa [← h.inputs] at this

/-- **After a start in any run the resolved register table is the table of the start**, and it is
so at every moment up to the next rising edge. -/
theorem regTable_of_start (i : Inputs m) (clk : StdLogic) (es : List (Event m)) (e : Event m)
    (T : RegWords) (h : StartEdge T (run (powerUp i clk) es) e) :
    (run (powerUp i clk) (es ++ [e])).regTable = T.table ∧
      ∀ es', NoEdge e.clk es' →
        (run (powerUp i clk) (es ++ e :: es')).regTable = T.table := by
  have hrun := (step_startEdge (run_settled (powerUp_settled i clk) es) h).holding
  refine ⟨?_, fun es' hes' => ?_⟩
  · rw [run_append]
    exact hrun.regTable
  · rw [run_append]
    exact (run_holding hrun (by rwa [step_clk])).regTable

/-- the two-valued register table with `v` in every integer register and zero elsewhere -/
def constTable (v : BitVec 64) : RegWords :=
  ⟨fun _ => v, fun _ => ⟨0, 0⟩, fun _ => ⟨0, 0⟩, fun _ => ⟨0, 0⟩, 0⟩

def startInputs (m : Nat) (T : RegWords) : Inputs m :=
  { idleInputs m with reset := .F0, startProg := .F1, regTableIn := T.table }

/-- a run on the table of `1`, a reset, then a start on the table of `2` -/
theorem regTable_of_start_second :
    let i := startInputs 0 (constTable 1)
    let j := startInputs 0 (constTable 2)
    let es := [⟨i, .F1⟩, ⟨idleInputs 0, .F0⟩, ⟨idleInputs 0, .F1⟩, ⟨j, .F0⟩]
    (run (powerUp i .F0) (es ++ [⟨j, .F1⟩])).regTable = (constTable 2).table ∧
      ∀ es', NoEdge .F1 es' →
        (run (powerUp i .F0) (es ++ ⟨j, .F1⟩ :: es')).regTable = (constTable 2).table :=
  regTable_of_start (startInputs 0 (constTable 1)) .F0 _ ⟨startInputs 0 (constTable 2), .F1⟩
    (constTable 2) ⟨rfl, rfl, rfl, rfl, rfl, rfl⟩

/-! ## the documented start -/

/-- two rising edges of a run, one after the other: `s₁` is the state before the first, `s₂` the
state before the second, which is the event `e` -/
def ConsecutiveEdges (s : State m) (es : List (Event m)) (s₁ s₂ : State m) (e : Event m) : Prop :=
  ∃ before e₁ between after, es = before ++ e₁ :: (between ++ e :: after) ∧
    s₁ = run s before ∧ risingEdge s₁.clk e₁.clk = true ∧ NoEdge e₁.clk between ∧
    s₂ = run (step s₁ e₁) between ∧ risingEdge s₂.clk e.clk = true

def GoesToRunning (s : State m) (e : Event m) : Prop :=
  s.progState ≠ .Running ∧ (step s e).progState = .Running

/-- wherever `reset` is `'0'` at two consecutive edges, a program starts at the second exactly when
none is running and `start_prog` has gone from `'0'` to `'1'` -/
def StartsOnEdges (s : State m) (es : List (Event m)) : Prop :=
  ∀ s₁ s₂ e, ConsecutiveEdges s es s₁ s₂ e → s₁.inputs.reset = .F0 → s₂.inputs.reset = .F0 →
    (GoesToRunning s₂ e ↔
      s₂.progState ≠ .Running ∧ s₁.inputs.startProg = .F0 ∧ s₂.inputs.startProg = .F1)

/-- wherever that could start a program, `start_prog` was `'0'` or `'1'` at the first edge -/
def TwoValuedStarts (s : State m) (es : List (Event m)) : Prop :=
  ∀ s₁ s₂ e, ConsecutiveEdges s es s₁ s₂ e → s₁.inputs.reset = .F0 → s₂.inputs.reset = .F0 →
    s₂.progState ≠ .Running → s₂.inputs.startProg = .F1 →
      s₁.inputs.startProg = .F0 ∨ s₁.inputs.startProg = .F1

section
variable {s : State m} (h : Settled s) (hreset : s.inputs.reset = .F0)
include h hreset

/-- the start is level-sensitive -/
theorem goesToRunning_iff {e : Event m} (he : risingEdge s.clk e.clk = true) :
    GoesToRunning s e ↔ s.progState ≠ .Running ∧ s.inputs.startProg = .F1 := by
  have hne := reset_ne_of_eq hreset
  unfold GoesToRunning
  rw [step_progState, he, if_pos rfl]
  refine and_congr_right fun hrun => ?_
  have hready : s.progState = .Ready := by
    rcases s.progState.eq_cases with hs | hs | hs
    · exact hs
    · exact absurd hs hrun
    · exact absurd hs h.notDone.1
  by_cases hstart : s.inputs.startProg = .F1
  · exact iff_of_true (h.next_of_start hne hready hstart) hstart
  · refine iff_of_false ?_ hstart
    rw [h.next_of_not_start hne hready hstart]
    exact ProgState.noConfusion

/-- a `start_prog` of `'1'` at an edge leaves the engine in `Running` -/
theorem progState_of_started {e : Event m} (he : risingEdge s.clk e.clk = true)
    (hstart : s.inputs.startProg = .F1) : (step s e).progState = .Running := by
  have hne := reset_ne_of_eq hreset
  by_cases hrun : s.progState = .Running
  · rw [step_progState, he, if_pos rfl, h.next_of_running hne hrun]
  · exact ((goesToRunning_iff h hreset he).mpr ⟨hrun, hstart⟩).2

end

/-- **The engine starts on the rising edges of `start_prog` exactly in the runs where no start
follows a `start_prog` that is neither `'0'` nor `'1'`.** -/
theorem startsOnEdges_iff (i : Inputs m) (clk : StdLogic) (es : List (Event m)) :
    StartsOnEdges (powerUp i clk) es ↔ TwoValuedStarts (powerUp i clk) es := by
  have hsettled : ∀ {s₁ s₂ : State m} {e}, ConsecutiveEdges (powerUp i clk) es s₁ s₂ e →
      Settled s₁ ∧ Settled s₂ := by
    rintro s₁ s₂ e ⟨before, e₁, between, after, -, rfl, -, -, rfl, -⟩
    have h₁ := run_settled (powerUp_settled i clk) before
    exact ⟨h₁, run_settled (step_settled h₁ e₁) between⟩
  constructor
  · intro h s₁ s₂ e hc hr₁ hr₂ hrun hstart
    obtain ⟨-, h₂⟩ := hsettled hc
    obtain ⟨-, -, -, -, -, -, -, -, -, hedge⟩ := id hc
    have hgoes := (goesToRunning_iff h₂ hr₂ hedge).mpr ⟨hrun, hstart⟩
    exact Or.inl ((h s₁ s₂ e hc hr₁ hr₂).mp hgoes).2.1
  · intro h s₁ s₂ e hc hr₁ hr₂
    obtain ⟨h₁, h₂⟩ := hsettled hc
    obtain ⟨before, e₁, between, after, hes, hs₁, hedge₁, hno, hs₂, hedge⟩ := id hc
    rw [goesToRunning_iff h₂ hr₂ hedge]
    refine and_congr_right fun hrun => ⟨fun hstart => ⟨?_, hstart⟩, fun hstart => hstart.2⟩
    rcases h s₁ s₂ e hc hr₁ hr₂ hrun hstart with h0 | h1
    · exact h0
    · -- a program started at the first edge is still running at the second
      have hrun₁ := progState_of_started h₁ hr₁ hedge₁ h1
      have hno₁ : NoEdge (step s₁ e₁).clk between := by rwa [step_clk]
      rw [← run_noEdge_progState hno₁, ← hs₂] at hrun₁
      exact absurd hrun₁ hrun

/-- `start_prog` undriven at the first edge, `'1'` at the second -/
theorem not_startsOnEdges_undriven :
    ¬ ∀ (i : Inputs 0) (clk : StdLogic) (es : List (Event 0)),
      StartsOnEdges (powerUp i clk) es := by
  intro h
  let i : Inputs 0 := { idleInputs 0 with reset := .F0, startProg := .U }
  let j : Inputs 0 := startInputs 0 (constTable 0)
  let es : List (Event 0) := [⟨i, .F1⟩, ⟨j, .F0⟩, ⟨j, .F1⟩]
  let s₁ := powerUp i .F0
  let s₂ := run s₁ [⟨i, .F1⟩, ⟨j, .F0⟩]
  have hc : ConsecutiveEdges s₁ es s₁ s₂ ⟨j, .F1⟩ :=
    ⟨[], ⟨i, .F1⟩, [⟨j, .F0⟩], [], rfl, rfl, rfl, ⟨rfl, trivial⟩, rfl, rfl⟩
  have hsettled : Settled s₂ := run_settled (powerUp_settled i .F0) _
  have hgoes : GoesToRunning s₂ ⟨j, .F1⟩ :=
    (goesToRunning_iff hsettled rfl rfl).mpr ⟨ProgState.noConfusion, rfl⟩
  have hu : StdLogic.U = .F0 := ((h i .F0 es s₁ s₂ _ hc rfl rfl).mp hgoes).2.1
  exact StdLogic.noConfusion hu

end
end LoopEngine
end Randx
