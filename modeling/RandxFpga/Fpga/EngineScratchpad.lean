import RandxFpga.Fpga.StartProtocol
import RandxFpga.Fpga.Scratchpad

/-!
# The loop engine with its scratchpad (`loop_engine_tb.vhd`)

The two components share `clk`, and the ports `spad_*` are connected by name.  The scratchpad has
no idle command: an edge at which `spad_rd_en` is not `'1'` is a write.

* `step_memory`        what one event does to the words of the scratchpad;
* `neverCorrupts_iff`  when only a running `ISTORE` changes them.
-/

namespace Randx
open Hdl

/-- `addr_int` follows the address, and `ReadWriteProc` runs at an event of `clk` -/
def Scratchpad.event (i : Inputs) (old new : StdLogic) (s : State) : Option State :=
  (toAddrInt i.spadAddr).map fun a =>
    let s' := { s with addrInt := a }
    if new = old then s'
    else if LoopEngine.risingEdge old new then rising i s' else falling s'

structure EngineScratchpad (m : Nat) where
  engine : LoopEngine.State m
  spad : Scratchpad.State

namespace EngineScratchpad
open LoopEngine (Event NoEdge risingEdge)
section
variable {m : Nat}

/-- `spad_addr`, `spad_rd_en` and `spad_wr` have no driver in `LoopEngine` -/
def spadPorts (_ : LoopEngine.State m) : Scratchpad.Inputs := ⟨Slv.allU, .U, Slv.allU⟩

/-- the inputs of the engine, with `spad_rd` from the scratchpad -/
def engineInputs (i : LoopEngine.Inputs m) (spad : Scratchpad.State) : LoopEngine.Inputs m :=
  { i with spadRd := spad.spadRd }

/-- the `spad_rd` of the event is ignored: both components read what is connected before it -/
def step (x : EngineScratchpad m) (e : Event m) : Option (EngineScratchpad m) :=
  (Scratchpad.event (spadPorts x.engine) x.engine.clk e.clk x.spad).map fun spad =>
    let engine := LoopEngine.step x.engine ⟨engineInputs e.inputs x.spad, e.clk⟩
    ⟨engine.drive (engineInputs engine.inputs spad), spad⟩

def run (x : EngineScratchpad m) : List (Event m) → Option (EngineScratchpad m)
  | [] => some x
  | e :: es => (step x e).bind fun y => run y es

def powerUp (i : LoopEngine.Inputs m) (clk : StdLogic) (spad : Scratchpad.State) :
    EngineScratchpad m :=
  ⟨LoopEngine.powerUp (engineInputs i spad) clk, spad⟩

/-- a rising edge changes a word only where the engine is running an `ISTORE` -/
def NeverCorrupts (x : EngineScratchpad m) (es : List (Event m)) : Prop :=
  ∀ before e after x₁ x₂, es = before ++ e :: after → run x before = some x₁ →
    step x₁ e = some x₂ → risingEdge x₁.engine.clk e.clk = true →
    x₂.spad.memory ≠ x₁.spad.memory →
      x₁.engine.progState = .Running ∧ x₁.engine.curInst.opcode = .ISTORE

/-! ## one event -/

theorem toAddrInt_allU : Scratchpad.toAddrInt Slv.allU = some 0 := by
  have h0 : Slv.toInteger (Slv.allU : Slv sizeSpadAddr) = 0 := Slv.toInteger_allU (by decide)
  unfold Scratchpad.toAddrInt
  simp only [h0]
  rfl

/-- the address is `0` and the command a write -/
theorem event_spadPorts (x : LoopEngine.State m) (old new : StdLogic) (s : Scratchpad.State) :
    ∃ s', Scratchpad.event (spadPorts x) old new s = some s' ∧
      s'.memory = if risingEdge old new then Function.update s.memory 0 Slv.allU
        else s.memory := by
  unfold Scratchpad.event
  rw [show (spadPorts x).spadAddr = Slv.allU from rfl, toAddrInt_allU, Option.map_some]
  refine ⟨_, rfl, ?_⟩
  show Scratchpad.State.memory (if new = old then _ else _) = _
  by_cases hc : new = old
  · rw [if_pos hc, hc, LoopEngine.risingEdge_self]
    rfl
  · rw [if_neg hc]
    cases risingEdge old new <;> rfl

theorem step_isSome (x : EngineScratchpad m) (e : Event m) : ∃ y, step x e = some y := by
  obtain ⟨spad, hspad, -⟩ := event_spadPorts x.engine x.engine.clk e.clk x.spad
  exact ⟨_, Option.map_eq_some_iff.mpr ⟨spad, hspad, rfl⟩⟩

/-- **Every rising edge writes `'U'` into word `0`**, whatever the engine does. -/
theorem step_memory {x y : EngineScratchpad m} {e : Event m} (h : step x e = some y) :
    y.spad.memory = if risingEdge x.engine.clk e.clk
      then Function.update x.spad.memory 0 Slv.allU else x.spad.memory := by
  obtain ⟨spad, hspad, rfl⟩ := Option.map_eq_some_iff.mp h
  obtain ⟨spad', hspad', hmem⟩ := event_spadPorts x.engine x.engine.clk e.clk x.spad
  rw [hspad] at hspad'
  obtain rfl := Option.some.inj hspad'
  exact hmem

theorem step_engine {x y : EngineScratchpad m} {e : Event m} (h : step x e = some y) :
    y.engine.clk = e.clk ∧
      (risingEdge x.engine.clk e.clk = false → y.engine.progState = x.engine.progState) := by
  obtain ⟨spad, -, rfl⟩ := Option.map_eq_some_iff.mp h
  refine ⟨LoopEngine.step_clk _ _, fun he => ?_⟩
  show (LoopEngine.step _ _).progState = _
  rw [LoopEngine.step_progState, he]
  rfl

theorem memory_of_zero {x y : EngineScratchpad m} {e : Event m} (h : step x e = some y)
    (h0 : x.spad.memory 0 = Slv.allU) : y.spad.memory = x.spad.memory := by
  rw [step_memory h, ← h0, Function.update_eq_self, ite_self]

/-! ## runs -/

theorem run_memory_of_zero {x y : EngineScratchpad m} {es : List (Event m)}
    (h : run x es = some y) (h0 : x.spad.memory 0 = Slv.allU) : y.spad.memory 0 = Slv.allU := by
  induction es generalizing x with
  | nil =>
    obtain rfl := Option.some.inj h
    exact h0
  | cons e es ih =>
    obtain ⟨z, hz, hrest⟩ := Option.bind_eq_some_iff.mp h
    exact ih hrest (by rw [memory_of_zero hz h0, h0])

theorem edge_of_noEdge {x x₁ : EngineScratchpad m} {before after : List (Event m)} {e : Event m}
    (h : run x before = some x₁) (hno : NoEdge x.engine.clk (before ++ e :: after)) :
    risingEdge x₁.engine.clk e.clk = false := by
  induction before generalizing x with
  | nil =>
    obtain rfl := Option.some.inj h
    exact hno.1
  | cons e' before ih =>
    obtain ⟨z, hz, hrest⟩ := Option.bind_eq_some_iff.mp h
    exact ih hrest (by rw [(step_engine hz).1]; exact hno.2)

theorem neverCorrupts_tail {x y : EngineScratchpad m} {e : Event m} {es : List (Event m)}
    (hy : step x e = some y) (h : NeverCorrupts x (e :: es)) : NeverCorrupts y es := by
  intro before e' after x₁ x₂ hes hrun
  refine h (e :: before) e' after x₁ x₂ (by rw [hes]; rfl) ?_
  show (step x e).bind _ = _
  rw [hy]
  exact hrun

/-- in `Ready` a first rising edge overwrites word `0` -/
theorem noEdge_of_neverCorrupts {x : EngineScratchpad m} {es : List (Event m)}
    (h0 : x.spad.memory 0 ≠ Slv.allU) (hs : x.engine.progState = .Ready)
    (h : NeverCorrupts x es) : NoEdge x.engine.clk es := by
  induction es generalizing x with
  | nil => trivial
  | cons e es ih =>
    obtain ⟨y, hy⟩ := step_isSome x e
    have hno : risingEdge x.engine.clk e.clk = false := by
      by_contra hedge
      rw [Bool.not_eq_false] at hedge
      have hne : y.spad.memory ≠ x.spad.memory := by
        intro heq
        rw [step_memory hy, hedge, if_pos rfl] at heq
        have hzero := congrFun heq 0
        rw [Function.update_self] at hzero
        exact h0 hzero.symm
      have hrun := (h [] e es x y rfl rfl hy hedge hne).1
      rw [hs] at hrun
      exact LoopEngine.ProgState.noConfusion hrun
    obtain ⟨hclk, hstate⟩ := step_engine hy
    have hmem : y.spad.memory = x.spad.memory := by
      rw [step_memory hy, hno]
      rfl
    refine ⟨hno, ?_⟩
    rw [← hclk]
    exact ih (by rw [hmem]; exact h0) (by rw [hstate hno, hs]) (neverCorrupts_tail hy h)

theorem powerUp_engine (i : LoopEngine.Inputs m) (clk : StdLogic) (spad : Scratchpad.State) :
    (powerUp i clk spad).engine.clk = clk ∧ (powerUp i clk spad).engine.progState = .Ready :=
  ⟨LoopEngine.nextProgStateProcess_clk _, LoopEngine.nextProgStateProcess_progState _⟩

/-- **The words of the scratchpad are safe exactly if word `0` is `'U'` from the start, or if
there is no rising edge at all.** -/
theorem neverCorrupts_iff (i : LoopEngine.Inputs m) (clk : StdLogic) (spad : Scratchpad.State)
    (es : List (Event m)) :
    NeverCorrupts (powerUp i clk spad) es ↔ spad.memory 0 = Slv.allU ∨ NoEdge clk es := by
  obtain ⟨hclk, hs⟩ := powerUp_engine i clk spad
  constructor
  · intro h
    by_cases h0 : spad.memory 0 = Slv.allU
    · exact Or.inl h0
    · refine Or.inr ?_
      rw [← hclk]
      exact noEdge_of_neverCorrupts h0 hs h
  · rintro (h0 | hno) before e after x₁ x₂ hes hrun hstep hedge hne
    · exact absurd (memory_of_zero hstep (run_memory_of_zero hrun h0)) hne
    · rw [← hclk, hes] at hno
      rw [edge_of_noEdge hrun hno] at hedge
      exact absurd hedge Bool.false_ne_true

/-- one rising edge under reset, with a zero in word `0` -/
theorem not_neverCorrupts_reset :
    ¬ ∀ (i : LoopEngine.Inputs 255) (clk : StdLogic) (spad : Scratchpad.State)
        (es : List (Event 255)), NeverCorrupts (powerUp i clk spad) es := by
  intro h
  let spad : Scratchpad.State := { Scratchpad.powerUp with memory := fun _ => .ofBV 0 }
  have h0 : spad.memory 0 ≠ Slv.allU := fun heq => StdLogic.noConfusion (congrFun heq 0)
  obtain ⟨hclk, hs⟩ := powerUp_engine (LoopEngine.idleInputs 255) .F0 spad
  have hno := noEdge_of_neverCorrupts h0 hs
    (h (LoopEngine.idleInputs 255) .F0 spad [⟨LoopEngine.idleInputs 255, .F1⟩])
  rw [hclk] at hno
  exact absurd hno.1 Bool.noConfusion

end
end EngineScratchpad
end Randx
