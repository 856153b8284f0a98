import RandxFpga.Fpga.LoopEngine

/-!
# The program store of the loop engine

`loads G s es` lists the loads that the events `es` ask for at rising edges in states of `G`.

* `run_program`     the program refines a `Store` that takes the loads in `Done`;
* `LoadProtocol`    the protocol of the ports: `prog_done` is `'1'` outside `Running`, and there the
                    loads are taken;
* `loadProtocol_never`  no run follows it, and how far each part holds.
-/

namespace Randx
open Hdl

namespace LoopEngine
section
variable {m : Nat}

abbrev Load (m : Nat) := Store.Op (Fin (m + 2)) ReducedInst

/-- the load that an event asks for when `clk` was at `old` -/
def Event.load (e : Event m) (old : StdLogic) : List (Load m) :=
  if risingEdge old e.clk ∧ e.inputs.progInEnable = .F1 then
    [.wr e.inputs.progInAddr.castSucc e.inputs.progInInst]
  else []

def loads (G : ProgState → Bool) (s : State m) : List (Event m) → List (Load m)
  | [] => []
  | e :: es => (if G s.progState then e.load s.clk else []) ++ loads G (step s e) es

theorem loads_append (G : ProgState → Bool) (s : State m) (es es' : List (Event m)) :
    loads G s (es ++ es') = loads G s es ++ loads G (run s es) es' := by
  induction es generalizing s with
  | nil => rfl
  | cons e es ih =>
    show _ ++ loads G (step s e) (es ++ es') = _
    rw [ih, ← List.append_assoc]
    rfl

/-! ## the program follows the loads in `Done` -/

theorem step_program_store (s : State m) (e : Event m) :
    (step s e).program
      = Store.after s.program (if s.progState = .Done then e.load s.clk else []) := by
  rw [step_program]
  unfold Event.load
  by_cases hs : s.progState = .Done
  · rw [if_pos hs]
    by_cases hr : risingEdge s.clk e.clk = true
    · rw [if_pos hr]
      by_cases hen : e.inputs.progInEnable = .F1
      · rw [if_pos ⟨hr, hen⟩]
        exact if_pos ⟨hen, hs⟩
      · rw [if_neg fun h => hen h.2]
        exact if_neg fun h => hen h.1
    · rw [if_neg hr, if_neg fun h => hr h.1]
      rfl
  · rw [if_neg hs]
    split_ifs
    · exact if_neg fun h => hs h.2
    · rfl

/-- **The program is a store of the loads made in `Done`.** -/
theorem run_program (s : State m) (es : List (Event m)) :
    (run s es).program = Store.after s.program (loads (· = .Done) s es) := by
  induction es generalizing s with
  | nil => rfl
  | cons e es ih =>
    rw [run_cons, ih, step_program_store, ← Store.after_append]
    congr 1
    simp only [loads, decide_eq_true_eq]

theorem loads_done {s : State m} (h : NotDone s) (es : List (Event m)) :
    loads (· = .Done) s es = [] := by
  induction es generalizing s with
  | nil => rfl
  | cons e es ih =>
    rw [loads, ih (step_notDone h e), if_neg (by simpa using h.1)]
    rfl

theorem powerUp_program (i : Inputs m) (clk : StdLogic) (es : List (Event m)) :
    (run (powerUp i clk) es).program = fun _ => .default := by
  rw [run_program, loads_done (powerUp_notDone i clk)]
  exact nextProgStateProcess_program _

/-! ## the protocol of the ports -/

/-- `prog_done` is `'1'` when the program is done or not running -/
def DoneFlag (s : State m) : Prop := s.progDone = .F1 ↔ s.progState ≠ .Running

/-- the program holds the last load of each address made while no program was running -/
def FollowsLoads (s : State m) (es : List (Event m)) : Prop :=
  ∀ pre, pre <+: es → ∀ a, (run s pre).program a
    = (Store.lastWrite a (loads (· ≠ .Running) s pre)).getD (s.program a)

/-- some run from power-up leaves `p` in the engine, ready to be started -/
def Loadable (p : Fin (m + 1) → ReducedInst) : Prop :=
  ∃ i clk es, (run (powerUp i clk) es).progState = .Ready ∧
    ∀ a, (run (powerUp i clk) es).program a.castSucc = p a

structure LoadProtocol (i : Inputs m) (clk : StdLogic) (es : List (Event m)) : Prop where
  doneFlag : ∀ pre, pre <+: es → DoneFlag (run (powerUp i clk) pre)
  followsLoads : FollowsLoads (powerUp i clk) es
  loadable : ∀ p : Fin (m + 1) → ReducedInst, Loadable p

theorem doneFlag_iff {s : State m} (h : NotDone s) : DoneFlag s ↔ s.progState = .Running := by
  unfold DoneFlag
  rw [progDone_of_notDone h]
  simp

theorem exists_prefix_load {G : ProgState → Bool} {s : State m} {es : List (Event m)}
    {q : Load m} (h : q ∈ loads G s es) : ∃ pre l, pre <+: es ∧ loads G s pre = l ++ [q] := by
  induction es generalizing s with
  | nil => exact absurd h (by simp [loads])
  | cons e es ih =>
    rcases List.mem_append.mp h with hq | hq
    · refine ⟨[e], [], by simp, ?_⟩
      have hload : (if G s.progState then e.load s.clk else []) = [q] := by
        unfold Event.load at hq ⊢
        split_ifs at hq ⊢
        · rw [List.mem_singleton.mp hq]
        all_goals exact absurd hq (by simp)
      rw [loads, hload]
      rfl
    · obtain ⟨pre, l, hpre, hl⟩ := ih hq
      refine ⟨e :: pre, (if G s.progState then e.load s.clk else []) ++ l, ?_, ?_⟩
      · exact (List.prefix_cons_inj e).mpr hpre
      · rw [loads, hl, List.append_assoc]

theorem followsLoads_iff (i : Inputs m) (clk : StdLogic) (es : List (Event m)) :
    FollowsLoads (powerUp i clk) es ↔
      ∀ a q, .wr a q ∈ loads (· ≠ .Running) (powerUp i clk) es → q = .default := by
  have hstart : (powerUp i clk).program = fun _ => .default := powerUp_program i clk []
  constructor
  · intro h a q hq
    obtain ⟨pre, l, hpre, hl⟩ := exists_prefix_load hq
    have hlast : Store.lastWrite a (l ++ [.wr a q]) = some q :=
      Store.lastWrite_eq_some.mpr ⟨l, [], rfl, by simp⟩
    have ha := h pre hpre a
    rw [powerUp_program, hl, hlast] at ha
    exact ha.symm
  · rintro h pre ⟨post, rfl⟩ a
    rw [powerUp_program, hstart]
    cases hw : Store.lastWrite a (loads (· ≠ .Running) (powerUp i clk) pre) with
    | none => rfl
    | some q =>
      obtain ⟨l, l', hl, -⟩ := Store.lastWrite_eq_some.mp hw
      refine (h a q ?_).symm
      rw [loads_append, hl]
      simp

theorem loadable_iff (p : Fin (m + 1) → ReducedInst) : Loadable p ↔ p = fun _ => .default := by
  constructor
  · rintro ⟨i, clk, es, -, h⟩
    funext a
    rw [← h a, powerUp_program]
  · rintro rfl
    exact ⟨idleInputs m, .F0, [], rfl, fun a => by rw [powerUp_program]⟩

/-- **No run follows the protocol**: `Ready` already has `prog_done` at `'0'`.  Of its parts, the
flag is right in `Running` only, the loads are followed as long as they load what is there from
power-up, and nothing else can be loaded. -/
theorem loadProtocol_never (i : Inputs m) (clk : StdLogic) (es : List (Event m)) :
    ¬ LoadProtocol i clk es ∧
      (∀ pre, pre <+: es → (DoneFlag (run (powerUp i clk) pre) ↔
        (run (powerUp i clk) pre).progState = .Running)) ∧
      (FollowsLoads (powerUp i clk) es ↔
        ∀ a q, .wr a q ∈ loads (· ≠ .Running) (powerUp i clk) es → q = .default) ∧
      ∀ p : Fin (m + 1) → ReducedInst, Loadable p ↔ p = fun _ => .default := by
  have hflag : ∀ pre, DoneFlag (run (powerUp i clk) pre) ↔
      (run (powerUp i clk) pre).progState = .Running := fun pre =>
    doneFlag_iff (run_notDone (powerUp_notDone i clk) pre)
  refine ⟨fun h => ?_, fun pre _ => hflag pre, followsLoads_iff i clk es, loadable_iff⟩
  have hrunning := (hflag []).mp (h.doneFlag [] (List.nil_prefix))
  have hready : (powerUp i clk).progState = .Ready := nextProgStateProcess_progState _
  exact ProgState.noConfusion (hready.symm.trans hrunning)

theorem not_loadProtocol_idle : ¬ ∀ (m : Nat) (i : Inputs m) (clk : StdLogic)
    (es : List (Event m)), LoadProtocol i clk es := by
  intro h
  have hflag := (h 1 (idleInputs 1) .F0 []).doneFlag [] (List.nil_prefix)
  have hdone : (powerUp (idleInputs 1) .F0).progDone = .F0 :=
    progDone_of_notDone (powerUp_notDone _ _)
  have hready : (powerUp (idleInputs 1) .F0).progState ≠ .Running := by decide
  exact StdLogic.noConfusion (hdone.symm.trans (hflag.mpr hready))

end
end LoopEngine
end Randx
