import RandxFpga.Fpga.Common
import RandxFpga.Run.Store

/-!
# The scratchpad (`scratchpad.vhd`)

`ReadWriteProc` is sensitive to `clk`, so it runs at both edges: at a rising edge it reads or
writes, at every edge it first withdraws the last answer.  `Scratchpad.cycle` is one period of
`clk`: the request is applied, then the rising edge, then the falling edge.

The address crosses `addr_int`, an integer signal with a range of its own.  A value outside the
range stops the simulation, which is `none` here.

* `run_refines`   with addresses in that range the memory is a `Store`;
* `run_eq_none`   any other address stops the run;
* `correctMemory_iff`  the memory is correct exactly for the addresses `0`, `1` and `2`;
* `readerGetsData_iff`  a reader on the rising edges never sees an answer.
-/

namespace Randx
open Hdl

namespace Scratchpad

abbrev Address := BitVec sizeSpadAddr

/-- `integer range 0 to RdxCfg.LOG2_RANDOMX_SCRATCHPAD_L3 / 8` -/
abbrev AddrInt := Fin (log2ScratchpadL3 / 8 + 1)

abbrev Memory := Fin (2 ^ sizeSpadAddr) → Slv 64

structure Inputs where
  spadAddr : Slv sizeSpadAddr
  spadRdEn : StdLogic
  spadWr : Slv 64

structure State where
  memory : Memory
  addrInt : AddrInt
  spadRd : Slv 64
  spadRdValid : StdLogic

/-- `addr_int <= to_integer(unsigned(spad_addr))` -/
def toAddrInt (a : Slv sizeSpadAddr) : Option AddrInt :=
  if h : a.toInteger < log2ScratchpadL3 / 8 + 1 then some ⟨a.toInteger, h⟩ else none

def AddrInt.index (a : AddrInt) : Fin (2 ^ sizeSpadAddr) :=
  ⟨a, lt_of_lt_of_le a.isLt (by decide)⟩

/-- `ReadWriteProc` at a rising edge -/
def rising (i : Inputs) (s : State) : State :=
  if i.spadRdEn = .F1 then
    { s with spadRd := s.memory s.addrInt.index, spadRdValid := .F1 }
  else
    { s with
      memory := Function.update s.memory s.addrInt.index i.spadWr
      spadRd := Slv.allX
      spadRdValid := .F0 }

/-- `ReadWriteProc` at a falling edge -/
def falling (s : State) : State := { s with spadRd := Slv.allX, spadRdValid := .F0 }

/-- after elaboration: the process ran once, without an edge -/
def powerUp : State := ⟨fun _ => Slv.allU, 0, Slv.allX, .F0⟩

/-! ## requests -/

structure Request where
  spadAddr : Address
  spadRdEn : Bool
  spadWr : Slv 64

def Request.inputs (q : Request) : Inputs := ⟨.ofBV q.spadAddr, .ofBool q.spadRdEn, q.spadWr⟩

def Request.op (q : Request) : Store.Op (Fin (2 ^ sizeSpadAddr)) (Slv 64) :=
  if q.spadRdEn then .rd q.spadAddr.toFin else .wr q.spadAddr.toFin q.spadWr

/-- the request reaches the port, then `clk` rises: the state of the high half period -/
def cycle (s : State) (q : Request) : Option State :=
  (toAddrInt (.ofBV q.spadAddr)).map fun a => rising q.inputs { s with addrInt := a }

/-- the states of the high half periods, one for each request -/
def run (s : State) : List Request → Option (List State)
  | [] => some []
  | q :: qs => do
    let hi ← cycle s q
    let rest ← run (falling hi) qs
    return hi :: rest

/-- every read answers with the last word written to its address, and a write changes no other -/
def CorrectMemory (s : State) (qs : List Request) : Prop :=
  ∃ tr, run s qs = some tr ∧ ∀ k q hi, qs[k]? = some q → tr[k]? = some hi →
    (q.spadRdEn = true → ∀ v,
      Store.lastWrite q.spadAddr.toFin ((qs.take k).map Request.op) = some v →
      hi.spadRd = v ∧ hi.spadRdValid = .F1) ∧
    (q.spadRdEn = false → ∀ lo, (s :: tr)[k]? = some lo →
      ∀ a, a ≠ q.spadAddr.toFin → hi.memory a = lo.memory a)

/-! ## one request -/

theorem toAddrInt_ofBV (a : Address) :
    toAddrInt (.ofBV a) = if h : a.toNat < 3 then some ⟨a.toNat, h⟩ else none := by
  unfold toAddrInt
  simp only [Slv.toInteger_ofBV]
  rfl

/-- a request in range: the memory follows the store, a read answers with its contents -/
theorem cycle_spec (s : State) (q : Request) (h : q.spadAddr.toNat ≤ 2) :
    ∃ hi, cycle s q = some hi ∧ hi.memory = Store.apply s.memory q.op ∧
      (q.spadRdEn = true → hi.spadRd = s.memory q.spadAddr.toFin ∧ hi.spadRdValid = .F1) := by
  have h3 : q.spadAddr.toNat < 3 := by omega
  have hidx : AddrInt.index ⟨q.spadAddr.toNat, h3⟩ = q.spadAddr.toFin := rfl
  refine ⟨rising q.inputs { s with addrInt := ⟨q.spadAddr.toNat, h3⟩ }, ?_, ?_⟩
  · rw [cycle, toAddrInt_ofBV, dif_pos h3]
    rfl
  · obtain ⟨a, en, d⟩ := q
    cases en with
    | true => exact ⟨rfl, fun _ => ⟨congrArg s.memory hidx, rfl⟩⟩
    | false =>
      refine ⟨?_, fun e => absurd e Bool.false_ne_true⟩
      show Function.update s.memory (AddrInt.index ⟨a.toNat, h3⟩) d
        = Function.update s.memory a.toFin d
      rw [hidx]

theorem cycle_eq_none (s : State) (q : Request) (h : ¬ q.spadAddr.toNat ≤ 2) :
    cycle s q = none := by
  rw [cycle, toAddrInt_ofBV, dif_neg (by omega)]
  rfl

/-! ## runs -/

theorem run_eq_none (s : State) (qs : List Request) (h : ∃ q ∈ qs, ¬ q.spadAddr.toNat ≤ 2) :
    run s qs = none := by
  induction qs generalizing s with
  | nil =>
    obtain ⟨q, hq, _⟩ := h
    exact absurd hq (by simp)
  | cons q qs ih =>
    by_cases hq : q.spadAddr.toNat ≤ 2
    · obtain ⟨hi, hc, _, _⟩ := cycle_spec s q hq
      have hrest : ∃ q' ∈ qs, ¬ q'.spadAddr.toNat ≤ 2 := by
        obtain ⟨q', hq', hn⟩ := h
        rcases List.mem_cons.mp hq' with rfl | hm
        · exact absurd hq hn
        · exact ⟨q', hm, hn⟩
      show (cycle s q).bind _ = none
      rw [hc, Option.bind_some, ih (falling hi) hrest]
      rfl
    · show (cycle s q).bind _ = none
      rw [cycle_eq_none s q hq]
      rfl

theorem le_two_of_run {s : State} {qs : List Request} {tr : List State}
    (h : run s qs = some tr) : ∀ q ∈ qs, q.spadAddr.toNat ≤ 2 := by
  by_contra hn
  push Not at hn
  rw [run_eq_none s qs (by simpa using hn)] at h
  exact absurd h (by simp)

/-- **With addresses in the range of `addr_int` the memory refines a store**: before the `k`-th
request it is what the requests before it leave, and the `k`-th request is applied to that. -/
theorem run_refines (s : State) (qs : List Request) (h : ∀ q ∈ qs, q.spadAddr.toNat ≤ 2) :
    ∃ tr, run s qs = some tr ∧ ∀ k q hi, qs[k]? = some q → tr[k]? = some hi →
      hi.memory = Store.after s.memory ((qs.take (k + 1)).map Request.op) ∧
      (q.spadRdEn = true →
        hi.spadRd = Store.after s.memory ((qs.take k).map Request.op) q.spadAddr.toFin ∧
        hi.spadRdValid = .F1) := by
  induction qs generalizing s with
  | nil => exact ⟨[], rfl, fun k q hi hq => absurd hq (by simp)⟩
  | cons q qs ih =>
    obtain ⟨hi, hc, hmem, hrd⟩ := cycle_spec s q (h q List.mem_cons_self)
    obtain ⟨tr, htr, hall⟩ := ih (falling hi) (fun q' hq' => h q' (List.mem_cons_of_mem _ hq'))
    refine ⟨hi :: tr, ?_, ?_⟩
    · show (cycle s q).bind _ = some (hi :: tr)
      rw [hc, Option.bind_some, htr]
      rfl
    · intro k q' hi' hq' hi'e
      cases k with
      | zero =>
        obtain rfl := Option.some.inj hq'
        obtain rfl := Option.some.inj hi'e
        exact ⟨hmem, hrd⟩
      | succ k =>
        have hk := hall k q' hi' hq' hi'e
        rw [show (falling hi).memory = Store.apply s.memory q.op from hmem] at hk
        exact hk

theorem run_memory_before (s : State) (qs : List Request) (tr : List State)
    (hall : ∀ k q hi, qs[k]? = some q → tr[k]? = some hi →
      hi.memory = Store.after s.memory ((qs.take (k + 1)).map Request.op))
    {k : Nat} {lo : State} (hk : k ≤ qs.length) (hlo : (s :: tr)[k]? = some lo) :
    lo.memory = Store.after s.memory ((qs.take k).map Request.op) := by
  cases k with
  | zero =>
    obtain rfl := Option.some.inj hlo
    rfl
  | succ k => exact hall k qs[k] lo (List.getElem?_eq_getElem hk) hlo

theorem correctMemory_of_le (s : State) (qs : List Request)
    (h : ∀ q ∈ qs, q.spadAddr.toNat ≤ 2) : CorrectMemory s qs := by
  obtain ⟨tr, htr, hall⟩ := run_refines s qs h
  refine ⟨tr, htr, fun k q hi hq hhi => ⟨fun hen v hv => ?_, fun hen lo hlo a ha => ?_⟩⟩
  · obtain ⟨hrd, hvalid⟩ := (hall k q hi hq hhi).2 hen
    refine ⟨?_, hvalid⟩
    rw [hrd, Store.after_apply, hv]
    rfl
  · obtain ⟨hk, hqk⟩ := List.getElem?_eq_some_iff.mp hq
    have hbefore := run_memory_before s qs tr (fun k q hi hq hhi => (hall k q hi hq hhi).1)
      hk.le hlo
    rw [(hall k q hi hq hhi).1, List.take_succ_eq_append_getElem hk, hqk, List.map_append,
      Store.after_append, ← hbefore]
    refine Store.apply_of_not_writes lo.memory q.op ?_
    rw [Request.op, if_neg (by simp [hen])]
    exact fun e => ha e.symm

/-- **The scratchpad is a correct memory exactly for requests to the first three words.** -/
theorem correctMemory_iff (s : State) (qs : List Request) :
    CorrectMemory s qs ↔ ∀ q ∈ qs, q.spadAddr.toNat ≤ 2 :=
  ⟨fun ⟨_, htr, _⟩ => le_two_of_run htr, correctMemory_of_le s qs⟩

/-- a write of `1` to word `3` -/
theorem not_correctMemory_three :
    ¬ ∀ (s : State) (qs : List Request), CorrectMemory s qs := by
  intro h
  obtain ⟨tr, htr, _⟩ := h powerUp [⟨3, false, .ofBV 1⟩]
  rw [run_eq_none powerUp _ ⟨_, List.mem_singleton_self _, by decide⟩] at htr
  exact absurd htr (by simp)

/-! ## a reader on the rising edges -/

/-- the outputs that a register clocked by the rising edge after `hi` takes -/
def nextSample (hi : State) : StdLogic × Slv 64 :=
  ((falling hi).spadRdValid, (falling hi).spadRd)

/-- every read of a word written before reaches the reader at the next rising edge, and
`spad_rd_valid` is sampled `'1'` after reads only -/
def ReaderGetsData (s : State) (qs : List Request) : Prop :=
  ∃ tr, run s qs = some tr ∧ ∀ k q hi, qs[k]? = some q → tr[k]? = some hi →
    (q.spadRdEn = true → ∀ v,
      Store.lastWrite q.spadAddr.toFin ((qs.take k).map Request.op) = some v →
      nextSample hi = (.F1, v)) ∧
    ((nextSample hi).1 = .F1 → q.spadRdEn = true)

/-- no request reads a word that an earlier one wrote -/
def NoReadBack (qs : List Request) : Prop :=
  ∀ k q, qs[k]? = some q → q.spadRdEn = true →
    Store.lastWrite q.spadAddr.toFin ((qs.take k).map Request.op) = none

/-- the falling edge withdraws every answer -/
theorem nextSample_eq (hi : State) : nextSample hi = (.F0, Slv.allX) := rfl

theorem length_run {s : State} {qs : List Request} {tr : List State} (h : run s qs = some tr) :
    tr.length = qs.length := by
  induction qs generalizing s tr with
  | nil =>
    obtain rfl := Option.some.inj h
    rfl
  | cons q qs ih =>
    obtain ⟨hi, -, hrest⟩ := Option.bind_eq_some_iff.mp h
    obtain ⟨rest, hr, htr⟩ := Option.bind_eq_some_iff.mp hrest
    obtain rfl := Option.some.inj htr
    rw [List.length_cons, List.length_cons, ih hr]

theorem exists_state_of_run {s : State} {qs : List Request} {tr : List State}
    (h : run s qs = some tr) {k : Nat} (hk : k < qs.length) : ∃ hi, tr[k]? = some hi :=
  ⟨_, List.getElem?_eq_getElem (by rwa [length_run h])⟩

/-- **A reader on the rising edges gets its data exactly in the runs in range that read nothing
back.** -/
theorem readerGetsData_iff (s : State) (qs : List Request) :
    ReaderGetsData s qs ↔ (∀ q ∈ qs, q.spadAddr.toNat ≤ 2) ∧ NoReadBack qs := by
  constructor
  · rintro ⟨tr, htr, hall⟩
    refine ⟨le_two_of_run htr, fun k q hq hen => ?_⟩
    obtain ⟨hk, -⟩ := List.getElem?_eq_some_iff.mp hq
    obtain ⟨hi, hhi⟩ := exists_state_of_run htr hk
    cases hv : Store.lastWrite q.spadAddr.toFin ((qs.take k).map Request.op) with
    | none => rfl
    | some v =>
      have hsample := (hall k q hi hq hhi).1 hen v hv
      rw [nextSample_eq, Prod.mk.injEq] at hsample
      exact StdLogic.noConfusion hsample.1
  · rintro ⟨hle, hno⟩
    obtain ⟨tr, htr, -⟩ := run_refines s qs hle
    refine ⟨tr, htr, fun k q hi hq _ => ⟨fun hen v hv => ?_, fun hvalid => ?_⟩⟩
    · rw [hno k q hq hen] at hv
      exact absurd hv (by simp)
    · rw [nextSample_eq] at hvalid
      exact StdLogic.noConfusion hvalid

/-- a write of `1` to word `0`, then a read of it -/
theorem not_readerGetsData_zero : ¬ ∀ (s : State) (qs : List Request), ReaderGetsData s qs := by
  intro h
  obtain ⟨tr, htr, hall⟩ := h powerUp [⟨0, false, .ofBV 1⟩, ⟨0, true, .ofBV 0⟩]
  obtain ⟨hi, hhi⟩ := exists_state_of_run htr (show 1 < 2 by omega)
  have hsample := (hall 1 ⟨0, true, .ofBV 0⟩ hi rfl hhi).1 rfl (.ofBV 1) rfl
  rw [nextSample_eq, Prod.mk.injEq] at hsample
  exact StdLogic.noConfusion hsample.1

end Scratchpad
end Randx
