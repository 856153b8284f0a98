import RandxFpga.Hdl.Numeric

/-!
# The types of the FPGA sources (`common.vhd`, `randx_cfg.vhd`)

Every vector is nine-valued; `InstWord` and `RegWords` are the two-valued instructions and
register tables, `InstWord.reduced` and `RegWords.table` their vectors.
-/

namespace Randx
open Hdl

/-- `RdxCfg.LOG2_RANDOMX_SCRATCHPAD_L3` -/
def log2ScratchpadL3 : Nat := 21

/-- `SIZE_SPAD_ADDR`: the scratchpad is addressed by 8-byte words -/
def sizeSpadAddr : Nat := log2ScratchpadL3 - 3

inductive RandXOp where
  | IADD_RS | IADD_M | ISUB_R | ISUB_M | IMUL_R | IMUL_M | IMULH_R | IMULH_M | ISMULH_R
  | ISMULH_M | IMUL_RCP | INEG_R | IXOR_R | IXOR_M | IROR_R | IROL_R | ISWAP_R | FSWAP_R
  | FADD_R | FADD_M | FSUB_R | FSUB_M | FSCAL_R | FMUL_R | FDIV_M | FSQRT_R | CBRANCH
  | CFROUND | ISTORE | NOP
  deriving DecidableEq, Repr

structure FloatReg where
  val0 : Slv 64
  val1 : Slv 64

/-- the arrays run from `0` to the number of registers, so each has one element more -/
structure RegTable where
  r : Fin 9 → Slv 64
  f : Fin 5 → FloatReg
  e : Fin 5 → FloatReg
  a : Fin 5 → FloatReg
  fprc : Slv 2

structure ReducedInst where
  imm32 : Slv 32
  modMem : Slv 2
  modShift : Slv 2
  modCond : Slv 4
  src : Slv 3
  dst : Slv 3
  opcode : RandXOp

/-- `OpTag_t`, dead code of the Tomasulo draft that the ALUs pass through -/
structure OpTag where
  valid : StdLogic
  ident : Fin 32

/-! ## defaults: every element `'U'`, the first literal of an enumeration -/

def FloatReg.allU : FloatReg := ⟨Slv.allU, Slv.allU⟩

def RegTable.allU : RegTable :=
  ⟨fun _ => Slv.allU, fun _ => .allU, fun _ => .allU, fun _ => .allU, Slv.allU⟩

def ReducedInst.default : ReducedInst :=
  ⟨Slv.allU, Slv.allU, Slv.allU, Slv.allU, Slv.allU, Slv.allU, .IADD_RS⟩

/-! ## resolution of two drivers of a register table -/

def FloatReg.resolve (x y : FloatReg) : FloatReg :=
  ⟨x.val0.resolve y.val0, x.val1.resolve y.val1⟩

def RegTable.resolve (x y : RegTable) : RegTable where
  r := fun i => (x.r i).resolve (y.r i)
  f := fun i => (x.f i).resolve (y.f i)
  e := fun i => (x.e i).resolve (y.e i)
  a := fun i => (x.a i).resolve (y.a i)
  fprc := x.fprc.resolve y.fprc

theorem FloatReg.resolve_latch (x y : FloatReg) : (x.resolve y).resolve y = x.resolve y := by
  simp only [FloatReg.resolve, Slv.resolve_latch]

/-- a driver that feeds the resolved table back is stable after one run of its process -/
theorem RegTable.resolve_latch (x y : RegTable) : (x.resolve y).resolve y = x.resolve y := by
  simp only [RegTable.resolve, Slv.resolve_latch, FloatReg.resolve_latch]

/-! ## two-valued instructions and register tables -/

structure InstWord where
  imm32 : BitVec 32
  modMem : BitVec 2
  modShift : BitVec 2
  modCond : BitVec 4
  src : BitVec 3
  dst : BitVec 3
  opcode : RandXOp

def InstWord.reduced (w : InstWord) : ReducedInst :=
  ⟨.ofBV w.imm32, .ofBV w.modMem, .ofBV w.modShift, .ofBV w.modCond, .ofBV w.src, .ofBV w.dst,
    w.opcode⟩

structure RegWords where
  r : Fin 9 → BitVec 64
  f : Fin 5 → BitVec 64 × BitVec 64
  e : Fin 5 → BitVec 64 × BitVec 64
  a : Fin 5 → BitVec 64 × BitVec 64
  fprc : BitVec 2

def FloatReg.ofWords (p : BitVec 64 × BitVec 64) : FloatReg := ⟨.ofBV p.1, .ofBV p.2⟩

def RegWords.table (w : RegWords) : RegTable :=
  ⟨fun i => .ofBV (w.r i), fun i => .ofWords (w.f i), fun i => .ofWords (w.e i),
    fun i => .ofWords (w.a i), .ofBV w.fprc⟩

theorem RegWords.resolve_self (w : RegWords) : w.table.resolve w.table = w.table := by
  simp only [RegWords.table, RegTable.resolve, FloatReg.ofWords, FloatReg.resolve,
    Slv.resolve_self_ofBV]

end Randx
