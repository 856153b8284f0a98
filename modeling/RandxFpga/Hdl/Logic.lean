import Mathlib.Data.BitVec
import Mathlib.Data.Fintype.Pi

/-!
# Nine-valued logic and its vectors

`StdLogic` is the value set of `std_logic`, `StdLogic.resolve` the resolution function of two
drivers, `Slv n` a `std_logic_vector(n-1 downto 0)` (index `i` of the function is index `i` of
the vector).

* `ofBV v`     the two-valued vector with the bits of `v`;
* `to01 a`     the value of a vector of `'0'`, `'1'`, `'L'`, `'H'`; a metavalue makes it `none`;
* `to01_ofBV`  the first is inverted by the second;
* `resolve_latch`  a driver that feeds the resolved value back is stable after one run.
-/

namespace Hdl

/-- `('U', 'X', '0', '1', 'Z', 'W', 'L', 'H', '-')` -/
inductive StdLogic where
  | U | X | F0 | F1 | Z | W | L | H | DC
  deriving DecidableEq, Repr

namespace StdLogic

/-- the resolution table -/
def resolve : StdLogic → StdLogic → StdLogic
  | .U, _ | _, .U => .U
  | .X, _ | _, .X | .DC, _ | _, .DC => .X
  | .F0, .F1 | .F1, .F0 => .X
  | .F0, _ | _, .F0 => .F0
  | .F1, _ | _, .F1 => .F1
  | .Z, b => b
  | a, .Z => a
  | .L, .L => .L
  | .H, .H => .H
  | _, _ => .W

def bit : StdLogic → Option Bool
  | .F0 | .L => some false
  | .F1 | .H => some true
  | _ => none

def ofBool (b : Bool) : StdLogic := if b then .F1 else .F0

/-- the table of `xor`: `'U'` dominates, any other metavalue gives `'X'` -/
def xor (a b : StdLogic) : StdLogic :=
  if a = .U ∨ b = .U then .U
  else match a.bit, b.bit with
    | some x, some y => ofBool (x ^^ y)
    | _, _ => .X

@[simp] theorem bit_ofBool (b : Bool) : (ofBool b).bit = some b := by cases b <;> rfl

@[simp] theorem xor_ofBool (a b : Bool) : xor (ofBool a) (ofBool b) = ofBool (a ^^ b) := by
  cases a <;> cases b <;> rfl

theorem resolve_self_ofBool (b : Bool) : resolve (ofBool b) (ofBool b) = ofBool b := by
  cases b <;> rfl

theorem resolve_latch (a b : StdLogic) : resolve (resolve a b) b = resolve a b := by
  cases a <;> cases b <;> rfl

end StdLogic

/-- `std_logic_vector(n-1 downto 0)` -/
abbrev Slv (n : Nat) := Fin n → StdLogic

section
variable {n m : Nat}

namespace Slv

def ofBV (v : BitVec n) : Slv n := fun i => .ofBool (v.getLsbD i)

def allX : Slv n := fun _ => .X

/-- `(others => 'U')`, the default of an undriven vector -/
def allU : Slv n := fun _ => .U

def bits (f : Fin n → Bool) : BitVec n :=
  (BitVec.ofBoolListLE (List.ofFn f)).cast (List.length_ofFn)

theorem getLsbD_bits (f : Fin n → Bool) {i : Nat} (h : i < n) :
    (bits f).getLsbD i = f ⟨i, h⟩ := by
  unfold bits
  rw [BitVec.getLsbD_cast, BitVec.getLsbD_ofBoolListLE, List.getD_eq_getElem?_getD,
    List.getElem?_ofFn, dif_pos h]
  rfl

def to01 (a : Slv n) : Option (BitVec n) :=
  if ∀ i, (a i).bit.isSome then some (bits fun i => (a i).bit.getD false) else none

theorem to01_ofBV (v : BitVec n) : to01 (ofBV v) = some v := by
  unfold to01 ofBV
  rw [if_pos (fun i => by rw [StdLogic.bit_ofBool]; rfl)]
  congr 1
  apply BitVec.eq_of_getLsbD_eq
  intro i hi
  rw [getLsbD_bits _ hi, StdLogic.bit_ofBool]
  rfl

theorem ofBV_inj {v w : BitVec n} : ofBV v = ofBV w ↔ v = w := by
  refine ⟨fun h => ?_, fun h => by rw [h]⟩
  have h1 := congrArg to01 h
  rw [to01_ofBV, to01_ofBV] at h1
  exact Option.some.inj h1

/-- element `j` of a vector; every use in the sources is in range -/
def get (a : Slv n) (j : Nat) : StdLogic := if h : j < n then a ⟨j, h⟩ else .U

/-- `a(lo + len - 1 downto lo)` -/
def slice (lo len : Nat) (a : Slv n) : Slv len := fun i => a.get (lo + i)

theorem get_ofBV (v : BitVec n) {j : Nat} (h : j < n) : (ofBV v).get j = .ofBool (v.getLsbD j) := by
  rw [get, dif_pos h]
  rfl

theorem slice_ofBV (lo len : Nat) (v : BitVec n) (h : lo + len ≤ n) :
    slice lo len (ofBV v) = ofBV (v.extractLsb' lo len) := by
  funext i
  have hi := i.isLt
  show (ofBV v).get (lo + i) = .ofBool ((v.extractLsb' lo len).getLsbD i)
  rw [get_ofBV v (by omega), BitVec.getLsbD_extractLsb']
  simp

/-- resolution of two drivers of a vector, element by element -/
def resolve (a b : Slv n) : Slv n := fun i => (a i).resolve (b i)

@[simp] theorem resolve_latch (a b : Slv n) : resolve (resolve a b) b = resolve a b := by
  funext i
  exact StdLogic.resolve_latch (a i) (b i)

theorem resolve_self_ofBV (v : BitVec n) : resolve (ofBV v) (ofBV v) = ofBV v := by
  funext i
  exact StdLogic.resolve_self_ofBool _

end Slv
end
end Hdl
