import RandxFpga.Hdl.Logic
import RandxFpga.Hdl.Rotate

/-!
# The operators of numeric_std on nine-valued vectors

`signed`, `unsigned` and `std_logic_vector` are arrays of the same elements, so one type `Slv n`
carries all three and the operator says how the vector is read.

* `lift1`, `lift2`   an arithmetic operator: any metavalue makes the whole result `'X'`;
* `toInteger`        `to_integer` of an unsigned vector, `0` on a metavalue;
* `sll`, `ror`, `rol`, `xorV`   operators that move or combine elements one by one.

Every operator has a lemma `.._ofBV`: on two-valued vectors it is the operator on words.
-/

namespace Hdl
namespace Slv
section
variable {n m k : Nat}

def lift1 (f : BitVec n → BitVec m) (a : Slv n) : Slv m :=
  match a.to01 with
  | some x => ofBV (f x)
  | none => allX

def lift2 (f : BitVec n → BitVec m → BitVec k) (a : Slv n) (b : Slv m) : Slv k :=
  match a.to01, b.to01 with
  | some x, some y => ofBV (f x y)
  | _, _ => allX

@[simp] theorem lift1_ofBV (f : BitVec n → BitVec m) (x : BitVec n) :
    lift1 f (ofBV x) = ofBV (f x) := by
  rw [lift1, to01_ofBV]

@[simp] theorem lift2_ofBV (f : BitVec n → BitVec m → BitVec k) (x : BitVec n) (y : BitVec m) :
    lift2 f (ofBV x) (ofBV y) = ofBV (f x y) := by
  rw [lift2, to01_ofBV, to01_ofBV]

theorem lift2_eq_allX (f : BitVec n → BitVec m → BitVec k) (a : Slv n) {b : Slv m}
    (h : b.to01 = none) : lift2 f a b = allX := by
  rw [lift2, h]
  cases a.to01 <;> rfl

theorem to01_allX (h : 0 < n) : to01 (allX : Slv n) = none :=
  if_neg fun hall => Bool.false_ne_true (hall ⟨0, h⟩)

/-! ## arithmetic -/

/-- `+` of two vectors of one length, signed or unsigned -/
def add : Slv n → Slv n → Slv n := lift2 (· + ·)

/-- `+` of a signed vector and a shorter one, which is sign-extended -/
def addSigned : Slv n → Slv m → Slv n := lift2 fun x y => x + y.signExtend n

def sub : Slv n → Slv n → Slv n := lift2 (· - ·)

def neg : Slv n → Slv n := lift1 (- ·)

/-- `*` of two unsigned vectors, as long as both together -/
def mulUnsigned : Slv n → Slv m → Slv (n + m) :=
  lift2 fun x y => x.setWidth (n + m) * y.setWidth (n + m)

/-- `*` of two signed vectors, as long as both together -/
def mulSigned : Slv n → Slv m → Slv (n + m) :=
  lift2 fun x y => x.signExtend (n + m) * y.signExtend (n + m)

def toInteger (a : Slv n) : Nat := (a.to01.map BitVec.toNat).getD 0

/-- `=` of an unsigned vector and a natural number: false on a metavalue -/
def eqNat (a : Slv n) (k : Nat) : Bool := a.to01.any fun x => x.toNat == k

/-- `<` of an unsigned vector and a natural number: false on a metavalue -/
def ltNat (a : Slv n) (k : Nat) : Bool := a.to01.any fun x => x.toNat < k

@[simp] theorem toInteger_ofBV (x : BitVec n) : toInteger (ofBV x) = x.toNat := by
  rw [toInteger, to01_ofBV]
  rfl

@[simp] theorem eqNat_ofBV (x : BitVec n) (k : Nat) : eqNat (ofBV x) k = (x.toNat == k) := by
  rw [eqNat, to01_ofBV]
  rfl

@[simp] theorem ltNat_ofBV (x : BitVec n) (k : Nat) : ltNat (ofBV x) k = decide (x.toNat < k) := by
  rw [ltNat, to01_ofBV]
  rfl

theorem toInteger_lt (a : Slv n) : a.toInteger < 2 ^ n := by
  unfold toInteger
  cases a.to01 with
  | none => exact Nat.two_pow_pos n
  | some x => exact x.isLt

theorem toInteger_allU (h : 0 < n) : toInteger (allU : Slv n) = 0 := by
  have hnone : to01 (allU : Slv n) = none :=
    if_neg fun hall => Bool.false_ne_true (hall ⟨0, h⟩)
  rw [toInteger, hnone]
  rfl

/-! ## shifts, rotations, `xor` -/

def sll (a : Slv n) (k : Nat) : Slv n := fun i => if i.val < k then .F0 else a.get (i - k)

def ror (a : Slv n) (k : Nat) : Slv n := fun i => a.get ((i + k) % n)

def rol (a : Slv n) (k : Nat) : Slv n := fun i => a.get ((i + (n - k % n)) % n)

theorem ror_mod (a : Slv n) (k : Nat) : ror a (k % n) = ror a k := by
  funext i
  rw [ror, ror, Nat.add_mod_mod]

theorem rol_mod (a : Slv n) (k : Nat) : rol a (k % n) = rol a k := by
  funext i
  rw [rol, rol, Nat.mod_mod]

def xorV (a b : Slv n) : Slv n := fun i => (a i).xor (b i)

@[simp] theorem xorV_ofBV (x y : BitVec n) : xorV (ofBV x) (ofBV y) = ofBV (x ^^^ y) := by
  funext i
  show StdLogic.xor (.ofBool _) (.ofBool _) = .ofBool ((x ^^^ y).getLsbD i)
  rw [StdLogic.xor_ofBool, BitVec.getLsbD_xor]

@[simp] theorem sll_ofBV (x : BitVec n) (k : Nat) : sll (ofBV x) k = ofBV (x <<< k) := by
  funext i
  have hi := i.isLt
  show (if i.val < k then StdLogic.F0 else (ofBV x).get (i - k)) = .ofBool ((x <<< k).getLsbD i)
  rw [BitVec.getLsbD_shiftLeft]
  by_cases h : i.val < k
  · rw [if_pos h]
    simp [h, StdLogic.ofBool]
  · rw [if_neg h, get_ofBV x (by omega)]
    simp [h]

@[simp] theorem ror_ofBV (x : BitVec n) (k : Nat) : ror (ofBV x) k = ofBV (x.rotateRight k) := by
  funext i
  have hi := i.isLt
  show (ofBV x).get ((i + k) % n) = .ofBool ((x.rotateRight k).getLsbD i)
  rw [get_ofBV x (Nat.mod_lt _ (by omega)), getLsbD_rotateRight_mod x k hi]

@[simp] theorem rol_ofBV (x : BitVec n) (k : Nat) : rol (ofBV x) k = ofBV (x.rotateLeft k) := by
  funext i
  have hi := i.isLt
  show (ofBV x).get ((i + (n - k % n)) % n) = .ofBool ((x.rotateLeft k).getLsbD i)
  rw [get_ofBV x (Nat.mod_lt _ (by omega)), getLsbD_rotateLeft_mod x k hi]

end
end Slv
end Hdl
