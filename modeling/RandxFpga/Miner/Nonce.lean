import RandxFpga.Oracle.Word
import RandxFpga.Run.Tickets

/-!
# Nonces of the workers (`Nonce.cpp`, `WorkerJob.h`)

The workers of a job reserve blocks of nonces from one counter with `Nonce::next`, and go through a
block round by round with `WorkerJob<1>::nextRound`.  A step of the `System` is a `fetch_add` of the
counter or what one worker does between two of them, in any order.

* `Step.inv`    what a step keeps: the blocks are apart, and a nonce stays in its block;
* `tried_inv`   no nonce is tried twice under a reservation, nor a bit outside the mask changed.
-/

namespace Randx
namespace Miner
open Tickets

/-! ## a reservation -/

/-- the two words at `nonce` in a blob -/
structure NonceWords where
  word0 : BitVec 32
  word1 : BitVec 32

inductive Verdict where
  | failed
  | reserved
  | again

/-- `mask &= 0x7FFFFFFFFFFFFFFFULL` -/
def counterMask (mask : Word) : Word := mask &&& 0x7FFFFFFFFFFFFFFF

/-- `Nonce::next` returns `false` in front of the `fetch_add` -/
def refuses (mask : Word) (reserveCount : BitVec 32) : Bool :=
  reserveCount == 0 || decide (counterMask mask < (reserveCount - 1).setWidth 64)

/-- a turn of the loop in `Nonce::next`, and whether it pauses the miner -/
def examine (mask : Word) (reserveCount : BitVec 32) (counter : Word) : Verdict × Bool :=
  let mask := counterMask mask
  let last : Word := (reserveCount - 1).setWidth 64
  if mask < counter then (.failed, false)
  else if mask - counter ≤ last then
    (if mask - counter < last then .failed else .reserved, true)
  else if 0xFFFFFFFF - (counter.setWidth 32).setWidth 64 < last then (.again, false)
  else (.reserved, false)

/-- what `Nonce::next` assigns to `nonce[0]` and `nonce[1]` -/
def writeNonce (mask counter : Word) (nonce : NonceWords) : NonceWords :=
  let mask := counterMask mask
  { word0 := (nonce.word0.setWidth 64 &&& ~~~mask ||| counter).setWidth 32
    word1 :=
      if 0xFFFFFFFF < mask then
        (nonce.word1.setWidth 64 &&& (~~~mask >>> 32) ||| counter >>> 32).setWidth 32
      else nonce.word1 }

/-! ## the workers -/

inductive Phase where
  /-- in front of `save` -/
  | fresh
  /-- in `Nonce::next`, with what `fetch_add` returned -/
  | fetched (counter : Word)
  /-- between two calls of `nextRound`, with the start of the block, if `Nonce::next` gave one -/
  | hashing (block : Option Word)

structure Worker where
  /-- `m_rounds` -/
  rounds : BitVec 32
  nonce : NonceWords
  phase : Phase

/-- a round that a worker has gone through -/
structure Tried (ι : Type) where
  worker : ι
  nonce : NonceWords
  block : Option Word

/-- a job and the arguments of `nextRound` of each worker; a mask is some low bits, and the numbers
of rounds are powers of two -/
structure Setup (ι : Type) where
  mask : Word
  blob : NonceWords
  rounds : ι → BitVec 32
  roundSize : ι → BitVec 32
  bits : Nat
  logRounds : ι → Nat
  mask_eq : mask.toNat = 2 ^ bits - 1
  rounds_eq : ∀ t, (rounds t).toNat = 2 ^ logRounds t
  roundSize_pos : ∀ t, 0 < (roundSize t).toNat
  reserve_lt : ∀ t, (rounds t).toNat * (roundSize t).toNat < 2 ^ 32

structure System (ι : Type) where
  /-- `m_nonces[index]` -/
  counter : Word
  paused : Bool
  workers : ι → Worker
  tried : List (Tried ι)

section
variable {ι : Type} [DecidableEq ι] (p : Setup ι) (s : System ι) (t : ι)

def Setup.reserveCount : BitVec 32 := p.rounds t * p.roundSize t

namespace System

def setWorker (w : Worker) : System ι := { s with workers := Function.update s.workers t w }

/-- the `fetch_add` -/
def fetch (w : Worker) : System ι :=
  { s.setWorker t { w with phase := .fetched s.counter } with
    counter := s.counter + (p.reserveCount t).setWidth 64 }

/-- `Nonce::next` up to its first `fetch_add` -/
def callNext (w : Worker) : System ι :=
  if refuses p.mask (p.reserveCount t) then s.setWorker t { w with phase := .hashing none }
  else s.fetch p t w

/-- `WorkerJob<1>::save` -/
def save : System ι := s.callNext p t { rounds := 0, nonce := p.blob, phase := .fresh }

/-- `Nonce::next` from one `fetch_add` to the next one, or to its end -/
def continueNext (counter : Word) : System ι :=
  let w := s.workers t
  let (verdict, pause) := examine p.mask (p.reserveCount t) counter
  let s := { s with paused := s.paused || pause }
  match verdict with
  | .failed => s.setWorker t { w with phase := .hashing none }
  | .reserved =>
    s.setWorker t
      { w with nonce := writeNonce p.mask counter w.nonce, phase := .hashing (some counter) }
  | .again => s.fetch p t w

/-- a round and `WorkerJob<1>::nextRound` behind it -/
def nextRound (block : Option Word) : System ι :=
  let w := s.workers t
  let s := { s with tried := ⟨t, w.nonce, block⟩ :: s.tried }
  let w := { w with rounds := w.rounds + 1 }
  if w.rounds &&& (p.rounds t - 1) = 0 then s.callNext p t w
  else s.setWorker t
    { w with nonce := { w.nonce with word0 := w.nonce.word0 + p.roundSize t } }

end System

/-- any worker goes on, or the miner is paused or goes on -/
inductive Step : System ι → System ι → Prop where
  | save (s : System ι) (t : ι) (h : (s.workers t).phase = .fresh) : Step s (s.save p t)
  | next (s : System ι) (t : ι) (counter : Word) (h : (s.workers t).phase = .fetched counter) :
    Step s (s.continueNext p t counter)
  | round (s : System ι) (t : ι) (block : Option Word) (h : (s.workers t).phase = .hashing block) :
    Step s (s.nextRound p t block)
  | pause (s : System ι) (b : Bool) : Step s { s with paused := b }

/-- a run with the number of its steps -/
inductive Run : Nat → System ι → System ι → Prop where
  | start (s : System ι) : Run 0 s s
  | step {n : Nat} {s s' s'' : System ι} (h : Run n s s') (hstep : Step p s' s'') :
    Run (n + 1) s s''

end

/-! ## the numbers -/

namespace Setup
section
variable {ι : Type} (p : Setup ι) (t : ι)

/-- how many nonces the mask has room for -/
def top : Nat := 2 ^ min p.bits 63

def reserve : Nat := (p.rounds t).toNat * (p.roundSize t).toNat

theorem toNat_reserveCount : (p.reserveCount t).toNat = p.reserve t := by
  rw [reserveCount, BitVec.toNat_mul]
  exact Nat.mod_eq_of_lt (p.reserve_lt t)

theorem rounds_pos : 0 < (p.rounds t).toNat := by
  rw [p.rounds_eq]
  exact Nat.two_pow_pos _

theorem reserve_pos : 0 < p.reserve t := Nat.mul_pos (p.rounds_pos t) (p.roundSize_pos t)

theorem toNat_counterMask : (counterMask p.mask).toNat = p.top - 1 := by
  have hand : (2 ^ p.bits - 1) &&& (2 ^ 63 - 1) = 2 ^ min p.bits 63 - 1 := by
    apply Nat.eq_of_testBit_eq
    intro i
    rw [Nat.testBit_and, Nat.testBit_two_pow_sub_one, Nat.testBit_two_pow_sub_one,
      Nat.testBit_two_pow_sub_one, ← Bool.decide_and]
    exact decide_eq_decide.mpr (by omega)
  rw [counterMask, BitVec.toNat_and, p.mask_eq]
  exact hand

theorem top_pos : 0 < p.top := Nat.two_pow_pos _

theorem toNat_last : ((p.reserveCount t - 1).setWidth 64 : Word).toNat = p.reserve t - 1 := by
  have hpos := p.reserve_pos t
  have hcount := p.toNat_reserveCount t
  rw [BitVec.toNat_setWidth_of_le (by omega),
    BitVec.toNat_sub_of_le (by rw [BitVec.le_def, hcount]; exact hpos), hcount]
  rfl

end
end Setup

section
variable {ι : Type} (p : Setup ι) (t : ι)

/-- a block that is reserved lies below the top, and in one range of 32 bits -/
theorem examine_reserved {counter : Word}
    (h : (examine p.mask (p.reserveCount t) counter).1 = .reserved) :
    counter.toNat + p.reserve t ≤ p.top ∧
      counter.toNat % 2 ^ 32 + p.reserve t ≤ 2 ^ 32 := by
  have hmask := p.toNat_counterMask
  have hlast := p.toNat_last t
  have hpos := p.reserve_pos t
  have htop := p.top_pos
  have hlt : p.reserve t < 2 ^ 32 := p.reserve_lt t
  have hlow : (0xFFFFFFFF - (counter.setWidth 32).setWidth 64 : Word).toNat
      = 2 ^ 32 - 1 - counter.toNat % 2 ^ 32 := by
    rw [BitVec.toNat_sub_of_le (by
      rw [BitVec.le_def, BitVec.toNat_setWidth_of_le (by omega), BitVec.toNat_setWidth]
      show _ ≤ 4294967295
      omega), BitVec.toNat_setWidth_of_le (by omega), BitVec.toNat_setWidth]
    rfl
  unfold examine at h
  dsimp only at h
  by_cases hover : counterMask p.mask < counter
  · rw [if_pos hover] at h
    exact absurd h nofun
  · rw [if_neg hover] at h
    have hle : counter.toNat ≤ p.top - 1 := by
      rw [BitVec.lt_def, hmask] at hover
      omega
    have hsub : (counterMask p.mask - counter).toNat = p.top - 1 - counter.toNat := by
      rw [BitVec.toNat_sub_of_le (by rw [BitVec.le_def, hmask]; exact hle), hmask]
    by_cases hend : counterMask p.mask - counter ≤ (p.reserveCount t - 1).setWidth 64
    · rw [if_pos hend] at h
      by_cases hshort : counterMask p.mask - counter < (p.reserveCount t - 1).setWidth 64
      · rw [if_pos hshort] at h
        exact absurd h nofun
      · rw [BitVec.le_def, hsub, hlast] at hend
        rw [BitVec.lt_def, hsub, hlast] at hshort
        -- the last block ends at the top, a power of two
        have heq : counter.toNat + p.reserve t = p.top := by omega
        refine ⟨Nat.le_of_eq heq, ?_⟩
        by_cases hbits : 32 ≤ min p.bits 63
        · obtain ⟨k, hk⟩ : 2 ^ 32 ∣ p.top := Nat.pow_dvd_pow 2 hbits
          omega
        · have hsmall : p.top ≤ 2 ^ 32 := Nat.pow_le_pow_right (by omega) (by omega)
          omega
    · rw [if_neg hend] at h
      rw [BitVec.le_def, hsub, hlast] at hend
      by_cases hcross : (0xFFFFFFFF - (counter.setWidth 32).setWidth 64 : Word)
          < (p.reserveCount t - 1).setWidth 64
      · rw [if_pos hcross] at h
        exact absurd h nofun
      · rw [BitVec.lt_def, hlow, hlast] at hcross
        omega

/-- what is left for a block that is not reserved ends at the top -/
theorem examine_failed {counter : Word}
    (h : (examine p.mask (p.reserveCount t) counter).1 = .failed) :
    p.top ≤ counter.toNat + p.reserve t := by
  have hmask := p.toNat_counterMask
  have hlast := p.toNat_last t
  have hpos := p.reserve_pos t
  unfold examine at h
  dsimp only at h
  by_cases hover : counterMask p.mask < counter
  · rw [BitVec.lt_def, hmask] at hover
    omega
  · rw [if_neg hover] at h
    rw [BitVec.lt_def, hmask] at hover
    by_cases hend : counterMask p.mask - counter ≤ (p.reserveCount t - 1).setWidth 64
    · rw [BitVec.le_def, BitVec.toNat_sub_of_le (by rw [BitVec.le_def, hmask]; omega), hmask,
        hlast] at hend
      omega
    · rw [if_neg hend] at h
      split at h <;> exact absurd h nofun

end

/-! ## the words of a nonce -/

section
variable {ι : Type} (p : Setup ι) (n : NonceWords)

namespace NonceWords

/-- the nonce as one number -/
def join : Word := n.word1 ++ n.word0

/-- what the mask lets through -/
def value : Nat := n.join.toNat % p.top

/-- the bits that belong to the pool -/
def fixed : Nat := n.join.toNat / p.top

theorem toNat_join : n.join.toNat = 2 ^ 32 * n.word1.toNat + n.word0.toNat := by
  rw [join, BitVec.toNat_append, Nat.shiftLeft_eq, Nat.mul_comm,
    ← Nat.two_pow_add_eq_or_of_lt n.word0.isLt]

end NonceWords

theorem and_counterMask (x : Word) : (x &&& counterMask p.mask).toNat = x.toNat % p.top := by
  rw [BitVec.toNat_and, p.toNat_counterMask]
  exact Nat.and_two_pow_sub_one_eq_mod _ _

theorem getLsbD_counterMask {i : Nat} :
    (counterMask p.mask).getLsbD i = decide (i < min p.bits 63) := by
  rw [BitVec.getLsbD, p.toNat_counterMask]
  exact Nat.testBit_two_pow_sub_one _ _

/-- a number below the top has no bit outside the mask -/
theorem getLsbD_of_top_le {counter : Word} (h : counter.toNat < p.top) {i : Nat}
    (hi : min p.bits 63 ≤ i) : counter.getLsbD i = false :=
  Nat.testBit_lt_two_pow (Nat.lt_of_lt_of_le h (Nat.pow_le_pow_right (by omega) hi))

theorem join_writeNonce {counter : Word} (h : counter.toNat < p.top) :
    (writeNonce p.mask counter n).join
      = n.join &&& ~~~(counterMask p.mask) ||| counter := by
  have hwide : ¬ (0xFFFFFFFF : Word) < counterMask p.mask → min p.bits 63 ≤ 32 := by
    intro hle
    by_contra hlt
    have hpow : 2 ^ 33 ≤ p.top := Nat.pow_le_pow_right (by omega) (by omega)
    rw [BitVec.lt_def, p.toNat_counterMask] at hle
    exact hle (by show 4294967295 < _; omega)
  apply BitVec.eq_of_getLsbD_eq
  intro i hi
  unfold NonceWords.join writeNonce
  dsimp only
  rw [BitVec.getLsbD_append, BitVec.getLsbD_or, BitVec.getLsbD_and, BitVec.getLsbD_append,
    BitVec.getLsbD_not]
  by_cases hlow : i < 32
  · simp [hlow, hi]
  · rw [if_neg hlow, if_neg hlow]
    by_cases hmask : (0xFFFFFFFF : Word) < counterMask p.mask
    · have hhigh : i - 32 < 32 := by omega
      rw [if_pos hmask]
      simp [hhigh, hi, show 32 + (i - 32) = i by omega, show i - 32 < 64 by omega]
    · have hbit := hwide hmask
      have hout : decide (i < min p.bits 63) = false := decide_eq_false (by omega)
      rw [if_neg hmask, getLsbD_counterMask, getLsbD_of_top_le p h (by omega), hout]
      simp [hi]

theorem toNat_writeNonce {counter : Word} (h : counter.toNat < p.top) :
    (writeNonce p.mask counter n).join.toNat = p.top * n.fixed p + counter.toNat := by
  have hparts :
      (n.join &&& counterMask p.mask) &&& (n.join &&& ~~~(counterMask p.mask)) = 0#64 := by
    apply BitVec.eq_of_getLsbD_eq
    intro i hi
    rw [BitVec.getLsbD_and, BitVec.getLsbD_and, BitVec.getLsbD_and, BitVec.getLsbD_not,
      decide_eq_true hi, Bool.true_and, BitVec.getLsbD_zero]
    cases (counterMask p.mask).getLsbD i <;> simp
  have hfixed : (n.join &&& ~~~(counterMask p.mask)).toNat = p.top * n.fixed p := by
    have hsum := BitVec.toNat_add_of_and_eq_zero hparts
    rw [BitVec.add_eq_or_of_and_eq_zero _ _ hparts, ← BitVec.and_or_distrib_left,
      BitVec.or_not_self, BitVec.and_allOnes, and_counterMask] at hsum
    have hdiv := Nat.mod_add_div n.join.toNat p.top
    unfold NonceWords.fixed
    omega
  have hcounter : (n.join &&& ~~~(counterMask p.mask)) &&& counter = 0#64 := by
    apply BitVec.eq_of_getLsbD_eq
    intro i hi
    rw [BitVec.getLsbD_and, BitVec.getLsbD_and, BitVec.getLsbD_not, getLsbD_counterMask,
      BitVec.getLsbD_zero]
    by_cases hbit : i < min p.bits 63
    · simp [hbit]
    · rw [getLsbD_of_top_le p h (by omega), Bool.and_false]
  rw [join_writeNonce p n h, ← BitVec.add_eq_or_of_and_eq_zero _ _ hcounter,
    BitVec.toNat_add_of_and_eq_zero hcounter, hfixed]

theorem value_writeNonce {counter : Word} (h : counter.toNat < p.top) :
    (writeNonce p.mask counter n).value p = counter.toNat := by
  unfold NonceWords.value
  rw [toNat_writeNonce p n h, Nat.mul_add_mod, Nat.mod_eq_of_lt h]

theorem fixed_writeNonce {counter : Word} (h : counter.toNat < p.top) :
    (writeNonce p.mask counter n).fixed p = n.fixed p := by
  show (writeNonce p.mask counter n).join.toNat / p.top = _
  rw [toNat_writeNonce p n h, Nat.mul_add_div p.top_pos, Nat.div_eq_of_lt h, Nat.add_zero]

/-- `*n += roundSize` stays below the top and in the first word -/
theorem toNat_addRound {k : BitVec 32} (htop : n.value p + k.toNat < p.top)
    (hword : n.value p % 2 ^ 32 + k.toNat < 2 ^ 32) :
    ({ n with word0 := n.word0 + k } : NonceWords).join.toNat = n.join.toNat + k.toNat := by
  have hn := n.toNat_join
  have hlt := n.word0.isLt
  have hsum : n.word0.toNat + k.toNat < 2 ^ 32 := by
    unfold NonceWords.value at htop hword
    by_cases hbits : 32 ≤ min p.bits 63
    · have hdvd : 2 ^ 32 ∣ p.top := Nat.pow_dvd_pow 2 hbits
      rw [Nat.mod_mod_of_dvd _ hdvd] at hword
      omega
    · -- the top is a part of the first word
      obtain ⟨m, hm⟩ : p.top ∣ 2 ^ 32 := Nat.pow_dvd_pow 2 (by omega)
      have hmod : n.join.toNat % p.top = n.word0.toNat % p.top := by
        rw [hn, hm, Nat.mul_assoc, Nat.mul_add_mod]
      have hdiv : n.word0.toNat / p.top < m := by
        rw [Nat.div_lt_iff_lt_mul p.top_pos, Nat.mul_comm, ← hm]
        exact hlt
      have hle : p.top * (n.word0.toNat / p.top + 1) ≤ p.top * m := Nat.mul_le_mul_left _ hdiv
      have hparts := Nat.mod_add_div n.word0.toNat p.top
      rw [Nat.mul_succ] at hle
      omega
  rw [NonceWords.toNat_join]
  show 2 ^ 32 * n.word1.toNat + (n.word0 + k).toNat = _
  rw [BitVec.toNat_add, Nat.mod_eq_of_lt hsum]
  omega

theorem value_addRound {k : BitVec 32} (htop : n.value p + k.toNat < p.top)
    (hword : n.value p % 2 ^ 32 + k.toNat < 2 ^ 32) :
    ({ n with word0 := n.word0 + k } : NonceWords).value p = n.value p + k.toNat := by
  have hdiv := Nat.mod_add_div n.join.toNat p.top
  have hjoin := toNat_addRound p n htop hword
  unfold NonceWords.value at htop ⊢
  rw [hjoin, Nat.add_mod, Nat.mod_eq_of_lt (show k.toNat < p.top by omega), Nat.mod_eq_of_lt htop]

theorem fixed_addRound {k : BitVec 32} (htop : n.value p + k.toNat < p.top)
    (hword : n.value p % 2 ^ 32 + k.toNat < 2 ^ 32) :
    ({ n with word0 := n.word0 + k } : NonceWords).fixed p = n.fixed p := by
  have hjoin := toNat_addRound p n htop hword
  unfold NonceWords.value at htop
  unfold NonceWords.fixed
  rw [hjoin, ← Nat.mod_add_div n.join.toNat p.top, Nat.add_right_comm,
    Nat.add_mul_div_left _ _ p.top_pos, Nat.div_eq_of_lt htop, Nat.zero_add,
    Nat.add_mul_div_left _ _ p.top_pos, Nat.div_eq_of_lt (Nat.mod_lt _ p.top_pos), Nat.zero_add]

end

/-! ## the blocks -/

section
variable {ι : Type} (p : Setup ι)

/-- what a worker may still try of its block -/
def span (t : ι) (w : Worker) : Set Nat :=
  match w.phase with
  | .fetched counter => Set.Ico counter.toNat (counter.toNat + p.reserve t)
  | .hashing (some counter) => Set.Ico (w.nonce.value p) (counter.toNat + p.reserve t)
  | _ => ∅

/-- the nonces of a round -/
def Tried.span (e : Tried ι) : Set Nat :=
  Set.Ico (e.nonce.value p) (e.nonce.value p + (p.roundSize e.worker).toNat)

/-- the rounds under a reservation -/
def System.reserved (s : System ι) : List (Tried ι) := s.tried.filter fun e => e.block.isSome

def office (s : System ι) : Office ι where
  next := s.counter.toNat
  held := fun t => span p t (s.workers t)
  spent := s.reserved.map (Tried.span p)

/-- a worker in its block: the rounds so far are behind the nonce -/
structure InBlock (t : ι) (w : Worker) (counter : Word) : Prop where
  fixed : w.nonce.fixed p = p.blob.fixed p
  le_top : counter.toNat + p.reserve t ≤ p.top
  low : counter.toNat % 2 ^ 32 + p.reserve t ≤ 2 ^ 32
  value : w.nonce.value p = counter.toNat
    + w.rounds.toNat % (p.rounds t).toNat * (p.roundSize t).toNat

/-- a worker without a block gets none any more -/
def OutOf (n : Nat) (t : ι) : Prop := refuses p.mask (p.reserveCount t) = true ∨ p.top ≤ n

/-- a worker in front of the first round of a block -/
structure AtBlock (t : ι) (w : Worker) : Prop where
  fixed : w.nonce.fixed p = p.blob.fixed p
  first : w.rounds.toNat % (p.rounds t).toNat = 0

/-- `n` is the counter -/
structure WorkerInv (n : Nat) (t : ι) (w : Worker) : Prop where
  fetched : ∀ counter, w.phase = .fetched counter → AtBlock p t w ∨ p.top ≤ counter.toNat
  inBlock : ∀ counter, w.phase = .hashing (some counter) → InBlock p t w counter
  outOf : w.phase = .hashing none → OutOf p n t

structure SystemInv (s : System ι) : Prop where
  office : Tickets.Inv (office p s)
  worker : ∀ t, WorkerInv p s.counter.toNat t (s.workers t)
  tried : ∀ e ∈ s.reserved, e.nonce.fixed p = p.blob.fixed p ∧
    e.nonce.value p + (p.roundSize e.worker).toNat ≤ p.top

variable [DecidableEq ι] {p} {s : System ι} {t : ι} {w : Worker} {o : Office ι}

/-- the office of a system but for what `t` holds -/
structure OfficeBut (p : Setup ι) (t : ι) (s : System ι) (o : Office ι) : Prop where
  next : o.next = s.counter.toNat
  held : ∀ u, u ≠ t → o.held u = span p u (s.workers u)
  spent : o.spent = s.reserved.map (Tried.span p)

omit [DecidableEq ι] in
theorem officeBut_self : OfficeBut p t s (office p s) := ⟨rfl, fun _ _ => rfl, rfl⟩

theorem OfficeBut.held_update (h : OfficeBut p t s o) (w : Worker) :
    (fun u => span p u (Function.update s.workers t w u))
      = Function.update o.held t (span p t w) := by
  funext u
  by_cases hu : u = t
  · subst hu
    rw [Function.update_self, Function.update_self]
  · rw [Function.update_of_ne hu, Function.update_of_ne hu, h.held u hu]

theorem OfficeBut.setWorker (h : OfficeBut p t s o) (w : Worker) :
    office p (s.setWorker t w) = { o with held := Function.update o.held t (span p t w) } :=
  (Office.mk.injEq ..).mpr ⟨h.next.symm, h.held_update w, h.spent.symm⟩

theorem OfficeBut.fetch (h : OfficeBut p t s o) (hroom : s.counter.toNat + 2 ^ 32 ≤ 2 ^ 64)
    (w : Worker) : office p (s.fetch p t w) = o.take t (p.reserve t) := by
  have hlt : p.reserve t < 2 ^ 32 := p.reserve_lt t
  have hcounter : (s.counter + (p.reserveCount t).setWidth 64).toNat
      = s.counter.toNat + p.reserve t := by
    rw [BitVec.toNat_add, BitVec.toNat_setWidth_of_le (by omega), p.toNat_reserveCount]
    exact Nat.mod_eq_of_lt (by omega)
  refine (Office.mk.injEq ..).mpr ⟨?_, ?_, h.spent.symm⟩
  · rw [h.next]
    exact hcounter
  · rw [h.next]
    exact h.held_update _

theorem OfficeBut.callNext (h : OfficeBut p t s o) (hroom : s.counter.toNat + 2 ^ 32 ≤ 2 ^ 64)
    (w : Worker) : Tickets.Step o (office p (s.callNext p t w)) := by
  unfold System.callNext
  by_cases hrefuses : refuses p.mask (p.reserveCount t) = true
  · rw [if_pos hrefuses, h.setWorker]
    exact .drop o t
  · rw [if_neg hrefuses, h.fetch hroom]
    exact .take o t _

omit [DecidableEq ι] in
theorem workerInv_none {n : Nat} (h : OutOf p n t) :
    WorkerInv p n t { w with phase := .hashing none } where
  fetched := nofun
  inBlock := nofun
  outOf := fun _ => h

omit [DecidableEq ι] in
theorem workerInv_fetched {n : Nat} {counter : Word} (h : AtBlock p t w ∨ p.top ≤ counter.toNat) :
    WorkerInv p n t { w with phase := .fetched counter } where
  fetched := fun c hc => by
    obtain rfl : counter = c := Phase.fetched.inj hc
    exact h.imp_left fun h => ⟨h.fixed, h.first⟩
  inBlock := nofun
  outOf := nofun

omit [DecidableEq ι] in
theorem WorkerInv.mono {n n' : Nat} (h : WorkerInv p n t w) (hle : n ≤ n') :
    WorkerInv p n' t w where
  fetched := h.fetched
  inBlock := h.inBlock
  outOf := fun hphase => (h.outOf hphase).imp_right fun htop => htop.trans hle

theorem workers_update {n n' : Nat} (hle : n ≤ n') (hw : WorkerInv p n' t w)
    (h : ∀ u, WorkerInv p n u (s.workers u)) (u : ι) :
    WorkerInv p n' u (Function.update s.workers t w u) :=
  (Function.forall_update_iff s.workers fun u w => WorkerInv p n' u w).mpr
    ⟨hw, fun u _ => (h u).mono hle⟩ u

theorem fetch_counter (hroom : s.counter.toNat + 2 ^ 32 ≤ 2 ^ 64) :
    (s.fetch p t w).counter.toNat = s.counter.toNat + p.reserve t := by
  have hlt : p.reserve t < 2 ^ 32 := p.reserve_lt t
  show (s.counter + (p.reserveCount t).setWidth 64).toNat = _
  rw [BitVec.toNat_add, BitVec.toNat_setWidth_of_le (by omega), p.toNat_reserveCount]
  exact Nat.mod_eq_of_lt (by omega)

theorem fetch_workers (hroom : s.counter.toNat + 2 ^ 32 ≤ 2 ^ 64)
    (hw : AtBlock p t w ∨ p.top ≤ s.counter.toNat)
    (h : ∀ u, WorkerInv p s.counter.toNat u (s.workers u)) (u : ι) :
    WorkerInv p (s.fetch p t w).counter.toNat u ((s.fetch p t w).workers u) := by
  have hle : s.counter.toNat ≤ (s.fetch p t w).counter.toNat := by
    rw [fetch_counter hroom]
    exact Nat.le_add_right _ _
  exact workers_update hle (workerInv_fetched hw) h u

/-- a call at the end of a block, or of a worker that is out of blocks -/
theorem callNext_workers (hroom : s.counter.toNat + 2 ^ 32 ≤ 2 ^ 64)
    (hw : AtBlock p t w ∨ OutOf p s.counter.toNat t)
    (h : ∀ u, WorkerInv p s.counter.toNat u (s.workers u)) (u : ι) :
    WorkerInv p (s.callNext p t w).counter.toNat u ((s.callNext p t w).workers u) := by
  unfold System.callNext
  by_cases hrefuses : refuses p.mask (p.reserveCount t) = true
  · rw [if_pos hrefuses]
    exact workers_update (Nat.le_refl _) (workerInv_none (.inl hrefuses)) h u
  · rw [if_neg hrefuses]
    exact fetch_workers hroom (hw.imp_right fun h => h.resolve_left hrefuses) h u

theorem callNext_tried : (s.callNext p t w).tried = s.tried := by
  unfold System.callNext
  split <;> rfl

theorem callNext_counter_le (hroom : s.counter.toNat + 2 ^ 32 ≤ 2 ^ 64) :
    (s.callNext p t w).counter.toNat ≤ s.counter.toNat + 2 ^ 32 := by
  have hlt : p.reserve t < 2 ^ 32 := p.reserve_lt t
  unfold System.callNext
  split
  · exact Nat.le_add_right _ _
  · rw [fetch_counter hroom]
    omega

/-! ## a step -/

theorem save_inv (hroom : s.counter.toNat + 2 ^ 32 ≤ 2 ^ 64) (hi : SystemInv p s) (t : ι) :
    SystemInv p (s.save p t) where
  office := (officeBut_self.callNext hroom _).inv hi.office
  worker := callNext_workers hroom (.inl ⟨rfl, Nat.zero_mod _⟩) hi.worker
  tried := fun e he => hi.tried e (by
    unfold System.reserved System.save at he
    rwa [callNext_tried] at he)

theorem continueNext_inv (hroom : s.counter.toNat + 2 ^ 32 ≤ 2 ^ 64) (hi : SystemInv p s) {t : ι}
    {counter : Word} (h : (s.workers t).phase = .fetched counter) :
    SystemInv p (s.continueNext p t counter) := by
  have hworker := (hi.worker t).fetched counter h
  have hpos := p.reserve_pos t
  have hbut : ∀ b, OfficeBut p t { s with paused := b } (office p s) :=
    fun _ => ⟨rfl, fun _ _ => rfl, rfl⟩
  have hheld : (office p s).held t = Set.Ico counter.toNat (counter.toNat + p.reserve t) := by
    show span p t (s.workers t) = _
    unfold span
    rw [h]
  -- the counter is behind the block
  have hnext : counter.toNat + p.reserve t ≤ s.counter.toNat := by
    have hlt := hi.office.held_lt t (counter.toNat + p.reserve t - 1) (by
      rw [hheld]
      exact ⟨by omega, by omega⟩)
    have hcounter : counter.toNat + p.reserve t - 1 < s.counter.toNat := hlt
    omega
  unfold System.continueNext
  dsimp only
  split
  · rename_i hfailed
    have htop := examine_failed p t hfailed
    refine ⟨?_, workers_update (Nat.le_refl _) (workerInv_none (.inr (htop.trans hnext))) hi.worker,
      hi.tried⟩
    rw [(hbut _).setWorker]
    exact (Tickets.Step.drop _ t).inv hi.office
  · rename_i hreserved
    obtain ⟨htop, hlow⟩ := examine_reserved p t hreserved
    have hlt : counter.toNat < p.top := by omega
    obtain ⟨hfixed, hfirst⟩ := hworker.resolve_right (by omega)
    have hvalue := value_writeNonce p (s.workers t).nonce hlt
    have hblock : InBlock p t { s.workers t with
        nonce := writeNonce p.mask counter (s.workers t).nonce
        phase := .hashing (some counter) } counter :=
      ⟨(fixed_writeNonce p _ hlt).trans hfixed, htop, hlow, by
        rw [hvalue, hfirst, Nat.zero_mul, Nat.add_zero]⟩
    refine ⟨?_, workers_update (Nat.le_refl _) ⟨nofun, fun c hc => ?_, nofun⟩ hi.worker, hi.tried⟩
    · -- the worker holds the block that it has fetched
      rw [(hbut _).setWorker]
      show Tickets.Inv { office p s with held := Function.update (office p s).held t (Set.Ico
        ((writeNonce p.mask counter (s.workers t).nonce).value p) (counter.toNat + p.reserve t)) }
      rw [hvalue, ← hheld, Function.update_eq_self]
      exact hi.office
    · obtain rfl : counter = c := Option.some.inj (Phase.hashing.inj hc)
      exact hblock
  · have hfetch := fun b => (hbut b).fetch hroom (s.workers t)
    have hout : AtBlock p t (s.workers t) ∨ p.top ≤ s.counter.toNat :=
      hworker.imp_right fun htop => by omega
    refine ⟨?_, fetch_workers hroom hout hi.worker, hi.tried⟩
    rw [hfetch]
    exact (Tickets.Step.take _ t _).inv hi.office

omit [DecidableEq ι] in
/-- the number of a round in its block -/
theorem round_mod (t : ι) (r : BitVec 32) :
    (r + 1).toNat % (p.rounds t).toNat = (r.toNat % (p.rounds t).toNat + 1) % (p.rounds t).toNat ∧
      (r &&& (p.rounds t - 1) = 0 ↔ r.toNat % (p.rounds t).toNat = 0) := by
  have hpow := p.rounds_eq t
  have hlt := (p.rounds t).isLt
  have hpos := p.rounds_pos t
  have hdvd : (p.rounds t).toNat ∣ 2 ^ 32 := by
    rw [hpow] at hlt ⊢
    exact Nat.pow_dvd_pow 2 (Nat.le_of_lt ((Nat.pow_lt_pow_iff_right (by omega)).mp hlt))
  have hlast : (p.rounds t - 1).toNat = 2 ^ p.logRounds t - 1 := by
    rw [BitVec.toNat_sub_of_le (by rw [BitVec.le_def]; exact hpos), hpow]
    rfl
  refine ⟨?_, ?_⟩
  · rw [BitVec.toNat_add, Nat.mod_mod_of_dvd _ hdvd, Nat.mod_add_mod]
    rfl
  · rw [← BitVec.toNat_inj, BitVec.toNat_and, hlast, Nat.and_two_pow_sub_one_eq_mod, ← hpow]
    exact Iff.rfl

omit [DecidableEq ι] in
/-- the rounds of a block stay in it -/
theorem InBlock.round_le {counter : Word} (h : InBlock p t w counter) :
    w.nonce.value p + (p.roundSize t).toNat ≤ counter.toNat + p.reserve t := by
  have hturn := Nat.mod_lt w.rounds.toNat (p.rounds_pos t)
  have hmul := Nat.mul_le_mul_right (p.roundSize t).toNat hturn
  have hvalue := h.value
  rw [Nat.succ_mul] at hmul
  unfold Setup.reserve
  omega

omit [DecidableEq ι] in
/-- a round that is not the last of its block -/
theorem InBlock.round {counter : Word} (h : InBlock p t w counter)
    (hmore : w.rounds.toNat % (p.rounds t).toNat + 1 < (p.rounds t).toNat) :
    InBlock p t { w with
      rounds := w.rounds + 1
      nonce := { w.nonce with word0 := w.nonce.word0 + p.roundSize t } } counter ∧
    ({ w.nonce with word0 := w.nonce.word0 + p.roundSize t } : NonceWords).value p
      = w.nonce.value p + (p.roundSize t).toNat := by
  obtain ⟨hnext, -⟩ := round_mod (p := p) t w.rounds
  have hpos := p.roundSize_pos t
  have hmul := Nat.mul_le_mul_right (p.roundSize t).toNat hmore
  have hvalue := h.value
  have htop := h.le_top
  have hlow := h.low
  rw [Nat.succ_mul, Nat.succ_mul] at hmul
  unfold Setup.reserve at htop hlow
  have hsum : w.nonce.value p + (p.roundSize t).toNat < p.top := by omega
  have hword : w.nonce.value p % 2 ^ 32 + (p.roundSize t).toNat < 2 ^ 32 := by omega
  have hround := value_addRound p w.nonce hsum hword
  refine ⟨⟨(fixed_addRound p w.nonce hsum hword).trans h.fixed, h.le_top, h.low, ?_⟩, hround⟩
  rw [hround]
  show _ = counter.toNat + (w.rounds + 1).toNat % (p.rounds t).toNat * (p.roundSize t).toNat
  rw [hnext, Nat.mod_eq_of_lt hmore, Nat.succ_mul]
  omega

/-- a round without a block -/
theorem nextRound_none_inv (hroom : s.counter.toNat + 2 ^ 32 ≤ 2 ^ 64) (hi : SystemInv p s) {t : ι}
    (h : (s.workers t).phase = .hashing none) : SystemInv p (s.nextRound p t none) := by
  have hout := (hi.worker t).outOf h
  have hbut : OfficeBut p t { s with tried := ⟨t, (s.workers t).nonce, none⟩ :: s.tried }
      (office p s) := ⟨rfl, fun _ _ => rfl, rfl⟩
  unfold System.nextRound
  dsimp only
  split
  · refine ⟨(hbut.callNext hroom _).inv hi.office, callNext_workers hroom (.inr hout) hi.worker,
      fun e he => hi.tried e ?_⟩
    unfold System.reserved at he
    rwa [callNext_tried] at he
  · refine ⟨?_, workers_update (Nat.le_refl _) ?_ hi.worker, hi.tried⟩
    · rw [hbut.setWorker]
      show Tickets.Inv { office p s with
        held := Function.update (office p s).held t (span p t { s.workers t with
          rounds := (s.workers t).rounds + 1
          nonce := { (s.workers t).nonce with
            word0 := (s.workers t).nonce.word0 + p.roundSize t } }) }
      unfold span
      dsimp only
      rw [h]
      exact (Tickets.Step.drop _ t).inv hi.office
    · refine ⟨fun c hc => ?_, fun c hc => ?_, fun _ => hout⟩
      · exact absurd (h.symm.trans hc) nofun
      · exact absurd (h.symm.trans hc) nofun

/-- a round in a block -/
theorem nextRound_some_inv (hroom : s.counter.toNat + 2 ^ 32 ≤ 2 ^ 64) (hi : SystemInv p s) {t : ι}
    {counter : Word} (h : (s.workers t).phase = .hashing (some counter)) :
    SystemInv p (s.nextRound p t (some counter)) := by
  have hblock := (hi.worker t).inBlock counter h
  have hle := hblock.round_le
  obtain ⟨hnext, hlast⟩ := round_mod (p := p) t (s.workers t).rounds
  have hend := (round_mod (p := p) t ((s.workers t).rounds + 1)).2
  have htried : ∀ e ∈ (⟨t, (s.workers t).nonce, some counter⟩ : Tried ι) :: s.reserved,
      e.nonce.fixed p = p.blob.fixed p ∧
        e.nonce.value p + (p.roundSize e.worker).toNat ≤ p.top := by
    intro e he
    obtain rfl | he := List.mem_cons.mp he
    · exact ⟨hblock.fixed, hle.trans hblock.le_top⟩
    · exact hi.tried e he
  have hheld : (office p s).held t
      = Set.Ico ((s.workers t).nonce.value p) (counter.toNat + p.reserve t) := by
    show span p t (s.workers t) = _
    unfold span
    rw [h]
  -- the nonces of the round are spent, and those behind it are left
  have hspend : Tickets.Step (office p s) ((office p s).spend t
      (Tried.span p ⟨t, (s.workers t).nonce, some counter⟩)
      (Set.Ico ((s.workers t).nonce.value p + (p.roundSize t).toNat)
        (counter.toNat + p.reserve t))) := by
    refine .spend _ t _ _ ?_ ?_ ?_
    · rw [hheld]
      intro x hx
      exact ⟨hx.1, Nat.lt_of_lt_of_le hx.2 hle⟩
    · rw [hheld]
      intro x hx
      exact ⟨(Nat.le_add_right _ _).trans hx.1, hx.2⟩
    · rw [Set.disjoint_left]
      intro x hx hrest
      exact absurd hx.2 (Nat.not_lt.mpr hrest.1)
  have hbut : OfficeBut p t
      { s with tried := ⟨t, (s.workers t).nonce, some counter⟩ :: s.tried }
      ((office p s).spend t (Tried.span p ⟨t, (s.workers t).nonce, some counter⟩)
        (Set.Ico ((s.workers t).nonce.value p + (p.roundSize t).toNat)
          (counter.toNat + p.reserve t))) :=
    ⟨rfl, fun u hu => Function.update_of_ne hu _ _, rfl⟩
  have hoffice := hspend.inv hi.office
  unfold System.nextRound
  dsimp only
  split
  · rename_i hzero
    have hfirst := hend.mp hzero
    refine ⟨(hbut.callNext hroom _).inv hoffice,
      callNext_workers hroom (.inl ⟨hblock.fixed, hfirst⟩) hi.worker, fun e he => htried e ?_⟩
    unfold System.reserved at he
    rwa [callNext_tried] at he
  · rename_i hmore
    have hturn := Nat.mod_lt (s.workers t).rounds.toNat (p.rounds_pos t)
    have hne : ((s.workers t).rounds.toNat % (p.rounds t).toNat + 1) % (p.rounds t).toNat ≠ 0 :=
      fun hzero => hmore (hend.mpr (hnext.trans hzero))
    have hlt : (s.workers t).rounds.toNat % (p.rounds t).toNat + 1 < (p.rounds t).toNat := by
      by_contra hge
      exact hne (by
        rw [show (s.workers t).rounds.toNat % (p.rounds t).toNat + 1 = (p.rounds t).toNat by omega,
          Nat.mod_self])
    obtain ⟨hround, hvalue⟩ := hblock.round hlt
    refine ⟨?_, workers_update (Nat.le_refl _) ?_ hi.worker, htried⟩
    · rw [hbut.setWorker]
      unfold span
      dsimp only
      rw [h]
      dsimp only
      rw [hvalue]
      unfold Office.spend
      dsimp only
      rw [Function.update_idem]
      exact hoffice
    · refine ⟨fun c hc => absurd (h.symm.trans hc) nofun, fun c hc => ?_,
        fun hc => absurd (h.symm.trans hc) nofun⟩
      obtain rfl : counter = c := Option.some.inj (Phase.hashing.inj (h.symm.trans hc))
      exact hround

/-- **A step keeps the blocks apart.** -/
theorem Step.inv {s' : System ι} (h : Step p s s') (hroom : s.counter.toNat + 2 ^ 32 ≤ 2 ^ 64)
    (hi : SystemInv p s) : SystemInv p s' := by
  cases h with
  | save t h => exact save_inv hroom hi t
  | next t counter h => exact continueNext_inv hroom hi h
  | round t block h =>
    cases block with
    | none => exact nextRound_none_inv hroom hi h
    | some counter => exact nextRound_some_inv hroom hi h
  | pause b => exact ⟨hi.office, hi.worker, hi.tried⟩

theorem Step.counter_le {s' : System ι} (h : Step p s s')
    (hroom : s.counter.toNat + 2 ^ 32 ≤ 2 ^ 64) : s'.counter.toNat ≤ s.counter.toNat + 2 ^ 32 := by
  cases h with
  | save t h => exact callNext_counter_le hroom
  | next t counter h =>
    unfold System.continueNext
    dsimp only
    split
    · exact Nat.le_add_right _ _
    · exact Nat.le_add_right _ _
    · refine (Nat.le_of_eq (fetch_counter (w := s.workers t) hroom)).trans ?_
      exact Nat.add_le_add_left (Nat.le_of_lt (p.reserve_lt t)) _
  | round t block h =>
    unfold System.nextRound
    dsimp only
    split
    · exact callNext_counter_le hroom
    · exact Nat.le_add_right _ _
  | pause b => exact Nat.le_add_right _ _

/-! ## a run -/

/-- while the counter has room for the steps of a run -/
theorem Run.inv {n : Nat} {s' : System ι} (h : Run p n s s')
    (hroom : s.counter.toNat + n * 2 ^ 32 ≤ 2 ^ 64) (hi : SystemInv p s) :
    SystemInv p s' ∧ s'.counter.toNat ≤ s.counter.toNat + n * 2 ^ 32 := by
  induction h with
  | start => exact ⟨hi, Nat.le_add_right _ _⟩
  | step _ hstep ih =>
    rw [Nat.succ_mul, ← Nat.add_assoc] at hroom ⊢
    obtain ⟨hinv, hcounter⟩ := ih ((Nat.le_add_right _ _).trans hroom) hi
    have hroom' := (Nat.add_le_add_right hcounter _).trans hroom
    exact ⟨hstep.inv hroom' hinv, (hstep.counter_le hroom').trans (Nat.add_le_add_right hcounter _)⟩

omit [DecidableEq ι] in
/-- nobody has a block yet -/
theorem systemInv_start (hfresh : ∀ t, (s.workers t).phase = .fresh) (htried : s.tried = []) :
    SystemInv p s where
  office := by
    have hheld : ∀ t, span p t (s.workers t) = ∅ := by
      intro t
      unfold span
      rw [hfresh]
    unfold office System.reserved
    rw [htried, funext hheld]
    exact Tickets.inv_start _
  worker := fun t =>
    ⟨fun _ hc => absurd ((hfresh t).symm.trans hc) nofun,
      fun _ hc => absurd ((hfresh t).symm.trans hc) nofun,
      fun hc => absurd ((hfresh t).symm.trans hc) nofun⟩
  tried := fun e he => by
    unfold System.reserved at he
    rw [htried] at he
    exact absurd he List.not_mem_nil

/-- **No nonce is tried twice under a reservation**, in any order of the steps of the workers, and
none changes a bit outside the mask. -/
theorem tried_inv {n : Nat} {s' : System ι} (hfresh : ∀ t, (s.workers t).phase = .fresh)
    (htried : s.tried = []) (hroom : s.counter.toNat + n * 2 ^ 32 ≤ 2 ^ 64) (h : Run p n s s') :
    (s'.reserved.map (Tried.span p)).Pairwise Disjoint ∧
      ∀ e ∈ s'.reserved, e.nonce.fixed p = p.blob.fixed p ∧
        e.nonce.value p + (p.roundSize e.worker).toNat ≤ p.top := by
  obtain ⟨hinv, -⟩ := h.inv hroom (systemInv_start hfresh htried)
  exact ⟨hinv.office.spent_disjoint, hinv.tried⟩

end

/-- two workers with blocks of two nonces, the highest byte of which the pool has set -/
def twoWorkers : Setup Bool where
  mask := 0xFFFFFF
  blob := ⟨0x2A000000, 0⟩
  rounds := fun _ => 2
  roundSize := fun _ => 1
  bits := 24
  logRounds := fun _ => 1
  mask_eq := rfl
  rounds_eq := fun _ => rfl
  roundSize_pos := fun _ => Nat.one_pos
  reserve_lt := fun _ => by show 2 * 1 < 2 ^ 32; omega

def twoStart : System Bool where
  counter := 0
  paused := false
  workers := fun _ => ⟨0, twoWorkers.blob, .fresh⟩
  tried := []

theorem tried_inv_two : ∃ s : System Bool, Run twoWorkers 6 twoStart s ∧
    s.reserved.map (fun e => (e.worker, e.nonce.word0)) = [(false, 0x2A000002), (true, 0x2A000000)] ∧
    (s.reserved.map (Tried.span twoWorkers)).Pairwise Disjoint := by
  have h : Run twoWorkers 6 twoStart _ :=
    .step (.step (.step (.step (.step (.step (.start _) (.save _ true rfl)) (.save _ false rfl))
      (.next _ false 2 rfl)) (.next _ true 0 rfl)) (.round _ true (some 0) rfl))
      (.round _ false (some 2) rfl)
  exact ⟨_, h, rfl, (tried_inv (fun _ => rfl) rfl (by show 0 + 6 * 2 ^ 32 ≤ 2 ^ 64; omega) h).1⟩
end Miner
end Randx
