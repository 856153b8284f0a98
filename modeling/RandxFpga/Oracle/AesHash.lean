import RandxFpga.Oracle.Splice
import RandxFpga.Run.Stride

/-!
# The generators and the hash of the scratchpad (`aes_hash.cpp`)

The AES rounds are those of the template parameter `softAes` (`AesRound`).  Four vectors in a row
are `Lanes`; the vectors of the configuration and of the sources are written as they are there,
with the highest word first.

* `hashAndFillAes1Rx4_eq`   the loop that hashes the scratchpad and fills it again at the same time
                            gives the hash of the old bytes and fills like the loop alone, for every
                            unrolling and any size that is a multiple of its width;
* `fillAes1Rx4_eq`, `fillAes4Rx4_eq`  a fill writes its bytes, all of them and no others.
-/

namespace Randx

/-- the four words, the lowest address first -/
structure VecI128 where
  x : BitVec 32
  y : BitVec 32
  z : BitVec 32
  w : BitVec 32
  deriving DecidableEq, Inhabited

/-- the instances of `aesenc` and `aesdec` -/
structure AesRound where
  aesenc : VecI128 → VecI128 → VecI128
  aesdec : VecI128 → VecI128 → VecI128

abbrev Lanes := Fin 4 → VecI128

/-- `rx_set_int_vec_i128` -/
def setIntVec (i3 i2 i1 i0 : BitVec 32) : VecI128 := ⟨i0, i1, i2, i3⟩

def store32 (m : Bytes) (a : Nat) (w : BitVec 32) : Bytes :=
  fun j => if a ≤ j ∧ j < a + 4 then w.extractLsb' (8 * (j - a)) 8 else m j

/-- `rx_load_vec_i128` -/
def loadVec (m : Bytes) (a : Nat) : VecI128 :=
  ⟨load32 m a, load32 m (a + 4), load32 m (a + 8), load32 m (a + 12)⟩

/-- `rx_store_vec_i128` -/
def storeVec (m : Bytes) (a : Nat) (v : VecI128) : Bytes :=
  store32 (store32 (store32 (store32 m a v.x) (a + 4) v.y) (a + 8) v.z) (a + 12) v.w

def loadLanes (m : Bytes) (a : Nat) : Lanes := fun i => loadVec m (a + 16 * i)

def storeLanes (m : Bytes) (a : Nat) (s : Lanes) : Bytes :=
  storeVec (storeVec (storeVec (storeVec m a (s 0)) (a + 16) (s 1)) (a + 32) (s 2)) (a + 48) (s 3)

/-! ## the constants -/

/-- `AES_HASH_1R_STATE0` to `AES_HASH_1R_STATE3` -/
def aesHash1RState : Lanes
  | 0 => setIntVec 0xd7983aad 0xcc82db47 0x9fa856de 0x92b52c0d
  | 1 => setIntVec 0xace78057 0xf59e125a 0x15c7b798 0x338d996e
  | 2 => setIntVec 0xe8a07ce4 0x5079506b 0xae62c7d0 0x6a770017
  | 3 => setIntVec 0x7e994948 0x79a10005 0x07ad828d 0x630a240c

def aesHash1RXkey0 : VecI128 := setIntVec 0x06890201 0x90dc56bf 0x8b24949f 0xf6fa8389

def aesHash1RXkey1 : VecI128 := setIntVec 0xed18f99b 0xee1043c6 0x51f4e03c 0x61b263d1

/-- `AES_GEN_1R_KEY0` to `AES_GEN_1R_KEY3` -/
def aesGen1RKey : Lanes
  | 0 => setIntVec 0xb4f44917 0xdbb5552b 0x62716609 0x6daca553
  | 1 => setIntVec 0x0da1dc4e 0x1725d378 0x846a710d 0x6d7caf07
  | 2 => setIntVec 0x3e20e345 0xf4c0794f 0x9f947ec6 0x3f1262f1
  | 3 => setIntVec 0x49169154 0x16314c88 0xb1ba317c 0x6aef8135

/-! ## the loops -/

section
variable (R : AesRound)

/-- `aesenc` on the even lanes, `aesdec` on the odd ones -/
def encDec (s k : Lanes) : Lanes
  | 0 => R.aesenc (s 0) (k 0)
  | 1 => R.aesdec (s 1) (k 1)
  | 2 => R.aesenc (s 2) (k 2)
  | 3 => R.aesdec (s 3) (k 3)

def decEnc (s k : Lanes) : Lanes
  | 0 => R.aesdec (s 0) (k 0)
  | 1 => R.aesenc (s 1) (k 1)
  | 2 => R.aesdec (s 2) (k 2)
  | 3 => R.aesenc (s 3) (k 3)

/-- 64 bytes at the pointer into the hash state -/
def hashBlock (input : Bytes) (inptr : Nat) (s : Lanes) : Lanes := encDec R s (loadLanes input inptr)

/-- the two extra rounds -/
def hashOutput (s : Lanes) : Lanes :=
  encDec R (encDec R s fun _ => aesHash1RXkey0) fun _ => aesHash1RXkey1

def hashAes1Rx4 (input : Bytes) (inputSize : Nat) : Lanes :=
  hashOutput R (Stride.upTo (hashBlock R input) 64 inputSize (0, aesHash1RState)).2

/-- 64 bytes at the pointer out of the generator -/
def fillBlock (outptr : Nat) (s : Lanes × Bytes) : Lanes × Bytes :=
  let state := decEnc R s.1 aesGen1RKey
  (state, storeLanes s.2 outptr state)

/-- the state written back and the buffer -/
def fillAes1Rx4 (state : Lanes) (outputSize : Nat) (buffer : Bytes) : Lanes × Bytes :=
  (Stride.upTo (fillBlock R) 64 outputSize (0, (state, buffer))).2

/-- `key0`, `key0`, `key4`, `key4`, and so on for the other rounds -/
def gen4RKey (key : Fin 8 → VecI128) (j : Fin 4) : Lanes
  | 0 | 1 => key (Fin.ofNat 8 j)
  | 2 | 3 => key (Fin.ofNat 8 (4 + j))

def fill4Block (key : Fin 8 → VecI128) (outptr : Nat) (s : Lanes × Bytes) : Lanes × Bytes :=
  let state := (List.finRange 4).foldl (fun s j => decEnc R s (gen4RKey key j)) s.1
  (state, storeLanes s.2 outptr state)

/-- the state is not written back -/
def fillAes4Rx4 (key : Fin 8 → VecI128) (state : Lanes) (outputSize : Nat) (buffer : Bytes) :
    Bytes :=
  (Stride.upTo (fill4Block R key) 64 outputSize (0, (state, buffer))).2.2

/-! ### both at the same time -/

structure HashAndFill where
  hashState : Lanes
  fillState : Lanes
  scratchpad : Bytes

/-- `HASH_STATE(k)` -/
def hashStep (k scratchpadPtr : Nat) (s : HashAndFill) : HashAndFill :=
  { s with hashState := hashBlock R s.scratchpad (scratchpadPtr + 64 * k) s.hashState }

/-- `FILL_STATE(k)` -/
def fillStep (k scratchpadPtr : Nat) (s : HashAndFill) : HashAndFill :=
  let (state, scratchpad) := fillBlock R (scratchpadPtr + 64 * k) (s.fillState, s.scratchpad)
  { s with fillState := state, scratchpad := scratchpad }

def bothStep (k scratchpadPtr : Nat) (s : HashAndFill) : HashAndFill :=
  fillStep R k scratchpadPtr (hashStep R k scratchpadPtr s)

/-- the body of the loop for the template parameters -/
def hashAndFillBody (softAes unroll scratchpadPtr : Nat) (s : HashAndFill) : HashAndFill :=
  match softAes with
  | 0 =>
    fillStep R 1 scratchpadPtr (fillStep R 0 scratchpadPtr
      (hashStep R 1 scratchpadPtr (hashStep R 0 scratchpadPtr s)))
  | _ =>
    match unroll with
    | 4 =>
      bothStep R 3 scratchpadPtr (bothStep R 2 scratchpadPtr
        (bothStep R 1 scratchpadPtr (bothStep R 0 scratchpadPtr s)))
    | 2 => bothStep R 1 scratchpadPtr (bothStep R 0 scratchpadPtr s)
    | _ => bothStep R 0 scratchpadPtr s

/-- what the body adds to `scratchpadPtr` -/
def hashAndFillWidth (softAes unroll : Nat) : Nat :=
  match softAes with
  | 0 => 64 * 2
  | _ =>
    match unroll with
    | 4 => 64 * 4
    | 2 => 64 * 2
    | _ => 64 * 1

def prefetchDistance : Nat := 7168

/-- the first loop ends `prefetchDistance` before the end, the second one there -/
def hashAndFillAes1Rx4 (softAes unroll : Nat) (scratchpad : Bytes) (scratchpadSize : Nat)
    (fillState : Lanes) : HashAndFill :=
  let loop := Stride.upTo (hashAndFillBody R softAes unroll) (hashAndFillWidth softAes unroll)
  let s := (loop scratchpadSize (loop (scratchpadSize - prefetchDistance)
    (0, ⟨aesHash1RState, fillState, scratchpad⟩))).2
  { s with hashState := hashOutput R s.hashState }

end

/-! ## memory -/

theorem load32_congr {m m' : Bytes} {a : Nat} (h : ∀ j, a ≤ j → j < a + 4 → m j = m' j) :
    load32 m a = load32 m' a := by
  unfold load32
  rw [h a (by omega) (by omega), h (a + 1) (by omega) (by omega), h (a + 2) (by omega) (by omega),
    h (a + 3) (by omega) (by omega)]

theorem loadLanes_congr {m m' : Bytes} {a : Nat} (h : ∀ j, a ≤ j → j < a + 64 → m j = m' j) :
    loadLanes m a = loadLanes m' a := by
  funext i
  have hi := i.isLt
  have hload : ∀ k, k ≤ 12 → load32 m (a + 16 * i + k) = load32 m' (a + 16 * i + k) :=
    fun k hk => load32_congr fun j h1 h2 => h j (by omega) (by omega)
  unfold loadLanes loadVec
  rw [hload 4 (by omega), hload 8 (by omega), hload 12 (by omega),
    show load32 m (a + 16 * i) = load32 m' (a + 16 * i) from hload 0 (by omega)]

/-- a byte behind a store is stored or was the same before -/
theorem store32_congr {m m' : Bytes} {a j : Nat} {w : BitVec 32}
    (h : ¬ (a ≤ j ∧ j < a + 4) → m j = m' j) : store32 m a w j = store32 m' a w j := by
  unfold store32
  by_cases hj : a ≤ j ∧ j < a + 4
  · rw [if_pos hj, if_pos hj]
  · rw [if_neg hj, if_neg hj, h hj]

theorem storeVec_congr {m m' : Bytes} {a j : Nat} {v : VecI128}
    (h : ¬ (a ≤ j ∧ j < a + 16) → m j = m' j) : storeVec m a v j = storeVec m' a v j := by
  refine store32_congr fun h3 => store32_congr fun h2 => store32_congr fun h1 =>
    store32_congr fun h0 => h (by omega)

theorem storeLanes_congr {m m' : Bytes} {a j : Nat} {s : Lanes}
    (h : ¬ (a ≤ j ∧ j < a + 64) → m j = m' j) : storeLanes m a s j = storeLanes m' a s j := by
  refine storeVec_congr fun h3 => storeVec_congr fun h2 => storeVec_congr fun h1 =>
    storeVec_congr fun h0 => h (by omega)

theorem store32_out {m : Bytes} {a j : Nat} {w : BitVec 32} (h : ¬ (a ≤ j ∧ j < a + 4)) :
    store32 m a w j = m j := if_neg h

theorem storeVec_out {m : Bytes} {a j : Nat} {v : VecI128} (h : ¬ (a ≤ j ∧ j < a + 16)) :
    storeVec m a v j = m j := by
  unfold storeVec
  rw [store32_out (by omega), store32_out (by omega), store32_out (by omega),
    store32_out (by omega)]

theorem storeLanes_out {m : Bytes} {a j : Nat} {s : Lanes} (h : ¬ (a ≤ j ∧ j < a + 64)) :
    storeLanes m a s j = m j := by
  unfold storeLanes
  rw [storeVec_out (by omega), storeVec_out (by omega), storeVec_out (by omega),
    storeVec_out (by omega)]

theorem loadLanes_storeLanes_of_le {m : Bytes} {a b : Nat} (s : Lanes) (h : a + 64 ≤ b) :
    loadLanes (storeLanes m a s) b = loadLanes m b :=
  loadLanes_congr fun _ h1 _ => storeLanes_out (by omega)

/-! ## the generators -/

section
variable (g : Lanes → Lanes)

/-- one turn of either generator -/
def genBlock (outptr : Nat) (s : Lanes × Bytes) : Lanes × Bytes :=
  (g s.1, storeLanes s.2 outptr (g s.1))

/-- the buffer has no part in what is written -/
theorem gen_turns_eq (n p : Nat) (s : Lanes) (m m' : Bytes) :
    (Stride.turns (genBlock g) 64 n (p, (s, m))).2.1
        = (Stride.turns (genBlock g) 64 n (p, (s, m'))).2.1 ∧
      ∀ j, (Stride.turns (genBlock g) 64 n (p, (s, m))).2.2 j
        = if p ≤ j ∧ j < p + 64 * n then (Stride.turns (genBlock g) 64 n (p, (s, m'))).2.2 j
          else m j := by
  induction n generalizing p s m m' with
  | zero => exact ⟨rfl, fun j => (if_neg (by omega)).symm⟩
  | succ n ih =>
    obtain ⟨hstate, hbytes⟩ := ih (p + 64) (g s) (storeLanes m p (g s)) (storeLanes m' p (g s))
    obtain ⟨-, hself⟩ := ih (p + 64) (g s) (storeLanes m' p (g s)) (storeLanes m' p (g s))
    refine ⟨hstate, fun j => (hbytes j).trans ?_⟩
    by_cases hrest : p + 64 ≤ j ∧ j < p + 64 + 64 * n
    · rw [if_pos hrest, if_pos (by omega)]
      rfl
    · rw [if_neg hrest]
      by_cases hblock : p ≤ j ∧ j < p + 64
      · rw [if_pos (by omega), storeLanes_congr fun h => absurd hblock h]
        exact ((hself j).trans (if_neg hrest)).symm
      · rw [if_neg (by omega), storeLanes_out hblock]

theorem gen_upTo_eq {size : Nat} (h : 64 ∣ size) (s : Lanes) (m m' : Bytes) :
    (Stride.upTo (genBlock g) 64 size (0, (s, m))).2.1
        = (Stride.upTo (genBlock g) 64 size (0, (s, m'))).2.1 ∧
      (Stride.upTo (genBlock g) 64 size (0, (s, m))).2.2
        = splice size m (Stride.upTo (genBlock g) 64 size (0, (s, m'))).2.2 := by
  obtain ⟨n, rfl⟩ := h
  rw [Stride.upTo_eq_turns (n := n) (by omega) rfl, Stride.upTo_eq_turns (n := n) (by omega) rfl]
  obtain ⟨hstate, hbytes⟩ := gen_turns_eq g n 0 s m m'
  refine ⟨hstate, funext fun j => (hbytes j).trans ?_⟩
  by_cases hj : j < 64 * n
  · rw [splice_of_lt hj, if_pos ⟨Nat.zero_le j, by omega⟩]
  · rw [splice_of_ge (by omega), if_neg (by omega)]

end

/-- **A fill writes the first `outputSize` bytes**, the same ones over any buffer. -/
theorem fillAes1Rx4_eq (R : AesRound) {outputSize : Nat} (h : 64 ∣ outputSize) (state : Lanes)
    (m m' : Bytes) :
    (fillAes1Rx4 R state outputSize m).1 = (fillAes1Rx4 R state outputSize m').1 ∧
      (fillAes1Rx4 R state outputSize m).2
        = splice outputSize m (fillAes1Rx4 R state outputSize m').2 :=
  gen_upTo_eq (fun s => decEnc R s aesGen1RKey) h state m m'

theorem fillAes4Rx4_eq (R : AesRound) (key : Fin 8 → VecI128) {outputSize : Nat}
    (h : 64 ∣ outputSize) (state : Lanes) (m m' : Bytes) :
    fillAes4Rx4 R key state outputSize m
      = splice outputSize m (fillAes4Rx4 R key state outputSize m') :=
  (gen_upTo_eq (fun s => (List.finRange 4).foldl (fun s j => decEnc R s (gen4RKey key j)) s) h
    state m m').2

/-! ## the loop for both -/

section
variable (R : AesRound)

/-- the turns read the bytes that they go over -/
theorem hash_turns_congr {m m' : Bytes} (n : Nat) (x : Nat × Lanes)
    (h : ∀ j, x.1 ≤ j → j < x.1 + 64 * n → m j = m' j) :
    Stride.turns (hashBlock R m) 64 n x = Stride.turns (hashBlock R m') 64 n x := by
  induction n generalizing x with
  | zero => rfl
  | succ n ih =>
    have hblock : hashBlock R m x.1 x.2 = hashBlock R m' x.1 x.2 := by
      unfold hashBlock
      rw [loadLanes_congr fun j hj hlt => h j hj (by omega)]
    rw [Stride.turns, Stride.turns, hblock]
    refine ih _ fun j hj hlt => h j ?_ ?_
    · dsimp only at hj
      omega
    · dsimp only at hlt
      omega

/-- **A hash reads the first `inputSize` bytes and no others.** -/
theorem hashAes1Rx4_congr {m m' : Bytes} {inputSize : Nat} (hdvd : 64 ∣ inputSize)
    (h : ∀ j < inputSize, m j = m' j) : hashAes1Rx4 R m inputSize = hashAes1Rx4 R m' inputSize := by
  obtain ⟨n, rfl⟩ := hdvd
  have hturns := hash_turns_congr R n (0, aesHash1RState) fun j _ hj => h j (by omega)
  unfold hashAes1Rx4
  rw [Stride.upTo_eq_turns (n := n) (by omega) rfl, Stride.upTo_eq_turns (n := n) (by omega) rfl,
    hturns]

/-- each turn hashes bytes that no turn before has written -/
theorem both_turns (n p : Nat) (h s : Lanes) (m : Bytes) :
    (Stride.turns (bothStep R 0) 64 n (p, ⟨h, s, m⟩)).2
      = ⟨(Stride.turns (hashBlock R m) 64 n (p, h)).2,
        (Stride.turns (fillBlock R) 64 n (p, (s, m))).2.1,
        (Stride.turns (fillBlock R) 64 n (p, (s, m))).2.2⟩ := by
  induction n generalizing p h s m with
  | zero => rfl
  | succ n ih =>
    have hout : ∀ j, p + 64 ≤ j → storeLanes m p (decEnc R s aesGen1RKey) j = m j :=
      fun j hj => storeLanes_out (by omega)
    have hrest := hash_turns_congr R n (p + 64, hashBlock R m p h) fun j hj _ => hout j hj
    rw [Stride.turns, Stride.turns, Stride.turns, ← hrest]
    exact ih (p + 64) _ _ _

theorem hashStep_fillStep (p : Nat) (s : HashAndFill) :
    hashStep R 1 p (fillStep R 0 p s) = fillStep R 0 p (hashStep R 1 p s) := by
  unfold hashStep fillStep fillBlock hashBlock
  dsimp only
  rw [loadLanes_storeLanes_of_le _ (by omega)]

theorem body_eq_unroll (softAes unroll : Nat) :
    ∃ k, 0 < k ∧ hashAndFillWidth softAes unroll = 64 * k ∧
      hashAndFillBody R softAes unroll = Stride.unroll (bothStep R 0) 64 k := by
  unfold hashAndFillBody hashAndFillWidth
  cases softAes with
  | zero =>
    refine ⟨2, by omega, rfl, ?_⟩
    funext p s
    show fillStep R 1 p (fillStep R 0 p (hashStep R 1 p (hashStep R 0 p s))) = _
    rw [← hashStep_fillStep]
    rfl
  | succ n =>
    match unroll with
    | 4 => exact ⟨4, by omega, rfl, rfl⟩
    | 2 => exact ⟨2, by omega, rfl, rfl⟩
    | 0 | 1 | 3 | _ + 5 => exact ⟨1, by omega, rfl, rfl⟩

/-- **Hashing and filling at the same time is hashing and then filling**, for every unrolling. -/
theorem hashAndFillAes1Rx4_eq (softAes unroll : Nat) (scratchpad : Bytes) (scratchpadSize : Nat)
    (fillState : Lanes) (h : hashAndFillWidth softAes unroll ∣ scratchpadSize) :
    hashAndFillAes1Rx4 R softAes unroll scratchpad scratchpadSize fillState
      = ⟨hashAes1Rx4 R scratchpad scratchpadSize,
        (fillAes1Rx4 R fillState scratchpadSize scratchpad).1,
        (fillAes1Rx4 R fillState scratchpadSize scratchpad).2⟩ := by
  obtain ⟨k, hk, hwidth, hbody⟩ := body_eq_unroll R softAes unroll
  rw [hwidth] at h
  unfold hashAndFillAes1Rx4 hashAes1Rx4 fillAes1Rx4
  rw [hwidth, hbody]
  dsimp only
  have hdvd : 64 ∣ scratchpadSize := dvd_trans (Nat.dvd_mul_right 64 k) h
  obtain ⟨n, rfl⟩ := hdvd
  rw [Stride.upTo_upTo (by omega) (Nat.sub_le _ _), Stride.upTo_unroll (by omega) hk h,
    Stride.upTo_eq_turns (n := n) (by omega) rfl, Stride.upTo_eq_turns (n := n) (by omega) rfl,
    Stride.upTo_eq_turns (n := n) (by omega) rfl, both_turns]

end
end Randx
