import RandxFpga.Oracle.Blake2b

/-!
# The streaming functions of BLAKE2b (`blake2b.c`)

`init`, `update` and `final` are `rx_blake2b_init`, `rx_blake2b_update` and `rx_blake2b_final` over
one of the compression functions; `none` is the return value `-1`.  `hash` is the hash of a whole
message: its blocks one after the other, each with the number of bytes up to its end, the last one
filled up with zeros and marked.

* `counter_add`        the two words of the counter are one number, with the carry;
* `update_absorbed`    `update` appends to the message that a state stands for (`Absorbed`);
* `stream_eq_hash`     so the chunks in which a message comes do not matter.
-/

namespace Randx
namespace Blake2b

abbrev Compress := Chain → (Fin 16 → Word) → Fin 8 → Word

/-- `BLAKE2B_BLOCKBYTES`, `BLAKE2B_OUTBYTES` -/
def blockBytes : Nat := 128

def outBytes : Nat := 64

/-- `blake2b_state` -/
structure State extends Chain where
  buf : Bytes
  buflen : Nat
  outlen : Nat
  lastNode : Bool

/-- the bytes of a list, with zeros behind -/
def listBytes (l : List Byte) : Bytes := fun j => l.getD j 0

/-- `memcpy` to an address -/
def copyTo (m : Bytes) (a : Nat) (l : List Byte) : Bytes :=
  fun j => if a ≤ j ∧ j < a + l.length then listBytes l (j - a) else m j

/-- the parameter block of a sequential, unkeyed hash: `digest_length`, `key_length`, `fanout`,
`depth`, and zeros -/
def param (digestLength : Byte) : Bytes
  | 0 => digestLength
  | 2 | 3 => 1
  | _ => 0

/-- the chain value behind `rx_blake2b_init_param` -/
def initH (outlen : Nat) : Fin 8 → Word :=
  fun i => iv i ^^^ load64 (param (BitVec.ofNat 8 outlen)) (8 * i)

def init (outlen : Nat) : Option State :=
  if outlen = 0 ∨ outBytes < outlen then none
  else some
    { h := initH outlen, t := fun _ => 0, f := fun _ => 0, buf := fun _ => 0, buflen := 0,
      outlen := outlen, lastNode := false }

/-- `blake2b_increment_counter` -/
def State.incrementCounter (S : State) (inc : Word) : State :=
  let t0 := S.t 0 + inc
  { S with t := ![t0, S.t 1 + if t0 < inc then 1 else 0] }

/-- `blake2b_set_lastblock` -/
def State.setLastblock (S : State) : State :=
  { S with f := ![-1, if S.lastNode then -1 else S.f 1] }

section
variable (F : Compress)

def State.compress (S : State) (block : Bytes) : State :=
  { S with h := F S.toChain fun i => load64 block (8 * i) }

/-- the loop over the blocks of the input; it keeps the last one -/
def State.blocks (S : State) (pin : List Byte) : State × List Byte :=
  if blockBytes < pin.length then
    State.blocks ((S.incrementCounter 128).compress F (listBytes pin)) (pin.drop blockBytes)
  else (S, pin)
termination_by pin.length
decreasing_by
  rw [List.length_drop]
  unfold blockBytes at *
  omega

/-- completes the block in the buffer and compresses it, then the blocks of the input -/
def State.flush (S : State) (pin : List Byte) : State × List Byte :=
  let fill := blockBytes - S.buflen
  let S := { S with buf := copyTo S.buf S.buflen (pin.take fill) }
  let S := (S.incrementCounter 128).compress F S.buf
  let S := { S with buflen := 0 }
  S.blocks F (pin.drop fill)

/-- the rest of the input goes behind what is in the buffer -/
def State.append (S : State) (pin : List Byte) : State :=
  { S with buf := copyTo S.buf S.buflen pin, buflen := S.buflen + pin.length }

def update (S : State) (pin : List Byte) : Option State :=
  if pin.length = 0 then some S
  else if S.f 0 ≠ 0 then none
  else
    let p := if blockBytes < S.buflen + pin.length then S.flush F pin else (S, pin)
    some (p.1.append p.2)

/-- the first bytes of the chain value -/
def digest (h : Fin 8 → Word) (outlen : Nat) : List Byte :=
  (List.range outlen).map fun j => byteOf (h (Fin.ofNat 8 (j / 8))) (j % 8)

def final (S : State) (outlen : Nat) : Option (List Byte) :=
  if outlen < S.outlen then none
  else if S.f 0 ≠ 0 then none
  else
    let S := (S.incrementCounter (BitVec.ofNat 64 S.buflen)).setLastblock
    let S := { S with buf := fun j => if S.buflen ≤ j ∧ j < blockBytes then 0 else S.buf j }
    some (digest (S.compress F S.buf).h S.outlen)

/-- `rx_blake2b` -/
def blake2b (outlen : Nat) (pin : List Byte) : Option (List Byte) := do
  let S ← init outlen
  let S ← update F S pin
  final F S outlen

/-! ## the hash of a message -/

/-- the two words of a number of bytes -/
def counter (n : Nat) : Fin 2 → Word := ![BitVec.ofNat 64 n, BitVec.ofNat 64 (n / 2 ^ 64)]

def blockWords (msg : List Byte) (n : Nat) : Fin 16 → Word :=
  fun i => load64 (listBytes msg) (blockBytes * n + 8 * i)

/-- the chain value behind the first `n` blocks -/
def chain (h : Fin 8 → Word) (msg : List Byte) : Nat → Fin 8 → Word
  | 0 => h
  | n + 1 => F ⟨chain h msg n, counter (blockBytes * (n + 1)), fun _ => 0⟩ (blockWords msg n)

/-- the number of blocks in front of the last one -/
def fullBlocks (length : Nat) : Nat := (length - 1) / blockBytes

def hash (outlen : Nat) (msg : List Byte) : List Byte :=
  let n := fullBlocks msg.length
  digest (F ⟨chain F (initH outlen) msg n, counter msg.length, ![-1, 0]⟩ (blockWords msg n)) outlen

end

/-! ## the counter -/

theorem counter_add (n : Nat) {inc : Nat} (h : inc < 2 ^ 64) :
    ![BitVec.ofNat 64 n + BitVec.ofNat 64 inc, BitVec.ofNat 64 (n / 2 ^ 64)
        + if BitVec.ofNat 64 n + BitVec.ofNat 64 inc < BitVec.ofNat 64 inc then 1 else 0]
      = counter (n + inc) := by
  have hsum : BitVec.ofNat 64 n + BitVec.ofNat 64 inc = BitVec.ofNat 64 (n + inc) :=
    (BitVec.ofNat_add n inc).symm
  have hcarry : BitVec.ofNat 64 n + BitVec.ofNat 64 inc < BitVec.ofNat 64 inc
      ↔ 2 ^ 64 ≤ n % 2 ^ 64 + inc := by
    rw [hsum, BitVec.lt_def, BitVec.toNat_ofNat, BitVec.toNat_ofNat]
    omega
  unfold counter
  rw [hsum] at hcarry ⊢
  by_cases hc : 2 ^ 64 ≤ n % 2 ^ 64 + inc
  · rw [if_pos (hcarry.mpr hc), show (n + inc) / 2 ^ 64 = n / 2 ^ 64 + 1 by omega,
      BitVec.ofNat_add (n / 2 ^ 64) 1]
    rfl
  · rw [if_neg fun hlt => hc (hcarry.mp hlt), show (n + inc) / 2 ^ 64 = n / 2 ^ 64 by omega]
    exact congrArg (fun x => ![_, x]) (BitVec.add_zero _)

theorem incrementCounter_t {S : State} {n inc : Nat} (h : S.t = counter n) (hinc : inc < 2 ^ 64) :
    (S.incrementCounter (BitVec.ofNat 64 inc)).t = counter (n + inc) := by
  rw [← counter_add n hinc]
  unfold State.incrementCounter
  rw [h]
  rfl

/-! ## words of a message -/

theorem listBytes_drop (l : List Byte) (k j : Nat) :
    listBytes (l.drop k) j = listBytes l (k + j) := by
  unfold listBytes
  rw [List.getD_eq_getElem?_getD, List.getD_eq_getElem?_getD, List.getElem?_drop]

theorem listBytes_append_of_lt {l : List Byte} (l' : List Byte) {j : Nat} (h : j < l.length) :
    listBytes (l ++ l') j = listBytes l j := by
  unfold listBytes
  rw [List.getD_eq_getElem?_getD, List.getD_eq_getElem?_getD, List.getElem?_append_left h]

theorem listBytes_append_of_ge {l : List Byte} (l' : List Byte) {j : Nat} (h : l.length ≤ j) :
    listBytes (l ++ l') j = listBytes l' (j - l.length) := by
  unfold listBytes
  rw [List.getD_eq_getElem?_getD, List.getD_eq_getElem?_getD, List.getElem?_append_right h]

theorem listBytes_take {l : List Byte} {k j : Nat} (h : j < k) :
    listBytes (l.take k) j = listBytes l j := by
  unfold listBytes
  rw [List.getD_eq_getElem?_getD, List.getD_eq_getElem?_getD, List.getElem?_take_of_lt h]

theorem blockWords_append {msg : List Byte} (l : List Byte) {n : Nat}
    (h : blockBytes * (n + 1) ≤ msg.length) : blockWords (msg ++ l) n = blockWords msg n := by
  unfold blockBytes at h
  funext i
  have hi := i.isLt
  exact load64_congr fun j hj => listBytes_append_of_lt l (by unfold blockBytes; omega)

section
variable (F : Compress)

theorem chain_append (h : Fin 8 → Word) {msg : List Byte} (l : List Byte) {n : Nat}
    (hn : blockBytes * n ≤ msg.length) : chain F h (msg ++ l) n = chain F h msg n := by
  induction n with
  | zero => rfl
  | succ n ih =>
    have hle : blockBytes * n ≤ msg.length := by rw [Nat.mul_succ] at hn; omega
    rw [chain, chain, ih hle, blockWords_append l hn]

/-! ## what a state stands for -/

/-- the full blocks of the message are in the chain value, the rest is in the buffer -/
structure Absorbed (outlen : Nat) (msg : List Byte) (S : State) : Prop where
  h : S.h = chain F (initH outlen) msg (fullBlocks msg.length)
  t : S.t = counter (blockBytes * fullBlocks msg.length)
  f : S.f = fun _ => 0
  lastNode : S.lastNode = false
  outlen : S.outlen = outlen
  buflen : S.buflen = msg.length - blockBytes * fullBlocks msg.length
  buf : ∀ j < S.buflen, S.buf j = listBytes msg (blockBytes * fullBlocks msg.length + j)

theorem fullBlocks_le (n : Nat) :
    blockBytes * fullBlocks n ≤ n ∧ n ≤ blockBytes * fullBlocks n + blockBytes := by
  unfold fullBlocks blockBytes
  omega

theorem init_absorbed {outlen : Nat} (h : 1 ≤ outlen) (hle : outlen ≤ outBytes) :
    ∃ S, init outlen = some S ∧ Absorbed F outlen [] S := by
  refine ⟨_, if_neg (by omega), rfl, ?_, rfl, rfl, rfl, rfl, fun j hj => absurd hj (by simp)⟩
  funext i
  match i with
  | 0 | 1 => rfl

/-- in front of block `k` of the message, with nothing in the buffer -/
structure AtBlock (outlen : Nat) (msg : List Byte) (k : Nat) (S : State) : Prop where
  h : S.h = chain F (initH outlen) msg k
  t : S.t = counter (blockBytes * k)
  f : S.f = fun _ => 0
  lastNode : S.lastNode = false
  outlen : S.outlen = outlen
  buflen : S.buflen = 0

variable {F} {outlen : Nat} {msg : List Byte}

/-- one block more -/
theorem AtBlock.compress {k : Nat} {S : State} (h : AtBlock F outlen msg k S) {block : Bytes}
    (hblock : ∀ j < blockBytes, block j = listBytes msg (blockBytes * k + j)) :
    AtBlock F outlen msg (k + 1) ((S.incrementCounter 128).compress F block) where
  h := by
    have ht : (S.incrementCounter 128).t = counter (blockBytes * (k + 1)) :=
      incrementCounter_t h.t (show 128 < 2 ^ 64 by omega)
    have hchain : (S.incrementCounter 128).toChain
        = ⟨chain F (initH outlen) msg k, counter (blockBytes * (k + 1)), fun _ => 0⟩ :=
      (Chain.mk.injEq ..).mpr ⟨h.h, ht, h.f⟩
    have hwords : (fun i : Fin 16 => load64 block (8 * i)) = blockWords msg k := by
      funext i
      have hi := i.isLt
      refine load64_congr fun j hj => ?_
      rw [hblock _ (by unfold blockBytes; omega), Nat.add_assoc]
    show F (S.incrementCounter 128).toChain _ = _
    rw [hchain, hwords]
    rfl
  t := incrementCounter_t h.t (show 128 < 2 ^ 64 by omega)
  f := h.f
  lastNode := h.lastNode
  outlen := h.outlen
  buflen := h.buflen

/-- the loop stops in front of the last block -/
theorem AtBlock.blocks {k : Nat} {S : State} (h : AtBlock F outlen msg k S)
    (hk : blockBytes * k < msg.length) :
    AtBlock F outlen msg (fullBlocks msg.length) (S.blocks F (msg.drop (blockBytes * k))).1 ∧
      (S.blocks F (msg.drop (blockBytes * k))).2
        = msg.drop (blockBytes * fullBlocks msg.length) := by
  induction hn : msg.length - blockBytes * k using Nat.strong_induction_on generalizing k S with
  | _ n ih =>
    rw [State.blocks, List.length_drop]
    by_cases hlt : blockBytes < msg.length - blockBytes * k
    · have hnext := h.compress fun j _ => listBytes_drop msg (blockBytes * k) j
      have hk' : blockBytes * (k + 1) < msg.length := by rw [Nat.mul_succ]; omega
      rw [if_pos hlt, List.drop_drop, show blockBytes * k + blockBytes = blockBytes * (k + 1) from
        (Nat.mul_succ _ _).symm]
      exact ih (msg.length - blockBytes * (k + 1))
        (by rw [Nat.mul_succ]; unfold blockBytes at *; omega) hnext hk' rfl
    · have hlast : fullBlocks msg.length = k := by
        unfold fullBlocks blockBytes at *
        omega
      rw [if_neg hlt, hlast]
      exact ⟨h, rfl⟩

/-- the rest of the message goes to the buffer -/
theorem AtBlock.absorbed {S : State} (h : AtBlock F outlen msg (fullBlocks msg.length) S) :
    Absorbed F outlen msg (S.append (msg.drop (blockBytes * fullBlocks msg.length))) where
  h := h.h
  t := h.t
  f := h.f
  lastNode := h.lastNode
  outlen := h.outlen
  buflen := by
    show S.buflen + _ = _
    rw [h.buflen, List.length_drop, Nat.zero_add]
  buf := fun j hj => by
    have hj' : j < S.buflen + (msg.drop (blockBytes * fullBlocks msg.length)).length := hj
    have hbuflen := h.buflen
    show copyTo S.buf S.buflen _ j = _
    rw [h.buflen, copyTo, if_pos ⟨Nat.zero_le j, by omega⟩, Nat.sub_zero, listBytes_drop]

/-- **`update` appends to the message.** -/
theorem update_absorbed {S : State} (h : Absorbed F outlen msg S) (pin : List Byte) :
    ∃ S', update F S pin = some S' ∧ Absorbed F outlen (msg ++ pin) S' := by
  have hle := fullBlocks_le msg.length
  have hbuflen := h.buflen
  unfold update
  by_cases hempty : pin.length = 0
  · refine ⟨S, if_pos hempty, ?_⟩
    rw [List.eq_nil_of_length_eq_zero hempty, List.append_nil]
    exact h
  rw [if_neg hempty, if_neg (by rw [h.f]; simp)]
  dsimp only
  by_cases hfit : blockBytes < S.buflen + pin.length
  · -- the block in the buffer is the next one of the longer message
    rw [if_pos hfit]
    refine ⟨_, rfl, ?_⟩
    have hat : AtBlock F outlen (msg ++ pin) (fullBlocks msg.length)
        { S with
          buf := copyTo S.buf S.buflen (pin.take (blockBytes - S.buflen))
          buflen := 0 } :=
      ⟨by rw [chain_append F _ _ hle.1]; exact h.h, h.t, h.f, h.lastNode, h.outlen, rfl⟩
    have hblock : ∀ j < blockBytes, copyTo S.buf S.buflen (pin.take (blockBytes - S.buflen)) j
        = listBytes (msg ++ pin) (blockBytes * fullBlocks msg.length + j) := by
      intro j hj
      by_cases hold : j < S.buflen
      · rw [copyTo, if_neg (by omega), h.buf j hold, listBytes_append_of_lt _ (by omega)]
      · rw [copyTo, if_pos ⟨by omega, by rw [List.length_take]; omega⟩, listBytes_take (by omega),
          listBytes_append_of_ge _ (by omega)]
        congr 1
        omega
    have hlt : blockBytes * (fullBlocks msg.length + 1) < (msg ++ pin).length := by
      rw [List.length_append, Nat.mul_succ]
      omega
    have hdrop : pin.drop (blockBytes - S.buflen)
        = (msg ++ pin).drop (blockBytes * (fullBlocks msg.length + 1)) := by
      have hnil : msg.drop (blockBytes * (fullBlocks msg.length + 1)) = [] :=
        List.drop_eq_nil_of_le (by rw [Nat.mul_succ]; omega)
      rw [List.drop_append, hnil, List.nil_append, Nat.mul_succ]
      congr 1
      omega
    have hflush := (hat.compress hblock).blocks hlt
    rw [← hdrop] at hflush
    obtain ⟨hlast, hrest⟩ := hflush
    have habsorbed := hlast.absorbed
    rw [← hrest] at habsorbed
    exact habsorbed
  · -- the longer message has no full block more
    rw [if_neg hfit]
    refine ⟨_, rfl, ?_⟩
    have hsame : fullBlocks (msg ++ pin).length = fullBlocks msg.length := by
      rw [List.length_append]
      unfold fullBlocks blockBytes at *
      omega
    refine ⟨?_, ?_, h.f, h.lastNode, h.outlen, ?_, fun j hj => ?_⟩
    · rw [hsame, chain_append F _ _ hle.1]
      exact h.h
    · rw [hsame]
      exact h.t
    · rw [hsame, List.length_append]
      show S.buflen + pin.length = _
      omega
    · rw [hsame]
      show copyTo S.buf S.buflen pin j = _
      by_cases hold : j < S.buflen
      · rw [copyTo, if_neg (by omega), h.buf j hold, listBytes_append_of_lt _ (by omega)]
      · rw [copyTo, if_pos ⟨by omega, hj⟩, listBytes_append_of_ge _ (by omega)]
        congr 1
        omega

theorem final_absorbed {S : State} (h : Absorbed F outlen msg S) :
    final F S outlen = some (hash F outlen msg) := by
  have hle := fullBlocks_le msg.length
  have hbuflen := h.buflen
  unfold final hash
  rw [if_neg (by rw [h.outlen]; omega), if_neg (by rw [h.f]; simp)]
  have ht : (S.incrementCounter (BitVec.ofNat 64 S.buflen)).t = counter msg.length := by
    rw [incrementCounter_t h.t (by unfold blockBytes at *; omega), hbuflen]
    congr 1
    omega
  have hchain : (S.incrementCounter (BitVec.ofNat 64 S.buflen)).setLastblock.toChain
      = ⟨chain F (initH outlen) msg (fullBlocks msg.length), counter msg.length, ![-1, 0]⟩ := by
    refine (Chain.mk.injEq ..).mpr ⟨h.h, ht, ?_⟩
    show ![-1, if S.lastNode then -1 else S.f 1] = _
    rw [h.lastNode, h.f]
    rfl
  have hwords : (fun i : Fin 16 => load64
        (fun j => if S.buflen ≤ j ∧ j < blockBytes then 0 else S.buf j) (8 * i))
      = blockWords msg (fullBlocks msg.length) := by
    funext i
    have hi := i.isLt
    refine load64_congr fun j hj => ?_
    have hin : 8 * i.val + j < blockBytes := by unfold blockBytes; omega
    by_cases hold : 8 * i.val + j < S.buflen
    · rw [if_neg (by omega), h.buf _ hold, Nat.add_assoc]
    · rw [if_pos ⟨by omega, hin⟩]
      unfold listBytes
      rw [List.getD_eq_getElem?_getD, List.getElem?_eq_none (by omega)]
      rfl
  show some (digest (F (S.incrementCounter (BitVec.ofNat 64 S.buflen)).setLastblock.toChain _)
    S.outlen) = _
  rw [hchain, h.outlen]
  exact congrArg (fun w => some (digest (F _ w) outlen)) hwords

variable (F)

theorem foldlM_absorbed (chunks : List (List Byte)) {S : State} (h : Absorbed F outlen msg S) :
    ∃ S', chunks.foldlM (update F) S = some S' ∧ Absorbed F outlen (msg ++ chunks.flatten) S' := by
  induction chunks generalizing msg S with
  | nil => exact ⟨S, rfl, by rw [List.flatten_nil, List.append_nil]; exact h⟩
  | cons pin chunks ih =>
    obtain ⟨T, hT, hTabs⟩ := update_absorbed h pin
    obtain ⟨U, hU, hUabs⟩ := ih hTabs
    refine ⟨U, by rw [List.foldlM_cons, hT]; exact hU, ?_⟩
    rw [List.flatten_cons, ← List.append_assoc]
    exact hUabs

theorem blake2b_eq (h : 1 ≤ outlen) (hle : outlen ≤ outBytes) (pin : List Byte) :
    blake2b F outlen pin = some (hash F outlen pin) := by
  obtain ⟨S, hS, hSabs⟩ := init_absorbed F h hle
  obtain ⟨T, hT, hTabs⟩ := update_absorbed hSabs pin
  unfold blake2b
  rw [hS, Option.bind_eq_bind, Option.bind_some, hT, Option.bind_some]
  exact final_absorbed hTabs

/-- **The digest of a message does not depend on the chunks it comes in.** -/
theorem stream_eq_hash (h : 1 ≤ outlen) (hle : outlen ≤ outBytes) (chunks : List (List Byte)) :
    ((init outlen).bind fun S => (chunks.foldlM (update F) S).bind fun S => final F S outlen)
      = some (hash F outlen chunks.flatten) := by
  obtain ⟨S, hS, hSabs⟩ := init_absorbed F h hle
  obtain ⟨T, hT, hTabs⟩ := foldlM_absorbed F chunks hSabs
  rw [hS, Option.bind_some, hT, Option.bind_some]
  exact final_absorbed hTabs

/-- the second chunk fills the buffer of 128 bytes and goes on behind it -/
theorem stream_eq_hash_two :
    ((init 32).bind fun S =>
        ([List.replicate 100 1, List.replicate 60 2].foldlM (update compressInteger) S).bind
          fun S => final compressInteger S 32)
      = some (hash compressInteger 32 [List.replicate 100 1, List.replicate 60 2].flatten) :=
  stream_eq_hash compressInteger (by omega) (by unfold outBytes; omega)
    [List.replicate 100 1, List.replicate 60 2]

/-- **The vector code gives the same digest**, for each length and whatever comes in. -/
theorem stream_sse41 (outlen : Nat) (chunks : List (List Byte)) :
    ((init outlen).bind fun S => (chunks.foldlM (update compressSse41) S).bind fun S =>
        final compressSse41 S outlen)
      = (init outlen).bind fun S => (chunks.foldlM (update compressInteger) S).bind fun S =>
        final compressInteger S outlen := by
  have hcompress : compressSse41 = compressInteger :=
    funext fun s => funext fun m => compressSse41_eq s m
  rw [hcompress]

end
end Blake2b
end Randx
