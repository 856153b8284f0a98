import RandxFpga.Oracle.Argon2Block
import RandxFpga.Oracle.Dataset

/-!
# The memory of the cache (`core.c`, `argon2-template-64.h`, `argon2-template-128.h`, `argon2.c`)

Argon2d fills its memory segment by segment; `fillSegment64` reads the block before the current one
again in each turn, `fillSegment128` has it in its registers.  The numbers of blocks are below
`2 ^ 32`.

* `fillSegment128_eq`        the registers hold the block before the current one (`Holds`), so the
                             two functions leave the same memory;
* `made_refOffset`           in the first pass a block refers to one that has been made;
* `fillMemoryBlocks_congr`   then the memory comes from the first two blocks of each lane alone;
* `initCache_selected`       so the items of the dataset depend neither on the function selected nor
                             on what was in the memory.
-/

namespace Randx
namespace Argon2
open scoped Blake2b

/-! ## the memory and its lanes -/

abbrev Memory := Nat → Block

/-- `ARGON2_SYNC_POINTS` -/
def syncPoints : Nat := 4

/-- `argon2_instance_t`: the blocks of `lanes` lanes have 32-bit numbers -/
structure Instance where
  version : BitVec 32
  passes : Nat
  segmentLength : Nat
  lanes : Nat
  one_le_passes : 1 ≤ passes
  two_le : 2 ≤ segmentLength
  fits : segmentLength * (lanes * syncPoints) < 2 ^ 32

/-- `ARGON2_VERSION_10` -/
def version10 : BitVec 32 := 0x10

/-- `argon2_position_t` but `index` -/
structure Position where
  pass : Nat
  lane : Nat
  slice : Nat

/-- `argon2_compute_memory_blocks` -/
def computeMemoryBlocks (mCost lanes : Nat) : Nat × Nat :=
  let memoryBlocks := if mCost < 2 * syncPoints * lanes then 2 * syncPoints * lanes else mCost
  let segmentLength := memoryBlocks / (lanes * syncPoints)
  (segmentLength * (lanes * syncPoints), segmentLength)

/-- the instance of `argon2_ctx_mem` for a context that `validate_inputs` accepts -/
def Instance.ofContext (version : BitVec 32) (tCost mCost lanes : Nat) (ht : 1 ≤ tCost)
    (hm : mCost < 2 ^ 32) (hl : 1 ≤ lanes) (hl' : lanes ≤ 0xFFFFFF) : Instance where
  version := version
  passes := tCost
  segmentLength := (computeMemoryBlocks mCost lanes).2
  lanes := lanes
  one_le_passes := ht
  two_le := by
    unfold computeMemoryBlocks syncPoints
    rw [Nat.le_div_iff_mul_le (by omega)]
    split <;> omega
  fits := by
    unfold computeMemoryBlocks syncPoints
    refine Nat.lt_of_le_of_lt (Nat.div_mul_le_self _ _) ?_
    split <;> omega

namespace Instance
variable (inst : Instance)

def laneLength : Nat := inst.segmentLength * syncPoints

def memoryBlocks : Nat := inst.segmentLength * (inst.lanes * syncPoints)

def referenceAreaSize (pos : Position) (index : Nat) (sameLane : Bool) : Nat :=
  if pos.pass = 0 then
    if pos.slice = 0 then index - 1
    else if sameLane then pos.slice * inst.segmentLength + index - 1
    else pos.slice * inst.segmentLength - if index = 0 then 1 else 0
  else if sameLane then inst.laneLength - inst.segmentLength + index - 1
  else inst.laneLength - inst.segmentLength - if index = 0 then 1 else 0

/-- `index_alpha` -/
def indexAlpha (pos : Position) (index pseudoRand : Nat) (sameLane : Bool) : Nat :=
  let referenceAreaSize := inst.referenceAreaSize pos index sameLane
  let relativePosition := (pseudoRand * pseudoRand) >>> 32
  let relativePosition :=
    (referenceAreaSize - 1 + 2 ^ 64 - ((referenceAreaSize * relativePosition) >>> 32)) % 2 ^ 64
  let startPosition := if pos.pass = 0 then 0
    else if pos.slice = syncPoints - 1 then 0 else (pos.slice + 1) * inst.segmentLength
  (startPosition + relativePosition) % inst.laneLength

/-- the offset of `ref_block` -/
def refOffset (pos : Position) (i : Nat) (pseudoRand : Word) : Nat :=
  let refLane := if pos.pass = 0 ∧ pos.slice = 0 then pos.lane
    else (pseudoRand >>> 32).toNat % inst.lanes
  inst.laneLength * refLane
    + inst.indexAlpha pos i (pseudoRand &&& 0xFFFFFFFF).toNat (decide (refLane = pos.lane))

def startingIndex (pos : Position) : Nat := if pos.pass = 0 ∧ pos.slice = 0 then 2 else 0

def startOffset (pos : Position) : Nat :=
  pos.lane * inst.laneLength + pos.slice * inst.segmentLength + startingIndex pos

def startPrev (pos : Position) : Nat :=
  let currOffset := inst.startOffset pos
  if currOffset % inst.laneLength = 0 then currOffset + inst.laneLength - 1 else currOffset - 1

/-- `1.1 Rotating prev_offset if needed` -/
def rotatePrev (currOffset prevOffset : Nat) : Nat :=
  if currOffset % inst.laneLength = 1 then currOffset - 1 else prevOffset

def withXor (pos : Position) : Bool := !(decide (pos.pass = 0) || inst.version == version10)

end Instance

/-! ## a segment -/

structure Filling where
  memory : Memory
  currOffset : Nat
  prevOffset : Nat

section
variable (inst : Instance) (pos : Position)

/-- a turn of `fill_segment_64` -/
def turn64 (i : Nat) (x : Filling) : Filling :=
  let prevOffset := inst.rotatePrev x.currOffset x.prevOffset
  let prevBlock := x.memory prevOffset
  let refBlock := x.memory (inst.refOffset pos i (prevBlock 0))
  let currBlock := fillBlock prevBlock refBlock (x.memory x.currOffset) (inst.withXor pos)
  ⟨Function.update x.memory x.currOffset currBlock, x.currOffset + 1, prevOffset + 1⟩

def segmentStart (memory : Memory) : Filling := ⟨memory, inst.startOffset pos, inst.startPrev pos⟩

/-- `fill_segment_64` for data-dependent addressing -/
def fillSegment64 (memory : Memory) : Memory :=
  (Stride.upTo (turn64 inst pos) 1 inst.segmentLength
    (Instance.startingIndex pos, segmentStart inst pos memory)).2.memory

variable {n L : Nat} [NeZero n] [NeZero L] (S : Simd n L)

/-- a turn of `fill_segment_128` -/
def turn128 (i : Nat) (x : Registers n L × Filling) : Registers n L × Filling :=
  let prevOffset := inst.rotatePrev x.2.currOffset x.2.prevOffset
  let refBlock := x.2.memory (inst.refOffset pos i (x.2.memory prevOffset 0))
  let (state, currBlock) := S.fillBlock x.1 refBlock (x.2.memory x.2.currOffset) (inst.withXor pos)
  (state, ⟨Function.update x.2.memory x.2.currOffset currBlock, x.2.currOffset + 1, prevOffset + 1⟩)

/-- `fill_segment_128` for data-dependent addressing -/
def fillSegment128 (memory : Memory) : Memory :=
  (Stride.upTo (turn128 inst pos S) 1 inst.segmentLength
    (Instance.startingIndex pos, Registers.load n L (memory (inst.startPrev pos)),
      segmentStart inst pos memory)).2.2.memory

end

/-! ## all segments -/

section
variable (inst : Instance) (fillSegment : Position → Memory → Memory)

/-- the loop over the lanes -/
def fillSlice (r s : Nat) (memory : Memory) : Memory :=
  (Stride.upTo (fun l => fillSegment ⟨r, l, s⟩) 1 inst.lanes (0, memory)).2

def fillPass (r : Nat) (memory : Memory) : Memory :=
  (Stride.upTo (fillSlice inst fillSegment r) 1 syncPoints (0, memory)).2

/-- `fill_memory_blocks_st`, with the function that has been selected -/
def fillMemoryBlocks (memory : Memory) : Memory :=
  (Stride.upTo (fillPass inst fillSegment) 1 inst.passes (0, memory)).2

end

/-! ## the registers and the memory -/

namespace Instance
variable (inst : Instance)

theorem startingIndex_le (pos : Position) : startingIndex pos ≤ inst.segmentLength := by
  have := inst.two_le
  unfold startingIndex
  split <;> omega

theorem two_le_laneLength : 2 ≤ inst.laneLength := by
  have := inst.two_le
  unfold laneLength syncPoints
  omega

/-- where the previous block is at the start of a turn, but for the first block of a lane -/
structure Previous (currOffset prevOffset : Nat) : Prop where
  behind : currOffset % inst.laneLength ≠ 0 → inst.rotatePrev currOffset prevOffset = currOffset - 1

variable {inst}

theorem previous_start (pos : Position) :
    inst.Previous (inst.startOffset pos) (inst.startPrev pos) where
  behind h := by
    unfold rotatePrev startPrev
    dsimp only
    rw [if_neg h, ite_self]

theorem rotatePrev_start (pos : Position) :
    inst.rotatePrev (inst.startOffset pos) (inst.startPrev pos) = inst.startPrev pos := by
  unfold rotatePrev
  split
  case isTrue h =>
    unfold startPrev
    dsimp only
    rw [if_neg (by omega)]
  case isFalse => rfl

/-- the next turn finds the block of this one as the previous one -/
theorem Previous.next {currOffset prevOffset : Nat} (h : inst.Previous currOffset prevOffset) :
    inst.rotatePrev (currOffset + 1) (inst.rotatePrev currOffset prevOffset + 1) = currOffset := by
  have hlane := inst.two_le_laneLength
  rw [rotatePrev]
  split
  case isTrue => omega
  case isFalse hne =>
    have hcurr : currOffset % inst.laneLength ≠ 0 := fun h0 => hne (by
      rw [Nat.add_mod, h0, Nat.zero_add, Nat.mod_mod, Nat.mod_eq_of_lt hlane])
    have hpos : currOffset ≠ 0 := fun h0 => hcurr (by rw [h0, Nat.zero_mod])
    rw [h.behind hcurr]
    omega

theorem Previous.turn {currOffset prevOffset : Nat} (h : inst.Previous currOffset prevOffset) :
    inst.Previous (currOffset + 1) (inst.rotatePrev currOffset prevOffset + 1) where
  behind _ := by rw [h.next]; omega

end Instance

section
variable (inst : Instance) (pos : Position) {n L : Nat} [NeZero n] [NeZero L] (S : Simd n L)

/-- the state of the vector code holds the block that the portable code reads again -/
structure Holds (x : Filling) (y : Registers n L × Filling) : Prop where
  same : y.2 = x
  previous : inst.Previous x.currOffset x.prevOffset
  state : y.1.block = x.memory (inst.rotatePrev x.currOffset x.prevOffset)

variable {inst}

theorem Holds.turn {x : Filling} {y : Registers n L × Filling} (h : Holds inst x y) (i : Nat) :
    Holds inst (turn64 inst pos i x) (turn128 inst pos S i y) := by
  obtain ⟨state, y⟩ := y
  obtain ⟨rfl, hprevious, hstate⟩ := h
  obtain ⟨hregs, hblock⟩ := S.fillBlock_eq state
    (y.memory (inst.refOffset pos i (y.memory (inst.rotatePrev y.currOffset y.prevOffset) 0)))
    (y.memory y.currOffset) (inst.withXor pos)
  rw [hstate] at hregs hblock
  refine ⟨?_, hprevious.turn, ?_⟩
  · unfold turn64 turn128
    dsimp only
    rw [hblock]
  · unfold turn64 turn128
    dsimp only
    rw [hprevious.next, Function.update_self]
    exact hregs

theorem fillSegment128_eq (memory : Memory) :
    fillSegment128 inst pos S memory = fillSegment64 inst pos memory := by
  have hstart : Holds inst (segmentStart inst pos memory)
      (Registers.load n L (memory (inst.startPrev pos)), segmentStart inst pos memory) := by
    refine ⟨rfl, Instance.previous_start pos, ?_⟩
    show _ = memory (inst.rotatePrev (inst.startOffset pos) (inst.startPrev pos))
    rw [Instance.rotatePrev_start, block_load S]
  have h := Stride.upTo_rel (fun _ => Holds inst) (inst.startingIndex_le pos)
    (fun i _ _ _ _ h => h.turn pos S i) hstart
  exact congrArg Filling.memory h.same

/-- **Each instruction set fills the memory like the portable code.** -/
theorem fillMemoryBlocks_eq (memory : Memory) :
    fillMemoryBlocks inst (fun pos => fillSegment128 inst pos S) memory
      = fillMemoryBlocks inst (fillSegment64 inst) memory := by
  have h : (fun pos => fillSegment128 inst pos S) = fillSegment64 inst :=
    funext fun pos => funext (fillSegment128_eq pos S)
  rw [h]

end

/-! ## places in the memory -/

namespace Instance
variable (inst : Instance)

/-- block `c` of lane `l` -/
def cell (l c : Nat) : Nat := inst.laneLength * l + c

variable {inst}

theorem cell_div {l c : Nat} (hc : c < inst.laneLength) : inst.cell l c / inst.laneLength = l := by
  unfold cell
  rw [Nat.mul_add_div (by omega), Nat.div_eq_of_lt hc, Nat.add_zero]

theorem cell_mod {l c : Nat} (hc : c < inst.laneLength) : inst.cell l c % inst.laneLength = c := by
  unfold cell
  rw [Nat.mul_add_mod, Nat.mod_eq_of_lt hc]

theorem cell_succ (l c i : Nat) : inst.cell l (c + (i + 1)) = inst.cell l (c + i) + 1 := rfl

theorem memoryBlocks_eq : inst.memoryBlocks = inst.laneLength * inst.lanes := by
  unfold memoryBlocks laneLength
  rw [Nat.mul_assoc, Nat.mul_comm syncPoints]

theorem cell_lt {l c : Nat} (hl : l < inst.lanes) (hc : c < inst.laneLength) :
    inst.cell l c < inst.memoryBlocks := by
  rw [memoryBlocks_eq]
  calc inst.laneLength * l + c < inst.laneLength * l + inst.laneLength := by omega
    _ = inst.laneLength * (l + 1) := (Nat.mul_succ ..).symm
    _ ≤ inst.laneLength * inst.lanes := Nat.mul_le_mul_left _ hl

theorem div_lt_lanes {w : Nat} (hw : w < inst.memoryBlocks) : w / inst.laneLength < inst.lanes := by
  rw [Nat.div_lt_iff_lt_mul (Nat.lt_of_lt_of_le (by omega) inst.two_le_laneLength), Nat.mul_comm,
    ← memoryBlocks_eq]
  exact hw

/-- a position of `fill_memory_blocks_st` -/
structure Valid (inst : Instance) (pos : Position) : Prop where
  lane : pos.lane < inst.lanes
  slice : pos.slice < syncPoints

theorem Valid.column_lt {pos : Position} (h : inst.Valid pos) {i : Nat}
    (hi : i < inst.segmentLength) : pos.slice * inst.segmentLength + i < inst.laneLength := by
  have hslice : pos.slice + 1 ≤ syncPoints := h.slice
  calc pos.slice * inst.segmentLength + i
      < pos.slice * inst.segmentLength + inst.segmentLength := by omega
    _ = (pos.slice + 1) * inst.segmentLength := (Nat.succ_mul ..).symm
    _ ≤ inst.segmentLength * syncPoints := by
      rw [Nat.mul_comm]
      exact Nat.mul_le_mul_left _ hslice

theorem Valid.refLane_lt {pos : Position} (h : inst.Valid pos) (p : Word) :
    (if pos.pass = 0 ∧ pos.slice = 0 then pos.lane else (p >>> 32).toNat % inst.lanes)
      < inst.lanes := by
  split
  · exact h.lane
  · exact Nat.mod_lt _ (Nat.lt_of_le_of_lt (Nat.zero_le _) h.lane)

theorem startOffset_eq (pos : Position) : inst.startOffset pos
    = inst.cell pos.lane (pos.slice * inst.segmentLength + startingIndex pos) := by
  unfold startOffset cell
  rw [Nat.mul_comm pos.lane, Nat.add_assoc]

/-! ## the reference block -/

/-- the part of the area that `index_alpha` takes off is smaller than the area -/
theorem product_lt {referenceAreaSize x : Nat} (h : 0 < referenceAreaSize) (hx : x < 2 ^ 32) :
    (referenceAreaSize * x) >>> 32 < referenceAreaSize := by
  rw [Nat.shiftRight_eq_div_pow, Nat.div_lt_iff_lt_mul (by omega)]
  exact Nat.mul_lt_mul_of_pos_left hx h

theorem indexAlpha_lt (pos : Position) (index pseudoRand : Nat) (sameLane : Bool) :
    inst.indexAlpha pos index pseudoRand sameLane < inst.laneLength :=
  Nat.mod_lt _ (Nat.lt_of_lt_of_le (by omega) inst.two_le_laneLength)

theorem indexAlpha_first {pos : Position} (h : pos.pass = 0) {index pseudoRand : Nat}
    {sameLane : Bool} (hrand : pseudoRand < 2 ^ 32)
    (hpos : 0 < inst.referenceAreaSize pos index sameLane) :
    inst.indexAlpha pos index pseudoRand sameLane < inst.referenceAreaSize pos index sameLane := by
  unfold indexAlpha
  dsimp only
  rw [if_pos h, Nat.zero_add]
  set area := inst.referenceAreaSize pos index sameLane
  have hsquare : (pseudoRand * pseudoRand) >>> 32 < 2 ^ 32 := by
    rw [Nat.shiftRight_eq_div_pow, Nat.div_lt_iff_lt_mul (by omega)]
    exact Nat.mul_lt_mul'' hrand hrand
  have hproduct := product_lt hpos hsquare
  set product := (area * ((pseudoRand * pseudoRand) >>> 32)) >>> 32
  -- the subtraction does not wrap
  rw [show area - 1 + 2 ^ 64 - product = area - 1 - product + 2 ^ 64 by omega, Nat.add_mod_right]
  calc (area - 1 - product) % 2 ^ 64 % inst.laneLength
      ≤ (area - 1 - product) % 2 ^ 64 := Nat.mod_le _ _
    _ ≤ area - 1 - product := Nat.mod_le _ _
    _ < area := by omega

variable (inst) in
theorem referenceAreaSize_first {pos : Position} (h : pos.pass = 0) {i : Nat}
    (hi : startingIndex pos ≤ i) {sameLane : Bool} (hlane : pos.slice = 0 → sameLane = true) :
    0 < inst.referenceAreaSize pos i sameLane ∧ inst.referenceAreaSize pos i sameLane
      ≤ pos.slice * inst.segmentLength + if sameLane then i - 1 else 0 := by
  have htwo := inst.two_le
  unfold referenceAreaSize
  rw [if_pos h]
  by_cases hs : pos.slice = 0
  · rw [startingIndex, if_pos ⟨h, hs⟩] at hi
    rw [if_pos hs, hlane hs, if_pos rfl]
    omega
  · have hseg : inst.segmentLength ≤ pos.slice * inst.segmentLength :=
      Nat.le_mul_of_pos_left _ (Nat.pos_of_ne_zero hs)
    rw [if_neg hs]
    cases sameLane
    · simp only [Bool.false_eq_true, if_false]
      split <;> omega
    · simp only [if_true]
      omega

end Instance

/-! ## the blocks that have been made -/

/-- the blocks of the first pass in front of block `i` of a segment, with the first two of a lane -/
def Made (inst : Instance) (slice lane i w : Nat) : Prop :=
  w < inst.memoryBlocks ∧ (w % inst.laneLength < 2 ∨
    w % inst.laneLength < slice * inst.segmentLength ∨
    w / inst.laneLength < lane ∧ w % inst.laneLength < (slice + 1) * inst.segmentLength ∨
    w / inst.laneLength = lane ∧ w % inst.laneLength < slice * inst.segmentLength + i)

section
variable {inst : Instance} {pos : Position}

theorem made_cell {slice lane i l c : Nat} (hl : l < inst.lanes) (hc : c < inst.laneLength)
    (h : c < 2 ∨ c < slice * inst.segmentLength ∨ l = lane ∧ c < slice * inst.segmentLength + i) :
    Made inst slice lane i (inst.cell l c) := by
  refine ⟨Instance.cell_lt hl hc, ?_⟩
  rw [Instance.cell_div hc, Instance.cell_mod hc]
  tauto

theorem made_refOffset (h : inst.Valid pos) (hfirst : pos.pass = 0) {i : Nat}
    (hi : Instance.startingIndex pos ≤ i) (p : Word) :
    Made inst pos.slice pos.lane i (inst.refOffset pos i p) := by
  unfold Instance.refOffset
  dsimp only
  set refLane := if pos.pass = 0 ∧ pos.slice = 0 then pos.lane
    else (p >>> 32).toNat % inst.lanes with hrefLane
  have hlane : refLane < inst.lanes := h.refLane_lt p
  have hslice : pos.slice = 0 → decide (refLane = pos.lane) = true := fun hs => by
    rw [hrefLane, if_pos ⟨hfirst, hs⟩, decide_eq_true rfl]
  obtain ⟨harea, hle⟩ := inst.referenceAreaSize_first hfirst hi hslice
  have hrand : (p &&& 0xFFFFFFFF).toNat < 2 ^ 32 := by
    rw [BitVec.toNat_and]
    exact Nat.lt_of_le_of_lt Nat.and_le_right (by decide)
  have hindex := Instance.indexAlpha_first hfirst hrand harea
  refine made_cell hlane (Instance.indexAlpha_lt ..) ?_
  by_cases hsame : refLane = pos.lane
  · rw [decide_eq_true hsame, if_pos rfl] at hle
    rw [decide_eq_true hsame] at hindex ⊢
    exact .inr (.inr ⟨hsame, by omega⟩)
  · rw [decide_eq_false hsame, if_neg Bool.false_ne_true] at hle
    rw [decide_eq_false hsame] at hindex ⊢
    exact .inr (.inl (by omega))

theorem refOffset_lt (h : inst.Valid pos) (i : Nat) (p : Word) :
    inst.refOffset pos i p < inst.memoryBlocks :=
  Instance.cell_lt (h.refLane_lt p) (Instance.indexAlpha_lt ..)

/-! ## two runs -/

/-- two runs of a segment in front of block `curr`, with memories that are the same on `A` -/
structure SameFilling (inst : Instance) (A : Nat → Prop) (curr : Nat) (x x' : Filling) : Prop where
  offset : x.currOffset = curr
  offset' : x'.currOffset = curr
  prev : x'.prevOffset = x.prevOffset
  previous : inst.Previous x.currOffset x.prevOffset
  known : A (inst.rotatePrev x.currOffset x.prevOffset)
  memory : ∀ w, A w → x.memory w = x'.memory w

theorem SameFilling.turn {A B : Nat → Prop} {curr : Nat} {x x' : Filling}
    (h : SameFilling inst A curr x x') {i : Nat} (href : ∀ p, A (inst.refOffset pos i p))
    (hxor : inst.withXor pos = true → A curr) (hcurr : B curr) (hnext : ∀ w, B w → w = curr ∨ A w) :
    SameFilling inst B (curr + 1) (turn64 inst pos i x) (turn64 inst pos i x') := by
  obtain ⟨m, _, _⟩ := x
  obtain ⟨m', c, p⟩ := x'
  obtain ⟨rfl, rfl, rfl, hprevious, hknown, hmemory⟩ := h
  dsimp only at hprevious hknown hmemory href hxor hcurr hnext
  have hblock : fillBlock (m (inst.rotatePrev c p)) (m (inst.refOffset pos i
        (m (inst.rotatePrev c p) 0))) (m c) (inst.withXor pos)
      = fillBlock (m' (inst.rotatePrev c p)) (m' (inst.refOffset pos i
        (m' (inst.rotatePrev c p) 0))) (m' c) (inst.withXor pos) := by
    rw [hmemory _ hknown, hmemory _ (href _)]
    cases hx : inst.withXor pos
    · rfl
    · rw [hmemory _ (hxor hx)]
  refine ⟨rfl, rfl, rfl, hprevious.turn, ?_, ?_⟩
  · show B (inst.rotatePrev (c + 1) (inst.rotatePrev c p + 1))
    rw [hprevious.next]
    exact hcurr
  · intro w hw
    show Function.update m c _ w = Function.update m' c _ w
    by_cases hwc : w = c
    · subst hwc
      rw [Function.update_self, Function.update_self, hblock]
    · rw [Function.update_of_ne hwc, Function.update_of_ne hwc]
      exact hmemory w ((hnext w hw).resolve_left hwc)

/-- what a segment reads it has found the same in both memories, what it makes is the same -/
theorem fillSegment64_congr (A : Nat → Nat → Prop)
    (hstart : A (Instance.startingIndex pos) (inst.startPrev pos))
    (hturn : ∀ i, Instance.startingIndex pos ≤ i → i < inst.segmentLength →
      let curr := inst.cell pos.lane (pos.slice * inst.segmentLength + i)
      (∀ p, A i (inst.refOffset pos i p)) ∧ (inst.withXor pos = true → A i curr) ∧ A (i + 1) curr ∧
        ∀ w, A (i + 1) w → w = curr ∨ A i w)
    {m m' : Memory} (h : ∀ w, A (Instance.startingIndex pos) w → m w = m' w) (w : Nat)
    (hw : A inst.segmentLength w) : fillSegment64 inst pos m w = fillSegment64 inst pos m' w := by
  have hfirst : SameFilling inst (A (Instance.startingIndex pos))
      (inst.cell pos.lane (pos.slice * inst.segmentLength + Instance.startingIndex pos))
      (segmentStart inst pos m) (segmentStart inst pos m') := by
    refine ⟨Instance.startOffset_eq pos, Instance.startOffset_eq pos, rfl,
      Instance.previous_start pos, ?_, h⟩
    show A _ (inst.rotatePrev (inst.startOffset pos) (inst.startPrev pos))
    rw [Instance.rotatePrev_start]
    exact hstart
  have hrun := Stride.upTo_rel (f := turn64 inst pos) (g := turn64 inst pos)
    (fun i => SameFilling inst (A i) (inst.cell pos.lane (pos.slice * inst.segmentLength + i)))
    (inst.startingIndex_le pos) (fun i x x' hi hlt hx => by
      obtain ⟨href, hxor, hcurr, hnext⟩ := hturn i hi hlt
      rw [Instance.cell_succ]
      exact hx.turn href hxor hcurr hnext) hfirst
  exact hrun.memory w hw

end

section
variable {inst : Instance} {pos : Position}

/-! ## the first pass -/

theorem Instance.Valid.start_lt (h : inst.Valid pos) :
    pos.slice * inst.segmentLength + Instance.startingIndex pos < inst.laneLength := by
  have htwo := inst.two_le
  unfold Instance.startingIndex
  split
  case isTrue hfirst =>
    rw [hfirst.2, Nat.zero_mul, Nat.zero_add]
    unfold Instance.laneLength syncPoints
    omega
  case isFalse => exact h.column_lt (by omega)

theorem Instance.Valid.startPrev_eq (h : inst.Valid pos)
    (hcol : pos.slice * inst.segmentLength + Instance.startingIndex pos ≠ 0) :
    inst.startPrev pos
      = inst.cell pos.lane (pos.slice * inst.segmentLength + Instance.startingIndex pos - 1) := by
  unfold Instance.startPrev
  dsimp only
  rw [Instance.startOffset_eq, if_neg (by rw [Instance.cell_mod h.start_lt]; exact hcol)]
  unfold Instance.cell
  omega

theorem eq_cell_or_made {slice lane i w : Nat} (h : Made inst slice lane (i + 1) w) :
    w = inst.cell lane (slice * inst.segmentLength + i) ∨ Made inst slice lane i w := by
  obtain ⟨hw, hplace⟩ := h
  have hdiv := Nat.div_add_mod w inst.laneLength
  by_cases hcell : w / inst.laneLength = lane ∧
      w % inst.laneLength = slice * inst.segmentLength + i
  · left
    unfold Instance.cell
    rw [← hcell.1, ← hcell.2, hdiv]
  · right
    refine ⟨hw, ?_⟩
    rcases hplace with h | h | h | h
    · exact .inl h
    · exact .inr (.inl h)
    · exact .inr (.inr (.inl h))
    · exact .inr (.inr (.inr ⟨h.1, by omega⟩))

theorem fillSegment64_first (h : inst.Valid pos) (hfirst : pos.pass = 0) {m m' : Memory}
    (hm : ∀ w, Made inst pos.slice pos.lane 0 w → m w = m' w) (w : Nat)
    (hw : Made inst pos.slice (pos.lane + 1) 0 w) :
    fillSegment64 inst pos m w = fillSegment64 inst pos m' w := by
  have htwo := inst.two_le
  have hstart := h.start_lt
  have hcol : 2 ≤ pos.slice * inst.segmentLength + Instance.startingIndex pos := by
    unfold Instance.startingIndex
    by_cases hs : pos.slice = 0
    · rw [if_pos ⟨hfirst, hs⟩]
      omega
    · have hseg : inst.segmentLength ≤ pos.slice * inst.segmentLength :=
        Nat.le_mul_of_pos_left _ (Nat.pos_of_ne_zero hs)
      omega
  refine fillSegment64_congr (Made inst pos.slice pos.lane) ?_ ?_ ?_ w ?_
  · rw [h.startPrev_eq (by omega)]
    exact made_cell h.lane (by omega) (.inr (.inr ⟨rfl, by omega⟩))
  · intro i hi hlt
    have hcurr := h.column_lt hlt
    refine ⟨made_refOffset h hfirst hi, fun hxor => ?_,
      made_cell h.lane hcurr (.inr (.inr ⟨rfl, by omega⟩)), fun w => eq_cell_or_made⟩
    rw [Instance.withXor, decide_eq_true hfirst, Bool.true_or, Bool.not_true] at hxor
    exact absurd hxor Bool.false_ne_true
  · rintro w ⟨hw, hplace⟩
    refine hm w ⟨hw, ?_⟩
    unfold Instance.startingIndex at hplace
    split at hplace
    case isTrue hs =>
      rw [hs.2] at hplace ⊢
      omega
    case isFalse => exact hplace
  · obtain ⟨hw, hplace⟩ := hw
    have hsucc := Nat.add_one_mul pos.slice inst.segmentLength
    exact ⟨hw, by omega⟩

/-! ## the later passes -/

theorem fillSegment64_later (h : inst.Valid pos) {m m' : Memory}
    (hm : ∀ w < inst.memoryBlocks, m w = m' w) (w : Nat) (hw : w < inst.memoryBlocks) :
    fillSegment64 inst pos m w = fillSegment64 inst pos m' w := by
  have hlane := inst.two_le_laneLength
  refine fillSegment64_congr (fun _ w => w < inst.memoryBlocks) ?_ ?_ hm w hw
  · by_cases hcol : pos.slice * inst.segmentLength + Instance.startingIndex pos = 0
    · have hprev : inst.startPrev pos = inst.cell pos.lane (inst.laneLength - 1) := by
        unfold Instance.startPrev
        dsimp only
        rw [Instance.startOffset_eq, hcol, if_pos (Instance.cell_mod (by omega))]
        unfold Instance.cell
        omega
      rw [hprev]
      exact Instance.cell_lt h.lane (by omega)
    · rw [h.startPrev_eq hcol]
      exact Instance.cell_lt h.lane (Nat.lt_of_le_of_lt (Nat.sub_le _ _) h.start_lt)
  · intro i _ hlt
    have hcurr := Instance.cell_lt h.lane (h.column_lt hlt)
    exact ⟨refOffset_lt h i, fun _ => hcurr, hcurr, fun w hw => .inr hw⟩

/-- a segment leaves what is behind the memory as it was -/
theorem fillSegment64_frame (h : inst.Valid pos) (m : Memory) {w : Nat}
    (hw : inst.memoryBlocks ≤ w) : fillSegment64 inst pos m w = m w := by
  have hrun := Stride.upTo_inv (f := turn64 inst pos)
    (fun i x => x.currOffset = inst.cell pos.lane (pos.slice * inst.segmentLength + i) ∧
      x.memory w = m w) (inst.startingIndex_le pos) (fun i x _ hlt hx => by
        obtain ⟨hcurr, hmemory⟩ := hx
        have hin := Instance.cell_lt h.lane (h.column_lt hlt)
        refine ⟨congrArg (· + 1) hcurr, ?_⟩
        show Function.update x.memory x.currOffset _ w = m w
        rw [Function.update_of_ne (by omega), hmemory])
    (s := segmentStart inst pos m) ⟨Instance.startOffset_eq pos, rfl⟩
  exact hrun.2

/-! ## the whole memory -/

theorem fillSlice_first {s : Nat} (hs : s < syncPoints) {m m' : Memory}
    (hm : ∀ w, Made inst s 0 0 w → m w = m' w) (w : Nat) (hw : Made inst (s + 1) 0 0 w) :
    fillSlice inst (fillSegment64 inst) 0 s m w = fillSlice inst (fillSegment64 inst) 0 s m' w := by
  have hrun := Stride.upTo_rel (f := fun l => fillSegment64 inst ⟨0, l, s⟩)
    (g := fun l => fillSegment64 inst ⟨0, l, s⟩)
    (fun l (m m' : Memory) => ∀ w, Made inst s l 0 w → m w = m' w) (Nat.zero_le inst.lanes)
    (fun l m m' _ hl h => by
      have hvalid : inst.Valid ⟨0, l, s⟩ := ⟨hl, hs⟩
      exact fillSegment64_first hvalid rfl h) hm
  refine hrun w ⟨hw.1, ?_⟩
  have hlane := Instance.div_lt_lanes hw.1
  rcases hw.2 with h | h | h | h
  · exact .inl h
  · exact .inr (.inr (.inl ⟨hlane, h⟩))
  · exact absurd h.1 (Nat.not_lt_zero _)
  · exact .inr (.inr (.inl ⟨hlane, h.2⟩))

theorem fillPass_first {m m' : Memory} (hm : ∀ w, Made inst 0 0 0 w → m w = m' w) (w : Nat)
    (hw : w < inst.memoryBlocks) :
    fillPass inst (fillSegment64 inst) 0 m w = fillPass inst (fillSegment64 inst) 0 m' w := by
  have hrun := Stride.upTo_rel (f := fillSlice inst (fillSegment64 inst) 0)
    (g := fillSlice inst (fillSegment64 inst) 0)
    (fun s (m m' : Memory) => ∀ w, Made inst s 0 0 w → m w = m' w) (Nat.zero_le syncPoints)
    (fun s m m' _ hs h => fillSlice_first hs h) hm
  have hcol : w % inst.laneLength < syncPoints * inst.segmentLength := by
    rw [Nat.mul_comm]
    exact Nat.mod_lt _ (Nat.lt_of_lt_of_le (by omega) inst.two_le_laneLength)
  exact hrun w ⟨hw, .inr (.inl hcol)⟩

theorem fillPass_later (r : Nat) {m m' : Memory}
    (hm : ∀ w < inst.memoryBlocks, m w = m' w) (w : Nat) (hw : w < inst.memoryBlocks) :
    fillPass inst (fillSegment64 inst) r m w = fillPass inst (fillSegment64 inst) r m' w := by
  let R := fun (_ : Nat) (m m' : Memory) => ∀ w < inst.memoryBlocks, m w = m' w
  have hslice : ∀ s m m', 0 ≤ s → s < syncPoints → R s m m' → R (s + 1)
      (fillSlice inst (fillSegment64 inst) r s m) (fillSlice inst (fillSegment64 inst) r s m') :=
    fun s m m' _ hs h => Stride.upTo_rel (f := fun l => fillSegment64 inst ⟨r, l, s⟩)
      (g := fun l => fillSegment64 inst ⟨r, l, s⟩) R (Nat.zero_le inst.lanes)
      (fun l m m' _ hl h => by
        have hvalid : inst.Valid ⟨r, l, s⟩ := ⟨hl, hs⟩
        exact fillSegment64_later hvalid h) h
  exact Stride.upTo_rel R (Nat.zero_le syncPoints) hslice hm w hw

theorem fillPass_frame (r : Nat) (m : Memory) {w : Nat} (hw : inst.memoryBlocks ≤ w) :
    fillPass inst (fillSegment64 inst) r m w = m w := by
  let I := fun (_ : Nat) (m' : Memory) => m' w = m w
  have hslice : ∀ s m', 0 ≤ s → s < syncPoints → I s m' →
      I (s + 1) (fillSlice inst (fillSegment64 inst) r s m') :=
    fun s m' _ hs h => Stride.upTo_inv (f := fun l => fillSegment64 inst ⟨r, l, s⟩) I
      (Nat.zero_le inst.lanes) (fun l m' _ hl h => by
        have hvalid : inst.Valid ⟨r, l, s⟩ := ⟨hl, hs⟩
        exact (fillSegment64_frame hvalid m' hw).trans h) h
  exact Stride.upTo_inv I (Nat.zero_le syncPoints) hslice rfl

/-- memories with the same first two blocks in each lane -/
def SameFirstBlocks (inst : Instance) (m m' : Memory) : Prop :=
  ∀ l < inst.lanes, ∀ c < 2, m (inst.cell l c) = m' (inst.cell l c)

theorem SameFirstBlocks.made {m m' : Memory} (h : SameFirstBlocks inst m m') (w : Nat)
    (hw : Made inst 0 0 0 w) : m w = m' w := by
  obtain ⟨hlt, hplace⟩ := hw
  have hcol : w % inst.laneLength < 2 := by
    rw [Nat.zero_mul] at hplace
    rcases hplace with h | h | h | h
    · exact h
    · exact absurd h (Nat.not_lt_zero _)
    · exact absurd h.1 (Nat.not_lt_zero _)
    · exact absurd h.2 (Nat.not_lt_zero _)
  have hcell := h _ (Instance.div_lt_lanes hlt) _ hcol
  unfold Instance.cell at hcell
  rwa [Nat.div_add_mod] at hcell

/-- **The filled memory comes from the first two blocks of each lane alone.** -/
theorem fillMemoryBlocks_congr {m m' : Memory} (h : SameFirstBlocks inst m m') (w : Nat)
    (hw : w < inst.memoryBlocks) :
    fillMemoryBlocks inst (fillSegment64 inst) m w
      = fillMemoryBlocks inst (fillSegment64 inst) m' w := by
  let R := fun (r : Nat) (m m' : Memory) =>
    ∀ w, (if r = 0 then Made inst 0 0 0 w else w < inst.memoryBlocks) → m w = m' w
  have hturn : ∀ r m m', 0 ≤ r → r < inst.passes → R r m m' → R (r + 1)
      (fillPass inst (fillSegment64 inst) r m) (fillPass inst (fillSegment64 inst) r m') := by
    intro r m m' _ _ h w hw
    rw [if_neg (Nat.succ_ne_zero r)] at hw
    by_cases hr : r = 0
    · subst hr
      exact fillPass_first (fun w hw => h w (by rwa [if_pos rfl])) w hw
    · exact fillPass_later r (fun w hw => h w (by rwa [if_neg hr])) w hw
  refine Stride.upTo_rel R (Nat.zero_le inst.passes) hturn (fun w hw => ?_) w ?_
  · rw [if_pos rfl] at hw
    exact h.made w hw
  · have hpasses := inst.one_le_passes
    rw [if_neg (by omega)]
    exact hw

theorem fillMemoryBlocks_frame (m : Memory) {w : Nat} (hw : inst.memoryBlocks ≤ w) :
    fillMemoryBlocks inst (fillSegment64 inst) m w = m w :=
  Stride.upTo_inv (fun _ (m' : Memory) => m' w = m w) (Nat.zero_le inst.passes)
    (fun r m' _ _ h => (fillPass_frame r m' hw).trans h) rfl

end

/-! ## the functions to select from -/

/-- `argon2_get_impl_list` -/
def implementations (inst : Instance) : List (Position → Memory → Memory) :=
  [fillSegment64 inst,
    fun pos => fillSegment128 inst pos Simd.sse2,
    fun pos => fillSegment128 inst pos Simd.ssse3,
    fun pos => fillSegment128 inst pos Simd.xop,
    fun pos => fillSegment128 inst pos Simd.avx2,
    fun pos => fillSegment128 inst pos Simd.avx512f]

section
variable {inst : Instance} {impl impl' : Position → Memory → Memory}

theorem fillMemoryBlocks_impl (h : impl ∈ implementations inst) (memory : Memory) :
    fillMemoryBlocks inst impl memory = fillMemoryBlocks inst (fillSegment64 inst) memory := by
  simp only [implementations, List.mem_cons, List.not_mem_nil, or_false] at h
  obtain rfl | rfl | rfl | rfl | rfl | rfl := h
  · rfl
  all_goals exact fillMemoryBlocks_eq _ memory

/-- **Whatever has been selected and whatever was in the memory, the same first blocks give the same
memory**, and no block behind it is written. -/
theorem fillMemoryBlocks_determined (h : impl ∈ implementations inst)
    (h' : impl' ∈ implementations inst) {m m' : Memory} (hm : SameFirstBlocks inst m m') (w : Nat) :
    (w < inst.memoryBlocks → fillMemoryBlocks inst impl m w = fillMemoryBlocks inst impl' m' w) ∧
      (inst.memoryBlocks ≤ w → fillMemoryBlocks inst impl m w = m w) := by
  rw [fillMemoryBlocks_impl h, fillMemoryBlocks_impl h']
  exact ⟨fillMemoryBlocks_congr hm w, fillMemoryBlocks_frame m⟩

end

/-- the memory of RandomX: three passes over one lane -/
def Instance.randomx : Instance :=
  .ofContext 0x13 3 262144 1 (by decide) (by decide) (by decide) (by decide)

theorem fillMemoryBlocks_determined_xop :
    fillMemoryBlocks .randomx (fillSegment64 .randomx) (fun _ _ => 0) 5
      = fillMemoryBlocks .randomx (fun pos => fillSegment128 .randomx pos Simd.xop)
          (fun w _ => if w < 2 then 0 else 1) 5 := by
  have hfirst : SameFirstBlocks .randomx (fun _ _ => 0) (fun w _ => if w < 2 then 0 else 1) := by
    intro l hl c hc
    obtain rfl : l = 0 := Nat.lt_one_iff.mp hl
    have hcell : Instance.randomx.cell 0 c < 2 := by
      rw [Instance.cell, Nat.mul_zero, Nat.zero_add]
      exact hc
    exact funext fun _ => (if_pos hcell).symm
  exact (fillMemoryBlocks_determined (by simp [implementations]) (by simp [implementations])
    hfirst 5).1 (by decide)

/-! ## the cache -/

/-- `fill_first_blocks`; the long hash of the key for a lane and a block is a parameter -/
def fillFirstBlocks (inst : Instance) (longHash : Nat → Nat → Block) (memory : Memory) : Memory :=
  (Stride.upTo (fun l m => Function.update (Function.update m (inst.cell l 0) (longHash l 0))
    (inst.cell l 1) (longHash l 1)) 1 inst.lanes (0, memory)).2

/-- the bytes of the blocks -/
def memoryBytes (memory : Memory) : Bytes :=
  fun a => byteOf (memory (a / 1024) (Fin.ofNat 128 (a / 8))) (a % 8)

/-- `argon2_ctx_mem` -/
def ctxMem (inst : Instance) (impl : Position → Memory → Memory)
    (longHash : Bytes → Nat → Nat → Nat → Block) (memory : Memory) (key : Bytes) (keySize : Nat) :
    Bytes :=
  memoryBytes (fillMemoryBlocks inst impl (fillFirstBlocks inst (longHash key keySize) memory))

section
variable {inst : Instance} {impl impl' : Position → Memory → Memory}

theorem fillFirstBlocks_cell (longHash : Nat → Nat → Block) (memory : Memory) {l c : Nat}
    (hl : l < inst.lanes) (hc : c < 2) :
    fillFirstBlocks inst longHash memory (inst.cell l c) = longHash l c := by
  have hlane := inst.two_le_laneLength
  have hne : ∀ {l l' c c' : Nat}, c < 2 → c' < 2 → (l ≠ l' ∨ c ≠ c') →
      inst.cell l c ≠ inst.cell l' c' := by
    intro l l' c c' hc hc' hdiff heq
    have hdiv := congrArg (· / inst.laneLength) heq
    have hmod := congrArg (· % inst.laneLength) heq
    simp only [Instance.cell_div (Nat.lt_of_lt_of_le hc hlane),
      Instance.cell_div (Nat.lt_of_lt_of_le hc' hlane)] at hdiv
    simp only [Instance.cell_mod (Nat.lt_of_lt_of_le hc hlane),
      Instance.cell_mod (Nat.lt_of_lt_of_le hc' hlane)] at hmod
    omega
  have hrun := Stride.upTo_inv
    (f := fun l m => Function.update (Function.update m (inst.cell l 0) (longHash l 0))
      (inst.cell l 1) (longHash l 1))
    (fun i (m : Memory) => ∀ l < i, ∀ c < 2, m (inst.cell l c) = longHash l c)
    (Nat.zero_le inst.lanes) (fun i m _ _ hm l hl c hc => by
      by_cases hli : l = i
      · subst hli
        match c with
        | 0 => rw [Function.update_of_ne (hne (by omega) (by omega) (.inr (by omega))),
            Function.update_self]
        | 1 => rw [Function.update_self]
      · rw [Function.update_of_ne (hne hc (by omega) (.inl hli)),
          Function.update_of_ne (hne hc (by omega) (.inl hli))]
        exact hm l (by omega) c hc) (s := memory) (fun l hl => absurd hl (Nat.not_lt_zero l))
  exact hrun l hl c hc

/-- **Whatever has been selected and whatever was in the memory of the cache, a key gives the same
items of the dataset.** -/
theorem initCache_selected {H : List Byte → List Byte} {retries : Nat} (hH : Productive H retries)
    (hsize : inst.memoryBlocks * 1024 = cacheSize.toNat) (h : impl ∈ implementations inst)
    (h' : impl' ∈ implementations inst) (longHash : Bytes → Nat → Nat → Nat → Block)
    (memory memory' : Memory) (key : Bytes) (keySize : Nat) :
    ∃ cache cache',
      initCache H retries (ctxMem inst impl longHash memory) key keySize = some cache ∧
      initCache H retries (ctxMem inst impl' longHash memory') key keySize = some cache' ∧
      ∀ itemNumber, initDatasetItem cache itemNumber = initDatasetItem cache' itemNumber := by
  obtain ⟨programs, hprograms⟩ := Option.isSome_iff_exists.mp
    (generatePrograms_isSome hH cacheAccesses (.ofSeed key keySize 0))
  obtain ⟨hlen, hwf⟩ := generatePrograms_spec hprograms
  have hcache : ∀ argon2, initCache H retries argon2 key keySize
      = some ⟨argon2 key keySize, programs, hlen, hwf⟩ := by
    intro argon2
    unfold initCache
    split
    case h_1 programs' hsome =>
      obtain rfl := Option.some.inj (hsome.symm.trans hprograms)
      rfl
    case h_2 hnone => exact absurd (hnone.symm.trans hprograms) (by simp)
  refine ⟨_, _, hcache _, hcache _, initDatasetItem_congr rfl fun j hj => ?_⟩
  have hfirst : SameFirstBlocks inst (fillFirstBlocks inst (longHash key keySize) memory)
      (fillFirstBlocks inst (longHash key keySize) memory') := fun l hl c hc =>
    (fillFirstBlocks_cell _ memory hl hc).trans (fillFirstBlocks_cell _ memory' hl hc).symm
  have hblock := fillMemoryBlocks_congr hfirst (j / 1024) (by omega)
  show byteOf (fillMemoryBlocks inst impl _ (j / 1024) _) _
    = byteOf (fillMemoryBlocks inst impl' _ (j / 1024) _) _
  rw [fillMemoryBlocks_impl h, fillMemoryBlocks_impl h', hblock]

end

theorem initCache_selected_avx2 : ∃ cache cache',
    initCache (fun _ => List.replicate 64 3) 65
      (ctxMem .randomx (fillSegment64 .randomx) (fun _ _ _ _ _ => 0) (fun _ _ => 0)) (fun _ => 0) 0
      = some cache ∧
    initCache (fun _ => List.replicate 64 3) 65
      (ctxMem .randomx (fun pos => fillSegment128 .randomx pos Simd.avx2) (fun _ _ _ _ _ => 0)
        (fun _ _ => 1)) (fun _ => 0) 0 = some cache' ∧
    ∀ itemNumber, initDatasetItem cache itemNumber = initDatasetItem cache' itemNumber :=
  initCache_selected productive_threes (by decide) (by simp [implementations])
    (by simp [implementations]) _ _ _ _ _

end Argon2
end Randx
