import RandxFpga.Oracle.Execute
import RandxFpga.Oracle.SuperscalarGenerator
import RandxFpga.Run.Threads

/-!
# The cache and the dataset (`dataset.cpp`, `RxDataset.cpp`)

A `Cache` carries that its programs run.  The items of the dataset are computed from it, in the
full mode by several threads before the first hash, in the light mode when an item is read.

* `initCache_isSome`, `exists_initDatasetItem`  the functions return;
* `initDatasetItem_congr`  an item reads no byte behind the memory of the cache;
* `initThreads_filled`     any number of threads in any order leave the dataset with the items of
                           the cache, and what is behind it as it was;
* `fullRead_eq_lightRead`  then the two modes read the same lines.
-/

namespace Randx
open Store Threads

/-! ## the cache -/

def cacheAccesses : Nat := 8

def superscalarLatency : Nat := 170

/-- `ArgonMemory` blocks of `ArgonBlockSize` bytes -/
def cacheSize : BitVec 32 := 262144 * 1024

structure Cache where
  memory : Bytes
  programs : List SuperscalarProgram
  length_eq : programs.length = cacheAccesses
  wellFormed : ∀ prog ∈ programs, prog.WellFormed superscalarLatency

section
variable (H : List Byte → List Byte) (retries : Nat)

/-- one program after the other from one generator -/
def generatePrograms : Nat → Blake2Generator → Option (List SuperscalarProgram)
  | 0, _ => some []
  | n + 1, gen => do
    let (prog, gen) ← generateSuperscalar H retries superscalarLatency gen
    let programs ← generatePrograms n gen
    some (prog :: programs)

variable {H retries}

theorem generatePrograms_spec {n : Nat} {gen : Blake2Generator} {programs : List SuperscalarProgram}
    (h : generatePrograms H retries n gen = some programs) :
    programs.length = n ∧ ∀ prog ∈ programs, prog.WellFormed superscalarLatency := by
  induction n generalizing gen programs with
  | zero =>
    obtain rfl := Option.some.inj h
    exact ⟨rfl, fun _ hmem => absurd hmem List.not_mem_nil⟩
  | succ n ih =>
    obtain ⟨⟨prog, gen'⟩, hprog, h⟩ := Option.bind_eq_some_iff.mp h
    obtain ⟨rest, hrest, h⟩ := Option.bind_eq_some_iff.mp h
    obtain rfl := Option.some.inj h
    obtain ⟨hlen, hwf⟩ := ih hrest
    refine ⟨congrArg (· + 1) hlen, fun x hx => ?_⟩
    obtain rfl | hx := List.mem_cons.mp hx
    · exact generateSuperscalar_wellFormed hprog
    · exact hwf x hx

theorem generatePrograms_isSome (hH : Productive H retries) (n : Nat) (gen : Blake2Generator) :
    (generatePrograms H retries n gen).isSome = true := by
  induction n generalizing gen with
  | zero => rfl
  | succ n ih =>
    obtain ⟨⟨prog, gen'⟩, hprog⟩ :=
      Option.isSome_iff_exists.mp (generateSuperscalar_isSome hH superscalarLatency gen)
    obtain ⟨programs, hprograms⟩ := Option.isSome_iff_exists.mp (ih gen')
    rw [generatePrograms, hprog]
    show ((generatePrograms H retries n gen').bind _).isSome = true
    rw [hprograms]
    rfl

variable (H retries)

/-- `initCache`; what `argon2_ctx_mem` leaves in the memory is a parameter -/
def initCache (argon2 : Bytes → Nat → Bytes) (key : Bytes) (keySize : Nat) : Option Cache :=
  match h : generatePrograms H retries cacheAccesses (.ofSeed key keySize 0) with
  | some programs =>
    some ⟨argon2 key keySize, programs, (generatePrograms_spec h).1, (generatePrograms_spec h).2⟩
  | none => none

theorem initCache_isSome (hH : Productive H retries) (argon2 : Bytes → Nat → Bytes) (key : Bytes)
    (keySize : Nat) : (initCache H retries argon2 key keySize).isSome = true := by
  have hsome := generatePrograms_isSome hH cacheAccesses (.ofSeed key keySize 0)
  unfold initCache
  split
  · rfl
  · rename_i hnone
    rw [hnone] at hsome
    exact hsome

end

/-! ## an item -/

def superscalarMul0 : Word := 6364136223846793005
def superscalarAdd1 : Word := 9298411001130361340
def superscalarAdd2 : Word := 12065312585734608966
def superscalarAdd3 : Word := 9306329213124626780
def superscalarAdd4 : Word := 5281919268842080866
def superscalarAdd5 : Word := 10536153434571861004
def superscalarAdd6 : Word := 3398623926847679864
def superscalarAdd7 : Word := 9549104520008361294

/-- where the mix block is in the memory of the cache -/
def getMixBlock (registerValue : Word) : Nat :=
  (registerValue &&& (cacheSize / 64 - 1).setWidth 64).toNat * 64

/-- the words at `mixBlock` -/
def mixWords (memory : Bytes) (registerValue : Word) (q : Fin 8) : Word :=
  load64 memory (getMixBlock registerValue + 8 * q.val)

/-- the registers in front of the loop -/
def itemRegisters (itemNumber : Word) : Fin 8 → Word
  | 0 => (itemNumber + 1) * superscalarMul0
  | 1 => (itemNumber + 1) * superscalarMul0 ^^^ superscalarAdd1
  | 2 => (itemNumber + 1) * superscalarMul0 ^^^ superscalarAdd2
  | 3 => (itemNumber + 1) * superscalarMul0 ^^^ superscalarAdd3
  | 4 => (itemNumber + 1) * superscalarMul0 ^^^ superscalarAdd4
  | 5 => (itemNumber + 1) * superscalarMul0 ^^^ superscalarAdd5
  | 6 => (itemNumber + 1) * superscalarMul0 ^^^ superscalarAdd6
  | 7 => (itemNumber + 1) * superscalarMul0 ^^^ superscalarAdd7

/-- one turn: `rl` and `registerValue` -/
def itemStep (memory : Bytes) (x : (Fin 8 → Word) × Word) (prog : SuperscalarProgram) :
    Option ((Fin 8 → Word) × Word) :=
  if h : prog.addressRegister < 8 then
    (executeSuperscalar x.1 prog).map fun rl =>
      let rl := fun q => rl q ^^^ mixWords memory x.2 q
      (rl, rl ⟨prog.addressRegister, h⟩)
  else none

/-- the eight words that `initDatasetItem` copies to `out` -/
def initDatasetItem (cache : Cache) (itemNumber : Word) : Option (Fin 8 → Word) :=
  (cache.programs.foldlM (itemStep cache.memory) (itemRegisters itemNumber, itemNumber)).map Prod.fst

theorem exists_itemStep {prog : SuperscalarProgram} (h : prog.WellFormed superscalarLatency)
    (memory : Bytes) (x : (Fin 8 → Word) × Word) : ∃ y, itemStep memory x prog = some y := by
  obtain ⟨rl, hrl⟩ := exists_executeSuperscalar h.instructions x.1
  unfold itemStep
  rw [dif_pos h.addressRegister_lt, hrl]
  exact ⟨_, rfl⟩

theorem exists_itemSteps {programs : List SuperscalarProgram}
    (h : ∀ prog ∈ programs, prog.WellFormed superscalarLatency) (memory : Bytes)
    (x : (Fin 8 → Word) × Word) : ∃ y, programs.foldlM (itemStep memory) x = some y := by
  induction programs generalizing x with
  | nil => exact ⟨x, rfl⟩
  | cons prog programs ih =>
    obtain ⟨y, hy⟩ := exists_itemStep (h prog List.mem_cons_self) memory x
    obtain ⟨z, hz⟩ := ih (fun prog hmem => h prog (List.mem_cons_of_mem _ hmem)) y
    exact ⟨z, by rw [List.foldlM_cons, hy]; exact hz⟩

theorem exists_initDatasetItem (cache : Cache) (itemNumber : Word) :
    ∃ rl, initDatasetItem cache itemNumber = some rl := by
  obtain ⟨x, hx⟩ := exists_itemSteps cache.wellFormed cache.memory
    (itemRegisters itemNumber, itemNumber)
  exact ⟨x.1, by rw [initDatasetItem, hx]; rfl⟩

theorem initDatasetItem_isSome (cache : Cache) (itemNumber : Word) :
    (initDatasetItem cache itemNumber).isSome = true :=
  Option.isSome_iff_exists.mpr (exists_initDatasetItem cache itemNumber)

/-- an item of the dataset -/
def Cache.item (cache : Cache) (itemNumber : Word) : Fin 8 → Word :=
  (initDatasetItem cache itemNumber).get (initDatasetItem_isSome cache itemNumber)

theorem initDatasetItem_eq (cache : Cache) (itemNumber : Word) :
    initDatasetItem cache itemNumber = some (cache.item itemNumber) :=
  (Option.some_get _).symm

/-- a cache over other memory -/
def Cache.over (cache : Cache) (memory : Bytes) : Cache := { cache with memory := memory }

/-- the mix block is in the memory of the cache -/
theorem getMixBlock_within (registerValue : Word) :
    getMixBlock registerValue + 64 ≤ cacheSize.toNat := by
  have hle : (registerValue &&& (cacheSize / 64 - 1).setWidth 64).toNat ≤ 4194303 := by
    rw [BitVec.toNat_and]
    exact Nat.and_le_right
  show _ * 64 + 64 ≤ 268435456
  omega

theorem itemStep_congr {memory memory' : Bytes} (h : ∀ j < cacheSize.toNat, memory j = memory' j) :
    itemStep memory = itemStep memory' := by
  have hmix : mixWords memory = mixWords memory' := by
    funext registerValue q
    have hq := q.isLt
    have hwithin := getMixBlock_within registerValue
    exact load64_congr fun j hj => h _ (by omega)
  funext x prog
  unfold itemStep
  rw [hmix]

/-- **An item depends on the programs and the memory of the cache, and reads nothing behind it.** -/
theorem initDatasetItem_congr {cache cache' : Cache} (hprograms : cache.programs = cache'.programs)
    (hmemory : ∀ j < cacheSize.toNat, cache.memory j = cache'.memory j) (itemNumber : Word) :
    initDatasetItem cache itemNumber = initDatasetItem cache' itemNumber := by
  unfold initDatasetItem
  rw [hprograms, itemStep_congr hmemory]

section
variable {H : List Byte → List Byte} {retries : Nat}

/-- **The cache is made from any key, and every item of the dataset is computed from it**, with
reads inside its memory. -/
theorem initCache_items (hH : Productive H retries) (argon2 : Bytes → Nat → Bytes) (key : Bytes)
    (keySize : Nat) :
    ∃ cache, initCache H retries argon2 key keySize = some cache ∧
      ∀ itemNumber, ∃ rl, initDatasetItem cache itemNumber = some rl ∧
        ∀ memory : Bytes, (∀ j < cacheSize.toNat, memory j = cache.memory j) →
          initDatasetItem (cache.over memory) itemNumber = some rl := by
  obtain ⟨cache, hcache⟩ :=
    Option.isSome_iff_exists.mp (initCache_isSome H retries hH argon2 key keySize)
  refine ⟨cache, hcache, fun itemNumber => ?_⟩
  obtain ⟨rl, hrl⟩ := exists_initDatasetItem cache itemNumber
  refine ⟨rl, hrl, fun memory hmemory => ?_⟩
  rw [← hrl]
  exact @initDatasetItem_congr (cache.over memory) cache rfl hmemory itemNumber

theorem initCache_items_threes : ∃ cache,
    initCache (fun _ => List.replicate 64 3) 65 (fun _ _ _ => 0) (fun _ => 0) 0 = some cache ∧
      ∀ itemNumber, ∃ rl, initDatasetItem cache itemNumber = some rl ∧
        ∀ memory : Bytes, (∀ j < cacheSize.toNat, memory j = cache.memory j) →
          initDatasetItem (cache.over memory) itemNumber = some rl :=
  initCache_items productive_threes (fun _ _ _ => 0) (fun _ => 0) 0

end

/-! ## the dataset -/

/-- a byte of a line of words -/
def lineByte (rl : Fin 8 → Word) (j : Nat) : Byte := byteOf (rl (Fin.ofNat 8 (j / 8))) (j % 8)

/-- the `memcpy` of a line -/
def copyLine (out : Nat) (rl : Fin 8 → Word) : List (Op Nat Byte) :=
  (List.range 64).map fun j => .wr (out + j) (lineByte rl j)

/-- the loop of `initDataset`, with the turns that are left -/
def initDatasetTurns (cache : Cache) : Nat → Nat → BitVec 32 → Option (List (Op Nat Byte))
  | 0, _, _ => some []
  | n + 1, dataset, itemNumber => do
    let rl ← initDatasetItem cache (itemNumber.setWidth 64)
    let rest ← initDatasetTurns cache n (dataset + 64) (itemNumber + 1)
    some (copyLine dataset rl ++ rest)

/-- the stores of `initDataset`; `dataset` is where it starts in the memory of the dataset -/
def initDataset (cache : Cache) (dataset : Nat) (startItem endItem : BitVec 32) :
    Option (List (Op Nat Byte)) :=
  initDatasetTurns cache (endItem.toNat - startItem.toNat) dataset startItem

/-- `DatasetItemCount` -/
def datasetItemCount : Word := (2147483648 + 33554368) / 64

/-- `randomx_init_dataset`, with `none` where an assertion fails -/
def randomxInitDataset (cache : Cache) (startItem itemCount : Word) : Option (List (Op Nat Byte)) :=
  if startItem < datasetItemCount ∧ itemCount ≤ datasetItemCount
      ∧ startItem + itemCount ≤ datasetItemCount then
    initDataset cache (startItem * 64).toNat (startItem.setWidth 32)
      ((startItem + itemCount).setWidth 32)
  else none

/-- `init_dataset_wrapper` -/
def initDatasetWrapper (hasAVX2 : Bool) (cache : Cache) (startItem itemCount : Word) :
    Option (List (Op Nat Byte)) :=
  if hasAVX2 && itemCount % 5 != 0 then do
    let first ← randomxInitDataset cache startItem (itemCount - itemCount % 5)
    let last ← randomxInitDataset cache (startItem + itemCount - 5) 5
    some (first ++ last)
  else randomxInitDataset cache startItem itemCount

/-- where the share of a thread starts, and the one before it ends -/
def shareStart (numThreads : BitVec 32) (i : Nat) : BitVec 32 :=
  ((datasetItemCount * BitVec.ofNat 64 i) / numThreads.setWidth 64).setWidth 32

/-- what each thread of `RxDataset::init` stores -/
def initThreads (hasAVX2 : Bool) (cache : Cache) (numThreads : BitVec 32) :
    Option (List (List (Op Nat Byte))) :=
  if 1 < numThreads then
    (List.range numThreads.toNat).mapM fun i =>
      initDatasetWrapper hasAVX2 cache ((shareStart numThreads i).setWidth 64)
        ((shareStart numThreads (i + 1) - shareStart numThreads i).setWidth 64)
  else (initDatasetWrapper hasAVX2 cache 0 datasetItemCount).map fun l => [l]

/-- a byte of the dataset as the cache has it -/
def Cache.byte (cache : Cache) (a : Nat) : Byte :=
  lineByte (cache.item (BitVec.ofNat 64 (a / 64))) (a % 64)

/-- stores of the right bytes, to all of the items from `lo` to `hi` and no others -/
structure Fills (cache : Cache) (lo hi : Nat) (l : List (Op Nat Byte)) : Prop where
  puts : ∀ q ∈ l, ∃ a, q = .wr a (cache.byte a)
  writes : ∀ a, (∃ q ∈ l, q.Writes a) ↔ 64 * lo ≤ a ∧ a < 64 * hi

theorem Fills.append {cache : Cache} {lo hi : Nat} {l l' : List (Op Nat Byte)} {mid mid' : Nat}
    (h : Fills cache lo mid l) (h' : Fills cache mid' hi l') (hlo : lo ≤ mid') (hmid : mid' ≤ mid)
    (hhi : mid ≤ hi) : Fills cache lo hi (l ++ l') where
  puts := fun q hq => (List.mem_append.mp hq).elim (h.puts q) (h'.puts q)
  writes := fun a => by
    have hsplit : (∃ q ∈ l ++ l', q.Writes a) ↔ (∃ q ∈ l, q.Writes a) ∨ ∃ q ∈ l', q.Writes a := by
      simp only [List.mem_append, or_and_right, exists_or]
    rw [hsplit, h.writes, h'.writes]
    omega

section
variable (cache : Cache)

theorem copyLine_fills (itemNumber : Nat) :
    Fills cache itemNumber (itemNumber + 1)
      (copyLine (64 * itemNumber) (cache.item (BitVec.ofNat 64 itemNumber))) where
  puts := fun q hq => by
    obtain ⟨j, hj, rfl⟩ := List.mem_map.mp hq
    have hlt := List.mem_range.mp hj
    refine ⟨64 * itemNumber + j, ?_⟩
    unfold Cache.byte
    rw [show (64 * itemNumber + j) / 64 = itemNumber by omega,
      show (64 * itemNumber + j) % 64 = j by omega]
  writes := fun a => by
    refine ⟨fun h => ?_, fun h => ?_⟩
    · obtain ⟨q, hq, hw⟩ := h
      obtain ⟨j, hj, rfl⟩ := List.mem_map.mp hq
      have hlt := List.mem_range.mp hj
      obtain rfl : 64 * itemNumber + j = a := hw
      omega
    · refine ⟨_, List.mem_map.mpr ⟨a - 64 * itemNumber, List.mem_range.mpr (by omega), rfl⟩, ?_⟩
      show 64 * itemNumber + (a - 64 * itemNumber) = a
      omega

theorem initDatasetTurns_fills (n : Nat) (itemNumber : BitVec 32)
    (h : itemNumber.toNat + n < 2 ^ 32) :
    ∃ l, initDatasetTurns cache n (64 * itemNumber.toNat) itemNumber = some l ∧
      Fills cache itemNumber.toNat (itemNumber.toNat + n) l := by
  induction n generalizing itemNumber with
  | zero =>
    refine ⟨[], rfl, fun q hq => absurd hq List.not_mem_nil, fun a => ⟨fun h => ?_, fun h => ?_⟩⟩
    · obtain ⟨q, hq, -⟩ := h
      exact absurd hq List.not_mem_nil
    · omega
  | succ n ih =>
    have hnext : (itemNumber + 1).toNat = itemNumber.toNat + 1 := by
      rw [BitVec.toNat_add]
      exact Nat.mod_eq_of_lt (by show _ + 1 < _; omega)
    have hitem : itemNumber.setWidth 64 = BitVec.ofNat 64 itemNumber.toNat := by
      apply BitVec.eq_of_toNat_eq
      rw [BitVec.toNat_setWidth, BitVec.toNat_ofNat]
    obtain ⟨rest, hrest, hfills⟩ := ih (itemNumber + 1) (by omega)
    rw [hnext] at hrest hfills
    rw [Nat.add_right_comm] at hfills
    refine ⟨_, ?_, (copyLine_fills cache _).append hfills (by omega) (Nat.le_refl _) (by omega)⟩
    · rw [initDatasetTurns, initDatasetItem_eq, hitem]
      show (initDatasetTurns cache n (64 * (itemNumber.toNat + 1)) (itemNumber + 1)).bind _ = _
      rw [hrest]
      rfl

theorem toNat_datasetItemCount : datasetItemCount.toNat = 34078719 := rfl

theorem randomxInitDataset_fills (startItem itemCount : Word)
    (hstart : startItem.toNat < 34078719) (h : startItem.toNat + itemCount.toNat ≤ 34078719) :
    ∃ l, randomxInitDataset cache startItem itemCount = some l ∧
      Fills cache startItem.toNat (startItem.toNat + itemCount.toNat) l := by
  have hsum : (startItem + itemCount).toNat = startItem.toNat + itemCount.toNat := by
    rw [BitVec.toNat_add]
    exact Nat.mod_eq_of_lt (by omega)
  have hasserts : startItem < datasetItemCount ∧ itemCount ≤ datasetItemCount
      ∧ startItem + itemCount ≤ datasetItemCount := by
    rw [BitVec.lt_def, BitVec.le_def, BitVec.le_def, hsum, toNat_datasetItemCount]
    omega
  have hdataset : (startItem * 64).toNat = 64 * startItem.toNat := by
    rw [BitVec.toNat_mul, Nat.mul_comm]
    exact Nat.mod_eq_of_lt (by show 64 * _ < _; omega)
  have hlo : (startItem.setWidth 32).toNat = startItem.toNat := by
    rw [BitVec.toNat_setWidth]
    exact Nat.mod_eq_of_lt (by omega)
  have hhi : ((startItem + itemCount).setWidth 32).toNat = startItem.toNat + itemCount.toNat := by
    rw [BitVec.toNat_setWidth, hsum]
    exact Nat.mod_eq_of_lt (by omega)
  obtain ⟨l, hl, hfills⟩ := initDatasetTurns_fills cache itemCount.toNat
    (startItem.setWidth 32) (by omega)
  rw [hlo] at hl hfills
  refine ⟨l, ?_, hfills⟩
  rw [randomxInitDataset, if_pos hasserts, hdataset, initDataset, hlo, hhi, Nat.add_sub_cancel_left]
  exact hl

/-- with five items or more the last five are in the share -/
theorem initDatasetWrapper_fills (hasAVX2 : Bool) (startItem itemCount : Word)
    (hcount : 5 ≤ itemCount.toNat) (h : startItem.toNat + itemCount.toNat ≤ 34078719) :
    ∃ l, initDatasetWrapper hasAVX2 cache startItem itemCount = some l ∧
      Fills cache startItem.toNat (startItem.toNat + itemCount.toNat) l := by
  by_cases hlast : (hasAVX2 && itemCount % 5 != 0) = true
  · have hmod : (itemCount % 5).toNat = itemCount.toNat % 5 := BitVec.toNat_umod
    have hfirst : (itemCount - itemCount % 5).toNat = itemCount.toNat - itemCount.toNat % 5 := by
      rw [BitVec.toNat_sub_of_le (by rw [BitVec.le_def, hmod]; omega), hmod]
    have hsum : (startItem + itemCount).toNat = startItem.toNat + itemCount.toNat := by
      rw [BitVec.toNat_add]
      exact Nat.mod_eq_of_lt (by omega)
    have hfive : (startItem + itemCount - 5).toNat = startItem.toNat + itemCount.toNat - 5 := by
      rw [BitVec.toNat_sub_of_le (by rw [BitVec.le_def, hsum]; show 5 ≤ _; omega), hsum]
      rfl
    obtain ⟨l, hl, hfills⟩ := randomxInitDataset_fills cache startItem
      (itemCount - itemCount % 5) (by omega) (by omega)
    obtain ⟨l', hl', hfills'⟩ := randomxInitDataset_fills cache
      (startItem + itemCount - 5) 5 (by omega)
      (by rw [hfive]; show _ + 5 ≤ _; omega)
    rw [hfirst] at hfills
    rw [hfive, show startItem.toNat + itemCount.toNat - 5 + (5 : Word).toNat
      = startItem.toNat + itemCount.toNat from Nat.sub_add_cancel (by omega)] at hfills'
    refine ⟨l ++ l', ?_, hfills.append hfills' (by omega) (by omega) (by omega)⟩
    rw [initDatasetWrapper, if_pos hlast, hl, hl']
    rfl
  · rw [initDatasetWrapper, if_neg hlast]
    exact randomxInitDataset_fills cache startItem itemCount (by omega) h

end

/-! ## the threads -/

section
variable (cache : Cache) {numThreads : BitVec 32}

theorem toNat_shareStart {i : Nat} (hi : i ≤ numThreads.toNat) (hpos : 0 < numThreads.toNat) :
    (shareStart numThreads i).toNat = 34078719 * i / numThreads.toNat := by
  have hlt := numThreads.isLt
  have hmul : (datasetItemCount * BitVec.ofNat 64 i).toNat = 34078719 * i := by
    have hturn : (BitVec.ofNat 64 i).toNat = i := Nat.mod_eq_of_lt (by omega)
    rw [BitVec.toNat_mul, toNat_datasetItemCount, hturn]
    exact Nat.mod_eq_of_lt (by omega)
  have hle : 34078719 * i / numThreads.toNat ≤ 34078719 :=
    Nat.div_le_of_le_mul (by rw [Nat.mul_comm numThreads.toNat]; exact Nat.mul_le_mul_left _ hi)
  rw [shareStart, BitVec.toNat_setWidth, BitVec.toNat_udiv, hmul,
    BitVec.toNat_setWidth_of_le (by omega)]
  exact Nat.mod_eq_of_lt (by omega)

/-- the first threads fill the items up to the end of their shares -/
theorem threads_fill (hasAVX2 : Bool) (hpos : 0 < numThreads.toNat)
    (h : 5 * numThreads.toNat ≤ 34078719) {k : Nat} (hk : k ≤ numThreads.toNat) :
    ∃ ls, (List.range k).mapM (fun i =>
        initDatasetWrapper hasAVX2 cache ((shareStart numThreads i).setWidth 64)
          ((shareStart numThreads (i + 1) - shareStart numThreads i).setWidth 64)) = some ls ∧
      Fills cache 0 (34078719 * k / numThreads.toNat) ls.flatten := by
  induction k with
  | zero =>
    refine ⟨[], rfl, fun q hq => absurd hq List.not_mem_nil, fun a => ⟨fun h => ?_, fun h => ?_⟩⟩
    · obtain ⟨q, hq, -⟩ := h
      exact absurd hq List.not_mem_nil
    · rw [Nat.mul_zero, Nat.zero_div] at h
      omega
  | succ k ih =>
    obtain ⟨ls, hls, hfills⟩ := ih (by omega)
    have hstart := toNat_shareStart (i := k) (by omega) hpos
    have hend := toNat_shareStart hk hpos
    have hfive : 34078719 * k / numThreads.toNat + 5 ≤ 34078719 * (k + 1) / numThreads.toNat := by
      rw [← Nat.add_mul_div_right _ _ hpos]
      exact Nat.div_le_div_right (by omega)
    have hle : 34078719 * (k + 1) / numThreads.toNat ≤ 34078719 :=
      Nat.div_le_of_le_mul (by rw [Nat.mul_comm numThreads.toNat]; exact Nat.mul_le_mul_left _ hk)
    have hcount : ((shareStart numThreads (k + 1) - shareStart numThreads k).setWidth 64).toNat
        = 34078719 * (k + 1) / numThreads.toNat - 34078719 * k / numThreads.toNat := by
      rw [BitVec.toNat_setWidth_of_le (by omega),
        BitVec.toNat_sub_of_le (by rw [BitVec.le_def]; omega), hstart, hend]
    have hwide : ((shareStart numThreads k).setWidth 64).toNat
        = 34078719 * k / numThreads.toNat := by
      rw [BitVec.toNat_setWidth_of_le (by omega), hstart]
    obtain ⟨l, hl, hfills'⟩ := initDatasetWrapper_fills cache hasAVX2
      ((shareStart numThreads k).setWidth 64) _ (by rw [hcount]; omega)
      (by rw [hwide, hcount]; omega)
    rw [hwide, hcount, Nat.add_sub_cancel' (by omega)] at hfills'
    refine ⟨ls ++ [l], ?_, ?_⟩
    · rw [List.range_succ, List.mapM_append, hls, List.mapM_cons, List.mapM_nil, hl]
      rfl
    · rw [List.flatten_append, List.flatten_singleton]
      exact hfills.append hfills' (Nat.zero_le _) (Nat.le_refl _) (by omega)

/-- the stores of the threads are those of all the items -/
theorem initThreads_fills (hasAVX2 : Bool) (h : 5 * numThreads.toNat ≤ 34078719) :
    ∃ ls, initThreads hasAVX2 cache numThreads = some ls ∧ Fills cache 0 34078719 ls.flatten := by
  by_cases hone : 1 < numThreads
  · have hpos : 1 < numThreads.toNat := hone
    obtain ⟨ls, hls, hfills⟩ := threads_fill cache hasAVX2 (by omega) h (Nat.le_refl _)
    rw [Nat.mul_div_cancel _ (by omega)] at hfills
    exact ⟨ls, by rw [initThreads, if_pos hone]; exact hls, hfills⟩
  · obtain ⟨l, hl, hfills⟩ := initDatasetWrapper_fills cache hasAVX2 0
      datasetItemCount (by rw [toNat_datasetItemCount]; omega) (Nat.le_refl _)
    refine ⟨[l], by rw [initThreads, if_neg hone, hl]; rfl, ?_⟩
    rw [List.flatten_singleton]
    exact hfills

/-- the threads of `RxDataset::init` in front of their first store -/
def dataPool (ls : List (List (Op Nat Byte))) (memory : Bytes) : Pool (Fin ls.length) Nat Byte :=
  ⟨ls.get, memory⟩

theorem mem_flatten_iff {ls : List (List (Op Nat Byte))} {q : Op Nat Byte} :
    q ∈ ls.flatten ↔ ∃ t : Fin ls.length, q ∈ ls.get t := by
  rw [List.mem_flatten]
  refine ⟨fun h => ?_, fun h => ?_⟩
  · obtain ⟨l, hl, hq⟩ := h
    obtain ⟨t, rfl⟩ := List.get_of_mem hl
    exact ⟨t, hq⟩
  · obtain ⟨t, hq⟩ := h
    exact ⟨_, List.get_mem ls t, hq⟩

/-- the threads fill the dataset in whatever order they run, and touch nothing behind it -/
theorem initThreads_spec (hasAVX2 : Bool) (h : 5 * numThreads.toNat ≤ 34078719)
    (memory : Bytes) : ∃ ls, initThreads hasAVX2 cache numThreads = some ls ∧
      ∀ p, Reaches (dataPool ls memory) p →
        (∀ a, p.store a = memory a ∨ p.store a = cache.byte a ∧ a < datasetSize) ∧
        (p.Joined → ∀ a, p.store a = if a < datasetSize then cache.byte a else memory a) := by
  obtain ⟨ls, hls, hfills⟩ := initThreads_fills cache hasAVX2 h
  have hputs : (dataPool ls memory).Puts cache.byte := fun t q hq =>
    hfills.puts q (mem_flatten_iff.mpr ⟨t, hq⟩)
  have hwrites : ∀ a, (dataPool ls memory).Writes a ↔ a < datasetSize := fun a => by
    have hiff : (∃ q ∈ ls.flatten, q.Writes a) ↔ (dataPool ls memory).Writes a := by
      simp only [mem_flatten_iff, Pool.Writes]
      exact ⟨fun ⟨q, ⟨t, hq⟩, hw⟩ => ⟨t, q, hq, hw⟩, fun ⟨t, q, hq, hw⟩ => ⟨q, ⟨t, hq⟩, hw⟩⟩
    rw [← hiff, hfills.writes]
    show _ ↔ a < 2181038016
    omega
  refine ⟨ls, hls, fun p hp => ⟨fun a => ?_, fun hend a => ?_⟩⟩
  · exact (hp.cell hputs a).imp_right (And.imp_right (hwrites a).mp)
  · obtain ⟨hin, hout⟩ := hp.filled hputs hend a
    by_cases ha : a < datasetSize
    · rw [if_pos ha]
      exact hin ((hwrites a).mpr ha)
    · rw [if_neg ha]
      exact hout (fun hw => ha ((hwrites a).mp hw))

end

/-- **The dataset depends neither on the number of threads nor on their order**, nor on the loop in
use; and no thread touches what is behind it at any time. -/
theorem initThreads_filled (cache : Cache) (hasAVX2 hasAVX2' : Bool)
    {numThreads numThreads' : BitVec 32} (h : 5 * numThreads.toNat ≤ 34078719)
    (h' : 5 * numThreads'.toNat ≤ 34078719) (memory : Bytes) :
    ∃ ls ls', initThreads hasAVX2 cache numThreads = some ls ∧
      initThreads hasAVX2' cache numThreads' = some ls' ∧
      (∀ p, Reaches (dataPool ls memory) p → ∀ a, datasetSize ≤ a → p.store a = memory a) ∧
      ∀ p p', Reaches (dataPool ls memory) p → p.Joined → Reaches (dataPool ls' memory) p' →
        p'.Joined → p.store = p'.store := by
  obtain ⟨ls, hls, hfilled⟩ := initThreads_spec cache hasAVX2 h memory
  obtain ⟨ls', hls', hfilled'⟩ := initThreads_spec cache hasAVX2' h' memory
  refine ⟨ls, ls', hls, hls', fun p hp a ha => ?_, fun p p' hp hend hp' hend' => ?_⟩
  · exact ((hfilled p hp).1 a).resolve_right fun hin => absurd hin.2 (Nat.not_lt.mpr ha)
  · funext a
    rw [(hfilled p hp).2 hend, (hfilled' p' hp').2 hend']

/-- the cache of an empty key, where the hash function gives threes only -/
def Cache.threes : Cache :=
  (initCache (fun _ => List.replicate 64 3) 65 (fun _ _ _ => 0) (fun _ => 0) 0).get
    (initCache_isSome _ _ productive_threes _ _ _)

theorem initThreads_filled_four : ∃ ls ls', initThreads true Cache.threes 4 = some ls ∧
    initThreads false Cache.threes 1 = some ls' ∧
    (∀ p, Reaches (dataPool ls fun _ => 0) p → ∀ a, datasetSize ≤ a → p.store a = 0) ∧
    ∀ p p', Reaches (dataPool ls fun _ => 0) p → p.Joined →
      Reaches (dataPool ls' fun _ => 0) p' → p'.Joined → p.store = p'.store :=
  initThreads_filled Cache.threes true false (by show 5 * 4 ≤ 34078719; omega)
    (by show 5 * 1 ≤ 34078719; omega) fun _ => 0

/-! ## the two modes -/

/-- `InterpretedVm::datasetRead` -/
def fullRead (memory : Bytes) : DatasetRead := fun address i => load64 memory (address.toNat + 8 * i)

/-- `InterpretedLightVm::datasetRead`; `itemNumber` has 32 bits there -/
def lightRead (cache : Cache) : DatasetRead :=
  fun address => cache.item (((address / 64).setWidth 32).setWidth 64)

/-- a line of the full dataset is the item that the light mode computes -/
theorem fullRead_eq_lightRead {cache : Cache} {memory : Bytes}
    (h : ∀ a < datasetSize, memory a = cache.byte a) {address : Word}
    (ha : DatasetAddress address) : fullRead memory address = lightRead cache address := by
  have haligned := ha.aligned
  have hinside : address.toNat + 64 ≤ 2181038016 := ha.inside
  have hitem : ((address / 64).setWidth 32).setWidth 64 = BitVec.ofNat 64 (address.toNat / 64) := by
    apply BitVec.eq_of_toNat_eq
    rw [BitVec.toNat_setWidth, BitVec.toNat_setWidth, BitVec.toNat_udiv, BitVec.toNat_ofNat]
    show address.toNat / 64 % 2 ^ 32 % 2 ^ 64 = _
    omega
  funext i
  have hi := i.isLt
  unfold lightRead
  rw [hitem]
  refine (load64_eq_iff ..).mpr fun k hk => ?_
  have hword : Fin.ofNat 8 ((8 * i.val + k) / 8) = i := Fin.ext (by
    show (8 * i.val + k) / 8 % 8 = i.val
    omega)
  rw [h _ (by show _ < 2181038016; omega), Cache.byte, lineByte,
    show (address.toNat + 8 * i.val + k) / 64 = address.toNat / 64 by omega,
    show (address.toNat + 8 * i.val + k) % 64 = 8 * i.val + k by omega, hword,
    show (8 * i.val + k) % 8 = k by omega]

end Randx
