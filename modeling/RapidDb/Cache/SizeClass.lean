import Mathlib.Tactic.Common
import RapidDb.Cache.CachePool

/-!
# Sizes and the lists they belong to

`Apply` and `Release` compute from a size which of the lists of a thread has the block, or which
function of the system allocates or frees it. Both have a mask of their own for the sizes that the
system aligns, and the number of the list is cut to 16 bits.

A thread takes blocks from the pools and gives them back through its lists; the pools cut them from
buffers of their size. When that happens and with how many blocks is left open.
-/

namespace RapidDb

open Transition

namespace SizeClass

inductive Source where
  /-- `_localMap`, at a position. -/
  | pool (pos : Fin 28)
  /-- `aligned_alloc`, which goes with `free`. -/
  | aligned
  /-- `new Byte[]`, which goes with `delete[]`. -/
  | array
deriving DecidableEq, Repr

/-- `CalcBufSize`. -/
def calcBufSize (sz : UInt32) : UInt32 :=
  if sz ≤ 64 then (sz - 1) >>> 4
  else if sz ≤ 256 then ((sz - 1) >>> 5) + 2
  else if sz ≤ 1024 then ((sz - 1) >>> 7) + 8
  else if sz ≤ 4096 then ((sz - 1) >>> 9) + 14
  else if sz ≤ 16384 then ((sz - 1) >>> 11) + 20
  else 0xFFFFFFFF

/-- `MallocLargeBlock`. -/
def mallocLargeBlock (bufSize : UInt32) : Source :=
  if bufSize &&& 0x3FFF = 0 then .aligned else .array

/-- `FreeLargeBlock`. -/
def freeLargeBlock (bufSize : UInt32) : Source :=
  if bufSize &&& 0xFFF = 0 then .aligned else .array

/-- The list at a position, which is cut to 16 bits; none behind the end of the lists. -/
def localList (pos : UInt32) : Option Source :=
  if inside : pos.toUInt16.toNat < 28 then some (.pool ⟨pos.toUInt16.toNat, inside⟩) else none

/-- From where `Apply` takes a block. -/
def applySource (bufSize : UInt32) : Option Source :=
  if calcBufSize bufSize = 0xFFFFFFFF then some (mallocLargeBlock bufSize)
  else localList (calcBufSize bufSize)

/-- To where `Release` gives a block. -/
def releaseSource (bufSize : UInt32) : Option Source :=
  if calcBufSize bufSize = 0xFFFFFFFF then some (freeLargeBlock bufSize)
  else localList (calcBufSize bufSize)

/-- How many bytes a block has that has been asked for with a size. -/
def Source.length (bufSize : UInt32) : Source → ℕ
  | pool pos => arrSzMap pos
  | aligned | array => bufSize.toNat

/-- `Apply` finds a block of at least the size, and `Release` gives it back to where it was. -/
def Matches (bufSize : UInt32) : Prop :=
  ∃ source, applySource bufSize = some source ∧ releaseSource bufSize = some source ∧
    bufSize.toNat ≤ source.length bufSize

/-- The size is not zero, and no large one that the two masks take differently. -/
def SizeOk (bufSize : UInt32) : Prop :=
  0 < bufSize.toNat ∧
    (bufSize.toNat ≤ 16384 ∨ bufSize.toNat % 4096 ≠ 0 ∨ bufSize.toNat % 16384 = 0)

instance (bufSize : UInt32) : Decidable (SizeOk bufSize) := by
  unfold SizeOk
  infer_instance

structure Block where
  source : Source
  length : ℕ
  address : ℕ
deriving DecidableEq, Repr

structure SizedCache where
  /-- `_arrVctByte` of each thread. -/
  arrVctByte : ℕ → Fin 28 → List Block := fun _ _ => []
  /-- The free blocks of the buffer pools. -/
  arrayPool : Fin 28 → List Block := fun _ => []
  /-- What callers have, with the size they asked for. -/
  applied : List (Block × UInt32) := []
  /-- A list behind the end has been used, or memory was freed by the wrong function. -/
  fault : Bool := false

inductive SizedEvent where
  /-- A pool cuts a block of its size. -/
  | cut (pos : Fin 28) (address : ℕ)
  /-- `BatchApply` and `BatchRelease` with a list of a thread. -/
  | batchApply (thread : ℕ) (pos : Fin 28) (num : ℕ)
  | batchRelease (thread : ℕ) (pos : Fin 28) (num : ℕ)
  | apply (thread : ℕ) (bufSize : UInt32) (address : ℕ)
  /-- A caller gives back a block with the size it asked for. -/
  | release (thread : ℕ) (block : Block) (bufSize : UInt32)
deriving DecidableEq, Repr

namespace SizedCache

def setVct (cache : SizedCache) (thread : ℕ) (pos : Fin 28) (vctByte : List Block) : SizedCache :=
  { cache with
    arrVctByte := Function.update cache.arrVctByte thread
      (Function.update (cache.arrVctByte thread) pos vctByte) }

def setPool (cache : SizedCache) (pos : Fin 28) (blocks : List Block) : SizedCache :=
  { cache with arrayPool := Function.update cache.arrayPool pos blocks }

/-- One step; none if it is not possible now. -/
def next (cache : SizedCache) : SizedEvent → Option SizedCache
  | .cut pos address =>
      some (cache.setPool pos (⟨.pool pos, arrSzMap pos, address⟩ :: cache.arrayPool pos))
  | .batchApply thread pos num =>
      some ((cache.setVct thread pos
        (cache.arrVctByte thread pos ++ (cache.arrayPool pos).take num)).setPool pos
          ((cache.arrayPool pos).drop num))
  | .batchRelease thread pos num =>
      some ((cache.setVct thread pos ((cache.arrVctByte thread pos).take num)).setPool pos
        (cache.arrayPool pos ++ (cache.arrVctByte thread pos).drop num))
  | .apply thread bufSize address =>
      match applySource bufSize with
      | none => some { cache with fault := true }
      | some (.pool pos) => (cache.arrVctByte thread pos).getLast?.map fun block =>
          { cache.setVct thread pos (cache.arrVctByte thread pos).dropLast with
            applied := (block, bufSize) :: cache.applied }
      | some source =>
          some { cache with applied := (⟨source, bufSize.toNat, address⟩, bufSize) ::
            cache.applied }
  | .release thread block bufSize =>
      if (block, bufSize) ∈ cache.applied then
        let rest := { cache with applied := cache.applied.erase (block, bufSize) }
        match releaseSource bufSize with
        | none => some { rest with fault := true }
        | some (.pool pos) => some (rest.setVct thread pos (cache.arrVctByte thread pos ++ [block]))
        | some source => some { rest with fault := cache.fault || decide (block.source ≠ source) }
      else none

def Regular (_ : SizedCache) : SizedEvent → Prop
  | .apply _ bufSize _ => SizeOk bufSize
  | _ => True

instance (cache : SizedCache) (event : SizedEvent) : Decidable (cache.Regular event) := by
  cases event <;> dsimp only [Regular] <;> infer_instance

/-- Every block is in a list of its class or with a caller, who has got enough bytes. -/
structure Classed (cache : SizedCache) : Prop where
  lists : ∀ thread pos, ∀ block ∈ cache.arrVctByte thread pos,
    block.source = .pool pos ∧ block.length = arrSzMap pos
  pools : ∀ pos, ∀ block ∈ cache.arrayPool pos, block.source = .pool pos ∧
    block.length = arrSzMap pos
  applied : ∀ entry ∈ cache.applied, entry.2.toNat ≤ entry.1.length ∧
    entry.1.length = entry.1.source.length entry.2 ∧
    applySource entry.2 = some entry.1.source ∧ releaseSource entry.2 = some entry.1.source
  fault : cache.fault = false

end SizedCache

/-! ## Positions -/

theorem toNat_calcBufSize {sz : UInt32} (positive : 0 < sz.toNat) :
    (calcBufSize sz).toNat =
      if sz.toNat ≤ 64 then (sz.toNat - 1) / 16
      else if sz.toNat ≤ 256 then (sz.toNat - 1) / 32 + 2
      else if sz.toNat ≤ 1024 then (sz.toNat - 1) / 128 + 8
      else if sz.toNat ≤ 4096 then (sz.toNat - 1) / 512 + 14
      else if sz.toNat ≤ 16384 then (sz.toNat - 1) / 2048 + 20
      else 4294967295 := by
  have isLess : (1 : UInt32) ≤ sz := UInt32.le_iff_toNat_le.mpr positive
  have less := sz.toNat_lt
  unfold calcBufSize
  simp only [UInt32.le_iff_toNat_le, apply_ite UInt32.toNat, UInt32.toNat_add,
    UInt32.toNat_shiftRight, UInt32.toNat_sub_of_le _ _ isLess, Nat.shiftRight_eq_div_pow,
    UInt32.reduceToNat, Nat.reduceMod, Nat.reducePow]
  split_ifs <;> omega

theorem le_arrSzMap (step base low high : ℕ) {n p : ℕ} (positive : 0 < step)
    (isPos : (n - 1) / step + base = p) (above : low ≤ p) (below : p < high) (end_le : high ≤ 28)
    (sizes : ∀ pos : Fin 28, low ≤ pos.val → pos.val < high →
      arrSzMap pos = step * (pos.val - base + 1)) :
    ∃ pos : Fin 28, p = pos ∧ n ≤ arrSzMap pos := by
  refine ⟨⟨p, below.trans_le end_le⟩, rfl, ?_⟩
  rw [sizes _ above below]
  have fits : n - 1 < step * ((n - 1) / step + 1) := Nat.lt_mul_div_succ _ positive
  have same : p - base = (n - 1) / step := by rw [← isPos, Nat.add_sub_cancel]
  change n ≤ step * (p - base + 1)
  rw [same]
  omega

theorem calcBufSize_small {sz : UInt32} (positive : 0 < sz.toNat) (small : sz.toNat ≤ 16384) :
    ∃ pos : Fin 28, (calcBufSize sz).toNat = pos ∧ sz.toNat ≤ arrSzMap pos := by
  rw [toNat_calcBufSize positive]
  split_ifs
  · apply le_arrSzMap 16 0 0 4 (by omega) rfl (by omega) (by omega) (by omega)
    decide
  · apply le_arrSzMap 32 2 4 10 (by omega) rfl (by omega) (by omega) (by omega)
    decide
  · apply le_arrSzMap 128 8 10 16 (by omega) rfl (by omega) (by omega) (by omega)
    decide
  · apply le_arrSzMap 512 14 16 22 (by omega) rfl (by omega) (by omega) (by omega)
    decide
  · apply le_arrSzMap 2048 20 22 28 (by omega) rfl (by omega) (by omega) (by omega)
    decide

theorem localList_eq {pos : UInt32} {place : Fin 28} (isPos : pos.toNat = place) :
    localList pos = some (.pool place) := by
  have cut : pos.toUInt16.toNat = place := by
    rw [UInt32.toNat_toUInt16, isPos]
    exact Nat.mod_eq_of_lt (place.isLt.trans (by decide))
  unfold localList
  rw [dif_pos (cut ▸ place.isLt)]
  congr 2
  exact Fin.ext cut

theorem sources_small {sz : UInt32} (positive : 0 < sz.toNat) (small : sz.toNat ≤ 16384) :
    ∃ pos, applySource sz = some (.pool pos) ∧ releaseSource sz = some (.pool pos) ∧
      sz.toNat ≤ arrSzMap pos := by
  rcases calcBufSize_small positive small with ⟨pos, isPos, fits⟩
  have notLarge : calcBufSize sz ≠ 0xFFFFFFFF := by
    intro large
    have less := pos.isLt
    rw [← isPos, large] at less
    exact absurd less (by decide)
  refine ⟨pos, ?_, ?_, fits⟩
  · rw [applySource, if_neg notLarge, localList_eq isPos]
  · rw [releaseSource, if_neg notLarge, localList_eq isPos]

theorem sources_large {sz : UInt32} (large : 16384 < sz.toNat) :
    applySource sz = some (mallocLargeBlock sz) ∧ releaseSource sz = some (freeLargeBlock sz) := by
  have isLarge : calcBufSize sz = 0xFFFFFFFF := by
    apply UInt32.toNat_inj.mp
    rw [toNat_calcBufSize (by omega)]
    rw [if_neg (by omega), if_neg (by omega), if_neg (by omega), if_neg (by omega),
      if_neg (by omega)]
    rfl
  exact ⟨by rw [applySource, if_pos isLarge], by rw [releaseSource, if_pos isLarge]⟩

theorem mallocLargeBlock_eq (sz : UInt32) :
    mallocLargeBlock sz = if sz.toNat % 16384 = 0 then .aligned else .array := by
  have mask : sz &&& 0x3FFF = 0 ↔ sz.toNat % 16384 = 0 := by
    rw [← UInt32.toNat_inj, UInt32.toNat_and]
    exact Nat.and_two_pow_sub_one_eq_mod sz.toNat 14 ▸ Iff.rfl
  simp only [mallocLargeBlock, mask]

theorem freeLargeBlock_eq (sz : UInt32) :
    freeLargeBlock sz = if sz.toNat % 4096 = 0 then .aligned else .array := by
  have mask : sz &&& 0xFFF = 0 ↔ sz.toNat % 4096 = 0 := by
    rw [← UInt32.toNat_inj, UInt32.toNat_and]
    exact Nat.and_two_pow_sub_one_eq_mod sz.toNat 12 ▸ Iff.rfl
  simp only [freeLargeBlock, mask]

theorem largeBlock_iff (sz : UInt32) :
    mallocLargeBlock sz = freeLargeBlock sz ↔ sz.toNat % 4096 ≠ 0 ∨ sz.toNat % 16384 = 0 := by
  rw [mallocLargeBlock_eq, freeLargeBlock_eq]
  by_cases coarse : sz.toNat % 16384 = 0
  · have fine : sz.toNat % 4096 = 0 := by omega
    simp [coarse, fine]
  · by_cases fine : sz.toNat % 4096 = 0
    · simp [coarse, fine]
    · simp [coarse, fine]

theorem matches_iff (sz : UInt32) : Matches sz ↔ SizeOk sz := by
  unfold SizeOk
  rcases Nat.eq_zero_or_pos sz.toNat with zero | positive
  · have isZero : sz = 0 := UInt32.toNat_inj.mp zero
    subst isZero
    constructor
    · rintro ⟨source, applied, -⟩
      rw [show applySource 0 = none by decide] at applied
      cases applied
    · rintro ⟨positive, -⟩
      exact absurd positive (by decide)
  · rcases Nat.lt_or_ge 16384 sz.toNat with large | small
    · rcases sources_large large with ⟨applied, released⟩
      have enough : sz.toNat ≤ (mallocLargeBlock sz).length sz := by
        rw [mallocLargeBlock_eq]
        split <;> exact le_rfl
      have agree : Matches sz ↔ mallocLargeBlock sz = freeLargeBlock sz := by
        unfold Matches
        rw [applied, released]
        constructor
        · rintro ⟨source, one, other, -⟩
          exact Option.some.inj (one.trans other.symm)
        · intro same
          exact ⟨_, rfl, congrArg some same.symm, enough⟩
      rw [agree, largeBlock_iff]
      constructor
      · exact fun same => ⟨positive, Or.inr same⟩
      · rintro ⟨-, isSmall | same⟩
        · exact absurd isSmall (Nat.not_le.mpr large)
        · exact same
    · rcases sources_small positive small with ⟨pos, applied, released, fits⟩
      exact ⟨fun _ => ⟨positive, Or.inl small⟩, fun _ => ⟨_, applied, released, fits⟩⟩

/-! ## Runs -/

namespace SizedCache

variable {cache cache' : SizedCache}

theorem arrVctByte_setVct (cache : SizedCache) (thread other : ℕ) (pos place : Fin 28)
    (vctByte : List Block) : (cache.setVct thread pos vctByte).arrVctByte other place =
      if other = thread ∧ place = pos then vctByte else cache.arrVctByte other place := by
  unfold setVct
  by_cases same : other = thread <;> simp [Function.update_apply, same]

theorem arrayPool_setPool (cache : SizedCache) (pos place : Fin 28) (blocks : List Block) :
    (cache.setPool pos blocks).arrayPool place =
      if place = pos then blocks else cache.arrayPool place := by
  simp [setPool, Function.update_apply]

theorem Classed.setVct (classed : cache.Classed) (thread : ℕ) (pos : Fin 28) {vctByte : List Block}
    (blocks : ∀ block ∈ vctByte, block.source = .pool pos ∧ block.length = arrSzMap pos) :
    (cache.setVct thread pos vctByte).Classed := by
  refine { classed with lists := ?_ }
  intro other place block isBlock
  rw [arrVctByte_setVct] at isBlock
  split at isBlock
  · rename_i same
    rw [same.2]
    exact blocks block isBlock
  · exact classed.lists other place block isBlock

theorem Classed.setPool (classed : cache.Classed) (pos : Fin 28) {blocks : List Block}
    (cut : ∀ block ∈ blocks, block.source = .pool pos ∧ block.length = arrSzMap pos) :
    (cache.setPool pos blocks).Classed := by
  refine { classed with pools := ?_ }
  intro place block isBlock
  rw [arrayPool_setPool] at isBlock
  split at isBlock
  · rename_i same
    rw [same]
    exact cut block isBlock
  · exact classed.pools place block isBlock

theorem Classed.give (classed : cache.Classed) {block : Block} {bufSize : UInt32}
    (sizeOk : SizeOk bufSize) (source : applySource bufSize = some block.source)
    (length : block.length = block.source.length bufSize) :
    ({ cache with applied := (block, bufSize) :: cache.applied } : SizedCache).Classed := by
  refine { classed with applied := ?_ }
  intro entry isEntry
  rcases List.mem_cons.mp isEntry with rfl | old
  · rcases (matches_iff bufSize).mpr sizeOk with ⟨source', applied, released, enough⟩
    rw [source] at applied
    cases applied
    exact ⟨length ▸ enough, length, source, released⟩
  · exact classed.applied entry old

theorem Classed.next (classed : cache.Classed) {event : SizedEvent} (regular : cache.Regular event)
    (step : cache.next event = some cache') : cache'.Classed := by
  cases event with
  | cut pos address =>
      cases step
      apply classed.setPool
      intro block isBlock
      rcases List.mem_cons.mp isBlock with rfl | old
      · exact ⟨rfl, rfl⟩
      · exact classed.pools pos block old
  | batchApply thread pos num =>
      cases step
      refine (classed.setVct thread pos ?_).setPool pos ?_
      · intro block isBlock
        rcases List.mem_append.mp isBlock with old | taken
        · exact classed.lists thread pos block old
        · exact classed.pools pos block (List.mem_of_mem_take taken)
      · exact fun block left => classed.pools pos block (List.mem_of_mem_drop left)
  | batchRelease thread pos num =>
      cases step
      refine (classed.setVct thread pos ?_).setPool pos ?_
      · exact fun block left => classed.lists thread pos block (List.mem_of_mem_take left)
      · intro block isBlock
        rcases List.mem_append.mp isBlock with old | given
        · exact classed.pools pos block old
        · exact classed.lists thread pos block (List.mem_of_mem_drop given)
  | apply thread bufSize address =>
      unfold SizedCache.next at step
      dsimp only at step
      split at step
      · rename_i none
        rcases (matches_iff bufSize).mpr regular with ⟨source, applied, -⟩
        rw [none] at applied
        cases applied
      · rename_i pos isPool
        rcases Option.map_eq_some_iff.mp step with ⟨block, isLast, rfl⟩
        have isBlock := List.mem_of_getLast? isLast
        rcases classed.lists thread pos block isBlock with ⟨source, length⟩
        have taken : (cache.setVct thread pos (cache.arrVctByte thread pos).dropLast).Classed :=
          classed.setVct thread pos fun other left =>
            classed.lists thread pos other ((List.dropLast_sublist _).subset left)
        exact taken.give regular (source ▸ isPool) (by rw [length, source]; rfl)
      · rename_i source notPool isSource
        cases step
        refine classed.give regular isSource ?_
        cases source with
        | pool pos => exact absurd rfl (notPool pos)
        | aligned | array => rfl
  | release thread block bufSize =>
      rcases Option.ite_none_right_eq_some.mp step with ⟨isApplied, step⟩
      rcases classed.applied _ isApplied with ⟨-, length, -, released⟩
      have rest : ({ cache with applied := cache.applied.erase (block, bufSize) } :
          SizedCache).Classed :=
        { classed with applied := fun entry isEntry =>
            classed.applied entry (List.mem_of_mem_erase isEntry) }
      dsimp only at step released length
      rw [released] at step
      cases isSource : block.source with
      | pool pos =>
          rw [isSource] at step
          cases step
          apply rest.setVct
          intro other isOther
          rcases List.mem_append.mp isOther with old | new
          · exact classed.lists thread pos other old
          · rw [List.mem_singleton.mp new]
            exact ⟨isSource, by rw [length, isSource]; rfl⟩
      | aligned | array =>
          rw [isSource] at step
          cases step
          exact { rest with fault := by simp [classed.fault] }

theorem classed_new : ({} : SizedCache).Classed :=
  ⟨fun _ _ _ isBlock => (nomatch isBlock), fun _ _ isBlock => (nomatch isBlock),
    fun _ isEntry => (nomatch isEntry), rfl⟩

/-- The functions match on a size exactly if it meets the condition, and in every run of calls with
such sizes each block stays in its class. -/
theorem classed_of_regular (run : Reaches next Regular {} cache) :
    cache.Classed ∧ ∀ sz, Matches sz ↔ SizeOk sz :=
  ⟨run.preserves classed_new fun _ _ _ regular classed step => classed.next regular step,
    matches_iff⟩

/-- A page, a small block and a large one are applied for and given back. -/
theorem classed_of_regular_blocks : ∃ cache, Reaches next Regular {} cache ∧
    cache.applied = [] ∧ cache.arrVctByte 0 27 = [⟨.pool 27, 16384, 4096⟩] ∧
    cache.Classed ∧ ∀ sz, Matches sz ↔ SizeOk sz := by
  have runs : (execPermitted next Regular [.cut 27 4096, .cut 0 64, .batchApply 0 27 4,
      .batchApply 0 0 4, .apply 0 16384 0, .apply 0 1 0, .apply 0 32768 65536,
      .release 0 ⟨.pool 27, 16384, 4096⟩ 16384, .release 1 ⟨.pool 0, 16, 64⟩ 1,
      .release 1 ⟨.aligned, 32768, 65536⟩ 32768] {}).map
      (fun cache => (cache.applied, cache.arrVctByte 0 27)) =
        some ([], [⟨.pool 27, 16384, 4096⟩]) := by
    decide +kernel
  rcases Option.map_eq_some_iff.mp runs with ⟨cache, execution, valuesAre⟩
  rcases Prod.mk.inj valuesAre with ⟨applied, list⟩
  have run := reaches_of_execPermitted _ execution
  exact ⟨cache, run, applied, list, classed_of_regular run⟩

/-- A block of 20480 bytes comes from `new Byte[]` and goes to `free`, and a size of zero has no
list. -/
theorem not_classed : applySource 20480 = some .array ∧ releaseSource 20480 = some .aligned ∧
    applySource 0 = none ∧ ¬(∀ sz, Matches sz) ∧
    ¬∀ cache, Reaches next anyInput {} cache → cache.Classed := by
  refine ⟨by decide, by decide, by decide, ?_, ?_⟩
  · intro always
    rcases always 20480 with ⟨source, applied, released, -⟩
    rw [show applySource 20480 = some .array by decide] at applied
    rw [show releaseSource 20480 = some .aligned by decide] at released
    cases applied
    cases released
  · intro always
    have runs : (exec next [.apply 0 20480 65536, .release 0 ⟨.array, 20480, 65536⟩ 20480] {}).map
        SizedCache.fault = some true := by
      decide +kernel
    rcases Option.map_eq_some_iff.mp runs with ⟨cache, execution, faulty⟩
    rw [(always cache (reaches_of_exec _ execution)).fault] at faulty
    cases faulty

end SizedCache

end SizeClass

end RapidDb
