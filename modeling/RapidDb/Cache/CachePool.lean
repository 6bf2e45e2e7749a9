import Mathlib.Data.Fin.VecNotation
import Mathlib.Data.List.FinRange
import Mathlib.Logic.Function.Basic
import RapidDb.Cache.BufferPool
import RapidDb.Library.Holders
import RapidDb.Library.Transition

/-!
# Memory blocks

There is a pool of buffers for each size of blocks. Threads take blocks from the pools through lists
of their own (`LocalMap`), or call the pools themselves, with a single block or with a vector.

The calls of all threads run at the same time. A call holds the mutex of its pool, and what is one
step here is a part of it that touches what the pools share at most once: a call for a single block,
or one iteration of the loop of a call with a vector. Which element of a hash map comes first, and
where the system allocates memory, are numbers of a step.
-/

namespace RapidDb

open Transition

/-- `_arrSzMap`. -/
def arrSzMap : Fin 28 → ℕ :=
  ![16, 32, 48, 64, 96, 128, 160, 192, 224, 256, 384, 512, 640, 768, 896, 1024, 1536, 2048, 2560,
    3072, 3584, 4096, 6144, 8192, 10240, 12288, 14336, 16384]

/-- `Configure::GetMaxFreeBufferCount()`. -/
def maxFreeBufferCount : ℕ := 128

structure BufferPool where
  eleSize : ℕ
  mapBuffer : List Buffer := []
  /-- The keys of the map; its values are those of `mapBuffer`. -/
  mapFreeBuffer : List ℕ := []
  /-- The vector of the call that holds the mutex. -/
  spinMutex : Option ℕ := none
deriving DecidableEq, Repr

/-- What a thread is doing with a vector. -/
inductive VctStage where
  | idle
  /-- In `BufferPool::Apply`; behind it the last block is to be returned, or not. -/
  | applying (pop : Bool)
  /-- In `BufferPool::Release`; behind it a block is to be put into the vector, or none. -/
  | releasing (bAll : Bool) (push : Option ℕ)
deriving DecidableEq, Repr

/-- A vector of a `LocalMap`, or one with which a thread calls a pool. -/
structure Vct where
  pos : Fin 28
  capacity : ℕ
  bys : List ℕ
  stage : VctStage := .idle
deriving DecidableEq, Repr

structure CachePool where
  arrayPool : Fin 28 → BufferPool
  /-- The last element first. -/
  vctFreeBuf : List Buffer := []
  vcts : List Vct := []
  /-- The blocks that callers have, with the pool they come from. -/
  owned : List (Fin 28 × ℕ) := []

inductive CacheEvent where
  /-- `BufferPool::Apply()`. -/
  | apply (pos : Fin 28) (pick fresh : ℕ)
  /-- `BufferPool::Release(Byte *)`. -/
  | release (pos : Fin 28) (bys : ℕ)
  /-- A vector is made, for a `LocalMap` or from blocks that its maker has. -/
  | newVct (pos : Fin 28) (capacity : ℕ) (bys : List ℕ)
  /-- The owner of a vector takes all blocks out of it. -/
  | unload (k : ℕ)
  /-- `LocalMap::Pop`, up to the loop of `BufferPool::Apply` if it is called. -/
  | pop (k : ℕ)
  /-- `LocalMap::Push`, up to the loop of `BufferPool::Release` if it is called. -/
  | push (k bys : ℕ)
  /-- `BatchApply` up to its loop. -/
  | batchApply (k : ℕ)
  /-- `BatchRelease` up to its loop. -/
  | batchRelease (k : ℕ) (bAll : Bool)
  /-- One iteration of the loop of a call, or what is behind the loop. -/
  | iterate (k pick fresh : ℕ)
deriving DecidableEq, Repr

namespace BufferPool

/-- `CachePool::AllocateBuffer`. -/
def allocateBuffer (vctFreeBuf : List Buffer) (eleLen fresh : ℕ) : Buffer × List Buffer :=
  match vctFreeBuf with
  | [] => (Buffer.init fresh eleLen, [])
  | buf :: rest => (Buffer.init buf.pBuf eleLen, rest)

/-- `CachePool::RecycleBuffer`. -/
def recycleBuffer (vctFreeBuf : List Buffer) (buf : Buffer) : List Buffer :=
  if vctFreeBuf.length > maxFreeBufferCount then vctFreeBuf else buf :: vctFreeBuf

/-- Where a buffer is in `_mapBuffer`. -/
def find (pool : BufferPool) (buf : ℕ) : Option ℕ :=
  pool.mapBuffer.findIdx? fun buffer => buffer.pBuf == buf

/-- A new buffer is entered into both maps. -/
def addBuffer (pool : BufferPool) (buff : Buffer) : BufferPool :=
  { pool with
    mapBuffer := pool.mapBuffer ++ [buff]
    mapFreeBuffer := pool.mapFreeBuffer ++ [buff.pBuf] }

def setBuffer (pool : BufferPool) (i : ℕ) (buffer : Buffer) : BufferPool :=
  { pool with mapBuffer := pool.mapBuffer.set i buffer }

/-- A buffer whose last free block has been taken is erased from the map of free buffers. -/
def afterApply (pool : BufferPool) (i : ℕ) (buffer : Buffer) : BufferPool :=
  if buffer.isEmpty then
    { pool.setBuffer i buffer with mapFreeBuffer := pool.mapFreeBuffer.erase buffer.pBuf }
  else
    pool.setBuffer i buffer

/-- A full buffer is recycled and erased from both maps. -/
def afterRelease (pool : BufferPool) (vctFreeBuf : List Buffer) (i : ℕ) (buffer : Buffer) :
    BufferPool × List Buffer :=
  if buffer.isFull then
    ({ pool with
        mapBuffer := pool.mapBuffer.eraseIdx i
        mapFreeBuffer := pool.mapFreeBuffer.erase buffer.pBuf },
      recycleBuffer vctFreeBuf buffer)
  else
    (pool.setBuffer i buffer, vctFreeBuf)

/-- `BufferPool::Apply()`; none if it faults. A new buffer is not looked at again behind its first
block. -/
def apply (pool : BufferPool) (vctFreeBuf : List Buffer) (pick fresh : ℕ) :
    Option (ℕ × BufferPool × List Buffer) :=
  if pool.mapFreeBuffer = [] then do
    let new := allocateBuffer vctFreeBuf pool.eleSize fresh
    let (bys, buff) ← new.1.apply
    some (bys, pool.addBuffer buff, new.2)
  else do
    let buf ← pool.mapFreeBuffer[pick]?
    let i ← pool.find buf
    let buffer ← pool.mapBuffer[i]?
    let (bys, buffer') ← buffer.apply
    some (bys, pool.afterApply i buffer', vctFreeBuf)

/-- `BufferPool::Release(Byte *)`; none if it faults. -/
def release (pool : BufferPool) (vctFreeBuf : List Buffer) (bys : ℕ) :
    Option (BufferPool × List Buffer) := do
  let i ← pool.find (Buffer.calcAddr bys)
  let buffer ← pool.mapBuffer[i]?
  some (pool.afterRelease vctFreeBuf i (buffer.release bys))

/-- One iteration of the loop of `BufferPool::Apply`; none if it faults. -/
def applyIteration (pool : BufferPool) (vctFreeBuf : List Buffer) (cap : ℕ) (vct : List ℕ)
    (pick fresh : ℕ) : Option (List ℕ × BufferPool × List Buffer) :=
  if pool.mapFreeBuffer = [] then
    let new := allocateBuffer vctFreeBuf pool.eleSize fresh
    let result := new.1.applyBatch cap vct
    some (result.2, (pool.addBuffer new.1).afterApply pool.mapBuffer.length result.1, new.2)
  else do
    let buf ← pool.mapFreeBuffer[pick]?
    let i ← pool.find buf
    let buffer ← pool.mapBuffer[i]?
    let result := buffer.applyBatch cap vct
    some (result.2, pool.afterApply i result.1, vctFreeBuf)

/-- One iteration of the loop of `BufferPool::Release`; none if it faults. -/
def releaseIteration (pool : BufferPool) (vctFreeBuf : List Buffer) (sz : ℕ) (vct : List ℕ) :
    Option (List ℕ × BufferPool × List Buffer) := do
  let bys ← vct.head?
  let i ← pool.find (Buffer.calcAddr bys)
  let buffer ← pool.mapBuffer[i]?
  let registered :=
    if buffer.isEmpty then
      { pool with mapFreeBuffer := pool.mapFreeBuffer.insert (Buffer.calcAddr bys) }
    else
      pool
  let result := buffer.releaseBatch sz vct
  some (result.2, registered.afterRelease vctFreeBuf i result.1)

end BufferPool

namespace Vct

/-- Up to how many elements a vector is filled. -/
def fillSize (vct : Vct) : ℕ := vct.capacity - vct.capacity / 4

/-- Down to how many elements a vector is emptied. -/
def restSize (vct : Vct) (bAll : Bool) : ℕ := if bAll then 0 else vct.capacity / 4

/-- A block that is to be put into the vector. -/
def inHand (vct : Vct) : List ℕ :=
  match vct.stage with
  | .releasing _ push => push.toList
  | _ => []

/-- The parameter of the release that works on the vector. -/
def bAll (vct : Vct) : Option Bool :=
  match vct.stage with
  | .releasing bAll _ => some bAll
  | _ => none

/-- The blocks of a vector, with the pool they come from. -/
def held (vct : Vct) : List (Fin 28 × ℕ) := (vct.bys ++ vct.inHand).map (vct.pos, ·)

end Vct

namespace CachePool

def new : CachePool where
  arrayPool pos := { eleSize := arrSzMap pos }

def setPool (cache : CachePool) (pos : Fin 28) (pool : BufferPool) : CachePool :=
  { cache with arrayPool := Function.update cache.arrayPool pos pool }

def setVct (cache : CachePool) (k : ℕ) (vct : Vct) : CachePool :=
  { cache with vcts := cache.vcts.set k vct }

/-- An aligned piece of memory that no buffer has. -/
def Fresh (cache : CachePool) (fresh : ℕ) : Prop :=
  fresh % cacheBlockSize = 0 ∧ fresh + cacheBlockSize ≤ 2 ^ 64 ∧
    (∀ pos, ∀ buffer ∈ (cache.arrayPool pos).mapBuffer, buffer.pBuf ≠ fresh) ∧
    ∀ buffer ∈ cache.vctFreeBuf, buffer.pBuf ≠ fresh

/-- Memory is there if it has to be allocated. -/
def Supplied (cache : CachePool) (pos : Fin 28) (fresh : ℕ) : Prop :=
  (cache.arrayPool pos).mapFreeBuffer = [] → cache.vctFreeBuf = [] → cache.Fresh fresh

instance (cache : CachePool) (fresh : ℕ) : Decidable (cache.Fresh fresh) :=
  inferInstanceAs (Decidable (fresh % cacheBlockSize = 0 ∧ fresh + cacheBlockSize ≤ 2 ^ 64 ∧
    (∀ pos, ∀ buffer ∈ (cache.arrayPool pos).mapBuffer, buffer.pBuf ≠ fresh) ∧
    ∀ buffer ∈ cache.vctFreeBuf, buffer.pBuf ≠ fresh))

instance (cache : CachePool) (pos : Fin 28) (fresh : ℕ) : Decidable (cache.Supplied pos fresh) :=
  inferInstanceAs (Decidable ((cache.arrayPool pos).mapFreeBuffer = [] → cache.vctFreeBuf = [] →
    cache.Fresh fresh))

/-- The call on a vector takes the mutex of its pool. -/
def start (cache : CachePool) (k : ℕ) (vct : Vct) (stage : VctStage) : Option CachePool :=
  let pool := cache.arrayPool vct.pos
  if pool.spinMutex = none then
    some ((cache.setPool vct.pos { pool with spinMutex := some k }).setVct k
      { vct with stage := stage })
  else
    none

/-- Behind the loop: the mutex is given back. -/
def finish (cache : CachePool) (k : ℕ) (vct : Vct) (bys : List ℕ) : CachePool :=
  let pool := cache.arrayPool vct.pos
  (cache.setPool vct.pos { pool with spinMutex := none }).setVct k
    { vct with bys := bys, stage := .idle }

/-- The last block of a vector is returned. -/
def takeLast (cache : CachePool) (k : ℕ) (vct : Vct) : Option CachePool :=
  vct.bys.getLast?.map fun bys =>
    { cache.finish k vct vct.bys.dropLast with owned := (vct.pos, bys) :: cache.owned }

/-- An iteration of the loop of the call on a vector, or what is behind the loop. -/
def iterate (cache : CachePool) (k : ℕ) (vct : Vct) (pick fresh : ℕ) : Option CachePool :=
  let pool := cache.arrayPool vct.pos
  match vct.stage with
  | .idle => none
  | .applying pop =>
      if vct.bys.length < vct.fillSize then
        if cache.Supplied vct.pos fresh then
          (pool.applyIteration cache.vctFreeBuf vct.fillSize vct.bys pick fresh).map
            fun (bys, pool', vctFreeBuf) =>
              { (cache.setPool vct.pos pool').setVct k { vct with bys := bys } with
                vctFreeBuf := vctFreeBuf }
        else
          none
      else if pop then cache.takeLast k vct
      else some (cache.finish k vct vct.bys)
  | .releasing bAll push =>
      if vct.restSize bAll < vct.bys.length then
        (pool.releaseIteration cache.vctFreeBuf (vct.restSize bAll) vct.bys).map
          fun (bys, pool', vctFreeBuf) =>
            { (cache.setPool vct.pos pool').setVct k { vct with bys := bys } with
              vctFreeBuf := vctFreeBuf }
      else
        some (cache.finish k vct (vct.bys ++ push.toList))

/-- One step; none if it is not possible now, or faults. -/
def next (cache : CachePool) : CacheEvent → Option CachePool
  | .apply pos pick fresh =>
      let pool := cache.arrayPool pos
      if pool.spinMutex = none ∧ cache.Supplied pos fresh then
        (pool.apply cache.vctFreeBuf pick fresh).map fun (bys, pool', vctFreeBuf) =>
          { cache.setPool pos pool' with
            vctFreeBuf := vctFreeBuf, owned := (pos, bys) :: cache.owned }
      else
        none
  | .release pos bys =>
      let pool := cache.arrayPool pos
      if pool.spinMutex = none ∧ (pos, bys) ∈ cache.owned then
        (pool.release cache.vctFreeBuf bys).map fun (pool', vctFreeBuf) =>
          { cache.setPool pos pool' with
            vctFreeBuf := vctFreeBuf, owned := cache.owned.erase (pos, bys) }
      else
        none
  | .newVct pos capacity bys =>
      if 0 < capacity ∧ bys.length ≤ capacity ∧ (bys.map (pos, ·)).Subperm cache.owned then
        some { cache with
          vcts := cache.vcts ++ [{ pos := pos, capacity := capacity, bys := bys }]
          owned := cache.owned.diff (bys.map (pos, ·)) }
      else
        none
  | .unload k => do
      let vct ← cache.vcts[k]?
      if vct.stage = .idle then
        some { cache.setVct k { vct with bys := [] } with owned := vct.held ++ cache.owned }
      else
        none
  | .pop k => do
      let vct ← cache.vcts[k]?
      if vct.stage = .idle then
        if vct.bys = [] then cache.start k vct (.applying true)
        else
          vct.bys.getLast?.map fun bys =>
            { cache.setVct k { vct with bys := vct.bys.dropLast } with
              owned := (vct.pos, bys) :: cache.owned }
      else
        none
  | .push k bys => do
      let vct ← cache.vcts[k]?
      if vct.stage = .idle ∧ (vct.pos, bys) ∈ cache.owned then
        let rest := { cache with owned := cache.owned.erase (vct.pos, bys) }
        if vct.capacity ≤ vct.bys.length then
          rest.start k vct (.releasing false (some bys))
        else
          some (rest.setVct k { vct with bys := vct.bys ++ [bys] })
      else
        none
  | .batchApply k => do
      let vct ← cache.vcts[k]?
      if vct.stage = .idle then cache.start k vct (.applying false) else none
  | .batchRelease k bAll => do
      let vct ← cache.vcts[k]?
      if vct.stage = .idle then cache.start k vct (.releasing bAll none) else none
  | .iterate k pick fresh => do
      let vct ← cache.vcts[k]?
      cache.iterate k vct pick fresh

/-- The loop of `Buffer::Release` over a vector has taken enough blocks before it comes to the first
block of the buddy of the buffer. -/
def SparesBuddy (sz : ℕ) : List ℕ → Prop
  | [] => True
  | first :: rest =>
      ∀ i < (first :: rest).length,
        (first :: rest)[i]? = some (buddy 17 (Buffer.calcAddr first)) →
        (first :: rest).length - sz ≤
          ((first :: rest).drop (i + 1)).countP
            fun bys => decide (Buffer.calcAddr bys = Buffer.calcAddr first)

def vctRegular (vct : Vct) : Prop :=
  ∀ bAll ∈ vct.bAll, SparesBuddy (vct.restSize bAll) vct.bys

/-- A single block is released into a buffer with free blocks, and a batch spares the first blocks
of buddies. -/
def Regular (cache : CachePool) : CacheEvent → Prop
  | .release pos bys => ∀ buffer ∈ (cache.arrayPool pos).mapBuffer,
      buffer.pBuf = Buffer.calcAddr bys → buffer.isEmpty = false
  | .iterate k _ _ => ∀ vct ∈ cache.vcts[k]?, vctRegular vct
  | _ => True

instance (sz : ℕ) (vct : List ℕ) : Decidable (SparesBuddy sz vct) :=
  match vct with
  | [] => isTrue trivial
  | _ :: _ => inferInstanceAs (Decidable (∀ _ < _, _))

instance (vct : Vct) : Decidable (vctRegular vct) :=
  inferInstanceAs (Decidable (∀ bAll ∈ vct.bAll, SparesBuddy (vct.restSize bAll) vct.bys))

instance (cache : CachePool) (event : CacheEvent) : Decidable (Regular cache event) :=
  match event with
  | .release pos bys => inferInstanceAs (Decidable (∀ buffer ∈ (cache.arrayPool pos).mapBuffer,
      buffer.pBuf = Buffer.calcAddr bys → buffer.isEmpty = false))
  | .iterate k _ _ => inferInstanceAs (Decidable (∀ vct ∈ cache.vcts[k]?, vctRegular vct))
  | .apply .. | .newVct .. | .unload _ | .pop _ | .push .. | .batchApply _ | .batchRelease .. =>
      isTrue trivial

/-- What has been taken from the buffers. -/
def outstanding (cache : CachePool) : List (Fin 28 × ℕ) :=
  cache.vcts.flatMap Vct.held ++ cache.owned

end CachePool

end RapidDb
