import Mathlib.Algebra.Order.BigOperators.Group.Finset
import RapidDb.Cache.CachePool

/-!
# Every block has one owner

The blocks of the buffers of a pool are free or taken. What is taken from a pool is known by its
addresses only, and a buffer that is not in the map of free buffers has no free block.
-/

namespace RapidDb

open Holders Transition

namespace BufferPool

/-- The keys of `_mapBuffer`. -/
def starts (pool : BufferPool) : List ℕ := pool.mapBuffer.map Buffer.pBuf

/-- What holds of a pool from which each address is taken as often as `taken` says. -/
structure Sound (pool : BufferPool) (taken : ℕ → ℕ) : Prop where
  lower : 3 ≤ pool.eleSize
  upper : 2 * pool.eleSize ≤ cacheBlockSize
  cut : ∀ buffer ∈ pool.mapBuffer, buffer.Cut
  eleSize_eq : ∀ buffer ∈ pool.mapBuffer, buffer.eleSize = pool.eleSize
  nodup : pool.starts.Nodup
  registered : ∀ buffer ∈ pool.mapBuffer, buffer.pBuf ∈ pool.mapFreeBuffer ↔ buffer.vctFree ≠ []
  known : ∀ buf ∈ pool.mapFreeBuffer, buf ∈ pool.starts
  keys : pool.mapFreeBuffer.Nodup
  balance : ∀ address, total Buffer.freeBlocks pool.mapBuffer address + taken address =
    total Buffer.blocks pool.mapBuffer address

variable {pool : BufferPool} {taken taken' : ℕ → ℕ} {buffer : Buffer} {i address buf : ℕ}

section

variable (sound : pool.Sound taken)

include sound

theorem Sound.eq_of_pBuf {other : Buffer} (mem : buffer ∈ pool.mapBuffer)
    (otherMem : other ∈ pool.mapBuffer) (same : buffer.pBuf = other.pBuf) : buffer = other :=
  List.inj_on_of_nodup_map sound.nodup mem otherMem same

theorem Sound.find_eq (mem : buffer ∈ pool.mapBuffer) :
    ∃ i, pool.find buffer.pBuf = some i ∧ pool.mapBuffer[i]? = some buffer := by
  cases result : pool.find buffer.pBuf with
  | none =>
      have differ := List.findIdx?_eq_none_iff.mp result buffer mem
      simp at differ
  | some i =>
      rcases List.findIdx?_eq_some_iff_getElem.mp result with ⟨less, same, _⟩
      refine ⟨i, rfl, ?_⟩
      rw [List.getElem?_eq_getElem less]
      apply congrArg some
      exact sound.eq_of_pBuf (List.getElem_mem less) mem (by simpa using same)

theorem Sound.find_known (mem : buf ∈ pool.starts) :
    ∃ i buffer, pool.find buf = some i ∧ pool.mapBuffer[i]? = some buffer ∧ buffer.pBuf = buf := by
  rcases List.mem_map.mp mem with ⟨buffer, bufferMem, rfl⟩
  rcases sound.find_eq bufferMem with ⟨i, found, get⟩
  exact ⟨i, buffer, found, get, rfl⟩

theorem Sound.mem_blocks_iff (mem : buffer ∈ pool.mapBuffer) :
    address ∈ buffer.blocks ↔ address ∈ pool.mapBuffer.flatMap Buffer.blocks ∧
      Buffer.calcAddr address = buffer.pBuf := by
  constructor
  · intro inBlocks
    exact ⟨List.mem_flatMap.mpr ⟨buffer, mem, inBlocks⟩,
      (sound.cut buffer mem).calcAddr_of_mem inBlocks⟩
  · rintro ⟨inPool, home⟩
    rcases List.mem_flatMap.mp inPool with ⟨other, otherMem, inBlocks⟩
    have otherHome := (sound.cut other otherMem).calcAddr_of_mem inBlocks
    rw [sound.eq_of_pBuf mem otherMem (home.symm.trans otherHome)]
    exact inBlocks

theorem Sound.nodup_blocks : (pool.mapBuffer.flatMap Buffer.blocks).Nodup := by
  refine List.nodup_flatMap.mpr ⟨fun buffer mem => (sound.cut buffer mem).nodup_blocks, ?_⟩
  refine (List.pairwise_map.mp sound.nodup).imp_of_mem ?_
  intro first second firstMem secondMem differ address inFirst inSecond
  apply differ
  rw [← (sound.cut first firstMem).calcAddr_of_mem inFirst,
    (sound.cut second secondMem).calcAddr_of_mem inSecond]

theorem Sound.mem_of_taken (out : 0 < taken address) :
    address ∈ pool.mapBuffer.flatMap Buffer.blocks := by
  apply List.count_pos_iff.mp
  have balance := sound.balance address
  unfold total at balance
  omega

theorem Sound.buffer_of_taken (out : 0 < taken address) :
    ∃ buffer ∈ pool.mapBuffer, buffer.pBuf = Buffer.calcAddr address ∧ address ∈ buffer.blocks := by
  rcases List.mem_flatMap.mp (sound.mem_of_taken out) with ⟨buffer, mem, inBlocks⟩
  exact ⟨buffer, mem, ((sound.cut buffer mem).calcAddr_of_mem inBlocks).symm, inBlocks⟩

theorem Sound.nodup_freeBlocks (mem : buffer ∈ pool.mapBuffer) : buffer.freeBlocks.Nodup := by
  have free : (pool.mapBuffer.flatMap Buffer.freeBlocks).Nodup := by
    apply List.nodup_iff_count_le_one.mpr
    intro address
    have once := List.nodup_iff_count_le_one.mp sound.nodup_blocks address
    have balance := sound.balance address
    unfold total at balance
    omega
  exact (List.nodup_flatMap.mp free).1 buffer mem

end

/-! ## Buffers of a pool -/

theorem starts_setBuffer (get : pool.mapBuffer[i]? = some buffer) {buffer' : Buffer}
    (same : buffer'.pBuf = buffer.pBuf) : (pool.setBuffer i buffer').starts = pool.starts := by
  rcases List.getElem?_eq_some_iff.mp get with ⟨less, rfl⟩
  apply List.ext_getElem (by simp [starts, setBuffer])
  intro j _ lessOld
  by_cases here : i = j
  · subst here
    simp [starts, setBuffer, same]
  · simp [starts, setBuffer, List.getElem_set_ne here]

/-- The free blocks of a buffer are replaced, and with them its entry in the map of free buffers. -/
theorem Sound.replace (sound : pool.Sound taken) (get : pool.mapBuffer[i]? = some buffer)
    {free keys : List ℕ} (inside : ∀ index ∈ free, index < buffer.maxEle) (nodup : keys.Nodup)
    (others : ∀ start, start ≠ buffer.pBuf → (start ∈ keys ↔ start ∈ pool.mapFreeBuffer))
    (own : buffer.pBuf ∈ keys ↔ free ≠ [])
    (moved : ∀ address, (free.map buffer.addressOf).count address + taken' address =
      buffer.freeBlocks.count address + taken address) :
    Sound { pool.setBuffer i { buffer with vctFree := free } with mapFreeBuffer := keys }
      taken' := by
  have mem : buffer ∈ pool.mapBuffer := List.mem_of_getElem? get
  have bound : i < pool.mapBuffer.length := (List.getElem?_eq_some_iff.mp get).1
  have here : pool.mapBuffer[i] = buffer := (List.getElem?_eq_some_iff.mp get).2
  have sameStarts := @starts_setBuffer _ _ _ get { buffer with vctFree := free } rfl
  have each : ∀ other ∈ pool.mapBuffer.set i { buffer with vctFree := free },
      other = { buffer with vctFree := free } ∨
        other ∈ pool.mapBuffer ∧ other.pBuf ≠ buffer.pBuf := by
    intro other otherMem
    rcases List.mem_iff_getElem.mp otherMem with ⟨j, less, rfl⟩
    rw [List.length_set] at less
    rw [List.getElem_set]
    split
    · exact Or.inl rfl
    · rename_i differ
      refine Or.inr ⟨List.getElem_mem less, fun same => differ ?_⟩
      have startsLess : j < pool.starts.length := by simpa [starts] using less
      have startsBound : i < pool.starts.length := by simpa [starts] using bound
      apply (@List.Nodup.getElem_inj_iff _ _ sound.nodup _ startsBound _ startsLess).mp
      simp [starts, here, same]
  refine ⟨sound.lower, sound.upper, ?_, ?_, ?_, ?_, ?_, nodup, ?_⟩
  · intro other otherMem
    rcases each other otherMem with rfl | ⟨old, _⟩
    · exact (sound.cut buffer mem).withFree inside
    · exact sound.cut other old
  · intro other otherMem
    rcases each other otherMem with rfl | ⟨old, _⟩
    · exact sound.eleSize_eq buffer mem
    · exact sound.eleSize_eq other old
  · exact sameStarts.symm ▸ sound.nodup
  · intro other otherMem
    rcases each other otherMem with rfl | ⟨old, differ⟩
    · exact own
    · exact (others _ differ).trans (sound.registered other old)
  · intro start inKeys
    change start ∈ (pool.setBuffer i { buffer with vctFree := free }).starts
    rw [sameStarts]
    by_cases same : start = buffer.pBuf
    · rw [same]
      exact List.mem_map_of_mem mem
    · exact sound.known start ((others start same).mp inKeys)
  · intro address
    have frees := total_set Buffer.freeBlocks { buffer with vctFree := free } get address
    have blocks := total_set Buffer.blocks { buffer with vctFree := free } get address
    have old := sound.balance address
    have change_ := moved address
    have same : ({ buffer with vctFree := free } : Buffer).blocks = buffer.blocks := rfl
    have new : ({ buffer with vctFree := free } : Buffer).freeBlocks =
      free.map buffer.addressOf := rfl
    rw [same] at blocks
    rw [new] at frees
    change total Buffer.freeBlocks (pool.mapBuffer.set i _) address + taken' address =
      total Buffer.blocks (pool.mapBuffer.set i _) address
    omega

theorem Sound.add (sound : pool.Sound taken) (cut : buffer.Cut)
    (size : buffer.eleSize = pool.eleSize) (new : buffer.pBuf ∉ pool.starts)
    (free : buffer.freeBlocks.Perm buffer.blocks) : (pool.addBuffer buffer).Sound taken := by
  have some_ : buffer.vctFree ≠ [] := by
    intro none
    have length := free.length_eq
    have pos := cut.maxEle_pos
    simp [Buffer.freeBlocks, Buffer.blocks, none] at length
    omega
  have notKey : buffer.pBuf ∉ pool.mapFreeBuffer := fun mem => new (sound.known _ mem)
  have starts_eq : (pool.addBuffer buffer).starts = pool.starts ++ [buffer.pBuf] := by
    simp [starts, addBuffer]
  refine ⟨sound.lower, sound.upper, ?_, ?_, ?_, ?_, ?_, ?_, ?_⟩
  · intro other mem
    rcases List.mem_append.mp mem with mem | mem
    · exact sound.cut other mem
    · rw [List.mem_singleton.mp mem]
      exact cut
  · intro other mem
    rcases List.mem_append.mp mem with mem | mem
    · exact sound.eleSize_eq other mem
    · rw [List.mem_singleton.mp mem]
      exact size
  · rw [starts_eq]
    exact (List.perm_append_singleton _ _).nodup_iff.mpr (List.nodup_cons.mpr ⟨new, sound.nodup⟩)
  · intro other mem
    rcases List.mem_append.mp mem with mem | mem
    · have differ : other.pBuf ≠ buffer.pBuf := fun same =>
        new (same ▸ List.mem_map_of_mem mem)
      simpa [addBuffer, differ] using sound.registered other mem
    · rw [List.mem_singleton.mp mem]
      simpa [addBuffer] using some_
  · intro buf mem
    rw [starts_eq]
    rcases List.mem_append.mp mem with mem | mem
    · exact List.mem_append_left _ (sound.known buf mem)
    · exact List.mem_append_right _ mem
  · exact (List.perm_append_singleton _ _).nodup_iff.mpr
      (List.nodup_cons.mpr ⟨notKey, sound.keys⟩)
  · intro address
    have old := sound.balance address
    have same := free.count_eq address
    simp only [addBuffer, total_append, total_cons, total_nil]
    omega

theorem Sound.remove (sound : pool.Sound taken) (get : pool.mapBuffer[i]? = some buffer)
    (full : buffer.isFull = true) :
    Sound { pool with
      mapBuffer := pool.mapBuffer.eraseIdx i
      mapFreeBuffer := pool.mapFreeBuffer.erase buffer.pBuf } taken := by
  rcases List.getElem?_eq_some_iff.mp get with ⟨less, rfl⟩
  have mem := List.getElem_mem less
  have sub : (pool.mapBuffer.eraseIdx i).Sublist pool.mapBuffer := List.eraseIdx_sublist _ _
  have parts := (List.getElem_cons_eraseIdx_perm less).map Buffer.pBuf
  have differ : ∀ other ∈ pool.mapBuffer.eraseIdx i, other.pBuf ≠ pool.mapBuffer[i].pBuf := by
    intro other otherMem same
    have nodup := parts.nodup_iff.mpr sound.nodup
    rw [List.map_cons, ← same] at nodup
    exact (List.nodup_cons.mp nodup).1 (List.mem_map_of_mem otherMem)
  refine ⟨sound.lower, sound.upper, ?_, ?_, ?_, ?_, ?_, ?_, ?_⟩
  · exact fun other otherMem => sound.cut other (sub.subset otherMem)
  · exact fun other otherMem => sound.eleSize_eq other (sub.subset otherMem)
  · exact sound.nodup.sublist (sub.map _)
  · intro other otherMem
    rw [← sound.registered other (sub.subset otherMem)]
    exact List.mem_erase_of_ne (differ other otherMem)
  · intro buf key
    rcases sound.keys.mem_erase_iff.mp key with ⟨other, inKeys⟩
    have inParts := parts.mem_iff.mpr (sound.known buf inKeys)
    exact (List.mem_cons.mp inParts).resolve_left other
  · exact sound.keys.erase _
  · intro address
    have frees := total_eraseIdx Buffer.freeBlocks get address
    have blocks := total_eraseIdx Buffer.blocks get address
    have old := sound.balance address
    have perm := (sound.cut _ mem).freeBlocks_perm full (sound.nodup_freeBlocks mem)
    have same := perm.count_eq address
    change total Buffer.freeBlocks (pool.mapBuffer.eraseIdx i) address + taken address =
      total Buffer.blocks (pool.mapBuffer.eraseIdx i) address
    omega

/-! ## Taking blocks -/

theorem Sound.takeFree (sound : pool.Sound taken) (get : pool.mapBuffer[i]? = some buffer)
    {first rest : List ℕ} (split : buffer.vctFree = first ++ rest) (free : buffer.vctFree ≠ [])
    (moved : ∀ address, taken' address =
      taken address + (first.map buffer.addressOf).count address) :
    (pool.afterApply i { buffer with vctFree := rest }).Sound taken' := by
  have mem : buffer ∈ pool.mapBuffer := List.mem_of_getElem? get
  have inside : ∀ index ∈ rest, index < buffer.maxEle := fun index restMem =>
    (sound.cut buffer mem).inside index (split ▸ List.mem_append_right _ restMem)
  have key : buffer.pBuf ∈ pool.mapFreeBuffer := (sound.registered buffer mem).mpr free
  have balance : ∀ address, (rest.map buffer.addressOf).count address + taken' address =
      buffer.freeBlocks.count address + taken address := by
    intro address
    rw [moved address, Buffer.freeBlocks, split, List.map_append, List.count_append]
    omega
  unfold afterApply
  by_cases empty : rest = []
  · rw [if_pos (by simp [Buffer.isEmpty, empty])]
    apply sound.replace get inside (sound.keys.erase _) _ _ balance
    · exact fun start differ => List.mem_erase_of_ne differ
    · simp [empty, sound.keys.mem_erase_iff]
  · rw [if_neg (by simpa [Buffer.isEmpty] using empty)]
    apply sound.replace get inside sound.keys (fun _ _ => Iff.rfl) _ balance
    simpa [empty] using key

/-- The free buffers are aligned and apart from the buffers of the pool, and so is memory that is
allocated when there are none. -/
structure Room (pool : BufferPool) (vctFreeBuf : List Buffer) (fresh : ℕ) : Prop where
  aligned : ∀ buffer ∈ vctFreeBuf, buffer.pBuf % cacheBlockSize = 0
  apart : ∀ start,
    pool.starts.count start + (vctFreeBuf.map Buffer.pBuf).count start ≤ 1
  supplied : pool.mapFreeBuffer = [] → vctFreeBuf = [] →
    fresh % cacheBlockSize = 0 ∧ fresh ∉ pool.starts

/-- The memory that a call has to allocate. -/
def allocated (pool : BufferPool) (vctFreeBuf : List Buffer) (fresh : ℕ) : List ℕ :=
  if pool.mapFreeBuffer = [] ∧ vctFreeBuf = [] then [fresh] else []

/-- What a call or an iteration does to a pool and to the free buffers. -/
structure Kept (pool : BufferPool) (vctFreeBuf : List Buffer) (new : List ℕ) (taken' : ℕ → ℕ)
    (pool' : BufferPool) (vctFreeBuf' : List Buffer) : Prop where
  sound : pool'.Sound taken'
  starts : ∀ start, pool'.starts.count start + (vctFreeBuf'.map Buffer.pBuf).count start ≤
    pool.starts.count start + (vctFreeBuf.map Buffer.pBuf).count start + new.count start
  aligned : ∀ buffer ∈ vctFreeBuf', buffer.pBuf % cacheBlockSize = 0

theorem starts_afterApply (pool : BufferPool) (i : ℕ) (buffer : Buffer) :
    (pool.afterApply i buffer).starts = (pool.setBuffer i buffer).starts := by
  unfold afterApply
  split <;> rfl

variable {vctFreeBuf : List Buffer} {fresh pick cap : ℕ} {new vct : List ℕ}

theorem Kept.takeFree {vctFreeBuf' : List Buffer} {middle : BufferPool}
    (kept : Kept pool vctFreeBuf new taken middle vctFreeBuf')
    (get : middle.mapBuffer[i]? = some buffer)
    {first rest : List ℕ} (split : buffer.vctFree = first ++ rest) (free : buffer.vctFree ≠ [])
    (moved : ∀ address, taken' address =
      taken address + (first.map buffer.addressOf).count address) :
    Kept pool vctFreeBuf new taken' (middle.afterApply i { buffer with vctFree := rest })
      vctFreeBuf' := by
  refine ⟨kept.sound.takeFree get split free moved, ?_, kept.aligned⟩
  rw [starts_afterApply, starts_setBuffer get (by rfl)]
  exact kept.starts

theorem Sound.kept (sound : pool.Sound taken) (room : Room pool vctFreeBuf fresh) :
    Kept pool vctFreeBuf new taken pool vctFreeBuf :=
  ⟨sound, fun _ => Nat.le_add_right _ _, room.aligned⟩

theorem Sound.addNew (sound : pool.Sound taken) (room : Room pool vctFreeBuf fresh)
    (none : pool.mapFreeBuffer = []) :
    Kept pool vctFreeBuf (pool.allocated vctFreeBuf fresh) taken
      (pool.addBuffer (allocateBuffer vctFreeBuf pool.eleSize fresh).1)
      (allocateBuffer vctFreeBuf pool.eleSize fresh).2 := by
  have small : pool.eleSize ≤ cacheBlockSize := by have := sound.upper; omega
  cases vctFreeBuf with
  | nil =>
      rcases room.supplied none rfl with ⟨aligned, new⟩
      have cut := Buffer.cut_init aligned sound.lower small
      refine ⟨sound.add cut rfl new (Buffer.freeBlocks_init _ _), ?_, nofun⟩
      intro start
      simp [allocated, allocateBuffer, addBuffer, starts, none, Buffer.init, List.count_append]
  | cons buf others =>
      have cut := Buffer.cut_init (room.aligned buf List.mem_cons_self) sound.lower small
      have new : buf.pBuf ∉ pool.starts := by
        intro mem
        have once := room.apart buf.pBuf
        have pos := List.count_pos_iff.mpr mem
        simp only [List.map_cons, List.count_cons_self] at once
        omega
      refine ⟨sound.add cut rfl new (Buffer.freeBlocks_init _ _), ?_,
        fun other mem => room.aligned other (List.mem_cons_of_mem _ mem)⟩
      intro start
      simp only [allocateBuffer, addBuffer, starts, Buffer.init, List.map_append, List.count_append,
        List.map_cons, List.map_nil, List.count_cons, List.count_nil]
      omega

theorem allocateBuffer_vctFree (vctFreeBuf : List Buffer) (eleLen fresh : ℕ) :
    (allocateBuffer vctFreeBuf eleLen fresh).1.vctFree =
      (List.range (cacheBlockSize / eleLen % 2 ^ 16)).reverse := by
  cases vctFreeBuf <;> rfl

theorem Sound.two_blocks (sound : pool.Sound taken) :
    2 ≤ cacheBlockSize / pool.eleSize % 2 ^ 16 := by
  have pos : 0 < pool.eleSize := by have := sound.lower; omega
  have le : cacheBlockSize / pool.eleSize ≤ cacheBlockSize / 3 :=
    Nat.div_le_div_left sound.lower (by decide)
  rw [Nat.mod_eq_of_lt (lt_of_le_of_lt le (by decide))]
  exact (Nat.le_div_iff_mul_le pos).mpr sound.upper

theorem addBuffer_get (pool : BufferPool) (buff : Buffer) :
    (pool.addBuffer buff).mapBuffer[pool.mapBuffer.length]? = some buff := by
  simp [addBuffer]

theorem Sound.get_pick (sound : pool.Sound taken) (picked : pool.mapFreeBuffer[pick]? = some buf) :
    ∃ i buffer, pool.find buf = some i ∧ pool.mapBuffer[i]? = some buffer ∧
      buffer.vctFree ≠ [] := by
  have key : buf ∈ pool.mapFreeBuffer := List.mem_of_getElem? picked
  rcases sound.find_known (sound.known buf key) with ⟨i, buffer, found, get, rfl⟩
  exact ⟨i, buffer, found, get, (sound.registered buffer (List.mem_of_getElem? get)).mp key⟩

theorem Sound.apply (sound : pool.Sound taken) (room : Room pool vctFreeBuf fresh)
    {bys : ℕ} {pool' : BufferPool} {vctFreeBuf' : List Buffer}
    (applied : pool.apply vctFreeBuf pick fresh = some (bys, pool', vctFreeBuf'))
    (moved : ∀ address, taken' address = taken address + [bys].count address) :
    Kept pool vctFreeBuf (pool.allocated vctFreeBuf fresh) taken' pool' vctFreeBuf' := by
  unfold BufferPool.apply at applied
  by_cases none : pool.mapFreeBuffer = []
  · rw [if_pos none] at applied
    have list := allocateBuffer_vctFree vctFreeBuf pool.eleSize fresh
    have two := sound.two_blocks
    have kept := sound.addNew room none
    generalize allocateBuffer vctFreeBuf pool.eleSize fresh = new at applied kept list
    rcases new with ⟨buff, left⟩
    simp only [Option.bind_eq_bind] at applied
    rcases Option.bind_eq_some_iff.mp applied with ⟨⟨first, buff'⟩, taken_, equal⟩
    cases equal
    unfold Buffer.apply at taken_
    cases free : buff.vctFree with
    | nil =>
        rw [free] at taken_
        cases taken_
    | cons index rest =>
        rw [free] at taken_
        cases taken_
        have more : rest ≠ [] := by
          intro empty
          have length := congrArg List.length (free.symm.trans list)
          simp [empty] at length
          omega
        have result := @Kept.takeFree _ _ _ _ _ _ _ _ _ kept (addBuffer_get pool buff)
          [index] _ free
          (by simp [free]) moved
        have same : (pool.addBuffer buff).afterApply pool.mapBuffer.length
            { buff with vctFree := rest } = pool.addBuffer { buff with vctFree := rest } := by
          rw [afterApply, if_neg (by simpa [Buffer.isEmpty] using more)]
          simp [setBuffer, addBuffer]
        rwa [same] at result
  · rw [if_neg none] at applied
    simp only [Option.bind_eq_bind] at applied
    rcases Option.bind_eq_some_iff.mp applied with ⟨buf, picked, applied⟩
    rcases sound.get_pick picked with ⟨i, buffer, found, get, free⟩
    rw [found, Option.bind_some, get, Option.bind_some] at applied
    rcases Option.bind_eq_some_iff.mp applied with ⟨⟨first, buffer'⟩, taken_, equal⟩
    cases equal
    unfold Buffer.apply at taken_
    cases list : buffer.vctFree with
    | nil => exact absurd list free
    | cons index rest =>
        rw [list] at taken_
        cases taken_
        exact @Kept.takeFree _ _ _ _ _ _ _ _ _ (sound.kept room) get [index] _ list free moved

theorem Sound.applyIteration (sound : pool.Sound taken) (room : Room pool vctFreeBuf fresh)
    {vct' : List ℕ} {pool' : BufferPool} {vctFreeBuf' : List Buffer}
    (applied : pool.applyIteration vctFreeBuf cap vct pick fresh =
      some (vct', pool', vctFreeBuf'))
    (moved : ∀ address, taken' address + vct.count address =
      taken address + vct'.count address) :
    Kept pool vctFreeBuf (pool.allocated vctFreeBuf fresh) taken' pool' vctFreeBuf' := by
  unfold BufferPool.applyIteration at applied
  by_cases none : pool.mapFreeBuffer = []
  · rw [if_pos none] at applied
    have list := allocateBuffer_vctFree vctFreeBuf pool.eleSize fresh
    have two := sound.two_blocks
    have kept := sound.addNew room none
    generalize allocateBuffer vctFreeBuf pool.eleSize fresh = new at applied kept list
    rcases new with ⟨buff, left⟩
    have free : buff.vctFree ≠ [] := by
      intro empty
      have length := congrArg List.length (empty.symm.trans list)
      simp at length
      omega
    rcases Buffer.applyLoop_spec buff.addressOf cap buff.vctFree vct with
      ⟨first, rest, split, loop, _⟩
    simp only [Buffer.applyBatch, loop] at applied
    cases applied
    apply kept.takeFree (addBuffer_get pool buff) split free
    intro address
    have counts := moved address
    rw [List.count_append] at counts
    omega
  · rw [if_neg none] at applied
    simp only [Option.bind_eq_bind] at applied
    rcases Option.bind_eq_some_iff.mp applied with ⟨buf, picked, applied⟩
    rcases sound.get_pick picked with ⟨i, buffer, found, get, free⟩
    rw [found, Option.bind_some, get, Option.bind_some] at applied
    rcases Buffer.applyLoop_spec buffer.addressOf cap buffer.vctFree vct with
      ⟨first, rest, split, loop, _⟩
    simp only [Buffer.applyBatch, loop] at applied
    cases applied
    apply (sound.kept room).takeFree get split free
    intro address
    have counts := moved address
    rw [List.count_append] at counts
    omega

/-! ## Returning blocks -/

/-- Blocks are returned to a buffer that is in the map of free buffers by then. -/
theorem Sound.giveFree (sound : pool.Sound taken)
    (aligned : ∀ buffer ∈ vctFreeBuf, buffer.pBuf % cacheBlockSize = 0)
    (get : pool.mapBuffer[i]? = some buffer) {free keys : List ℕ} (some_ : free ≠ [])
    (inside : ∀ index ∈ free, index < buffer.maxEle) (nodup : keys.Nodup)
    (others : ∀ start, start ≠ buffer.pBuf → (start ∈ keys ↔ start ∈ pool.mapFreeBuffer))
    (own : buffer.pBuf ∈ keys)
    (moved : ∀ address, (free.map buffer.addressOf).count address + taken' address =
      buffer.freeBlocks.count address + taken address) :
    Kept pool vctFreeBuf [] taken'
      (afterRelease { pool with mapFreeBuffer := keys } vctFreeBuf i
        { buffer with vctFree := free }).1
      (afterRelease { pool with mapFreeBuffer := keys } vctFreeBuf i
        { buffer with vctFree := free }).2 := by
  have mem : buffer ∈ pool.mapBuffer := List.mem_of_getElem? get
  have less : i < pool.mapBuffer.length := (List.getElem?_eq_some_iff.mp get).1
  have replaced := sound.replace get inside nodup others (by simp [own, some_]) moved
  have sameStarts := @starts_setBuffer _ _ _ get { buffer with vctFree := free } rfl
  unfold afterRelease
  by_cases full : ({ buffer with vctFree := free } : Buffer).isFull = true
  · simp only [if_pos full]
    have getNew : (pool.mapBuffer.set i { buffer with vctFree := free })[i]? =
        some { buffer with vctFree := free } := by
      simp [less]
    have removed := replaced.remove getNew full
    simp only [setBuffer, List.eraseIdx_set_eq] at removed
    refine ⟨removed, fun start => ?_, ?_⟩
    · have left : (pool.starts.eraseIdx i).count start + [buffer.pBuf].count start =
          pool.starts.count start := count_eraseIdx (by simp [BufferPool.starts, get]) start
      have erased : (pool.mapBuffer.eraseIdx i).map Buffer.pBuf = pool.starts.eraseIdx i :=
        (List.eraseIdx_map _ _ _).symm
      simp only [BufferPool.starts, erased] at left ⊢
      unfold recycleBuffer
      split
      · omega
      · simp only [List.map_cons, List.count_cons, List.count_nil] at left ⊢
        omega
    · intro other otherMem
      unfold recycleBuffer at otherMem
      split at otherMem
      · exact aligned other otherMem
      · rcases List.mem_cons.mp otherMem with rfl | otherMem
        · exact (sound.cut buffer mem).aligned
        · exact aligned other otherMem
  · simp only [if_neg full]
    refine ⟨replaced, fun start => ?_, aligned⟩
    change (pool.setBuffer i { buffer with vctFree := free }).starts.count start + _ ≤ _
    rw [sameStarts]
    exact Nat.le_add_right _ _

theorem Sound.release (sound : pool.Sound taken)
    (aligned : ∀ buffer ∈ vctFreeBuf, buffer.pBuf % cacheBlockSize = 0)
    {bys : ℕ} (out : 0 < taken bys)
    (free : ∀ buffer ∈ pool.mapBuffer, buffer.pBuf = Buffer.calcAddr bys → buffer.isEmpty = false)
    (moved : ∀ address, taken' address + [bys].count address = taken address) :
    ∃ pool' vctFreeBuf', pool.release vctFreeBuf bys = some (pool', vctFreeBuf') ∧
      Kept pool vctFreeBuf [] taken' pool' vctFreeBuf' := by
  rcases sound.buffer_of_taken out with ⟨buffer, mem, home, inBlocks⟩
  rcases sound.find_eq mem with ⟨i, found, get⟩
  rcases List.mem_map.mp inBlocks with ⟨index, inRange, rfl⟩
  have less : index < buffer.maxEle := List.mem_range.mp inRange
  have cut := sound.cut buffer mem
  have notEmpty : buffer.vctFree ≠ [] := by simpa [Buffer.isEmpty] using free buffer mem home
  have kept := @Sound.giveFree _ _ taken' _ _ _ sound aligned get _ _
    (List.cons_ne_nil _ _)
    (fun other otherMem => by
      rcases List.mem_cons.mp otherMem with rfl | otherMem
      · exact less
      · exact cut.inside other otherMem)
    sound.keys (fun _ _ => Iff.rfl) ((sound.registered buffer mem).mpr notEmpty)
    (fun address => by
      have counts := moved address
      rw [← List.singleton_append, List.map_append, List.count_append, List.map_singleton,
        Buffer.freeBlocks]
      omega)
  refine ⟨_, _, ?_, kept⟩
  unfold BufferPool.release
  simp [← home, found, get, cut.release_eq less]

end BufferPool

namespace CachePool

theorem SparesBuddy.apart {sz first : ℕ} {rest : List ℕ} (spares : SparesBuddy sz (first :: rest))
    {behind before : List ℕ}
    (split : (first :: rest).reverse =
      behind ++ buddy 17 (Buffer.calcAddr first) :: before) :
    (first :: rest).length - sz ≤
      behind.countP fun bys => decide (Buffer.calcAddr bys = Buffer.calcAddr first) := by
  have whole : first :: rest =
      before.reverse ++ buddy 17 (Buffer.calcAddr first) :: behind.reverse := by
    rw [← List.reverse_reverse (first :: rest), split]
    simp
  have enough := spares before.length (by rw [whole]; simp) (by rw [whole]; simp)
  have after : (first :: rest).drop (before.length + 1) = behind.reverse := by
    rw [whole]
    simp [List.drop_append]
  rw [after, List.countP_reverse] at enough
  exact enough

end CachePool

namespace BufferPool

variable {pool : BufferPool} {taken taken' : ℕ → ℕ} {vctFreeBuf : List Buffer} {sz : ℕ}
  {vct : List ℕ}

/-- An iteration returns blocks of a vector that is too long to the buffer of its first block. -/
theorem Sound.releaseIteration (sound : pool.Sound taken)
    (aligned : ∀ buffer ∈ vctFreeBuf, buffer.pBuf % cacheBlockSize = 0)
    (long : sz < vct.length) (out : ∀ bys ∈ vct, 0 < taken bys)
    (spares : CachePool.SparesBuddy sz vct) :
    ∃ vct' pool' vctFreeBuf', pool.releaseIteration vctFreeBuf sz vct =
        some (vct', pool', vctFreeBuf') ∧ vct'.length < vct.length ∧
      ∀ taken' : ℕ → ℕ, (∀ address, taken' address + vct.count address =
        taken address + vct'.count address) →
      Kept pool vctFreeBuf [] taken' pool' vctFreeBuf' := by
  cases vct with
  | nil => cases long
  | cons first rest =>
  rcases sound.buffer_of_taken (out first List.mem_cons_self) with ⟨buffer, mem, home, inBlocks⟩
  rcases sound.find_eq mem with ⟨i, found, get⟩
  have cut := sound.cut buffer mem
  have own : ∀ bys ∈ (first :: rest).reverse, Buffer.calcAddr bys = buffer.pBuf →
      bys ∈ buffer.blocks := fun bys inVct same =>
    (sound.mem_blocks_iff mem).mpr
      ⟨sound.mem_of_taken (out bys (List.mem_reverse.mp inVct)), same⟩
  rcases Buffer.releaseLoop_spec (first :: rest).reverse cut [] (by simpa using long) own
      (fun behind before split => by
        rw [home] at split ⊢
        simpa using spares.apart split) with ⟨free, left, loop, perm, inside, enough, all⟩
  have length := perm.length_eq
  simp only [List.length_reverse, List.length_append, List.length_map] at length
  simp only [List.length_nil, Nat.add_zero] at enough all
  have free_ne : free ≠ [] := by
    intro none
    have inLeft : first ∈ left := by
      have inAll := perm.mem_iff.mp (List.mem_reverse.mpr (List.mem_cons_self (l := rest)))
      simpa [none] using inAll
    have stopped : ¬sz < left.length := fun more => all more first inLeft home.symm
    rw [none, List.length_nil] at length
    omega
  have free_pos := List.length_pos_iff.mpr free_ne
  -- the buffer is in the map of free buffers behind the test
  let keys := if buffer.isEmpty then pool.mapFreeBuffer.insert buffer.pBuf else pool.mapFreeBuffer
  have isKey : buffer.pBuf ∈ keys ∧ keys.Nodup ∧
      ∀ start, start ≠ buffer.pBuf → (start ∈ keys ↔ start ∈ pool.mapFreeBuffer) := by
    by_cases empty : buffer.isEmpty = true
    · simp only [keys, if_pos empty]
      exact ⟨List.mem_insert_self, sound.keys.insert, fun start differ => by simp [differ]⟩
    · simp only [keys, if_neg empty]
      have key := (sound.registered buffer mem).mpr (by simpa [Buffer.isEmpty] using empty)
      exact ⟨key, sound.keys, fun _ _ => trivial⟩
  have result : pool.releaseIteration vctFreeBuf sz (first :: rest) =
      some (left, afterRelease { pool with mapFreeBuffer := keys } vctFreeBuf i
        { buffer with vctFree := free ++ buffer.vctFree }) := by
    have registered : (if buffer.isEmpty then
        { pool with mapFreeBuffer := pool.mapFreeBuffer.insert buffer.pBuf } else pool) =
        { pool with mapFreeBuffer := keys } := by
      simp only [keys]
      split <;> rfl
    have batch : buffer.releaseBatch sz (first :: rest) =
        ({ buffer with vctFree := free ++ buffer.vctFree }, left) := by
      rw [Buffer.releaseBatch, loop, List.append_nil]
    simp [BufferPool.releaseIteration, ← home, found, get, batch, registered]
  refine ⟨left, _, _, result, by omega, fun taken' moved => ?_⟩
  apply sound.giveFree aligned get (by simp [free_ne]) _ isKey.2.1 isKey.2.2 isKey.1
  · intro address
    have counts := moved address
    have split := perm.count_eq address
    rw [List.count_reverse, List.count_append] at split
    rw [List.map_append, List.count_append, Buffer.freeBlocks]
    omega
  · intro index indexMem
    rcases List.mem_append.mp indexMem with indexMem | indexMem
    · exact inside index indexMem
    · exact cut.inside index indexMem

end BufferPool

namespace CachePool

/-- How often a start is there among the buffers of all pools and the free buffers. -/
def startCount (cache : CachePool) (start : ℕ) : ℕ :=
  (∑ pos, (cache.arrayPool pos).starts.count start) +
    (cache.vctFreeBuf.map Buffer.pBuf).count start

/-- How often a block of a pool has been taken from it. -/
def taken (cache : CachePool) (pos : Fin 28) (address : ℕ) : ℕ :=
  cache.outstanding.count (pos, address)

structure Sound (cache : CachePool) : Prop where
  pools : ∀ pos, (cache.arrayPool pos).Sound (cache.taken pos)
  starts : ∀ start, cache.startCount start ≤ 1
  aligned : ∀ buffer ∈ cache.vctFreeBuf, buffer.pBuf % cacheBlockSize = 0

variable {cache : CachePool} {pos : Fin 28} {k fresh : ℕ} {vct : Vct}

theorem startCount_ge (cache : CachePool) (pos : Fin 28) (start : ℕ) :
    (cache.arrayPool pos).starts.count start + (cache.vctFreeBuf.map Buffer.pBuf).count start ≤
      cache.startCount start := by
  apply Nat.add_le_add_right
  exact Finset.single_le_sum (f := fun pos => (cache.arrayPool pos).starts.count start)
    (fun _ _ => Nat.zero_le _) (Finset.mem_univ pos)

theorem startCount_fresh (free : cache.Fresh fresh) : cache.startCount fresh = 0 := by
  rcases free with ⟨_, _, inPool, inFree⟩
  refine Nat.add_eq_zero_iff.mpr ⟨Finset.sum_eq_zero fun pos _ => ?_, ?_⟩
  · apply List.count_eq_zero.mpr
    intro mem
    rcases List.mem_map.mp mem with ⟨buffer, bufferMem, same⟩
    exact inPool pos buffer bufferMem same
  · apply List.count_eq_zero.mpr
    intro mem
    rcases List.mem_map.mp mem with ⟨buffer, bufferMem, same⟩
    exact inFree buffer bufferMem same

theorem Sound.room (sound : cache.Sound) (supplied : cache.Supplied pos fresh) :
    (cache.arrayPool pos).Room cache.vctFreeBuf fresh := by
  refine ⟨sound.aligned, fun start => (cache.startCount_ge pos start).trans (sound.starts start),
    fun none noFree => ?_⟩
  have free := supplied none noFree
  refine ⟨free.1, fun mem => ?_⟩
  have pos_ := List.count_pos_iff.mpr mem
  have le := cache.startCount_ge pos fresh
  rw [startCount_fresh free] at le
  omega

theorem taken_eq (cache : CachePool) (pos : Fin 28) (address : ℕ) :
    cache.taken pos address =
      total Vct.held cache.vcts (pos, address) + cache.owned.count (pos, address) := by
  unfold taken outstanding total
  rw [List.count_append]
  congr 2
  exact lawful_beq_subsingleton _ _

theorem count_blocks (blocks : List ℕ) (pos other : Fin 28) (address : ℕ) :
    (blocks.map (pos, ·)).count (other, address) =
      if other = pos then blocks.count address else 0 := by
  split
  · rename_i same
    rw [same]
    exact List.count_map_of_injective _ _ (Prod.mk_right_injective pos) _
  · rename_i differ
    apply List.count_eq_zero.mpr
    intro mem
    rcases List.mem_map.mp mem with ⟨_, _, equal⟩
    exact differ (congrArg Prod.fst equal).symm

theorem count_held (vct : Vct) (pos : Fin 28) (address : ℕ) :
    @List.count _ instBEqOfDecidableEq (pos, address) vct.held =
      if pos = vct.pos then (vct.bys ++ vct.inHand).count address else 0 := by
  have one : (instBEqOfDecidableEq : BEq (Fin 28 × ℕ)) = instBEqProd :=
    lawful_beq_subsingleton _ _
  rw [one]
  exact count_blocks _ _ _ _

theorem taken_setVct (found : cache.vcts[k]? = some vct) {cache' : CachePool} {new : Vct}
    (vcts : cache'.vcts = cache.vcts.set k new) (pos : Fin 28) (address : ℕ) :
    cache'.taken pos address +
        (if pos = vct.pos then (vct.bys ++ vct.inHand).count address else 0) +
        cache.owned.count (pos, address) =
      cache.taken pos address +
        (if pos = new.pos then (new.bys ++ new.inHand).count address else 0) +
        cache'.owned.count (pos, address) := by
  have balance := total_set Vct.held new found (pos, address)
  rw [count_held, count_held] at balance
  rw [taken_eq, taken_eq, vcts]
  omega

theorem Sound.frame (sound : cache.Sound) {cache' : CachePool}
    (pools : ∀ pos, ∃ mutex, cache'.arrayPool pos =
      { cache.arrayPool pos with spinMutex := mutex })
    (free : cache'.vctFreeBuf = cache.vctFreeBuf)
    (same : ∀ pos address, cache'.taken pos address = cache.taken pos address) :
    cache'.Sound := by
  have starts : ∀ pos, (cache'.arrayPool pos).starts = (cache.arrayPool pos).starts := by
    intro pos
    rcases pools pos with ⟨mutex, equal⟩
    rw [equal]
    rfl
  refine ⟨fun pos => ?_, fun start => ?_, free ▸ sound.aligned⟩
  · rcases pools pos with ⟨mutex, equal⟩
    rcases sound.pools pos with ⟨lower, upper, cut, size, nodup, registered, known, keys, balance⟩
    rw [equal]
    refine ⟨lower, upper, cut, size, nodup, registered, known, keys, fun address => ?_⟩
    rw [same]
    exact balance address
  · have old := sound.starts start
    unfold startCount at old ⊢
    simp only [starts, free]
    exact old

theorem Sound.step (sound : cache.Sound) {cache' : CachePool} {new : List ℕ}
    (kept : (cache.arrayPool pos).Kept cache.vctFreeBuf new (cache'.taken pos)
      (cache'.arrayPool pos) cache'.vctFreeBuf)
    (others : ∀ other, other ≠ pos → cache'.arrayPool other = cache.arrayPool other ∧
      ∀ address, cache'.taken other address = cache.taken other address)
    (nodup : new.Nodup) (fresh : ∀ start ∈ new, cache.startCount start = 0) : cache'.Sound := by
  refine ⟨fun other => ?_, fun start => ?_, kept.aligned⟩
  · by_cases here : other = pos
    · rw [here]
      exact kept.sound
    · rcases others other here with ⟨samePool, sameTaken⟩
      have old := sound.pools other
      rw [samePool]
      rwa [show cache'.taken other = cache.taken other from funext sameTaken]
  · have old := sound.starts start
    have rest : ∑ other ∈ Finset.univ.erase pos, (cache'.arrayPool other).starts.count start =
        ∑ other ∈ Finset.univ.erase pos, (cache.arrayPool other).starts.count start := by
      apply Finset.sum_congr rfl
      intro other mem
      rw [(others other (Finset.ne_of_mem_erase mem)).1]
    have split := Finset.add_sum_erase Finset.univ
      (fun other => (cache.arrayPool other).starts.count start) (Finset.mem_univ pos)
    have split' := Finset.add_sum_erase Finset.univ
      (fun other => (cache'.arrayPool other).starts.count start) (Finset.mem_univ pos)
    have moved := kept.starts start
    have once := List.nodup_iff_count_le_one.mp nodup start
    by_cases mem : start ∈ new
    · have zero := fresh start mem
      unfold startCount at zero ⊢
      omega
    · rw [List.count_eq_zero.mpr mem] at moved
      unfold startCount at old ⊢
      omega

theorem allocated_fresh (supplied : cache.Supplied pos fresh) :
    ∀ start ∈ (cache.arrayPool pos).allocated cache.vctFreeBuf fresh,
      cache.startCount start = 0 := by
  intro start mem
  unfold BufferPool.allocated at mem
  split at mem
  · rename_i both
    rw [List.mem_singleton.mp mem]
    exact startCount_fresh (supplied both.1 both.2)
  · cases mem

theorem allocated_nodup (pool : BufferPool) (vctFreeBuf : List Buffer) (fresh : ℕ) :
    (pool.allocated vctFreeBuf fresh).Nodup := by
  unfold BufferPool.allocated
  split
  · exact List.nodup_singleton _
  · exact List.nodup_nil

/-! ## Steps -/

theorem count_owned_cons (owned : List (Fin 28 × ℕ)) (pos other : Fin 28) (bys address : ℕ) :
    ((pos, bys) :: owned).count (other, address) =
      owned.count (other, address) + if other = pos then [bys].count address else 0 := by
  rw [List.count_cons]
  by_cases here : other = pos
  · subst here
    by_cases same : bys = address <;> simp [same]
  · have differ : ((pos, bys) == (other, address)) = false := by
      simpa using fun same => absurd same.symm here
    rw [differ]
    simp [here]

theorem sound_pop (sound : cache.Sound) (found : cache.vcts[k]? = some vct) {bys : ℕ}
    (last : vct.bys.getLast? = some bys) {cache' : CachePool} {stage : VctStage}
    (inHand : (Vct.inHand { vct with bys := vct.bys.dropLast, stage := stage }) = vct.inHand)
    (pools : ∀ pos, ∃ mutex, cache'.arrayPool pos =
      { cache.arrayPool pos with spinMutex := mutex })
    (free : cache'.vctFreeBuf = cache.vctFreeBuf)
    (vcts : cache'.vcts = cache.vcts.set k { vct with bys := vct.bys.dropLast, stage := stage })
    (owned : cache'.owned = (vct.pos, bys) :: cache.owned) : cache'.Sound := by
  apply sound.frame pools free
  intro pos address
  have balance := taken_setVct found vcts pos address
  rw [owned, count_owned_cons, inHand] at balance
  have split := List.dropLast_append_getLast? bys last
  by_cases here : pos = vct.pos
  · have counts : vct.bys.count address = vct.bys.dropLast.count address + [bys].count address := by
      conv_lhs => rw [← split]
      exact List.count_append
    simp only [if_pos here, List.count_append] at balance
    omega
  · simp only [if_neg here] at balance
    omega

theorem arrayPool_start {cache' : CachePool} {stage : VctStage}
    (started : cache.start k vct stage = some cache') :
    (∀ pos, ∃ mutex, cache'.arrayPool pos =
        { cache.arrayPool pos with spinMutex := mutex }) ∧
      cache'.vctFreeBuf = cache.vctFreeBuf ∧ cache'.owned = cache.owned ∧
      cache'.vcts = cache.vcts.set k { vct with stage := stage } := by
  rcases Option.ite_none_right_eq_some.mp started with ⟨-, ⟨⟩⟩
  refine ⟨fun pos => ?_, rfl, rfl, rfl⟩
  by_cases here : pos = vct.pos
  · subst here
    exact ⟨some k, by simp [setPool, setVct]⟩
  · exact ⟨(cache.arrayPool pos).spinMutex, by simp [setPool, setVct, here]⟩

theorem arrayPool_finish (cache : CachePool) (k : ℕ) (vct : Vct) (bys : List ℕ) (pos : Fin 28) :
    ∃ mutex, (cache.finish k vct bys).arrayPool pos =
      { cache.arrayPool pos with spinMutex := mutex } := by
  by_cases here : pos = vct.pos
  · subst here
    exact ⟨none, by simp [finish, setPool, setVct]⟩
  · exact ⟨(cache.arrayPool pos).spinMutex, by simp [finish, setPool, setVct, here]⟩

theorem sound_start (sound : cache.Sound) (found : cache.vcts[k]? = some vct)
    {rest cache' : CachePool} {stage : VctStage}
    (started : rest.start k vct stage = some cache') (pools : rest.arrayPool = cache.arrayPool)
    (free : rest.vctFreeBuf = cache.vctFreeBuf) (vcts : rest.vcts = cache.vcts)
    (moved : ∀ pos address,
      rest.owned.count (pos, address) +
          (if pos = vct.pos then (Vct.inHand { vct with stage := stage }).count address else 0) =
        cache.owned.count (pos, address) +
          (if pos = vct.pos then vct.inHand.count address else 0)) : cache'.Sound := by
  rcases arrayPool_start started with ⟨pools', free', owned', vcts'⟩
  apply sound.frame _ (free'.trans free)
  · intro pos address
    have balance := taken_setVct found
      (by rw [vcts', vcts]) pos address
    have counts := moved pos address
    rw [owned'] at balance
    by_cases here : pos = vct.pos
    · simp only [if_pos here, List.count_append] at balance counts
      omega
    · simp only [if_neg here] at balance counts
      omega
  · intro pos
    rw [← pools]
    exact pools' pos

theorem sound_iteration (sound : cache.Sound) (found : cache.vcts[k]? = some vct)
    {bys new : List ℕ} {pool' : BufferPool} {vctFreeBuf' : List Buffer}
    (kept : ∀ taken' : ℕ → ℕ, (∀ address, taken' address + vct.bys.count address =
        cache.taken vct.pos address + bys.count address) →
      (cache.arrayPool vct.pos).Kept cache.vctFreeBuf new taken' pool' vctFreeBuf')
    (nodup : new.Nodup) (fresh : ∀ start ∈ new, cache.startCount start = 0) :
    Sound { (cache.setPool vct.pos pool').setVct k { vct with bys := bys } with
      vctFreeBuf := vctFreeBuf' } := by
  have balance := @taken_setVct _ _ _ found
    { (cache.setPool vct.pos pool').setVct k { vct with bys := bys } with
      vctFreeBuf := vctFreeBuf' } _ rfl
  have inHand : (Vct.inHand { vct with bys := bys }) = vct.inHand := rfl
  refine @Sound.step _ vct.pos sound _ _ ?_ ?_ nodup fresh
  · have here : ∀ pool : BufferPool,
        Function.update cache.arrayPool vct.pos pool vct.pos = pool := by simp
    simp only [setVct, setPool, here]
    apply kept
    intro address
    have counts := balance vct.pos address
    rw [inHand] at counts
    simp only [if_true, List.count_append, setVct, setPool] at counts
    omega
  · intro other differ
    refine ⟨by simp [setVct, setPool, differ], fun address => ?_⟩
    have counts := balance other address
    simp only [if_neg differ, setVct, setPool] at counts ⊢
    omega

theorem sound_single (sound : cache.Sound) {new : List ℕ} {pool' : BufferPool}
    {vctFreeBuf' : List Buffer} {owned' : List (Fin 28 × ℕ)}
    (kept : ∀ taken' : ℕ → ℕ, (∀ address, taken' address + cache.owned.count (pos, address) =
        cache.taken pos address + owned'.count (pos, address)) →
      (cache.arrayPool pos).Kept cache.vctFreeBuf new taken' pool' vctFreeBuf')
    (others : ∀ other, other ≠ pos → ∀ address,
      owned'.count (other, address) = cache.owned.count (other, address))
    (nodup : new.Nodup) (fresh : ∀ start ∈ new, cache.startCount start = 0) :
    Sound { cache.setPool pos pool' with vctFreeBuf := vctFreeBuf', owned := owned' } := by
  refine @Sound.step _ pos sound _ _ ?_ ?_ nodup fresh
  · have here : Function.update cache.arrayPool pos pool' pos = pool' := by simp
    simp only [setPool, here]
    apply kept
    intro address
    simp only [taken_eq]
    omega
  · intro other differ
    refine ⟨by simp [setPool, differ], fun address => ?_⟩
    simp only [taken_eq, setPool]
    rw [others other differ]

theorem taken_pos_of_mem (found : cache.vcts[k]? = some vct) {address : ℕ}
    (mem : address ∈ vct.bys) : 0 < cache.taken vct.pos address := by
  apply List.count_pos_iff.mpr
  apply List.mem_append_left
  refine List.mem_flatMap.mpr ⟨vct, List.mem_of_getElem? found, ?_⟩
  exact List.mem_map_of_mem (List.mem_append_left _ mem)

theorem Sound.releaseIteration (sound : cache.Sound) (found : cache.vcts[k]? = some vct)
    {bAll : Bool} (long : vct.restSize bAll < vct.bys.length)
    (spares : SparesBuddy (vct.restSize bAll) vct.bys) :
    ∃ bys pool' vctFreeBuf', (cache.arrayPool vct.pos).releaseIteration cache.vctFreeBuf
        (vct.restSize bAll) vct.bys = some (bys, pool', vctFreeBuf') ∧
      bys.length < vct.bys.length ∧
      Sound { (cache.setPool vct.pos pool').setVct k { vct with bys := bys } with
        vctFreeBuf := vctFreeBuf' } := by
  rcases (sound.pools vct.pos).releaseIteration sound.aligned long
    (fun _ mem => taken_pos_of_mem found mem) spares with
    ⟨bys, pool', vctFreeBuf', result, shorter, kept⟩
  exact ⟨bys, pool', vctFreeBuf', result, shorter,
    sound_iteration sound found kept List.nodup_nil nofun⟩

theorem sound_finish (sound : cache.Sound) (found : cache.vcts[k]? = some vct)
    {bys : List ℕ} (same : ∀ address, bys.count address = (vct.bys ++ vct.inHand).count address) :
    (cache.finish k vct bys).Sound := by
  apply sound.frame (cache.arrayPool_finish k vct bys) rfl
  intro pos address
  have balance := @taken_setVct _ _ _ found (cache.finish k vct bys) _ rfl pos address
  have inHand : (Vct.inHand { vct with bys := bys, stage := .idle }) = [] := rfl
  have owned : (cache.finish k vct bys).owned = cache.owned := rfl
  rw [inHand, List.append_nil, same, owned] at balance
  by_cases here : pos = vct.pos
  · simp only [if_pos here] at balance
    omega
  · simp only [if_neg here] at balance
    omega

theorem sound_iterate (sound : cache.Sound) (found : cache.vcts[k]? = some vct) {pick : ℕ}
    {cache' : CachePool}
    (regular : vctRegular vct)
    (step : cache.iterate k vct pick fresh = some cache') : cache'.Sound := by
  rcases vct with ⟨pos, capacity, held, stage⟩
  cases stage with
  | idle => cases step
  | applying pop =>
      simp only [iterate] at step
      split at step
      · rcases Option.ite_none_right_eq_some.mp step with ⟨supplied, step⟩
        rcases Option.map_eq_some_iff.mp step with ⟨⟨bys, pool', vctFreeBuf'⟩, applied, rfl⟩
        exact sound_iteration sound found
          (fun taken' moved =>
            (sound.pools pos).applyIteration (sound.room supplied) applied moved)
          (allocated_nodup _ _ _) (allocated_fresh supplied)
      · split at step
        · rcases Option.map_eq_some_iff.mp step with ⟨bys, last, rfl⟩
          exact sound_pop sound found last rfl
            (cache.arrayPool_finish k _ held.dropLast) rfl rfl rfl
        · cases step
          exact sound_finish sound found (by simp [Vct.inHand])
  | releasing bAll push =>
      simp only [iterate] at step
      split at step
      · rename_i long
        rcases sound.releaseIteration found long (regular bAll rfl) with
          ⟨bys, pool', vctFreeBuf', result, _, sound'⟩
        simp only [result] at step
        cases step
        exact sound'
      · cases step
        exact sound_finish sound found (by simp [Vct.inHand])

theorem sound_new : new.Sound := by
  refine ⟨fun pos => ?_, fun start => ?_, nofun⟩
  · refine ⟨?_, ?_, nofun, nofun, List.nodup_nil, nofun, nofun, List.nodup_nil, fun _ => rfl⟩
    · exact (by decide : ∀ pos, 3 ≤ arrSzMap pos) pos
    · exact (by decide : ∀ pos, 2 * arrSzMap pos ≤ cacheBlockSize) pos
  · simp [startCount, new, BufferPool.starts]

theorem count_owned_erase {owned : List (Fin 28 × ℕ)} {pos : Fin 28} {bys : ℕ}
    (mem : (pos, bys) ∈ owned) (other : Fin 28) (address : ℕ) :
    (owned.erase (pos, bys)).count (other, address) +
        (if other = pos then [bys].count address else 0) = owned.count (other, address) := by
  have split := (List.perm_cons_erase mem).count_eq (other, address)
  rw [count_owned_cons] at split
  exact split.symm

theorem sound_next (sound : cache.Sound) {event : CacheEvent} {cache' : CachePool}
    (regular : Regular cache event) (step : next cache event = some cache') : cache'.Sound := by
  cases event with
  | apply pos pick fresh =>
      rcases Option.ite_none_right_eq_some.mp step with ⟨free, step⟩
      rcases Option.map_eq_some_iff.mp step with ⟨⟨bys, pool', vctFreeBuf'⟩, applied, rfl⟩
      apply sound_single sound _ _ (allocated_nodup _ _ _) (allocated_fresh free.2)
      · intro taken' moved
        apply (sound.pools pos).apply (sound.room free.2) applied
        intro address
        have counts := moved address
        rw [count_owned_cons, if_pos rfl] at counts
        change _ = _ + (_ + [bys].count address) at counts
        omega
      · intro other differ address
        rw [count_owned_cons, if_neg differ]
        rfl
  | release pos bys =>
      rcases Option.ite_none_right_eq_some.mp step with ⟨free, step⟩
      have out : 0 < cache.taken pos bys :=
        List.count_pos_iff.mpr (List.mem_append_right _ free.2)
      rcases Option.map_eq_some_iff.mp step with ⟨⟨pool', vctFreeBuf'⟩, released, rfl⟩
      apply sound_single sound _ _ List.nodup_nil nofun
      · intro taken' moved
        rcases @BufferPool.Sound.release _ _ taken' _ (sound.pools pos) sound.aligned _
          out regular (by
          intro address
          have counts := moved address
          have erased := count_owned_erase free.2 pos address
          rw [if_pos rfl] at erased
          omega) with ⟨pool'', vctFreeBuf'', result, kept⟩
        rw [result] at released
        cases released
        exact kept
      · intro other differ address
        have erased := count_owned_erase free.2 other address
        rwa [if_neg differ] at erased
  | newVct pos capacity bys =>
      rcases Option.ite_none_right_eq_some.mp step with ⟨meets, ⟨⟩⟩
      refine sound.frame (fun other => ⟨(cache.arrayPool other).spinMutex, rfl⟩) rfl ?_
      intro other address
      have sub := meets.2.2.count_le (other, address)
      have held := count_held { pos := pos, capacity := capacity, bys := bys } other address
      rw [taken_eq, taken_eq, total_append, total_cons, total_nil, held, List.count_diff]
      rw [count_blocks] at sub ⊢
      simp only [Vct.inHand, List.append_nil] at sub ⊢
      omega
  | unload k =>
      simp only [next, Option.bind_eq_bind] at step
      rcases Option.bind_eq_some_iff.mp step with ⟨vct, found, step⟩
      rcases Option.ite_none_right_eq_some.mp step with ⟨idle, ⟨⟩⟩
      refine sound.frame (fun other => ⟨(cache.arrayPool other).spinMutex, rfl⟩) rfl ?_
      intro pos address
      have balance := @taken_setVct _ _ _ found
        { cache.setVct k { vct with bys := [] } with owned := vct.held ++ cache.owned } _
        rfl pos address
      simp only [Vct.held, List.count_append, count_blocks, Vct.inHand, idle, List.append_nil,
        List.count_nil, ite_self, Nat.add_zero] at balance ⊢
      omega
  | pop k =>
      simp only [next, Option.bind_eq_bind] at step
      rcases Option.bind_eq_some_iff.mp step with ⟨vct, found, step⟩
      rcases Option.ite_none_right_eq_some.mp step with ⟨idle, step⟩
      split at step
      · exact sound_start sound found step rfl rfl rfl (by simp [Vct.inHand, idle])
      · rcases Option.map_eq_some_iff.mp step with ⟨bys, last, rfl⟩
        exact sound_pop sound found last rfl
          (fun pos => ⟨(cache.arrayPool pos).spinMutex, rfl⟩) rfl rfl rfl
  | push k bys =>
      simp only [next, Option.bind_eq_bind] at step
      rcases Option.bind_eq_some_iff.mp step with ⟨vct, found, step⟩
      rcases Option.ite_none_right_eq_some.mp step with ⟨meets, step⟩
      split at step
      · apply sound_start sound found step rfl rfl rfl
        intro pos address
        have erased := count_owned_erase meets.2 pos address
        by_cases here : pos = vct.pos
        · simpa [Vct.inHand, meets.1, here] using erased
        · rw [if_neg here] at erased ⊢
          rw [if_neg here]
          exact erased
      · cases step
        refine sound.frame (fun other => ⟨(cache.arrayPool other).spinMutex, rfl⟩) rfl ?_
        intro pos address
        have balance := @taken_setVct _ _ _ found
          (({ cache with owned := cache.owned.erase (vct.pos, bys) } : CachePool).setVct
            k { vct with bys := vct.bys ++ [bys] }) _ rfl pos address
        have erased := count_owned_erase meets.2 pos address
        simp only [setVct, List.count_append, Vct.inHand] at balance erased ⊢
        by_cases here : pos = vct.pos
        · simp only [if_pos here] at balance erased
          omega
        · simp only [if_neg here] at balance erased
          omega
  | batchApply k =>
      simp only [next, Option.bind_eq_bind] at step
      rcases Option.bind_eq_some_iff.mp step with ⟨vct, found, step⟩
      rcases Option.ite_none_right_eq_some.mp step with ⟨idle, step⟩
      exact sound_start sound found step rfl rfl rfl (by simp [Vct.inHand, idle])
  | batchRelease k bAll =>
      simp only [next, Option.bind_eq_bind] at step
      rcases Option.bind_eq_some_iff.mp step with ⟨vct, found, step⟩
      rcases Option.ite_none_right_eq_some.mp step with ⟨idle, step⟩
      exact sound_start sound found step rfl rfl rfl (by simp [Vct.inHand, idle])
  | iterate k pick fresh =>
      simp only [next, Option.bind_eq_bind] at step
      rcases Option.bind_eq_some_iff.mp step with ⟨vct, found, step⟩
      exact sound_iterate sound found (regular vct found) step

/-! ## One owner -/

/-- The addresses of the blocks that have been taken from a pool. -/
def blocksOut (cache : CachePool) (pos : Fin 28) : List ℕ :=
  (cache.outstanding.filter fun block => block.1 = pos).map Prod.snd

structure OneOwner (cache : CachePool) : Prop where
  /-- The blocks of the buffers of a pool are what is free in it and what callers have. -/
  places : ∀ pos, ((cache.arrayPool pos).mapBuffer.flatMap Buffer.freeBlocks ++
    cache.blocksOut pos).Perm ((cache.arrayPool pos).mapBuffer.flatMap Buffer.blocks)
  once : ∀ pos, ((cache.arrayPool pos).mapBuffer.flatMap Buffer.blocks).Nodup
  apart : ∀ pos other, pos ≠ other →
    ((cache.arrayPool pos).mapBuffer.flatMap Buffer.blocks).Disjoint
      ((cache.arrayPool other).mapBuffer.flatMap Buffer.blocks)
  /-- A block that nobody has is in the free list of the buffer in whose range it lies. -/
  home : ∀ pos, ∀ buffer ∈ (cache.arrayPool pos).mapBuffer, ∀ bys ∈ buffer.blocks,
    buffer.pBuf ≤ bys ∧ bys + buffer.eleSize ≤ buffer.pBuf + cacheBlockSize ∧
      ((pos, bys) ∉ cache.outstanding → bys ∈ buffer.freeBlocks)
  registered : ∀ pos, ∀ buffer ∈ (cache.arrayPool pos).mapBuffer, buffer.vctFree ≠ [] →
    buffer.pBuf ∈ (cache.arrayPool pos).mapFreeBuffer
  /-- Nobody has a block of a buffer that has been recycled. -/
  recycled : ∀ pos bys, (pos, bys) ∈ cache.outstanding →
    (∃ buffer ∈ (cache.arrayPool pos).mapBuffer, bys ∈ buffer.blocks) ∧
      ∀ buffer ∈ cache.vctFreeBuf, Buffer.calcAddr bys ≠ buffer.pBuf
  /-- A block is taken back. -/
  returned : ∀ pos bys, (pos, bys) ∈ cache.owned → (cache.arrayPool pos).spinMutex = none →
    Regular cache (.release pos bys) → ∃ cache', next cache (.release pos bys) = some cache'
  /-- An iteration of a batch release returns blocks, or the call is over. -/
  terminates : ∀ k pick fresh vct bAll push, Regular cache (.iterate k pick fresh) →
    cache.vcts[k]? = some vct → vct.stage = .releasing bAll push →
    ∃ cache' vct', next cache (.iterate k pick fresh) = some cache' ∧ cache'.vcts[k]? = some vct' ∧
      (vct'.stage = .idle ∨ vct'.stage = vct.stage ∧ vct'.bys.length < vct.bys.length)

theorem count_blocksOut (cache : CachePool) (pos : Fin 28) (address : ℕ) :
    (cache.blocksOut pos).count address = cache.taken pos address := by
  unfold blocksOut taken
  induction cache.outstanding with
  | nil => rfl
  | cons block blocks ih =>
      rcases block with ⟨other, bys⟩
      rw [count_owned_cons, ← ih]
      by_cases here : other = pos
      · subst here
        rw [List.filter_cons_of_pos (by simp), List.map_cons, ← List.singleton_append,
          List.count_append, if_pos rfl, Nat.add_comm]
      · rw [List.filter_cons_of_neg (by simpa using here), if_neg (Ne.symm here), Nat.add_zero]

theorem Sound.pos_eq (sound : cache.Sound) {pos other : Fin 28} {start : ℕ}
    (mem : start ∈ (cache.arrayPool pos).starts)
    (otherMem : start ∈ (cache.arrayPool other).starts) : pos = other := by
  by_contra differ
  have split := Finset.add_sum_erase Finset.univ
    (fun pos => (cache.arrayPool pos).starts.count start) (Finset.mem_univ pos)
  have le := Finset.single_le_sum (f := fun pos => (cache.arrayPool pos).starts.count start)
    (fun _ _ => Nat.zero_le _) (Finset.mem_erase.mpr ⟨Ne.symm differ, Finset.mem_univ other⟩)
  have first := List.count_pos_iff.mpr mem
  have second := List.count_pos_iff.mpr otherMem
  have once := sound.starts start
  unfold startCount at once
  omega

theorem Sound.oneOwner (sound : cache.Sound) : cache.OneOwner where
  places pos := by
    apply List.perm_iff_count.mpr
    intro address
    have balance := (sound.pools pos).balance address
    rw [List.count_append, count_blocksOut]
    exact balance
  once pos := (sound.pools pos).nodup_blocks
  apart pos other differ := by
    intro address mem otherMem
    rcases List.mem_flatMap.mp mem with ⟨buffer, bufferMem, inBlocks⟩
    rcases List.mem_flatMap.mp otherMem with ⟨buffer', bufferMem', inBlocks'⟩
    have home := ((sound.pools pos).cut buffer bufferMem).calcAddr_of_mem inBlocks
    have home' := ((sound.pools other).cut buffer' bufferMem').calcAddr_of_mem inBlocks'
    apply differ
    apply sound.pos_eq (List.mem_map_of_mem bufferMem)
    rw [← home, home']
    exact List.mem_map_of_mem bufferMem'
  home pos buffer mem bys inBlocks := by
    have cut := (sound.pools pos).cut buffer mem
    rcases List.mem_map.mp inBlocks with ⟨index, inRange, rfl⟩
    have fits := cut.offset_lt (List.mem_range.mp inRange)
    refine ⟨Nat.le_add_right _ _, by unfold Buffer.addressOf; omega, fun notOut => ?_⟩
    have zero : cache.taken pos (buffer.addressOf index) = 0 := List.count_eq_zero.mpr notOut
    have balance := (sound.pools pos).balance (buffer.addressOf index)
    have there : 0 < total Buffer.blocks (cache.arrayPool pos).mapBuffer (buffer.addressOf index) :=
      List.count_pos_iff.mpr (List.mem_flatMap.mpr ⟨buffer, mem, inBlocks⟩)
    have free : 0 < total Buffer.freeBlocks (cache.arrayPool pos).mapBuffer
        (buffer.addressOf index) := by omega
    rcases List.mem_flatMap.mp (List.count_pos_iff.mp free) with ⟨other, otherMem, inFree⟩
    have otherCut := (sound.pools pos).cut other otherMem
    have same : other.pBuf = buffer.pBuf := by
      rw [← cut.calcAddr_of_mem inBlocks,
        otherCut.calcAddr_of_mem (otherCut.freeBlocks_subset inFree)]
    rwa [(sound.pools pos).eq_of_pBuf otherMem mem same] at inFree
  registered pos buffer mem some_ := ((sound.pools pos).registered buffer mem).mpr some_
  recycled pos bys out := by
    rcases (sound.pools pos).buffer_of_taken (List.count_pos_iff.mpr out) with
      ⟨buffer, mem, home, inBlocks⟩
    refine ⟨⟨buffer, mem, inBlocks⟩, fun other otherMem same => ?_⟩
    have inPool : 0 < (cache.arrayPool pos).starts.count other.pBuf := by
      apply List.count_pos_iff.mpr
      rw [← same, ← home]
      exact List.mem_map_of_mem mem
    have inFree : 0 < (cache.vctFreeBuf.map Buffer.pBuf).count other.pBuf :=
      List.count_pos_iff.mpr (List.mem_map_of_mem otherMem)
    have le := (cache.startCount_ge pos other.pBuf).trans (sound.starts other.pBuf)
    omega
  returned pos bys mem free regular := by
    have out : 0 < cache.taken pos bys := List.count_pos_iff.mpr (List.mem_append_right _ mem)
    rcases @BufferPool.Sound.release _ _
        (fun address => cache.taken pos address - [bys].count address) _
        (sound.pools pos) sound.aligned _ out regular (by
      intro address
      by_cases same : address = bys
      · subst same
        simp only [List.count_singleton_self]
        omega
      · simp [Ne.symm same]) with ⟨pool', vctFreeBuf', result, _⟩
    exact ⟨_, by simp only [next, free, mem, and_self, if_true, result]; rfl⟩
  terminates k pick fresh vct bAll push regular found stage := by
    have less : k < cache.vcts.length := (List.getElem?_eq_some_iff.mp found).1
    rcases vct with ⟨pos, capacity, held, _⟩
    cases stage
    simp only [next, found, Option.bind_eq_bind, Option.bind_some, iterate]
    split
    · rename_i long
      rcases sound.releaseIteration found long (regular _ found bAll rfl) with
        ⟨bys, pool', vctFreeBuf', result, shorter, _⟩
      simp only [result]
      exact ⟨_, { pos := pos, capacity := capacity, bys := bys, stage := .releasing bAll push },
        rfl, by simp [setVct, setPool, less], Or.inr ⟨rfl, shorter⟩⟩
    · exact ⟨_, { pos := pos, capacity := capacity, bys := held ++ push.toList, stage := .idle },
        rfl, by simp [finish, setVct, setPool, less], Or.inl rfl⟩

theorem oneOwner_of_regular (run : Reaches next Regular new cache) : cache.OneOwner := by
  have sound : cache.Sound := run.preserves sound_new
    fun _ _ _ regular sound step => sound_next sound regular step
  exact sound.oneOwner

/-- A vector is filled by a pool and emptied to a quarter, and a single block is taken and
returned. -/
theorem oneOwner_of_regular_batch : ∃ cache, Reaches next Regular new cache ∧
    cache.vcts.map (fun vct => vct.bys.length) = [2] ∧ cache.OneOwner := by
  let events : List CacheEvent :=
    [.newVct 27 8 [], .pop 0, .iterate 0 0 (2 ^ 18), .iterate 0 0 0, .push 0 (2 ^ 18 + 2 * 2 ^ 14),
      .batchRelease 0 false, .iterate 0 0 0, .iterate 0 0 0, .apply 27 0 0,
        .release 27 (2 ^ 18 + 5 * 2 ^ 14)]
  have executed : (execPermitted next Regular events new).map
      (fun cache => cache.vcts.map fun vct => vct.bys.length) = some [2] := by
    decide +kernel
  rcases Option.map_eq_some_iff.mp executed with ⟨cache, run, length⟩
  have reached := reaches_of_execPermitted events run
  exact ⟨cache, reached, length, oneOwner_of_regular reached⟩

/-- The first block of the next buffer goes to the buffer before it. -/
theorem not_oneOwner_buddy :
    ¬∀ cache, Reaches next anyInput new cache → cache.OneOwner := by
  intro always
  let events : List CacheEvent :=
    [.newVct 27 32 [], .batchApply 0, .iterate 0 0 (2 ^ 18), .iterate 0 0 (2 ^ 18 + 2 ^ 17),
      .iterate 0 0 (2 ^ 19), .iterate 0 0 0, .batchRelease 0 true, .iterate 0 0 0]
  have executed : (exec next events new).map (fun cache =>
      ((cache.arrayPool 27).mapBuffer.flatMap Buffer.freeBlocks).count (2 ^ 18)) = some 2 := by
    decide +kernel
  rcases Option.map_eq_some_iff.mp executed with ⟨cache, run, twice⟩
  have owner := always cache (reaches_of_exec events run)
  have once := List.nodup_iff_count_le_one.mp (owner.once 27) (2 ^ 18)
  have places := (owner.places 27).count_eq (2 ^ 18)
  rw [List.count_append, twice] at places
  omega

end CachePool

end RapidDb
