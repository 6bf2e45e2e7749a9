import Mathlib.Algebra.Order.Group.Nat
import Mathlib.Data.List.Nodup
import Mathlib.Data.List.Perm.Subperm
import RapidDb.Library.Aligned

/-!
# Buffers and their blocks

A `Buffer` is an aligned piece of memory that is cut into blocks of one size. A `BufferPool` hands
out the blocks of its buffers one by one or many at a time, and takes them back. The buffer of a
block is found by its address.
-/

namespace RapidDb

/-- `Configure::GetCacheBlockSize()`. -/
def cacheBlockSize : ℕ := 2 ^ 17

structure Buffer where
  pBuf : ℕ
  eleSize : ℕ
  maxEle : ℕ
  /-- The indexes of the free blocks, with the last element first. -/
  vctFree : List ℕ
deriving DecidableEq, Repr

namespace Buffer

/-- `Buffer::Init`. -/
def init (pBuf eleSize : ℕ) : Buffer where
  pBuf := pBuf
  eleSize := eleSize
  maxEle := cacheBlockSize / eleSize % 2 ^ 16
  vctFree := (List.range (cacheBlockSize / eleSize % 2 ^ 16)).reverse

/-- `Buffer::CalcAddr`. -/
def calcAddr (address : ℕ) : ℕ := blockStart 17 address

def addressOf (buffer : Buffer) (index : ℕ) : ℕ := buffer.pBuf + buffer.eleSize * index

def isEmpty (buffer : Buffer) : Bool := buffer.vctFree.length == 0

def isFull (buffer : Buffer) : Bool := buffer.vctFree.length == buffer.maxEle

/-- `Buffer::Apply()`. -/
def apply (buffer : Buffer) : Option (ℕ × Buffer) :=
  match buffer.vctFree with
  | [] => none
  | index :: rest => some (buffer.addressOf index, { buffer with vctFree := rest })

/-- `Buffer::Release(Byte *)`. -/
def release (buffer : Buffer) (bys : ℕ) : Buffer :=
  { buffer with
    vctFree := (bys % cacheBlockSize / buffer.eleSize % 2 ^ 16) :: buffer.vctFree }

/-- The loop of `Buffer::Apply` over a vector, which ends when the vector has `cap` elements. -/
def applyLoop (addressOf : ℕ → ℕ) (cap : ℕ) : List ℕ → List ℕ → List ℕ × List ℕ
  | [], vct => ([], vct)
  | index :: rest, vct =>
      if vct.length < cap then applyLoop addressOf cap rest (vct ++ [addressOf index])
      else (index :: rest, vct)

/-- `Buffer::Apply(vector<Byte *> &)`. -/
def applyBatch (buffer : Buffer) (cap : ℕ) (vct : List ℕ) : Buffer × List ℕ :=
  let result := applyLoop buffer.addressOf cap buffer.vctFree vct
  ({ buffer with vctFree := result.1 }, result.2)

/-- The loop of `Buffer::Release` from the end of the vector to its beginning. What has not been
visited is given with the last element first, and what has been visited and stays is kept. -/
def releaseLoop (cap : ℕ) : List ℕ → Buffer → List ℕ → Buffer × List ℕ
  | [], buffer, kept => (buffer, kept)
  | bys :: front, buffer, kept =>
      if bys ^^^ buffer.pBuf > cacheBlockSize then releaseLoop cap front buffer (bys :: kept)
      else if front.length + kept.length = cap then (buffer.release bys, front.reverse ++ kept)
      else releaseLoop cap front (buffer.release bys) kept

/-- `Buffer::Release(vector<Byte *> &, bool)`. -/
def releaseBatch (buffer : Buffer) (cap : ℕ) (vct : List ℕ) : Buffer × List ℕ :=
  releaseLoop cap vct.reverse buffer []

/-- The addresses of all blocks of a buffer. -/
def blocks (buffer : Buffer) : List ℕ := (List.range buffer.maxEle).map buffer.addressOf

def freeBlocks (buffer : Buffer) : List ℕ := buffer.vctFree.map buffer.addressOf

/-- A buffer that has been cut into blocks. -/
structure Cut (buffer : Buffer) : Prop where
  aligned : buffer.pBuf % cacheBlockSize = 0
  eleSize_pos : 0 < buffer.eleSize
  maxEle_eq : buffer.maxEle = cacheBlockSize / buffer.eleSize
  maxEle_pos : 0 < buffer.maxEle
  maxEle_lt : buffer.maxEle < 2 ^ 16
  /-- Only blocks that are there are free. -/
  inside : ∀ index ∈ buffer.vctFree, index < buffer.maxEle

variable {buffer : Buffer} {index bys cap : ℕ}

theorem Cut.offset_lt (cut : buffer.Cut) (less : index < buffer.maxEle) :
    buffer.eleSize * index + buffer.eleSize ≤ cacheBlockSize := by
  have le : buffer.eleSize * (index + 1) ≤ buffer.eleSize * buffer.maxEle :=
    Nat.mul_le_mul_left _ less
  rw [cut.maxEle_eq] at le
  exact le.trans (Nat.mul_div_le _ _)

theorem Cut.calcAddr_addressOf (cut : buffer.Cut) (less : index < buffer.maxEle) :
    calcAddr (buffer.addressOf index) = buffer.pBuf := by
  have fits := cut.offset_lt less
  have pos := cut.eleSize_pos
  exact blockStart_add_offset cut.aligned (by unfold cacheBlockSize at fits; omega)

theorem Cut.index_addressOf (cut : buffer.Cut) (less : index < buffer.maxEle) :
    buffer.addressOf index % cacheBlockSize / buffer.eleSize % 2 ^ 16 = index := by
  have fits := cut.offset_lt less
  have pos := cut.eleSize_pos
  have offset : buffer.addressOf index % cacheBlockSize = buffer.eleSize * index :=
    mod_add_offset cut.aligned (by unfold cacheBlockSize at fits; omega)
  rw [offset, Nat.mul_div_cancel_left _ pos, Nat.mod_eq_of_lt (less.trans cut.maxEle_lt)]

theorem Cut.calcAddr_of_mem (cut : buffer.Cut) (mem : bys ∈ buffer.blocks) :
    calcAddr bys = buffer.pBuf := by
  rcases List.mem_map.mp mem with ⟨index, inRange, rfl⟩
  exact cut.calcAddr_addressOf (List.mem_range.mp inRange)

theorem Cut.addressOf_injective (cut : buffer.Cut) : Function.Injective buffer.addressOf := by
  intro first second same
  have equal : buffer.eleSize * first = buffer.eleSize * second := Nat.add_left_cancel same
  exact Nat.eq_of_mul_eq_mul_left cut.eleSize_pos equal

theorem Cut.nodup_blocks (cut : buffer.Cut) : buffer.blocks.Nodup :=
  List.nodup_range.map cut.addressOf_injective

theorem Cut.freeBlocks_subset (cut : buffer.Cut) : buffer.freeBlocks ⊆ buffer.blocks := by
  intro bys mem
  rcases List.mem_map.mp mem with ⟨index, free, rfl⟩
  exact List.mem_map_of_mem (List.mem_range.mpr (cut.inside index free))

theorem Cut.freeBlocks_perm (cut : buffer.Cut) (full : buffer.isFull = true)
    (nodup : buffer.freeBlocks.Nodup) : buffer.freeBlocks.Perm buffer.blocks := by
  have length : buffer.blocks.length ≤ buffer.freeBlocks.length := by
    have same : buffer.vctFree.length = buffer.maxEle := by simpa [isFull] using full
    rw [blocks, freeBlocks, List.length_map, List.length_map, List.length_range, same]
  exact (List.subperm_of_subset nodup cut.freeBlocks_subset).perm_of_length_le length

theorem Cut.withFree (cut : buffer.Cut) {free : List ℕ}
    (inside : ∀ index ∈ free, index < buffer.maxEle) :
    Cut { buffer with vctFree := free } :=
  { cut with inside := inside }

theorem cut_init {pBuf eleSize : ℕ} (aligned : pBuf % cacheBlockSize = 0)
    (lower : 3 ≤ eleSize) (upper : eleSize ≤ cacheBlockSize) : (init pBuf eleSize).Cut := by
  have pos : 0 < eleSize := lt_of_lt_of_le (by decide) lower
  have le : cacheBlockSize / eleSize ≤ cacheBlockSize / 3 := Nat.div_le_div_left lower (by decide)
  have small : cacheBlockSize / eleSize < 2 ^ 16 := lt_of_le_of_lt le (by decide)
  have exact_ : cacheBlockSize / eleSize % 2 ^ 16 = cacheBlockSize / eleSize :=
    Nat.mod_eq_of_lt small
  refine ⟨aligned, pos, exact_, ?_, Nat.mod_lt _ (by decide), fun index mem => ?_⟩
  · change 0 < cacheBlockSize / eleSize % 2 ^ 16
    rw [exact_]
    exact Nat.div_pos upper pos
  · exact List.mem_range.mp (List.mem_reverse.mp mem)

theorem freeBlocks_init (pBuf eleSize : ℕ) :
    (init pBuf eleSize).freeBlocks.Perm (init pBuf eleSize).blocks :=
  (List.reverse_perm _).map _

/-! ## Batches -/

theorem applyLoop_spec (addressOf : ℕ → ℕ) (cap : ℕ) (free vct : List ℕ) :
    ∃ taken rest, free = taken ++ rest ∧
      applyLoop addressOf cap free vct = (rest, vct ++ taken.map addressOf) ∧
      (rest ≠ [] → cap ≤ vct.length + taken.length) := by
  induction free generalizing vct with
  | nil => exact ⟨[], [], rfl, by simp [applyLoop], fun empty => absurd rfl empty⟩
  | cons index rest ih =>
      by_cases less : vct.length < cap
      · rcases ih (vct ++ [addressOf index]) with ⟨taken, left, split, loop, enough⟩
        refine ⟨index :: taken, left, by rw [split]; rfl, ?_, fun some => ?_⟩
        · rw [applyLoop, if_pos less, loop, List.append_assoc]
          rfl
        · have le := enough some
          rw [List.length_append, List.length_singleton] at le
          rw [List.length_cons]
          omega
      · refine ⟨[], index :: rest, rfl, ?_, fun _ => Nat.not_lt.mp less⟩
        rw [applyLoop, if_neg less]
        simp

theorem Cut.release_eq (cut : buffer.Cut) (less : index < buffer.maxEle) :
    buffer.release (buffer.addressOf index) =
      { buffer with vctFree := index :: buffer.vctFree } := by
  rw [release, cut.index_addressOf less]

/-- The loop takes blocks of the buffer only, unless it comes to the first block of the buddy, and
it takes all of them unless the vector is down to `cap` elements before. -/
theorem releaseLoop_spec (front : List ℕ) (cut : buffer.Cut) (kept : List ℕ)
    (more : cap < front.length + kept.length)
    (own : ∀ bys ∈ front, calcAddr bys = buffer.pBuf → bys ∈ buffer.blocks)
    (apart : ∀ behind before, front = behind ++ buddy 17 buffer.pBuf :: before →
      front.length + kept.length - cap ≤
        behind.countP fun bys => decide (calcAddr bys = buffer.pBuf)) :
    ∃ free left, releaseLoop cap front buffer kept =
        ({ buffer with vctFree := free ++ buffer.vctFree }, left ++ kept) ∧
      front.Perm (free.map buffer.addressOf ++ left) ∧
      (∀ index ∈ free, index < buffer.maxEle) ∧ cap ≤ left.length + kept.length ∧
      (cap < left.length + kept.length → ∀ bys ∈ left, calcAddr bys ≠ buffer.pBuf) := by
  induction front generalizing buffer kept with
  | nil => exact ⟨[], [], rfl, List.Perm.refl _, nofun, Nat.le_of_lt more, nofun⟩
  | cons bys front ih =>
      have near : bys ^^^ buffer.pBuf ≤ cacheBlockSize ↔
          calcAddr bys = buffer.pBuf ∨ bys = buddy 17 buffer.pBuf := xor_le_iff cut.aligned
      have notBuddy : bys ≠ buddy 17 buffer.pBuf := by
        rintro rfl
        have none := apart [] front rfl
        rw [List.countP_nil] at none
        omega
      by_cases far : bys ^^^ buffer.pBuf > cacheBlockSize
      · -- the block stays in the vector
        have other : ¬calcAddr bys = buffer.pBuf := fun same =>
          absurd (near.mpr (Or.inl same)) (Nat.not_le.mpr far)
        have apart' : ∀ behind before, front = behind ++ buddy 17 buffer.pBuf :: before →
            front.length + (bys :: kept).length - cap ≤
              behind.countP fun bys => decide (calcAddr bys = buffer.pBuf) := by
          intro behind before split
          have le := apart (bys :: behind) before (by rw [split]; rfl)
          rw [List.countP_cons_of_neg (by simpa using other)] at le
          simp only [List.length_cons] at le ⊢
          omega
        rcases ih cut (bys :: kept) (by simp only [List.length_cons] at more ⊢; omega)
            (fun other mem => own other (List.mem_cons_of_mem bys mem)) apart' with
          ⟨free, left, loop, perm, inside, enough, all⟩
        refine ⟨free, left ++ [bys], ?_, ?_, inside, ?_, ?_⟩
        · rw [releaseLoop, if_pos far, loop, List.append_assoc]
          rfl
        · rw [← List.append_assoc]
          exact (perm.cons bys).trans (List.perm_append_singleton bys _).symm
        · simp only [List.length_append, List.length_cons, List.length_nil] at enough ⊢
          omega
        · intro notStopped item mem
          rcases List.mem_append.mp mem with mem | mem
          · refine all ?_ item mem
            simp only [List.length_append, List.length_cons, List.length_nil] at notStopped ⊢
            omega
          · rw [List.mem_singleton.mp mem]
            exact other
      · have home : calcAddr bys = buffer.pBuf :=
          (near.mp (Nat.not_lt.mp far)).resolve_right notBuddy
        rcases List.mem_map.mp (own bys List.mem_cons_self home) with ⟨index, mem, rfl⟩
        have less : index < buffer.maxEle := List.mem_range.mp mem
        have taken := cut.release_eq less
        by_cases last : front.length + kept.length = cap
        · refine ⟨[index], front.reverse, ?_, ?_, ?_, ?_, ?_⟩
          · rw [releaseLoop, if_neg far, if_pos last, taken]
            rfl
          · exact (List.reverse_perm front).symm.cons _
          · intro other otherMem
            rw [List.mem_singleton.mp otherMem]
            exact less
          · rw [List.length_reverse]
            exact Nat.le_of_eq last.symm
          · rw [List.length_reverse]
            exact fun notStopped => absurd last (Nat.ne_of_gt notStopped)
        · have cut' : Cut { buffer with vctFree := index :: buffer.vctFree } := by
            refine cut.withFree fun other otherMem => ?_
            rcases List.mem_cons.mp otherMem with rfl | otherMem
            · exact less
            · exact cut.inside other otherMem
          have apart' : ∀ behind before, front = behind ++ buddy 17 buffer.pBuf :: before →
              front.length + kept.length - cap ≤
                behind.countP fun bys => decide (calcAddr bys = buffer.pBuf) := by
            intro behind before split
            have le := apart (buffer.addressOf index :: behind) before (by rw [split]; rfl)
            rw [List.countP_cons_of_pos (by simpa using home)] at le
            simp only [List.length_cons] at le
            omega
          rcases ih cut' kept (by simp only [List.length_cons] at more; omega)
              (fun other mem => own other (List.mem_cons_of_mem _ mem)) apart' with
            ⟨free, left, loop, perm, inside, enough, all⟩
          refine ⟨free ++ [index], left, ?_, ?_, ?_, enough, all⟩
          · rw [releaseLoop, if_neg far, if_neg last, taken, loop, List.append_assoc]
            rfl
          · rw [List.map_append, List.append_assoc]
            exact (perm.cons _).trans List.perm_middle.symm
          · intro other otherMem
            rcases List.mem_append.mp otherMem with otherMem | otherMem
            · exact inside other otherMem
            · rw [List.mem_singleton.mp otherMem]
              exact less

end Buffer

end RapidDb
