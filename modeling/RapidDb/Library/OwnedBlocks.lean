import Mathlib.Logic.Function.Basic
import Mathlib.Tactic.Common

/-!
# Blocks and their owners

A pool hands out blocks of a size that is asked for, and takes them back with the size that is told
to it. An owner does not store that size; it follows from the parts of the owner. A heap is sound
when every owner has a block that was applied with the size that follows from it, no two owners have
the same block, every block that is applied has its owner, and no block has been released otherwise.
-/

namespace RapidDb

/-- Where a pointer points to: nowhere, at a block of the pool, or at other memory. -/
inductive BlockPointer where
  | nullptr
  | block (address : ℕ)
  | outside
deriving DecidableEq, Repr

/-- The objects, and the blocks that are applied with their sizes. -/
structure BlockHeap (V Size : Type*) where
  values : ℕ → Option V
  applied : ℕ → Option Size
  /-- A release has not met a block that was applied with the same size. -/
  fault : Bool

namespace BlockHeap

variable {V Size : Type*}

def empty : BlockHeap V Size where
  values := fun _ => none
  applied := fun _ => none
  fault := false

/-- An object gets a new value, or is removed. -/
def put (heap : BlockHeap V Size) (id : ℕ) (value : Option V) : BlockHeap V Size :=
  { heap with values := Function.update heap.values id value }

def change (heap : BlockHeap V Size) (id : ℕ) (new : V → V) : BlockHeap V Size :=
  match heap.values id with
  | some value => heap.put id (some (new value))
  | none => heap

def apply (heap : BlockHeap V Size) (address : ℕ) (size : Size) : BlockHeap V Size :=
  { heap with applied := Function.update heap.applied address (some size) }

def release [DecidableEq Size] (heap : BlockHeap V Size) (pointer : BlockPointer) (size : Size) :
    BlockHeap V Size :=
  match pointer with
  | .block address =>
      if heap.applied address = some size then
        { heap with applied := Function.update heap.applied address none }
      else
        { heap with fault := true }
  | _ => { heap with fault := true }

/-- What an object owns: a pointer, and the size that goes with it. -/
def holding (owned : V → Option (BlockPointer × Size)) (heap : BlockHeap V Size) (id : ℕ) :
    Option (BlockPointer × Size) :=
  (heap.values id).bind owned

def free [DecidableEq Size] (owned : V → Option (BlockPointer × Size)) (heap : BlockHeap V Size)
    (id : ℕ) : BlockHeap V Size :=
  match heap.holding owned id with
  | some (pointer, size) => heap.release pointer size
  | none => heap

/-- The owners and the blocks that are applied belong together one by one. -/
structure Matched (held : ℕ → Option (BlockPointer × Size)) (applied : ℕ → Option Size) :
    Prop where
  owns : ∀ id pointer size, held id = some (pointer, size) →
    ∃ address, pointer = .block address ∧ applied address = some size
  once : ∀ id1 id2 address size1 size2, held id1 = some (.block address, size1) →
    held id2 = some (.block address, size2) → id1 = id2
  kept : ∀ address size, applied address = some size → ∃ id, held id = some (.block address, size)

structure Sound (owned : V → Option (BlockPointer × Size)) (heap : BlockHeap V Size) : Prop where
  matched : Matched (heap.holding owned) heap.applied
  noFault : heap.fault = false

variable {owned : V → Option (BlockPointer × Size)} {heap : BlockHeap V Size} {id : ℕ}
  {held : ℕ → Option (BlockPointer × Size)} {applied : ℕ → Option Size} {size : Size}

theorem sound_empty : (empty : BlockHeap V Size).Sound owned where
  matched :=
    { owns := fun id pointer size impossible => by cases impossible
      once := fun id1 id2 address size1 size2 impossible => by cases impossible
      kept := fun address size impossible => by cases impossible }
  noFault := rfl

theorem holding_put (value : Option V) :
    (heap.put id value).holding owned =
      Function.update (heap.holding owned) id (value.bind owned) := by
  funext other
  by_cases same : other = id
  · simp [holding, put, same]
  · simp [holding, put, same]

theorem Matched.free (matched : Matched held applied) {address : ℕ}
    (holds : held id = some (.block address, size)) :
    Matched (Function.update held id none) (Function.update applied address none) := by
  refine ⟨?_, ?_, ?_⟩
  · intro other pointer otherSize otherHolds
    by_cases same : other = id
    · rw [same, Function.update_self] at otherHolds
      cases otherHolds
    · rw [Function.update_of_ne same] at otherHolds
      rcases matched.owns other pointer otherSize otherHolds with
        ⟨otherAddress, rfl, isApplied⟩
      have apart : otherAddress ≠ address := by
        rintro rfl
        exact same (matched.once other id otherAddress _ _ otherHolds holds)
      exact ⟨otherAddress, rfl, by rw [Function.update_of_ne apart, isApplied]⟩
  · intro id1 id2 otherAddress size1 size2 holds1 holds2
    have notId {other : ℕ} {otherSize : Size}
        (otherHolds : Function.update held id none other = some (.block otherAddress, otherSize)) :
        held other = some (.block otherAddress, otherSize) := by
      by_cases same : other = id
      · rw [same, Function.update_self] at otherHolds
        cases otherHolds
      · rwa [Function.update_of_ne same] at otherHolds
    exact matched.once id1 id2 otherAddress size1 size2 (notId holds1) (notId holds2)
  · intro otherAddress otherSize isApplied
    by_cases same : otherAddress = address
    · rw [same, Function.update_self] at isApplied
      cases isApplied
    · rw [Function.update_of_ne same] at isApplied
      rcases matched.kept otherAddress otherSize isApplied with ⟨other, otherHolds⟩
      refine ⟨other, ?_⟩
      rw [Function.update_of_ne, otherHolds]
      rintro rfl
      rw [holds] at otherHolds
      cases otherHolds
      exact same rfl

/-- A block that is applied belongs to one that owns nothing when this gets the block and the
size. -/
theorem Matched.renew_iff (matched : Matched held applied) (ownsNothing : held id = none)
    {address : ℕ} (isFree : applied address = none) (new : Option (BlockPointer × Size)) :
    Matched (Function.update held id new) (Function.update applied address (some size)) ↔
      new = some (.block address, size) := by
  have others {other : ℕ} {otherAddress : ℕ} {otherSize : Size}
      (otherHolds : held other = some (.block otherAddress, otherSize)) :
      other ≠ id ∧ otherAddress ≠ address := by
    refine ⟨?_, ?_⟩
    · rintro rfl
      rw [ownsNothing] at otherHolds
      cases otherHolds
    · rintro rfl
      rcases matched.owns other _ _ otherHolds with ⟨found, same, isApplied⟩
      cases same
      rw [isFree] at isApplied
      cases isApplied
  constructor
  · intro after
    rcases after.kept address size (Function.update_self ..) with ⟨other, otherHolds⟩
    by_cases same : other = id
    · rw [same, Function.update_self] at otherHolds
      exact otherHolds
    · rw [Function.update_of_ne same] at otherHolds
      exact absurd rfl (others otherHolds).2
  · rintro rfl
    refine ⟨?_, ?_, ?_⟩
    · intro other pointer otherSize otherHolds
      by_cases same : other = id
      · rw [same, Function.update_self] at otherHolds
        cases otherHolds
        exact ⟨address, rfl, Function.update_self ..⟩
      · rw [Function.update_of_ne same] at otherHolds
        rcases matched.owns other pointer otherSize otherHolds with
          ⟨otherAddress, rfl, isApplied⟩
        exact ⟨otherAddress, rfl, by rw [Function.update_of_ne (others otherHolds).2, isApplied]⟩
    · intro id1 id2 otherAddress size1 size2 holds1 holds2
      by_cases same1 : id1 = id
      · rw [same1, Function.update_self] at holds1
        cases holds1
        by_cases same2 : id2 = id
        · rw [same1, same2]
        · rw [Function.update_of_ne same2] at holds2
          exact absurd rfl (others holds2).2
      · rw [Function.update_of_ne same1] at holds1
        by_cases same2 : id2 = id
        · rw [same2, Function.update_self] at holds2
          cases holds2
          exact absurd rfl (others holds1).2
        · rw [Function.update_of_ne same2] at holds2
          exact matched.once id1 id2 otherAddress size1 size2 holds1 holds2
    · intro otherAddress otherSize isApplied
      by_cases same : otherAddress = address
      · rw [same, Function.update_self] at isApplied
        cases isApplied
        exact ⟨id, by rw [Function.update_self, same]⟩
      · rw [Function.update_of_ne same] at isApplied
        rcases matched.kept otherAddress otherSize isApplied with ⟨other, otherHolds⟩
        exact ⟨other, by rw [Function.update_of_ne (others otherHolds).1, otherHolds]⟩

theorem Matched.move (matched : Matched held applied) {id1 id2 : ℕ} (apart : id1 ≠ id2)
    (ownsNothing : held id1 = none) :
    Matched (Function.update (Function.update held id1 (held id2)) id2 none) applied := by
  -- who has something afterwards has had it before, in its own place or in that of `id2`
  have before {other : ℕ} {pointer : BlockPointer} {otherSize : Size}
      (holds : Function.update (Function.update held id1 (held id2)) id2 none other =
        some (pointer, otherSize)) :
      other ≠ id2 ∧ held (if other = id1 then id2 else other) = some (pointer, otherSize) := by
    by_cases same2 : other = id2
    · rw [same2, Function.update_self] at holds
      cases holds
    · rw [Function.update_of_ne same2] at holds
      refine ⟨same2, ?_⟩
      by_cases same1 : other = id1
      · rw [same1, Function.update_self] at holds
        rwa [if_pos same1]
      · rw [Function.update_of_ne same1] at holds
        rwa [if_neg same1]
  refine ⟨?_, ?_, ?_⟩
  · intro other pointer otherSize holds
    exact matched.owns _ pointer otherSize (before holds).2
  · intro other1 other2 address size1 size2 holds1 holds2
    rcases before holds1 with ⟨notSource1, before1⟩
    rcases before holds2 with ⟨notSource2, before2⟩
    have samePlace := matched.once _ _ address size1 size2 before1 before2
    by_cases same1 : other1 = id1
    · by_cases same2 : other2 = id1
      · rw [same1, same2]
      · rw [if_pos same1, if_neg same2] at samePlace
        exact absurd samePlace.symm notSource2
    · by_cases same2 : other2 = id1
      · rw [if_neg same1, if_pos same2] at samePlace
        exact absurd samePlace notSource1
      · rwa [if_neg same1, if_neg same2] at samePlace
  · intro address otherSize isApplied
    rcases matched.kept address otherSize isApplied with ⟨other, holds⟩
    by_cases source : other = id2
    · refine ⟨id1, ?_⟩
      rw [Function.update_of_ne apart, Function.update_self, ← source, holds]
    · refine ⟨other, ?_⟩
      have notTarget : other ≠ id1 := by
        rintro rfl
        rw [ownsNothing] at holds
        cases holds
      rw [Function.update_of_ne source, Function.update_of_ne notTarget, holds]

variable [DecidableEq Size]

section

variable (sound : heap.Sound owned)

include sound

/-- After a release the object owns nothing, and the others own what they have owned. -/
theorem Sound.free (id : ℕ) :
    (heap.free owned id).values = heap.values ∧ (heap.free owned id).fault = false ∧
      Matched (Function.update (heap.holding owned) id none) (heap.free owned id).applied := by
  unfold BlockHeap.free
  split
  case h_1 pointer size holds =>
    rcases sound.matched.owns id pointer size holds with ⟨address, rfl, isApplied⟩
    rw [release, if_pos isApplied]
    exact ⟨rfl, sound.noFault, sound.matched.free holds⟩
  case h_2 ownsNothing =>
    refine ⟨rfl, sound.noFault, ?_⟩
    rw [← ownsNothing, Function.update_eq_self]
    exact sound.matched

theorem holding_free (id : ℕ) : (heap.free owned id).holding owned = heap.holding owned := by
  funext other
  rw [holding, (sound.free id).1, holding]

theorem Sound.settle {new : Option V} (ownsNothing : new.bind owned = none) :
    ((heap.free owned id).put id new).Sound owned := by
  rcases sound.free id with ⟨-, noFault, matched⟩
  refine ⟨?_, noFault⟩
  rw [holding_put, holding_free sound, ownsNothing]
  exact matched

theorem Sound.renew_iff {address : ℕ} {new : Option V}
    (isFree : (heap.free owned id).applied address = none) :
    (((heap.free owned id).apply address size).put id new).Sound owned ↔
      new.bind owned = some (.block address, size) := by
  rcases sound.free id with ⟨-, noFault, matched⟩
  have renewed := @Matched.renew_iff _ id _ _ size matched (Function.update_self ..) address isFree
    (new.bind owned)
  rw [Function.update_idem, ← holding_free sound id] at renewed
  rw [← renewed]
  constructor
  · intro after
    have matchedAfter := after.matched
    rwa [holding_put] at matchedAfter
  · intro matchedAfter
    refine ⟨?_, noFault⟩
    rw [holding_put]
    exact matchedAfter

theorem Sound.move {id1 id2 : ℕ} (apart : id1 ≠ id2) {new1 new2 : Option V}
    (takes : new1.bind owned = heap.holding owned id2) (ownsNothing : new2.bind owned = none) :
    (((heap.free owned id1).put id1 new1).put id2 new2).Sound owned := by
  rcases sound.free id1 with ⟨-, noFault, matched⟩
  refine ⟨?_, noFault⟩
  have moved := @matched.move _ _ _ id1 id2 apart (Function.update_self ..)
  rw [Function.update_of_ne apart.symm, Function.update_idem, ← takes, ← ownsNothing] at moved
  rw [holding_put, holding_put, holding_free sound]
  exact moved

/-- An object releases its block and gets that of another, which is changed in its place; the other
may be the object itself. -/
theorem Sound.moveChange {id1 id2 : ℕ} {source new : V} (found : heap.values id2 = some source)
    (takes : owned new = owned source) {emptied : V → V} (ownsNothing1 : owned (emptied new) = none)
    (ownsNothing2 : owned (emptied source) = none) :
    (((heap.free owned id1).put id1 (some new)).change id2 emptied).Sound owned := by
  have values := (sound.free id1).1
  by_cases same : id2 = id1
  · have changed : ((heap.free owned id1).put id1 (some new)).change id2 emptied =
        (heap.free owned id1).put id1 (some (emptied new)) := by
      simp [change, put, same]
    rw [changed]
    exact sound.settle ownsNothing1
  · have changed : ((heap.free owned id1).put id1 (some new)).change id2 emptied =
        ((heap.free owned id1).put id1 (some new)).put id2 (some (emptied source)) := by
      simp [change, put, same, values, found]
    rw [changed]
    refine sound.move (Ne.symm same) ?_ ownsNothing2
    rw [holding, found]
    exact takes

end

theorem free_eq_self (ownsNothing : heap.holding owned id = none) :
    heap.free owned id = heap := by
  rw [free, ownsNothing]

end BlockHeap

end RapidDb
