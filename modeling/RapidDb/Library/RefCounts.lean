import Mathlib.Data.Nat.Init
import Mathlib.Tactic.Common

/-!
# Counted references

Objects with a count of the references to them. A count that has come to the limit stays there
for good, and the object of such a count is never deleted. A computation takes references for a
while and returns one object, either an old one with one more reference or a new one. What it
leaves behind depends on the most references it has held at one time: the counts are restored
where that many fit below the limit.
-/

namespace RapidDb

@[ext]
structure RefCell (limit : ℕ) (V : Type*) where
  value : V
  count : ℕ
  count_pos : 0 < count
  count_le : count ≤ limit

/-- The objects that exist, by their addresses. -/
structure RefHeap (limit : ℕ) (V : Type*) where
  cells : ℕ → Option (RefCell limit V)
  next : ℕ
  free : ∀ ptr, next ≤ ptr → cells ptr = none

namespace RefCell

variable {limit : ℕ} {V : Type*}

def single (value : V) (room : 1 < limit) : RefCell limit V where
  value := value
  count := 1
  count_pos := Nat.one_pos
  count_le := Nat.le_of_lt room

def inc (cell : RefCell limit V) : RefCell limit V :=
  if below : cell.count < limit then
    { cell with
      count := cell.count + 1
      count_pos := Nat.succ_pos _
      count_le := below }
  else
    cell

/-- One reference less; the object is deleted with its last one. -/
def dec (cell : RefCell limit V) : Option (RefCell limit V) :=
  if cell.count = limit then some cell
  else if more : 1 < cell.count then
    some
      { cell with
        count := cell.count - 1
        count_pos := Nat.sub_pos_of_lt more
        count_le := Nat.le_trans (Nat.sub_le _ _) cell.count_le }
  else
    none

/-- After a computation that has held `peak` references at one time and keeps `held` of them. -/
def settle (peak held : ℕ) (cell : RefCell limit V) : RefCell limit V where
  value := cell.value
  count := if cell.count + peak < limit then min limit (cell.count + held) else limit
  count_pos := by
    have positive := cell.count_pos
    have le := cell.count_le
    split <;> omega
  count_le := by split <;> omega

theorem settle_zero (cell : RefCell limit V) : cell.settle 0 0 = cell := by
  have le := cell.count_le
  ext
  · rfl
  · simp only [settle]
    split <;> omega

theorem settle_full (peak held : ℕ) {cell : RefCell limit V} (full : cell.count = limit) :
    cell.settle peak held = cell := by
  ext
  · rfl
  · simp only [settle, full]
    split <;> omega

/-- One computation after another one. -/
theorem settle_settle {peak1 held1 peak2 held2 : ℕ} (cell : RefCell limit V)
    (within2 : held2 ≤ peak2) :
    (cell.settle peak1 held1).settle peak2 held2 =
      cell.settle (max peak1 (held1 + peak2)) (held1 + held2) := by
  ext
  · rfl
  · simp only [settle]
    split <;> split <;> split <;> omega

/-- Taking one reference and keeping it. -/
theorem inc_eq (cell : RefCell limit V) : cell.inc = cell.settle 1 1 := by
  have le := cell.count_le
  unfold inc
  split
  · ext
    · rfl
    · simp only [settle]
      split <;> omega
  · ext
    · rfl
    · simp only [settle]
      split <;> omega

theorem dec_settle {peak held : ℕ} (cell : RefCell limit V) (within : held + 1 ≤ peak) :
    (cell.settle peak (held + 1)).dec = some (cell.settle peak held) := by
  have positive := cell.count_pos
  by_cases below : cell.count + peak < limit
  · have kept : (cell.settle peak (held + 1)).count = cell.count + (held + 1) := by
      simp only [settle, if_pos below]
      omega
    have left : (cell.settle peak held).count = cell.count + held := by
      simp only [settle, if_pos below]
      omega
    rw [dec, if_neg (by omega), dif_pos (by omega)]
    congr 1
    ext
    · rfl
    · simp only [kept, left]
      omega
  · have kept : (cell.settle peak (held + 1)).count = limit := if_neg below
    have left : (cell.settle peak held).count = limit := if_neg below
    rw [dec, if_pos kept]
    congr 1
    ext
    · rfl
    · rw [kept, left]

theorem dec_of_map {cell : RefCell limit V} {before : Option (RefCell limit V)} {peak held : ℕ}
    (cellEq : some cell = before.map (settle peak (held + 1))) (within : held + 1 ≤ peak) :
    cell.dec = before.map (settle peak held) := by
  cases before with
  | none => cases cellEq
  | some old =>
      cases cellEq
      exact dec_settle old within

theorem dec_single (value : V) (room : 1 < limit) : (single value room).dec = none := by
  simp [dec, single, Nat.ne_of_lt room]

/-- The count is restored when as many references fit below the limit, or when it has been there
before. -/
theorem settle_eq_self_iff (peak : ℕ) (cell : RefCell limit V) :
    cell.settle peak 0 = cell ↔ cell.count < limit → cell.count + peak < limit := by
  have le := cell.count_le
  rw [RefCell.ext_iff]
  simp only [settle, true_and]
  split <;> omega

/-- One reference too few is seen in the count, unless it was at the limit before. -/
theorem dec_settle_ne (peak : ℕ) {cell : RefCell limit V} (below : cell.count < limit) :
    (cell.settle peak 0).dec.map count ≠ some cell.count := by
  have positive := cell.count_pos
  have settled : (cell.settle peak 0).count = cell.count ∨
      (cell.settle peak 0).count = limit := by
    simp only [settle]
    split <;> omega
  rw [dec]
  split
  · simp only [Option.map_some, ne_eq, Option.some.injEq]
    omega
  · split
    · simp only [Option.map_some, ne_eq, Option.some.injEq]
      omega
    · simp

end RefCell

namespace RefHeap

variable {limit : ℕ} {V : Type*}

def read (heap : RefHeap limit V) (ptr : ℕ) : Option V :=
  (heap.cells ptr).map RefCell.value

theorem lt_next {heap : RefHeap limit V} {ptr : ℕ} {cell : RefCell limit V}
    (found : heap.cells ptr = some cell) : ptr < heap.next := by
  by_contra notBelow
  rw [heap.free ptr (Nat.le_of_not_lt notBelow)] at found
  cases found

def new (heap : RefHeap limit V) (value : V) (room : 1 < limit) : ℕ × RefHeap limit V :=
  (heap.next,
    { cells := fun ptr => if ptr = heap.next then some (RefCell.single value room)
        else heap.cells ptr
      next := heap.next + 1
      free := by
        intro ptr le
        rw [if_neg (by omega)]
        exact heap.free ptr (by omega) })

/-- The heap with another cell, or none, in the place of one. -/
def put (heap : RefHeap limit V) (place : ℕ) (old : RefCell limit V)
    (found : heap.cells place = some old) (cell : Option (RefCell limit V)) : RefHeap limit V where
  cells ptr := if ptr = place then cell else heap.cells ptr
  next := heap.next
  free := by
    intro ptr le
    split
    · rename_i same
      subst same
      rw [heap.free ptr le] at found
      cases found
    · exact heap.free ptr le

/-- One more reference to an object, none when there is no object at the address. -/
def addRef (heap : RefHeap limit V) (ptr : ℕ) : Option (RefHeap limit V) :=
  match found : heap.cells ptr with
  | none => none
  | some cell => some (heap.put ptr cell found cell.inc)

def decRef (heap : RefHeap limit V) (ptr : ℕ) : Option (RefHeap limit V) :=
  match found : heap.cells ptr with
  | none => none
  | some cell => some (heap.put ptr cell found cell.dec)

theorem decRef_eq_none {heap : RefHeap limit V} {ptr : ℕ} (missing : heap.cells ptr = none) :
    heap.decRef ptr = none := by
  unfold decRef
  split
  · rfl
  · rename_i cell found
    rw [missing] at found
    cases found

theorem addRef_eq {heap : RefHeap limit V} {ptr : ℕ} {cell : RefCell limit V}
    (found : heap.cells ptr = some cell) :
    ∃ heap', heap.addRef ptr = some heap' ∧ heap'.next = heap.next ∧
      ∀ other, heap'.cells other = if other = ptr then some cell.inc else heap.cells other := by
  unfold addRef
  split
  · rename_i missing
    rw [missing] at found
    cases found
  · rename_i cell' found'
    rw [found'] at found
    cases found
    exact ⟨_, rfl, rfl, fun other => rfl⟩

theorem decRef_eq {heap : RefHeap limit V} {ptr : ℕ} {cell : RefCell limit V}
    (found : heap.cells ptr = some cell) :
    ∃ heap', heap.decRef ptr = some heap' ∧ heap'.next = heap.next ∧
      ∀ other, heap'.cells other = if other = ptr then cell.dec else heap.cells other := by
  unfold decRef
  split
  · rename_i missing
    rw [missing] at found
    cases found
  · rename_i cell' found'
    rw [found'] at found
    cases found
    exact ⟨_, rfl, rfl, fun other => rfl⟩

end RefHeap

end RapidDb
