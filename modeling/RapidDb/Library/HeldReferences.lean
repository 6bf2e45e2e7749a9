import RapidDb.Library.RefCounts
import Mathlib.Data.List.Count

/-!
# References that are held

A computation holds references to some objects, old ones and new ones; of the others that it has
taken none is left. Computations that follow one another hold the references of both, and a
reference that is held can be released.
-/

namespace RapidDb

namespace RefHeap

variable {limit : ℕ} {V : Type*}

theorem read_new (heap : RefHeap limit V) (value : V) (room : 1 < limit) :
    (heap.new value room).2.read heap.next = some value := by
  have newCell : (heap.new value room).2.cells heap.next = some (RefCell.single value room) :=
    if_pos rfl
  rw [read, newCell]
  rfl

theorem read_decRef {heap heap' : RefHeap limit V} {ptr other : ℕ}
    (released : heap.decRef ptr = some heap') (apart : other ≠ ptr) :
    heap'.read other = heap.read other := by
  cases found : heap.cells ptr with
  | none =>
      unfold decRef at released
      split at released
      · cases released
      · rename_i cell there
        rw [found] at there
        cases there
  | some cell =>
      rcases decRef_eq found with ⟨after, decEq, -, cells⟩
      rw [released] at decEq
      cases decEq
      rw [read, cells other, if_neg apart, read]

/-- A computation that has held `peak` references at one time holds those of a list. An object that
it has made has only the reference that is held. -/
structure Holds (heap heap' : RefHeap limit V) (peak : ℕ → ℕ) (held : List ℕ)
    (room : 1 < limit) : Prop where
  next_le : heap.next ≤ heap'.next
  within : ∀ ptr < heap.next, held.count ptr ≤ peak ptr
  old : ∀ ptr < heap.next,
    heap'.cells ptr = (heap.cells ptr).map (RefCell.settle (peak ptr) (held.count ptr))
  made : ∀ ptr, heap.next ≤ ptr → ptr ∈ held →
    held.count ptr = 1 ∧ ∃ value, heap'.cells ptr = some (RefCell.single value room)
  gone : ∀ ptr, heap.next ≤ ptr → ptr ∉ held → heap'.cells ptr = none
  points : ∀ ptr ∈ held, ∃ cell, heap'.cells ptr = some cell

namespace Holds

variable {heap heap1 heap2 : RefHeap limit V} {peak peak' peak1 peak2 : ℕ → ℕ}
  {held held1 held2 : List ℕ} {ptr : ℕ} {value : V} {room : 1 < limit}

theorem refl (heap : RefHeap limit V) (room : 1 < limit) :
    Holds heap heap (fun _ => 0) [] room where
  next_le := Nat.le_refl _
  within _ _ := by simp
  old ptr _ := by
    cases heap.cells ptr with
    | none => rfl
    | some cell => exact congrArg some (RefCell.settle_zero cell).symm
  made _ _ mem := by simp at mem
  gone ptr isNew _ := heap.free ptr isNew
  points _ mem := by simp at mem

theorem congr (holds : Holds heap heap1 peak held room)
    (agree : ∀ ptr < heap.next, peak' ptr = peak ptr) : Holds heap heap1 peak' held room where
  next_le := holds.next_le
  within ptr below := by
    rw [agree ptr below]
    exact holds.within ptr below
  old ptr below := by
    rw [agree ptr below]
    exact holds.old ptr below
  made := holds.made
  gone := holds.gone
  points := holds.points

theorem read_old (holds : Holds heap heap1 peak held room) (reads : heap.read ptr = some value) :
    heap1.read ptr = some value := by
  rcases Option.map_eq_some_iff.mp reads with ⟨cell, found, -⟩
  rw [RefHeap.read, holds.old ptr (RefHeap.lt_next found), Option.map_map]
  exact reads

theorem cells_full (holds : Holds heap heap1 peak held room) {cell : RefCell limit V}
    (found : heap.cells ptr = some cell) (full : cell.count = limit) :
    heap1.cells ptr = some cell := by
  rw [holds.old ptr (RefHeap.lt_next found), found, Option.map_some, RefCell.settle_full _ _ full]

theorem lt_next (holds : Holds heap heap1 peak held room) (mem : ptr ∈ held) :
    ptr < heap1.next := by
  rcases holds.points ptr mem with ⟨cell, found⟩
  exact RefHeap.lt_next found

/-- An old object is held, where one reference is added or its count is at the limit. -/
theorem of_cells {cell : RefCell limit V} (found : heap.cells ptr = some cell)
    (nextEq : heap1.next = heap.next)
    (cells : ∀ other, heap1.cells other =
      if other = ptr then some (cell.settle 1 1) else heap.cells other) :
    Holds heap heap1 (fun other => if ptr = other then 1 else 0) [ptr] room where
  next_le := Nat.le_of_eq nextEq.symm
  within other _ := by
    simp only [List.count_singleton, beq_iff_eq]
    exact Nat.le_refl _
  old other _ := by
    rw [cells other]
    by_cases same : ptr = other
    · subst same
      simp [found]
    · rw [if_neg (Ne.symm same), if_neg same, List.count_singleton, if_neg (by simpa using same)]
      cases heap.cells other with
      | none => rfl
      | some cell => exact congrArg some (RefCell.settle_zero cell).symm
  made other isNew mem := by
    obtain rfl : other = ptr := by simpa using mem
    rw [heap.free other isNew] at found
    cases found
  gone other isNew notHeld := by
    rw [cells other, if_neg (by simpa using notHeld)]
    exact heap.free other isNew
  points other mem := by
    obtain rfl : other = ptr := by simpa using mem
    exact ⟨_, by rw [cells other, if_pos rfl]⟩

theorem addRef {cell : RefCell limit V} (found : heap.cells ptr = some cell) (room : 1 < limit) :
    ∃ heap1, heap.addRef ptr = some heap1 ∧
      Holds heap heap1 (fun other => if ptr = other then 1 else 0) [ptr] room := by
  rcases addRef_eq found with ⟨heap1, addEq, nextEq, cells⟩
  refine ⟨heap1, addEq, of_cells found nextEq ?_⟩
  intro other
  rw [cells other, RefCell.inc_eq]

theorem const {cell : RefCell limit V} (found : heap.cells ptr = some cell)
    (full : cell.count = limit) (room : 1 < limit) :
    Holds heap heap (fun other => if ptr = other then 1 else 0) [ptr] room := by
  apply of_cells found rfl
  intro other
  split
  · subst other
    rw [RefCell.settle_full _ _ full, found]
  · rfl

/-- One computation after another, which holds no references to what the first has made and has
not brought their counts to the limit. -/
theorem follow (first : Holds heap heap1 peak1 held1 room)
    (second : Holds heap1 heap2 peak2 held2 room)
    (bound : ∀ ptr, heap.next ≤ ptr → ptr < heap1.next → ptr ∉ held2 ∧ 1 + peak2 ptr < limit) :
    Holds heap heap2 (fun ptr => max (peak1 ptr) (held1.count ptr + peak2 ptr)) (held1 ++ held2)
      room where
  next_le := Nat.le_trans first.next_le second.next_le
  within ptr below := by
    have inFirst := first.within ptr below
    have inSecond := second.within ptr (Nat.lt_of_lt_of_le below first.next_le)
    rw [List.count_append]
    omega
  old ptr below := by
    have inSecond := second.within ptr (Nat.lt_of_lt_of_le below first.next_le)
    rw [second.old ptr (Nat.lt_of_lt_of_le below first.next_le), first.old ptr below,
      List.count_append]
    cases heap.cells ptr with
    | none => rfl
    | some cell => exact congrArg some (RefCell.settle_settle cell inSecond)
  made ptr isNew mem := by
    rw [List.count_append]
    rcases Nat.lt_or_ge ptr heap1.next with below | isNew1
    · rcases bound ptr isNew below with ⟨notSecond, fits⟩
      have inFirst : ptr ∈ held1 := (List.mem_append.mp mem).resolve_right notSecond
      rcases first.made ptr isNew inFirst with ⟨once, value, cellEq⟩
      refine ⟨by rw [once, List.count_eq_zero.mpr notSecond], value, ?_⟩
      rw [second.old ptr below, cellEq, List.count_eq_zero.mpr notSecond, Option.map_some,
        (RefCell.settle_eq_self_iff _ _).mpr fun _ => fits]
    · have notFirst : ptr ∉ held1 := fun inFirst =>
        absurd isNew1 (Nat.not_le_of_lt (first.lt_next inFirst))
      have inSecond := (List.mem_append.mp mem).resolve_left notFirst
      rcases second.made ptr isNew1 inSecond with ⟨once, value, cellEq⟩
      exact ⟨by rw [once, List.count_eq_zero.mpr notFirst], value, cellEq⟩
  gone ptr isNew notHeld := by
    rw [List.mem_append, not_or] at notHeld
    rcases Nat.lt_or_ge ptr heap1.next with below | isNew1
    · rw [second.old ptr below, first.gone ptr isNew notHeld.1]
      rfl
    · exact second.gone ptr isNew1 notHeld.2
  points ptr mem := by
    rcases List.mem_append.mp mem with inFirst | inSecond
    · rcases first.points ptr inFirst with ⟨cell, found⟩
      exact ⟨_, by rw [second.old ptr (first.lt_next inFirst), found, Option.map_some]⟩
    · exact second.points ptr inSecond

/-- One computation after another, which takes no references to what the first has made. -/
theorem trans (first : Holds heap heap1 peak1 held1 room)
    (second : Holds heap1 heap2 peak2 held2 room)
    (oldOnly : ∀ ptr, heap.next ≤ ptr → peak2 ptr = 0) :
    Holds heap heap2 (fun ptr => max (peak1 ptr) (held1.count ptr + peak2 ptr)) (held1 ++ held2)
      room := by
  apply first.follow second
  intro ptr isNew below
  have within := second.within ptr below
  rw [oldOnly ptr isNew] at within ⊢
  exact ⟨List.count_eq_zero.mp (Nat.le_zero.mp within), room⟩

theorem new (holds : Holds heap heap1 peak held room) (value : V) :
    Holds heap (heap1.new value room).2 peak (heap1.next :: held) room where
  next_le := Nat.le_succ_of_le holds.next_le
  within ptr below := by
    have nextLe := holds.next_le
    rw [List.count_cons_of_ne (by omega)]
    exact holds.within ptr below
  old ptr below := by
    have nextLe := holds.next_le
    have cellEq : (heap1.new value room).2.cells ptr = heap1.cells ptr := if_neg (by omega)
    rw [cellEq, holds.old ptr below, List.count_cons_of_ne (by omega)]
  made ptr isNew mem := by
    have newCell : (heap1.new value room).2.cells heap1.next =
        some (RefCell.single value room) := if_pos rfl
    by_cases isLast : ptr = heap1.next
    · subst isLast
      have notHeld : heap1.next ∉ held := fun inHeld =>
        absurd (holds.lt_next inHeld) (Nat.lt_irrefl _)
      refine ⟨?_, value, newCell⟩
      rw [List.count_cons_self, List.count_eq_zero.mpr notHeld]
    · have inHeld := (List.mem_cons.mp mem).resolve_left isLast
      have cellEq : (heap1.new value room).2.cells ptr = heap1.cells ptr := if_neg isLast
      rw [cellEq, List.count_cons_of_ne (Ne.symm isLast)]
      exact holds.made ptr isNew inHeld
  gone ptr isNew notHeld := by
    rw [List.mem_cons, not_or] at notHeld
    have cellEq : (heap1.new value room).2.cells ptr = heap1.cells ptr := if_neg notHeld.1
    rw [cellEq]
    exact holds.gone ptr isNew notHeld.2
  points ptr mem := by
    rcases List.mem_cons.mp mem with rfl | inHeld
    · exact ⟨_, if_pos rfl⟩
    · rcases holds.points ptr inHeld with ⟨cell, found⟩
      exact ⟨cell, (if_neg (Nat.ne_of_lt (holds.lt_next inHeld))).trans found⟩

theorem decRef (holds : Holds heap heap1 peak held room) (mem : ptr ∈ held) :
    ∃ heap2, heap1.decRef ptr = some heap2 ∧ Holds heap heap2 peak (held.erase ptr) room := by
  rcases holds.points ptr mem with ⟨cell, found⟩
  rcases decRef_eq found with ⟨heap2, decEq, nextEq, cells⟩
  have once : held.count ptr = (held.erase ptr).count ptr + 1 := by
    have positive : 0 < held.count ptr := List.count_pos_iff.mpr mem
    rw [List.count_erase_self]
    omega
  have released (below : ptr < heap.next) :
      cell.dec = (heap.cells ptr).map (RefCell.settle (peak ptr) ((held.erase ptr).count ptr)) := by
    have inPeak := holds.within ptr below
    have cellEq := holds.old ptr below
    rw [found, once] at cellEq
    exact RefCell.dec_of_map cellEq (by omega)
  refine ⟨heap2, decEq, ?_, ?_, ?_, ?_, ?_, ?_⟩
  · rw [nextEq]
    exact holds.next_le
  · intro other below
    exact Nat.le_trans (List.erase_sublist.count_le other) (holds.within other below)
  · intro other below
    rw [cells other]
    by_cases same : other = ptr
    · subst same
      rw [if_pos rfl]
      exact released below
    · rw [if_neg same, List.count_erase_of_ne same]
      exact holds.old other below
  · intro other isNew inErased
    rcases holds.made other isNew (List.mem_of_mem_erase inErased) with ⟨single, value, cellEq⟩
    have apart : other ≠ ptr := by
      rintro rfl
      have positive : 0 < (held.erase other).count other := List.count_pos_iff.mpr inErased
      omega
    rw [cells other, if_neg apart, List.count_erase_of_ne apart]
    exact ⟨single, value, cellEq⟩
  · intro other isNew notHeld
    rw [cells other]
    by_cases same : other = ptr
    · subst same
      rcases holds.made other isNew mem with ⟨-, value, cellEq⟩
      rw [found] at cellEq
      cases cellEq
      rw [if_pos rfl]
      exact RefCell.dec_single _ _
    · rw [if_neg same]
      exact holds.gone other isNew fun inHeld => notHeld ((List.mem_erase_of_ne same).mpr inHeld)
  · intro other inErased
    rw [cells other]
    by_cases same : other = ptr
    · subst same
      have below : other < heap.next := by
        by_contra isNew
        have single := (holds.made other (Nat.le_of_not_lt isNew) mem).1
        have positive : 0 < (held.erase other).count other := List.count_pos_iff.mpr inErased
        omega
      have cellEq := holds.old other below
      rw [if_pos rfl, released below]
      cases origin : heap.cells other with
      | none =>
          rw [found, origin] at cellEq
          cases cellEq
      | some old => exact ⟨_, rfl⟩
    · rw [if_neg same]
      exact holds.points other (List.mem_of_mem_erase inErased)

/-- When nothing is held, only counts that have come to the limit have changed. -/
theorem cells_of_nil (holds : Holds heap heap1 peak [] room) (other : ℕ) :
    heap1.cells other = (heap.cells other).map (RefCell.settle (peak other) 0) := by
  rcases Nat.lt_or_ge other heap.next with below | isNew
  · exact holds.old other below
  · rw [holds.gone other isNew (List.not_mem_nil), heap.free other isNew]
    rfl

end Holds

/-- A computation has returned an object, or a null pointer where there is none, and holds it. An
old one is that at the leaf. -/
structure Returned (heap after : RefHeap limit V) (peak : ℕ → ℕ) (leaf ptr : Option ℕ)
    (value : Option V) (room : 1 < limit) : Prop where
  holds : Holds heap after peak ptr.toList room
  value_eq : ptr.bind after.read = value
  leaf_iff : ∀ other < heap.next, leaf = some other ↔ ptr = some other

namespace Returned

variable {heap heap1 heap2 : RefHeap limit V} {peak peak1 peak2 : ℕ → ℕ}
  {leaf leaf1 leaf2 ptr : Option ℕ} {ptr1 ptr2 : ℕ} {value1 value2 : V} {value : Option V}
  {room : 1 < limit}

theorem ptr_eq (returned : Returned heap heap1 peak leaf ptr (some value1) room) :
    ∃ place, ptr = some place ∧ heap1.read place = some value1 := by
  cases ptr with
  | none => cases returned.value_eq
  | some place => exact ⟨place, rfl, returned.value_eq⟩

theorem ptr_none (returned : Returned heap heap1 peak leaf ptr none room) : ptr = none := by
  cases ptr with
  | none => rfl
  | some place =>
      rcases returned.holds.points place (by simp) with ⟨cell, found⟩
      have reads := returned.value_eq
      rw [Option.bind_some, read, found] at reads
      cases reads

theorem count_eq (returned : Returned heap heap1 peak leaf ptr value room) {other : ℕ}
    (below : other < heap.next) :
    ptr.toList.count other = if leaf = some other then 1 else 0 := by
  simp only [returned.leaf_iff other below]
  cases ptr with
  | none => rfl
  | some place => simp [List.count_singleton]

theorem replace (returned : Returned heap heap1 peak leaf (some ptr1) (some value1) room)
    (result : V) :
    ∃ heap2, (heap1.new result room).2.decRef ptr1 = some heap2 ∧
      Returned heap heap2 peak none (some heap1.next) (some result) room := by
  have apart : heap1.next ≠ ptr1 := (Nat.ne_of_lt (returned.holds.lt_next (by simp))).symm
  have made := returned.holds.new result
  rcases made.decRef (List.mem_cons_of_mem heap1.next (List.mem_singleton_self ptr1)) with
    ⟨heap2, decEq, holds⟩
  refine ⟨heap2, decEq, ?_, ?_, ?_⟩
  · simpa [List.erase_cons_tail, apart] using holds
  · rw [Option.bind_some, read_decRef decEq apart, read_new]
  · intro other below
    have nextLe := returned.holds.next_le
    simp only [reduceCtorEq, Option.some.injEq, false_iff]
    omega

theorem combine (returned1 : Returned heap heap1 peak1 leaf1 (some ptr1) (some value1) room)
    (returned2 : Returned heap1 heap2 peak2 leaf2 (some ptr2) (some value2) room)
    (oldOnly : ∀ other, heap.next ≤ other → peak2 other = 0) (result : V) :
    ∃ heap3 heap4, (heap2.new result room).2.decRef ptr1 = some heap3 ∧
      heap3.decRef ptr2 = some heap4 ∧
      Returned heap heap4
        (fun other => max (peak1 other) ((if leaf1 = some other then 1 else 0) + peak2 other))
        none (some heap2.next) (some result) room := by
  have both := returned1.holds.trans returned2.holds oldOnly
  have apart1 : heap2.next ≠ ptr1 := (Nat.ne_of_lt (both.lt_next (by simp))).symm
  have apart2 : heap2.next ≠ ptr2 := (Nat.ne_of_lt (both.lt_next (by simp))).symm
  have made := both.new result
  rcases made.decRef (List.mem_cons_of_mem heap2.next (by simp : ptr1 ∈ _)) with
    ⟨heap3, dec1, holds3⟩
  have erased : (heap2.next :: ([ptr1] ++ [ptr2])).erase ptr1 = [heap2.next, ptr2] := by
    simp [List.erase_cons_tail, apart1]
  change heap.Holds heap3 _ ((heap2.next :: ([ptr1] ++ [ptr2])).erase ptr1) _ at holds3
  rw [erased] at holds3
  rcases holds3.decRef (List.mem_cons_of_mem heap2.next (List.mem_singleton_self ptr2)) with
    ⟨heap4, dec2, holds4⟩
  have nextLe := both.next_le
  refine ⟨heap3, heap4, dec1, dec2, ?_, ?_, ?_⟩
  · apply Holds.congr (by simpa [List.erase_cons_tail, apart2] using holds4)
    intro other below
    rw [← returned1.count_eq below]
    rfl
  · rw [Option.bind_some, read_decRef dec2 apart2, read_decRef dec1 apart1,
      read_new]
  · intro other below
    simp only [reduceCtorEq, Option.some.injEq, false_iff]
    omega

end Returned

end RefHeap

end RapidDb
