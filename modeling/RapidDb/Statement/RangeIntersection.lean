import RapidDb.Statement.RangeUnion

/-!
# The intersection of two lists of ranges

`MergeAndQueryRange` asserts that both lists are in order, in a sense in which neighbours do not
touch: where one range ends and the next one starts neither has the value. It drops the range that
ends first, and of two with the same right end the one of the first list, so it relies on that.

The loop asserts that a single value is at both ends of its range, and compares the pointers to do
so. The two ends that `BETWEEN` computes are two objects, whatever their values are. The loop comes
to a single value unless the other list ends before it.
-/

namespace RapidDb

namespace QueryRange

variable {α : Type*} [LinearOrder α] {q r : QueryRange α}

/-- What `CheckQueryRangeOrder` asks of one range. -/
def checkRange (q : QueryRange α) : Bool :=
  if q.dvLeft > q.dvRight then false
  else if q.dvLeft = q.dvRight then
    if q.bRange then false
    else if !q.bIncLeft || !q.bIncRight then false
    else true
  else true

def checkNeighbours (prev q : QueryRange α) : Bool :=
  if prev.dvRight > q.dvLeft then false
  else if prev.dvRight = q.dvLeft then
    if prev.bIncRight || q.bIncLeft then false else true
  else true

def checkQueryRangeOrder : List (QueryRange α) → Bool
  | [] => true
  | [q] => q.checkRange
  | prev :: q :: rest =>
      prev.checkRange && prev.checkNeighbours q && checkQueryRangeOrder (q :: rest)

/-- A range with the answer of `_dvLeft == _dvRight`, the comparison of the two pointers. -/
structure PointedRange (α : Type*) extends QueryRange α where
  samePointer : Bool
  sameValue : samePointer = true → dvLeft = dvRight

/-- The assertion of the loop on a range. -/
def PointedRange.checkPoint (q : PointedRange α) : Bool :=
  q.bRange || q.samePointer

/-- The loop of `MergeAndQueryRange` with its assertions; there is no result if one fails. -/
def assertedLoop : List (PointedRange α) → List (PointedRange α) → Option (List (QueryRange α))
  | v1 :: vctLeft, v2 :: vctRight =>
      if v1.checkPoint && v2.checkPoint then
        if v1.dvRight > v2.dvRight then
          (assertedLoop (v1 :: vctLeft) vctRight).map
            ((mergeAnd v1.toQueryRange v2.toQueryRange).toList ++ ·)
        else
          (assertedLoop vctLeft (v2 :: vctRight)).map
            ((mergeAnd v1.toQueryRange v2.toQueryRange).toList ++ ·)
      else none
  | [], _ => some []
  | _ :: _, [] => some []
termination_by vctLeft vctRight => vctLeft.length + vctRight.length

/-- The ranges of a list. -/
abbrev ranges (vct : List (PointedRange α)) : List (QueryRange α) :=
  vct.map PointedRange.toQueryRange

/-- `MergeAndQueryRange` with its assertions. -/
def assertedMergeAnd (vctLeft vctRight : List (PointedRange α)) : Option (List (QueryRange α)) :=
  if checkQueryRangeOrder (ranges vctLeft) && checkQueryRangeOrder (ranges vctRight) then
    assertedLoop vctLeft vctRight
  else none

/-- Each single value of a list has one object at both ends, as far as the list is passed and one
range further. -/
def CheckedUpTo (passed : PointedRange α → Prop) : List (PointedRange α) → Prop
  | [] => True
  | q :: rest => q.checkPoint = true ∧ (passed q → CheckedUpTo passed rest)

/-- The single values that the loop comes to have one object at both ends: a range is passed if
the other list has one that does not end before it, in the second list one that ends behind it. -/
def PointsChecked (left right : List (PointedRange α)) : Prop :=
  (right ≠ [] → CheckedUpTo (fun q => ∃ r ∈ right, q.dvRight ≤ r.dvRight) left) ∧
    (left ≠ [] → CheckedUpTo (fun q => ∃ r ∈ left, q.dvRight < r.dvRight) right)

/-- Where a range ends and another one starts neither has the value. -/
def Apart (vct : List (QueryRange α)) : Prop :=
  vct.Pairwise fun q r => q.dvRight = r.dvLeft → q.bIncRight = false ∧ r.bIncLeft = false

/-- A sorted list of the common values of two lists. -/
structure IsIntersection (left right result : List (QueryRange α)) : Prop where
  sorted : Sorted result
  contains_iff : ∀ v, (∃ q ∈ result, q.Contains v) ↔
    (∃ q ∈ left, q.Contains v) ∧ ∃ q ∈ right, q.Contains v

variable {left right vct : List (QueryRange α)}

theorem Before.dvRight_le (before : Before q r) : q.dvRight ≤ r.dvLeft := by
  rcases before with less | ⟨same, -⟩
  · exact less.le
  · exact same.le

/-! ## The assertions -/

theorem Proper.checkRange (proper : q.Proper) : q.checkRange = true := by
  unfold QueryRange.checkRange
  rcases proper.room with less | point
  · rw [if_neg (not_lt.mpr less.le), if_neg less.ne]
  · have flag := proper.flagged.mpr point
    rcases point with ⟨same, incLeft, incRight⟩
    rw [if_neg (not_lt.mpr same.le), if_pos same, flag, incLeft, incRight]
    rfl

theorem checkNeighbours_iff (before : Before q r) :
    q.checkNeighbours r = true ↔
      (q.dvRight = r.dvLeft → q.bIncRight = false ∧ r.bIncLeft = false) := by
  unfold checkNeighbours
  rcases before with less | ⟨same, -⟩
  · simp [less.ne, not_lt.mpr less.le]
  · simp [same]

/-- For sorted lists the assertion on the order says that neighbours are apart. -/
theorem Sorted.check_iff (sorted : Sorted vct) :
    checkQueryRangeOrder vct = true ↔ Apart vct := by
  rcases sorted with ⟨proper, ordered⟩
  induction vct with
  | nil => simp [checkQueryRangeOrder, Apart]
  | cons prev vct ih =>
      rw [List.forall_mem_cons] at proper
      rw [List.pairwise_cons] at ordered
      cases vct with
      | nil => simp [checkQueryRangeOrder, Apart, proper.1.checkRange]
      | cons q rest =>
          have prevBefore := ordered.1 q List.mem_cons_self
          have rest_iff := ih proper.2 ordered.2
          rw [checkQueryRangeOrder, proper.1.checkRange, Bool.true_and, Bool.and_eq_true, rest_iff,
            checkNeighbours_iff prevBefore]
          have apart_iff : Apart (prev :: q :: rest) ↔
              (∀ r ∈ q :: rest, prev.dvRight = r.dvLeft →
                prev.bIncRight = false ∧ r.bIncLeft = false) ∧ Apart (q :: rest) :=
            List.pairwise_cons
          rw [apart_iff]
          refine and_congr_left fun _ => ⟨?_, fun apart => apart q List.mem_cons_self⟩
          intro apart r mem same
          rcases List.mem_cons.mp mem with rfl | later
          · exact apart same
          · -- The neighbour would be a single value at which the range ends.
            have properQ := proper.2 q List.mem_cons_self
            have between := (List.pairwise_cons.mp ordered.2).1 r later
            have ends : prev.dvRight = q.dvLeft ∧ q.dvLeft = q.dvRight := by
              have before := prevBefore.dvRight_le
              have after := between.dvRight_le
              rw [← same] at after
              exact ⟨le_antisymm before (properQ.le.trans after),
                le_antisymm properQ.le (after.trans before)⟩
            have point := properQ.flagged.mp (properQ.flag_iff.mpr ends.2)
            have exclusive := (apart ends.1).2
            rw [point.2.1] at exclusive
            cases exclusive

omit [LinearOrder α] in
theorem checkedUpTo_congr {passed passed' : PointedRange α → Prop} {list : List (PointedRange α)}
    (same : ∀ q ∈ list, (passed q ↔ passed' q)) :
    CheckedUpTo passed list ↔ CheckedUpTo passed' list := by
  induction list with
  | nil => exact Iff.rfl
  | cons q rest ih =>
      have head := same q List.mem_cons_self
      have tail := ih fun p mem => same p (List.mem_cons_of_mem _ mem)
      simp only [CheckedUpTo, head, tail]

/-- The right ends of a sorted list do not decrease. -/
theorem Sorted.dvRight_le {q : PointedRange α} {rest : List (PointedRange α)}
    (sorted : Sorted (ranges (q :: rest))) (r : PointedRange α) (mem : r ∈ rest) :
    q.dvRight ≤ r.dvRight := by
  have before := (List.pairwise_cons.mp sorted.ordered).1 r.toQueryRange
    (List.mem_map_of_mem mem)
  have proper := sorted.proper r.toQueryRange
    (List.mem_cons_of_mem _ (List.mem_map_of_mem mem))
  exact before.dvRight_le.trans proper.le

theorem Sorted.tail {q : PointedRange α} {rest : List (PointedRange α)}
    (sorted : Sorted (ranges (q :: rest))) : Sorted (ranges rest) :=
  ⟨(List.forall_mem_cons.mp sorted.proper).2, (List.pairwise_cons.mp sorted.ordered).2⟩

/-- When the range of the second list ends first, the loop goes on behind it. -/
theorem pointsChecked_gt {v1 v2 : PointedRange α} {left right : List (PointedRange α)}
    (greater : v2.dvRight < v1.dvRight) (leftEnds : ∀ q ∈ left, v1.dvRight ≤ q.dvRight)
    (checked1 : v1.checkPoint = true) (checked2 : v2.checkPoint = true) :
    PointsChecked (v1 :: left) (v2 :: right) ↔ PointsChecked (v1 :: left) right := by
  have passes (q : PointedRange α) (later : v1.dvRight ≤ q.dvRight) :
      (∃ r ∈ v2 :: right, q.dvRight ≤ r.dvRight) ↔ ∃ r ∈ right, q.dvRight ≤ r.dvRight := by
    rw [List.exists_mem_cons_iff, or_iff_right (not_le.mpr (greater.trans_le later))]
  have rest := checkedUpTo_congr fun q mem => passes q (leftEnds q mem)
  have first : ∃ r ∈ v1 :: left, v2.dvRight < r.dvRight := ⟨v1, List.mem_cons_self, greater⟩
  simp only [PointsChecked, CheckedUpTo, checked1, checked2, rest, passes v1 le_rfl, ne_eq,
    reduceCtorEq, not_false_eq_true, true_implies, true_and, first]
  refine and_congr_left fun _ => ⟨fun up _ => up, fun up reached => ?_⟩
  obtain ⟨r, mem, -⟩ := id reached
  exact up (List.ne_nil_of_mem mem) reached

/-- When the range of the first list does not end behind the other one, the loop leaves it. -/
theorem pointsChecked_le {v1 v2 : PointedRange α} {left right : List (PointedRange α)}
    (notGreater : v1.dvRight ≤ v2.dvRight) (rightEnds : ∀ q ∈ right, v2.dvRight ≤ q.dvRight)
    (checked1 : v1.checkPoint = true) (checked2 : v2.checkPoint = true) :
    PointsChecked (v1 :: left) (v2 :: right) ↔ PointsChecked left (v2 :: right) := by
  have passes (q : PointedRange α) (later : v2.dvRight ≤ q.dvRight) :
      (∃ r ∈ v1 :: left, q.dvRight < r.dvRight) ↔ ∃ r ∈ left, q.dvRight < r.dvRight := by
    rw [List.exists_mem_cons_iff, or_iff_right (not_lt.mpr (notGreater.trans later))]
  have rest := checkedUpTo_congr fun q mem => passes q (rightEnds q mem)
  have first : ∃ r ∈ v2 :: right, v1.dvRight ≤ r.dvRight := ⟨v2, List.mem_cons_self, notGreater⟩
  simp only [PointsChecked, CheckedUpTo, checked1, checked2, rest, passes v2 le_rfl, ne_eq,
    reduceCtorEq, not_false_eq_true, true_implies, true_and, first]
  refine and_congr_right fun _ => ⟨fun up _ => up, fun up reached => ?_⟩
  obtain ⟨r, mem, -⟩ := id reached
  exact up (List.ne_nil_of_mem mem) reached

/-- The loop comes to its end exactly if its single values are checked. The induction follows the
loop, which leaves one range at a time. -/
theorem assertedLoop_eq (left right : List (PointedRange α)) (leftSorted : Sorted (ranges left))
    (rightSorted : Sorted (ranges right)) :
    (PointsChecked left right →
      assertedLoop left right = some (mergeAndQueryRange (ranges left) (ranges right))) ∧
    (¬PointsChecked left right → assertedLoop left right = none) := by
  fun_induction assertedLoop left right with
  | case1 v1 left v2 right checked greater ih =>
      have both := Bool.and_eq_true_iff.mp checked
      rw [pointsChecked_gt greater leftSorted.dvRight_le both.1 both.2]
      rcases ih leftSorted rightSorted.tail with ⟨ends, fails⟩
      refine ⟨fun points => ?_, fun points => by rw [fails points]; rfl⟩
      rw [ends points]
      simp only [ranges, List.map_cons, mergeAndQueryRange, if_pos greater, Option.map_some]
  | case2 v1 left v2 right checked notGreater ih =>
      have both := Bool.and_eq_true_iff.mp checked
      rw [pointsChecked_le (not_lt.mp notGreater) rightSorted.dvRight_le both.1 both.2]
      rcases ih leftSorted.tail rightSorted with ⟨ends, fails⟩
      refine ⟨fun points => ?_, fun points => by rw [fails points]; rfl⟩
      rw [ends points]
      simp only [ranges, List.map_cons, mergeAndQueryRange, if_neg notGreater, Option.map_some]
  | case3 v1 left v2 right unchecked =>
      refine ⟨fun points => absurd ?_ unchecked, fun _ => rfl⟩
      rw [Bool.and_eq_true]
      exact ⟨(points.1 (List.cons_ne_nil _ _)).1, (points.2 (List.cons_ne_nil _ _)).1⟩
  | case4 right =>
      have points : PointsChecked [] right := ⟨fun _ => trivial, fun empty => absurd rfl empty⟩
      exact ⟨fun _ => by simp [mergeAndQueryRange], fun not => absurd points not⟩
  | case5 v1 left =>
      have points : PointsChecked (v1 :: left) [] :=
        ⟨fun empty => absurd rfl empty, fun _ => trivial⟩
      exact ⟨fun _ => by simp [mergeAndQueryRange], fun not => absurd points not⟩

/-! ## The result -/

theorem flagged_mergeAnd {v1 v2 : QueryRange α} (result : mergeAnd v1 v2 = some q) :
    q.bRange = false ↔ q.dvLeft = q.dvRight := by
  have ordered : ∀ v1 v2 : QueryRange α, mergeOrdered v1 v2 = some q →
      (q.bRange = false ↔ q.dvLeft = q.dvRight) := by
    intro v1 v2 result
    unfold mergeOrdered at result
    dsimp only at result
    generalize (if v1.dvLeft = v2.dvLeft then v1.bIncLeft && v2.bIncLeft else v2.bIncLeft) =
      incLeft at result
    split_ifs at result with reach point isOpen
    · rw [← Option.some.inj result]
      simp [point]
    · rw [← Option.some.inj result]
      simp [point]
  unfold mergeAnd at result
  split at result
  · exact ordered _ _ result
  · exact ordered _ _ result

theorem flagged_mergeAndQueryRange (mem : q ∈ mergeAndQueryRange left right) :
    q.bRange = false ↔ q.dvLeft = q.dvRight := by
  fun_induction mergeAndQueryRange left right with
  | case1 v1 vctLeft v2 vctRight greater ih =>
      rcases List.mem_append.mp mem with first | rest
      · exact flagged_mergeAnd (by simpa using first)
      · exact ih rest
  | case2 v1 vctLeft v2 vctRight notGreater ih =>
      rcases List.mem_append.mp mem with first | rest
      · exact flagged_mergeAnd (by simpa using first)
      · exact ih rest
  | case3 => simp at mem
  | case4 => simp at mem

theorem Sorted.represents (sorted : Sorted vct) (apart : Apart vct) :
    Represents vct (Span.cover (vct.map span)) := by
  refine ⟨⟨?_, ?_⟩, fun q mem => (sorted.proper q mem).marked, rfl⟩
  · exact List.forall_mem_map.mpr fun q mem => (sorted.proper q mem).lt.le
  · apply List.pairwise_map.mpr
    apply (sorted.ordered.and apart).imp
    rintro q r ⟨before, apart⟩
    apply Place.toLex_lt_toLex.mpr
    rcases before with less | ⟨same, -⟩
    · exact Or.inl less
    · rcases apart same with ⟨right, left⟩
      exact Or.inr ⟨same, by simp [right, left]⟩

theorem isIntersection_of_apart (left_sorted : Sorted left) (right_sorted : Sorted right)
    (left_apart : Apart left) (right_apart : Apart right) :
    IsIntersection left right (mergeAndQueryRange left right) := by
  have left_represents := left_sorted.represents left_apart
  have right_represents := right_sorted.represents right_apart
  have represents := left_represents.mergeAndQueryRange right_represents
  refine ⟨⟨?_, ?_⟩, ?_⟩
  · intro q mem
    exact proper_of_lt (left_represents.nonempty_mergeAnd right_represents mem)
      (flagged_mergeAndQueryRange mem)
  · apply (List.pairwise_map.mp represents.separated.gaps).imp
    exact fun gap => before_iff.mpr gap.le
  · intro v
    rw [represents.contains_iff, left_represents.contains_iff, right_represents.contains_iff,
      Set.mem_inter_iff]

/-- For two sorted lists the function comes to the intersection without violating an assertion if
and only if the ranges of each are apart and the single values that the loop comes to have one
object at both ends. -/
theorem isIntersection_iff (left right : List (PointedRange α)) (leftSorted : Sorted (ranges left))
    (rightSorted : Sorted (ranges right)) :
    (∃ result, assertedMergeAnd left right = some result ∧
        IsIntersection (ranges left) (ranges right) result) ↔
      Apart (ranges left) ∧ Apart (ranges right) ∧ PointsChecked left right := by
  have checks : (checkQueryRangeOrder (ranges left) && checkQueryRangeOrder (ranges right)) = true ↔
      Apart (ranges left) ∧ Apart (ranges right) := by
    rw [Bool.and_eq_true, leftSorted.check_iff, rightSorted.check_iff]
  rcases assertedLoop_eq left right leftSorted rightSorted with ⟨ends, fails⟩
  unfold assertedMergeAnd
  constructor
  · rintro ⟨result, merged, -⟩
    rcases Option.ite_none_right_eq_some.mp merged with ⟨checked, looped⟩
    rcases checks.mp checked with ⟨leftApart, rightApart⟩
    refine ⟨leftApart, rightApart, ?_⟩
    by_contra unchecked
    rw [fails unchecked] at looped
    cases looped
  · rintro ⟨leftApart, rightApart, points⟩
    refine ⟨_, by rw [if_pos (checks.mpr ⟨leftApart, rightApart⟩), ends points], ?_⟩
    exact isIntersection_of_apart leftSorted rightSorted leftApart rightApart

/-- A range from one value to another. -/
def between (dvLeft dvRight : ℤ) (bIncLeft bIncRight : Bool) : PointedRange ℤ :=
  ⟨⟨dvLeft, dvRight, true, bIncLeft, bIncRight⟩, false, by rintro ⟨⟩⟩

/-- A single value, with one object at both ends or with two. -/
def point (dv : ℤ) (samePointer : Bool) : PointedRange ℤ :=
  ⟨⟨dv, dv, false, true, true⟩, samePointer, fun _ => rfl⟩

/-- One range meets two, and equal ends with and without their value. -/
theorem isIntersection_iff_meeting :
    (∃ result, assertedMergeAnd [between 0 4 true true, point 7 true]
        [between 0 1 false false, between 4 9 true true] = some result ∧
      IsIntersection (ranges [between 0 4 true true, point 7 true])
        (ranges [between 0 1 false false, between 4 9 true true]) result) := by
  have leftSorted : Sorted (ranges [between 0 4 true true, point 7 true]) := by
    refine ⟨List.forall_mem_cons.mpr ⟨⟨Or.inl (by decide), by decide⟩,
      List.forall_mem_singleton.mpr ⟨Or.inr (by decide), by decide⟩⟩, ?_⟩
    simp [between, point, Before]
  have rightSorted : Sorted (ranges [between 0 1 false false, between 4 9 true true]) := by
    refine ⟨List.forall_mem_cons.mpr ⟨⟨Or.inl (by decide), by decide⟩,
      List.forall_mem_singleton.mpr ⟨Or.inl (by decide), by decide⟩⟩, ?_⟩
    simp [between, Before]
  refine (isIntersection_iff _ _ leftSorted rightSorted).mpr
    ⟨by simp [between, point, Apart], by simp [between, Apart], ?_⟩
  simp [PointsChecked, CheckedUpTo, PointedRange.checkPoint, between, point]

/-- A single value whose ends are two objects violates the assertion. Ranges that touch are refused
before the loop, which would lose the common value 3. -/
theorem not_isIntersection :
    (Sorted (ranges [point 5 false]) ∧ Sorted (ranges [between 1 100 false true]) ∧
      ¬∃ result, assertedMergeAnd [point 5 false] [between 1 100 false true] = some result) ∧
    assertedMergeAnd [between 1 3 true true] [between 1 3 true false,
      between 3 5 true true] = none ∧
    mergeAndQueryRange (ranges [between 1 3 true true])
      (ranges [between 1 3 true false, between 3 5 true true]) = [⟨1, 3, true, true, false⟩] := by
  refine ⟨⟨⟨?_, ?_⟩, ⟨?_, ?_⟩, ?_⟩, by decide, ?_⟩
  · exact List.forall_mem_singleton.mpr ⟨Or.inr (by decide), by decide⟩
  · simp
  · exact List.forall_mem_singleton.mpr ⟨Or.inl (by decide), by decide⟩
  · simp
  · rintro ⟨result, merged⟩
    simp [assertedMergeAnd, assertedLoop, PointedRange.checkPoint, between, point] at merged
  · simp [mergeAndQueryRange, mergeAnd, mergeOrdered, mergeRight, between]

end QueryRange

end RapidDb
