import Mathlib.Algebra.GroupWithZero.Nat
import Mathlib.Data.List.Basic
import RapidDb.Library.Spans

/-!
# Query ranges

A query range is a range of values of one column: an interval with open or closed ends, or a
single value. The statement keeps lists of them, meets two lists for an AND and joins two lists
for an OR. As spans of places, the lists of the code are the separated lists of the library.
-/

namespace RapidDb

/-- If `bRange` is false, the range is the single value `dvLeft`, which `dvRight` should equal,
and the flags for the borders are not valid. -/
@[ext]
structure QueryRange (α : Type*) where
  dvLeft : α
  dvRight : α
  bRange : Bool := true
  bIncLeft : Bool := true
  bIncRight : Bool := true
  deriving DecidableEq

namespace QueryRange

variable {α : Type*} [LinearOrder α]

/-- The values of a range, as the comments of the fields describe it. -/
def Contains (q : QueryRange α) (v : α) : Prop :=
  if q.bRange then
    (q.dvLeft < v ∨ q.dvLeft = v ∧ q.bIncLeft) ∧ (v < q.dvRight ∨ v = q.dvRight ∧ q.bIncRight)
  else
    v = q.dvLeft

instance (q : QueryRange α) (v : α) : Decidable (q.Contains v) := by
  unfold Contains
  infer_instance

/-- The right border of the common part of two ranges. -/
def mergeRight (v1 v2 : QueryRange α) : α × Bool :=
  if v1.dvRight > v2.dvRight then
    (v2.dvRight, v2.bIncRight)
  else if v1.dvRight = v2.dvRight then
    (v1.dvRight, v1.bIncRight && v2.bIncRight)
  else
    (v1.dvRight, v1.bIncRight)

/-- The common part of two ranges of which the first one starts first, none if it is empty. -/
def mergeOrdered (v1 v2 : QueryRange α) : Option (QueryRange α) :=
  if v1.dvRight ≥ v2.dvLeft then
    let bIncLeft :=
      if v1.dvLeft = v2.dvLeft then v1.bIncLeft && v2.bIncLeft else v2.bIncLeft
    let (dvRight, bIncRight) := mergeRight v1 v2
    if v2.dvLeft = dvRight then
      if !bIncLeft || !bIncRight then
        none
      else
        some ⟨v2.dvLeft, dvRight, false, bIncLeft, bIncRight⟩
    else
      some ⟨v2.dvLeft, dvRight, true, bIncLeft, bIncRight⟩
  else
    none

/-- The body of the loop of `MergeAndQueryRange`. -/
def mergeAnd (v1 v2 : QueryRange α) : Option (QueryRange α) :=
  if v1.dvLeft > v2.dvLeft then mergeOrdered v2 v1 else mergeOrdered v1 v2

/-- `MergeAndQueryRange` on what is left of the two lists. -/
def mergeAndQueryRange : List (QueryRange α) → List (QueryRange α) → List (QueryRange α)
  | v1 :: vctLeft, v2 :: vctRight =>
      if v1.dvRight > v2.dvRight then
        (mergeAnd v1 v2).toList ++ mergeAndQueryRange (v1 :: vctLeft) vctRight
      else
        (mergeAnd v1 v2).toList ++ mergeAndQueryRange vctLeft (v2 :: vctRight)
  | [], _ => []
  | _ :: _, [] => []
termination_by vctLeft vctRight => vctLeft.length + vctRight.length

/-- The second loop of `MergeOrQueryRange`: a range that touches the one before it is taken into
that one, which keeps its left border and its `bRange`. -/
def mergeTouching (prev : QueryRange α) : List (QueryRange α) → List (QueryRange α)
  | [] => [prev]
  | q :: rest =>
      if prev.dvRight > q.dvLeft ∨ prev.dvRight = q.dvLeft ∧ (prev.bIncRight || q.bIncLeft) then
        if prev.dvRight < q.dvRight then
          mergeTouching { prev with dvRight := q.dvRight, bIncRight := q.bIncRight } rest
        else if prev.dvRight = q.dvRight then
          mergeTouching { prev with bIncRight := prev.bIncRight || q.bIncRight } rest
        else
          mergeTouching prev rest
      else
        prev :: mergeTouching q rest

/-- `MergeOrQueryRange`. The first loop moves each range of the source in front of the first
range that has a greater left border. The second loop starts at the first range of the result,
which has to exist: on an empty vector it reads behind the end. -/
def mergeOrQueryRange (vctResult vctSrc : List (QueryRange α)) : Option (List (QueryRange α)) :=
  match vctResult.merge vctSrc fun v1 v2 => decide (v1.dvLeft ≤ v2.dvLeft) with
  | [] => none
  | q :: rest => some (mergeTouching q rest)

def span (q : QueryRange α) : Span (Place α) where
  lo := toLex (q.dvLeft, !q.bIncLeft)
  hi := toLex (q.dvRight, q.bIncRight)

/-- A range that is not marked as a range is a single value. -/
def Marked (q : QueryRange α) : Prop :=
  q.bRange = false → q.dvLeft = q.dvRight ∧ q.bIncLeft = true ∧ q.bIncRight = true

omit [LinearOrder α] in
theorem Marked.span_eq {q : QueryRange α} (marked : q.Marked) (single : q.bRange = false) :
    q.span.lo = Place.of q.dvLeft ∧ q.span.hi = Place.after q.dvLeft := by
  obtain ⟨point, left, right⟩ := marked single
  simp [span, Place.of, Place.after, left, right, ← point]

theorem contains_iff {q : QueryRange α} (marked : q.Marked) (v : α) :
    q.Contains v ↔ q.span.lo ≤ Place.of v ∧ Place.of v < q.span.hi := by
  obtain ⟨l, r, bRange, incLeft, incRight⟩ := q
  simp only [Contains, span, Place.of, Place.toLex_le_toLex, Place.toLex_lt_toLex]
  cases bRange with
  | true => cases incLeft <;> cases incRight <;> simp
  | false =>
      obtain ⟨eq, left, right⟩ := marked rfl
      simp only at eq left right
      subst eq left right
      constructor
      · rintro rfl
        simp
      · rintro ⟨left, right⟩
        exact le_antisymm (by simpa [le_iff_lt_or_eq] using right)
          (by simpa [le_iff_lt_or_eq] using left)

theorem trim_borders (l r : α) (bRange incLeft incRight : Bool) (le : l ≤ r) :
    (span ⟨l, r, bRange, incLeft, incRight⟩).trim =
      if l = r ∧ (!incLeft || !incRight) then [] else [span ⟨l, r, bRange, incLeft, incRight⟩] := by
  unfold Span.trim span
  simp only [Place.toLex_lt_toLex]
  rcases le.lt_or_eq with lt | rfl
  · simp [lt, lt.ne]
  · cases incLeft <;> cases incRight <;> simp

theorem min_span_hi (v1 v2 : QueryRange α) :
    min v1.span.hi v2.span.hi = toLex (mergeRight v1 v2) := by
  unfold mergeRight span
  rcases lt_trichotomy v1.dvRight v2.dvRight with lt | eq | lt
  · simp [Place.min_toLex_of_lt lt, not_lt.mpr lt.le, lt.ne]
  · simp [eq]
  · rw [min_comm]
    simp [Place.min_toLex_of_lt lt, lt]

theorem max_span_lo {v1 v2 : QueryRange α} (le : v1.dvLeft ≤ v2.dvLeft) :
    max v1.span.lo v2.span.lo = toLex (v2.dvLeft,
      !(if v1.dvLeft = v2.dvLeft then v1.bIncLeft && v2.bIncLeft else v2.bIncLeft)) := by
  unfold span
  rcases le.lt_or_eq with lt | eq
  · simp [Place.max_toLex_of_lt lt, lt.ne]
  · simp [eq, Bool.not_and]

theorem mergeRight_fst (v1 v2 : QueryRange α) :
    (mergeRight v1 v2).1 = min v1.dvRight v2.dvRight := by
  unfold mergeRight
  rcases lt_trichotomy v1.dvRight v2.dvRight with lt | eq | lt
  · simp [not_lt.mpr lt.le, lt.ne, lt.le]
  · simp [eq]
  · simp [lt, lt.le]

/-- The border of the common part on the left is the greater place, and the one on the right the
smaller place. -/
theorem span_mergeOrdered {v1 v2 : QueryRange α} (le : v1.dvLeft ≤ v2.dvLeft)
    (right : v2.dvLeft ≤ v2.dvRight) :
    (mergeOrdered v1 v2).toList.map span = (v1.span.meet v2.span).trim := by
  unfold mergeOrdered Span.meet
  rw [max_span_lo le, min_span_hi]
  have right_eq := mergeRight_fst v1 v2
  generalize (if v1.dvLeft = v2.dvLeft then v1.bIncLeft && v2.bIncLeft else v2.bIncLeft) = incLeft
  generalize mergeRight v1 v2 = border at right_eq ⊢
  obtain ⟨dvRight, incRight⟩ := border
  change dvRight = _ at right_eq
  subst right_eq
  by_cases reach : v1.dvRight ≥ v2.dvLeft
  · have inside : v2.dvLeft ≤ min v1.dvRight v2.dvRight := le_min reach right
    have trimmed := trim_borders v2.dvLeft _ true incLeft incRight inside
    unfold span at trimmed
    rw [if_pos reach, trimmed]
    dsimp only
    by_cases point : v2.dvLeft = min v1.dvRight v2.dvRight
    · rw [if_pos point]
      by_cases isOpen : (!incLeft || !incRight) = true
      · simp [isOpen, ← point]
      · simp [isOpen, ← point, span]
    · simp [point, span]
  · have outside : min v1.dvRight v2.dvRight < v2.dvLeft :=
      lt_of_le_of_lt (min_le_left _ _) (not_le.mp reach)
    rw [if_neg reach]
    unfold Span.trim
    rw [if_neg]
    · rfl
    · simp [Place.toLex_lt_toLex, not_lt.mpr outside.le, outside.ne']

theorem span_mergeAnd {v1 v2 : QueryRange α} (left : v1.dvLeft ≤ v1.dvRight)
    (right : v2.dvLeft ≤ v2.dvRight) :
    (mergeAnd v1 v2).toList.map span = (v1.span.meet v2.span).trim := by
  unfold mergeAnd
  split
  · rename_i lt
    rw [span_mergeOrdered lt.le left, Span.meet_comm]
  · rename_i ge
    exact span_mergeOrdered (not_lt.mp ge) right

/-- Which of two spans the code drops: the left one, unless its right border value is greater. -/
def dropLeft (s t : Span (Place α)) : Bool :=
  !decide ((ofLex s.hi).1 > (ofLex t.hi).1)

theorem drops_dropLeft : Span.Drops (dropLeft : Span (Place α) → Span (Place α) → Bool) := by
  constructor
  · rintro ⟨slo, ⟨r, b⟩⟩ ⟨tlo, ⟨r', b'⟩⟩ drops ⟨v, c⟩ lt
    simp only [dropLeft, gt_iff_lt, Bool.not_eq_true', decide_eq_false_iff_not, not_lt] at drops
    have le : r ≤ r' := drops
    rcases Place.toLex_lt_toLex.mp lt with lt' | ⟨rfl, lt'⟩
    · exact Place.toLex_le_toLex.mpr (.inl (lt_of_le_of_lt le lt'))
    · rcases le.lt_or_eq with lt'' | rfl
      · exact Place.toLex_le_toLex.mpr (.inl lt'')
      · have last : c = true := by
          cases c
          · exact absurd lt' (by simp)
          · rfl
        exact Place.toLex_le_toLex.mpr (.inr ⟨rfl, by simp [last]⟩)
  · rintro ⟨slo, ⟨r, b⟩⟩ ⟨tlo, ⟨r', b'⟩⟩ keeps ⟨v, c⟩ lt
    simp only [dropLeft, gt_iff_lt, Bool.not_eq_false', decide_eq_true_eq] at keeps
    have gt : r' < r := keeps
    apply Place.toLex_le_toLex.mpr
    rcases Place.toLex_lt_toLex.mp lt with lt' | ⟨rfl, -⟩
    · exact .inl (gt.trans lt')
    · exact .inl gt

theorem map_mergeAndQueryRange {left right : List (QueryRange α)}
    (left_le : ∀ q ∈ left, q.dvLeft ≤ q.dvRight) (right_le : ∀ q ∈ right, q.dvLeft ≤ q.dvRight) :
    (mergeAndQueryRange left right).map span =
      Span.meets dropLeft (left.map span) (right.map span) := by
  fun_induction mergeAndQueryRange left right with
  | case1 v1 vctLeft v2 vctRight gt ih =>
      have keeps : dropLeft v1.span v2.span = false := by simpa [dropLeft, span] using gt
      rw [List.map_append, span_mergeAnd (left_le v1 (by simp)) (right_le v2 (by simp)),
        ih left_le fun q mem => right_le q (by simp [mem])]
      simp only [List.map_cons]
      rw [Span.meets, if_neg (by simp [keeps])]
  | case2 v1 vctLeft v2 vctRight le ih =>
      have drops : dropLeft v1.span v2.span = true := by simpa [dropLeft, span] using le
      rw [List.map_append, span_mergeAnd (left_le v1 (by simp)) (right_le v2 (by simp)),
        ih (fun q mem => left_le q (by simp [mem])) right_le]
      simp only [List.map_cons]
      rw [Span.meets, if_pos drops]
  | case3 => simp [Span.meets]
  | case4 => simp [Span.meets]

theorem le_of_span_le {q : QueryRange α} (le : q.span.lo ≤ q.span.hi) : q.dvLeft ≤ q.dvRight := by
  rcases Place.toLex_le_toLex.mp le with lt | ⟨eq, -⟩
  · exact lt.le
  · exact eq.le

theorem marked_mergeAnd {v1 v2 q : QueryRange α} (eq : mergeAnd v1 v2 = some q) : q.Marked := by
  have ordered : ∀ v1 v2 : QueryRange α, mergeOrdered v1 v2 = some q → q.Marked := by
    intro v1 v2 eq
    unfold mergeOrdered at eq
    dsimp only at eq
    generalize (if v1.dvLeft = v2.dvLeft then v1.bIncLeft && v2.bIncLeft else v2.bIncLeft) =
      incLeft at eq
    split_ifs at eq with reach point isOpen
    · rw [← Option.some.inj eq]
      simpa [Marked, point] using isOpen
    · rw [← Option.some.inj eq]
      simp [Marked]
  unfold mergeAnd at eq
  split at eq
  · exact ordered _ _ eq
  · exact ordered _ _ eq

theorem marked_mergeAndQueryRange {left right : List (QueryRange α)} {q : QueryRange α}
    (mem : q ∈ mergeAndQueryRange left right) : q.Marked := by
  fun_induction mergeAndQueryRange left right with
  | case1 v1 vctLeft v2 vctRight gt ih =>
      rcases List.mem_append.mp mem with first | rest
      · exact marked_mergeAnd (by simpa using first)
      · exact ih rest
  | case2 v1 vctLeft v2 vctRight le ih =>
      rcases List.mem_append.mp mem with first | rest
      · exact marked_mergeAnd (by simpa using first)
      · exact ih rest
  | case3 => simp at mem
  | case4 => simp at mem

/-- A list of ranges stands for a set of places: its spans are separated and cover the set, and
what is not marked as a range is a single value. -/
structure Represents (ranges : List (QueryRange α)) (places : Set (Place α)) : Prop where
  separated : Span.Separated (ranges.map span)
  marked : ∀ q ∈ ranges, q.Marked
  covers : Span.cover (ranges.map span) = places

namespace Represents

variable {ranges left right : List (QueryRange α)} {places places' : Set (Place α)}

theorem nil : Represents ([] : List (QueryRange α)) ∅ :=
  ⟨.nil, by simp, by simp⟩

theorem cons {q : QueryRange α} (le : q.span.lo ≤ q.span.hi) (marked : q.Marked)
    (before : ∀ r ∈ ranges, q.span.hi < r.span.lo) (represents : Represents ranges places) :
    Represents (q :: ranges) (Set.Ico q.span.lo q.span.hi ∪ places) := by
  refine ⟨?_, ?_, ?_⟩
  · rw [List.map_cons, Span.Separated.cons_iff]
    exact ⟨le, List.forall_mem_map.mpr before, represents.separated⟩
  · exact List.forall_mem_cons.mpr ⟨marked, represents.marked⟩
  · rw [List.map_cons, Span.cover_cons, represents.covers]

theorem singleton {q : QueryRange α} (le : q.span.lo ≤ q.span.hi) (marked : q.Marked) :
    Represents [q] (Set.Ico q.span.lo q.span.hi) := by
  simpa using cons le marked (by simp) nil

section

variable (represents : Represents ranges places)

include represents

theorem eq_nil_iff (nonempty : ∀ q ∈ ranges, q.span.lo < q.span.hi) :
    ranges = [] ↔ places = ∅ := by
  rw [← represents.covers, ← Span.eq_nil_iff (List.forall_mem_map.mpr nonempty),
    List.map_eq_nil_iff]

theorem span_le {q : QueryRange α} (mem : q ∈ ranges) : q.span.lo ≤ q.span.hi :=
  represents.separated.lo_le_hi _ (List.mem_map_of_mem mem)

theorem le {q : QueryRange α} (mem : q ∈ ranges) : q.dvLeft ≤ q.dvRight :=
  le_of_span_le (represents.span_le mem)

theorem startsAt {q : QueryRange α} (mem : q ∈ ranges) (nonempty : q.span.lo < q.span.hi) :
    Span.StartsAt places q.span.lo := by
  rw [← represents.covers]
  exact represents.separated.startsAt (List.mem_map_of_mem mem) nonempty

theorem hi_notMem {q : QueryRange α} (mem : q ∈ ranges) : q.span.hi ∉ places := by
  rw [← represents.covers]
  exact represents.separated.hi_notMem (List.mem_map_of_mem mem)

theorem contains_iff (v : α) : (∃ q ∈ ranges, q.Contains v) ↔ Place.of v ∈ places := by
  rw [← represents.covers]
  simp only [Span.cover, List.mem_map, exists_exists_and_eq_and, Set.mem_ofPred_eq]
  apply exists_congr
  intro q
  apply and_congr_right
  intro mem
  exact QueryRange.contains_iff (represents.marked q mem) v

theorem disjoint :
    ranges.Pairwise fun q r => q.dvRight ≤ r.dvLeft ∧ ∀ v, ¬(q.Contains v ∧ r.Contains v) := by
  have gaps := List.pairwise_map.mp represents.separated.gaps
  apply gaps.imp_of_mem
  intro q r mem mem' gap
  constructor
  · rcases Place.toLex_lt_toLex.mp gap with lt | ⟨eq, -⟩
    · exact lt.le
    · exact eq.le
  · rintro v ⟨left, right⟩
    rw [QueryRange.contains_iff (represents.marked q mem)] at left
    rw [QueryRange.contains_iff (represents.marked r mem')] at right
    exact absurd (left.2.trans gap) (not_lt.mpr right.1)

end

theorem mergeAndQueryRange (left_represents : Represents left places)
    (right_represents : Represents right places') :
    Represents (mergeAndQueryRange left right) (places ∩ places') := by
  have map_eq := map_mergeAndQueryRange (fun q mem => left_represents.le mem)
    fun q mem => right_represents.le mem
  refine ⟨?_, fun q mem => marked_mergeAndQueryRange mem, ?_⟩
  · rw [map_eq]
    exact Span.separated_meets left_represents.separated right_represents.separated
  · rw [map_eq, Span.cover_meets drops_dropLeft left_represents.separated
      right_represents.separated, left_represents.covers, right_represents.covers]

/-- No range of the AND is empty, also when one of the lists has an empty range. -/
theorem nonempty_mergeAnd (left_represents : Represents left places)
    (right_represents : Represents right places') {q : QueryRange α}
    (mem : q ∈ QueryRange.mergeAndQueryRange left right) : q.span.lo < q.span.hi := by
  have map_eq := map_mergeAndQueryRange (fun q mem => left_represents.le mem)
    fun q mem => right_represents.le mem
  have met := List.mem_map_of_mem (f := span) mem
  rw [map_eq] at met
  exact (Span.mem_meets met).1

end Represents

section MergeOr

theorem touches_iff (prev q : QueryRange α) :
    q.span.lo ≤ prev.span.hi ↔
      prev.dvRight > q.dvLeft ∨ prev.dvRight = q.dvLeft ∧ (prev.bIncRight || q.bIncLeft) := by
  unfold span
  rw [Place.toLex_le_toLex, eq_comm (a := q.dvLeft)]
  cases prev.bIncRight <;> cases q.bIncLeft <;> simp

theorem map_mergeTouching (prev : QueryRange α) (rest : List (QueryRange α)) :
    (mergeTouching prev rest).map span = Span.joins prev.span (rest.map span) := by
  fun_induction mergeTouching prev rest with
  | case1 prev => simp [Span.joins]
  | case2 prev q rest touch lt ih =>
      rw [List.map_cons, Span.joins, if_pos ((touches_iff prev q).mpr touch), ih]
      congr 1
      simp [span, Place.max_toLex_of_lt lt]
  | case3 prev q rest touch ge eq ih =>
      rw [List.map_cons, Span.joins, if_pos ((touches_iff prev q).mpr touch), ih]
      congr 1
      simp [span, eq]
  | case4 prev q rest touch ge ne ih =>
      have gt : q.dvRight < prev.dvRight := lt_of_le_of_ne (not_lt.mp ge) (Ne.symm ne)
      rw [List.map_cons, Span.joins, if_pos ((touches_iff prev q).mpr touch), ih]
      congr 1
      rw [max_comm]
      simp [span, Place.max_toLex_of_lt gt]
  | case5 prev q rest gap ih =>
      rw [List.map_cons, List.map_cons, Span.joins,
        if_neg (fun le => gap ((touches_iff prev q).mp le)), ih]

end MergeOr

end QueryRange

end RapidDb
