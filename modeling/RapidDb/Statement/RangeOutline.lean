import Mathlib.Order.BoundedOrder.Basic
import RapidDb.Statement.RangeUnion

/-!
# The outline of a list of ranges

What the two merges make of a list depends on more than its values. A comparison with the least or
the greatest value can leave a range without values at the end of the list, which keeps the list
from being empty, and a range with the least value alone, which is extended where a single value
would not be. The outline of a list has the places of its ranges and these two remainders.
-/

namespace RapidDb

/-- What a list of ranges stands for: its places, whether it starts with a range from the least
value that is not a single value, and whether it ends with the range behind the greatest value. -/
structure Outline (α : Type*) where
  places : Set (Place α)
  fromMin : Prop
  behindMax : Prop

namespace Outline

variable {α : Type*} [LinearOrder α] [BoundedOrder α]

/-- The outline of a list without ranges. -/
def nothing : Outline α :=
  ⟨∅, False, False⟩

omit [LinearOrder α] [BoundedOrder α] in
/-- There is no range, not even one without values. -/
def Empty (outline : Outline α) : Prop :=
  outline.places = ∅ ∧ ¬outline.fromMin ∧ ¬outline.behindMax

omit [LinearOrder α] [BoundedOrder α] in
/-- No remainder is left by an AND. -/
def and (left right : Outline α) : Outline α :=
  ⟨left.places ∩ right.places, False, False⟩

/-- Among ranges from the least value the one of the first list counts. -/
def or (left right : Outline α) : Outline α :=
  ⟨left.places ∪ right.places, left.fromMin ∨ Place.of ⊥ ∉ left.places ∧ right.fromMin,
    left.behindMax ∨ right.behindMax⟩

/-- A range starts openly at the value. -/
def StartsOpen (outline : Outline α) (v : α) : Prop :=
  Span.StartsAt outline.places (Place.after v) ∨
    v = ⊤ ∧ outline.behindMax ∧ Place.of ⊤ ∉ outline.places

/-- The list has the value as a single value. -/
def Single (outline : Outline α) (v : α) : Prop :=
  Span.StartsAt outline.places (Place.of v) ∧ Place.after v ∉ outline.places ∧
    ¬(v = ⊥ ∧ outline.fromMin)

/-- Two lists clash in an OR when the second one starts with the value from which the first one
starts openly, or when a single value of the first one is the start of the union and followed by
more of the second one. -/
def Clash (left right : Outline α) : Prop :=
  ∃ v, left.StartsOpen v ∧ Span.StartsAt right.places (Place.of v) ∨
    left.Single v ∧ Span.StartsAt (left.places ∪ right.places) (Place.of v) ∧
      Place.after v ∈ right.places

theorem not_clash_nothing (right : Outline α) : ¬nothing.Clash right := by
  rintro ⟨v, ⟨starts | ⟨-, behindMax, -⟩, -⟩ | ⟨⟨starts, -⟩, -⟩⟩
  · exact starts.1
  · exact behindMax
  · exact starts.1

end Outline

namespace QueryRange

variable {α : Type*} [LinearOrder α]

/-- A range that starts as another one does, and is at least as long. -/
structure Grown (start q : QueryRange α) : Prop where
  dvLeft : q.dvLeft = start.dvLeft
  bIncLeft : q.bIncLeft = start.bIncLeft
  bRange : q.bRange = start.bRange
  longer : start.span.hi ≤ q.span.hi

namespace Grown

variable {start q r : QueryRange α}

theorem refl (q : QueryRange α) : Grown q q :=
  ⟨rfl, rfl, rfl, le_rfl⟩

theorem trans (first : Grown start q) (second : Grown q r) : Grown start r :=
  ⟨second.dvLeft.trans first.dvLeft, second.bIncLeft.trans first.bIncLeft,
    second.bRange.trans first.bRange, first.longer.trans second.longer⟩

theorem lo_eq (grown : Grown start q) : q.span.lo = start.span.lo := by
  unfold span
  rw [grown.dvLeft, grown.bIncLeft]

theorem join (prev q : QueryRange α) : Grown prev (prev.join q) :=
  ⟨rfl, rfl, rfl, le_max_left _ _⟩

end Grown

section Touching

variable {prev q : QueryRange α} {rest : List (QueryRange α)}

theorem mergeTouching_eq_cons (prev : QueryRange α) (rest : List (QueryRange α)) :
    ∃ first others, mergeTouching prev rest = first :: others ∧ Grown prev first := by
  induction rest generalizing prev with
  | nil => exact ⟨prev, [], rfl, .refl prev⟩
  | cons q rest ih =>
      rcases le_or_gt q.span.lo prev.span.hi with touch | gap
      · obtain ⟨first, others, same, grown⟩ := ih (join prev q)
        exact ⟨first, others, by rw [mergeTouching_of_touch touch, same],
          (Grown.join prev q).trans grown⟩
      · exact ⟨prev, _, mergeTouching_of_gap gap, .refl prev⟩

/-- A range of the result grows out of a range of the list that none before it reaches. -/
theorem grown_of_mem_mergeTouching (le : ∀ s ∈ prev :: rest, s.span.lo ≤ s.span.hi)
    (mem : q ∈ mergeTouching prev rest) :
    ∃ before start after, prev :: rest = before ++ start :: after ∧
      (∀ s ∈ before, s.span.hi < start.span.lo) ∧ Grown start q := by
  induction rest generalizing prev with
  | nil =>
      rw [mergeTouching, List.mem_singleton] at mem
      exact ⟨[], prev, [], rfl, by simp, mem ▸ .refl prev⟩
  | cons r rest ih =>
      rcases le_or_gt r.span.lo prev.span.hi with touch | gap
      · rw [mergeTouching_of_touch touch] at mem
        have le_joined : ∀ s ∈ join prev r :: rest, s.span.lo ≤ s.span.hi := by
          intro s member
          rcases List.mem_cons.mp member with rfl | member
          · exact (le prev (by simp)).trans (le_max_left _ _)
          · exact le s (by simp [member])
        obtain ⟨before, start, after, same, apart, grown⟩ := ih le_joined mem
        cases before with
        | nil =>
            obtain ⟨rfl, rfl⟩ := List.cons.inj same
            exact ⟨[], prev, r :: rest, rfl, by simp, (Grown.join prev r).trans grown⟩
        | cons first before =>
            obtain ⟨rfl, rfl⟩ := List.cons.inj same
            have reached := apart (join prev r) (by simp)
            rw [join_span_hi] at reached
            refine ⟨prev :: r :: before, start, after, rfl, ?_, grown⟩
            simp only [List.forall_mem_cons]
            exact ⟨(le_max_left _ _).trans_lt reached, (le_max_right _ _).trans_lt reached,
              fun s member => apart s (by simp [member])⟩
      · rw [mergeTouching_of_gap gap] at mem
        rcases List.mem_cons.mp mem with rfl | mem
        · exact ⟨[], q, r :: rest, rfl, by simp, .refl q⟩
        · have le_rest : ∀ s ∈ r :: rest, s.span.lo ≤ s.span.hi := fun s member =>
            le s (List.mem_cons_of_mem _ member)
          obtain ⟨before, start, after, same, apart, grown⟩ := ih le_rest mem
          refine ⟨prev :: before, start, after, by rw [same]; rfl, ?_, grown⟩
          refine List.forall_mem_cons.mpr ⟨?_, apart⟩
          cases before with
          | nil =>
              obtain ⟨rfl, -⟩ := List.cons.inj same
              exact gap
          | cons first before =>
              obtain ⟨rfl, -⟩ := List.cons.inj same
              exact gap.trans_le ((le_rest r (by simp)).trans (apart r (by simp)).le)

end Touching

variable [BoundedOrder α]

/-- The list has the outline: what is not marked as a range is a single value, an open range that is
empty is the one behind the greatest value, and the list is empty if and only if the outline is. -/
structure Outlines (ranges : List (QueryRange α)) (outline : Outline α) : Prop where
  represents : Represents ranges outline.places
  head : outline.fromMin → ∃ s rest, ranges = s :: rest ∧ s.dvLeft = ⊥ ∧ s.bRange = true
  behind : ∀ q ∈ ranges, q.bIncLeft = false → q.span.hi ≤ q.span.lo →
    q.dvLeft = ⊤ ∧ outline.behindMax
  nil_iff : ranges = [] ↔ outline.Empty

namespace Outlines

variable {ranges left right : List (QueryRange α)} {outline o o' : Outline α} {q r : QueryRange α}

theorem nil : Outlines ([] : List (QueryRange α)) .nothing :=
  ⟨.nil, False.elim, by simp, by simp [Outline.Empty, Outline.nothing]⟩

/-- A list without empty ranges has an outline without remainders. -/
theorem of_nonempty {places : Set (Place α)} (represents : Represents ranges places)
    (nonempty : ∀ q ∈ ranges, q.span.lo < q.span.hi) : Outlines ranges ⟨places, False, False⟩ := by
  refine ⟨represents, False.elim, ?_, ?_⟩
  · intro q mem _ empty
    exact absurd (nonempty q mem) (not_lt.mpr empty)
  · rw [represents.eq_nil_iff nonempty]
    simp [Outline.Empty]

theorem mergeAndQueryRange (left_outlines : Outlines left o) (right_outlines : Outlines right o') :
    Outlines (mergeAndQueryRange left right) (o.and o') :=
  of_nonempty (left_outlines.represents.mergeAndQueryRange right_outlines.represents) fun _ mem =>
    left_outlines.represents.nonempty_mergeAnd right_outlines.represents mem

/-- A single value at the least value excludes the remainder there. -/
theorem not_fromMin (outlines : Outlines ranges outline) (mem : q ∈ ranges)
    (single : q.bRange = false) (least : q.dvLeft = ⊥) : ¬outline.fromMin := by
  intro fromMin
  obtain ⟨s, rest, rfl, -, isRange⟩ := outlines.head fromMin
  rcases List.mem_cons.mp mem with rfl | later
  · rw [single] at isRange
    cases isRange
  · have gap := (List.pairwise_cons.mp (List.pairwise_map.mp outlines.represents.separated.gaps)).1
      q later
    rw [((outlines.represents.marked q mem).span_eq single).1, least] at gap
    exact absurd gap (not_lt.mpr (Place.of_bot_le _))

theorem startsOpen (outlines : Outlines ranges outline) (mem : q ∈ ranges)
    (isOpen : q.bIncLeft = false) : outline.StartsOpen q.dvLeft := by
  rcases (outlines.represents.span_le mem).lt_or_eq with nonempty | empty
  · left
    rw [← lo_eq_after isOpen]
    exact outlines.represents.startsAt mem nonempty
  · right
    obtain ⟨greatest, behindMax⟩ := outlines.behind q mem isOpen empty.ge
    refine ⟨greatest, behindMax, fun covered => ?_⟩
    rw [← outlines.represents.covers] at covered
    obtain ⟨s, member, le, lt⟩ := covered
    have lo_eq : q.span.lo = Place.after ⊤ := by rw [lo_eq_after isOpen, greatest]
    have ends := outlines.represents.separated.hi_lt_of_lo_lt member (List.mem_map_of_mem mem)
      (by rw [lo_eq]; exact le.trans_lt (Place.of_lt_after.mpr le_rfl))
    rw [lo_eq] at ends
    exact absurd ends (not_lt.mpr (Place.after_le_iff.mpr lt))

section MergeOr

variable (left_outlines : Outlines left o) (right_outlines : Outlines right o')
  (apart : ¬o.Clash o')

/-- What the second loop relies on: a range of the merged list that is not empty does not start
before the ones in front of it, and of those with the same value the first list has the first. -/
structure Follows (left : List (QueryRange α)) (q r : QueryRange α) : Prop where
  lo_le : r.span.lo < r.span.hi → q.span.lo ≤ r.span.lo
  first : q.bRange = false → q.dvLeft = r.dvLeft → q ∈ left

include left_outlines

theorem dvLeft_le : left.Pairwise fun q r => decide (q.dvLeft ≤ r.dvLeft) = true := by
  apply (List.pairwise_map.mp left_outlines.represents.separated.gaps).imp_of_mem
  intro q r mem _ gap
  have lo_le := (left_outlines.represents.span_le mem).trans gap.le
  rcases Place.toLex_le_toLex.mp lo_le with lt | ⟨eq, -⟩
  · simpa using lt.le
  · simpa using eq.le

theorem follows_left : left.Pairwise (Follows left) := by
  apply (List.pairwise_map.mp left_outlines.represents.separated.gaps).imp_of_mem
  intro q r mem _ gap
  exact ⟨fun _ => (left_outlines.represents.span_le mem).trans gap.le, fun _ _ => mem⟩

omit left_outlines in
include right_outlines in
theorem follows_right : right.Pairwise (Follows left) := by
  apply (List.pairwise_map.mp right_outlines.represents.separated.gaps).imp_of_mem
  intro q r mem _ gap
  refine ⟨fun _ => (right_outlines.represents.span_le mem).trans gap.le, ?_⟩
  -- behind a single value another range does not start at that value
  intro single same
  rw [((right_outlines.represents.marked q mem).span_eq single).2, same] at gap
  exact absurd gap (not_lt.mpr (lo_le_after r))

include right_outlines apart

theorem follows_of_le {q r : QueryRange α} (mem : q ∈ left) (mem' : r ∈ right)
    (le : q.dvLeft ≤ r.dvLeft) : Follows left q r := by
  refine ⟨fun nonempty => ?_, fun _ _ => mem⟩
  rcases le.lt_or_eq with lt | eq
  · exact Place.toLex_le_toLex.mpr (.inl lt)
  · apply Place.toLex_le_toLex.mpr
    refine .inr ⟨eq, ?_⟩
    by_contra gt
    obtain ⟨isOpen, closed⟩ : q.bIncLeft = false ∧ r.bIncLeft = true := by
      simpa [and_comm] using Bool.lt_iff.mp (not_le.mp gt)
    refine apart ⟨q.dvLeft, .inl ⟨left_outlines.startsOpen mem isOpen, ?_⟩⟩
    rw [eq, ← lo_eq_of closed]
    exact right_outlines.represents.startsAt mem' nonempty

omit left_outlines right_outlines apart [BoundedOrder α] in
theorem follows_of_lt {q r : QueryRange α} (lt : q.dvLeft < r.dvLeft) : Follows left q r :=
  ⟨fun _ => Place.toLex_le_toLex.mpr (.inl lt), fun _ same => absurd same lt.ne⟩

theorem follows_merge :
    (left.merge right fun q r => decide (q.dvLeft ≤ r.dvLeft)).Pairwise (Follows left) := by
  apply pairwise_merge_of left_outlines.follows_left right_outlines.follows_right
    left_outlines.dvLeft_le right_outlines.dvLeft_le
  · intro q r s le le'
    simp only [decide_eq_true_eq] at le le' ⊢
    exact le.trans le'
  · intro q mem r mem' le
    exact left_outlines.follows_of_le right_outlines apart mem mem' (by simpa using le)
  · intro q _ r _ gt
    exact follows_of_lt (by simpa using gt)

omit right_outlines apart in
theorem single_left {start : QueryRange α} (mem : start ∈ left) (single : start.bRange = false) :
    o.Single start.dvLeft := by
  obtain ⟨lo_eq, hi_eq⟩ := (left_outlines.represents.marked start mem).span_eq single
  refine ⟨?_, ?_, fun least => left_outlines.not_fromMin mem single least.1 least.2⟩
  · rw [← lo_eq]
    apply left_outlines.represents.startsAt mem
    rw [lo_eq, hi_eq]
    exact Place.of_lt_after.mpr le_rfl
  · rw [← hi_eq]
    exact left_outlines.represents.hi_notMem mem

section Single

variable {start : QueryRange α} {before after : List (QueryRange α)}
  (merged : left.merge right (fun q r => decide (q.dvLeft ≤ r.dvLeft)) = before ++ start :: after)
  (gaps : ∀ s ∈ before, s.span.hi < start.span.lo) (single : start.bRange = false)
  (starts : Span.StartsAt (o.places ∪ o'.places) (Place.of start.dvLeft))

include merged gaps single starts

/-- Where a single value of the second list starts the union, the first list has nothing behind
it. -/
theorem after_notMem_left (mem : start ∈ right) (notLeft : start ∉ left) :
    Place.after start.dvLeft ∉ o.places := by
  intro covered
  obtain ⟨starts', -⟩ := right_outlines.single_left mem single
  rw [← left_outlines.represents.covers] at covered
  obtain ⟨t, spanned, le, lt⟩ := covered
  obtain ⟨s, member, rfl⟩ := List.mem_map.mp spanned
  rcases le.lt_or_eq with below | isOpen
  · -- the range starts at the value as well, so it stands in front of the single value
    have lo_eq : s.span.lo = Place.of start.dvLeft := by
      apply le_antisymm (Place.lt_after_iff.mp below)
      by_contra before
      obtain ⟨p, le', lt', outside⟩ := starts.2 s.span.lo (not_le.mp before)
      apply outside (.inl _)
      rw [← left_outlines.represents.covers]
      exact ⟨s.span, List.mem_map_of_mem member, le',
        lt'.trans ((Place.of_lt_after.mpr le_rfl).trans lt)⟩
    have same : start.dvLeft = s.dvLeft := (congrArg (fun p => (ofLex p).1) lo_eq).symm
    have follows := left_outlines.follows_merge right_outlines apart
    rw [merged, List.pairwise_append, List.pairwise_cons] at follows
    have in_merged : s ∈ before ++ start :: after := by
      rw [← merged]
      exact List.mem_merge.mpr (.inl member)
    rcases List.mem_append.mp in_merged with first | later
    · have ends := (gaps s first).trans_le (lo_le_after start)
      exact absurd ends (not_lt.mpr lt.le)
    · rcases List.mem_cons.mp later with rfl | later
      · exact notLeft member
      · exact notLeft ((follows.2.1.1 s later).first single same)
  · have isOpen' : s.bIncLeft = false ∧ s.dvLeft = start.dvLeft := by
      have fields := congrArg ofLex isOpen
      simpa [span, Place.after, and_comm] using fields
    refine apart ⟨start.dvLeft, .inl ⟨?_, starts'⟩⟩
    rw [← isOpen'.2]
    exact left_outlines.startsOpen member isOpen'.1

theorem after_notMem : Place.after start.dvLeft ∉ o.places ∪ o'.places := by
  have in_merged : start ∈ left ∨ start ∈ right := by
    rw [← List.mem_merge, merged]
    simp
  by_cases inLeft : start ∈ left
  · have isSingle := left_outlines.single_left inLeft single
    rintro (covered | covered)
    · exact isSingle.2.1 covered
    · exact apart ⟨start.dvLeft, .inr ⟨isSingle, starts, covered⟩⟩
  · have inRight := in_merged.resolve_left inLeft
    rintro (covered | covered)
    · exact left_outlines.after_notMem_left right_outlines apart merged gaps single starts inRight
        inLeft covered
    · exact (right_outlines.single_left inRight single).2.1 covered

end Single

omit apart in
theorem of_mem_merge {ranges : List (QueryRange α)}
    (merged : left.merge right (fun q r => decide (q.dvLeft ≤ r.dvLeft)) = ranges)
    (mem : q ∈ ranges) : q.span.lo ≤ q.span.hi ∧ q.Marked := by
  rw [← merged] at mem
  rcases List.mem_merge.mp mem with mem | mem
  · exact ⟨left_outlines.represents.span_le mem, left_outlines.represents.marked q mem⟩
  · exact ⟨right_outlines.represents.span_le mem, right_outlines.represents.marked q mem⟩

section Merged

variable {prev : QueryRange α} {rest : List (QueryRange α)}
  (merged : left.merge right (fun q r => decide (q.dvLeft ≤ r.dvLeft)) = prev :: rest)

include merged

theorem cover_mergeTouching :
    Span.cover ((mergeTouching prev rest).map span) = o.places ∪ o'.places := by
  have le : ∀ s ∈ (prev :: rest).map span, s.lo ≤ s.hi :=
    List.forall_mem_map.mpr fun s mem => (left_outlines.of_mem_merge right_outlines merged mem).1
  have sorted : Span.Sorted ((prev :: rest).map span) := by
    have follows := left_outlines.follows_merge right_outlines apart
    rw [merged] at follows
    exact List.pairwise_map.mpr (follows.imp Follows.lo_le)
  rw [map_mergeTouching, Span.cover_joins sorted le, ← left_outlines.represents.covers,
    ← right_outlines.represents.covers, ← List.map_cons, ← merged]
  ext p
  simp only [Span.cover, List.mem_map, exists_exists_and_eq_and, List.mem_merge, or_and_right,
    exists_or, Set.mem_ofPred_eq, Set.mem_union]

omit apart in
theorem separated_mergeTouching : Span.Separated ((mergeTouching prev rest).map span) := by
  have le : ∀ s ∈ (prev :: rest).map span, s.lo ≤ s.hi :=
    List.forall_mem_map.mpr fun s mem => (left_outlines.of_mem_merge right_outlines merged mem).1
  rw [map_mergeTouching]
  exact Span.separated_joins le

/-- What is not marked as a range grows out of a single value and has got nothing more. -/
theorem marked_mergeTouching (mem : q ∈ mergeTouching prev rest) : q.Marked := by
  intro single
  have covers := left_outlines.cover_mergeTouching right_outlines apart merged
  obtain ⟨before, start, after, split, gaps, grown⟩ := grown_of_mem_mergeTouching
    (fun _ mem => (left_outlines.of_mem_merge right_outlines merged mem).1) mem
  have single' : start.bRange = false := grown.bRange ▸ single
  have marked : start.Marked := by
    apply (left_outlines.of_mem_merge right_outlines merged _).2
    rw [split]
    simp
  obtain ⟨lo_eq, hi_eq⟩ := marked.span_eq single'
  have longer : Place.after start.dvLeft ≤ q.span.hi := hi_eq ▸ grown.longer
  have inside : q.span.lo < q.span.hi := by
    rw [grown.lo_eq, lo_eq]
    exact (Place.of_lt_after.mpr le_rfl).trans_le longer
  have starts := (left_outlines.separated_mergeTouching right_outlines merged).startsAt
    (List.mem_map_of_mem mem) inside
  rw [covers, grown.lo_eq, lo_eq] at starts
  have outside := left_outlines.after_notMem right_outlines apart (merged.trans split) gaps single'
    starts
  have hi_eq' : q.span.hi = Place.after start.dvLeft := by
    apply le_antisymm _ longer
    by_contra reaches
    apply outside
    rw [← covers]
    refine ⟨q.span, List.mem_map_of_mem mem, ?_, not_le.mp reaches⟩
    rw [grown.lo_eq, lo_eq]
    exact (Place.of_lt_after.mpr le_rfl).le
  have right_eq : q.dvRight = start.dvLeft ∧ q.bIncRight = true := by
    have fields := congrArg ofLex hi_eq'
    simpa [span, Place.after] using fields
  exact ⟨grown.dvLeft.trans right_eq.1.symm, grown.bIncLeft.trans (marked single').2.1, right_eq.2⟩

omit right_outlines apart in
/-- When the first list has a range from the least value that is no single value, it stands
first. -/
theorem head_left (fromMin : o.fromMin) : prev.dvLeft = ⊥ ∧ prev.bRange = true := by
  obtain ⟨s, others, rfl, least, isRange⟩ := left_outlines.head fromMin
  have first : prev = s := by
    cases right with
    | nil =>
        rw [List.merge_right] at merged
        exact (List.cons.inj merged).1.symm
    | cons r right =>
        rw [List.cons_merge_cons_pos _ _ _ (by simp [least])] at merged
        exact (List.cons.inj merged).1.symm
  rw [first]
  exact ⟨least, isRange⟩

omit apart in
theorem head_right (notCovered : Place.of ⊥ ∉ o.places) (fromMin : o'.fromMin) :
    prev.dvLeft = ⊥ ∧ prev.bRange = true := by
  obtain ⟨s, others, rfl, least, isRange⟩ := right_outlines.head fromMin
  cases left with
  | nil =>
      rw [List.nil_merge] at merged
      rw [← (List.cons.inj merged).1]
      exact ⟨least, isRange⟩
  | cons q left =>
      by_cases atMin : q.dvLeft = ⊥
      · rw [List.cons_merge_cons_pos _ _ _ (by simp [atMin])] at merged
        rw [← (List.cons.inj merged).1]
        refine ⟨atMin, ?_⟩
        -- a single value would be a place of the list
        cases single : q.bRange with
        | true => rfl
        | false =>
            have starts := (left_outlines.single_left List.mem_cons_self single).1.1
            rw [atMin] at starts
            exact absurd starts notCovered
      · rw [List.cons_merge_cons_neg _ _ _ (by simp [least, atMin])] at merged
        rw [← (List.cons.inj merged).1]
        exact ⟨least, isRange⟩

end Merged

/-- The OR of two lists that do not clash has the outline of the OR. -/
theorem mergeOrQueryRange (some_range : ¬(o.Empty ∧ o'.Empty)) :
    ∃ ranges, mergeOrQueryRange left right = some ranges ∧ Outlines ranges (o.or o') := by
  unfold QueryRange.mergeOrQueryRange
  cases merged : left.merge right fun q r => decide (q.dvLeft ≤ r.dvLeft) with
  | nil =>
      have none : ∀ q, q ∉ left ∧ q ∉ right := by
        intro q
        rw [← not_or, ← List.mem_merge, merged]
        simp
      refine absurd ⟨left_outlines.nil_iff.mp ?_, right_outlines.nil_iff.mp ?_⟩ some_range
      · exact List.eq_nil_iff_forall_not_mem.mpr fun q => (none q).1
      · exact List.eq_nil_iff_forall_not_mem.mpr fun q => (none q).2
  | cons prev rest =>
      have represents : Represents (mergeTouching prev rest) (o.places ∪ o'.places) :=
        ⟨left_outlines.separated_mergeTouching right_outlines merged,
          fun _ => left_outlines.marked_mergeTouching right_outlines apart merged,
          left_outlines.cover_mergeTouching right_outlines apart merged⟩
      obtain ⟨first, others, result_eq, grown⟩ := mergeTouching_eq_cons prev rest
      refine ⟨_, rfl, represents, ?_, ?_, ?_⟩
      · intro fromMin
        have head : prev.dvLeft = ⊥ ∧ prev.bRange = true := by
          rcases fromMin with fromMin | ⟨notCovered, fromMin⟩
          · exact left_outlines.head_left merged fromMin
          · exact left_outlines.head_right right_outlines merged notCovered fromMin
        exact ⟨first, others, result_eq, grown.dvLeft.trans head.1, grown.bRange.trans head.2⟩
      · intro q mem isOpen empty
        obtain ⟨before, start, after, split, -, grown⟩ := grown_of_mem_mergeTouching
          (fun _ mem => (left_outlines.of_mem_merge right_outlines merged mem).1) mem
        have empty' : start.span.hi ≤ start.span.lo := by
          rw [← grown.lo_eq]
          exact grown.longer.trans empty
        have isOpen' : start.bIncLeft = false := grown.bIncLeft ▸ isOpen
        rw [grown.dvLeft]
        have in_merged : start ∈ left ∨ start ∈ right := by
          rw [← List.mem_merge, merged, split]
          simp
        rcases in_merged with mem | mem
        · exact (left_outlines.behind start mem isOpen' empty').imp_right .inl
        · exact (right_outlines.behind start mem isOpen' empty').imp_right .inr
      · rw [result_eq]
        refine iff_of_false (by simp) fun empty => some_range ?_
        obtain ⟨places, fromMin, behindMax⟩ := empty
        simp only [Outline.or, Set.union_empty_iff, not_or, not_and] at places fromMin behindMax
        refine ⟨⟨places.1, fromMin.1, behindMax.1⟩, places.2, fromMin.2 ?_, behindMax.2⟩
        rw [places.1]
        exact Set.notMem_empty _

end MergeOr

end Outlines

end QueryRange

end RapidDb
