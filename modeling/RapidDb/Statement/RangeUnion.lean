import RapidDb.Statement.QueryRange

/-!
# The union of two lists of ranges

`MergeOrQueryRange` takes the ranges of both lists in the order of their left ends, those of the
first list first among equals, and lets a range take in what touches it. The range that starts keeps
its left end and its flag, so it must have the end and the flag that the union has there. An end
without a bound is the least or the greatest value of its type.
-/

namespace RapidDb

namespace QueryRange

variable {α : Type*} [LinearOrder α] {q r prev : QueryRange α} {v : α}

/-- There is room between the ends, and the flag says whether the range is a single value. -/
structure Proper (q : QueryRange α) : Prop where
  room : q.dvLeft < q.dvRight ∨
    q.dvLeft = q.dvRight ∧ q.bIncLeft = true ∧ q.bIncRight = true
  flagged : q.bRange = false ↔
    q.dvLeft = q.dvRight ∧ q.bIncLeft = true ∧ q.bIncRight = true

/-- One range ends before the other one starts. -/
def Before (q r : QueryRange α) : Prop :=
  q.dvRight < r.dvLeft ∨ q.dvRight = r.dvLeft ∧ (q.bIncRight && r.bIncLeft) = false

structure Sorted (ranges : List (QueryRange α)) : Prop where
  proper : ∀ q ∈ ranges, q.Proper
  ordered : ranges.Pairwise Before

/-- A sorted list of the values of two lists. -/
structure IsUnion (left right ranges : List (QueryRange α)) : Prop where
  sorted : Sorted ranges
  contains_iff : ∀ v, (∃ q ∈ ranges, q.Contains v) ↔
    (∃ q ∈ left, q.Contains v) ∨ ∃ q ∈ right, q.Contains v

/-- A single value that is alone among the ranges that start there, or that a range reaches which
starts before it. -/
def Alone (ranges others : List (QueryRange α)) (p : QueryRange α) : Prop :=
  (∃ s ∈ ranges, s.dvLeft < p.dvLeft ∧ p.dvLeft ≤ s.dvRight) ∨
    ∀ r ∈ others, r.dvLeft = p.dvLeft → r.dvRight = p.dvLeft

/-- There is a range; where a range of the first list starts openly and one of the second list
inclusively, the first list has the value; and single values are alone. -/
structure Joinable (left right : List (QueryRange α)) : Prop where
  nonempty : left ≠ [] ∨ right ≠ []
  starts : ∀ q ∈ left, ∀ r ∈ right, q.dvLeft = r.dvLeft → q.bIncLeft = false →
    r.bIncLeft = true → ∃ s ∈ left, s.Contains q.dvLeft
  leftPoints : ∀ p ∈ left, p.bRange = false → Alone (left ++ right) (left ++ right) p
  rightPoints : ∀ p ∈ right, p.bRange = false →
    (∃ s ∈ left, s.dvLeft = p.dvLeft) ∨ Alone (left ++ right) right p

/-! ## Ranges as spans -/

theorem Proper.lt (proper : q.Proper) : q.span.lo < q.span.hi := by
  apply Place.toLex_lt_toLex.mpr
  rcases proper.room with less | ⟨same, left, right⟩
  · exact Or.inl less
  · simp [same, left, right]

theorem Proper.marked (proper : q.Proper) : q.Marked := proper.flagged.mp

theorem Proper.contains_iff (proper : q.Proper) (v : α) :
    q.Contains v ↔ q.span.lo ≤ Place.of v ∧ Place.of v < q.span.hi :=
  QueryRange.contains_iff proper.marked v

theorem proper_of_lt (room : q.span.lo < q.span.hi)
    (flagged : q.bRange = false ↔ q.dvLeft = q.dvRight) : q.Proper := by
  rcases Place.toLex_lt_toLex.mp room with less | ⟨same, incLess⟩
  · refine ⟨Or.inl less, ?_⟩
    rw [flagged]
    simp [less.ne]
  · have inclusive : q.bIncLeft = true ∧ q.bIncRight = true := by
      simpa [Bool.lt_iff] using incLess
    refine ⟨Or.inr ⟨same, inclusive⟩, ?_⟩
    rw [flagged]
    simp [same, inclusive]

theorem Proper.flag_iff (proper : q.Proper) : q.bRange = false ↔ q.dvLeft = q.dvRight := by
  rw [proper.flagged]
  refine ⟨And.left, fun same => ⟨same, ?_⟩⟩
  rcases proper.room with less | point
  · exact absurd same less.ne
  · exact point.2

theorem before_iff : Before q r ↔ q.span.hi ≤ r.span.lo := by
  unfold Before span
  rw [Place.toLex_le_toLex]
  cases q.bIncRight <;> cases r.bIncLeft <;> simp

omit [LinearOrder α] in
theorem lo_eq_of (inclusive : q.bIncLeft = true) : q.span.lo = Place.of q.dvLeft := by
  simp [span, Place.of, inclusive]

omit [LinearOrder α] in
theorem lo_eq_after (exclusive : q.bIncLeft = false) : q.span.lo = Place.after q.dvLeft := by
  simp [span, Place.after, exclusive]

theorem of_le_lo (q : QueryRange α) : Place.of q.dvLeft ≤ q.span.lo :=
  Place.toLex_le_toLex.mpr (Or.inr ⟨rfl, Bool.false_le _⟩)

theorem lo_le_after (q : QueryRange α) : q.span.lo ≤ Place.after q.dvLeft :=
  Place.toLex_le_toLex.mpr (Or.inr ⟨rfl, Bool.le_true _⟩)

theorem of_le_hi (q : QueryRange α) : Place.of q.dvRight ≤ q.span.hi :=
  Place.toLex_le_toLex.mpr (Or.inr ⟨rfl, Bool.false_le _⟩)

theorem hi_le_after (q : QueryRange α) : q.span.hi ≤ Place.after q.dvRight :=
  Place.toLex_le_toLex.mpr (Or.inr ⟨rfl, Bool.le_true _⟩)

theorem Proper.span_point (proper : q.Proper) (point : q.bRange = false) :
    q.span.lo = Place.of q.dvLeft ∧ q.span.hi = Place.after q.dvLeft :=
  Marked.span_eq proper.flagged.mp point

theorem Proper.le (proper : q.Proper) : q.dvLeft ≤ q.dvRight := by
  rcases proper.room with less | ⟨same, -⟩
  · exact less.le
  · exact same.le

theorem Before.dvLeft_le (before : Before q r) (proper : q.Proper) : q.dvLeft ≤ r.dvLeft := by
  rcases before with less | ⟨same, -⟩
  · exact proper.le.trans less.le
  · exact proper.le.trans same.le

theorem Before.lo_lt (before : Before q r) (proper : q.Proper) : q.span.lo < r.span.lo :=
  proper.lt.trans_le (before_iff.mp before)

/-! ## Taking in what touches -/

/-- A range that takes in one that touches it. -/
def join (prev q : QueryRange α) : QueryRange α :=
  { prev with
    dvRight := (ofLex (max prev.span.hi q.span.hi)).1
    bIncRight := (ofLex (max prev.span.hi q.span.hi)).2 }

@[simp]
theorem join_span_hi : (join prev q).span.hi = max prev.span.hi q.span.hi := rfl

theorem join_of_le (le : q.span.hi ≤ prev.span.hi) : join prev q = prev := by
  unfold join
  rw [max_eq_left le]
  rfl

theorem mergeTouching_cons (prev q : QueryRange α) (rest : List (QueryRange α)) :
    mergeTouching prev (q :: rest) =
      if q.span.lo ≤ prev.span.hi then mergeTouching (join prev q) rest
      else prev :: mergeTouching q rest := by
  rw [mergeTouching]
  simp only [← touches_iff]
  split
  · split
    · rename_i less
      have joined : max prev.span.hi q.span.hi = q.span.hi := Place.max_toLex_of_lt less
      unfold join
      rw [joined]
      rfl
    · split
      · rename_i same
        have joined : max prev.span.hi q.span.hi =
            toLex (prev.dvRight, prev.bIncRight || q.bIncRight) := by
          unfold span
          rw [same, Place.max_toLex_self]
        unfold join
        rw [joined]
        rfl
      · rename_i notLess notSame
        have greater : q.dvRight < prev.dvRight :=
          lt_of_le_of_ne (not_lt.mp notLess) (Ne.symm notSame)
        rw [join_of_le (Place.toLex_le_toLex.mpr (Or.inl greater))]
  · rfl

theorem mergeTouching_of_touch {rest : List (QueryRange α)} (touch : q.span.lo ≤ prev.span.hi) :
    mergeTouching prev (q :: rest) = mergeTouching (join prev q) rest := by
  rw [mergeTouching_cons, if_pos touch]

theorem mergeTouching_of_gap {rest : List (QueryRange α)} (gap : prev.span.hi < q.span.lo) :
    mergeTouching prev (q :: rest) = prev :: mergeTouching q rest := by
  rw [mergeTouching_cons, if_neg (not_le.mpr gap)]

section Run

variable {rest : List (QueryRange α)}

theorem lo_le_of_mem_mergeTouching (nonempty : ∀ s ∈ prev :: rest, s.span.lo < s.span.hi)
    (mem : q ∈ mergeTouching prev rest) : prev.span.lo ≤ q.span.lo := by
  induction rest generalizing prev with
  | nil =>
      rw [mergeTouching, List.mem_singleton] at mem
      rw [mem]
  | cons r rest ih =>
      rcases le_or_gt r.span.lo prev.span.hi with touch | gap
      · rw [mergeTouching_of_touch touch] at mem
        apply ih _ mem
        intro s member
        rcases List.mem_cons.mp member with rfl | member
        · exact (nonempty prev (by simp)).trans_le (le_max_left _ _)
        · exact nonempty s (by simp [member])
      · rw [mergeTouching_of_gap gap] at mem
        rcases List.mem_cons.mp mem with rfl | mem
        · exact le_rfl
        · have later : r.span.lo ≤ q.span.lo :=
            ih (fun s member => nonempty s (List.mem_cons_of_mem _ member)) mem
          exact ((nonempty prev (by simp)).trans gap).le.trans later

theorem hi_le_of_mem_mergeTouching {border : Place α}
    (below : ∀ s ∈ prev :: rest, s.span.hi ≤ border) (mem : q ∈ mergeTouching prev rest) :
    q.span.hi ≤ border := by
  induction rest generalizing prev with
  | nil =>
      rw [mergeTouching, List.mem_singleton] at mem
      rw [mem]
      exact below prev (by simp)
  | cons r rest ih =>
      rcases le_or_gt r.span.lo prev.span.hi with touch | gap
      · rw [mergeTouching_of_touch touch] at mem
        apply ih _ mem
        intro s member
        rcases List.mem_cons.mp member with rfl | member
        · exact max_le (below prev (by simp)) (below r (by simp))
        · exact below s (by simp [member])
      · rw [mergeTouching_of_gap gap] at mem
        rcases List.mem_cons.mp mem with rfl | mem
        · exact below q (by simp)
        · exact ih (fun s member => below s (List.mem_cons_of_mem _ member)) mem

theorem mergeTouching_append {before after : List (QueryRange α)}
    (gap : ∀ s ∈ prev :: before, s.span.hi < q.span.lo) :
    mergeTouching prev (before ++ q :: after) =
      mergeTouching prev before ++ mergeTouching q after := by
  induction before generalizing prev with
  | nil =>
      rw [List.nil_append, mergeTouching_of_gap (gap prev (by simp))]
      rfl
  | cons r before ih =>
      rw [List.cons_append]
      rcases le_or_gt r.span.lo prev.span.hi with touch | apart
      · rw [mergeTouching_of_touch touch, mergeTouching_of_touch touch]
        apply ih
        intro s member
        rcases List.mem_cons.mp member with rfl | member
        · exact max_lt (gap prev (by simp)) (gap r (by simp))
        · exact gap s (by simp [member])
      · rw [mergeTouching_of_gap apart, mergeTouching_of_gap apart, List.cons_append,
          ih fun s member => gap s (List.mem_cons_of_mem _ member)]

/-- The first range of the result has the left end and the flag of the one that starts it, and takes
in everything that starts at its single value. -/
theorem mergeTouching_head (prev : QueryRange α) (rest : List (QueryRange α)) :
    ∃ first others, mergeTouching prev rest = first :: others ∧
      first.bRange = prev.bRange ∧ first.dvLeft = prev.dvLeft ∧ prev.span.hi ≤ first.span.hi ∧
      (rest.Pairwise (fun s t => s.dvLeft ≤ t.dvLeft) → ∀ r ∈ rest,
        Place.after r.dvLeft ≤ prev.span.hi → r.span.hi ≤ first.span.hi) := by
  induction rest generalizing prev with
  | nil => exact ⟨prev, [], rfl, rfl, rfl, le_rfl, by simp⟩
  | cons q rest ih =>
      rcases le_or_gt q.span.lo prev.span.hi with touch | gap
      · rw [mergeTouching_of_touch touch]
        rcases ih (join prev q) with ⟨first, others, same, flag, left, longer, taken⟩
        rw [join_span_hi] at longer
        refine ⟨first, others, same, flag, left, (le_max_left _ _).trans longer, ?_⟩
        intro sorted r mem near
        rw [List.pairwise_cons] at sorted
        rcases List.mem_cons.mp mem with rfl | mem
        · exact (le_max_right _ _).trans longer
        · exact taken sorted.2 r mem (near.trans (le_max_left _ _))
      · rw [mergeTouching_of_gap gap]
        refine ⟨prev, _, rfl, rfl, rfl, le_rfl, fun sorted r mem near => ?_⟩
        have later : q.dvLeft ≤ r.dvLeft := by
          rcases List.mem_cons.mp mem with rfl | mem
          · exact le_rfl
          · exact (List.pairwise_cons.mp sorted).1 r mem
        have reached : q.span.lo ≤ prev.span.hi := by
          apply (lo_le_after q).trans (le_trans _ near)
          rcases later.lt_or_eq with less | same
          · exact (Place.after_lt_after.mpr less).le
          · rw [same]
        exact absurd gap (not_lt.mpr reached)

end Run

/-! ## Joined ranges -/

/-- A range of the merged list does not lose anything when it starts a range of the result. -/
structure Ready (before : List (QueryRange α)) (q : QueryRange α)
    (after : List (QueryRange α)) : Prop where
  starts : ∀ r ∈ after, r.dvLeft = q.dvLeft → q.bIncLeft = false → r.bIncLeft = true →
    ∃ s ∈ before, Place.after q.dvLeft ≤ s.span.hi
  point : q.bRange = false → (∃ s ∈ before, Place.of q.dvLeft ≤ s.span.hi) ∨
    ∀ r ∈ after, r.dvLeft = q.dvLeft → r.dvRight = q.dvLeft

theorem Ready.low {before after : List (QueryRange α)} (ready : Ready before q after)
    (sorted : ∀ r ∈ after, q.dvLeft ≤ r.dvLeft) (gap : ∀ s ∈ before, s.span.hi < q.span.lo) :
    ∀ r ∈ after, q.span.lo ≤ r.span.lo := by
  intro r mem
  rcases (sorted r mem).lt_or_eq with less | same
  · exact Place.toLex_le_toLex.mpr (Or.inl less)
  · cases isOpen : q.bIncLeft with
    | true =>
        rw [lo_eq_of isOpen, same]
        exact of_le_lo r
    | false =>
        cases closed : r.bIncLeft with
        | false => rw [lo_eq_after isOpen, lo_eq_after closed, same]
        | true =>
            rcases ready.starts r mem same.symm isOpen closed with ⟨s, member, reached⟩
            rw [← lo_eq_after isOpen] at reached
            exact absurd reached (not_le.mpr (gap s member))

theorem Ready.alone {before after : List (QueryRange α)} (ready : Ready before q after)
    (proper : q.Proper) (gap : ∀ s ∈ before, s.span.hi < q.span.lo) :
    q.bRange = false → ∀ r ∈ after, r.dvLeft = q.dvLeft → r.dvRight = q.dvLeft := by
  intro flag r mem
  rcases ready.point flag with ⟨s, member, reached⟩ | only
  · rw [← (proper.span_point flag).1] at reached
    exact absurd reached (not_le.mpr (gap s member))
  · exact only r mem

theorem join_point (proper : prev.Proper) (point : prev.bRange = false)
    (later : prev.dvLeft ≤ q.dvLeft) (alone : q.dvLeft = prev.dvLeft → q.dvRight = prev.dvLeft)
    (touch : q.span.lo ≤ prev.span.hi) : join prev q = prev := by
  have hi := (proper.span_point point).2
  have notLater : q.dvLeft ≤ prev.dvLeft := by
    have near := (of_le_lo q).trans touch
    rw [hi] at near
    rcases Place.toLex_le_toLex.mp near with less | ⟨same, -⟩
    · exact less.le
    · exact same.le
  have same := le_antisymm notLater later
  apply join_of_le
  rw [hi, ← alone same]
  exact hi_le_after q

theorem Proper.join (proper : prev.Proper) (later : prev.dvLeft ≤ q.dvLeft)
    (alone : prev.bRange = false → q.dvLeft = prev.dvLeft → q.dvRight = prev.dvLeft)
    (touch : q.span.lo ≤ prev.span.hi) : (prev.join q).Proper := by
  cases flag : prev.bRange with
  | false =>
      rw [join_point proper flag later (alone flag) touch]
      exact proper
  | true =>
      have less : prev.dvLeft < prev.dvRight := by
        refine lt_of_le_of_ne proper.le fun same => ?_
        rw [← proper.flag_iff, flag] at same
        cases same
      have longer : prev.dvRight ≤ (prev.join q).dvRight := by
        have le : prev.span.hi ≤ (prev.join q).span.hi := le_max_left _ _
        rcases Place.toLex_le_toLex.mp le with less | ⟨same, -⟩
        · exact less.le
        · exact same.le
      apply proper_of_lt
      · exact proper.lt.trans_le (le_max_left _ _)
      · refine iff_of_false ?_ (less.trans_le longer).ne
        change prev.bRange ≠ false
        rw [flag]
        decide

/-- The second loop joins what touches, when every range that starts a new one is ready. -/
theorem mergeTouching_sound {before rest : List (QueryRange α)} (proper : prev.Proper)
    (properRest : ∀ q ∈ rest, q.Proper) (sorted : rest.Pairwise fun q r => q.dvLeft ≤ r.dvLeft)
    (first : ∀ q ∈ rest, prev.dvLeft ≤ q.dvLeft) (low : ∀ q ∈ rest, prev.span.lo ≤ q.span.lo)
    (alone : prev.bRange = false → ∀ q ∈ rest, q.dvLeft = prev.dvLeft → q.dvRight = prev.dvLeft)
    (seen : ∀ q ∈ before, q.span.hi ≤ prev.span.hi)
    (ready : ∀ middle q after, rest = middle ++ q :: after → Ready (before ++ middle) q after) :
    Sorted (mergeTouching prev rest) ∧
      Span.cover ((mergeTouching prev rest).map span) = Span.cover ((prev :: rest).map span) := by
  induction rest generalizing prev before with
  | nil =>
      rw [mergeTouching]
      exact ⟨⟨by simpa using proper, by simp⟩, rfl⟩
  | cons q rest ih =>
      have properQ := properRest q (by simp)
      have properOthers : ∀ r ∈ rest, r.Proper := fun r mem => properRest r (by simp [mem])
      rw [List.pairwise_cons] at sorted
      have shift : ∀ middle r after, rest = middle ++ r :: after →
          Ready (before ++ [q] ++ middle) r after := by
        intro middle r after same
        have shifted := ready (q :: middle) r after (by rw [same]; rfl)
        simpa using shifted
      rcases le_or_gt q.span.lo prev.span.hi with touch | gap
      · rw [mergeTouching_of_touch touch]
        have seenJoin : ∀ r ∈ before ++ [q], r.span.hi ≤ (prev.join q).span.hi := by
          intro r mem
          rcases List.mem_append.mp mem with mem | mem
          · exact (seen r mem).trans (le_max_left _ _)
          · rw [List.mem_singleton.mp mem]
            exact le_max_right _ _
        have properJoin : (prev.join q).Proper :=
          proper.join (first q (by simp)) (fun flag => alone flag q (by simp)) touch
        have joined := ih properJoin properOthers sorted.2 (fun r mem => first r (by simp [mem]))
          (fun r mem => low r (by simp [mem])) (fun flag r mem => alone flag r (by simp [mem]))
          seenJoin shift
        refine ⟨joined.1, joined.2.trans ?_⟩
        have start := low q (by simp)
        rw [List.map_cons, List.map_cons, List.map_cons, Span.cover_cons, Span.cover_cons,
          Span.cover_cons, ← Set.union_assoc,
          Set.Ico_union_Ico' touch (start.trans properQ.lt.le), min_eq_left start]
        rfl
      · rw [mergeTouching_of_gap gap]
        have readyQ := ready [] q rest rfl
        rw [List.append_nil] at readyQ
        have behind : ∀ s ∈ before, s.span.hi < q.span.lo :=
          fun s mem => (seen s mem).trans_lt gap
        have lowQ := readyQ.low sorted.1 behind
        have aloneQ := readyQ.alone properQ behind
        have seenQ : ∀ r ∈ before ++ [q], r.span.hi ≤ q.span.hi := by
          intro r mem
          rcases List.mem_append.mp mem with mem | mem
          · exact ((seen r mem).trans_lt gap).le.trans properQ.lt.le
          · rw [List.mem_singleton.mp mem]
        have joined := ih properQ properOthers sorted.2 sorted.1 lowQ aloneQ seenQ shift
        refine ⟨⟨?_, ?_⟩, ?_⟩
        · intro r mem
          rcases List.mem_cons.mp mem with rfl | mem
          · exact proper
          · exact joined.1.proper r mem
        · refine List.pairwise_cons.mpr ⟨fun r mem => ?_, joined.1.ordered⟩
          apply before_iff.mpr
          apply gap.le.trans
          apply lo_le_of_mem_mergeTouching _ mem
          intro s member
          rcases List.mem_cons.mp member with rfl | member
          · exact properQ.lt
          · exact (properOthers s member).lt
        · rw [List.map_cons, List.map_cons, Span.cover_cons, Span.cover_cons, joined.2]

/-! ## The merged list -/

/-- A range of the merged list comes before another one; the flag says that it is of the second
list. -/
def Precedes (a b : Bool × QueryRange α) : Prop :=
  if a.1 = b.1 then Before a.2 b.2
  else if a.1 then a.2.dvLeft < b.2.dvLeft else a.2.dvLeft ≤ b.2.dvLeft

def merged (left right : List (QueryRange α)) : List (Bool × QueryRange α) :=
  (left.map (Prod.mk false)).merge (right.map (Prod.mk true))
    fun a b => decide (a.2.dvLeft ≤ b.2.dvLeft)

variable {left right : List (QueryRange α)}

theorem merged_map (left right : List (QueryRange α)) :
    (merged left right).map Prod.snd =
      left.merge right fun v1 v2 => decide (v1.dvLeft ≤ v2.dvLeft) := by
  let le := fun v1 v2 : QueryRange α => decide (v1.dvLeft ≤ v2.dvLeft)
  have mapped : (merged left right).map Prod.snd =
      ((left.map (Prod.mk false)).map Prod.snd).merge ((right.map (Prod.mk true)).map Prod.snd)
        le :=
    List.map_merge fun _ _ _ _ => rfl
  rw [mapped]
  simp [Function.comp_def, le]

theorem mem_merged {a : Bool × QueryRange α} :
    a ∈ merged left right ↔ a.1 = false ∧ a.2 ∈ left ∨ a.1 = true ∧ a.2 ∈ right := by
  unfold merged
  rw [List.mem_merge]
  rcases a with ⟨tag, q⟩
  cases tag <;> simp

theorem Sorted.dvLeft (sorted : Sorted left) :
    left.Pairwise fun q r => decide (q.dvLeft ≤ r.dvLeft) = true := by
  apply sorted.ordered.imp_of_mem
  intro q r mem _ before
  simpa using before.dvLeft_le (sorted.proper q mem)

theorem Sorted.cases (sorted : Sorted left) (mem : q ∈ left) (mem' : r ∈ left) :
    q = r ∨ Before q r ∨ Before r q := by
  let related : QueryRange α → QueryRange α → Prop := fun q r => q = r ∨ Before q r ∨ Before r q
  have forward : left.Pairwise related :=
    sorted.ordered.imp fun before => Or.inr (Or.inl before)
  have backward : left.Pairwise (flip related) :=
    sorted.ordered.imp fun before => Or.inr (Or.inr before)
  have itself : ∀ q ∈ left, related q q := fun _ _ => Or.inl rfl
  exact List.Pairwise.forall_of_forall_of_flip itself forward backward mem mem'

theorem pairwise_merged (left_sorted : Sorted left) (right_sorted : Sorted right) :
    (merged left right).Pairwise Precedes := by
  apply pairwise_merge_of
  · exact List.pairwise_map.mpr (left_sorted.ordered.imp fun before => by simpa [Precedes])
  · exact List.pairwise_map.mpr (right_sorted.ordered.imp fun before => by simpa [Precedes])
  · exact List.pairwise_map.mpr left_sorted.dvLeft
  · exact List.pairwise_map.mpr right_sorted.dvLeft
  · intro a b c le le'
    simp only [decide_eq_true_eq] at le le' ⊢
    exact le.trans le'
  · intro a mem b mem' le
    rcases List.mem_map.mp mem with ⟨q, -, rfl⟩
    rcases List.mem_map.mp mem' with ⟨r, -, rfl⟩
    simpa [Precedes] using le
  · intro b mem' a mem greater
    rcases List.mem_map.mp mem with ⟨q, -, rfl⟩
    rcases List.mem_map.mp mem' with ⟨r, -, rfl⟩
    simpa [Precedes] using greater

theorem proper_of_mem_merged (left_sorted : Sorted left) (right_sorted : Sorted right)
    {a : Bool × QueryRange α} (mem : a ∈ merged left right) : a.2.Proper := by
  rcases mem_merged.mp mem with ⟨-, mem⟩ | ⟨-, mem⟩
  · exact left_sorted.proper a.2 mem
  · exact right_sorted.proper a.2 mem

theorem Precedes.dvLeft_le {a b : Bool × QueryRange α} (precedes : Precedes a b)
    (proper : a.2.Proper) : a.2.dvLeft ≤ b.2.dvLeft := by
  unfold Precedes at precedes
  split at precedes
  · exact precedes.dvLeft_le proper
  · split at precedes
    · exact precedes.le
    · exact precedes

theorem Precedes.asymm {a b : Bool × QueryRange α} (precedes : Precedes a b)
    (proper : a.2.Proper) (proper' : b.2.Proper) : ¬Precedes b a := by
  intro back
  rcases a with ⟨tag, q⟩
  rcases b with ⟨tag', r⟩
  have same : tag = tag' → False := by
    intro same
    subst same
    simp only [Precedes, if_true] at precedes back
    exact lt_asymm (precedes.lo_lt proper) (back.lo_lt proper')
  cases tag <;> cases tag'
  · exact same rfl
  · simp only [Precedes, Bool.false_eq_true, Bool.true_eq_false, if_false, if_true] at precedes back
    exact absurd precedes (not_le.mpr back)
  · simp only [Precedes, Bool.false_eq_true, Bool.true_eq_false, if_false, if_true] at precedes back
    exact absurd back (not_le.mpr precedes)
  · exact same rfl

section Split

variable {before after : List (Bool × QueryRange α)} {a b : Bool × QueryRange α}

theorem mem_before (left_sorted : Sorted left) (right_sorted : Sorted right)
    (split : merged left right = before ++ b :: after) (mem : a ∈ merged left right)
    (precedes : Precedes a b) : a ∈ before := by
  have pairwise := pairwise_merged left_sorted right_sorted
  have properA := proper_of_mem_merged left_sorted right_sorted mem
  have memB : b ∈ merged left right := by simp [split]
  have properB := proper_of_mem_merged left_sorted right_sorted memB
  rw [split] at mem pairwise
  rcases List.mem_append.mp mem with mem | mem
  · exact mem
  · exfalso
    rcases List.mem_cons.mp mem with rfl | mem
    · exact precedes.asymm properA properA precedes
    · have later := (List.pairwise_cons.mp (List.pairwise_append.mp pairwise).2.1).1 a mem
      exact precedes.asymm properA properB later

theorem precedes_of_mem_before (left_sorted : Sorted left) (right_sorted : Sorted right)
    (split : merged left right = before ++ b :: after) (mem : a ∈ before) : Precedes a b := by
  have pairwise := pairwise_merged left_sorted right_sorted
  rw [split] at pairwise
  exact (List.pairwise_append.mp pairwise).2.2 a mem b (by simp)

theorem precedes_of_mem_after (left_sorted : Sorted left) (right_sorted : Sorted right)
    (split : merged left right = before ++ b :: after) (mem : a ∈ after) : Precedes b a := by
  have pairwise := pairwise_merged left_sorted right_sorted
  rw [split] at pairwise
  exact (List.pairwise_cons.mp (List.pairwise_append.mp pairwise).2.1).1 a mem

/-- In front of a range that starts openly, the first list has only values before it or the value
itself. -/
theorem starts_before (left_sorted : Sorted left) (right_sorted : Sorted right)
    (split : merged left right = before ++ (false, q) :: after) (memQ : q ∈ left)
    {s : QueryRange α} (mem : s ∈ left) (isOpen : q.bIncLeft = false)
    (has : s.Contains q.dvLeft) : (false, s) ∈ before := by
  have properS := left_sorted.proper s mem
  have properQ := left_sorted.proper q memQ
  have inside := (properS.contains_iff q.dvLeft).mp has
  apply mem_before left_sorted right_sorted split (mem_merged.mpr (Or.inl ⟨rfl, mem⟩))
  rcases left_sorted.cases mem memQ with rfl | precedes | follows
  · rw [lo_eq_after isOpen] at inside
    exact absurd inside.1 (not_le.mpr (Place.of_lt_after.mpr le_rfl))
  · simpa [Precedes] using precedes
  · exfalso
    have late : q.span.lo < Place.of q.dvLeft := (follows.lo_lt properQ).trans_le inside.1
    exact absurd (of_le_lo q) (not_le.mpr late)

theorem ready_of_joinable (left_sorted : Sorted left) (right_sorted : Sorted right)
    (joinable : Joinable left right) (split : merged left right = before ++ b :: after) :
    Ready (before.map Prod.snd) b.2 (after.map Prod.snd) := by
  have memB : b ∈ merged left right := by simp [split]
  have properB := proper_of_mem_merged left_sorted right_sorted memB
  have memAfter : ∀ a ∈ after, a ∈ merged left right := fun a mem => by simp [split, mem]
  refine ⟨?_, ?_⟩
  · intro r mem same isOpen closed
    rcases List.mem_map.mp mem with ⟨a, memA, rfl⟩
    have properA := proper_of_mem_merged left_sorted right_sorted (memAfter a memA)
    have precedes := precedes_of_mem_after left_sorted right_sorted split memA
    -- a range of the same list starts behind the end of `b`
    have others : b.1 ≠ a.1 := by
      intro sameList
      rw [Precedes, if_pos sameList] at precedes
      have less := precedes.lo_lt properB
      rw [lo_eq_after isOpen, lo_eq_of closed, same] at less
      exact absurd less (not_lt.mpr (Place.of_lt_after.mpr le_rfl).le)
    rcases mem_merged.mp memB with ⟨tagB, inLeft⟩ | ⟨tagB, -⟩
    · rcases mem_merged.mp (memAfter a memA) with ⟨tagA, -⟩ | ⟨-, inRight⟩
      · exact absurd (tagB.trans tagA.symm) others
      · rcases joinable.starts b.2 inLeft a.2 inRight same.symm isOpen closed with ⟨s, mem, has⟩
        have tagged : b = (false, b.2) := by rw [← tagB]
        rw [tagged] at split
        have earlier := starts_before left_sorted right_sorted split inLeft mem isOpen has
        refine ⟨s, List.mem_map.mpr ⟨_, earlier, rfl⟩, ?_⟩
        exact Place.after_le_iff.mpr
          (((left_sorted.proper s mem).contains_iff b.2.dvLeft).mp has).2
    · rw [Precedes, if_neg others, if_pos tagB] at precedes
      exact absurd same precedes.ne'
  · intro flag
    have reaches : ∀ a ∈ merged left right, Precedes a b → b.2.dvLeft ≤ a.2.dvRight →
        ∃ s ∈ before.map Prod.snd, Place.of b.2.dvLeft ≤ s.span.hi := by
      intro a memA precedes le
      have earlier := mem_before left_sorted right_sorted split memA precedes
      exact ⟨a.2, List.mem_map.mpr ⟨a, earlier, rfl⟩, (Place.of_le_of.mpr le).trans (of_le_hi a.2)⟩
    have reachesLess : ∀ a ∈ merged left right, a.2.dvLeft < b.2.dvLeft →
        b.2.dvLeft ≤ a.2.dvRight →
        ∃ s ∈ before.map Prod.snd, Place.of b.2.dvLeft ≤ s.span.hi := by
      intro a memA less le
      rw [split] at memA
      rcases List.mem_append.mp memA with earlier | later
      · exact ⟨a.2, List.mem_map.mpr ⟨a, earlier, rfl⟩,
          (Place.of_le_of.mpr le).trans (of_le_hi a.2)⟩
      · rcases List.mem_cons.mp later with rfl | later
        · exact absurd less (lt_irrefl _)
        · have precedes := precedes_of_mem_after left_sorted right_sorted split later
          exact absurd less (not_lt.mpr (precedes.dvLeft_le properB))
    have inMerged : ∀ s ∈ left ++ right, ∃ a ∈ merged left right, a.2 = s := by
      intro s mem
      rcases List.mem_append.mp mem with mem | mem
      · exact ⟨(false, s), mem_merged.mpr (Or.inl ⟨rfl, mem⟩), rfl⟩
      · exact ⟨(true, s), mem_merged.mpr (Or.inr ⟨rfl, mem⟩), rfl⟩
    rcases mem_merged.mp memB with ⟨tagB, inLeft⟩ | ⟨tagB, inRight⟩
    · rcases joinable.leftPoints b.2 inLeft flag with ⟨s, mem, less, le⟩ | only
      · left
        rcases inMerged s mem with ⟨a, memA, rfl⟩
        exact reachesLess a memA less le
      · right
        intro r mem
        rcases List.mem_map.mp mem with ⟨a, memA, rfl⟩
        apply only
        rcases mem_merged.mp (memAfter a memA) with ⟨-, mem⟩ | ⟨-, mem⟩
        · exact List.mem_append_left _ mem
        · exact List.mem_append_right _ mem
    · rcases joinable.rightPoints b.2 inRight flag with ⟨s, mem, same⟩ | ⟨s, mem, less, le⟩ | only
      · left
        apply reaches (false, s) (mem_merged.mpr (Or.inl ⟨rfl, mem⟩))
        · simp [Precedes, tagB, same]
        · rw [← same]
          exact (left_sorted.proper s mem).le
      · left
        rcases inMerged s mem with ⟨a, memA, rfl⟩
        exact reachesLess a memA less le
      · right
        intro r mem same
        rcases List.mem_map.mp mem with ⟨a, memA, rfl⟩
        rcases mem_merged.mp (memAfter a memA) with ⟨tagA, -⟩ | ⟨-, inRight'⟩
        · have precedes := precedes_of_mem_after left_sorted right_sorted split memA
          rw [Precedes, if_neg (by simp [tagA, tagB]), if_pos tagB] at precedes
          exact absurd same precedes.ne'
        · exact only a.2 inRight' same

end Split

/-! ## When the result is the union -/

theorem proper_of_mem_map (left_sorted : Sorted left) (right_sorted : Sorted right)
    (mem : q ∈ (merged left right).map Prod.snd) : q.Proper := by
  rcases List.mem_map.mp mem with ⟨a, member, rfl⟩
  exact proper_of_mem_merged left_sorted right_sorted member

theorem sorted_map (left_sorted : Sorted left) (right_sorted : Sorted right) :
    ((merged left right).map Prod.snd).Pairwise fun q r => q.dvLeft ≤ r.dvLeft := by
  apply List.pairwise_map.mpr
  apply (pairwise_merged left_sorted right_sorted).imp_of_mem
  intro a b mem _ precedes
  exact precedes.dvLeft_le (proper_of_mem_merged left_sorted right_sorted mem)

theorem mem_map_merged : q ∈ (merged left right).map Prod.snd ↔ q ∈ left ∨ q ∈ right := by
  rw [merged_map]
  exact List.mem_merge

theorem mergeOrQueryRange_merged (left right : List (QueryRange α)) :
    mergeOrQueryRange left right =
      match (merged left right).map Prod.snd with
      | [] => none
      | q :: rest => some (mergeTouching q rest) := by
  rw [merged_map]
  rfl

theorem contains_iff_cover {ranges : List (QueryRange α)} (proper : ∀ q ∈ ranges, q.Proper)
    (v : α) : (∃ q ∈ ranges, q.Contains v) ↔ Place.of v ∈ Span.cover (ranges.map span) := by
  simp only [Span.cover, List.mem_map, exists_exists_and_eq_and, Set.mem_ofPred_eq]
  apply exists_congr
  intro q
  apply and_congr_right
  intro mem
  exact (proper q mem).contains_iff v

theorem isUnion_of_joinable (left_sorted : Sorted left) (right_sorted : Sorted right)
    (joinable : Joinable left right) :
    ∃ ranges, mergeOrQueryRange left right = some ranges ∧ IsUnion left right ranges := by
  have proper : ∀ q ∈ (merged left right).map Prod.snd, q.Proper :=
    fun q mem => proper_of_mem_map left_sorted right_sorted mem
  have sorted := sorted_map left_sorted right_sorted
  have members : ∀ q, q ∈ (merged left right).map Prod.snd ↔ q ∈ left ∨ q ∈ right :=
    fun q => mem_map_merged
  have ready : ∀ before q after, (merged left right).map Prod.snd = before ++ q :: after →
      Ready before q after := by
    intro before q after split
    rcases List.map_eq_append_iff.mp split with ⟨tagged, others, same, rfl, split'⟩
    rcases List.map_eq_cons_iff.mp split' with ⟨b, later, rfl, rfl, rfl⟩
    exact ready_of_joinable left_sorted right_sorted joinable same
  rw [mergeOrQueryRange_merged]
  cases split : (merged left right).map Prod.snd with
  | nil =>
      rw [split] at members
      exfalso
      have leftEmpty : left = [] :=
        List.eq_nil_iff_forall_not_mem.mpr fun q mem => by simpa using (members q).mpr (Or.inl mem)
      have rightEmpty : right = [] :=
        List.eq_nil_iff_forall_not_mem.mpr fun q mem => by simpa using (members q).mpr (Or.inr mem)
      rcases joinable.nonempty with some | some
      · exact some leftEmpty
      · exact some rightEmpty
  | cons prev rest =>
      rw [split] at proper sorted members ready
      rw [List.pairwise_cons] at sorted
      have properPrev := proper prev (by simp)
      have readyPrev := ready [] prev rest rfl
      have joined := @mergeTouching_sound _ _ _ [prev] _ properPrev
        (fun q mem => proper q (by simp [mem])) sorted.2 sorted.1
        (readyPrev.low sorted.1 (by simp)) (readyPrev.alone properPrev (by simp)) (by simp)
        (fun middle q after same => ready (prev :: middle) q after (by rw [same]; rfl))
      refine ⟨mergeTouching prev rest, rfl, joined.1, fun v => ?_⟩
      rw [contains_iff_cover joined.1.proper, joined.2, ← contains_iff_cover proper]
      simp only [members, or_and_right, exists_or]

theorem mergeOrQueryRange_split {before after : List (Bool × QueryRange α)}
    {b : Bool × QueryRange α} (split : merged left right = before ++ b :: after)
    (gap : ∀ a ∈ before, a.2.span.hi < b.2.span.lo) :
    ∃ first, mergeOrQueryRange left right =
        some (first ++ mergeTouching b.2 (after.map Prod.snd)) ∧
      ∀ border, (∀ a ∈ before, a.2.span.hi ≤ border) → ∀ q ∈ first, q.span.hi ≤ border := by
  rw [mergeOrQueryRange_merged, split]
  cases before with
  | nil => exact ⟨[], rfl, by simp⟩
  | cons a before =>
      refine ⟨mergeTouching a.2 (before.map Prod.snd), ?_, fun border below q mem => ?_⟩
      · simp only [List.cons_append, List.map_cons, List.map_append]
        rw [mergeTouching_append]
        intro s mem
        rw [← List.map_cons] at mem
        rcases List.mem_map.mp mem with ⟨c, member, rfl⟩
        exact gap c member
      · apply hi_le_of_mem_mergeTouching _ mem
        intro s member
        rw [← List.map_cons] at member
        rcases List.mem_map.mp member with ⟨c, memC, rfl⟩
        exact below c memC

/-- A value is lost from which the first list starts openly, before the second list starts with
it. -/
theorem starts_of_isUnion (left_sorted : Sorted left) (right_sorted : Sorted right)
    {ranges : List (QueryRange α)} (result : mergeOrQueryRange left right = some ranges)
    (isUnion : IsUnion left right ranges) (memQ : q ∈ left) (memR : r ∈ right)
    (same : q.dvLeft = r.dvLeft) (isOpen : q.bIncLeft = false) (closed : r.bIncLeft = true) :
    ∃ s ∈ left, s.Contains q.dvLeft := by
  by_contra lacks
  rw [not_exists] at lacks
  rcases List.append_of_mem (mem_merged.mpr (Or.inl ⟨rfl, memQ⟩) :
    (false, q) ∈ merged left right) with ⟨before, after, split⟩
  have properR := right_sorted.proper r memR
  have below : ∀ a ∈ before, a.2.span.hi ≤ Place.of q.dvLeft := by
    intro a mem
    have memA : a ∈ merged left right := by simp [split, mem]
    have properA := proper_of_mem_merged left_sorted right_sorted memA
    have precedes := precedes_of_mem_before left_sorted right_sorted split mem
    rcases mem_merged.mp memA with ⟨tag, inLeft⟩ | ⟨tag, inRight⟩
    · rw [Precedes, if_pos tag] at precedes
      have le := before_iff.mp precedes
      rw [lo_eq_after isOpen] at le
      by_contra above
      refine lacks a.2 ⟨inLeft, (properA.contains_iff q.dvLeft).mpr ⟨?_, not_le.mp above⟩⟩
      exact Place.lt_after_iff.mp (properA.lt.trans_le le)
    · rw [Precedes, if_neg (by simp [tag]), if_pos tag] at precedes
      rcases right_sorted.cases inRight memR with here | earlier | later
      · rw [here, ← same] at precedes
        exact absurd precedes (lt_irrefl _)
      · have le := before_iff.mp earlier
        rw [lo_eq_of closed, ← same] at le
        exact le
      · have le := later.dvLeft_le properR
        rw [← same] at le
        exact absurd precedes (not_lt.mpr le)
  have gap : ∀ a ∈ before, a.2.span.hi < q.span.lo := by
    intro a mem
    rw [lo_eq_after isOpen]
    exact (below a mem).trans_lt (Place.of_lt_after.mpr le_rfl)
  rcases mergeOrQueryRange_split split gap with ⟨first, computed, ends⟩
  rw [result] at computed
  cases computed
  have has : r.Contains q.dvLeft := by
    apply (properR.contains_iff q.dvLeft).mpr
    have start : r.span.lo = Place.of q.dvLeft := by rw [lo_eq_of closed, same]
    exact ⟨start.le, start ▸ properR.lt⟩
  rcases (isUnion.contains_iff q.dvLeft).mpr (Or.inr ⟨r, memR, has⟩) with ⟨s, mem, inside⟩
  have properS := isUnion.sorted.proper s mem
  rcases (properS.contains_iff q.dvLeft).mp inside with ⟨low, high⟩
  rcases List.mem_append.mp mem with mem | mem
  · exact absurd high (not_lt.mpr (ends _ below s mem))
  · have late : q.span.lo ≤ s.span.lo := by
      apply lo_le_of_mem_mergeTouching _ mem
      intro t member
      rcases List.mem_cons.mp member with rfl | member
      · exact (left_sorted.proper t memQ).lt
      · rcases List.mem_map.mp member with ⟨c, memC, rfl⟩
        exact (proper_of_mem_merged left_sorted right_sorted (by simp [split, memC])).lt
    rw [lo_eq_after isOpen] at late
    exact absurd (late.trans low) (not_le.mpr (Place.of_lt_after.mpr le_rfl))

/-- A single value that starts a range of the result and is not alone keeps its flag. -/
theorem alone_of_isUnion (left_sorted : Sorted left) (right_sorted : Sorted right)
    {ranges : List (QueryRange α)} (result : mergeOrQueryRange left right = some ranges)
    (isUnion : IsUnion left right ranges) {b : Bool × QueryRange α}
    (memB : b ∈ merged left right) (point : b.2.bRange = false)
    (unreached : ∀ s ∈ left ++ right, s.dvLeft < b.2.dvLeft → s.dvRight < b.2.dvLeft)
    (leading : b.1 = true → ∀ s ∈ left, s.dvLeft ≠ b.2.dvLeft) :
    ∀ r ∈ left ++ right, r.dvLeft = b.2.dvLeft → r.dvRight = b.2.dvLeft := by
  intro r memR same
  have properB := proper_of_mem_merged left_sorted right_sorted memB
  have spanB := properB.span_point point
  rcases List.append_of_mem memB with ⟨before, after, split⟩
  have gap : ∀ a ∈ before, a.2.span.hi < b.2.span.lo := by
    intro a mem
    have memA : a ∈ merged left right := by simp [split, mem]
    have properA := proper_of_mem_merged left_sorted right_sorted memA
    have precedes := precedes_of_mem_before left_sorted right_sorted split mem
    have inEither : a.2 ∈ left ++ right := by
      rcases mem_merged.mp memA with ⟨-, mem⟩ | ⟨-, mem⟩
      · exact List.mem_append_left _ mem
      · exact List.mem_append_right _ mem
    rw [spanB.1]
    rcases (precedes.dvLeft_le properA).lt_or_eq with less | here
    · apply (hi_le_after a.2).trans_lt
      exact Place.after_lt_of.mpr (unreached a.2 inEither less)
    · exfalso
      rw [Precedes] at precedes
      split at precedes
      · have le := precedes.lo_lt properA
        rw [spanB.1, ← here] at le
        exact absurd (of_le_lo a.2) (not_le.mpr le)
      · rename_i others
        split at precedes
        · exact absurd here precedes.ne
        · rename_i notTag
          rw [Bool.not_eq_true] at notTag
          rcases mem_merged.mp memA with ⟨-, inLeft⟩ | ⟨tag, -⟩
          · apply leading _ a.2 inLeft here
            simpa [notTag] using others
          · simp [notTag] at tag
  rcases mergeOrQueryRange_split split gap with ⟨first, computed, -⟩
  rw [result] at computed
  cases computed
  rcases mergeTouching_head b.2 (after.map Prod.snd) with
    ⟨head, others, joined, flag, left_eq, -, taken⟩
  have memHead : head ∈ first ++ mergeTouching b.2 (after.map Prod.snd) := by simp [joined]
  have properHead := isUnion.sorted.proper head memHead
  have spanHead := properHead.span_point (flag.trans point)
  have sorted := sorted_map left_sorted right_sorted
  rw [split, List.map_append, List.map_cons] at sorted
  have sortedAfter := (List.pairwise_cons.mp (List.pairwise_append.mp sorted).2.1).2
  have memR' : r ∈ (merged left right).map Prod.snd := by
    apply mem_map_merged.mpr
    exact List.mem_append.mp memR
  have properR := proper_of_mem_map left_sorted right_sorted memR'
  rw [split, List.map_append, List.map_cons] at memR'
  have short : r.span.hi ≤ Place.after b.2.dvLeft := by
    rcases List.mem_append.mp memR' with mem | mem
    · rcases List.mem_map.mp mem with ⟨a, memA, rfl⟩
      have less := gap a memA
      rw [spanB.1] at less
      exact (less.trans (Place.of_lt_after.mpr le_rfl)).le
    · rcases List.mem_cons.mp mem with rfl | mem
      · exact spanB.2.le
      · have longer := taken sortedAfter r mem (by rw [same, spanB.2])
        rw [spanHead.2, left_eq] at longer
        exact longer
  have notLonger : r.dvRight ≤ b.2.dvLeft := by
    rcases Place.toLex_le_toLex.mp short with less | ⟨eq, -⟩
    · exact less.le
    · exact eq.le
  exact le_antisymm notLonger (same ▸ properR.le)

/-- The result of the merge is the union of two sorted lists if and only if the ranges that start a
range of the result do so in the way of the union. -/
theorem isUnion_iff (left right : List (QueryRange α)) (left_sorted : Sorted left)
    (right_sorted : Sorted right) :
    (∃ ranges, mergeOrQueryRange left right = some ranges ∧ IsUnion left right ranges) ↔
      Joinable left right := by
  refine ⟨?_, isUnion_of_joinable left_sorted right_sorted⟩
  rintro ⟨ranges, result, isUnion⟩
  have members : ∀ s ∈ left ++ right, ∃ tag, (tag, s) ∈ merged left right := by
    intro s mem
    rcases List.mem_append.mp mem with mem | mem
    · exact ⟨false, mem_merged.mpr (Or.inl ⟨rfl, mem⟩)⟩
    · exact ⟨true, mem_merged.mpr (Or.inr ⟨rfl, mem⟩)⟩
  refine ⟨?_, ?_, ?_, ?_⟩
  · by_contra empty
    rw [not_or, not_not, not_not] at empty
    rw [empty.1, empty.2] at result
    simp [mergeOrQueryRange] at result
  · intro q memQ r memR same isOpen closed
    exact starts_of_isUnion left_sorted right_sorted result isUnion memQ memR same isOpen closed
  · intro p mem point
    by_cases reached : ∃ s ∈ left ++ right, s.dvLeft < p.dvLeft ∧ p.dvLeft ≤ s.dvRight
    · exact Or.inl reached
    · right
      apply alone_of_isUnion left_sorted right_sorted result isUnion
        (mem_merged.mpr (Or.inl ⟨rfl, mem⟩) : (false, p) ∈ merged left right) point
      · exact fun s member less => not_le.mp fun le => reached ⟨s, member, less, le⟩
      · intro tag
        cases tag
  · intro p mem point
    by_cases started : ∃ s ∈ left, s.dvLeft = p.dvLeft
    · exact Or.inl started
    · right
      by_cases reached : ∃ s ∈ left ++ right, s.dvLeft < p.dvLeft ∧ p.dvLeft ≤ s.dvRight
      · exact Or.inl reached
      · right
        intro r memR
        apply alone_of_isUnion left_sorted right_sorted result isUnion
          (mem_merged.mpr (Or.inr ⟨rfl, mem⟩) : (true, p) ∈ merged left right) point
        · exact fun s member less => not_le.mp fun le => reached ⟨s, member, less, le⟩
        · exact fun _ s member same => started ⟨s, member, same⟩
        · exact List.mem_append_right _ memR

/-- A range that ends openly where the other list goes on, and a single value. -/
theorem isUnion_iff_touching :
    let left : List (QueryRange ℤ) := [⟨1, 3, true, true, false⟩]
    let right : List (QueryRange ℤ) := [⟨3, 5, true, true, true⟩, ⟨7, 7, false, true, true⟩]
    mergeOrQueryRange left right = some [⟨1, 5, true, true, true⟩, ⟨7, 7, false, true, true⟩] ∧
      ∃ ranges, mergeOrQueryRange left right = some ranges ∧ IsUnion left right ranges := by
  intro left right
  have left_sorted : Sorted left := by
    refine ⟨fun q mem => ?_, by simp [left]⟩
    rw [List.mem_singleton.mp mem]
    exact ⟨Or.inl (by decide), by decide⟩
  have right_sorted : Sorted right := by
    refine ⟨fun q mem => ?_, by simp [right, Before]⟩
    rcases List.mem_cons.mp mem with rfl | mem
    · exact ⟨Or.inl (by decide), by decide⟩
    · rw [List.mem_singleton.mp mem]
      exact ⟨Or.inr (by decide), by decide⟩
  refine ⟨by simp [mergeOrQueryRange, mergeTouching, left, right],
    (isUnion_iff left right left_sorted right_sorted).mpr ?_⟩
  refine ⟨by simp [left], by simp [left], by simp [left], fun p mem point => ?_⟩
  rcases List.mem_cons.mp mem with rfl | mem
  · cases point
  · rw [List.mem_singleton.mp mem]
    exact Or.inr (Or.inr (by simp [right]))

/-- A single value takes in a range of the second list and is still marked as a single value, a
value is lost from which the first list starts openly, and two empty lists have no result. -/
theorem not_isUnion :
    mergeOrQueryRange [⟨(1 : ℤ), 1, false, true, true⟩] [⟨1, 5, true, true, true⟩] =
      some [⟨1, 5, false, true, true⟩] ∧
    mergeOrQueryRange [⟨(0 : ℤ), 5, true, false, true⟩] [⟨0, 3, true, true, true⟩] =
      some [⟨0, 5, true, false, true⟩] ∧
    mergeOrQueryRange ([] : List (QueryRange ℤ)) [] = none ∧
    ¬∀ left right : List (QueryRange ℤ), Sorted left → Sorted right →
      ∃ ranges, mergeOrQueryRange left right = some ranges ∧ IsUnion left right ranges := by
  have point : mergeOrQueryRange [⟨(1 : ℤ), 1, false, true, true⟩] [⟨1, 5, true, true, true⟩] =
      some [⟨1, 5, false, true, true⟩] := by
    simp [mergeOrQueryRange, mergeTouching]
  refine ⟨point, by simp [mergeOrQueryRange, mergeTouching], by simp [mergeOrQueryRange],
    fun always => ?_⟩
  have left_sorted : Sorted [(⟨1, 1, false, true, true⟩ : QueryRange ℤ)] := by
    refine ⟨fun q mem => ?_, by simp⟩
    rw [List.mem_singleton.mp mem]
    exact ⟨Or.inr (by decide), by decide⟩
  have right_sorted : Sorted [(⟨1, 5, true, true, true⟩ : QueryRange ℤ)] := by
    refine ⟨fun q mem => ?_, by simp⟩
    rw [List.mem_singleton.mp mem]
    exact ⟨Or.inl (by decide), by decide⟩
  rcases always _ _ left_sorted right_sorted with ⟨ranges, result, isUnion⟩
  rw [point] at result
  cases result
  have flagged := (isUnion.sorted.proper _ (List.mem_singleton_self _)).flagged
  exact absurd (flagged.mp rfl).1 (by decide)

end QueryRange

end RapidDb
