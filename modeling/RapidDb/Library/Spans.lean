import Mathlib.Data.List.Basic
import Mathlib.Data.Prod.Lex
import Mathlib.Order.BoundedOrder.Basic
import Mathlib.Order.Interval.Set.LinearOrder

/-!
# Lists of spans

A span is a half-open interval of a linear order. In a separated list of spans there is a gap
between any two neighbours; a span may be empty. The two operations are the sweep that meets two
separated lists, and the sweep that joins the touching neighbours of a sorted list.

Intervals with any combination of open and closed ends become spans by going over to the places
of the order: every value, and the place right behind it.
-/

namespace RapidDb

/-- The half-open interval from `lo` to `hi`. -/
structure Span (β : Type*) where
  lo : β
  hi : β

namespace Span

variable {β : Type*} [LinearOrder β]

def meet (s t : Span β) : Span β where
  lo := max s.lo t.lo
  hi := min s.hi t.hi

theorem meet_comm (s t : Span β) : s.meet t = t.meet s := by
  unfold meet
  rw [max_comm, min_comm]

def cover (spans : List (Span β)) : Set β :=
  {p | ∃ s ∈ spans, s.lo ≤ p ∧ p < s.hi}

@[simp]
theorem cover_nil : cover ([] : List (Span β)) = ∅ := by
  simp [cover]

@[simp]
theorem cover_cons (s : Span β) (spans : List (Span β)) :
    cover (s :: spans) = Set.Ico s.lo s.hi ∪ cover spans := by
  ext p
  simp [cover]

theorem Ico_meet (s t : Span β) :
    Set.Ico (s.meet t).lo (s.meet t).hi = Set.Ico s.lo s.hi ∩ Set.Ico t.lo t.hi :=
  Set.Ico_inter_Ico.symm

/-- Spans in order and with gaps between them. -/
structure Separated (spans : List (Span β)) : Prop where
  lo_le_hi : ∀ s ∈ spans, s.lo ≤ s.hi
  gaps : spans.Pairwise fun s t => s.hi < t.lo

namespace Separated

variable {s : Span β} {spans : List (Span β)}

theorem nil : Separated ([] : List (Span β)) :=
  ⟨by simp, .nil⟩

theorem cons_iff :
    Separated (s :: spans) ↔ s.lo ≤ s.hi ∧ (∀ t ∈ spans, s.hi < t.lo) ∧ Separated spans := by
  constructor
  · rintro ⟨le, gaps⟩
    rw [List.pairwise_cons] at gaps
    exact ⟨le s (by simp), gaps.1, fun t mem => le t (by simp [mem]), gaps.2⟩
  · rintro ⟨le, before, rest⟩
    refine ⟨?_, List.pairwise_cons.mpr ⟨before, rest.gaps⟩⟩
    intro t mem
    rcases List.mem_cons.mp mem with rfl | mem
    · exact le
    · exact rest.lo_le_hi t mem

theorem singleton (le : s.lo ≤ s.hi) : Separated [s] :=
  cons_iff.mpr ⟨le, by simp, nil⟩

theorem lt_of_mem_cover (before : ∀ t ∈ spans, s.hi < t.lo) {p : β} (covered : p ∈ cover spans) :
    s.hi < p := by
  obtain ⟨t, mem, le, -⟩ := covered
  exact lt_of_lt_of_le (before t mem) le

/-- A span that starts before another one ends before that one. -/
theorem hi_lt_of_lo_lt (separated : Separated spans) {t : Span β} (mem : t ∈ spans)
    (mem' : s ∈ spans) (lt : t.lo < s.lo) : t.hi < s.lo := by
  induction spans with
  | nil => simp at mem
  | cons first rest ih =>
      obtain ⟨le, before, rest_separated⟩ := cons_iff.mp separated
      rcases List.mem_cons.mp mem with rfl | later
      · rcases List.mem_cons.mp mem' with rfl | later
        · exact absurd lt (lt_irrefl _)
        · exact before s later
      · rcases List.mem_cons.mp mem' with rfl | later'
        · exact absurd (lt.trans_le le) (not_lt.mpr (before t later).le)
        · exact ih rest_separated later later'

end Separated

theorem eq_nil_iff {spans : List (Span β)} (nonempty : ∀ s ∈ spans, s.lo < s.hi) :
    spans = [] ↔ cover spans = ∅ := by
  constructor
  · rintro rfl
    exact cover_nil
  · intro empty
    cases spans with
    | nil => rfl
    | cons s rest =>
        have covered : s.lo ∈ cover (s :: rest) :=
          ⟨s, by simp, le_refl _, nonempty s (by simp)⟩
        rw [empty] at covered
        exact absurd covered (Set.notMem_empty _)

section Meets

/-- The span alone, or nothing if it is empty. -/
def trim (s : Span β) : List (Span β) :=
  if s.lo < s.hi then [s] else []

@[simp]
theorem mem_trim {s m : Span β} : m ∈ s.trim ↔ m = s ∧ s.lo < s.hi := by
  unfold trim
  split <;> simp_all

theorem cover_append (left right : List (Span β)) :
    cover (left ++ right) = cover left ∪ cover right := by
  ext p
  simp only [cover, List.mem_append, or_and_right, exists_or]
  rfl

@[simp]
theorem cover_trim (s : Span β) : cover s.trim = Set.Ico s.lo s.hi := by
  unfold trim
  split
  · simp
  · rename_i empty
    rw [cover_nil, Set.Ico_eq_empty empty]

/-- Two separated lists are met by a sweep: the first spans are met, and one of them is dropped.
The function says whether it is the one of the left list. -/
def meets (drop : Span β → Span β → Bool) : List (Span β) → List (Span β) → List (Span β)
  | s :: ss, t :: ts =>
      if drop s t then
        (s.meet t).trim ++ meets drop ss (t :: ts)
      else
        (s.meet t).trim ++ meets drop (s :: ss) ts
  | [], _ => []
  | _ :: _, [] => []
termination_by left right => left.length + right.length

/-- A span may be dropped when all that comes behind the other one is behind it as well. -/
structure Drops (drop : Span β → Span β → Bool) : Prop where
  left : ∀ {s t : Span β}, drop s t = true → ∀ p, t.hi < p → s.hi ≤ p
  right : ∀ {s t : Span β}, drop s t = false → ∀ p, s.hi < p → t.hi ≤ p

variable {drop : Span β → Span β → Bool} {left right : List (Span β)}

theorem mem_meets {m : Span β} (mem : m ∈ meets drop left right) :
    m.lo < m.hi ∧ ∃ s ∈ left, ∃ t ∈ right, m = s.meet t := by
  fun_induction meets drop left right with
  | case1 s ss t ts drops ih =>
      rcases List.mem_append.mp mem with first | rest
      · obtain ⟨rfl, nonempty⟩ := mem_trim.mp first
        exact ⟨nonempty, s, by simp, t, by simp, rfl⟩
      · obtain ⟨nonempty, s', mem', t', mem'', eq⟩ := ih rest
        exact ⟨nonempty, s', by simp [mem'], t', mem'', eq⟩
  | case2 s ss t ts keeps ih =>
      rcases List.mem_append.mp mem with first | rest
      · obtain ⟨rfl, nonempty⟩ := mem_trim.mp first
        exact ⟨nonempty, s, by simp, t, by simp, rfl⟩
      · obtain ⟨nonempty, s', mem', t', mem'', eq⟩ := ih rest
        exact ⟨nonempty, s', mem', t', by simp [mem''], eq⟩
  | case3 => simp at mem
  | case4 => simp at mem

/-- The sweep covers what both lists cover. -/
theorem cover_meets (sound : Drops drop) (left_separated : Separated left)
    (right_separated : Separated right) :
    cover (meets drop left right) = cover left ∩ cover right := by
  fun_induction meets drop left right with
  | case1 s ss t ts drops ih =>
      obtain ⟨-, -, rest⟩ := Separated.cons_iff.mp left_separated
      obtain ⟨-, before, -⟩ := Separated.cons_iff.mp right_separated
      -- nothing of the dropped span is covered by what stands behind `t`
      have apart : Set.Ico s.lo s.hi ∩ cover ts = ∅ := by
        apply Set.eq_empty_of_forall_notMem
        rintro p ⟨inside, covered⟩
        have behind := sound.left drops p (Separated.lt_of_mem_cover before covered)
        exact absurd inside.2 (not_lt.mpr behind)
      rw [cover_append, cover_trim, Ico_meet, ih rest right_separated, cover_cons s,
        Set.union_inter_distrib_right, cover_cons t,
        Set.inter_union_distrib_left (Set.Ico s.lo s.hi), apart, Set.union_empty]
  | case2 s ss t ts keeps ih =>
      obtain ⟨-, before, -⟩ := Separated.cons_iff.mp left_separated
      obtain ⟨-, -, rest⟩ := Separated.cons_iff.mp right_separated
      have apart : cover ss ∩ Set.Ico t.lo t.hi = ∅ := by
        apply Set.eq_empty_of_forall_notMem
        rintro p ⟨covered, inside⟩
        have behind := sound.right (by simpa using keeps) p
          (Separated.lt_of_mem_cover before covered)
        exact absurd inside.2 (not_lt.mpr behind)
      rw [cover_append, cover_trim, Ico_meet, ih left_separated rest, cover_cons t,
        Set.inter_union_distrib_left, cover_cons s,
        Set.union_inter_distrib_right _ _ (Set.Ico t.lo t.hi), apart, Set.union_empty]
  | case3 => simp
  | case4 => simp

theorem separated_meets (left_separated : Separated left) (right_separated : Separated right) :
    Separated (meets drop left right) := by
  refine ⟨fun m mem => (mem_meets mem).1.le, ?_⟩
  fun_induction meets drop left right with
  | case1 s ss t ts drops ih =>
      obtain ⟨-, before, rest⟩ := Separated.cons_iff.mp left_separated
      refine List.pairwise_append.mpr ⟨?_, ih rest right_separated, ?_⟩
      · unfold trim
        split <;> simp
      · intro m first m' later
        obtain ⟨rfl, -⟩ := mem_trim.mp first
        obtain ⟨-, s', mem, t', -, rfl⟩ := mem_meets later
        calc (s.meet t).hi ≤ s.hi := min_le_left _ _
          _ < s'.lo := before s' mem
          _ ≤ (s'.meet t').lo := le_max_left _ _
  | case2 s ss t ts keeps ih =>
      obtain ⟨-, before, rest⟩ := Separated.cons_iff.mp right_separated
      refine List.pairwise_append.mpr ⟨?_, ih left_separated rest, ?_⟩
      · unfold trim
        split <;> simp
      · intro m first m' later
        obtain ⟨rfl, -⟩ := mem_trim.mp first
        obtain ⟨-, s', -, t', mem, rfl⟩ := mem_meets later
        calc (s.meet t).hi ≤ t.hi := min_le_right _ _
          _ < t'.lo := before t' mem
          _ ≤ (s'.meet t').lo := le_max_right _ _
  | case3 => exact .nil
  | case4 => exact .nil

end Meets

section Joins

/-- The touching neighbours of a list are joined; `prev` is what has been joined so far. -/
def joins (prev : Span β) : List (Span β) → List (Span β)
  | [] => [prev]
  | s :: rest =>
      if s.lo ≤ prev.hi then joins ⟨prev.lo, max prev.hi s.hi⟩ rest else prev :: joins s rest

variable {prev : Span β} {rest : List (Span β)}

/-- Sorted by the left ends, up to empty spans. -/
def Sorted (spans : List (Span β)) : Prop :=
  spans.Pairwise fun s t => t.lo < t.hi → s.lo ≤ t.lo

/-- What is joined so far with its touching neighbour in front of the rest is as sorted and as
well ordered as before. -/
theorem sorted_joined {s : Span β} (sorted : Sorted (prev :: s :: rest)) :
    Sorted (⟨prev.lo, max prev.hi s.hi⟩ :: rest) := by
  simp only [Sorted, List.pairwise_cons, List.mem_cons] at sorted ⊢
  exact ⟨fun t mem => sorted.1 t (.inr mem), sorted.2.2⟩

theorem lo_le_hi_joined {s : Span β} (le : ∀ t ∈ prev :: s :: rest, t.lo ≤ t.hi) :
    ∀ t ∈ (⟨prev.lo, max prev.hi s.hi⟩ : Span β) :: rest, t.lo ≤ t.hi := by
  intro t mem
  rcases List.mem_cons.mp mem with rfl | mem
  · exact le_trans (le prev (by simp)) (le_max_left _ _)
  · exact le t (by simp [mem])

theorem lo_le_of_mem_joins (le : ∀ s ∈ prev :: rest, s.lo ≤ s.hi)
    {m : Span β} (mem : m ∈ joins prev rest) : prev.lo ≤ m.lo := by
  fun_induction joins prev rest with
  | case1 prev => exact le_of_eq (by rw [List.mem_singleton.mp mem])
  | case2 prev s rest touch ih => exact ih (lo_le_hi_joined le) mem
  | case3 prev s rest gap ih =>
      rcases List.mem_cons.mp mem with rfl | mem
      · exact le_refl _
      · calc prev.lo ≤ prev.hi := le prev (by simp)
          _ ≤ s.lo := (not_le.mp gap).le
          _ ≤ m.lo := ih (fun t member => le t (by simp_all)) mem

/-- Joining changes nothing about what is covered. -/
theorem cover_joins (sorted : Sorted (prev :: rest)) (le : ∀ s ∈ prev :: rest, s.lo ≤ s.hi) :
    cover (joins prev rest) = cover (prev :: rest) := by
  fun_induction joins prev rest with
  | case1 prev => rfl
  | case2 prev s rest touch ih =>
      rw [ih (sorted_joined sorted) (lo_le_hi_joined le), cover_cons, cover_cons, cover_cons,
        ← Set.union_assoc]
      congr 1
      rcases (le s (by simp)).lt_or_eq with nonempty | empty
      · have first : prev.lo ≤ s.lo := (List.pairwise_cons.mp sorted).1 s (by simp) nonempty
        rw [Set.Ico_union_Ico' touch (first.trans nonempty.le), min_eq_left first]
      · rw [empty, Set.Ico_self, Set.union_empty, max_eq_left (empty ▸ touch)]
  | case3 prev s rest gap ih =>
      rw [Sorted, List.pairwise_cons] at sorted
      rw [cover_cons, cover_cons, ih sorted.2 fun t mem => le t (by simp_all)]

theorem separated_joins (le : ∀ s ∈ prev :: rest, s.lo ≤ s.hi) : Separated (joins prev rest) := by
  fun_induction joins prev rest with
  | case1 prev => exact .singleton (le prev (by simp))
  | case2 prev s rest touch ih => exact ih (lo_le_hi_joined le)
  | case3 prev s rest gap ih =>
      have le_rest : ∀ t ∈ s :: rest, t.lo ≤ t.hi := fun t mem => le t (by simp_all)
      refine Separated.cons_iff.mpr ⟨le prev (by simp), ?_, ih le_rest⟩
      intro t mem
      exact lt_of_lt_of_le (not_le.mp gap) (lo_le_of_mem_joins le_rest mem)

end Joins

/-- A covered set starts at a place when the place is in the set and no interval of the set
reaches it from the left. -/
def StartsAt (covered : Set β) (p : β) : Prop :=
  p ∈ covered ∧ ∀ q < p, ∃ r, q ≤ r ∧ r < p ∧ r ∉ covered

theorem Separated.startsAt {spans : List (Span β)} (separated : Separated spans) {s : Span β}
    (mem : s ∈ spans) (nonempty : s.lo < s.hi) : StartsAt (cover spans) s.lo := by
  refine ⟨⟨s, mem, le_refl _, nonempty⟩, ?_⟩
  intro q before
  induction spans with
  | nil => simp at mem
  | cons t rest ih =>
      obtain ⟨le, behind, rest_separated⟩ := Separated.cons_iff.mp separated
      rcases List.mem_cons.mp mem with rfl | mem
      · refine ⟨q, le_refl q, before, ?_⟩
        rw [cover_cons]
        rintro (inside | covered)
        · exact absurd inside.1 (not_le.mpr before)
        · have := Separated.lt_of_mem_cover behind covered
          exact absurd (this.trans before) (not_lt.mpr le)
      · -- what stands before `s` and behind `t` is the end of `t`, or is given by the rest
        obtain ⟨r, le, lt, outside⟩ := ih rest_separated mem
        by_cases reach : t.hi ≤ r
        · refine ⟨r, le, lt, ?_⟩
          rw [cover_cons]
          rintro (inside | covered)
          · exact absurd inside.2 (not_lt.mpr reach)
          · exact outside covered
        · refine ⟨t.hi, le_trans le (not_le.mp reach).le, behind s mem, ?_⟩
          rw [cover_cons]
          rintro (inside | covered)
          · exact absurd inside.2 (lt_irrefl _)
          · exact absurd (Separated.lt_of_mem_cover behind covered) (lt_irrefl _)

theorem Separated.hi_notMem {spans : List (Span β)} (separated : Separated spans) {s : Span β}
    (mem : s ∈ spans) : s.hi ∉ cover spans := by
  induction spans with
  | nil => simp at mem
  | cons t rest ih =>
      obtain ⟨-, behind, rest_separated⟩ := Separated.cons_iff.mp separated
      rw [cover_cons]
      rcases List.mem_cons.mp mem with rfl | mem
      · rintro (inside | covered)
        · exact lt_irrefl _ inside.2
        · exact lt_irrefl _ (Separated.lt_of_mem_cover behind covered)
      · rintro (inside | covered)
        · have later := (behind s mem).le.trans (rest_separated.lo_le_hi s mem)
          exact absurd inside.2 (not_lt.mpr later)
        · exact ih rest_separated mem covered

end Span

/-- The places of an order: every value, and the place right behind it. -/
abbrev Place (α : Type*) :=
  α ×ₗ Bool

namespace Place

variable {α : Type*}

def of (v : α) : Place α :=
  toLex (v, false)

def after (v : α) : Place α :=
  toLex (v, true)

@[simp]
theorem of_inj {v w : α} : of v = of w ↔ v = w := by
  simp [of]

variable [LinearOrder α] {v w : α}

theorem toLex_le_toLex {b c : Bool} :
    (toLex (v, b) : Place α) ≤ toLex (w, c) ↔ v < w ∨ v = w ∧ b ≤ c :=
  Prod.Lex.toLex_le_toLex

theorem toLex_lt_toLex {b c : Bool} :
    (toLex (v, b) : Place α) < toLex (w, c) ↔ v < w ∨ v = w ∧ b < c :=
  Prod.Lex.toLex_lt_toLex

@[simp]
theorem of_lt_of : of v < of w ↔ v < w := by
  simp [of, toLex_lt_toLex]

@[simp]
theorem of_le_of : of v ≤ of w ↔ v ≤ w := by
  rw [of, of, toLex_le_toLex, and_iff_left (le_refl _)]
  exact le_iff_lt_or_eq.symm

@[simp]
theorem of_lt_after : of v < after w ↔ v ≤ w := by
  simp [of, after, toLex_lt_toLex, le_iff_lt_or_eq]

@[simp]
theorem after_lt_of : after v < of w ↔ v < w := by
  simp [of, after, toLex_lt_toLex]

@[simp]
theorem after_lt_after : after v < after w ↔ v < w := by
  simp [after, toLex_lt_toLex]

theorem lt_after_iff {p : Place α} : p < after v ↔ p ≤ of v := by
  obtain ⟨w, b⟩ := p
  change (toLex (w, b) : Place α) < toLex (v, true) ↔ toLex (w, b) ≤ (toLex (v, false) : Place α)
  cases b <;> simp [toLex_lt_toLex, toLex_le_toLex]

theorem after_le_iff {p : Place α} : after v ≤ p ↔ of v < p := by
  rw [← not_lt, lt_after_iff, not_le]

theorem of_bot_le [OrderBot α] (p : Place α) : of ⊥ ≤ p := by
  obtain ⟨w, b⟩ := p
  rcases (bot_le : ⊥ ≤ w).lt_or_eq with lt | eq
  · exact toLex_le_toLex.mpr (.inl lt)
  · exact toLex_le_toLex.mpr (.inr ⟨eq, Bool.false_le b⟩)

theorem le_after_top [OrderTop α] (p : Place α) : p ≤ after ⊤ := by
  obtain ⟨w, b⟩ := p
  rcases (le_top : w ≤ ⊤).lt_or_eq with lt | eq
  · exact toLex_le_toLex.mpr (.inl lt)
  · exact toLex_le_toLex.mpr (.inr ⟨eq, Bool.le_true b⟩)

theorem max_toLex_of_lt {b c : Bool} (lt : v < w) :
    max (toLex (v, b) : Place α) (toLex (w, c)) = toLex (w, c) :=
  max_eq_right (toLex_le_toLex.mpr (.inl lt))

theorem min_toLex_of_lt {b c : Bool} (lt : v < w) :
    min (toLex (v, b) : Place α) (toLex (w, c)) = toLex (v, b) :=
  min_eq_left (toLex_le_toLex.mpr (.inl lt))

@[simp]
theorem max_toLex_self {b c : Bool} :
    max (toLex (v, b) : Place α) (toLex (v, c)) = toLex (v, b || c) := by
  cases b <;> cases c <;> simp [toLex_le_toLex]

@[simp]
theorem min_toLex_self {b c : Bool} :
    min (toLex (v, b) : Place α) (toLex (v, c)) = toLex (v, b && c) := by
  cases b <;> cases c <;> simp [toLex_le_toLex]

end Place

section Merge

variable {α : Type*} {R : α → α → Prop} {le : α → α → Bool}

/-- A relation between neighbours of a merged list comes from the two lists, and from pairs
across them in the order in which the merge takes them. -/
theorem pairwise_merge_of {left right : List α} (left_pairwise : left.Pairwise R)
    (right_pairwise : right.Pairwise R)
    (left_sorted : left.Pairwise fun a b => le a b)
      (right_sorted : right.Pairwise fun a b => le a b)
    (trans : ∀ a b c, le a b → le b c → le a c)
    (left_first : ∀ a ∈ left, ∀ b ∈ right, le a b → R a b)
    (right_first : ∀ b ∈ right, ∀ a ∈ left, ¬le a b → R b a) :
    (left.merge right le).Pairwise R := by
  induction left generalizing right with
  | nil => simpa using right_pairwise
  | cons a left ih =>
      induction right with
      | nil => simpa using left_pairwise
      | cons b right ih' =>
          obtain ⟨a_left, left_pairwise'⟩ := List.pairwise_cons.mp left_pairwise
          obtain ⟨b_right, right_pairwise'⟩ := List.pairwise_cons.mp right_pairwise
          obtain ⟨a_le, left_sorted'⟩ := List.pairwise_cons.mp left_sorted
          obtain ⟨b_le, right_sorted'⟩ := List.pairwise_cons.mp right_sorted
          by_cases first : le a b = true
          · rw [List.cons_merge_cons_pos _ _ _ first]
            refine List.pairwise_cons.mpr ⟨?_, ?_⟩
            · intro c mem
              rcases List.mem_merge.mp mem with mem | mem
              · exact a_left c mem
              · apply left_first a (by simp) c mem
                rcases List.mem_cons.mp mem with rfl | mem
                · exact first
                · exact trans a b c first (b_le c mem)
            · exact ih left_pairwise' right_pairwise left_sorted' right_sorted
                (fun a mem => left_first a (by simp [mem]))
                fun b mem a mem' => right_first b mem a (by simp [mem'])
          · rw [List.cons_merge_cons_neg _ _ _ first]
            refine List.pairwise_cons.mpr ⟨?_, ?_⟩
            · intro c mem
              rcases List.mem_merge.mp mem with mem | mem
              · apply right_first b (by simp) c mem
                intro c_le
                rcases List.mem_cons.mp mem with rfl | mem
                · exact first c_le
                · exact first (trans a c b (a_le c mem) c_le)
              · exact b_right c mem
            · exact ih' right_pairwise' right_sorted'
                (fun a mem b mem' => left_first a mem b (by simp [mem']))
                fun b mem => right_first b (by simp [mem])

end Merge

end RapidDb
