import Mathlib.Data.List.Perm.Basic
import Mathlib.Order.Lattice
import RapidDb.Expr.ExprWhere

/-!
# When a WHERE clause is split

The loop over the conditions of an AND keeps those with the least index seen so far. The point
conditions come out right wherever the preparation ends, and it ends on the trees that are
`Regular`.
-/

namespace RapidDb

namespace ExprLogic

variable {V : Type} {mapColPos : String → Option ℕ} {vctIndex : List (List ℕ)}
  {vctChild : List (ExprLogic V)}

/-!
## The conditions that are picked
-/

/-- What the loop holds at a position it comes to: the positions before it with the least index
of them. -/
structure Held (mapColPos : String → Option ℕ) (vctIndex : List (List ℕ))
    (vctChild : List (ExprLogic V)) (pos : ℕ) (vctIL : List (ℕ × ℕ)) : Prop where
  visited : Visited mapColPos vctIndex vctChild pos
  mem : ∀ il : ℕ × ℕ, il ∈ vctIL ↔ il.1 < pos ∧
    indexAt mapColPos vctIndex vctChild il.1 = some il.2 ∧
    ∀ before < pos, ∀ other, indexAt mapColPos vctIndex vctChild before = some other →
      il.2 ≤ other
  least : ∀ before < pos, ∀ other, indexAt mapColPos vctIndex vctChild before = some other →
    ∃ il ∈ vctIL, il.2 ≤ other
  ordered : vctIL.Pairwise fun il il' => il.1 < il'.1

/-- The result of the loop: the conditions that are picked, in their order. -/
structure Found (mapColPos : String → Option ℕ) (vctIndex : List (List ℕ))
    (vctChild : List (ExprLogic V)) (vctIL : List (ℕ × ℕ)) : Prop where
  mem : ∀ il : ℕ × ℕ, il ∈ vctIL ↔ Served mapColPos vctIndex vctChild il.2 il.1
  ordered : vctIL.Pairwise fun il il' => il.1 < il'.1

theorem held_zero : Held mapColPos vctIndex vctChild 0 [] := by
  refine ⟨?_, ?_, ?_, List.Pairwise.nil⟩
  · intro before less
    exact absurd less (Nat.not_lt_zero before)
  · intro il
    simp
  · intro before less
    exact absurd less (Nat.not_lt_zero before)

namespace Held

variable {pos ipos : ℕ} {vctIL : List (ℕ × ℕ)}

section

variable (held : Held mapColPos vctIndex vctChild pos vctIL)

include held

theorem same_index {il il' : ℕ × ℕ} (ilMem : il ∈ vctIL) (ilMem' : il' ∈ vctIL) : il.2 = il'.2 := by
  rcases (held.mem il).mp ilMem with ⟨ilPos, ilIndex, ilLeast⟩
  rcases (held.mem il').mp ilMem' with ⟨ilPos', ilIndex', ilLeast'⟩
  exact Nat.le_antisymm (ilLeast il'.1 ilPos' il'.2 ilIndex') (ilLeast' il.1 ilPos il.2 ilIndex)

theorem not_or {il : ℕ × ℕ} (ilMem : il ∈ vctIL) :
    ¬∃ logic, vctChild[il.1]? = some logic ∧ logic.isOr = true := by
  intro isOr
  rcases (held.mem il).mp ilMem with ⟨ilPos, ilIndex, ilLeast⟩
  refine held.visited il.1 ilPos ⟨isOr, il.2, ilIndex, fun before less other index => ?_⟩
  exact ilLeast before (by omega) other index

theorem visited_succ (goesOn : ¬Stops mapColPos vctIndex vctChild pos) :
    Visited mapColPos vctIndex vctChild (pos + 1) := by
  intro before less
  rcases Nat.lt_succ_iff_lt_or_eq.mp less with less | rfl
  · exact held.visited before less
  · exact goesOn

theorem skip (index : indexAt mapColPos vctIndex vctChild pos = none) :
    Held mapColPos vctIndex vctChild (pos + 1) vctIL := by
  have before_of : ∀ before < pos + 1, ∀ other,
      indexAt mapColPos vctIndex vctChild before = some other → before < pos := by
    intro before less other isIndexed
    rcases Nat.lt_succ_iff_lt_or_eq.mp less with less | rfl
    · exact less
    · rw [index] at isIndexed
      cases isIndexed
  refine ⟨held.visited_succ ?_, fun il => ?_, ?_, held.ordered⟩
  · rintro ⟨-, idxPos, isIndexed, -⟩
    rw [index] at isIndexed
    cases isIndexed
  · rw [held.mem il]
    constructor
    · rintro ⟨less, isIndexed, isLeast⟩
      refine ⟨by omega, isIndexed, fun before less' other otherIndex => ?_⟩
      exact isLeast before (before_of before less' other otherIndex) other otherIndex
    · rintro ⟨less, isIndexed, isLeast⟩
      refine ⟨before_of il.1 less il.2 isIndexed, isIndexed, fun before less' => ?_⟩
      exact isLeast before (by omega)
  · intro before less other isIndexed
    exact held.least before (before_of before less other isIndexed) other isIndexed

theorem greater (index : indexAt mapColPos vctIndex vctChild pos = some ipos) {il : ℕ × ℕ}
    (ilMem : il ∈ vctIL) (less : il.2 < ipos) :
    Held mapColPos vctIndex vctChild (pos + 1) vctIL := by
  rcases (held.mem il).mp ilMem with ⟨ilPos, ilIndex, ilLeast⟩
  refine ⟨held.visited_succ ?_, fun il' => ?_, ?_, held.ordered⟩
  · rintro ⟨-, idxPos, isIndexed, isLeast⟩
    rw [index] at isIndexed
    cases isIndexed
    have := isLeast il.1 ilPos il.2 ilIndex
    omega
  · constructor
    · intro ilMem'
      rcases (held.mem il').mp ilMem' with ⟨ilPos', ilIndex', ilLeast'⟩
      refine ⟨by omega, ilIndex', fun before less' other isIndexed => ?_⟩
      rcases Nat.lt_succ_iff_lt_or_eq.mp less' with less' | rfl
      · exact ilLeast' before less' other isIndexed
      · rw [index] at isIndexed
        cases isIndexed
        have := held.same_index ilMem ilMem'
        omega
    · rintro ⟨ilPos', ilIndex', ilLeast'⟩
      have lessOld : il'.1 < pos := by
        rcases Nat.lt_succ_iff_lt_or_eq.mp ilPos' with lessOld | isPos
        · exact lessOld
        · rw [isPos, index] at ilIndex'
          cases ilIndex'
          have := ilLeast' il.1 (by omega) il.2 ilIndex
          omega
      exact (held.mem il').mpr ⟨lessOld, ilIndex', fun before less' => ilLeast' before (by omega)⟩
  · intro before less' other isIndexed
    rcases Nat.lt_succ_iff_lt_or_eq.mp less' with less' | rfl
    · exact held.least before less' other isIndexed
    · rw [index] at isIndexed
      cases isIndexed
      exact ⟨il, ilMem, less.le⟩

section NotGreater

variable (notLess : ¬(vctIL.head?.any fun il => il.2 < ipos) = true)

include notLess

theorem le_before : ∀ before < pos, ∀ other,
    indexAt mapColPos vctIndex vctChild before = some other → ipos ≤ other := by
  intro before less other isIndexed
  rcases held.least before less other isIndexed with ⟨il, ilMem, isLe⟩
  cases vctIL with
  | nil => cases ilMem
  | cons first others =>
      have same := held.same_index ilMem List.mem_cons_self
      simp at notLess
      omega

theorem mem_keptFor (il : ℕ × ℕ) : il ∈ keptFor ipos vctIL ↔ il ∈ vctIL ∧ il.2 = ipos := by
  cases vctIL with
  | nil => simp [keptFor]
  | cons first others =>
      have same : il ∈ first :: others → il.2 = first.2 := fun ilMem =>
        held.same_index ilMem List.mem_cons_self
      simp only [List.head?_cons, Option.any_some, decide_eq_true_eq, not_lt] at notLess
      simp only [keptFor, List.head?_cons, Option.any_some, decide_eq_true_eq]
      split
      · refine ⟨fun ilMem => (List.not_mem_nil ilMem).elim, fun both => ?_⟩
        have := same both.1
        omega
      · refine ⟨fun ilMem => ⟨ilMem, ?_⟩, And.left⟩
        have := same ilMem
        omega

end NotGreater

theorem keptFor_ordered : (keptFor ipos vctIL).Pairwise fun il il' => il.1 < il'.1 := by
  unfold keptFor
  split
  · exact List.Pairwise.nil
  · exact held.ordered

theorem push (index : indexAt mapColPos vctIndex vctChild pos = some ipos)
    (notLess : ¬(vctIL.head?.any fun il => il.2 < ipos) = true)
    (notOr : ¬∃ logic, vctChild[pos]? = some logic ∧ logic.isOr = true) :
    Held mapColPos vctIndex vctChild (pos + 1) (keptFor ipos vctIL ++ [(pos, ipos)]) := by
  have before := held.le_before notLess
  refine ⟨held.visited_succ fun stops => notOr stops.1, fun il => ?_, ?_, ?_⟩
  · rw [List.mem_append, List.mem_singleton, held.mem_keptFor notLess, held.mem il]
    constructor
    · rintro (⟨⟨ilPos, ilIndex, ilLeast⟩, same⟩ | rfl)
      · refine ⟨by omega, ilIndex, fun other less otherIndex isIndexed => ?_⟩
        rcases Nat.lt_succ_iff_lt_or_eq.mp less with less | rfl
        · exact ilLeast other less otherIndex isIndexed
        · rw [index] at isIndexed
          cases isIndexed
          exact same.le
      · refine ⟨Nat.lt_succ_self pos, index, fun other less otherIndex isIndexed => ?_⟩
        rcases Nat.lt_succ_iff_lt_or_eq.mp less with less | rfl
        · exact before other less otherIndex isIndexed
        · rw [index] at isIndexed
          cases isIndexed
          exact Nat.le_refl _
    · rintro ⟨ilPos, ilIndex, ilLeast⟩
      rcases Nat.lt_succ_iff_lt_or_eq.mp ilPos with ilPos | isPos
      · have le := ilLeast pos (Nat.lt_succ_self pos) ipos index
        have ge := before il.1 ilPos il.2 ilIndex
        exact Or.inl ⟨⟨ilPos, ilIndex, fun other less => ilLeast other (by omega)⟩, by omega⟩
      · rw [isPos, index] at ilIndex
        exact Or.inr (Prod.ext isPos (Option.some.inj ilIndex).symm)
  · intro other less otherIndex isIndexed
    refine ⟨(pos, ipos), List.mem_append_right _ (List.mem_singleton_self _), ?_⟩
    rcases Nat.lt_succ_iff_lt_or_eq.mp less with less | rfl
    · exact before other less otherIndex isIndexed
    · rw [index] at isIndexed
      cases isIndexed
      exact Nat.le_refl _
  · refine List.pairwise_append.mpr ⟨held.keptFor_ordered, List.pairwise_singleton _ _, ?_⟩
    intro il ilMem il' ilMem'
    have ilPos := ((held.mem il).mp ((held.mem_keptFor notLess il).mp ilMem).1).1
    rw [List.mem_singleton.mp ilMem']
    exact ilPos

theorem found_stop (index : indexAt mapColPos vctIndex vctChild pos = some ipos)
    (notLess : ¬(vctIL.head?.any fun il => il.2 < ipos) = true)
    (isOr : ∃ logic, vctChild[pos]? = some logic ∧ logic.isOr = true) :
    Found mapColPos vctIndex vctChild
      (if (keptFor ipos vctIL).isEmpty then [(pos, ipos)] else keptFor ipos vctIL) := by
  have before := held.le_before notLess
  have stops : Stops mapColPos vctIndex vctChild pos := ⟨isOr, ipos, index, before⟩
  have visited_le : ∀ other, Visited mapColPos vctIndex vctChild other → other ≤ pos :=
    fun other visited => Nat.le_of_not_lt fun less => visited pos less stops
  have visited_of : ∀ other ≤ pos, Visited mapColPos vctIndex vctChild other :=
    fun other le before less => held.visited before (by omega)
  -- the least index of the positions that are visited is that of the OR
  have least : ∀ other, Visited mapColPos vctIndex vctChild other → ∀ otherIndex,
      indexAt mapColPos vctIndex vctChild other = some otherIndex → ipos ≤ otherIndex := by
    intro other visited otherIndex isIndexed
    rcases Nat.lt_or_eq_of_le (visited_le other visited) with less | rfl
    · exact before other less otherIndex isIndexed
    · rw [index] at isIndexed
      cases isIndexed
      exact Nat.le_refl _
  have mem_kept : ∀ il : ℕ × ℕ, il ∈ keptFor ipos vctIL ↔ il.1 < pos ∧ il.2 = ipos ∧
      indexAt mapColPos vctIndex vctChild il.1 = some ipos := by
    intro il
    rw [held.mem_keptFor notLess, held.mem il]
    constructor
    · rintro ⟨⟨ilPos, ilIndex, -⟩, same⟩
      exact ⟨ilPos, same, same ▸ ilIndex⟩
    · rintro ⟨ilPos, same, ilIndex⟩
      exact ⟨⟨ilPos, same ▸ ilIndex, same ▸ before⟩, same⟩
  cases kept : keptFor ipos vctIL with
  | nil =>
      have none_before : ∀ other < pos, indexAt mapColPos vctIndex vctChild other ≠ some ipos := by
        intro other less isIndexed
        have := (mem_kept (other, ipos)).mpr ⟨less, rfl, isIndexed⟩
        rw [kept] at this
        cases this
      refine ⟨fun il => ?_, List.pairwise_singleton _ _⟩
      rw [List.isEmpty_nil, if_pos rfl, List.mem_singleton]
      constructor
      · rintro rfl
        exact ⟨visited_of pos (Nat.le_refl pos), index, least, fun _ => none_before⟩
      · rintro ⟨visited, ilIndex, ilLeast, -⟩
        have le := ilLeast pos (visited_of pos (Nat.le_refl pos)) ipos index
        have same := Nat.le_antisymm le (least il.1 visited il.2 ilIndex)
        rcases Nat.lt_or_eq_of_le (visited_le il.1 visited) with less | isPos
        · exact absurd (same ▸ ilIndex) (none_before il.1 less)
        · exact Prod.ext isPos same
  | cons first others =>
      have firstKept := (mem_kept first).mp (kept ▸ List.mem_cons_self)
      refine ⟨fun il => ?_, ?_⟩
      · rw [List.isEmpty_cons, if_neg Bool.false_ne_true, ← kept, mem_kept]
        constructor
        · rintro ⟨ilPos, same, ilIndex⟩
          have ilMem : il ∈ vctIL :=
            ((held.mem_keptFor notLess il).mp ((mem_kept il).mpr ⟨ilPos, same, ilIndex⟩)).1
          exact ⟨visited_of il.1 ilPos.le, same ▸ ilIndex, same ▸ least,
            fun isOr => absurd isOr (held.not_or ilMem)⟩
        · rintro ⟨visited, ilIndex, ilLeast, firstOr⟩
          have le := ilLeast pos (visited_of pos (Nat.le_refl pos)) ipos index
          have same := Nat.le_antisymm le (least il.1 visited il.2 ilIndex)
          rcases Nat.lt_or_eq_of_le (visited_le il.1 visited) with less | isPos
          · exact ⟨less, same, same ▸ ilIndex⟩
          · refine absurd (same ▸ firstKept.2.2) (firstOr (isPos ▸ isOr) first.1 ?_)
            exact isPos ▸ firstKept.1
      · rw [List.isEmpty_cons, if_neg Bool.false_ne_true, ← kept]
        exact held.keptFor_ordered

end

theorem found (held : Held mapColPos vctIndex vctChild vctChild.length vctIL) :
    Found mapColPos vctIndex vctChild vctIL := by
  have inside : ∀ pos idxPos, indexAt mapColPos vctIndex vctChild pos = some idxPos →
      pos < vctChild.length := by
    intro pos idxPos index
    rcases Option.bind_eq_some_iff.mp index with ⟨logic, isLogic, -⟩
    exact (List.getElem?_eq_some_iff.mp isLogic).1
  have visited : ∀ pos ≤ vctChild.length, Visited mapColPos vctIndex vctChild pos :=
    fun pos le before less => held.visited before (by omega)
  refine ⟨fun il => ?_, held.ordered⟩
  constructor
  · intro ilMem
    rcases (held.mem il).mp ilMem with ⟨ilPos, ilIndex, ilLeast⟩
    refine ⟨visited il.1 ilPos.le, ilIndex, fun other _ otherIndex index => ?_, fun isOr => ?_⟩
    · exact ilLeast other (inside other otherIndex index) otherIndex index
    · exact absurd isOr (held.not_or ilMem)
  · rintro ⟨-, ilIndex, ilLeast, -⟩
    refine (held.mem il).mpr ⟨inside il.1 il.2 ilIndex, ilIndex, fun before less => ?_⟩
    exact ilLeast before (visited before less.le)

end Held

/-- A condition with its position after the loop: those that are not visited stay as they are. -/
def Seen (mapColPos : String → Option ℕ) (vctIndex : List (List ℕ))
    (vctChild : List (ExprLogic V)) (item : ExprLogic V × ℕ) (logic' : ExprLogic V) : Prop :=
  (Visited mapColPos vctIndex vctChild item.2 → LookedAt mapColPos item.1 logic') ∧
    (¬Visited mapColPos vctIndex vctChild item.2 → logic' = item.1)

/-- Looking at the conditions that the search comes to meets no null pointer. -/
def VisitedClean (mapColPos : String → Option ℕ) (vctIndex : List (List ℕ))
    (vctChild : List (ExprLogic V)) (pos : ℕ) : Prop :=
  ∀ other logic, pos ≤ other → Visited mapColPos vctIndex vctChild other →
    vctChild[other]? = some logic → logic.isAnd = true ∨ Clean mapColPos vctIndex logic

theorem VisitedClean.succ {pos : ℕ} (clean : VisitedClean mapColPos vctIndex vctChild pos) :
    VisitedClean mapColPos vctIndex vctChild (pos + 1) :=
  fun other logic le => clean other logic (by omega)

theorem not_visitedClean_succ {pos : ℕ} {logic : ExprLogic V}
    (isLogic : vctChild[pos]? = some logic)
    (isClean : logic.isAnd = true ∨ Clean mapColPos vctIndex logic)
    (unclean : ¬VisitedClean mapColPos vctIndex vctChild pos) :
    ¬VisitedClean mapColPos vctIndex vctChild (pos + 1) := by
  refine fun clean => unclean fun other otherLogic le visited isOther => ?_
  rcases Nat.lt_or_eq_of_le le with less | rfl
  · exact clean other otherLogic less visited isOther
  · rw [isLogic] at isOther
    exact Option.some.inj isOther ▸ isClean

theorem seen_of_stops {pos : ℕ} (stops : Stops mapColPos vctIndex vctChild pos)
    (rest : List (ExprLogic V)) :
    ∀ next > pos, List.Forall₂ (Seen mapColPos vctIndex vctChild) (rest.zipIdx next) rest := by
  induction rest with
  | nil => exact fun _ _ => List.Forall₂.nil
  | cons logic rest ih =>
      intro next greater
      rw [List.zipIdx_cons]
      refine List.Forall₂.cons ⟨fun visited => absurd stops (visited pos greater), fun _ => rfl⟩ ?_
      exact ih (next + 1) (by omega)

theorem indexAt_eq {pos : ℕ} {logic : ExprLogic V} (isLogic : vctChild[pos]? = some logic) :
    indexAt mapColPos vctIndex vctChild pos = indexOf mapColPos vctIndex logic := by
  rw [indexAt, isLogic, Option.bind_some]

theorem indexOf_and {logic : ExprLogic V} (isAnd : logic.isAnd = true) :
    indexOf mapColPos vctIndex logic = none := by
  cases logic <;> first | rfl | cases isAnd

theorem andLoop_found (done rest : List (ExprLogic V)) (vctIL : List (ℕ × ℕ))
    (split : vctChild = done ++ rest)
    (held : Held mapColPos vctIndex vctChild done.length vctIL) :
    (VisitedClean mapColPos vctIndex vctChild done.length → ∃ rest' vctIL',
      andLoop mapColPos vctIndex done.length vctIL rest = .ok (rest', vctIL') ∧
        Found mapColPos vctIndex vctChild vctIL' ∧
        List.Forall₂ (Seen mapColPos vctIndex vctChild) (rest.zipIdx done.length) rest') ∧
      (¬VisitedClean mapColPos vctIndex vctChild done.length →
        andLoop mapColPos vctIndex done.length vctIL rest = .error .nullPointer) := by
  induction rest generalizing done vctIL with
  | nil =>
      have lengthEq : done.length = vctChild.length := by simp [split]
      constructor
      · intro _
        refine ⟨[], vctIL, by rw [andLoop], ?_, List.Forall₂.nil⟩
        exact (lengthEq ▸ held).found
      · refine fun unclean => absurd (fun other logic le _ isLogic => ?_) unclean
        have := (List.getElem?_eq_some_iff.mp isLogic).1
        omega
  | cons logic rest ih =>
      have isLogic : vctChild[done.length]? = some logic := by simp [split]
      have index : indexAt mapColPos vctIndex vctChild done.length =
          indexOf mapColPos vctIndex logic := indexAt_eq isLogic
      have split' : vctChild = (done ++ [logic]) ++ rest := by simp [split]
      have lengthEq : (done ++ [logic]).length = done.length + 1 := by simp
      have next := fun vctIL held' =>
        lengthEq ▸ ih (done ++ [logic]) vctIL split' (lengthEq ▸ held')
      -- the loop goes on with what it holds, once the condition has been seen
      have goOn : ∀ logic' vctIL',
          Held mapColPos vctIndex vctChild (done.length + 1) vctIL' →
          LookedAt mapColPos logic logic' →
          (logic.isAnd = true ∨ Clean mapColPos vctIndex logic) →
          (VisitedClean mapColPos vctIndex vctChild done.length → ∃ rest' vctIL'',
            withFront logic' (andLoop mapColPos vctIndex (done.length + 1) vctIL' rest) =
                .ok (rest', vctIL'') ∧
              Found mapColPos vctIndex vctChild vctIL'' ∧
              List.Forall₂ (Seen mapColPos vctIndex vctChild)
                ((logic :: rest).zipIdx done.length) rest') ∧
            (¬VisitedClean mapColPos vctIndex vctChild done.length →
              withFront logic' (andLoop mapColPos vctIndex (done.length + 1) vctIL' rest) =
                .error .nullPointer) := by
        intro logic' vctIL' held' lookedAt isClean
        constructor
        · intro clean
          rcases (next vctIL' held').1 clean.succ with ⟨rest', vctIL'', restEq, found, seen⟩
          refine ⟨logic' :: rest', vctIL'', by rw [restEq]; rfl, found, ?_⟩
          rw [List.zipIdx_cons]
          refine List.Forall₂.cons ⟨fun _ => lookedAt, fun unvisited => ?_⟩ seen
          exact absurd held.visited unvisited
        · intro unclean
          rw [(next vctIL' held').2 (not_visitedClean_succ isLogic isClean unclean)]
          rfl
      cases isAnd : logic.isAnd with
      | true =>
          rw [andLoop_and isAnd]
          refine goOn logic vctIL (held.skip (by rw [index, indexOf_and isAnd])) ?_ (Or.inl isAnd)
          exact LookedAt.refl (by rintro _ _ _ rfl; cases isAnd)
      | false =>
          by_cases isClean : Clean mapColPos vctIndex logic
          · rcases (pick_spec logic).1 isClean with ⟨logic', logicEq, lookedAt⟩
            cases isIndexed : indexOf mapColPos vctIndex logic with
            | none =>
                rw [isIndexed] at logicEq index
                rw [andLoop_none isAnd logicEq]
                exact goOn logic' vctIL (held.skip index) lookedAt (Or.inr isClean)
            | some ipos =>
                rw [isIndexed] at logicEq index
                rw [andLoop_some isAnd logicEq]
                by_cases less : (vctIL.head?.any fun il => il.2 < ipos) = true
                · rw [if_pos less]
                  rcases (Option.any_eq_true _ _).mp less with ⟨il, isHead, ilLess⟩
                  refine goOn logic' vctIL ?_ lookedAt (Or.inr isClean)
                  exact held.greater index (List.mem_of_head? isHead) (of_decide_eq_true ilLess)
                · rw [if_neg less]
                  by_cases isOr : logic.isOr = true
                  · have stops : Stops mapColPos vctIndex vctChild done.length :=
                      ⟨⟨logic, isLogic, isOr⟩, ipos, index, held.le_before less⟩
                    rw [if_pos isOr]
                    constructor
                    · refine fun _ => ⟨_, _, rfl, ?_, ?_⟩
                      · exact held.found_stop index less ⟨logic, isLogic, isOr⟩
                      · rw [List.zipIdx_cons]
                        refine List.Forall₂.cons ⟨fun _ => lookedAt, fun unvisited => ?_⟩ ?_
                        · exact absurd held.visited unvisited
                        · exact seen_of_stops stops rest _ (Nat.lt_succ_self _)
                    · refine fun unclean => absurd (fun other otherLogic le visited isOther => ?_)
                        (not_visitedClean_succ isLogic (Or.inr isClean) unclean)
                      exact absurd stops (visited done.length le)
                  · rw [if_neg isOr]
                    refine goOn logic' _ (held.push index less ?_) lookedAt (Or.inr isClean)
                    rintro ⟨other, isOther, otherOr⟩
                    rw [isLogic] at isOther
                    exact isOr (Option.some.inj isOther ▸ otherOr)
          · constructor
            · intro clean
              have := clean done.length logic (Nat.le_refl _) held.visited isLogic
              rw [isAnd] at this
              exact absurd (this.resolve_left Bool.false_ne_true) isClean
            · exact fun _ => andLoop_error isAnd ((pick_spec logic).2 isClean)

/-!
## What is picked and what is left
-/

section Order

variable {ops : DataOps V} {vdParas vdRow : List V} {positions : List ℕ}

theorem calcAnd_foldl_eraseIdx (descending : positions.Pairwise fun pos pos' => pos' < pos)
    (allTrue : ∀ pos ∈ positions, ∀ tb, ¬Untrue mapColPos ops vdParas vdRow vctChild pos tb) :
    calcAnd ops mapColPos vdParas vdRow (positions.foldl List.eraseIdx vctChild) =
      calcAnd ops mapColPos vdParas vdRow vctChild := by
  induction positions generalizing vctChild with
  | nil => rfl
  | cons pos positions ih =>
      rcases List.pairwise_cons.mp descending with ⟨less, descending'⟩
      rw [List.forall_mem_cons] at allTrue
      rw [List.foldl_cons, ih descending', calcAnd_eraseIdx allTrue.1]
      intro other mem
      rw [not_untrue_iff, List.getElem?_eraseIdx_of_lt (less other mem)]
      exact not_untrue_iff.mp (allTrue.2 other mem)

/-- The conditions at descending positions: they have the value of the last one that is not true,
or all of them are true. -/
theorem calcAnd_filterMap (descending : positions.Pairwise fun pos pos' => pos' < pos) :
    (∃ last ∈ positions, ∃ tb, Untrue mapColPos ops vdParas vdRow vctChild last tb ∧
      (∀ after ∈ positions, last < after →
        ∀ other, ¬Untrue mapColPos ops vdParas vdRow vctChild after other) ∧
      calcAnd ops mapColPos vdParas vdRow (positions.filterMap fun pos => vctChild[pos]?) = tb) ∨
    ((∀ pos ∈ positions, ∀ tb, ¬Untrue mapColPos ops vdParas vdRow vctChild pos tb) ∧
      calcAnd ops mapColPos vdParas vdRow (positions.filterMap fun pos => vctChild[pos]?) =
        .true) := by
  induction positions with
  | nil => exact Or.inr ⟨by simp, rfl⟩
  | cons pos positions ih =>
      rcases List.pairwise_cons.mp descending with ⟨less, descending'⟩
      by_cases isTrue : ∀ tb, ¬Untrue mapColPos ops vdParas vdRow vctChild pos tb
      · have skip : calcAnd ops mapColPos vdParas vdRow
            ((pos :: positions).filterMap fun pos => vctChild[pos]?) =
              calcAnd ops mapColPos vdParas vdRow
                (positions.filterMap fun pos => vctChild[pos]?) := by
          cases isLogic : vctChild[pos]? with
          | none => rw [List.filterMap_cons_none isLogic]
          | some logic =>
              rw [List.filterMap_cons_some isLogic, calcAnd, not_untrue_iff.mp isTrue logic isLogic]
        rw [skip]
        rcases ih descending' with ⟨last, mem, tb, untrue, after, value⟩ | ⟨allTrue, value⟩
        · refine Or.inl ⟨last, List.mem_cons_of_mem pos mem, tb, untrue, ?_, value⟩
          exact List.forall_mem_cons.mpr ⟨fun _ => isTrue, after⟩
        · exact Or.inr ⟨List.forall_mem_cons.mpr ⟨isTrue, allTrue⟩, value⟩
      · rw [not_forall] at isTrue
        rcases isTrue with ⟨tb, isUntrue⟩
        rw [not_not] at isUntrue
        refine Or.inl ⟨pos, List.mem_cons_self, tb, isUntrue, ?_, ?_⟩
        · refine List.forall_mem_cons.mpr ⟨fun same => absurd same (Nat.lt_irrefl pos), ?_⟩
          exact fun other mem greater => absurd greater (Nat.lt_asymm (less other mem))
        · rcases isUntrue with ⟨notTrue, logic, isLogic, value⟩
          rw [List.filterMap_cons_some isLogic, calcAnd, value]
          cases tb with
          | true => exact absurd rfl notTrue
          | error | false => rfl

theorem untrue_congr {vctChild' : List (ExprLogic V)}
    (same : List.Forall₂ (SameValue mapColPos) vctChild vctChild') {pos : ℕ} {tb : TriBool} :
    Untrue mapColPos ops vdParas vdRow vctChild' pos tb ↔
      Untrue mapColPos ops vdParas vdRow vctChild pos tb := by
  induction same generalizing pos with
  | nil => exact Iff.rfl
  | cons first _ ih =>
      cases pos with
      | zero => simp [Untrue, first ops vdParas vdRow]
      | succ pos => exact ih

theorem served_same {idxPos pos other otherPos : ℕ}
    (served : Served mapColPos vctIndex vctChild idxPos pos)
    (served' : Served mapColPos vctIndex vctChild otherPos other) : idxPos = otherPos := by
  rcases served with ⟨visited, index, least, -⟩
  rcases served' with ⟨visited', index', least', -⟩
  exact Nat.le_antisymm (least other visited' otherPos index') (least' pos visited idxPos index)

/-- The conditions that are picked and those that are left have the value of the tree on every row
exactly when the order makes no difference. -/
theorem calcAnd_takeOut_iff {vctIL : List (ℕ × ℕ)} {vctChild' : List (ExprLogic V)}
    (found : Found mapColPos vctIndex vctChild vctIL)
    (same : List.Forall₂ (SameValue mapColPos) vctChild vctChild') :
    (∀ vdParas vdRow, calcAnd ops mapColPos vdParas vdRow
        ((takeOut vctIL vctChild').1 ++ (takeOut vctIL vctChild').2) =
      calcAnd ops mapColPos vdParas vdRow vctChild) ↔
      OrderKept mapColPos vctIndex ops vctChild := by
  have positions : takeOut vctIL vctChild' =
      ((vctIL.map Prod.fst).reverse.filterMap (fun pos => vctChild'[pos]?),
        (vctIL.map Prod.fst).reverse.foldl List.eraseIdx vctChild') := by
    rw [takeOut, ← List.map_reverse, List.filterMap_map, List.foldl_map]
    rfl
  have descending : (vctIL.map Prod.fst).reverse.Pairwise fun pos pos' => pos' < pos := by
    rw [List.pairwise_reverse, List.pairwise_map]
    exact found.ordered
  have mem_iff : ∀ pos, pos ∈ (vctIL.map Prod.fst).reverse ↔
      ∃ idxPos, Served mapColPos vctIndex vctChild idxPos pos := by
    intro pos
    rw [List.mem_reverse, List.mem_map]
    constructor
    · rintro ⟨il, mem, rfl⟩
      exact ⟨il.2, (found.mem il).mp mem⟩
    · rintro ⟨idxPos, served⟩
      exact ⟨(pos, idxPos), (found.mem (pos, idxPos)).mpr served, rfl⟩
  rw [positions]
  constructor
  · intro sameValue vdParas vdRow first last tb tb' idxPos untrue before untrueLast served after
    have lastMem := (mem_iff last).mpr ⟨idxPos, served⟩
    rcases @calcAnd_filterMap V mapColPos vctChild' ops vdParas vdRow _ descending with
      ⟨last', mem, other, untrue', after', value⟩ | ⟨allTrue, -⟩
    · rcases (mem_iff last').mp mem with ⟨otherPos, served'⟩
      obtain rfl := served_same served served'
      rw [untrue_congr same] at untrue'
      have isLast : last' = last := by
        rcases Nat.lt_trichotomy last last' with less | isLast | greater
        · exact absurd untrue' (after last' less served' other)
        · exact isLast.symm
        · exact absurd ((untrue_congr same).mpr untrueLast) (after' last lastMem greater tb')
      subst isLast
      have whole := sameValue vdParas vdRow
      rw [calcAnd_append, value, calcAnd_of_first untrue before] at whole
      rcases untrue' with ⟨notTrue, logic, isLogic, logicValue⟩
      rcases untrueLast with ⟨-, logic', isLogic', logicValue'⟩
      rw [isLogic] at isLogic'
      cases isLogic'
      rw [← logicValue', logicValue]
      cases other with
      | true => exact absurd rfl notTrue
      | error | false => exact whole.symm
    · exact absurd ((untrue_congr same).mpr untrueLast) (allTrue last lastMem tb')
  · intro orderKept vdParas vdRow
    rw [calcAnd_append]
    rcases @calcAnd_filterMap V mapColPos vctChild' ops vdParas vdRow _ descending with
      ⟨last, mem, tb', untrue', after, value⟩ | ⟨allTrue, value⟩
    · rcases (mem_iff last).mp mem with ⟨idxPos, served⟩
      rw [untrue_congr same] at untrue'
      have some : ∃ pos tb, Untrue mapColPos ops vdParas vdRow vctChild pos tb :=
        ⟨last, tb', untrue'⟩
      obtain ⟨first, ⟨tb, untrue⟩, before⟩ : ∃ first,
          (∃ tb, Untrue mapColPos ops vdParas vdRow vctChild first tb) ∧
            ∀ pos < first, ∀ other, ¬Untrue mapColPos ops vdParas vdRow vctChild pos other := by
        classical
        exact ⟨Nat.find some, Nat.find_spec some,
          fun pos less other isUntrue => Nat.find_min some less ⟨other, isUntrue⟩⟩
      have served_after : ∀ pos > last, Served mapColPos vctIndex vctChild idxPos pos →
          ∀ other, ¬Untrue mapColPos ops vdParas vdRow vctChild pos other := by
        intro pos greater servedPos other isUntrue
        exact after pos ((mem_iff pos).mpr ⟨idxPos, servedPos⟩) greater other
          ((untrue_congr same).mpr isUntrue)
      have isSame := orderKept vdParas vdRow first last tb tb' idxPos untrue before untrue' served
        served_after
      rw [value, calcAnd_of_first untrue before, isSame]
      cases tb' with
      | true => exact absurd rfl untrue'.1
      | error | false => rfl
    · rw [value, calcAnd_foldl_eraseIdx descending allTrue]
      exact calcAnd_congr same ops vdParas vdRow

end Order

theorem takeOut_length {vctIL : List (ℕ × ℕ)} (inside : ∀ il ∈ vctIL, il.1 < vctChild.length) :
    (takeOut vctIL vctChild).1.length = vctIL.length := by
  have all : ∀ il ∈ vctIL.reverse, (vctChild[il.1]?).isSome = true := by
    intro il mem
    rw [List.getElem?_eq_getElem (inside il (List.mem_reverse.mp mem))]
    rfl
  rw [takeOut, List.length_filterMap_eq_countP, List.countP_eq_length.mpr all]
  exact List.length_reverse

/-!
## Point conditions
-/

section Points

variable {logic logic' : ExprLogic V} {idxPos : ℕ}

theorem equality_first (lookedAt : LookedAt mapColPos logic logic')
    (index : indexOf mapColPos vctIndex logic = some idxPos)
    (isEquality : logic.isEquality = true) :
    ∃ colName exprRight rowPos vctCol, logic' = comp .EQ (.field colName) exprRight ∧
      mapColPos colName = some rowPos ∧ vctIndex[idxPos]? = some vctCol ∧
        vctCol.head? = some rowPos := by
  cases logic with
  | comp compType exprLeft exprRight =>
      cases compType
      case EQ =>
        have isTurned := lookedAt.comp _ _ _ rfl
        rw [← indexOf_turned] at index
        have isEq : (turned .EQ exprLeft exprRight).1 = .EQ := by
          unfold turned
          split <;> rfl
        rw [isEq] at isTurned
        cases side : (turned .EQ exprLeft exprRight).2.1 with
        | field colName =>
            rw [side] at index isTurned
            split at index
            · rcases Option.bind_eq_some_iff.mp index with ⟨rowPos, isPos, isFirst⟩
              rcases List.findIdx?_eq_some_iff_getElem.mp isFirst with ⟨less, isHead, -⟩
              refine ⟨colName, _, rowPos, vctIndex[idxPos], isTurned, isPos, ?_, ?_⟩
              · exact List.getElem?_eq_getElem less
              · exact eq_of_beq isHead
            · cases index
        | const val => simp [side, ExprData.fieldIndex] at index
        | parameter paraPos => simp [side, ExprData.fieldIndex] at index
        | oper func vctData => simp [side, ExprData.fieldIndex] at index
      all_goals cases isEquality
  | _ => cases isEquality

theorem combined_first {colName : String} {exprRight : ExprData V} {rowPos : ℕ} {vctCol : List ℕ}
    (isPos : mapColPos colName = some rowPos) (isHead : vctCol.head? = some rowPos) :
    combinedIndexCondition mapColPos vctCol (comp .EQ (.field colName) exprRight) =
      .ok (some 0) := by
  cases vctCol with
  | nil => cases isHead
  | cons first rest =>
      cases isHead
      simp [combinedIndexCondition, isPos, List.findIdx?_cons]

theorem combined_other {vctCol : List ℕ} (notEquality : logic.isEquality = false) :
    combinedIndexCondition mapColPos vctCol logic = .ok none := by
  cases logic with
  | comp compType exprLeft exprRight =>
      cases compType
      case EQ => cases notEquality
      all_goals rfl
  | _ => rfl

theorem of_combined {vctCol : List ℕ} {pos : ℕ}
    (combined : combinedIndexCondition mapColPos vctCol logic = .ok (some pos)) :
    ∃ colName exprRight rowPos, logic = comp .EQ (.field colName) exprRight ∧
      mapColPos colName = some rowPos ∧ vctCol[pos]? = some rowPos := by
  unfold combinedIndexCondition at combined
  split at combined
  · next colName exprRight =>
      rcases Option.bind_eq_some_iff.mp (Except.ok.inj combined) with ⟨rowPos, isPos, isFound⟩
      rcases List.findIdx?_eq_some_iff_getElem.mp isFound with ⟨less, isCol, -⟩
      refine ⟨colName, exprRight, rowPos, rfl, isPos, ?_⟩
      rw [List.getElem?_eq_getElem less, eq_of_beq isCol]
  · cases combined
  · cases combined

theorem pointLoop_error (map : List (ℕ × ExprLogic V × ℕ)) (pos fuel : ℕ)
    (vctPointCond : List (ExprLogic V)) (children : List (ExprLogic V × ℕ)) :
    pointLoop map pos fuel vctPointCond children = .error .outOfFuel := by
  induction fuel generalizing vctPointCond children with
  | zero => rfl
  | succ fuel ih =>
      rw [pointLoop]
      split
      · exact ih _ _
      · exact ih _ _

theorem morePoints_and (fuel : ℕ) (vctCol : List ℕ) (rest : List (ExprLogic V)) :
    ∃ stop, morePoints mapColPos fuel vctCol logic (some (and rest)) = .error stop := by
  rw [morePoints]
  cases pointMap mapColPos vctCol rest.zipIdx [] with
  | error stop => exact ⟨stop, rfl⟩
  | ok map =>
      refine ⟨.outOfFuel, ?_⟩
      simp only [bind, Except.bind, pointLoop_error]

theorem morePoints_single (fuel : ℕ) (vctCol : List ℕ) (notAnd : logic'.isAnd = false) :
    morePoints mapColPos fuel vctCol logic (some logic') =
      (combinedIndexCondition mapColPos vctCol logic').map fun pos =>
        if pos = some 1 then (none, [logic, logic']) else (some logic', [logic]) := by
  cases logic' with
  | and vctChild => cases notAnd
  | _ =>
      rw [morePoints]
      · cases combinedIndexCondition mapColPos vctCol _ with
        | error stop => rfl
        | ok pos =>
            by_cases second : pos = some 1
            · subst second
              rfl
            · simp [bind, Except.bind, Except.map, second]
      · nofun

theorem turned_isField (compType : CompType) (exprLeft exprRight : ExprData V) :
    (turned compType exprLeft exprRight).2.1.isField = true ↔
      exprLeft.isField = true ∨ exprRight.isField = true ∧ exprLeft.isConstValue = true := by
  unfold turned
  split
  · next turns =>
      rw [Bool.and_eq_true] at turns
      exact ⟨fun _ => Or.inr turns, fun _ => turns.1⟩
  · next stays =>
      rw [Bool.and_eq_true] at stays
      exact ⟨Or.inl, fun side => side.resolve_right stays⟩

/-- Whether `CombinedIndexCondition` can be asked of a condition that has been looked at. -/
theorem combined_spec (lookedAt : LookedAt mapColPos logic logic') (notAnd : logic.isAnd = false)
    (vctCol : List ℕ) :
    (PlainRest [logic] → ∃ pos, combinedIndexCondition mapColPos vctCol logic' = .ok pos) ∧
      (¬PlainRest [logic] →
        combinedIndexCondition mapColPos vctCol logic' = .error .nullPointer) := by
  cases isEquality : logic.isEquality with
  | false =>
      have plain : PlainRest [logic] := by
        cases logic with
        | comp compType exprLeft exprRight =>
            cases compType
            case EQ => cases isEquality
            all_goals rfl
        | and vctChild => cases notAnd
        | _ => rfl
      exact ⟨fun _ => ⟨none, combined_other (lookedAt.isEquality.trans isEquality)⟩,
        fun bad => absurd plain bad⟩
  | true =>
      cases logic with
      | comp compType exprLeft exprRight =>
          cases compType
          case EQ =>
            have isTurned := lookedAt.comp _ _ _ rfl
            have isEq : (turned .EQ exprLeft exprRight).1 = .EQ := by
              unfold turned
              split <;> rfl
            have sides := turned_isField .EQ exprLeft exprRight
            rw [isTurned, isEq]
            generalize (turned .EQ exprLeft exprRight).2.1 = side at sides ⊢
            cases side with
            | field colName => exact ⟨fun _ => ⟨_, rfl⟩, fun bad => absurd (sides.mp rfl) bad⟩
            | const val => exact ⟨fun plain => (nomatch sides.mpr plain), fun _ => rfl⟩
            | parameter paraPos => exact ⟨fun plain => (nomatch sides.mpr plain), fun _ => rfl⟩
            | oper func vctData => exact ⟨fun plain => (nomatch sides.mpr plain), fun _ => rfl⟩
          all_goals cases isEquality
      | _ => cases isEquality

/-- The further point conditions: the residual condition and the point conditions are the
conditions that were there. -/
theorem morePoints_spec {rest rest' : List (ExprLogic V)} (vctCol : List ℕ)
    (length : rest'.length = rest.length)
    (lookedAt : ∀ left, rest = [left] → ∃ left', rest' = [left'] ∧ LookedAt mapColPos left left') :
    (PlainRest rest → ∃ residual vctPointCond,
      (∀ fuel, morePoints mapColPos fuel vctCol logic (collapse rest') =
        .ok (residual, vctPointCond)) ∧
      vctPointCond ++ residual.toList = logic :: rest' ∧
      (vctPointCond = [logic] ∨ ∃ left', vctPointCond = [logic, left'] ∧
        combinedIndexCondition mapColPos vctCol left' = .ok (some 1))) ∧
    (¬PlainRest rest → ∀ fuel, ∃ stop,
      morePoints mapColPos fuel vctCol logic (collapse rest') = .error stop) := by
  match rest with
  | [] =>
      cases List.eq_nil_of_length_eq_zero length
      refine ⟨fun _ => ⟨none, [logic], fun fuel => rfl, rfl, Or.inl rfl⟩, fun bad => ?_⟩
      exact absurd trivial bad
  | [left] =>
      rcases lookedAt left rfl with ⟨left', rfl, seen⟩
      cases isAnd : left.isAnd with
      | true =>
          cases left with
          | and vctChild =>
              have isAnd' : left'.isAnd = true := seen.isAnd.trans isAnd
              cases left' with
              | and vctChild' =>
                  exact ⟨fun plain => (nomatch plain),
                    fun _ fuel => morePoints_and fuel vctCol vctChild'⟩
              | _ => cases isAnd'
          | _ => cases isAnd
      | false =>
          have notAnd' : left'.isAnd = false := seen.isAnd.trans isAnd
          rcases combined_spec seen isAnd vctCol with ⟨ok, error⟩
          constructor
          · intro plain
            rcases ok plain with ⟨pos, combined⟩
            by_cases second : pos = some 1
            · subst second
              refine ⟨none, [logic, left'], fun fuel => ?_, rfl, Or.inr ⟨left', rfl, combined⟩⟩
              rw [collapse, morePoints_single fuel vctCol notAnd', combined]
              rfl
            · refine ⟨some left', [logic], fun fuel => ?_, rfl, Or.inl rfl⟩
              rw [collapse, morePoints_single fuel vctCol notAnd', combined]
              simp [Except.map, second]
          · intro bad fuel
            refine ⟨.nullPointer, ?_⟩
            rw [collapse, morePoints_single fuel vctCol notAnd', error bad]
            rfl
  | first :: second :: others =>
      refine ⟨fun plain => absurd plain (by simp [PlainRest]), fun _ fuel => ?_⟩
      cases rest' with
      | nil => cases length
      | cons first' rest' =>
          cases rest' with
          | nil => cases length
          | cons second' others' => exact morePoints_and fuel vctCol _

end Points

/-!
## The parts of a condition
-/

section Parts

variable {ops : DataOps V} {logic logic' : ExprLogic V} {exprWhere : ExprWhere V}

/-- The fields are collected, and all of them name columns. -/
def Resolved (mapColPos : String → Option ℕ) (logic : ExprLogic V) : Prop :=
  logic.lacksPara = false ∧ logic.fillElemField mapColPos = true

/-- Whether the condition is split well is seen from what the preparation leaves. -/
theorem splitsWell_iff_of_result
    (result : ∀ fuel, preprocess mapColPos vctIndex fuel logic = .ok (some exprWhere)) :
    SplitsWell mapColPos vctIndex ops logic ↔
      SameTruth mapColPos ops logic exprWhere ∧ LeadingEqualities mapColPos vctIndex exprWhere := by
  constructor
  · rintro ⟨fuel, result', resultEq, right⟩
    rw [result fuel] at resultEq
    cases resultEq
    exact right exprWhere rfl
  · intro right
    refine ⟨0, _, result 0, ?_⟩
    rintro exprWhere ⟨⟩
    exact right

/-- The condition for the index and the residual condition, from the tree and the vector that
`PickIndexCondition` leaves. -/
def divided (vctExpr : List (ExprLogic V)) : ExprLogic V → ExprLogic V × Option (ExprLogic V)
  | and vctChild => ((collapse vctExpr).getD (and []), collapse vctChild)
  | logic => (logic, none)

theorem divided_other (notAnd : logic.isAnd = false) (vctExpr : List (ExprLogic V)) :
    divided vctExpr logic = (logic, none) := by
  cases logic with
  | and vctChild => cases notAnd
  | _ => rfl

theorem pickIndexCondition_other (notAnd : logic.isAnd = false) :
    pickIndexCondition mapColPos vctIndex logic =
      (pick mapColPos vctIndex logic).map fun (logic, ipos) =>
        (logic, ipos.map fun idxPos => (idxPos, [])) := by
  cases logic with
  | and vctChild => cases notAnd
  | _ =>
      rw [pickIndexCondition]
      · cases pick mapColPos vctIndex _ <;> rfl
      · nofun

section Preprocess

variable {idxPos : ℕ} {vctExpr : List (ExprLogic V)} (fuel : ℕ)
  (resolved : Resolved mapColPos logic)

include resolved

theorem preprocess_error {stop : Stop}
    (picked : pickIndexCondition mapColPos vctIndex logic = .error stop) :
    preprocess mapColPos vctIndex fuel logic = .error stop := by
  rw [preprocess, resolved.1, resolved.2, picked]
  rfl

theorem preprocess_none
    (picked : pickIndexCondition mapColPos vctIndex logic = .ok (logic', none)) :
    preprocess mapColPos vctIndex fuel logic =
      .ok (some { exprLogic := some logic', indexSearch := none }) := by
  rw [preprocess, resolved.1, resolved.2, picked]
  rfl

theorem preprocess_condition
    (picked : pickIndexCondition mapColPos vctIndex logic = .ok (logic', some (idxPos, vctExpr)))
    (combined : combinedIndexCondition mapColPos ((vctIndex[idxPos]?).getD [])
      (divided vctExpr logic').1 = .ok none) :
    preprocess mapColPos vctIndex fuel logic =
      .ok (some
        { exprLogic := (divided vctExpr logic').2
          indexSearch := some
            { idxLogic := some (divided vctExpr logic').1
              vctPointCond := none
              indexPos := idxPos } }) := by
  rw [preprocess, resolved.1, resolved.2, picked]
  cases logic' <;>
    simp only [divided] at combined <;>
      simp [bind, Except.bind, combined, divided]

theorem preprocess_point {pos : ℕ}
    (picked : pickIndexCondition mapColPos vctIndex logic = .ok (logic', some (idxPos, vctExpr)))
    (combined : combinedIndexCondition mapColPos ((vctIndex[idxPos]?).getD [])
      (divided vctExpr logic').1 = .ok (some pos)) :
    preprocess mapColPos vctIndex fuel logic =
      (if ((vctIndex[idxPos]?).getD []).length > 1 then
          morePoints mapColPos fuel ((vctIndex[idxPos]?).getD []) (divided vctExpr logic').1
            (divided vctExpr logic').2
        else .ok ((divided vctExpr logic').2, [(divided vctExpr logic').1])).map
        fun (residual, vctPointCond) =>
          some
            { exprLogic := residual
              indexSearch := some
                { idxLogic := none
                  vctPointCond := some vctPointCond
                  indexPos := idxPos } } := by
  rw [preprocess, resolved.1, resolved.2, picked]
  by_cases several : ((vctIndex[idxPos]?).getD []).length > 1
  · rw [if_pos several]
    cases logic' <;>
      simp only [divided] at combined <;>
        simp only [bind, Except.bind, combined, divided, if_pos several, Bool.not_true,
          Bool.false_eq_true, if_false]
    all_goals cases morePoints mapColPos fuel _ _ _ <;> rfl
  · rw [if_neg several]
    cases logic' <;>
      simp only [divided] at combined <;>
        simp only [bind, Except.bind, combined, divided, if_neg several, Bool.not_true,
          Bool.false_eq_true, if_false, Except.map]

end Preprocess

end Parts

/-!
## Preparation of a condition that is no AND
-/

section Preparation

variable {ops : DataOps V} {logic logic' : ExprLogic V} {idxPos : ℕ}

theorem leading_none {exprWhere : ExprWhere V}
    (noPoints : ∀ search ∈ exprWhere.indexSearch, search.vctPointCond = none) :
    LeadingEqualities mapColPos vctIndex exprWhere := by
  intro search isSearch vctPointCond isPoints
  rw [noPoints search isSearch] at isPoints
  cases isPoints

/-- The point conditions: an equality on the first column of an index, and perhaps one on its
second column. -/
theorem leading_points {residual : Option (ExprLogic V)} {vctPointCond : List (ExprLogic V)}
    (lookedAt : LookedAt mapColPos logic logic')
    (index : indexOf mapColPos vctIndex logic = some idxPos)
    (isEquality : logic.isEquality = true)
    (points : vctPointCond = [logic'] ∨ ∃ left', vctPointCond = [logic', left'] ∧
      combinedIndexCondition mapColPos ((vctIndex[idxPos]?).getD []) left' = .ok (some 1)) :
    LeadingEqualities mapColPos vctIndex
      { exprLogic := residual
        indexSearch := some
          { idxLogic := none, vctPointCond := some vctPointCond, indexPos := idxPos } } := by
  rcases equality_first lookedAt index isEquality with
    ⟨colName, exprRight, rowPos, vctCol, isComp, isPos, isIndex, isHead⟩
  have first : ∃ colName exprRight rowPos, logic' = comp .EQ (.field colName) exprRight ∧
      mapColPos colName = some rowPos ∧
      ∃ vctCol : List ℕ, vctIndex[idxPos]? = some vctCol ∧ vctCol[0]? = some rowPos := by
    refine ⟨colName, exprRight, rowPos, isComp, isPos, vctCol, isIndex, ?_⟩
    rw [← List.head?_eq_getElem?]
    exact isHead
  rintro search ⟨⟩ conditions ⟨⟩
  rcases points with rfl | ⟨left', rfl, combined⟩
  · refine ⟨List.cons_ne_nil _ _, fun pos cond isCond => ?_⟩
    cases pos with
    | zero => exact Option.some.inj isCond ▸ first
    | succ pos => cases isCond
  · refine ⟨List.cons_ne_nil _ _, fun pos cond isCond => ?_⟩
    rw [isIndex, Option.getD_some] at combined
    rcases of_combined combined with ⟨colName', exprRight', rowPos', isComp', isPos', isCol'⟩
    match pos with
    | 0 => exact Option.some.inj isCond ▸ first
    | 1 =>
        refine ⟨colName', exprRight', rowPos', ?_, isPos', vctCol, isIndex, isCol'⟩
        exact (Option.some.inj isCond).symm.trans isComp'
    | pos + 2 => cases isCond

theorem combined_picked (lookedAt : LookedAt mapColPos logic logic')
    (index : indexOf mapColPos vctIndex logic = some idxPos) :
    combinedIndexCondition mapColPos ((vctIndex[idxPos]?).getD []) logic' =
      .ok (if logic.isEquality then some 0 else none) := by
  cases isEquality : logic.isEquality with
  | false => exact combined_other (lookedAt.isEquality.trans isEquality)
  | true =>
      rcases equality_first lookedAt index isEquality with
        ⟨colName, exprRight, rowPos, vctCol, rfl, isPos, isIndex, isHead⟩
      rw [isIndex, Option.getD_some]
      exact combined_first isPos isHead

theorem sameTruth_single {exprWhere : ExprWhere V} (lookedAt : LookedAt mapColPos logic logic')
    (only : prepared exprWhere = [logic']) : SameTruth mapColPos ops logic exprWhere := by
  intro vdParas vdRow
  rw [only, calcAnd_singleton]
  exact lookedAt.value ops vdParas vdRow

/-- A condition that is no AND is the condition for the index, or its only point. -/
theorem single_splits (notAnd : logic.isAnd = false) (resolved : Resolved mapColPos logic)
    (clean : Clean mapColPos vctIndex logic) : SplitsWell mapColPos vctIndex ops logic := by
  rcases (pick_spec logic).1 clean with ⟨logic', picked, lookedAt⟩
  have notAnd' : logic'.isAnd = false := lookedAt.isAnd.trans notAnd
  have pickedAll := @pickIndexCondition_other V mapColPos vctIndex logic notAnd
  rw [picked] at pickedAll
  cases index : indexOf mapColPos vctIndex logic with
  | none =>
      rw [index] at pickedAll
      apply (splitsWell_iff_of_result fun fuel => preprocess_none fuel resolved pickedAll).mpr
      exact ⟨sameTruth_single lookedAt rfl, leading_none nofun⟩
  | some idxPos =>
      rw [index] at pickedAll
      have whole : (divided [] logic').1 = logic' := by rw [divided_other notAnd']
      have combined := combined_picked lookedAt index
      rw [← whole] at combined
      cases isEquality : logic.isEquality with
      | false =>
          rw [isEquality] at combined
          apply (splitsWell_iff_of_result fun fuel =>
            preprocess_condition fuel resolved pickedAll combined).mpr
          rw [divided_other notAnd']
          refine ⟨sameTruth_single lookedAt rfl, leading_none ?_⟩
          rintro search ⟨⟩
          rfl
      | true =>
          rw [isEquality] at combined
          have result := fun fuel => preprocess_point fuel resolved pickedAll combined
          simp only [divided_other notAnd', morePoints, ite_self] at result
          apply (splitsWell_iff_of_result result).mpr
          exact ⟨sameTruth_single lookedAt rfl,
            leading_points lookedAt index isEquality (Or.inl rfl)⟩

theorem single_fails (notAnd : logic.isAnd = false) (resolved : Resolved mapColPos logic)
    (unclean : ¬Clean mapColPos vctIndex logic) : ¬SplitsWell mapColPos vctIndex ops logic := by
  rintro ⟨fuel, result, resultEq, -⟩
  have pickedAll := @pickIndexCondition_other V mapColPos vctIndex logic notAnd
  rw [(pick_spec logic).2 unclean] at pickedAll
  rw [preprocess_error fuel resolved pickedAll] at resultEq
  cases resultEq

end Preparation

/-!
## Preparation of an AND
-/

section PreparationAnd

variable {ops : DataOps V} {logic : ExprLogic V} {vctChild' : List (ExprLogic V)} {pos idxPos : ℕ}

theorem sameValue_of_seen {all : List (ExprLogic V)} (start : ℕ)
    (seen : List.Forall₂ (Seen mapColPos vctIndex all) (vctChild.zipIdx start) vctChild') :
    List.Forall₂ (SameValue mapColPos) vctChild vctChild' := by
  induction vctChild generalizing start vctChild' with
  | nil =>
      cases seen
      exact List.Forall₂.nil
  | cons logic rest ih =>
      cases seen with
      | cons first others =>
          refine List.Forall₂.cons ?_ (ih (start + 1) others)
          by_cases visited : Visited mapColPos vctIndex all start
          · exact (first.1 visited).value
          · rw [first.2 visited]
            exact SameValue.refl logic

theorem seen_at {all : List (ExprLogic V)} (start : ℕ)
    (seen : List.Forall₂ (Seen mapColPos vctIndex all) (vctChild.zipIdx start) vctChild')
    (isLogic : vctChild[pos]? = some logic) :
    ∃ logic', vctChild'[pos]? = some logic' ∧
      Seen mapColPos vctIndex all (logic, start + pos) logic' := by
  induction vctChild generalizing start vctChild' pos with
  | nil => cases isLogic
  | cons first rest ih =>
      cases seen with
      | cons head others =>
          cases pos with
          | zero => exact ⟨_, rfl, Option.some.inj isLogic ▸ head⟩
          | succ pos =>
              rcases ih (start + 1) others isLogic with ⟨logic', isLogic', seen⟩
              refine ⟨logic', isLogic', ?_⟩
              rw [show start + (pos + 1) = start + 1 + pos by omega]
              exact seen

theorem served_inside (served : Served mapColPos vctIndex vctChild idxPos pos) :
    pos < vctChild.length := by
  rcases Option.bind_eq_some_iff.mp served.2.1 with ⟨logic, isLogic, -⟩
  exact (List.getElem?_eq_some_iff.mp isLogic).1

theorem left_lookedAt {left : ExprLogic V}
    (seen : List.Forall₂ (Seen mapColPos vctIndex vctChild) (vctChild.zipIdx 0) vctChild')
    (isLogic : vctChild[pos]? = some logic) (isEquality : logic.isEquality = true)
    (single : vctChild.eraseIdx pos = [left]) :
    ∃ left', vctChild'.eraseIdx pos = [left'] ∧ LookedAt mapColPos left left' := by
  have inside := (List.getElem?_eq_some_iff.mp isLogic).1
  have length : vctChild.length = 2 := by
    have := congrArg List.length single
    rw [List.length_eraseIdx_of_lt inside, List.length_singleton] at this
    omega
  have length' : vctChild'.length = vctChild.length := by
    rw [← seen.length_eq, List.length_zipIdx]
  have isLeft : vctChild[if 0 < pos then 0 else 1]? = some left := by
    have first := congrArg (·[0]?) single
    simp only [List.getElem?_eraseIdx] at first
    split at first <;> simp_all
  rcases seen_at 0 seen isLeft with ⟨left', isLeft', seenLeft⟩
  refine ⟨left', ?_, seenLeft.1 ?_⟩
  · have single' : (vctChild'.eraseIdx pos).length = 1 := by
      rw [List.length_eraseIdx_of_lt (by omega)]
      omega
    rcases List.length_eq_one_iff.mp single' with ⟨only, isOnly⟩
    have first := congrArg (·[0]?) isOnly
    simp only [List.getElem?_eraseIdx] at first
    rw [isOnly]
    split at first <;> simp_all
  · -- the search ends at no equality
    intro before less stops
    have isZero : before = 0 ∧ pos = 0 := by
      split at less <;> omega
    rcases stops.1 with ⟨other, isOther, isOr⟩
    rw [isZero.1, ← isZero.2, isLogic] at isOther
    cases isOther
    cases logic <;> first | cases isEquality | cases isOr

theorem calcAnd_divided (vctExpr : List (ExprLogic V)) (vdParas vdRow : List V) :
    calcAnd ops mapColPos vdParas vdRow
        ((divided vctExpr (and vctChild)).1 :: (divided vctExpr (and vctChild)).2.toList) =
      calcAnd ops mapColPos vdParas vdRow (vctExpr ++ vctChild) := by
  have whole : calcAnd ops mapColPos vdParas vdRow [(collapse vctExpr).getD (and [])] =
      calcAnd ops mapColPos vdParas vdRow vctExpr := by
    rw [← calcAnd_collapse vctExpr]
    cases collapse vctExpr with
    | none => rw [Option.getD_none, calcAnd_singleton, calcLogic]; rfl
    | some logic => rfl
  rw [divided, ← List.singleton_append, calcAnd_append, calcAnd_append, whole, calcAnd_collapse]

/-- What is asked of what is left beside one equality on an index of several columns. -/
def RestPlain (mapColPos : String → Option ℕ) (vctIndex : List (List ℕ))
    (vctChild : List (ExprLogic V)) : Prop :=
  ∀ pos idxPos logic vctCol, vctChild[pos]? = some logic → logic.isEquality = true →
    (∀ other, Served mapColPos vctIndex vctChild idxPos other ↔ other = pos) →
      vctIndex[idxPos]? = some vctCol → 1 < vctCol.length → PlainRest (vctChild.eraseIdx pos)

theorem sameTruth_and_iff {vctIL : List (ℕ × ℕ)} {exprWhere : ExprWhere V}
    (found : Found mapColPos vctIndex vctChild vctIL)
    (seen : List.Forall₂ (Seen mapColPos vctIndex vctChild) (vctChild.zipIdx 0) vctChild')
    (value : ∀ vdParas vdRow, calcAnd ops mapColPos vdParas vdRow (prepared exprWhere) =
      calcAnd ops mapColPos vdParas vdRow
        ((takeOut vctIL vctChild').1 ++ (takeOut vctIL vctChild').2)) :
    SameTruth mapColPos ops (and vctChild) exprWhere ↔
      OrderKept mapColPos vctIndex ops vctChild := by
  rw [← calcAnd_takeOut_iff found (sameValue_of_seen 0 seen)]
  simp only [SameTruth, value, calcLogic]

variable (resolved : Resolved mapColPos (and vctChild))

include resolved

theorem regular_and :
    Regular mapColPos vctIndex ops (and vctChild) ↔
      VisitedClean mapColPos vctIndex vctChild 0 ∧ RestPlain mapColPos vctIndex vctChild ∧
        OrderKept mapColPos vctIndex ops vctChild := by
  constructor
  · rintro ⟨-, regular⟩
    rcases regular resolved.2 with ⟨clean, plain, orderKept⟩
    exact ⟨fun pos logic _ => clean pos logic, plain, orderKept⟩
  · rintro ⟨clean, plain, orderKept⟩
    exact ⟨resolved.1, fun _ =>
      ⟨fun pos logic => clean pos logic (Nat.zero_le pos), plain, orderKept⟩⟩

theorem and_single
    (loop : andLoop mapColPos vctIndex 0 [] vctChild = .ok (vctChild', [(pos, idxPos)]))
    (found : Found mapColPos vctIndex vctChild [(pos, idxPos)])
    (seen : List.Forall₂ (Seen mapColPos vctIndex vctChild) (vctChild.zipIdx 0) vctChild') :
    SplitsWell mapColPos vctIndex ops (and vctChild) ↔
      RestPlain mapColPos vctIndex vctChild ∧ OrderKept mapColPos vctIndex ops vctChild := by
  have served : Served mapColPos vctIndex vctChild idxPos pos :=
    (found.mem (pos, idxPos)).mp (List.mem_singleton_self _)
  have only : ∀ {other otherPos}, Served mapColPos vctIndex vctChild otherPos other →
      other = pos ∧ otherPos = idxPos := by
    intro other otherPos served'
    have mem := List.mem_singleton.mp ((found.mem (other, otherPos)).mpr served')
    exact Prod.ext_iff.mp mem
  have inside := served_inside served
  have length' : vctChild'.length = vctChild.length := by
    rw [← seen.length_eq, List.length_zipIdx]
  have isLogic := List.getElem?_eq_getElem inside
  have index : indexOf mapColPos vctIndex vctChild[pos] = some idxPos := by
    have := served.2.1
    rw [indexAt_eq isLogic] at this
    exact this
  rcases seen_at 0 seen isLogic with ⟨logic', isLogic', seenLogic⟩
  rw [Nat.zero_add] at seenLogic
  have lookedAt := seenLogic.1 served.1
  have taken : takeOut [(pos, idxPos)] vctChild' = ([logic'], vctChild'.eraseIdx pos) := by
    simp [takeOut, isLogic']
  have picked : pickIndexCondition mapColPos vctIndex (and vctChild) =
      .ok (and (vctChild'.eraseIdx pos), some (idxPos, [logic'])) := by
    rw [pickIndexCondition, loop]
    simp only [bind, Except.bind, taken]
  have combined := combined_picked lookedAt index
  have ends : ∀ exprWhere : ExprWhere V,
      (∀ fuel, preprocess mapColPos vctIndex fuel (and vctChild) = .ok (some exprWhere)) →
      (∀ vdParas vdRow, calcAnd ops mapColPos vdParas vdRow (prepared exprWhere) =
        calcAnd ops mapColPos vdParas vdRow ([logic'] ++ vctChild'.eraseIdx pos)) →
      LeadingEqualities mapColPos vctIndex exprWhere → RestPlain mapColPos vctIndex vctChild →
      (SplitsWell mapColPos vctIndex ops (and vctChild) ↔
        RestPlain mapColPos vctIndex vctChild ∧ OrderKept mapColPos vctIndex ops vctChild) := by
    intro exprWhere result value leading plain
    have sameTruth : SameTruth mapColPos ops (and vctChild) exprWhere ↔
        OrderKept mapColPos vctIndex ops vctChild := by
      apply sameTruth_and_iff found seen
      rw [taken]
      exact value
    rw [splitsWell_iff_of_result result, sameTruth, and_iff_left leading, and_iff_right plain]
  -- what is left matters only beside an equality on several columns
  have plain_of : ¬(vctChild[pos].isEquality = true ∧ 1 < ((vctIndex[idxPos]?).getD []).length) →
      RestPlain mapColPos vctIndex vctChild := by
    intro notPoint pos' idxPos' other vctCol isOther isEquality served' isIndex several
    rcases only ((served' pos').mpr rfl) with ⟨rfl, rfl⟩
    rw [isLogic] at isOther
    cases isOther
    rw [isIndex] at notPoint
    exact absurd ⟨isEquality, several⟩ notPoint
  cases isEquality : vctChild[pos].isEquality with
  | false =>
      rw [isEquality] at combined
      refine ends _ (fun fuel => preprocess_condition fuel resolved picked combined)
        (calcAnd_divided [logic']) (leading_none ?_) (plain_of ?_)
      · rintro search ⟨⟩
        rfl
      · rw [isEquality]
        exact fun both => Bool.false_ne_true both.1
  | true =>
      rw [isEquality] at combined
      have result := fun fuel => preprocess_point fuel resolved picked combined
      by_cases several : 1 < ((vctIndex[idxPos]?).getD []).length
      · have points := @morePoints_spec V mapColPos logic' (vctChild.eraseIdx pos)
          (vctChild'.eraseIdx pos) ((vctIndex[idxPos]?).getD [])
          (by rw [List.length_eraseIdx, List.length_eraseIdx, length'])
          fun left single => left_lookedAt seen isLogic isEquality single
        simp only [if_pos several] at result
        by_cases plain : PlainRest (vctChild.eraseIdx pos)
        · rcases points.1 plain with ⟨residual, vctPointCond, pointsEq, parts, shape⟩
          refine ends _ (fun fuel => (result fuel).trans (congrArg _ (pointsEq fuel)))
            (fun vdParas vdRow => congrArg (calcAnd ops mapColPos vdParas vdRow) parts)
            (leading_points lookedAt index isEquality shape) ?_
          intro pos' idxPos' other vctCol _ _ served' _ _
          rw [(only ((served' pos').mpr rfl)).1]
          exact plain
        · refine iff_of_false ?_ ?_
          · rintro ⟨fuel, exprWhere, isResult, -⟩
            rcases points.2 plain fuel with ⟨stop, stopped⟩
            rw [result fuel] at isResult
            rw [show (divided [logic'] (and (vctChild'.eraseIdx pos))).1 = logic' from rfl,
              show (divided [logic'] (and (vctChild'.eraseIdx pos))).2 =
                collapse (vctChild'.eraseIdx pos) from rfl, stopped] at isResult
            cases isResult
          · rintro ⟨restPlain, -⟩
            cases isIndex : vctIndex[idxPos]? with
            | none => simp [isIndex] at several
            | some vctCol =>
                rw [isIndex] at several
                refine plain (restPlain pos idxPos _ vctCol isLogic isEquality ?_ isIndex several)
                exact fun other => ⟨fun served' => (only served').1, fun isPos => isPos ▸ served⟩
      · simp only [if_neg several] at result
        exact ends _ result (calcAnd_divided [logic'])
          (leading_points lookedAt index isEquality (Or.inl rfl))
          (plain_of fun both => several both.2)

theorem and_several {first second : ℕ × ℕ} {others : List (ℕ × ℕ)}
    (loop : andLoop mapColPos vctIndex 0 [] vctChild = .ok (vctChild', first :: second :: others))
    (found : Found mapColPos vctIndex vctChild (first :: second :: others))
    (seen : List.Forall₂ (Seen mapColPos vctIndex vctChild) (vctChild.zipIdx 0) vctChild') :
    (SplitsWell mapColPos vctIndex ops (and vctChild) ↔
      OrderKept mapColPos vctIndex ops vctChild) ∧ RestPlain mapColPos vctIndex vctChild := by
  have length' : vctChild'.length = vctChild.length := by
    rw [← seen.length_eq, List.length_zipIdx]
  have inside : ∀ il ∈ first :: second :: others, il.1 < vctChild'.length :=
    fun il mem => length' ▸ served_inside ((found.mem il).mp mem)
  have picked : pickIndexCondition mapColPos vctIndex (and vctChild) =
      .ok (and (takeOut (first :: second :: others) vctChild').2,
        some (first.2, (takeOut (first :: second :: others) vctChild').1)) := by
    rw [pickIndexCondition, loop]
    rfl
  have several := takeOut_length inside
  constructor
  · have sameTruth := fun exprWhere : ExprWhere V =>
      @sameTruth_and_iff V _ _ _ ops _ _ exprWhere found seen
    generalize takeOut (first :: second :: others) vctChild' = taken at picked sameTruth several
    rcases taken with ⟨vctExpr, rest⟩
    match vctExpr, several with
    | one :: two :: more, _ =>
        have noPoints : LeadingEqualities mapColPos vctIndex
            { exprLogic := (divided (one :: two :: more) (and rest)).2
              indexSearch := some
                { idxLogic := some (divided (one :: two :: more) (and rest)).1
                  vctPointCond := none
                  indexPos := first.2 } } := by
          apply leading_none
          rintro search ⟨⟩
          rfl
        rw [splitsWell_iff_of_result fun fuel => preprocess_condition fuel resolved picked rfl,
          sameTruth _ (calcAnd_divided (one :: two :: more)), and_iff_left noPoints]
  · intro pos idxPos logic vctCol _ _ only _ _
    have served := (only pos).mpr rfl
    have isPos : ∀ il ∈ first :: second :: others, il.1 = pos := by
      intro il mem
      have served' := (found.mem il).mp mem
      rw [served_same served' served] at served'
      exact (only il.1).mp served'
    have less := (List.pairwise_cons.mp found.ordered).1 second List.mem_cons_self
    have firstPos := isPos first List.mem_cons_self
    have secondPos := isPos second (List.mem_cons_of_mem _ List.mem_cons_self)
    omega

theorem and_splits_iff :
    SplitsWell mapColPos vctIndex ops (and vctChild) ↔
      Regular mapColPos vctIndex ops (and vctChild) := by
  rw [regular_and resolved]
  have loop := @andLoop_found V mapColPos vctIndex vctChild [] vctChild [] rfl held_zero
  by_cases clean : VisitedClean mapColPos vctIndex vctChild 0
  · rw [and_iff_right clean]
    rcases loop.1 clean with ⟨vctChild', vctIL, loopEq, found, seen⟩
    match vctIL with
    | [] =>
        have picked : pickIndexCondition mapColPos vctIndex (and vctChild) =
            .ok (and vctChild', none) := by
          rw [pickIndexCondition]
          exact congrArg (· >>= _) loopEq
        have notServed : ∀ idxPos pos, ¬Served mapColPos vctIndex vctChild idxPos pos :=
          fun idxPos pos served => List.not_mem_nil ((found.mem (pos, idxPos)).mpr served)
        have orderKept : OrderKept mapColPos vctIndex ops vctChild :=
          fun _ _ _ last _ _ idxPos _ _ _ served _ => absurd served (notServed idxPos last)
        have restPlain : RestPlain mapColPos vctIndex vctChild :=
          fun pos idxPos _ _ _ _ only _ _ => absurd ((only pos).mpr rfl) (notServed idxPos pos)
        have leading : LeadingEqualities mapColPos vctIndex
            { exprLogic := some (and vctChild'), indexSearch := none } := leading_none nofun
        rw [splitsWell_iff_of_result fun fuel => preprocess_none fuel resolved picked,
          sameTruth_and_iff found seen fun _ _ => ?_, and_iff_left leading,
          and_iff_right restPlain]
        exact (calcAnd_singleton _).trans (by rw [calcLogic]; rfl)
    | [(pos, idxPos)] => exact and_single resolved loopEq found seen
    | first :: second :: others =>
        rcases and_several resolved loopEq found seen with ⟨splits, restPlain⟩
        rw [splits, and_iff_right restPlain]
  · refine iff_of_false ?_ fun both => clean both.1
    rintro ⟨fuel, result, resultEq, -⟩
    have picked : pickIndexCondition mapColPos vctIndex (and vctChild) = .error .nullPointer := by
      rw [pickIndexCondition]
      exact congrArg (· >>= _) (loop.2 clean)
    rw [preprocess_error fuel resolved picked] at resultEq
    cases resultEq

end PreparationAnd

theorem regular_other {ops : DataOps V} {logic : ExprLogic V} (notAnd : logic.isAnd = false)
    (resolved : Resolved mapColPos logic) :
    Regular mapColPos vctIndex ops logic ↔ Clean mapColPos vctIndex logic := by
  cases logic with
  | and vctChild => cases notAnd
  | _ => exact ⟨fun regular => regular.2 resolved.2, fun clean => ⟨resolved.1, fun _ => clean⟩⟩

def intOps : DataOps ℤ where
  ableCompare _ _ := true
  eq left right := left == right
  gt left right := decide (right < left)
  ge left right := decide (right ≤ left)
  isNull _ := false
  ableCompare_comm _ _ := rfl
  eq_comm left right _ := BEq.comm
  gt_eq_not_ge left right _ := by
    rw [← decide_not]
    exact decide_eq_decide.mpr Int.not_le.symm

def colPosAbc (colName : String) : Option ℕ :=
  ["a", "b", "c"].findIdx? (· == colName)

end ExprLogic

end RapidDb
