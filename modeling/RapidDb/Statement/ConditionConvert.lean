import Mathlib.Data.List.Sort
import RapidDb.Library.Bytes
import RapidDb.Statement.RangeOutline

/-!
# From a condition to query ranges

`ConditionConvert` turns a condition over one column into a list of query ranges, by recursion
on the condition. The values of the column's type are a linear order with the least value of
`SetMinValue` and the greatest value of `SetMaxValue`.

The list is right as long as no part of the condition runs into one of the defects: an AND takes the
empty list for "no condition yet", an OR needs a range in the list of its first child and loses
values when its lists clash, and a `<>` gives the one reference of its value to two ranges. The
condition belongs to a cached statement and is converted at every execution, and the conversion
takes the values out of the set of an IN.
-/

namespace RapidDb

inductive CompType where
  | EQ
  | GT
  | GE
  | LT
  | LE
  | NE
  deriving DecidableEq

/-- A condition over one column, as `ConditionConvert` takes it. The values of the right hand
sides are calculated; a constant is not counted by references, a parameter and a calculated value
are. The values of an IN are those given to `ExprArray::AddElem`. -/
inductive FieldCond (α : Type*) where
  | comp (compType : CompType) (dv : α) (isConstRef : Bool)
  | inArray (elems : List α)
  | between (dvL dvR : α)
  | and (vctChild : List (FieldCond α))
  | or (vctChild : List (FieldCond α))

namespace CompType

variable {β : Type*} [LinearOrder β]

/-- `ExprComp::Calc` on two values of one type. -/
def Holds (left right : β) : CompType → Prop
  | EQ => left = right
  | GT => right < left
  | GE => right ≤ left
  | LT => left < right
  | LE => left ≤ right
  | NE => left ≠ right

end CompType

namespace FieldCond

variable {α : Type*} [LinearOrder α]

mutual

/-- The value `v` satisfies the condition. -/
def Sat (v : α) : FieldCond α → Prop
  | comp compType dv _ => compType.Holds v dv
  | inArray elems => v ∈ elems
  | between dvL dvR => dvL ≤ v ∧ v ≤ dvR
  | and vctChild => SatAll v vctChild
  | or vctChild => SatAny v vctChild

/-- All children of an AND are satisfied. -/
def SatAll (v : α) : List (FieldCond α) → Prop
  | [] => True
  | logic :: rest => Sat v logic ∧ SatAll v rest

def SatAny (v : α) : List (FieldCond α) → Prop
  | [] => False
  | logic :: rest => Sat v logic ∨ SatAny v rest

end

/-- The set of an IN, in which `AddElem` keeps each value once and in order. -/
def addElem (setVal : List α) (dv : α) : List α :=
  if dv ∈ setVal then setVal else setVal.orderedInsert (· ≤ ·) dv

section Array

theorem mem_addElem {setVal : List α} {dv v : α} :
    v ∈ addElem setVal dv ↔ v = dv ∨ v ∈ setVal := by
  unfold addElem
  split
  · rename_i mem
    constructor
    · exact .inr
    · rintro (rfl | mem')
      · exact mem
      · exact mem'
  · simp

theorem pairwise_addElem {setVal : List α} (sorted : setVal.Pairwise (· < ·)) (dv : α) :
    (addElem setVal dv).Pairwise (· < ·) := by
  unfold addElem
  split
  · exact sorted
  · rename_i new
    induction setVal with
    | nil => simp
    | cons v rest ih =>
        obtain ⟨before, sorted'⟩ := List.pairwise_cons.mp sorted
        simp only [List.mem_cons, not_or] at new
        rw [List.orderedInsert_cons]
        split
        · rename_i le
          have lt : dv < v := lt_of_le_of_ne le new.1
          refine List.pairwise_cons.mpr ⟨?_, sorted⟩
          intro w mem
          rcases List.mem_cons.mp mem with rfl | mem
          · exact lt
          · exact lt.trans (before w mem)
        · rename_i gt
          refine List.pairwise_cons.mpr ⟨?_, ih sorted' new.2⟩
          intro w mem
          rcases (List.mem_orderedInsert _).mp mem with rfl | mem
          · exact not_le.mp gt
          · exact before w mem

theorem foldl_addElem (elems setVal : List α) (sorted : setVal.Pairwise (· < ·)) :
    (elems.foldl addElem setVal).Pairwise (· < ·) ∧
      ∀ v, v ∈ elems.foldl addElem setVal ↔ v ∈ elems ∨ v ∈ setVal := by
  induction elems generalizing setVal with
  | nil => exact ⟨sorted, by simp⟩
  | cons dv rest ih =>
      obtain ⟨sorted', mem_iff⟩ := ih (addElem setVal dv) (pairwise_addElem sorted dv)
      refine ⟨sorted', fun v => ?_⟩
      rw [List.foldl_cons, mem_iff, mem_addElem]
      simp only [List.mem_cons]
      tauto

end Array

section Convert

variable [BoundedOrder α]

/-- The case `EXPR_COMP` of `ConditionConvert`. Both ranges of a `<>` have the value without a
reference of its own; one that is counted is freed under them. -/
def convertComp (dv : α) (isConstRef : Bool) : CompType → Option (List (QueryRange α))
  | .EQ => some [⟨dv, dv, false, true, true⟩]
  | .GT => some [⟨dv, ⊤, true, false, true⟩]
  | .GE => some [⟨dv, ⊤, true, true, true⟩]
  | .LT => some [⟨⊥, dv, true, true, false⟩]
  | .LE => some [⟨⊥, dv, true, true, true⟩]
  | .NE =>
      if isConstRef then
        some [⟨⊥, dv, true, true, false⟩, ⟨dv, ⊤, true, false, true⟩]
      else
        none

/-- The case `EXPR_IN_OR_NOT`. -/
def convertArray (elems : List α) : List (QueryRange α) :=
  (elems.foldl addElem []).map fun dv => ⟨dv, dv, false, true, true⟩

/-- The case `EXPR_BETWEEN`. -/
def convertBetween (dvL dvR : α) : List (QueryRange α) :=
  if dvL > dvR then [] else [⟨dvL, dvR, !decide (dvL = dvR), true, true⟩]

mutual

/-- `ConditionConvert`, with the condition as it leaves it: the values are moved out of the set of
an IN. None when it runs into undefined behaviour. -/
def conditionConvert : FieldCond α → Option (List (QueryRange α) × FieldCond α)
  | comp compType dv isConstRef => do
      let vctVal ← convertComp dv isConstRef compType
      some (vctVal, comp compType dv isConstRef)
  | inArray elems => some (convertArray elems, inArray [])
  | between dvL dvR => some (convertBetween dvL dvR, between dvL dvR)
  | and vctChild => do
      let (vctVal, vctChild) ← convertAnd [] vctChild
      some (vctVal, and vctChild)
  | or vctChild => do
      let (vctVal, vctChild) ← convertOr [] vctChild
      some (vctVal, or vctChild)

/-- The loop over the children of an AND. -/
def convertAnd (vctVal : List (QueryRange α)) :
    List (FieldCond α) → Option (List (QueryRange α) × List (FieldCond α))
  | [] => some (vctVal, [])
  | logic :: rest => do
      let (vctRes, logic) ← conditionConvert logic
      let (vctVal, rest) ←
        convertAnd (if vctVal.length > 0 then QueryRange.mergeAndQueryRange vctVal vctRes
          else vctRes)
          rest
      some (vctVal, logic :: rest)

def convertOr (vctVal : List (QueryRange α)) :
    List (FieldCond α) → Option (List (QueryRange α) × List (FieldCond α))
  | [] => some (vctVal, [])
  | logic :: rest => do
      let (vctRes, logic) ← conditionConvert logic
      let vctVal ← QueryRange.mergeOrQueryRange vctVal vctRes
      let (vctVal, rest) ← convertOr vctVal rest
      some (vctVal, logic :: rest)

end

/-- The list of the last of `n + 1` conversions of a condition. -/
def convertAgain : ℕ → FieldCond α → Option (List (QueryRange α))
  | 0, logic => (conditionConvert logic).map Prod.fst
  | n + 1, logic => do
      let (_, logic) ← conditionConvert logic
      convertAgain n logic

/-- The last of `n + 1` conversions is exact: it returns a list that contains the values that
satisfy the condition, is sorted and disjoint, and is empty if and only if there is no such
value. -/
def ConvertedExactly (n : ℕ) (logic : FieldCond α) : Prop :=
  ∃ ranges, convertAgain n logic = some ranges ∧
    (∀ v, (∃ q ∈ ranges, q.Contains v) ↔ Sat v logic) ∧
    ranges.Pairwise (fun q r =>
      q.dvRight ≤ r.dvLeft ∧ ∀ v, ¬(q.Contains v ∧ r.Contains v)) ∧
    (ranges = [] ↔ ∀ v, ¬Sat v logic)

mutual

/-- The condition without the values of its INs. -/
def emptied : FieldCond α → FieldCond α
  | comp compType dv isConstRef => comp compType dv isConstRef
  | inArray _ => inArray []
  | between dvL dvR => between dvL dvR
  | and vctChild => and (emptiedAll vctChild)
  | or vctChild => or (emptiedAll vctChild)

def emptiedAll : List (FieldCond α) → List (FieldCond α)
  | [] => []
  | logic :: rest => emptied logic :: emptiedAll rest

end

/-- The places at which a comparison is satisfied. -/
def compPlaces (dv : α) : CompType → Set (Place α)
  | .EQ => Set.Ico (Place.of dv) (Place.after dv)
  | .GT => Set.Ico (Place.after dv) (Place.after ⊤)
  | .GE => Set.Ico (Place.of dv) (Place.after ⊤)
  | .LT => Set.Ico (Place.of ⊥) (Place.of dv)
  | .LE => Set.Ico (Place.of ⊥) (Place.after dv)
  | .NE => Set.Ico (Place.of ⊥) (Place.of dv) ∪ Set.Ico (Place.after dv) (Place.after ⊤)

mutual

/-- What the list of the condition has to stand for: the places at which the condition is satisfied,
a range from the least value when a comparison bounds the column from above only, and the range
behind the greatest value. -/
def outline : FieldCond α → Outline α
  | comp compType dv _ =>
      ⟨compPlaces dv compType, compType ∈ [CompType.LT, .LE, .NE],
        compType ∈ [CompType.GT, .NE] ∧ dv = ⊤⟩
  | inArray elems => ⟨{p | ∃ dv ∈ elems, p = Place.of dv}, False, False⟩
  | between dvL dvR => ⟨Set.Ico (Place.of dvL) (Place.after dvR), False, False⟩
  | and [] => ⟨Set.univ, False, False⟩
  | and (logic :: rest) => outlineAnd (outline logic) rest
  | or vctChild => outlineOr .nothing vctChild

def outlineAnd (before : Outline α) : List (FieldCond α) → Outline α
  | [] => before
  | logic :: rest => outlineAnd (before.and (outline logic)) rest

def outlineOr (before : Outline α) : List (FieldCond α) → Outline α
  | [] => before
  | logic :: rest => outlineOr (before.or (outline logic)) rest

end

mutual

/-- No part of the condition runs into a defect of the conversion. -/
def Regular : FieldCond α → Prop
  | comp compType _ isConstRef => compType = .NE → isConstRef = true
  | inArray _ => True
  | between _ _ => True
  | and [] => False
  | and (logic :: rest) => Regular logic ∧ RegularAnd (outline logic) rest
  | or vctChild => RegularOr .nothing vctChild

/-- When the children so far have no range in common, nor has the next one any. -/
def RegularAnd (before : Outline α) : List (FieldCond α) → Prop
  | [] => True
  | logic :: rest =>
      Regular logic ∧ (before.Empty → (outline logic).Empty) ∧
        RegularAnd (before.and (outline logic)) rest

/-- The first child has a range, and no child clashes with those before it. -/
def RegularOr (before : Outline α) : List (FieldCond α) → Prop
  | [] => True
  | logic :: rest =>
      Regular logic ∧ ¬(before.Empty ∧ (outline logic).Empty) ∧ ¬before.Clash (outline logic) ∧
        RegularOr (before.or (outline logic)) rest

end

section Leaves

open QueryRange (Outlines Represents Marked)

theorem outlines_single {q : QueryRange α} {fromMin behindMax : Prop}
    (le : q.span.lo ≤ q.span.hi) (marked : q.Marked)
    (head : fromMin → q.dvLeft = ⊥ ∧ q.bRange = true)
    (behind : q.bIncLeft = false → q.span.hi ≤ q.span.lo → q.dvLeft = ⊤ ∧ behindMax)
    (some_range : q.span.lo < q.span.hi ∨ fromMin ∨ behindMax) :
    Outlines [q] ⟨Set.Ico q.span.lo q.span.hi, fromMin, behindMax⟩ := by
  refine ⟨.singleton le marked, fun holds => ⟨q, [], rfl, head holds⟩, ?_, ?_⟩
  · intro r mem
    rw [List.mem_singleton.mp mem]
    exact behind
  · refine iff_of_false (by simp) fun empty => ?_
    rcases some_range with lt | holds | holds
    · exact (Set.nonempty_Ico.mpr lt).ne_empty empty.1
    · exact empty.2.1 holds
    · exact empty.2.2 holds

theorem outlines_NE (dv : α) :
    Outlines [⟨⊥, dv, true, true, false⟩, ⟨dv, ⊤, true, false, true⟩]
      (outline (comp .NE dv true)) := by
  refine ⟨?_, fun _ => ⟨_, _, rfl, rfl, rfl⟩, ?_, ?_⟩
  · apply Represents.cons (Place.of_bot_le _) (by simp [Marked]) _
      (Represents.singleton (Place.le_after_top _) (by simp [Marked]))
    intro r mem
    rw [List.mem_singleton.mp mem]
    exact Place.of_lt_after.mpr le_rfl
  · intro q mem isOpen empty
    rcases List.mem_cons.mp mem with rfl | mem
    · cases isOpen
    · obtain rfl := List.mem_singleton.mp mem
      have atMax : dv = ⊤ := by
        by_contra below
        exact absurd empty (not_le.mpr (Place.after_lt_after.mpr (lt_top_iff_ne_top.mpr below)))
      exact ⟨atMax, by decide, atMax⟩
  · have fromMin : CompType.NE ∈ [CompType.LT, .LE, .NE] := by decide
    exact iff_of_false (by simp) fun empty => empty.2.1 fromMin

theorem outlines_convertComp (compType : CompType) (dv : α) (isConstRef : Bool)
    (regular : Regular (comp compType dv isConstRef)) :
    ∃ ranges, convertComp dv isConstRef compType = some ranges ∧
      Outlines ranges (outline (comp compType dv isConstRef)) := by
  cases compType with
  | EQ =>
      refine ⟨_, rfl, outlines_single (Place.of_lt_after.mpr le_rfl).le (by simp [Marked]) ?_ ?_ ?_⟩
      · exact fun fromMin => absurd fromMin (by decide)
      · rintro ⟨⟩
      · exact .inl (Place.of_lt_after.mpr le_rfl)
  | GT =>
      refine ⟨_, rfl, outlines_single (Place.le_after_top _) (by simp [Marked]) ?_ ?_ ?_⟩
      · exact fun fromMin => absurd fromMin (by decide)
      · intro _ empty
        have atMax : dv = ⊤ := by
          by_contra below
          exact absurd empty (not_le.mpr (Place.after_lt_after.mpr (lt_top_iff_ne_top.mpr below)))
        exact ⟨atMax, by decide, atMax⟩
      · rcases (le_top : dv ≤ ⊤).lt_or_eq with below | atMax
        · exact .inl (Place.after_lt_after.mpr below)
        · exact .inr (.inr ⟨by decide, atMax⟩)
  | GE =>
      refine ⟨_, rfl, outlines_single (Place.le_after_top _) (by simp [Marked]) ?_ ?_ ?_⟩
      · exact fun fromMin => absurd fromMin (by decide)
      · rintro ⟨⟩
      · exact .inl (Place.of_lt_after.mpr le_top)
  | LT =>
      refine ⟨_, rfl, outlines_single (Place.of_bot_le _) (by simp [Marked]) ?_ ?_ ?_⟩
      · exact fun _ => ⟨rfl, rfl⟩
      · rintro ⟨⟩
      · exact .inr (.inl (by decide))
  | LE =>
      refine ⟨_, rfl, outlines_single (Place.of_bot_le _) (by simp [Marked]) ?_ ?_ ?_⟩
      · exact fun _ => ⟨rfl, rfl⟩
      · rintro ⟨⟩
      · exact .inr (.inl (by decide))
  | NE =>
      simp only [Regular, true_imp_iff] at regular
      rw [regular]
      exact ⟨_, rfl, outlines_NE dv⟩

theorem outlines_convertBetween (dvL dvR : α) :
    Outlines (convertBetween dvL dvR) (outline (between dvL dvR)) := by
  simp only [outline, convertBetween]
  split
  · rename_i gt
    rw [Set.Ico_eq_empty (fun lt => absurd (Place.of_lt_after.mp lt) (not_le.mpr gt))]
    exact .nil
  · rename_i le
    have lt := Place.of_lt_after.mpr (not_lt.mp le)
    exact outlines_single lt.le (by simp [Marked]) False.elim (by rintro ⟨⟩) (.inl lt)

theorem represents_points {values : List α} (sorted : values.Pairwise (· < ·)) :
    Represents (values.map fun dv => ⟨dv, dv, false, true, true⟩)
      {p | ∃ dv ∈ values, p = Place.of dv} := by
  induction values with
  | nil => simpa using Represents.nil
  | cons dv rest ih =>
      obtain ⟨before, sorted'⟩ := List.pairwise_cons.mp sorted
      have covers : {p | ∃ v ∈ dv :: rest, p = Place.of v} =
          Set.Ico (Place.of dv) (Place.after dv) ∪ {p | ∃ v ∈ rest, p = Place.of v} := by
        ext p
        simp only [List.mem_cons, exists_eq_or_imp, Set.mem_ofPred_eq, Set.mem_union, Set.mem_Ico,
          Place.lt_after_iff]
        rw [← le_antisymm_iff, eq_comm]
      rw [covers]
      apply Represents.cons (Place.of_lt_after.mpr (le_refl dv)).le (by simp [Marked]) _
        (ih sorted')
      intro r mem
      obtain ⟨v, mem', rfl⟩ := List.mem_map.mp mem
      exact Place.after_lt_of.mpr (before v mem')

theorem outlines_convertArray (elems : List α) :
    Outlines (convertArray elems) (outline (inArray elems)) := by
  obtain ⟨sorted, mem_iff⟩ := foldl_addElem elems [] .nil
  have same : {p | ∃ dv ∈ elems, p = Place.of dv} =
      {p | ∃ dv ∈ elems.foldl addElem [], p = Place.of dv} := by
    ext p
    simp only [mem_iff, List.not_mem_nil, or_false, Set.mem_ofPred_eq]
  simp only [outline]
  rw [same]
  apply Outlines.of_nonempty (represents_points sorted)
  intro q mem
  obtain ⟨dv, -, rfl⟩ := List.mem_map.mp mem
  exact Place.of_lt_after.mpr le_rfl

end Leaves

section Tree

open QueryRange (Outlines)

mutual

theorem outlines_conditionConvert (logic : FieldCond α) (regular : Regular logic) :
    ∃ ranges, conditionConvert logic = some (ranges, emptied logic) ∧
      Outlines ranges (outline logic) := by
  match logic with
  | comp compType dv isConstRef =>
      obtain ⟨ranges, convert_eq, outlines⟩ := outlines_convertComp compType dv isConstRef regular
      exact ⟨ranges, by simp [conditionConvert, convert_eq, emptied], outlines⟩
  | inArray elems =>
      exact ⟨_, by simp only [conditionConvert, emptied], outlines_convertArray elems⟩
  | between dvL dvR =>
      exact ⟨_, by simp only [conditionConvert, emptied], outlines_convertBetween dvL dvR⟩
  | and [] => simp [Regular] at regular
  | and (logic :: rest) =>
      simp only [Regular] at regular
      obtain ⟨first, convert_eq, outlines⟩ := outlines_conditionConvert logic regular.1
      obtain ⟨ranges, rest_eq, outlines'⟩ :=
        outlines_convertAnd rest first (outline logic) outlines regular.2
      refine ⟨ranges, ?_, by simpa only [outline] using outlines'⟩
      simp [conditionConvert, convertAnd, convert_eq, rest_eq, emptied, emptiedAll]
  | or vctChild =>
      simp only [Regular] at regular
      obtain ⟨ranges, convert_eq, outlines⟩ :=
        outlines_convertOr vctChild [] .nothing Outlines.nil regular
      refine ⟨ranges, ?_, by simpa only [outline] using outlines⟩
      simp [conditionConvert, convert_eq, emptied]

theorem outlines_convertAnd (vctChild : List (FieldCond α)) (vctVal : List (QueryRange α))
    (before : Outline α) (outlines : Outlines vctVal before)
    (regular : RegularAnd before vctChild) :
    ∃ ranges, convertAnd vctVal vctChild = some (ranges, emptiedAll vctChild) ∧
      Outlines ranges (outlineAnd before vctChild) := by
  match vctChild with
  | [] => exact ⟨vctVal, by simp only [convertAnd, emptiedAll], by simpa only [outlineAnd]⟩
  | logic :: rest =>
      simp only [RegularAnd] at regular
      obtain ⟨child, empty, regular_rest⟩ := regular
      obtain ⟨vctRes, convert_eq, outlines_res⟩ := outlines_conditionConvert logic child
      have merged : (if vctVal.length > 0 then QueryRange.mergeAndQueryRange vctVal vctRes
          else vctRes) = QueryRange.mergeAndQueryRange vctVal vctRes := by
        split
        · rfl
        · -- the list of the child is taken over, which is empty as well
          rename_i none
          have vctVal_eq : vctVal = [] := by simpa using none
          rw [outlines_res.nil_iff.mpr (empty (outlines.nil_iff.mp vctVal_eq)), vctVal_eq]
          simp [QueryRange.mergeAndQueryRange]
      obtain ⟨ranges, rest_eq, outlines'⟩ :=
        outlines_convertAnd rest _ _ (outlines.mergeAndQueryRange outlines_res) regular_rest
      refine ⟨ranges, ?_, by simpa only [outlineAnd] using outlines'⟩
      simp only [convertAnd, convert_eq, Option.bind_eq_bind, Option.bind_some, merged, rest_eq,
        emptiedAll]

theorem outlines_convertOr (vctChild : List (FieldCond α)) (vctVal : List (QueryRange α))
    (before : Outline α) (outlines : Outlines vctVal before)
    (regular : RegularOr before vctChild) :
    ∃ ranges, convertOr vctVal vctChild = some (ranges, emptiedAll vctChild) ∧
      Outlines ranges (outlineOr before vctChild) := by
  match vctChild with
  | [] => exact ⟨vctVal, by simp only [convertOr, emptiedAll], by simpa only [outlineOr]⟩
  | logic :: rest =>
      simp only [RegularOr] at regular
      obtain ⟨child, some_range, apart, regular_rest⟩ := regular
      obtain ⟨vctRes, convert_eq, outlines_res⟩ := outlines_conditionConvert logic child
      obtain ⟨merged, merge_eq, outlines_merged⟩ :=
        outlines.mergeOrQueryRange outlines_res apart some_range
      obtain ⟨ranges, rest_eq, outlines'⟩ :=
        outlines_convertOr rest merged _ outlines_merged regular_rest
      refine ⟨ranges, ?_, by simpa only [outlineOr] using outlines'⟩
      simp only [convertOr, convert_eq, merge_eq, Option.bind_eq_bind, Option.bind_some, rest_eq,
        emptiedAll]

end

theorem of_mem_compPlaces (v dv : α) (compType : CompType) :
    Place.of v ∈ compPlaces dv compType ↔ compType.Holds v dv := by
  cases compType with
  | EQ => simp [compPlaces, CompType.Holds, le_antisymm_iff, and_comm]
  | GT => simp [compPlaces, CompType.Holds, Place.after_le_iff]
  | GE => simp [compPlaces, CompType.Holds]
  | LT => simp [compPlaces, CompType.Holds]
  | LE => simp [compPlaces, CompType.Holds]
  | NE => simp [compPlaces, CompType.Holds, Place.after_le_iff]

mutual

theorem of_mem_outline (v : α) (logic : FieldCond α) :
    Place.of v ∈ (outline logic).places ↔ Sat v logic := by
  match logic with
  | comp compType dv isConstRef => simp only [outline, Sat, of_mem_compPlaces]
  | inArray elems => simp [outline, Sat]
  | between dvL dvR => simp [outline, Sat]
  | and [] => simp [outline, Sat, SatAll]
  | and (logic :: rest) =>
      simp only [outline, Sat, SatAll]
      rw [of_mem_outlineAnd v rest, of_mem_outline v logic]
  | or vctChild =>
      simp only [outline, Sat]
      rw [of_mem_outlineOr v vctChild]
      simp [Outline.nothing]

theorem of_mem_outlineAnd (v : α) (vctChild : List (FieldCond α)) (before : Outline α) :
    Place.of v ∈ (outlineAnd before vctChild).places ↔
      Place.of v ∈ before.places ∧ SatAll v vctChild := by
  match vctChild with
  | [] => simp [outlineAnd, SatAll]
  | logic :: rest =>
      simp only [outlineAnd, SatAll]
      rw [of_mem_outlineAnd v rest, Outline.and, Set.mem_inter_iff,
        of_mem_outline v logic, and_assoc]

theorem of_mem_outlineOr (v : α) (vctChild : List (FieldCond α)) (before : Outline α) :
    Place.of v ∈ (outlineOr before vctChild).places ↔
      Place.of v ∈ before.places ∨ SatAny v vctChild := by
  match vctChild with
  | [] => simp [outlineOr, SatAny]
  | logic :: rest =>
      simp only [outlineOr, SatAny]
      rw [of_mem_outlineOr v rest, Outline.or, Set.mem_union, of_mem_outline v logic, or_assoc]

end

omit [LinearOrder α] [BoundedOrder α] in
mutual

theorem emptied_emptied (logic : FieldCond α) : logic.emptied.emptied = logic.emptied := by
  match logic with
  | comp compType dv isConstRef => simp only [emptied]
  | inArray elems => simp only [emptied]
  | between dvL dvR => simp only [emptied]
  | and vctChild => simp only [emptied, emptiedAll_emptiedAll vctChild]
  | or vctChild => simp only [emptied, emptiedAll_emptiedAll vctChild]

theorem emptiedAll_emptiedAll (vctChild : List (FieldCond α)) :
    emptiedAll (emptiedAll vctChild) = emptiedAll vctChild := by
  match vctChild with
  | [] => simp only [emptiedAll]
  | logic :: rest => simp only [emptiedAll, emptied_emptied logic, emptiedAll_emptiedAll rest]

end

/-- The condition that the last of `n + 1` conversions meets. -/
def afterConversions (n : ℕ) (logic : FieldCond α) : FieldCond α :=
  if n = 0 then logic else logic.emptied

theorem outlines_convertAgain (n : ℕ) (logic : FieldCond α) (regular : Regular logic)
    (later : 0 < n → Regular logic.emptied) :
    ∃ ranges, convertAgain n logic = some ranges ∧
      Outlines ranges (outline (afterConversions n logic)) := by
  induction n generalizing logic with
  | zero =>
      obtain ⟨ranges, convert_eq, outlines⟩ := outlines_conditionConvert logic regular
      exact ⟨ranges, by simp [convertAgain, convert_eq], outlines⟩
  | succ n ih =>
      obtain ⟨first, convert_eq, -⟩ := outlines_conditionConvert logic regular
      have regular' := later (Nat.succ_pos n)
      obtain ⟨ranges, again_eq, outlines⟩ := ih logic.emptied regular'
        fun _ => (emptied_emptied logic).symm ▸ regular'
      refine ⟨ranges, by simp [convertAgain, convert_eq, again_eq], ?_⟩
      have same : afterConversions n logic.emptied = afterConversions (n + 1) logic := by
        simp [afterConversions, emptied_emptied]
      rw [← same]
      exact outlines

end Tree

end Convert

end FieldCond

end RapidDb
