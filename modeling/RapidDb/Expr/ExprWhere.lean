import RapidDb.Expr.ExprLogic

/-!
# The preparation of a WHERE clause

`ExprWhere::Preprocess` takes the conditions an index can serve out of the condition. If they are
one equality, the index is searched for points, and further equalities on the columns of the index
are moved to the point conditions.

The loop that moves them is left by nothing, and other steps dereference null pointers. The
conditions that are picked are checked before the others, the last one first. The condition
`Regular` says which trees stay clear of the first two, and on which the order makes no difference.
-/

namespace RapidDb

/-- `IndexSearch`; `bPointQuery` is whether there are point conditions. -/
structure IndexSearch (V : Type) where
  idxLogic : Option (ExprLogic V)
  vctPointCond : Option (List (ExprLogic V))
  indexPos : ℕ

/-- `ExprWhere` after its preparation. -/
structure ExprWhere (V : Type) where
  exprLogic : Option (ExprLogic V)
  indexSearch : Option (IndexSearch V)

namespace ExprLogic

variable {V : Type} (mapColPos : String → Option ℕ) (vctIndex : List (List ℕ))

/-- The equalities among the conditions of an AND by the column of the index they are on; the
first one of a column stays in the map. -/
def pointMap (vctCol : List ℕ) : List (ExprLogic V × ℕ) → List (ℕ × ExprLogic V × ℕ) →
    Except Stop (List (ℕ × ExprLogic V × ℕ))
  | [], map => .ok map
  | (logic, id) :: rest, map => do
      match ← combinedIndexCondition mapColPos vctCol logic with
      | none => pointMap vctCol rest map
      | some pos =>
          pointMap vctCol rest
            (if (map.lookup pos).isSome then map else map ++ [(pos, logic, id)])

/-- The loop that collects further point conditions, with the conditions that are left of the
AND. Nothing in it changes `pos`, and nothing leaves it. -/
def pointLoop (map : List (ℕ × ExprLogic V × ℕ)) (pos : ℕ) : ℕ → List (ExprLogic V) →
    List (ExprLogic V × ℕ) → Except Stop (List (ExprLogic V) × List (ExprLogic V × ℕ))
  | 0, _, _ => .error .outOfFuel
  | fuel + 1, vctPointCond, vctChild =>
      match map.lookup pos with
      | some (logic, id) =>
          pointLoop map pos fuel (vctPointCond ++ [logic])
            (vctChild.filter fun child => child.2 != id)
      | none => pointLoop map pos fuel vctPointCond vctChild

/-- What is left of an AND: nothing, its only condition, or an AND. -/
def collapse : List (ExprLogic V) → Option (ExprLogic V)
  | [] => none
  | [logic] => some logic
  | vctChild => some (and vctChild)

/-- The further point conditions: the residual condition and the point conditions. -/
def morePoints (fuel : ℕ) (vctCol : List ℕ) (idxLogic : ExprLogic V) :
    Option (ExprLogic V) → Except Stop (Option (ExprLogic V) × List (ExprLogic V))
  | none => .ok (none, [idxLogic])
  | some (and vctChild) => do
      let map ← pointMap mapColPos vctCol vctChild.zipIdx []
      let (vctPointCond, vctChild) ← pointLoop map 1 fuel [idxLogic] vctChild.zipIdx
      .ok (collapse (vctChild.map Prod.fst), vctPointCond)
  | some logic => do
      if (← combinedIndexCondition mapColPos vctCol logic) = some 1 then
        .ok (none, [idxLogic, logic])
      else
        .ok (some logic, [idxLogic])

/-- `Preprocess`; the result is none when it returns `false`. -/
def preprocess (fuel : ℕ) (exprLogic : ExprLogic V) : Except Stop (Option (ExprWhere V)) := do
  if exprLogic.lacksPara then
    .error .nullPointer
  else if !exprLogic.fillElemField mapColPos then
    .ok none
  else
    let (exprLogic, picked) ← exprLogic.pickIndexCondition mapColPos vctIndex
    match picked with
    | none => .ok (some { exprLogic := some exprLogic, indexSearch := none })
    | some (idxPos, vctExpr) =>
        let (idxLogic, residual) :=
          match exprLogic with
          | and vctChild => ((collapse vctExpr).getD (and []), collapse vctChild)
          | logic => (logic, none)
        let vctCol := (vctIndex[idxPos]?).getD []
        match ← idxLogic.combinedIndexCondition mapColPos vctCol with
        | none =>
            .ok (some
              { exprLogic := residual
                indexSearch := some
                  { idxLogic := some idxLogic, vctPointCond := none, indexPos := idxPos } })
        | some _ => do
            let (residual, vctPointCond) ←
              if vctCol.length > 1 then morePoints mapColPos fuel vctCol idxLogic residual
              else .ok (residual, [idxLogic])
            .ok (some
              { exprLogic := residual
                indexSearch := some
                  { idxLogic := none, vctPointCond := some vctPointCond, indexPos := idxPos } })

/-!
## What a condition needs
-/

mutual

/-- The index that can serve a condition. -/
def indexOf : ExprLogic V → Option ℕ
  | comp _ exprLeft exprRight =>
      if exprRight.isField && exprLeft.isConstValue then exprRight.fieldIndex mapColPos vctIndex
      else if exprRight.isConstValue then exprLeft.fieldIndex mapColPos vctIndex
      else none
  | inNot exprData _ bIn => if bIn then exprData.fieldIndex mapColPos vctIndex else none
  | isNullNot _ _ => none
  | between _ _ _ => none
  | like _ _ _ => none
  | not _ => none
  | and _ => none
  | or first rest =>
      (indexOf first).bind fun idxPos => if allIndexed idxPos rest then some idxPos else none

/-- All conditions are served by the index. -/
def allIndexed (idxPos : ℕ) : List (ExprLogic V) → Bool
  | [] => true
  | logic :: rest => indexOf logic = some idxPos && allIndexed idxPos rest

end

mutual

/-- Looking at a condition meets no null pointer: no BETWEEN of a field and two constants, and no
AND inside of an OR that has a condition an index can serve. -/
def Clean : ExprLogic V → Prop
  | comp _ _ _ => True
  | inNot _ _ _ => True
  | isNullNot _ _ => True
  | between child exprLeft exprRight =>
      ¬(child.isField && exprLeft.isConstValue && exprRight.isConstValue) = true
  | like _ _ _ => True
  | not _ => True
  | and vctChild => CleanAnd vctChild
  | or first rest => Clean first ∧ ∀ idxPos, indexOf mapColPos vctIndex first = some idxPos →
      CleanOr idxPos rest

/-- An AND inside of an OR; the ANDs in it are passed over. -/
def CleanAnd : List (ExprLogic V) → Prop
  | [] => True
  | logic :: rest =>
      (logic.isAnd = true ∨ Clean logic ∧ indexOf mapColPos vctIndex logic = none) ∧ CleanAnd rest

/-- The further operands of an OR, up to the first one that another index serves, or none. -/
def CleanOr (idxPos : ℕ) : List (ExprLogic V) → Prop
  | [] => True
  | logic :: rest =>
      Clean logic ∧ (indexOf mapColPos vctIndex logic = some idxPos → CleanOr idxPos rest)

end

/-- The index that can serve the condition at a position. -/
def indexAt (vctChild : List (ExprLogic V)) (pos : ℕ) : Option ℕ :=
  vctChild[pos]?.bind (indexOf mapColPos vctIndex)

/-- The search among the conditions of an AND ends at an OR that is served by an index not greater
than those before it. -/
def Stops (vctChild : List (ExprLogic V)) (pos : ℕ) : Prop :=
  (∃ logic, vctChild[pos]? = some logic ∧ logic.isOr = true) ∧
    ∃ idxPos, indexAt mapColPos vctIndex vctChild pos = some idxPos ∧
      ∀ before < pos, ∀ other, indexAt mapColPos vctIndex vctChild before = some other →
        idxPos ≤ other

def Visited (vctChild : List (ExprLogic V)) (pos : ℕ) : Prop :=
  ∀ before < pos, ¬Stops mapColPos vctIndex vctChild before

/-- The conditions that are picked: those that the least index serves, and an OR only if it is
the first of them. -/
def Served (vctChild : List (ExprLogic V)) (idxPos pos : ℕ) : Prop :=
  Visited mapColPos vctIndex vctChild pos ∧
    indexAt mapColPos vctIndex vctChild pos = some idxPos ∧
    (∀ visited, Visited mapColPos vctIndex vctChild visited →
      ∀ other, indexAt mapColPos vctIndex vctChild visited = some other → idxPos ≤ other) ∧
    ((∃ logic, vctChild[pos]? = some logic ∧ logic.isOr = true) →
      ∀ before < pos, indexAt mapColPos vctIndex vctChild before ≠ some idxPos)

def isEquality : ExprLogic V → Bool
  | comp .EQ _ _ => true
  | _ => false

/-- What may be left when one equality on an index of several columns has been picked: nothing,
or one condition that is no AND, and if it is an equality, has a field on a side that is looked
at. -/
def PlainRest : List (ExprLogic V) → Prop
  | [] => True
  | [comp .EQ exprLeft exprRight] =>
      exprLeft.isField = true ∨ exprRight.isField = true ∧ exprLeft.isConstValue = true
  | [logic] => logic.isAnd = false
  | _ => False

/-- A condition of an AND is not true of a row. -/
def Untrue (ops : DataOps V) (vdParas vdRow : List V) (vctChild : List (ExprLogic V)) (pos : ℕ)
    (tb : TriBool) : Prop :=
  tb ≠ .true ∧ ∃ logic, vctChild[pos]? = some logic ∧
    logic.calcLogic ops mapColPos vdParas vdRow = tb

/-- The first condition that is not true of a row, and the last one of those that are picked, are
both false or both an error. -/
def OrderKept (ops : DataOps V) (vctChild : List (ExprLogic V)) : Prop :=
  ∀ vdParas vdRow first last tb tb' idxPos,
    Untrue mapColPos ops vdParas vdRow vctChild first tb →
    (∀ before < first, ∀ other, ¬Untrue mapColPos ops vdParas vdRow vctChild before other) →
    Untrue mapColPos ops vdParas vdRow vctChild last tb' →
    Served mapColPos vctIndex vctChild idxPos last →
    (∀ after > last, Served mapColPos vctIndex vctChild idxPos after →
      ∀ other, ¬Untrue mapColPos ops vdParas vdRow vctChild after other) →
    tb = tb'

/-- The trees that `Preprocess` splits: no function is called without parameters, and if all fields
name columns, looking for an index meets no null pointer, what is left beside one equality can be
asked for further points, and the order in which the conditions are checked makes no difference. -/
def Regular (ops : DataOps V) (logic : ExprLogic V) : Prop :=
  logic.lacksPara = false ∧ (logic.fillElemField mapColPos = true →
    match logic with
    | and vctChild =>
        (∀ pos logic, Visited mapColPos vctIndex vctChild pos → vctChild[pos]? = some logic →
          logic.isAnd = true ∨ Clean mapColPos vctIndex logic) ∧
        (∀ pos idxPos logic vctCol, vctChild[pos]? = some logic → logic.isEquality = true →
          (∀ other, Served mapColPos vctIndex vctChild idxPos other ↔ other = pos) →
            vctIndex[idxPos]? = some vctCol → 1 < vctCol.length →
              PlainRest (vctChild.eraseIdx pos)) ∧
        OrderKept mapColPos vctIndex ops vctChild
    | logic => Clean mapColPos vctIndex logic)

/-!
## What the preparation has to achieve
-/

/-- The conditions that are checked one after another once a condition has been prepared: those
for the index, and what is left. -/
def prepared (exprWhere : ExprWhere V) : List (ExprLogic V) :=
  (exprWhere.indexSearch.map fun search =>
    search.idxLogic.toList ++ search.vctPointCond.getD []).getD [] ++ exprWhere.exprLogic.toList

/-- The prepared conditions have the value of the tree on every row. -/
def SameTruth (ops : DataOps V) (logic : ExprLogic V) (exprWhere : ExprWhere V) : Prop :=
  ∀ vdParas vdRow, calcAnd ops mapColPos vdParas vdRow (prepared exprWhere) =
    logic.calcLogic ops mapColPos vdParas vdRow

/-- The point conditions are equalities on the leading columns of the index, in its order. -/
def LeadingEqualities (exprWhere : ExprWhere V) : Prop :=
  ∀ search ∈ exprWhere.indexSearch, ∀ vctPointCond ∈ search.vctPointCond,
    vctPointCond ≠ [] ∧
      ∀ (pos : ℕ) (cond : ExprLogic V), vctPointCond[pos]? = some cond →
        ∃ colName exprRight rowPos, cond = comp .EQ (.field colName) exprRight ∧
          mapColPos colName = some rowPos ∧
          ∃ vctCol : List ℕ, vctIndex[search.indexPos]? = some vctCol ∧ vctCol[pos]? = some rowPos

/-- The preparation ends without a null pointer, and splits the condition as it should. -/
def SplitsWell (ops : DataOps V) (logic : ExprLogic V) : Prop :=
  ∃ fuel result, preprocess mapColPos vctIndex fuel logic = .ok result ∧
    ∀ exprWhere ∈ result, SameTruth mapColPos ops logic exprWhere ∧
      LeadingEqualities mapColPos vctIndex exprWhere

/-!
## Values of conditions
-/

variable {mapColPos vctIndex}

section Values

variable {ops : DataOps V} {vdParas vdRow : List V}

theorem calcAnd_append (left right : List (ExprLogic V)) :
    calcAnd ops mapColPos vdParas vdRow (left ++ right) =
      match calcAnd ops mapColPos vdParas vdRow left with
      | .true => calcAnd ops mapColPos vdParas vdRow right
      | tb => tb := by
  induction left with
  | nil => simp only [List.nil_append, calcAnd]
  | cons logic rest ih =>
      rw [List.cons_append, calcAnd, calcAnd]
      cases logic.calcLogic ops mapColPos vdParas vdRow
      · rfl
      · rfl
      · exact ih

theorem calcAnd_singleton (logic : ExprLogic V) :
    calcAnd ops mapColPos vdParas vdRow [logic] = logic.calcLogic ops mapColPos vdParas vdRow := by
  rw [calcAnd, calcAnd]
  cases logic.calcLogic ops mapColPos vdParas vdRow <;> rfl

theorem calcAnd_collapse (vctChild : List (ExprLogic V)) :
    calcAnd ops mapColPos vdParas vdRow (collapse vctChild).toList =
      calcAnd ops mapColPos vdParas vdRow vctChild := by
  match vctChild with
  | [] => rfl
  | [logic] => rfl
  | first :: second :: rest =>
      rw [collapse, Option.toList_some, calcAnd_singleton, calcLogic]
      all_goals simp

theorem not_untrue_iff {vctChild : List (ExprLogic V)} {pos : ℕ} :
    (∀ tb, ¬Untrue mapColPos ops vdParas vdRow vctChild pos tb) ↔
      ∀ logic, vctChild[pos]? = some logic →
        logic.calcLogic ops mapColPos vdParas vdRow = .true := by
  constructor
  · intro noValue logic isLogic
    by_contra notTrue
    exact noValue _ ⟨notTrue, logic, isLogic, rfl⟩
  · rintro allTrue tb ⟨notTrue, logic, isLogic, value⟩
    exact notTrue (value.symm.trans (allTrue logic isLogic))

/-- The value of an AND is that of the first condition that is not true. -/
theorem calcAnd_of_first {vctChild : List (ExprLogic V)} {first : ℕ} {tb : TriBool}
    (untrue : Untrue mapColPos ops vdParas vdRow vctChild first tb)
    (before : ∀ pos < first, ∀ other, ¬Untrue mapColPos ops vdParas vdRow vctChild pos other) :
    calcAnd ops mapColPos vdParas vdRow vctChild = tb := by
  induction vctChild generalizing first with
  | nil =>
      rcases untrue with ⟨-, logic, isLogic, -⟩
      cases isLogic
  | cons logic rest ih =>
      rw [calcAnd]
      cases first with
      | zero =>
          rcases untrue with ⟨notTrue, other, isOther, value⟩
          cases isOther
          rw [value]
          cases tb with
          | true => exact absurd rfl notTrue
          | error | false => rfl
      | succ first =>
          rw [not_untrue_iff.mp (before 0 (Nat.succ_pos first)) logic rfl]
          exact ih untrue fun pos less => before (pos + 1) (Nat.succ_lt_succ less)

theorem calcAnd_eraseIdx {vctChild : List (ExprLogic V)} {pos : ℕ}
    (isTrue : ∀ tb, ¬Untrue mapColPos ops vdParas vdRow vctChild pos tb) :
    calcAnd ops mapColPos vdParas vdRow (vctChild.eraseIdx pos) =
      calcAnd ops mapColPos vdParas vdRow vctChild := by
  rw [not_untrue_iff] at isTrue
  induction vctChild generalizing pos with
  | nil => rfl
  | cons logic rest ih =>
      cases pos with
      | zero => rw [List.eraseIdx_zero, List.tail_cons, calcAnd, isTrue logic rfl]
      | succ pos => rw [List.eraseIdx_cons_succ, calcAnd, calcAnd, ih isTrue]

theorem calcLogic_turned (compType : CompType) (exprLeft exprRight : ExprData V) :
    (comp (turned compType exprLeft exprRight).1 (turned compType exprLeft exprRight).2.1
        (turned compType exprLeft exprRight).2.2).calcLogic ops mapColPos vdParas vdRow =
      (comp compType exprLeft exprRight).calcLogic ops mapColPos vdParas vdRow := by
  unfold turned
  split
  · simp only [calcLogic]
    cases exprLeft.calcData mapColPos vdParas vdRow with
    | none => cases exprRight.calcData mapColPos vdParas vdRow <;> rfl
    | some left =>
        cases exprRight.calcData mapColPos vdParas vdRow with
        | none => rfl
        | some right =>
            simp only [ops.ableCompare_comm right left]
            cases able : ops.ableCompare left right with
            | false => rfl
            | true =>
                have able' : ops.ableCompare right left = true :=
                  (ops.ableCompare_comm right left).trans able
                have mirror := ops.gt_eq_not_ge left right able
                have mirror' := ops.gt_eq_not_ge right left able'
                have equal := ops.eq_comm left right able
                cases compType <;>
                  simp [CompType.reverse, DataOps.compare, mirror, mirror', equal]
  · rfl

end Values

/-!
## Looking at the conditions
-/

/-- A condition with the same value on every row. -/
def SameValue (mapColPos : String → Option ℕ) (logic logic' : ExprLogic V) : Prop :=
  ∀ ops vdParas vdRow, logic'.calcLogic ops mapColPos vdParas vdRow =
    logic.calcLogic ops mapColPos vdParas vdRow

/-- A condition that has been looked at: a comparison has been turned. -/
structure LookedAt (mapColPos : String → Option ℕ) (logic logic' : ExprLogic V) : Prop where
  value : SameValue mapColPos logic logic'
  isAnd : logic'.isAnd = logic.isAnd
  isEquality : logic'.isEquality = logic.isEquality
  comp : ∀ compType exprLeft exprRight, logic = comp compType exprLeft exprRight →
    logic' = comp (turned compType exprLeft exprRight).1 (turned compType exprLeft exprRight).2.1
      (turned compType exprLeft exprRight).2.2

theorem calcAnd_congr {vctChild vctChild' : List (ExprLogic V)}
    (same : List.Forall₂ (SameValue mapColPos) vctChild vctChild') (ops : DataOps V)
    (vdParas vdRow : List V) :
    calcAnd ops mapColPos vdParas vdRow vctChild' =
      calcAnd ops mapColPos vdParas vdRow vctChild := by
  induction same with
  | nil => rfl
  | cons first _ ih => rw [calcAnd, calcAnd, first, ih]

theorem calcOr_congr {vctChild vctChild' : List (ExprLogic V)}
    (same : List.Forall₂ (SameValue mapColPos) vctChild vctChild') (ops : DataOps V)
    (vdParas vdRow : List V) :
    calcOr ops mapColPos vdParas vdRow vctChild' =
      calcOr ops mapColPos vdParas vdRow vctChild := by
  induction same with
  | nil => rfl
  | cons first _ ih => rw [calcOr, calcOr, first, ih]

theorem SameValue.refl (logic : ExprLogic V) : SameValue mapColPos logic logic :=
  fun _ _ _ => rfl

theorem forall₂_refl (vctChild : List (ExprLogic V)) :
    List.Forall₂ (SameValue mapColPos) vctChild vctChild :=
  List.forall₂_same.mpr fun logic _ => SameValue.refl logic

theorem LookedAt.refl {logic : ExprLogic V}
    (noComp : ∀ compType exprLeft exprRight, logic ≠ .comp compType exprLeft exprRight) :
    LookedAt mapColPos logic logic :=
  ⟨SameValue.refl logic, rfl, rfl, fun _ _ _ isComp => absurd isComp (noComp _ _ _)⟩

theorem lookedAt_comp (compType : CompType) (exprLeft exprRight : ExprData V) :
    LookedAt mapColPos (comp compType exprLeft exprRight)
      (comp (turned compType exprLeft exprRight).1 (turned compType exprLeft exprRight).2.1
        (turned compType exprLeft exprRight).2.2) := by
  refine ⟨fun _ _ _ => calcLogic_turned compType exprLeft exprRight, rfl, ?_, ?_⟩
  · unfold turned
    split
    · cases compType <;> rfl
    · rfl
  · rintro _ _ _ ⟨⟩
    rfl

theorem indexOf_turned (compType : CompType) (exprLeft exprRight : ExprData V) :
    (if (turned compType exprLeft exprRight).2.2.isConstValue then
        (turned compType exprLeft exprRight).2.1.fieldIndex mapColPos vctIndex
      else none) =
      indexOf mapColPos vctIndex (comp compType exprLeft exprRight) := by
  unfold turned indexOf
  split
  · next turns =>
      rw [Bool.and_eq_true] at turns
      simp [turns.2]
  · rfl

/-!
The loop of an AND at a condition: an AND is passed over, and what the loop does at any other
condition depends on what `PickIndexCondition` returns for it.
-/

section AndLoop

variable {pos : ℕ} {vctIL : List (ℕ × ℕ)} {logic logic' : ExprLogic V} {rest : List (ExprLogic V)}

/-- The result of the loop with a condition in front. -/
def withFront (logic : ExprLogic V)
    (result : Except Stop (List (ExprLogic V) × List (ℕ × ℕ))) :
    Except Stop (List (ExprLogic V) × List (ℕ × ℕ)) :=
  result.map fun (vctChild, vctIL) => (logic :: vctChild, vctIL)

theorem andLoop_and (isAnd : logic.isAnd = true) :
    andLoop mapColPos vctIndex pos vctIL (logic :: rest) =
      withFront logic (andLoop mapColPos vctIndex (pos + 1) vctIL rest) := by
  rw [andLoop, if_pos isAnd]
  cases andLoop mapColPos vctIndex (pos + 1) vctIL rest <;> rfl

theorem andLoop_error (notAnd : logic.isAnd = false) {stop : Stop}
    (picked : pick mapColPos vctIndex logic = .error stop) :
    andLoop mapColPos vctIndex pos vctIL (logic :: rest) = .error stop := by
  rw [andLoop, notAnd, picked]
  rfl

theorem andLoop_none (notAnd : logic.isAnd = false)
    (picked : pick mapColPos vctIndex logic = .ok (logic', none)) :
    andLoop mapColPos vctIndex pos vctIL (logic :: rest) =
      withFront logic' (andLoop mapColPos vctIndex (pos + 1) vctIL rest) := by
  rw [andLoop, notAnd, picked]
  cases andLoop mapColPos vctIndex (pos + 1) vctIL rest <;> rfl

/-- The conditions that are kept when one with the index `ipos` is found. -/
def keptFor (ipos : ℕ) (vctIL : List (ℕ × ℕ)) : List (ℕ × ℕ) :=
  if vctIL.head?.any fun il => ipos < il.2 then [] else vctIL

theorem andLoop_some (notAnd : logic.isAnd = false) {ipos : ℕ}
    (picked : pick mapColPos vctIndex logic = .ok (logic', some ipos)) :
    andLoop mapColPos vctIndex pos vctIL (logic :: rest) =
      if vctIL.head?.any fun il => il.2 < ipos then
        withFront logic' (andLoop mapColPos vctIndex (pos + 1) vctIL rest)
      else if logic.isOr then
        .ok (logic' :: rest,
          if (keptFor ipos vctIL).isEmpty then [(pos, ipos)] else keptFor ipos vctIL)
      else
        withFront logic'
          (andLoop mapColPos vctIndex (pos + 1) (keptFor ipos vctIL ++ [(pos, ipos)]) rest) := by
  rw [andLoop, notAnd, picked]
  simp only [Bool.false_eq_true, if_false, bind, Except.bind]
  by_cases less : (vctIL.head?.any fun il => il.2 < ipos) = true
  · rw [if_pos less, if_pos less]
    cases andLoop mapColPos vctIndex (pos + 1) vctIL rest <;> rfl
  · rw [if_neg less, if_neg less]
    by_cases isOr : logic.isOr = true
    · rw [if_pos isOr, if_pos isOr, keptFor]
    · rw [if_neg isOr, if_neg isOr, ← keptFor]
      cases andLoop mapColPos vctIndex (pos + 1) (keptFor ipos vctIL ++ [(pos, ipos)]) rest <;> rfl

end AndLoop

mutual

theorem pick_spec (logic : ExprLogic V) :
    (Clean mapColPos vctIndex logic → ∃ logic', pick mapColPos vctIndex logic =
        .ok (logic', indexOf mapColPos vctIndex logic) ∧ LookedAt mapColPos logic logic') ∧
      (¬Clean mapColPos vctIndex logic → pick mapColPos vctIndex logic = .error .nullPointer) := by
  match logic with
  | comp compType exprLeft exprRight =>
      refine ⟨fun _ => ⟨_, ?_, lookedAt_comp compType exprLeft exprRight⟩, fun unclean => ?_⟩
      · rw [pick, ← indexOf_turned]
      · exact absurd trivial unclean
  | inNot exprData exist bIn =>
      refine ⟨fun _ => ⟨_, ?_, LookedAt.refl nofun⟩, fun unclean => absurd trivial unclean⟩
      rw [pick, indexOf]
  | isNullNot child bNull =>
      refine ⟨fun _ => ⟨_, ?_, LookedAt.refl nofun⟩, fun unclean => absurd trivial unclean⟩
      rw [pick, indexOf]
  | between child exprLeft exprRight =>
      refine ⟨fun clean => ⟨_, ?_, LookedAt.refl nofun⟩, fun unclean => ?_⟩
      · rw [Clean] at clean
        rw [pick, indexOf, if_neg clean]
      · rw [Clean, not_not] at unclean
        rw [pick, if_pos unclean]
  | like child dvPatten bLike =>
      refine ⟨fun _ => ⟨_, ?_, LookedAt.refl nofun⟩, fun unclean => absurd trivial unclean⟩
      rw [pick, indexOf]
  | not child =>
      refine ⟨fun _ => ⟨_, ?_, LookedAt.refl nofun⟩, fun unclean => absurd trivial unclean⟩
      rw [pick, indexOf]
  | and vctChild =>
      have loop := andLoop_spec 0 [] vctChild
      constructor
      · intro clean
        rcases loop.1 clean rfl with ⟨vctChild', loopEq, same⟩
        refine ⟨and vctChild', ?_, ⟨?_, rfl, rfl, nofun⟩⟩
        · rw [pick, loopEq, indexOf]
          rfl
        · intro ops vdParas vdRow
          rw [calcLogic, calcLogic]
          exact calcAnd_congr same ops vdParas vdRow
      · intro unclean
        rw [pick]
        rcases loop.2 (Or.inl unclean) with loopEq | ⟨vctChild', il, ils, loopEq⟩
        · rw [loopEq]
          rfl
        · rw [loopEq]
          rfl
  | or first rest =>
      have head := pick_spec first
      constructor
      · rintro ⟨cleanFirst, cleanRest⟩
        rcases head.1 cleanFirst with ⟨first', firstEq, lookedAt⟩
        cases index : indexOf mapColPos vctIndex first with
        | none =>
            refine ⟨or first' rest, ?_, ⟨?_, rfl, rfl, nofun⟩⟩
            · rw [pick, firstEq, indexOf, index]
              rfl
            · intro ops vdParas vdRow
              rw [calcLogic, calcLogic, lookedAt.value]
        | some idxPos =>
            rcases (orLoop_spec idxPos rest).1 (cleanRest idxPos index) with ⟨rest', restEq, same⟩
            refine ⟨or first' rest', ?_, ⟨?_, rfl, rfl, nofun⟩⟩
            · rw [pick, firstEq, indexOf, index]
              simp only [bind, Except.bind, restEq, Option.bind_some]
            · intro ops vdParas vdRow
              rw [calcLogic, calcLogic, lookedAt.value, calcOr_congr same]
      · intro unclean
        rw [pick]
        by_cases cleanFirst : Clean mapColPos vctIndex first
        · rcases head.1 cleanFirst with ⟨first', firstEq, -⟩
          cases index : indexOf mapColPos vctIndex first with
          | none =>
              refine absurd ?_ unclean
              rw [Clean]
              refine ⟨cleanFirst, fun idxPos isIndexed => ?_⟩
              rw [index] at isIndexed
              cases isIndexed
          | some idxPos =>
              have uncleanRest : ¬CleanOr mapColPos vctIndex idxPos rest := by
                intro cleanRest
                refine unclean ?_
                rw [Clean]
                refine ⟨cleanFirst, fun other isIndexed => ?_⟩
                rw [index] at isIndexed
                cases isIndexed
                exact cleanRest
              rw [firstEq, index]
              simp only [bind, Except.bind, (orLoop_spec idxPos rest).2 uncleanRest]
        · rw [head.2 cleanFirst]
          rfl

theorem orLoop_spec (idxPos : ℕ) (rest : List (ExprLogic V)) :
    (CleanOr mapColPos vctIndex idxPos rest → ∃ rest', orLoop mapColPos vctIndex idxPos rest =
        .ok (rest', allIndexed mapColPos vctIndex idxPos rest) ∧
          List.Forall₂ (SameValue mapColPos) rest rest') ∧
      (¬CleanOr mapColPos vctIndex idxPos rest →
        orLoop mapColPos vctIndex idxPos rest = .error .nullPointer) := by
  match rest with
  | [] =>
      refine ⟨fun _ => ⟨[], ?_, List.Forall₂.nil⟩, fun unclean => absurd trivial unclean⟩
      rw [orLoop, allIndexed]
  | logic :: rest =>
      have head := pick_spec logic
      have tail := orLoop_spec idxPos rest
      constructor
      · rintro ⟨cleanLogic, cleanRest⟩
        rcases head.1 cleanLogic with ⟨logic', logicEq, lookedAt⟩
        by_cases index : indexOf mapColPos vctIndex logic = some idxPos
        · rcases tail.1 (cleanRest index) with ⟨rest', restEq, same⟩
          refine ⟨logic' :: rest', ?_, List.Forall₂.cons lookedAt.value same⟩
          rw [orLoop, logicEq, index, allIndexed, index]
          simp [bind, Except.bind, restEq]
        · refine ⟨logic' :: rest, ?_, List.Forall₂.cons lookedAt.value (forall₂_refl rest)⟩
          rw [orLoop, logicEq, allIndexed]
          simp [bind, Except.bind, index]
      · intro unclean
        rw [orLoop]
        by_cases cleanLogic : Clean mapColPos vctIndex logic
        · rcases head.1 cleanLogic with ⟨logic', logicEq, -⟩
          have both : indexOf mapColPos vctIndex logic = some idxPos ∧
              ¬CleanOr mapColPos vctIndex idxPos rest := by
            rw [CleanOr, not_and, Classical.not_imp] at unclean
            exact unclean cleanLogic
          rw [logicEq, both.1]
          simp [bind, Except.bind, tail.2 both.2]
        · rw [head.2 cleanLogic]
          rfl

/-- The loop over the conditions of an AND inside of an OR: it finds nothing, or the AND runs into
a null pointer. -/
theorem andLoop_spec (pos : ℕ) (vctIL : List (ℕ × ℕ)) (vctChild : List (ExprLogic V)) :
    (CleanAnd mapColPos vctIndex vctChild → vctIL = [] →
      ∃ vctChild', andLoop mapColPos vctIndex pos vctIL vctChild = .ok (vctChild', []) ∧
        List.Forall₂ (SameValue mapColPos) vctChild vctChild') ∧
      (¬CleanAnd mapColPos vctIndex vctChild ∨ vctIL ≠ [] →
        andLoop mapColPos vctIndex pos vctIL vctChild = .error .nullPointer ∨
          ∃ vctChild' il ils,
            andLoop mapColPos vctIndex pos vctIL vctChild = .ok (vctChild', il :: ils)) := by
  match vctChild with
  | [] =>
      rw [andLoop, CleanAnd]
      refine ⟨?_, ?_⟩
      · rintro - rfl
        exact ⟨[], rfl, List.Forall₂.nil⟩
      · intro some
        cases vctIL with
        | nil => simp at some
        | cons il ils => exact Or.inr ⟨[], il, ils, rfl⟩
  | logic :: rest =>
      have head := pick_spec logic
      have tail := fun vctIL => andLoop_spec (pos + 1) vctIL rest
      constructor
      · rintro ⟨cleanLogic, cleanRest⟩ rfl
        rcases (tail []).1 cleanRest rfl with ⟨rest', restEq, same⟩
        cases isAnd : logic.isAnd with
        | true =>
            refine ⟨logic :: rest', ?_, List.Forall₂.cons (SameValue.refl logic) same⟩
            rw [andLoop_and isAnd, restEq]
            rfl
        | false =>
            rcases cleanLogic.resolve_left (by simp [isAnd]) with ⟨clean, index⟩
            rcases head.1 clean with ⟨logic', logicEq, lookedAt⟩
            rw [index] at logicEq
            refine ⟨logic' :: rest', ?_, List.Forall₂.cons lookedAt.value same⟩
            rw [andLoop_none isAnd logicEq, restEq]
            rfl
      · intro bad
        have continues : ∀ logic' vctIL, ¬CleanAnd mapColPos vctIndex rest ∨ vctIL ≠ [] →
            withFront logic' (andLoop mapColPos vctIndex (pos + 1) vctIL rest) =
                .error .nullPointer ∨
              ∃ vctChild' il ils,
                withFront logic' (andLoop mapColPos vctIndex (pos + 1) vctIL rest) =
                  .ok (vctChild', il :: ils) := by
          intro logic' vctIL badRest
          rcases (tail vctIL).2 badRest with restEq | ⟨rest', il, ils, restEq⟩
          · exact Or.inl (by rw [restEq]; rfl)
          · exact Or.inr ⟨logic' :: rest', il, ils, by rw [restEq]; rfl⟩
        cases isAnd : logic.isAnd with
        | true =>
            rw [andLoop_and isAnd]
            refine continues logic vctIL (bad.imp_left fun unclean cleanRest => unclean ?_)
            rw [CleanAnd]
            exact ⟨Or.inl isAnd, cleanRest⟩
        | false =>
            by_cases clean : Clean mapColPos vctIndex logic
            · rcases head.1 clean with ⟨logic', logicEq, -⟩
              cases index : indexOf mapColPos vctIndex logic with
              | none =>
                  rw [index] at logicEq
                  rw [andLoop_none isAnd logicEq]
                  refine continues logic' vctIL (bad.imp_left fun unclean cleanRest => unclean ?_)
                  rw [CleanAnd]
                  exact ⟨Or.inr ⟨clean, index⟩, cleanRest⟩
              | some ipos =>
                  rw [index] at logicEq
                  rw [andLoop_some isAnd logicEq]
                  split
                  · next less =>
                      refine continues logic' vctIL (Or.inr ?_)
                      rintro rfl
                      cases less
                  · split
                    · cases keptFor ipos vctIL with
                      | nil => exact Or.inr ⟨_, _, _, rfl⟩
                      | cons il ils => exact Or.inr ⟨_, _, _, rfl⟩
                    · exact continues logic' _ (Or.inr (by simp))
            · exact Or.inl (andLoop_error isAnd (head.2 clean))

end

end ExprLogic

end RapidDb
