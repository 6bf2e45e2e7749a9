import RapidDb.Expr.DataSafety

/-!
# Safe evaluation

An evaluation is right when it comes to no null pointer, no call on what is not a data expression
and no quotient without room, gives the truth of the expression, and leaves the counts of the
values of the row and of the parameters as they were. Exactly the safe expressions are evaluated
so, as long as no count comes to the limit.
-/

namespace RapidDb

/-! ## Conditions -/

namespace LogicExpr

/-- What an evaluation does: where it is safe it gives the truth and has released everything, or an
operator ends the program; otherwise it stops. -/
def Does (run : DataHeap → Except EvalStop (TriBool × DataHeap)) (heap : DataHeap) (safe : Prop)
    (truth : Option TriBool) (peak : ℕ → ℕ) : Prop :=
  (¬safe → ∃ stop, stop ≠ .aborted ∧ run heap = .error stop) ∧
    (safe → (truth = none → run heap = .error .aborted) ∧
      ∀ tb, truth = some tb → ∃ after, run heap = .ok (tb, after) ∧
        heap.Holds after peak [] one_lt_UINT16_MAX)

variable {newValues : NewValues} {checked : Bool} {vdParas vdRow : List ℕ} {base heap : DataHeap}

/-- The operands of a test are safe, and no null pointer among the results is used. -/
def SafeTest (newValues : NewValues) (values : ValuesAt) (vdParas vdRow : List ℕ)
    (usesNull : List Bool → Bool) (operands : List DataExpr) : Prop :=
  (∀ exprData ∈ operands, exprData.Safe newValues values vdParas vdRow) ∧
    ((operands.map (DataExpr.denote newValues values vdParas vdRow)).all Option.isSome = false →
      usesNull ((operands.map (DataExpr.denote newValues values vdParas vdRow)).map
        Option.isSome) = false)

theorem calcTest_does {operands : List DataExpr} {usesNull : List Bool → Bool}
    {judge : List IDataValue → Option TriBool}
    (ready : ∀ exprData ∈ operands, exprData.Ready vdParas vdRow base) (keeps : base.Keeps heap) :
    Does (calcTest newValues vdParas vdRow operands usesNull judge) heap
      (SafeTest newValues base.read vdParas vdRow usesNull operands)
      (DataExpr.judgeAll newValues base.read vdParas vdRow operands judge)
      fun other => DataExpr.peakAll vdParas vdRow other operands := by
  constructor
  · intro notSafe
    by_cases safe : ∀ exprData ∈ operands, exprData.Safe newValues base.read vdParas vdRow
    · rcases DataExpr.calcAll_of_safe ready safe keeps with ⟨ptrs, after, run, returned⟩
      have harm := mt (And.intro safe) notSafe
      rw [← returned.all_isSome, ← returned.isSome_eq, Classical.not_imp,
        Bool.not_eq_false] at harm
      rcases harm with ⟨notAll, used⟩
      refine ⟨.inCalc .nullPointer, by simp, ?_⟩
      simp only [calcTest, run, Except.mapError, bind, Except.bind, notAll, used]
      rfl
    · rcases DataExpr.calcAll_of_not_safe ready safe keeps with ⟨stop, run⟩
      refine ⟨.inCalc stop, by simp, ?_⟩
      simp only [calcTest, run, Except.mapError, bind, Except.bind]
  · rintro ⟨safe, notUsed⟩
    rcases DataExpr.calcAll_of_safe ready safe keeps with ⟨ptrs, after, run, returned⟩
    rcases DataHeap.decRefAll_eq returned.holds with ⟨released, decEq, holds⟩
    have read := DataExpr.readAll_reduceOption fun place => returned.reads
    rw [returned.values_eq] at read
    simp only [DataExpr.judgeAll, ← returned.all_isSome, calcTest, run, Except.mapError, bind,
      Except.bind]
    by_cases allThere : ptrs.all Option.isSome = true
    · simp only [if_pos allThere, read]
      refine ⟨?_, ?_⟩
      · intro judged
        rw [judged]
      · intro tb judged
        refine ⟨released, ?_, holds⟩
        simp only [judged, decEq]
        rfl
    · simp only [if_neg allThere]
      rw [← returned.all_isSome, ← returned.isSome_eq] at notUsed
      have unused := notUsed (Bool.eq_false_iff.mpr allThere)
      refine ⟨by simp, ?_⟩
      intro tb judged
      cases judged
      refine ⟨released, ?_, holds⟩
      simp only [unused, decEq]
      rfl

namespace Does

variable {run : DataHeap → Except EvalStop (TriBool × DataHeap)} {safe safe' : Prop}
  {truth : Option TriBool} {peak peak' : ℕ → ℕ}

theorem congr (does : Does run heap safe truth peak) (same : safe' ↔ safe) :
    Does run heap safe' truth peak := by
  rw [Does, same]
  exact does

theorem constant (tb : TriBool) :
    Does (fun heap => .ok (tb, heap)) heap True (some tb) fun _ => 0 := by
  refine ⟨fun notTrue => absurd trivial notTrue, fun _ => ⟨by simp, ?_⟩⟩
  rintro tb' ⟨⟩
  exact ⟨heap, rfl, RefHeap.Holds.refl heap one_lt_UINT16_MAX⟩

theorem map (does : Does run heap safe truth peak) (turn : TriBool → TriBool) :
    Does (fun heap => do let (tb, heap) ← run heap; return (turn tb, heap)) heap safe
      (truth.map turn) peak := by
  refine ⟨?_, ?_⟩
  · intro notSafe
    rcases does.1 notSafe with ⟨stop, notAborted, runEq⟩
    exact ⟨stop, notAborted, by simp only [runEq, bind, Except.bind]⟩
  · intro isSafe
    rcases does.2 isSafe with ⟨aborts, returns⟩
    refine ⟨?_, ?_⟩
    · intro noTruth
      rw [Option.map_eq_none_iff] at noTruth
      simp only [aborts noTruth, bind, Except.bind]
    · intro tb' turned
      rw [Option.map_eq_some_iff] at turned
      rcases turned with ⟨tb, truthEq, rfl⟩
      rcases returns tb truthEq with ⟨after, runEq, holds⟩
      refine ⟨after, ?_, holds⟩
      simp only [runEq, bind, Except.bind]
      rfl

/-- One condition after another, where the first has the value that goes on. -/
theorem next {more : DataHeap → Except EvalStop (TriBool × DataHeap)} {safeMore : Prop}
    {truthMore : Option TriBool} {peakMore : ℕ → ℕ} {goesOn : TriBool}
    (does : Does run heap safe truth peak)
    (further : ∀ after, heap.Holds after peak [] one_lt_UINT16_MAX →
      Does more after safeMore truthMore peakMore)
    (oldOnly : ∀ other, heap.next ≤ other → peakMore other = 0) :
    Does (fun heap => do
        let (tb, heap) ← run heap
        if tb = goesOn then more heap else return (tb, heap)) heap
      (safe ∧ (truth = some goesOn → safeMore))
      (if truth = some goesOn then truthMore else truth)
      fun other => max (peak other) (if truth = some goesOn then peakMore other else 0) := by
  refine ⟨?_, ?_⟩
  · intro notSafe
    by_cases isSafe : safe
    · have goes : truth = some goesOn ∧ ¬safeMore := by
        by_contra stays
        exact notSafe ⟨isSafe, fun goes => by_contra fun notMore => stays ⟨goes, notMore⟩⟩
      rcases (does.2 isSafe).2 goesOn goes.1 with ⟨after, runEq, holds⟩
      rcases (further after holds).1 goes.2 with ⟨stop, notAborted, moreEq⟩
      exact ⟨stop, notAborted, by simp only [runEq, bind, Except.bind, if_true, moreEq]⟩
    · rcases does.1 isSafe with ⟨stop, notAborted, runEq⟩
      exact ⟨stop, notAborted, by simp only [runEq, bind, Except.bind]⟩
  · rintro ⟨isSafe, safeFurther⟩
    rcases does.2 isSafe with ⟨aborts, returns⟩
    cases truth with
    | none =>
        refine ⟨fun _ => by simp only [aborts rfl, bind, Except.bind], ?_⟩
        intro tb noTruth
        cases noTruth
    | some tb =>
        rcases returns tb rfl with ⟨after, runEq, holds⟩
        by_cases goes : tb = goesOn
        · subst goes
          rcases (further after holds).2 (safeFurther rfl) with ⟨abortsMore, returnsMore⟩
          simp only [if_true, runEq, bind, Except.bind]
          refine ⟨abortsMore, ?_⟩
          intro tb' truthEq
          rcases returnsMore tb' truthEq with ⟨last, moreEq, holdsMore⟩
          refine ⟨last, moreEq, ?_⟩
          apply (holds.trans holdsMore oldOnly).congr
          intro other _
          simp
        · have stays : ¬some tb = some goesOn := fun same => goes (Option.some.inj same)
          simp only [if_neg goes, if_neg stays, runEq, bind, Except.bind]
          refine ⟨by simp, ?_⟩
          rintro tb' ⟨⟩
          refine ⟨after, rfl, holds.congr ?_⟩
          intro other _
          simp

end Does

mutual

theorem peak_eq_zero (exprLogic : LogicExpr) (ready : exprLogic.Ready vdParas vdRow base)
    {other : ℕ} (isNew : base.next ≤ other) :
    exprLogic.peak newValues checked base.read vdParas vdRow other = 0 := by
  cases exprLogic with
  | comp compType exprLeft exprRight =>
      exact DataExpr.peakAll_eq_zero (by simpa [Ready] using ready) isNew
  | inNot exprData exist bIn => exact DataExpr.peakAll_eq_zero (by simpa [Ready] using ready) isNew
  | isNullNot child bNull => exact DataExpr.peakAll_eq_zero (by simpa [Ready] using ready) isNew
  | between child exprLeft exprRight =>
      exact DataExpr.peakAll_eq_zero (by simpa [Ready] using ready) isNew
  | like child dvPatten bLike => rfl
  | not child => exact peak_eq_zero child ready isNew
  | and vctChild => exact peakAnd_eq_zero vctChild ready isNew
  | or vctChild => exact peakOr_eq_zero vctChild ready isNew

theorem peakAnd_eq_zero (vctChild : List LogicExpr) (ready : AllReady vdParas vdRow base vctChild)
    {other : ℕ} (isNew : base.next ≤ other) :
    peakAnd newValues checked base.read vdParas vdRow other vctChild = 0 := by
  cases vctChild with
  | nil => rfl
  | cons expr rest =>
      simp [peakAnd, peak_eq_zero expr ready.1 isNew, peakAnd_eq_zero rest ready.2 isNew]

theorem peakOr_eq_zero (vctChild : List LogicExpr) (ready : AllReady vdParas vdRow base vctChild)
    {other : ℕ} (isNew : base.next ≤ other) :
    peakOr newValues checked base.read vdParas vdRow other vctChild = 0 := by
  cases vctChild with
  | nil => rfl
  | cons expr rest =>
      simp [peakOr, peak_eq_zero expr ready.1 isNew, peakOr_eq_zero rest ready.2 isNew]

end

mutual

theorem calcLogic_does (exprLogic : LogicExpr) {heap : DataHeap}
    (ready : exprLogic.Ready vdParas vdRow base) (keeps : base.Keeps heap) :
    Does (exprLogic.calcLogic newValues checked vdParas vdRow) heap
      (exprLogic.Safe newValues checked base.read vdParas vdRow)
      (exprLogic.truth newValues checked base.read vdParas vdRow)
      fun other => exprLogic.peak newValues checked base.read vdParas vdRow other := by
  cases exprLogic with
  | comp compType exprLeft exprRight =>
      apply (calcTest_does (by simpa [Ready] using ready) keeps).congr
      cases left : exprLeft.denote newValues base.read vdParas vdRow <;>
        cases right : exprRight.denote newValues base.read vdParas vdRow <;>
          simp [Safe, SafeTest, bothNull, left, right]
  | inNot exprData exist bIn =>
      apply (calcTest_does (by simpa [Ready] using ready) keeps).congr
      simp [Safe, SafeTest]
  | isNullNot child bNull =>
      apply (calcTest_does (by simpa [Ready] using ready) keeps).congr
      simp [Safe, SafeTest]
  | between child exprLeft exprRight =>
      apply (calcTest_does (by simpa [Ready] using ready) keeps).congr
      simp [Safe, SafeTest]
  | like child dvPatten bLike => exact Does.constant .false
  | not child => exact (calcLogic_does child ready keeps).map flip
  | and vctChild => exact calcAnd_does vctChild ready keeps
  | or vctChild => exact calcOr_does vctChild ready keeps

theorem calcAnd_does (vctChild : List LogicExpr) {heap : DataHeap}
    (ready : AllReady vdParas vdRow base vctChild) (keeps : base.Keeps heap) :
    Does (calcAnd newValues checked vdParas vdRow vctChild) heap
      (SafeAnd newValues checked base.read vdParas vdRow vctChild)
      (truthAnd newValues checked base.read vdParas vdRow vctChild)
      fun other => peakAnd newValues checked base.read vdParas vdRow other vctChild := by
  cases vctChild with
  | nil => exact Does.constant .true
  | cons expr rest =>
      apply Does.next (calcLogic_does expr ready.1 keeps)
      · exact fun after holds => calcAnd_does rest ready.2 (keeps.later holds)
      · exact fun other isNew =>
          peakAnd_eq_zero rest ready.2 (Nat.le_trans keeps.next_le isNew)

theorem calcOr_does (vctChild : List LogicExpr) {heap : DataHeap}
    (ready : AllReady vdParas vdRow base vctChild) (keeps : base.Keeps heap) :
    Does (calcOr newValues checked vdParas vdRow vctChild) heap
      (SafeOr newValues checked base.read vdParas vdRow vctChild)
      (truthOr newValues checked base.read vdParas vdRow vctChild)
      fun other => peakOr newValues checked base.read vdParas vdRow other vctChild := by
  cases vctChild with
  | nil => exact Does.constant .false
  | cons expr rest =>
      apply Does.next (calcLogic_does expr ready.1 keeps)
      · exact fun after holds => calcOr_does rest ready.2 (keeps.later holds)
      · exact fun other isNew =>
          peakOr_eq_zero rest ready.2 (Nat.le_trans keeps.next_le isNew)

end

end LogicExpr

/-! ## Evaluations -/

namespace Evaluation

variable (newValues : NewValues) (checked : Bool) (values : ValuesAt) (vdParas vdRow : List ℕ)

/-- The leaves of the expression are values. -/
def Ready (heap : DataHeap) : Evaluation → Prop
  | condition exprLogic => exprLogic.Ready vdParas vdRow heap
  | rowData (.data exprData) | updateColumn (.data exprData) => exprData.Ready vdParas vdRow heap
  | rowData _ | updateColumn _ => True
  | pointComp exprRight | rangeComp _ exprRight => exprRight.Ready vdParas [] heap
  | rangeBetween exprLeft exprRight =>
      exprLeft.Ready vdParas [] heap ∧ exprRight.Ready vdParas [] heap

/-- The answer: that of a condition is its truth, and that of a value an error where it fails. None
is given where an operator ends the program. -/
def answer : Evaluation → Option TriBool
  | condition exprLogic => exprLogic.truth newValues checked values vdParas vdRow
  | rowData (.data exprData) | updateColumn (.data exprData) =>
      some (if exprData.denote newValues values vdParas vdRow = none then .error else .true)
  | rowData _ | updateColumn _ => some .error
  | pointComp exprRight | rangeComp _ exprRight =>
      some (if exprRight.denote newValues values vdParas [] = none then .error else .true)
  | rangeBetween exprLeft exprRight =>
      DataExpr.judgeAll newValues values vdParas [] [exprLeft, exprRight] (judgeBorders checked)

/-- The pointer is to a value whose count is at the limit. -/
def AtLimit (heap : DataHeap) (ptr : Option ℕ) : Prop :=
  ∃ place cell, ptr = some place ∧ heap.cells place = some cell ∧ cell.count = UINT16_MAX

/-- The expression is safe. A value is one of a data expression; that of a row of an INSERT and the
borders of ranges do not fail, and the border of two ranges can be released twice. -/
def Safe (heap : DataHeap) : Evaluation → Prop
  | condition exprLogic => exprLogic.Safe newValues checked heap.read vdParas vdRow
  | rowData (.data exprData) => exprData.Safe newValues heap.read vdParas vdRow ∧
      exprData.denote newValues heap.read vdParas vdRow ≠ none
  | updateColumn (.data exprData) => exprData.Safe newValues heap.read vdParas vdRow
  | rowData _ | updateColumn _ => False
  | pointComp exprRight => exprRight.Safe newValues heap.read vdParas []
  | rangeComp .NE exprRight => exprRight.Safe newValues heap.read vdParas [] ∧
      AtLimit heap (exprRight.pointer vdParas [])
  | rangeComp _ exprRight => exprRight.Safe newValues heap.read vdParas [] ∧
      exprRight.denote newValues heap.read vdParas [] ≠ none
  | rangeBetween exprLeft exprRight =>
      (exprLeft.Safe newValues heap.read vdParas [] ∧
          exprRight.Safe newValues heap.read vdParas []) ∧
        exprLeft.denote newValues heap.read vdParas [] ≠ none ∧
          exprRight.denote newValues heap.read vdParas [] ≠ none

/-- The most references to a value that are held at one time. -/
def peak (other : ℕ) : Evaluation → ℕ
  | condition exprLogic => exprLogic.peak newValues checked values vdParas vdRow other
  | rowData (.data exprData) | updateColumn (.data exprData) =>
      DataExpr.peakAll vdParas vdRow other [exprData]
  | rowData _ | updateColumn _ => 0
  | pointComp exprRight => DataExpr.peakAll vdParas [] other [exprRight]
  | rangeComp .EQ exprRight =>
      max (exprRight.peak vdParas [] other)
        (if exprRight.pointer vdParas [] = some other then 2 else 0)
  | rangeComp _ exprRight => exprRight.peak vdParas [] other
  | rangeBetween exprLeft exprRight => DataExpr.peakAll vdParas [] other [exprLeft, exprRight]

end Evaluation

/-- An expression in its place, with a row and parameters for it. -/
structure EvaluationCase where
  heap : DataHeap
  vdParas : List ℕ
  vdRow : List ℕ
  evaluation : Evaluation
  ready : evaluation.Ready vdParas vdRow heap

namespace EvaluationCase

variable (newValues : NewValues) (checked : Bool) (case : EvaluationCase)

def run : Except EvalStop (TriBool × DataHeap) :=
  case.evaluation.run newValues checked case.vdParas case.vdRow case.heap

def answer : Option TriBool :=
  case.evaluation.answer newValues checked case.heap.read case.vdParas case.vdRow

/-- The evaluation gives the answer and leaves the counts of the values of the row and of the
parameters as they were; or an operator ends the program. -/
def Right : Prop :=
  match case.run newValues checked with
  | .error stop => stop = .aborted
  | .ok (tb, after) => case.answer newValues checked = some tb ∧
      ∀ ptr ∈ case.vdRow ++ case.vdParas,
        (after.cells ptr).map RefCell.count = (case.heap.cells ptr).map RefCell.count

def IsSafe : Prop :=
  case.evaluation.Safe newValues checked case.vdParas case.vdRow case.heap

/-- An evaluation that comes to an end brings no count of a value of the row or the parameters to
the limit. -/
def CountsFit : Prop :=
  case.answer newValues checked ≠ none → ∀ ptr ∈ case.vdRow ++ case.vdParas, ∀ cell,
    case.heap.cells ptr = some cell → cell.count < UINT16_MAX →
      cell.count +
          case.evaluation.peak newValues checked case.heap.read case.vdParas case.vdRow ptr <
        UINT16_MAX

section Elements

variable {vdParas vdRow : List ℕ} {heap : DataHeap} {exprData exprRight : DataExpr}

/-- One operand, which is true when it has a value. -/
theorem calcOne_does (ready : exprData.Ready vdParas vdRow heap) (usesNull : Bool) :
    LogicExpr.Does
      (LogicExpr.calcTest newValues vdParas vdRow [exprData] (fun _ => usesNull)
        fun _ => some .true)
      heap
      (exprData.Safe newValues heap.read vdParas vdRow ∧
        (exprData.denote newValues heap.read vdParas vdRow = none → usesNull = false))
      (some
        (if exprData.denote newValues heap.read vdParas vdRow = none then .error else .true))
      fun other => DataExpr.peakAll vdParas vdRow other [exprData] := by
  have judged : DataExpr.judgeAll newValues heap.read vdParas vdRow [exprData]
      (fun _ => some .true) =
        some (if exprData.denote newValues heap.read vdParas vdRow = none then .error
          else .true) := by
    cases value : exprData.denote newValues heap.read vdParas vdRow <;>
      simp [DataExpr.judgeAll, value]
  rw [← judged]
  have readyAll : ∀ other ∈ [exprData], other.Ready vdParas vdRow heap := by simpa using ready
  apply (LogicExpr.calcTest_does readyAll (DataHeap.Keeps.refl heap)).congr
  simp [LogicExpr.SafeTest]

theorem rangeBetween_does {exprLeft : DataExpr}
    (ready : exprLeft.Ready vdParas [] heap ∧ exprRight.Ready vdParas [] heap) :
    LogicExpr.Does
      (LogicExpr.calcTest newValues vdParas [] [exprLeft, exprRight] (fun _ => true)
        (judgeBorders checked))
      heap
      ((Evaluation.rangeBetween exprLeft exprRight).Safe newValues checked vdParas vdRow heap)
      (DataExpr.judgeAll newValues heap.read vdParas [] [exprLeft, exprRight]
        (judgeBorders checked))
      fun other => DataExpr.peakAll vdParas [] other [exprLeft, exprRight] := by
  have readyAll : ∀ other ∈ [exprLeft, exprRight], other.Ready vdParas [] heap := by
    simpa using ready
  apply (LogicExpr.calcTest_does readyAll (DataHeap.Keeps.refl heap)).congr
  simp [LogicExpr.SafeTest, Evaluation.Safe, Option.ne_none_iff_isSome]

/-! ### Ranges -/

/-- What comes of the value that a comparison is made ranges of. -/
theorem rangeComp_stops {compType : CompType} (ready : exprRight.Ready vdParas [] heap)
    (notSafe : ¬(exprRight.Safe newValues heap.read vdParas [] ∧
      exprRight.denote newValues heap.read vdParas [] ≠ none)) :
    ∃ stop, stop ≠ .aborted ∧
      (Evaluation.rangeComp compType exprRight).run newValues checked vdParas vdRow heap =
        .error stop := by
  by_cases safe : exprRight.Safe newValues heap.read vdParas []
  · have failed : exprRight.denote newValues heap.read vdParas [] = none := by
      by_contra there
      exact notSafe ⟨safe, there⟩
    rcases DataExpr.calcData_of_safe ready safe (DataHeap.Keeps.refl heap) with
      ⟨ptr, after, run, returned⟩
    rw [failed] at returned
    refine ⟨.inCalc .nullPointer, by simp, ?_⟩
    simp only [Evaluation.run, run, returned.ptr_none, Except.mapError, bind, Except.bind]
    rfl
  · rcases DataExpr.calcData_of_not_safe ready safe (DataHeap.Keeps.refl heap) with ⟨stop, run⟩
    refine ⟨.inCalc stop, by simp, ?_⟩
    simp only [Evaluation.run, run, Except.mapError, bind, Except.bind]

theorem rangeComp_eq {compType : CompType} {place : ℕ} {after borders released : DataHeap}
    {held : List ℕ}
    (run : exprRight.calcData newValues vdParas [] heap = .ok (some place, after))
    (takes : compType.borders place after = .ok (held, borders))
    (releases : DataHeap.decRefAll held borders = .ok released) :
    (Evaluation.rangeComp compType exprRight).run newValues checked vdParas vdRow heap =
      .ok (.true, released) := by
  simp only [Evaluation.run, run, Except.mapError, bind, Except.bind, DataHeap.orStop, takes,
    releases]
  rfl

/-- The value of an equation is the border twice, with a reference for each. -/
theorem borders_EQ {after : DataHeap} {peak : ℕ → ℕ} {place : ℕ}
    (holds : heap.Holds after peak [place] one_lt_UINT16_MAX) :
    ∃ borders released, CompType.EQ.borders place after = .ok ([place, place], borders) ∧
      DataHeap.decRefAll [place, place] borders = .ok released ∧
      heap.Holds released
        (fun other => max (peak other)
          ([place].count other + if place = other then 1 else 0)) [] one_lt_UINT16_MAX := by
  rcases holds.points place List.mem_cons_self with ⟨cell, found⟩
  rcases RefHeap.Holds.addRef found one_lt_UINT16_MAX with ⟨borders, addEq, more⟩
  rcases more.decRef List.mem_cons_self with ⟨heap1, dec1, less⟩
  rw [List.erase_cons_head] at less
  have both := holds.follow less fun ptr _ _ => by
    refine ⟨List.not_mem_nil, ?_⟩
    split <;> decide
  rw [List.append_nil] at both
  rcases both.decRef List.mem_cons_self with ⟨released, dec2, none⟩
  rw [List.erase_cons_head] at none
  refine ⟨borders, released, ?_, ?_, none⟩
  · simp only [CompType.borders, DataHeap.addRef, DataHeap.orStop, addEq, bind, Except.bind]
    rfl
  · simp only [DataHeap.decRefAll, DataHeap.orStop, dec1, dec2, bind, Except.bind]

/-- The value of a comparison that is not `<>` is a border of one range. -/
theorem rangeComp_does {compType : CompType} (notNE : compType ≠ .NE)
    (ready : exprRight.Ready vdParas [] heap) :
    LogicExpr.Does
      (fun heap =>
        (Evaluation.rangeComp compType exprRight).run newValues checked vdParas vdRow heap)
      heap
      (exprRight.Safe newValues heap.read vdParas [] ∧
        exprRight.denote newValues heap.read vdParas [] ≠ none)
      (some
        (if exprRight.denote newValues heap.read vdParas [] = none then .error else .true))
      fun other =>
        (Evaluation.rangeComp compType exprRight).peak newValues checked heap.read vdParas vdRow
          other := by
  refine ⟨rangeComp_stops newValues checked ready, ?_⟩
  rintro ⟨safe, there⟩
  refine ⟨by simp, ?_⟩
  rw [if_neg there]
  rintro tb ⟨⟩
  rcases DataExpr.calcData_of_safe ready safe (DataHeap.Keeps.refl heap) with
    ⟨ptr, after, run, returned⟩
  rcases Option.ne_none_iff_exists'.mp there with ⟨dv, value⟩
  rw [value] at returned
  rcases returned.ptr_eq with ⟨place, rfl, -⟩
  cases compType with
  | NE => exact absurd rfl notNE
  | GT | GE | LT | LE =>
      rcases DataHeap.decRefAll_eq returned.holds with ⟨released, decEq, holds⟩
      exact ⟨released, rangeComp_eq newValues checked run rfl decEq, holds⟩
  | EQ =>
      rcases borders_EQ returned.holds with ⟨borders, released, takes, releases, holds⟩
      refine ⟨released, rangeComp_eq newValues checked run takes releases, holds.congr ?_⟩
      intro other below
      have once := returned.count_eq below
      rw [Option.toList_some] at once
      have isLeaf := returned.leaf_iff other below
      rw [Option.some.injEq] at isLeaf
      rw [Evaluation.peak, once]
      simp only [isLeaf]
      split <;> rfl

/-! A `<>` -/

theorem denote_of_pointer (ready : exprRight.Ready vdParas [] heap) {place : ℕ}
    (pointer : exprRight.pointer vdParas [] = some place) :
    ∃ cell, heap.cells place = some cell ∧
      exprRight.denote newValues heap.read vdParas [] = some cell.value ∧
        (place ∈ vdParas ∨ cell.count = UINT16_MAX) := by
  cases exprRight with
  | const val =>
      rcases ready with ⟨cell, found, full⟩
      cases pointer
      exact ⟨cell, found, by simp [DataExpr.denote, RefHeap.read, found], Or.inr full⟩
  | field rowPos => cases pointer
  | parameter paraPos =>
      rcases ready with ⟨ptr, cell, atParas, found⟩
      rw [DataExpr.pointer, atParas, Option.some.injEq] at pointer
      subst pointer
      refine ⟨cell, found, ?_, Or.inl (List.mem_of_getElem? atParas)⟩
      simp [DataExpr.denote, atParas, RefHeap.read, found]
  | oper op exprLeft exprRight => cases pointer
  | minus exprData => cases pointer
  | func funcName => cases pointer

/-- A value that has been made for a `<>` is gone when it is released again. -/
theorem rangeComp_ne_of_new {after : DataHeap} {peak : ℕ → ℕ} {place : ℕ} {dv : IDataValue}
    (run : exprRight.calcData newValues vdParas [] heap = .ok (some place, after))
    (returned : Returned heap after peak none (some place) (some dv)) :
    (Evaluation.rangeComp .NE exprRight).run newValues checked vdParas vdRow heap =
      .error (.inCalc .deletedValue) := by
  have isNew : heap.next ≤ place := by
    by_contra below
    cases (returned.leaf_iff place (Nat.lt_of_not_le below)).mpr rfl
  rcases returned.holds.decRef (by simp : place ∈ (some place).toList) with ⟨once, dec1, holds⟩
  simp only [Option.toList_some, List.erase_cons_head] at holds
  simp only [Evaluation.run, run, Except.mapError, bind, Except.bind, DataHeap.orStop,
    CompType.borders, DataHeap.decRefAll, dec1,
    RefHeap.decRef_eq_none (holds.gone place isNew List.not_mem_nil)]

/-- One that was there before is released a second time without a reference. -/
theorem rangeComp_ne_of_old (vdRow : List ℕ) {after : DataHeap} {peak : ℕ → ℕ} {place : ℕ}
    {cell : RefCell UINT16_MAX IDataValue}
    (run : exprRight.calcData newValues vdParas [] heap = .ok (some place, after))
    (held : heap.Holds after peak [place] one_lt_UINT16_MAX)
    (found : heap.cells place = some cell) :
    ∃ once twice,
      (Evaluation.rangeComp .NE exprRight).run newValues checked vdParas vdRow heap =
        .ok (.true, twice) ∧
      heap.Holds once peak [] one_lt_UINT16_MAX ∧
      ∀ other, twice.cells other =
        if other = place then (cell.settle (peak place) 0).dec else once.cells other := by
  rcases held.decRef List.mem_cons_self with ⟨once, dec1, holds⟩
  rw [List.erase_cons_head] at holds
  have onceCell := holds.cells_of_nil place
  rw [found, Option.map_some] at onceCell
  rcases RefHeap.decRef_eq onceCell with ⟨twice, dec2, -, cells⟩
  refine ⟨once, twice, ?_, holds, cells⟩
  apply rangeComp_eq newValues checked run rfl
  simp only [DataHeap.decRefAll, dec1, dec2, DataHeap.orStop, bind, Except.bind]

end Elements

theorem does (notNE : ∀ exprRight, case.evaluation ≠ .rangeComp .NE exprRight) :
    LogicExpr.Does
      (fun heap => case.evaluation.run newValues checked case.vdParas case.vdRow heap) case.heap
      (case.IsSafe newValues checked) (case.answer newValues checked)
      fun other =>
        case.evaluation.peak newValues checked case.heap.read case.vdParas case.vdRow other := by
  rcases case with ⟨heap, vdParas, vdRow, evaluation, ready⟩
  cases evaluation with
  | condition exprLogic =>
      exact LogicExpr.calcLogic_does exprLogic ready (DataHeap.Keeps.refl heap)
  | rowData elem =>
      cases elem with
      | data exprData =>
          apply (calcOne_does newValues ready true).congr
          simp [IsSafe, Evaluation.Safe]
      | logic exprLogic => exact ⟨fun _ => ⟨.notData, by simp, rfl⟩, False.elim⟩
      | aggr exprData => exact ⟨fun _ => ⟨.notData, by simp, rfl⟩, False.elim⟩
  | updateColumn elem =>
      cases elem with
      | data exprData =>
          apply (calcOne_does newValues ready false).congr
          simp [IsSafe, Evaluation.Safe]
      | logic exprLogic => exact ⟨fun _ => ⟨.notData, by simp, rfl⟩, False.elim⟩
      | aggr exprData => exact ⟨fun _ => ⟨.notData, by simp, rfl⟩, False.elim⟩
  | pointComp exprRight =>
      apply (calcOne_does newValues ready false).congr
      simp [IsSafe, Evaluation.Safe]
  | rangeBetween exprLeft exprRight => exact rangeBetween_does newValues checked ready
  | rangeComp compType exprRight =>
      have other : compType ≠ .NE := by
        rintro rfl
        exact notNE exprRight rfl
      apply (rangeComp_does newValues checked other ready).congr
      cases compType with
      | NE => exact absurd rfl other
      | EQ | GT | GE | LT | LE => exact Iff.rfl

/-- After all has been released, the count of a value is as before when as many references as have
been held fit below the limit. -/
theorem count_eq_iff {heap after : DataHeap} {peak : ℕ → ℕ}
    (holds : heap.Holds after peak [] one_lt_UINT16_MAX) (ptr : ℕ) :
    (after.cells ptr).map RefCell.count = (heap.cells ptr).map RefCell.count ↔
      ∀ cell, heap.cells ptr = some cell → cell.count < UINT16_MAX →
        cell.count + peak ptr < UINT16_MAX := by
  rcases Nat.lt_or_ge ptr heap.next with below | isNew
  · rw [holds.old ptr below, List.count_nil]
    cases heap.cells ptr with
    | none => simp
    | some cell =>
        have same : (cell.settle (peak ptr) 0).count = cell.count ↔
            cell.settle (peak ptr) 0 = cell := by
          rw [RefCell.ext_iff]
          exact ⟨fun count => ⟨rfl, count⟩, fun both => both.2⟩
        simp [same, RefCell.settle_eq_self_iff]
  · simp [holds.gone ptr isNew (by simp), heap.free ptr isNew]

theorem right_iff_of_does (notNE : ∀ exprRight, case.evaluation ≠ .rangeComp .NE exprRight) :
    case.Right newValues checked ↔
      case.IsSafe newValues checked ∧ case.CountsFit newValues checked := by
  have does := case.does newValues checked notNE
  by_cases safe : case.IsSafe newValues checked
  · rcases does.2 safe with ⟨aborts, returns⟩
    cases answer : case.answer newValues checked with
    | none => simp [Right, run, aborts answer, CountsFit, answer, safe]
    | some tb =>
        rcases returns tb answer with ⟨after, runEq, holds⟩
        simp only [Right, run, runEq, answer, true_and, safe, CountsFit, ne_eq, reduceCtorEq,
          not_false_eq_true, forall_const]
        apply forall_congr'
        intro ptr
        apply imp_congr_right
        intro mem
        exact count_eq_iff holds ptr
  · rcases does.1 safe with ⟨stop, notAborted, runEq⟩
    simp [Right, run, runEq, notAborted, safe]

/-- The value of a `<>` is released twice: it has to be one whose count stays at the limit. -/
theorem right_iff_of_ne {exprRight : DataExpr}
    (isNE : case.evaluation = .rangeComp .NE exprRight) :
    case.Right newValues checked ↔
      case.IsSafe newValues checked ∧ case.CountsFit newValues checked := by
  rcases case with ⟨heap, vdParas, vdRow, evaluation, ready⟩
  subst isNE
  have readyRight : exprRight.Ready vdParas [] heap := ready
  by_cases safe : exprRight.Safe newValues heap.read vdParas [] ∧
    exprRight.denote newValues heap.read vdParas [] ≠ none
  · rcases DataExpr.calcData_of_safe readyRight safe.1 (DataHeap.Keeps.refl heap) with
      ⟨ptr, after, run, returned⟩
    rcases Option.ne_none_iff_exists'.mp safe.2 with ⟨dv, value⟩
    rw [value] at returned
    rcases returned.ptr_eq with ⟨place, rfl, -⟩
    cases pointer : exprRight.pointer vdParas [] with
    | none =>
        have notSafe : ¬IsSafe newValues checked ⟨heap, vdParas, vdRow, _, ready⟩ := by
          rintro ⟨-, ptr, cell, isPointer, -⟩
          rw [pointer] at isPointer
          cases isPointer
        rw [pointer] at returned
        have runEq : (Evaluation.rangeComp .NE exprRight).run newValues checked vdParas vdRow heap =
            .error (.inCalc .deletedValue) :=
          rangeComp_ne_of_new newValues checked run returned
        simp [Right, EvaluationCase.run, runEq, notSafe]
    | some ptr =>
        rcases denote_of_pointer newValues readyRight pointer with ⟨cell, found, -, mem⟩
        obtain rfl : place = ptr :=
          Option.some.inj ((returned.leaf_iff ptr (RefHeap.lt_next found)).mp pointer)
        rcases rangeComp_ne_of_old newValues checked vdRow run returned.holds found with
          ⟨once, twice, runEq, holds, cells⟩
        by_cases full : cell.count = UINT16_MAX
        · have same : twice.cells = once.cells := by
            funext other
            rw [cells other]
            split
            · subst other
              rw [holds.cells_of_nil place, found, Option.map_some, RefCell.settle_full _ _ full,
                RefCell.dec, if_pos full]
            · rfl
          have isSafe : IsSafe newValues checked ⟨heap, vdParas, vdRow, _, ready⟩ :=
            ⟨safe.1, place, cell, pointer, found, full⟩
          simp only [Right, EvaluationCase.run, runEq, answer, Evaluation.answer, if_neg safe.2,
            true_and, isSafe, CountsFit, ne_eq, reduceCtorEq, not_false_eq_true, forall_const, same]
          apply forall_congr'
          intro other
          apply imp_congr_right
          intro _
          exact count_eq_iff holds other
        · have notSafe : ¬IsSafe newValues checked ⟨heap, vdParas, vdRow, _, ready⟩ := by
            rintro ⟨-, other, otherCell, isPointer, otherFound, atLimit⟩
            rw [pointer, Option.some.injEq] at isPointer
            subst isPointer
            rw [found, Option.some.injEq] at otherFound
            subst otherFound
            exact full atLimit
          have notRight : ¬Right newValues checked ⟨heap, vdParas, vdRow, _, ready⟩ := by
            simp only [Right, EvaluationCase.run, runEq]
            rintro ⟨-, counts⟩
            have count := counts place
              (List.mem_append_right vdRow (mem.resolve_right full))
            rw [cells place, if_pos rfl, found, Option.map_some] at count
            exact RefCell.dec_settle_ne _ (Nat.lt_of_le_of_ne cell.count_le full) count
          exact ⟨fun right => absurd right notRight, fun both => absurd both.1 notSafe⟩
  · have stops : ∃ stop, stop ≠ .aborted ∧
        (Evaluation.rangeComp .NE exprRight).run newValues checked vdParas vdRow heap =
          .error stop :=
      rangeComp_stops newValues checked readyRight safe
    rcases stops with ⟨stop, notAborted, runEq⟩
    have notSafe : ¬IsSafe newValues checked ⟨heap, vdParas, vdRow, _, ready⟩ := by
      rintro ⟨isSafe, ptr, cell, pointer, -⟩
      rcases denote_of_pointer newValues readyRight pointer with ⟨cell', -, value, -⟩
      exact safe ⟨isSafe, by simp [value]⟩
    simp [Right, EvaluationCase.run, runEq, notAborted, notSafe]

/-- An evaluation is right when the expression is safe and the counts fit. -/
theorem right_iff : case.Right newValues checked ↔
    case.IsSafe newValues checked ∧ case.CountsFit newValues checked := by
  by_cases isNE : ∃ exprRight, case.evaluation = .rangeComp .NE exprRight
  · rcases isNE with ⟨exprRight, isNE⟩
    exact right_iff_of_ne newValues checked case isNE
  · exact right_iff_of_does newValues checked case (not_exists.mp isNE)

/-- The condition `-'a' = -'b'`: the minus of a text is a null pointer. -/
def bothFail : EvaluationCase where
  heap :=
    { cells := fun ptr =>
        if ptr < 2 then
          some ⟨.varChar (some [97 + Fin.ofNat 256 ptr]), UINT16_MAX, zero_lt_UINT16_MAX,
            Nat.le_refl _⟩
        else none
      next := 2
      free := by
        intro ptr le
        rw [if_neg (by omega)] }
  vdParas := []
  vdRow := []
  evaluation := .condition (.comp .EQ (.minus (.const 0)) (.minus (.const 1)))
  ready := ⟨⟨_, rfl, rfl⟩, ⟨_, rfl, rfl⟩⟩

/-- Both operands are null, and the right one is released. -/
theorem not_right_bothFail : ¬bothFail.Right ArithExpr.sampleValues true := by
  intro right
  cases right

end EvaluationCase

end RapidDb
