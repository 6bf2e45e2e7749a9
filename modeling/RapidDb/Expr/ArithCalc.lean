import RapidDb.Expr.DataSafety

/-!
# Calculation of trees of integers

A tree of arithmetic operators is a data expression. Where its leaves are signed integers, no
divisor is zero and every quotient has room, it is a safe one, and its value stands for the 64 bits
of the tree.
-/

namespace RapidDb

/-- A calculation returns a value that stands for 64 bits. -/
def Calculates (run : DataHeap → Except CalcStop (Option ℕ × DataHeap)) (heap : DataHeap)
    (peak : ℕ → ℕ) (leaf : Option ℕ) (bits : BitVec 64) : Prop :=
  ∃ ptr after dv, run heap = .ok (some ptr, after) ∧
    Returned heap after peak leaf (some ptr) (some dv) ∧ dv.Denotes bits

namespace ArithExpr

/-- The data expression that a tree is. -/
def toData : ArithExpr → DataExpr
  | const val => .const val
  | field rowPos => .field rowPos
  | parameter paraPos => .parameter paraPos
  | add exprLeft exprRight => .oper .add exprLeft.toData exprRight.toData
  | sub exprLeft exprRight => .oper .sub exprLeft.toData exprRight.toData
  | mul exprLeft exprRight => .oper .mul exprLeft.toData exprRight.toData
  | div exprLeft exprRight => .oper .div exprLeft.toData exprRight.toData
  | minus exprData => .minus exprData.toData

variable {heap : DataHeap} {vdParas vdRow : List ℕ} {newValues : NewValues} {peak : ℕ → ℕ}

theorem toData_eq (newValues : NewValues) (vdParas vdRow : List ℕ) (tree : ArithExpr) :
    tree.toData.calcData newValues vdParas vdRow = tree.calcData newValues vdParas vdRow ∧
      tree.toData.pointer vdParas vdRow = tree.pointer vdParas vdRow ∧
      ∀ other, tree.toData.peak vdParas vdRow other = tree.peak vdParas vdRow other := by
  induction tree with
  | const val | field rowPos | parameter paraPos => exact ⟨rfl, rfl, fun _ => rfl⟩
  | add exprLeft exprRight ihLeft ihRight | sub exprLeft exprRight ihLeft ihRight
  | mul exprLeft exprRight ihLeft ihRight | div exprLeft exprRight ihLeft ihRight =>
      refine ⟨?_, rfl, fun other => ?_⟩
      · simp only [toData, DataExpr.calcData, calcData, ihLeft.1, ihRight.1, DataOper.make]
      · simp only [toData, DataExpr.peak, ArithExpr.peak, ihLeft, ihRight]
  | minus exprData ih =>
      refine ⟨?_, rfl, ih.2.2⟩
      rw [toData, DataExpr.calcData, calcData, ih.1]

theorem Ready.toData {tree : ArithExpr} (ready : tree.Ready heap vdParas vdRow) :
    tree.toData.Ready vdParas vdRow heap := by
  have found {place : ℕ} (has : heap.HasSigned place) : ∃ cell, heap.cells place = some cell := by
    rcases has with ⟨dv, reads, -⟩
    rw [RefHeap.read, Option.map_eq_some_iff] at reads
    exact reads.imp fun cell both => both.1
  induction tree with
  | const val =>
      rcases found ready.1 with ⟨cell, cellEq⟩
      exact ⟨cell, cellEq, ready.2 cell cellEq⟩
  | field rowPos | parameter paraPos =>
      rcases ready with ⟨place, at_, has⟩
      exact ⟨place, (found has).choose, at_, (found has).choose_spec⟩
  | add exprLeft exprRight ihLeft ihRight | sub exprLeft exprRight ihLeft ihRight
  | mul exprLeft exprRight ihLeft ihRight | div exprLeft exprRight ihLeft ihRight =>
      exact ⟨ihLeft ready.1, ihRight ready.2⟩
  | minus exprData ih => exact @ih ready

/-- The value of a tree in a heap. -/
def DenotesIn (newValues : NewValues) (heap : DataHeap) (vdParas vdRow : List ℕ)
    (exprData : DataExpr) (bits : BitVec 64) : Prop :=
  exprData.Safe newValues heap.read vdParas vdRow ∧
    ∃ dv, exprData.denote newValues heap.read vdParas vdRow = some dv ∧ dv.Denotes bits

theorem DenotesIn.oper {left right : DataExpr} {bits1 bits2 bits : BitVec 64} {op : DataOper}
    (leftDenotes : DenotesIn newValues heap vdParas vdRow left bits1)
    (rightDenotes : DenotesIn newValues heap vdParas vdRow right bits2)
    (room : op = .div → HasQuotient bits1 bits2)
    (makes : ∀ dv1 dv2, dv1.Denotes bits1 → dv2.Denotes bits2 →
      ∃ dv, op.make newValues dv1 dv2 = .ok dv ∧ dv.Denotes bits) :
    DenotesIn newValues heap vdParas vdRow (.oper op left right) bits := by
  rcases leftDenotes with ⟨safeLeft, dv1, leftEq, denotes1⟩
  rcases rightDenotes with ⟨safeRight, dv2, rightEq, denotes2⟩
  rcases makes dv1 dv2 denotes1 denotes2 with ⟨dv, makeEq, denotes⟩
  refine ⟨⟨safeLeft, safeRight, dv1, dv2, leftEq, rightEq, ?_⟩, dv, ?_, denotes⟩
  · cases op with
    | add =>
        intro texts
        simp [denotes1.1.isStringType, denotes2.1.isStringType] at texts
    | sub | mul => trivial
    | div =>
        rintro ⟨-, -, least, minusOne⟩
        rw [denotes1.2, IDataValue.toInt_eq_intMin] at least
        rw [denotes2.2, IDataValue.toInt_eq_neg_one] at minusOne
        exact room rfl ⟨least, minusOne⟩
  · simp [DataExpr.denote, leftEq, rightEq, makeEq, Except.toOption]

theorem DenotesIn.minus {exprData : DataExpr} {bits : BitVec 64}
    (denotes : DenotesIn newValues heap vdParas vdRow exprData bits) :
    DenotesIn newValues heap vdParas vdRow (.minus exprData) bits := by
  rcases denotes with ⟨safe, data, dataEq, dataDenotes⟩
  rcases @IDataValue.minusValue_denotes newValues _ _ dataDenotes with ⟨dv, makeEq, dvDenotes⟩
  exact ⟨⟨safe, data, dataEq⟩, dv, by simp [DataExpr.denote, dataEq, makeEq], dvDenotes⟩

theorem denotesIn_leaf {place : ℕ} (has : heap.HasSigned place) :
    ∃ dv, heap.read place = some dv ∧ dv.Denotes (heap.bits (some place)) := by
  rcases has with ⟨dv, reads, signed⟩
  refine ⟨dv, reads, ?_⟩
  rw [DataHeap.bits, Option.bind_some, reads]
  exact signed.denotes

theorem denotesIn (newValues : NewValues) {tree : ArithExpr}
    (ready : tree.Ready heap vdParas vdRow)
    (operands : tree.Operands heap vdParas vdRow
      (fun left right => right ≠ 0 ∧ HasQuotient left right) fun data => True ∧ OwnNegative data) :
    DenotesIn newValues heap vdParas vdRow tree.toData (tree.value heap vdParas vdRow) := by
  induction tree with
  | const val => exact ⟨trivial, denotesIn_leaf ready.1⟩
  | field rowPos | parameter paraPos =>
      rcases ready with ⟨place, at_, has⟩
      refine ⟨trivial, ?_⟩
      simpa only [toData, DataExpr.denote, value, at_, Option.bind_some] using denotesIn_leaf has
  | add exprLeft exprRight ihLeft ihRight =>
      apply (ihLeft ready.1 operands.1).oper (ihRight ready.2 operands.2) (by simp)
      exact fun dv1 dv2 denotes1 denotes2 => IDataValue.addValues_denotes denotes1 denotes2
  | sub exprLeft exprRight ihLeft ihRight =>
      apply (ihLeft ready.1 operands.1).oper (ihRight ready.2 operands.2) (by simp)
      exact fun dv1 dv2 denotes1 denotes2 =>
        ⟨_, rfl, IDataValue.subValues_denotes denotes1 denotes2⟩
  | mul exprLeft exprRight ihLeft ihRight =>
      apply (ihLeft ready.1 operands.1).oper (ihRight ready.2 operands.2) (by simp)
      exact fun dv1 dv2 denotes1 denotes2 =>
        ⟨_, rfl, IDataValue.mulValues_denotes denotes1 denotes2⟩
  | div exprLeft exprRight ihLeft ihRight =>
      rcases operands with ⟨operandsLeft, operandsRight, notZero, hasQuotient⟩
      apply (ihLeft ready.1 operandsLeft).oper (ihRight ready.2 operandsRight) fun _ => hasQuotient
      exact fun dv1 dv2 denotes1 denotes2 =>
        IDataValue.divValues_denotes denotes1 denotes2 notZero hasQuotient
  | minus exprData ih =>
      rcases operands with ⟨operandsData, -, ownNegative⟩
      rw [value, ← (ownNegative_iff _).mp ownNegative]
      exact DenotesIn.minus (@ih ready operandsData)

theorem calculates {tree : ArithExpr} {bits : BitVec 64} (ready : tree.Ready heap vdParas vdRow)
    (denotes : DenotesIn newValues heap vdParas vdRow tree.toData bits) :
    Calculates (tree.calcData newValues vdParas vdRow) heap
      (fun other => tree.peak vdParas vdRow other) (tree.pointer vdParas vdRow) bits := by
  rcases denotes with ⟨safe, dv, denoteEq, dvDenotes⟩
  rcases DataExpr.calcData_of_safe ready.toData safe (DataHeap.Keeps.refl heap) with
    ⟨ptr, after, run, returned⟩
  rcases toData_eq newValues vdParas vdRow tree with ⟨calcEq, pointerEq, peakEq⟩
  rw [denoteEq, pointerEq] at returned
  simp only [peakEq] at returned
  rw [calcEq] at run
  rcases returned.ptr_eq with ⟨place, rfl, -⟩
  exact ⟨place, after, dv, run, returned, dvDenotes⟩

theorem Operands.and {quotient quotient' : BitVec 64 → BitVec 64 → Prop}
    {negated negated' : BitVec 64 → Prop} {tree : ArithExpr}
    (operands : tree.Operands heap vdParas vdRow quotient negated)
    (operands' : tree.Operands heap vdParas vdRow quotient' negated') :
    tree.Operands heap vdParas vdRow (fun left right => quotient left right ∧ quotient' left right)
      (fun data => negated data ∧ negated' data) := by
  induction tree with
  | const val | field rowPos | parameter paraPos => trivial
  | add exprLeft exprRight ihLeft ihRight | sub exprLeft exprRight ihLeft ihRight
  | mul exprLeft exprRight ihLeft ihRight =>
      exact ⟨ihLeft operands.1 operands'.1, ihRight operands.2 operands'.2⟩
  | div exprLeft exprRight ihLeft ihRight =>
      exact ⟨ihLeft operands.1 operands'.1, ihRight operands.2.1 operands'.2.1, operands.2.2,
        operands'.2.2⟩
  | minus exprData ih => exact ⟨ih operands.1 operands'.1, operands.2, operands'.2⟩

theorem mem_subtrees (tree : ArithExpr) : tree ∈ tree.subtrees := by
  cases tree <;> simp [subtrees]

theorem Regular.operands {tree : ArithExpr} (regular : tree.Regular heap vdParas vdRow)
    (noZero : tree.NoZeroDivisor heap vdParas vdRow) :
    tree.Operands heap vdParas vdRow
      (fun left right => right ≠ 0 ∧ HasQuotient left right) fun data => True ∧ OwnNegative data :=
  Operands.and noZero regular

theorem calcRight_of_calculates {tree : ArithExpr}
    (calculated : Calculates (tree.calcData newValues vdParas vdRow) heap (tree.peak vdParas vdRow)
      (tree.pointer vdParas vdRow) (tree.value heap vdParas vdRow)) :
    tree.CalcRight heap vdParas vdRow newValues ↔ tree.CountsFit heap vdParas vdRow := by
  rcases calculated with ⟨ptr, after, dv, run, returned, denotes⟩
  rcases returned.holds.decRef (List.mem_singleton_self ptr) with ⟨released, releaseEq, holds⟩
  have cells : ∀ other, released.cells other =
      (heap.cells other).map (RefCell.settle (tree.peak vdParas vdRow other) 0) := by
    apply RefHeap.Holds.cells_of_nil
    simpa using holds
  have restored : released.cells = heap.cells ↔ tree.CountsFit heap vdParas vdRow := by
    constructor
    · intro same other cell found
      have settled := cells other
      rw [same, found, Option.map_some, Option.some.injEq, eq_comm,
        RefCell.settle_eq_self_iff] at settled
      exact settled
    · intro fit
      funext other
      rw [cells other]
      cases found : heap.cells other with
      | none => rfl
      | some cell =>
          rw [Option.map_some, (RefCell.settle_eq_self_iff _ cell).mpr (fit other cell found)]
  constructor
  · rintro ⟨ptr', after', dv', released', run', -, -, -, -, releaseEq', same⟩
    rw [run] at run'
    cases run'
    rw [releaseEq] at releaseEq'
    cases releaseEq'
    exact restored.mp same
  · intro fit
    exact ⟨ptr, after, dv, released, run, returned.value_eq, denotes.1, denotes.2,
      fun other old => returned.holds.read_old, releaseEq, restored.mpr fit⟩

theorem CalcRight.value_eq {tree : ArithExpr} {bits : BitVec 64} {leaf : Option ℕ}
    (right : tree.CalcRight heap vdParas vdRow newValues)
    (calculated : Calculates (tree.calcData newValues vdParas vdRow) heap peak leaf bits) :
    bits = tree.value heap vdParas vdRow := by
  rcases right with ⟨ptr, after, dv, released, run, reads, -, valueEq, -⟩
  rcases calculated with ⟨ptr', after', dv', run', returned, denotes⟩
  rw [run] at run'
  cases run'
  have reads' : after.read ptr = some dv' := returned.value_eq
  rw [reads] at reads'
  cases reads'
  rw [← BitVec.toInt_inj, ← denotes.2, valueEq]

/-- A tree in which every calculation is right has regular operands: a unary minus, and a quotient
without room, would be wrong. -/
theorem regular_of_calcRight {tree : ArithExpr} (ready : tree.Ready heap vdParas vdRow)
    (noZero : tree.NoZeroDivisor heap vdParas vdRow)
    (right : ∀ sub ∈ tree.subtrees, sub.CalcRight heap vdParas vdRow newValues) :
    tree.Regular heap vdParas vdRow := by
  induction tree with
  | const val | field rowPos | parameter paraPos => trivial
  | add exprLeft exprRight ihLeft ihRight | sub exprLeft exprRight ihLeft ihRight
  | mul exprLeft exprRight ihLeft ihRight =>
      simp only [subtrees, List.mem_cons, List.mem_append] at right
      exact ⟨ihLeft ready.1 noZero.1 fun sub mem => right sub (Or.inr (Or.inl mem)),
        ihRight ready.2 noZero.2 fun sub mem => right sub (Or.inr (Or.inr mem))⟩
  | div exprLeft exprRight ihLeft ihRight =>
      simp only [subtrees, List.mem_cons, List.mem_append] at right
      have regularLeft := ihLeft ready.1 noZero.1 fun sub mem => right sub (Or.inr (Or.inl mem))
      have regularRight := ihRight ready.2 noZero.2.1 fun sub mem =>
        right sub (Or.inr (Or.inr mem))
      refine ⟨regularLeft, regularRight, ?_⟩
      intro noRoom
      rcases right _ (Or.inl rfl) with ⟨ptr, after, dv, released, run, -⟩
      rcases denotesIn newValues ready.1 (regularLeft.operands noZero.1) with
        ⟨-, dv1, leftEq, denotes1⟩
      rcases denotesIn newValues ready.2 (regularRight.operands noZero.2.1) with
        ⟨-, dv2, rightEq, denotes2⟩
      have notSafe : ¬(div exprLeft exprRight).toData.Safe newValues heap.read vdParas vdRow := by
        rintro ⟨-, -, left, right', leftEq', rightEq', room⟩
        rw [leftEq] at leftEq'
        rw [rightEq] at rightEq'
        cases leftEq'
        cases rightEq'
        rw [← IDataValue.toInt_eq_intMin, ← IDataValue.toInt_eq_neg_one, ← denotes1.2,
          ← denotes2.2] at noRoom
        exact room ⟨denotes1.1.isAutoPrimaryKey, denotes2.1.isAutoPrimaryKey, noRoom⟩
      have readyDiv : (div exprLeft exprRight).Ready heap vdParas vdRow := ready
      rcases DataExpr.calcData_of_not_safe readyDiv.toData notSafe (DataHeap.Keeps.refl heap) with
        ⟨stop, stops⟩
      rw [(toData_eq newValues vdParas vdRow _).1, run] at stops
      cases stops
  | minus exprData ih =>
      simp only [subtrees, List.mem_cons] at right
      have readyData : exprData.Ready heap vdParas vdRow := ready
      have regularData := ih readyData noZero.1 fun sub mem => right sub (Or.inr mem)
      refine ⟨regularData, ?_⟩
      have denotes := denotesIn newValues readyData (regularData.operands noZero.1)
      rw [ownNegative_iff]
      exact (right _ (Or.inl rfl)).value_eq
        (@calculates _ _ _ _ (minus exprData) _ ready denotes.minus)

theorem of_mem_subtrees {tree sub : ArithExpr} (mem : sub ∈ tree.subtrees) :
    (tree.Ready heap vdParas vdRow → sub.Ready heap vdParas vdRow) ∧
      (∀ quotient negated, tree.Operands heap vdParas vdRow quotient negated →
        sub.Operands heap vdParas vdRow quotient negated) ∧
      ∀ other, sub.peak vdParas vdRow other ≤ tree.peak vdParas vdRow other := by
  induction tree with
  | const val | field rowPos | parameter paraPos =>
      simp only [subtrees, List.mem_singleton] at mem
      subst mem
      exact ⟨id, fun _ _ => id, fun _ => le_rfl⟩
  | add exprLeft exprRight ihLeft ihRight | sub exprLeft exprRight ihLeft ihRight
  | mul exprLeft exprRight ihLeft ihRight =>
      simp only [subtrees, List.mem_cons, List.mem_append] at mem
      rcases mem with rfl | mem | mem
      · exact ⟨id, fun _ _ => id, fun _ => le_rfl⟩
      · rcases ihLeft mem with ⟨ready, operands, peakLe⟩
        refine ⟨fun both => ready both.1, fun quotient negated both =>
          operands quotient negated both.1, fun other => ?_⟩
        exact le_trans (peakLe other) (Nat.le_max_left _ _)
      · rcases ihRight mem with ⟨ready, operands, peakLe⟩
        refine ⟨fun both => ready both.2, fun quotient negated both =>
          operands quotient negated both.2, fun other => ?_⟩
        exact le_trans (peakLe other) (le_trans (Nat.le_add_left _ _) (Nat.le_max_right _ _))
  | div exprLeft exprRight ihLeft ihRight =>
      simp only [subtrees, List.mem_cons, List.mem_append] at mem
      rcases mem with rfl | mem | mem
      · exact ⟨id, fun _ _ => id, fun _ => le_rfl⟩
      · rcases ihLeft mem with ⟨ready, operands, peakLe⟩
        refine ⟨fun both => ready both.1, fun quotient negated both =>
          operands quotient negated both.1, fun other => ?_⟩
        exact le_trans (peakLe other) (Nat.le_max_left _ _)
      · rcases ihRight mem with ⟨ready, operands, peakLe⟩
        refine ⟨fun both => ready both.2, fun quotient negated both =>
          operands quotient negated both.2.1, fun other => ?_⟩
        exact le_trans (peakLe other) (le_trans (Nat.le_add_left _ _) (Nat.le_max_right _ _))
  | minus exprData ih =>
      simp only [subtrees, List.mem_cons] at mem
      rcases mem with rfl | mem
      · exact ⟨id, fun _ _ => id, fun _ => le_rfl⟩
      · rcases ih mem with ⟨ready, operands, peakLe⟩
        exact ⟨ready, fun quotient negated all => operands quotient negated all.1, peakLe⟩

/-- Every calculation in a tree of signed integers without a zero divisor is right exactly when
the operand of each unary minus is its own negative, each quotient has room, and no count comes to
the limit. -/
theorem calcRight_iff (newValues : NewValues) (heap : DataHeap) (vdParas vdRow : List ℕ)
    (tree : ArithExpr) (ready : tree.Ready heap vdParas vdRow)
    (noZero : tree.NoZeroDivisor heap vdParas vdRow) :
    (∀ sub ∈ tree.subtrees, sub.CalcRight heap vdParas vdRow newValues) ↔
      tree.Regular heap vdParas vdRow ∧ tree.CountsFit heap vdParas vdRow := by
  constructor
  · intro right
    have regular := regular_of_calcRight ready noZero right
    refine ⟨regular, ?_⟩
    have denotes := denotesIn newValues ready (regular.operands noZero)
    exact (calcRight_of_calculates (calculates ready denotes)).mp (right tree tree.mem_subtrees)
  · rintro ⟨regular, fit⟩ sub mem
    rcases of_mem_subtrees mem with ⟨readySub, operandsSub, peakLe⟩
    have calculated := calculates (readySub ready)
      (denotesIn newValues (readySub ready) (operandsSub _ _ (regular.operands noZero)))
    apply (calcRight_of_calculates calculated).mpr
    intro ptr cell found below
    have within := fit ptr cell found below
    have le := peakLe ptr
    omega

theorem sampleTree_ready : sampleTree.Ready sampleHeap [1] [0] := by
  have fieldReady : (field 0).Ready sampleHeap [1] [0] :=
    ⟨0, rfl, _, rfl, .long, _, rfl, rfl⟩
  have parameterReady : (parameter 0).Ready sampleHeap [1] [0] :=
    ⟨1, rfl, _, rfl, .short, _, rfl, rfl⟩
  have constReady : (const 2).Ready sampleHeap [1] [0] := by
    refine ⟨⟨_, rfl, .long, _, rfl, rfl⟩, ?_⟩
    intro cell found
    cases found
    rfl
  exact ⟨⟨⟨⟨fieldReady, parameterReady⟩, fieldReady⟩, constReady⟩, fieldReady, fieldReady⟩

theorem calcRight_iff_sample :
    sampleTree.subtrees.Forall fun sub => sub.CalcRight sampleHeap [1] [0] sampleValues := by
  rw [List.forall_iff_forall_mem]
  apply (calcRight_iff sampleValues sampleHeap [1] [0] sampleTree sampleTree_ready ?_).mpr
  · refine ⟨?_, ?_⟩
    · simp only [Regular, sampleTree, Operands, HasQuotient, OwnNegative, true_and]
      decide
    · intro ptr cell found below
      match ptr, found with
      | 0, found =>
          cases found
          decide
      | 1, found =>
          cases found
          decide
      | 2, found =>
          cases found
          exact absurd below (lt_irrefl _)
  · simp only [NoZeroDivisor, sampleTree, Operands, true_and]
    decide

/-- The unary minus of 6 is calculated as 6. -/
theorem not_calcRight : ¬∀ (newValues : NewValues) (heap : DataHeap) (vdParas vdRow : List ℕ)
    (tree : ArithExpr), tree.Ready heap vdParas vdRow → tree.NoZeroDivisor heap vdParas vdRow →
      tree.CalcRight heap vdParas vdRow newValues := by
  intro right
  have ready : (field 0).Ready sampleHeap [1] [0] := ⟨0, rfl, _, rfl, .long, _, rfl, rfl⟩
  have denotes := denotesIn sampleValues ready trivial
  have wrong := (right sampleValues sampleHeap [1] [0] (minus (field 0)) ready
    ⟨trivial, trivial⟩).value_eq (@calculates _ _ _ _ (minus (field 0)) _ ready denotes.minus)
  exact absurd wrong (by decide)

end ArithExpr

end RapidDb
