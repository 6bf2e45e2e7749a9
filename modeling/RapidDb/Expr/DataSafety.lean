import Mathlib.Data.List.ReduceOption
import RapidDb.Expr.Evaluation
import RapidDb.Library.HeldReferences

/-!
# Calculation of safe data expressions

A safe data expression is calculated to its value, or to a null pointer where it fails, and holds
one reference; one that is not safe comes to a stop. The induction goes over any heap that keeps
what the first one has: the calculations before an operand hold references and have made values,
but the leaves are still there.
-/

namespace RapidDb

/-! ## What a calculation does -/

namespace DataHeap

/-- The values of a heap are still there, and the constants as they were. -/
structure Keeps (base heap : DataHeap) : Prop where
  next_le : base.next ≤ heap.next
  cells : ∀ ptr cell, base.cells ptr = some cell → ∃ after, heap.cells ptr = some after
  read : ∀ ptr dv, base.read ptr = some dv → heap.read ptr = some dv
  full : ∀ ptr cell, base.cells ptr = some cell → cell.count = UINT16_MAX →
    heap.cells ptr = some cell

variable {base heap after : DataHeap} {peak : ℕ → ℕ} {held : List ℕ}

theorem Keeps.refl (heap : DataHeap) : Keeps heap heap :=
  ⟨Nat.le_refl _, fun _ cell found => ⟨cell, found⟩, fun _ _ reads => reads,
    fun _ _ found _ => found⟩

theorem Keeps.later (keeps : Keeps base heap)
    (holds : heap.Holds after peak held one_lt_UINT16_MAX) : Keeps base after := by
  refine ⟨Nat.le_trans keeps.next_le holds.next_le, ?_, ?_, ?_⟩
  · intro ptr cell found
    rcases keeps.cells ptr cell found with ⟨now, foundNow⟩
    have reads : heap.read ptr = some now.value := by rw [RefHeap.read, foundNow, Option.map_some]
    have reads' := holds.read_old reads
    rw [RefHeap.read, Option.map_eq_some_iff] at reads'
    rcases reads' with ⟨cell', found', -⟩
    exact ⟨cell', found'⟩
  · intro ptr dv reads
    exact holds.read_old (keeps.read ptr dv reads)
  · intro ptr cell found full
    exact holds.cells_full (keeps.full ptr cell found full) full

theorem decRefAll_eq (holds : heap.Holds after peak held one_lt_UINT16_MAX) :
    ∃ released, decRefAll held after = .ok released ∧
      heap.Holds released peak [] one_lt_UINT16_MAX := by
  induction held generalizing after with
  | nil => exact ⟨after, rfl, holds⟩
  | cons ptr held ih =>
      rcases holds.decRef (List.mem_cons_self) with ⟨less, decEq, holdsLess⟩
      rw [List.erase_cons_head] at holdsLess
      rcases ih holdsLess with ⟨released, releasedEq, holdsNone⟩
      refine ⟨released, ?_, holdsNone⟩
      simp only [decRefAll, decEq, orStop, bind, Except.bind, releasedEq]

end DataHeap

/-- A calculation has returned a value, or a null pointer where there is none, and holds it. -/
abbrev Returned (heap after : DataHeap) (peak : ℕ → ℕ) (leaf ptr : Option ℕ)
    (value : Option IDataValue) : Prop :=
  RefHeap.Returned heap after peak leaf ptr value one_lt_UINT16_MAX

namespace DataExpr

variable {newValues : NewValues} {vdParas vdRow : List ℕ} {base heap : DataHeap}

theorem ne_of_cells {ptr other : ℕ} {cell : RefCell UINT16_MAX IDataValue}
    (found : base.cells ptr = some cell) (isNew : base.next ≤ other) : ptr ≠ other := by
  rintro rfl
  rw [base.free ptr isNew] at found
  cases found

theorem peak_eq_zero {exprData : DataExpr} (ready : exprData.Ready vdParas vdRow base) {other : ℕ}
    (isNew : base.next ≤ other) :
    exprData.peak vdParas vdRow other = 0 ∧ exprData.pointer vdParas vdRow ≠ some other := by
  induction exprData with
  | const val =>
      rcases ready with ⟨cell, found, -⟩
      have apart := ne_of_cells found isNew
      simp [peak, pointer, apart]
  | field rowPos =>
      rcases ready with ⟨ptr, cell, atRow, found⟩
      have apart := ne_of_cells found isNew
      simp [peak, pointer, atRow, apart]
  | parameter paraPos =>
      rcases ready with ⟨ptr, cell, atParas, found⟩
      have apart := ne_of_cells found isNew
      simp [peak, pointer, atParas, apart]
  | oper op exprLeft exprRight ihLeft ihRight =>
      have left := ihLeft ready.1
      have right := ihRight ready.2
      refine ⟨?_, by simp [pointer]⟩
      simp [peak, left.1, right.1, if_neg left.2]
  | minus exprData ih => exact ⟨(ih ready).1, by simp [pointer]⟩
  | func funcName => simp [peak, pointer]

theorem returned_addRef {ptr : ℕ} {cell : RefCell UINT16_MAX IDataValue}
    (found : base.cells ptr = some cell) (keeps : base.Keeps heap) :
    ∃ after, heap.addRef (some ptr) = .ok (some ptr, after) ∧
      Returned heap after (fun other => if some ptr = some other then 1 else 0) (some ptr)
        (some ptr) (base.read ptr) := by
  have reads : base.read ptr = some cell.value := by rw [RefHeap.read, found, Option.map_some]
  rcases keeps.cells ptr cell found with ⟨now, foundNow⟩
  rcases RefHeap.Holds.addRef foundNow one_lt_UINT16_MAX with ⟨after, addEq, holds⟩
  refine ⟨after, ?_, ?_, ?_, ?_⟩
  · simp only [DataHeap.addRef, DataHeap.orStop, addEq, bind, Except.bind]
    rfl
  · simpa using holds
  · rw [Option.bind_some, reads]
    exact holds.read_old (keeps.read ptr _ reads)
  · intro other _
    exact Iff.rfl

/-- A text is no number. -/
theorem isDigital_of_isStringType {dv : IDataValue} (text : dv.isStringType = true) :
    dv.isAutoPrimaryKey = false ∧ dv.isDigital = false := by
  simp only [IDataValue.isStringType, Bool.or_eq_true, decide_eq_true_eq] at text
  rcases text with type | type
  · simp only [IDataValue.isAutoPrimaryKey, IDataValue.isDigital, type]
    decide
  · simp only [IDataValue.isAutoPrimaryKey, IDataValue.isDigital, type]
    decide

theorem addValues_eq_join {left right : IDataValue}
    (text : (left.isStringType || right.isStringType) = true) :
    addValues newValues left right = joinValues newValues left right := by
  have noNumbers : (left.isAutoPrimaryKey && right.isAutoPrimaryKey) = false ∧
      (left.isDigital && right.isDigital) = false := by
    rcases Bool.or_eq_true_iff.mp text with leftText | rightText
    · simp [isDigital_of_isStringType leftText]
    · simp [isDigital_of_isStringType rightText]
  simp [addValues, noNumbers, text]

theorem make_eq_ok {op : DataOper} {left right : IDataValue}
    (room : HasRoom newValues left right op) : ∃ dv, op.make newValues left right = .ok dv := by
  cases op with
  | add =>
      by_cases text : (left.isStringType || right.isStringType) = true
      · rcases room text with ⟨prints, joins⟩
        refine ⟨newValues.joined left right, ?_⟩
        simp [DataOper.make, addValues_eq_join text, joinValues, prints, joins]
      · simp only [DataOper.make, addValues, if_neg text]
        split
        · exact ⟨_, rfl⟩
        · split <;> exact ⟨_, rfl⟩
  | sub => exact ⟨_, rfl⟩
  | mul => exact ⟨_, rfl⟩
  | div =>
      simp only [DataOper.make, divValues]
      split
      · split
        · rename_i integers notZero
          split
          · rename_i noRoom
            simp only [Bool.and_eq_true] at integers
            exact absurd ⟨integers.1, integers.2, noRoom⟩ room
          · exact ⟨_, rfl⟩
        · exact ⟨_, rfl⟩
      · split
        · split
          · exact ⟨_, rfl⟩
          · exact ⟨_, rfl⟩
        · exact ⟨_, rfl⟩

theorem make_eq_error {op : DataOper} {left right : IDataValue}
    (noRoom : ¬HasRoom newValues left right op) :
    ∃ stop, op.make newValues left right = .error stop := by
  cases op with
  | add =>
      simp only [HasRoom, Classical.not_imp] at noRoom
      rcases noRoom with ⟨text, notBoth⟩
      rw [DataOper.make, addValues_eq_join text, joinValues]
      split
      · exact ⟨_, rfl⟩
      · rename_i prints
        split
        · rename_i joins
          exact absurd ⟨Bool.eq_false_iff.mpr prints, joins⟩ notBoth
        · exact ⟨_, rfl⟩
  | sub | mul => exact absurd trivial noRoom
  | div =>
      rw [HasRoom, not_not] at noRoom
      rcases noRoom with ⟨leftKey, rightKey, least, minusOne⟩
      refine ⟨.divideError, ?_⟩
      simp only [DataOper.make, divValues, leftKey, rightKey, Bool.and_self, if_true, minusOne,
        least]
      simp

theorem calcData_of_safe {exprData : DataExpr} (ready : exprData.Ready vdParas vdRow base)
    (safe : exprData.Safe newValues base.read vdParas vdRow) (keeps : base.Keeps heap) :
    ∃ ptr after, exprData.calcData newValues vdParas vdRow heap = .ok (ptr, after) ∧
      Returned heap after (fun other => exprData.peak vdParas vdRow other)
        (exprData.pointer vdParas vdRow) ptr
        (exprData.denote newValues base.read vdParas vdRow) := by
  induction exprData generalizing heap with
  | const val =>
      rcases ready with ⟨cell, found, full⟩
      have foundNow := keeps.full val cell found full
      have reads : base.read val = some cell.value := by rw [RefHeap.read, found, Option.map_some]
      refine ⟨some val, heap, rfl, ?_, ?_, fun other _ => Iff.rfl⟩
      · exact RefHeap.Holds.const foundNow full one_lt_UINT16_MAX
      · rw [Option.bind_some, denote, reads]
        exact keeps.read val _ reads
  | field rowPos =>
      rcases ready with ⟨ptr, cell, atRow, found⟩
      rcases returned_addRef found keeps with ⟨after, addEq, returned⟩
      refine ⟨some ptr, after, ?_, ?_⟩
      · rw [calcData, atRow]
        exact addEq
      · simpa only [peak, pointer, denote, atRow, Option.bind_some] using returned
  | parameter paraPos =>
      rcases ready with ⟨ptr, cell, atParas, found⟩
      rcases returned_addRef found keeps with ⟨after, addEq, returned⟩
      refine ⟨some ptr, after, ?_, ?_⟩
      · rw [calcData, atParas]
        exact addEq
      · simpa only [peak, pointer, denote, atParas, Option.bind_some] using returned
  | oper op exprLeft exprRight ihLeft ihRight =>
      rcases safe with ⟨safeLeft, safeRight, left, right, leftEq, rightEq, room⟩
      rcases ihLeft ready.1 safeLeft keeps with ⟨ptr1, heap1, run1, returned1⟩
      rcases ihRight ready.2 safeRight (keeps.later returned1.holds) with
        ⟨ptr2, heap2, run2, returned2⟩
      rw [leftEq] at returned1
      rw [rightEq] at returned2
      rcases returned1.ptr_eq with ⟨place1, rfl, reads1⟩
      rcases returned2.ptr_eq with ⟨place2, rfl, reads2⟩
      rcases @make_eq_ok newValues op left right room with ⟨dv, makeEq⟩
      have oldOnly : ∀ other, heap.next ≤ other → exprRight.peak vdParas vdRow other = 0 :=
        fun other isNew => (peak_eq_zero ready.2 (Nat.le_trans keeps.next_le isNew)).1
      rcases returned1.combine returned2 oldOnly dv with ⟨heap3, heap4, dec1, dec2, returned⟩
      refine ⟨some heap2.next, heap4, ?_, ?_⟩
      · simp only [calcData, calcBinary, run1, run2, bind, Except.bind, DataHeap.orStop,
          returned2.holds.read_old reads1, reads2, makeEq, dec1, dec2]
        rfl
      · simpa only [peak, pointer, denote, leftEq, rightEq, Option.bind_some, makeEq,
          Except.toOption] using returned
  | minus exprData ih =>
      rcases safe with ⟨safeData, data, dataEq⟩
      rcases ih ready safeData keeps with ⟨ptr1, heap1, run1, returned1⟩
      rw [dataEq] at returned1
      rcases returned1.ptr_eq with ⟨place, rfl, reads1⟩
      cases makeEq : minusValue newValues data with
      | none =>
          rcases returned1.holds.decRef (by simp : place ∈ (some place).toList) with
            ⟨heap2, decEq, holds⟩
          refine ⟨none, heap2, ?_, ?_, ?_, ?_⟩
          · simp only [calcData, calcMinus, run1, bind, Except.bind, DataHeap.orStop, reads1,
              makeEq, decEq]
            rfl
          · simpa [peak] using holds
          · simp [denote, dataEq, makeEq]
          · intro other _
            simp [pointer]
      | some dv =>
          rcases returned1.replace dv with ⟨heap2, decEq, returned⟩
          refine ⟨some heap1.next, heap2, ?_, ?_⟩
          · simp only [calcData, calcMinus, run1, bind, Except.bind, DataHeap.orStop, reads1,
              makeEq, decEq]
            rfl
          · simpa only [peak, pointer, denote, dataEq, Option.bind_some, makeEq] using returned
  | func funcName =>
      exact ⟨none, heap, rfl, RefHeap.Holds.refl heap one_lt_UINT16_MAX, rfl,
        fun other _ => Iff.rfl⟩

theorem calcData_of_not_safe {exprData : DataExpr} (ready : exprData.Ready vdParas vdRow base)
    (notSafe : ¬exprData.Safe newValues base.read vdParas vdRow) (keeps : base.Keeps heap) :
    ∃ stop, exprData.calcData newValues vdParas vdRow heap = .error stop := by
  induction exprData generalizing heap with
  | const val | field rowPos | parameter paraPos | func funcName => exact absurd trivial notSafe
  | oper op exprLeft exprRight ihLeft ihRight =>
      by_cases safeLeft : exprLeft.Safe newValues base.read vdParas vdRow
      · rcases calcData_of_safe ready.1 safeLeft keeps with ⟨ptr1, heap1, run1, returned1⟩
        have keeps1 := keeps.later returned1.holds
        by_cases safeRight : exprRight.Safe newValues base.read vdParas vdRow
        · rcases calcData_of_safe ready.2 safeRight keeps1 with ⟨ptr2, heap2, run2, returned2⟩
          simp only [calcData, calcBinary, run1, run2, bind, Except.bind]
          cases leftEq : exprLeft.denote newValues base.read vdParas vdRow with
          | none =>
              rw [leftEq] at returned1
              rw [returned1.ptr_none]
              exact ⟨_, rfl⟩
          | some left =>
              rw [leftEq] at returned1
              rcases returned1.ptr_eq with ⟨place1, rfl, reads1⟩
              cases rightEq : exprRight.denote newValues base.read vdParas vdRow with
              | none =>
                  rw [rightEq] at returned2
                  rw [returned2.ptr_none]
                  exact ⟨_, rfl⟩
              | some right =>
                  rw [rightEq] at returned2
                  rcases returned2.ptr_eq with ⟨place2, rfl, reads2⟩
                  have noRoom : ¬HasRoom newValues left right op := fun room =>
                    notSafe ⟨safeLeft, safeRight, left, right, leftEq, rightEq, room⟩
                  rcases make_eq_error noRoom with ⟨stop, makeEq⟩
                  simp only [DataHeap.orStop, returned2.holds.read_old reads1, reads2, makeEq]
                  exact ⟨_, rfl⟩
        · rcases ihRight ready.2 safeRight keeps1 with ⟨stop, run2⟩
          refine ⟨stop, ?_⟩
          simp only [calcData, calcBinary, run1, run2, bind, Except.bind]
      · rcases ihLeft ready.1 safeLeft keeps with ⟨stop, run1⟩
        refine ⟨stop, ?_⟩
        simp only [calcData, calcBinary, run1, bind, Except.bind]
  | minus exprData ih =>
      have readyData : exprData.Ready vdParas vdRow base := ready
      by_cases safeData : exprData.Safe newValues base.read vdParas vdRow
      · rcases calcData_of_safe readyData safeData keeps with ⟨ptr1, heap1, run1, returned1⟩
        have failed : exprData.denote newValues base.read vdParas vdRow = none := by
          rw [Option.eq_none_iff_forall_not_mem]
          exact fun data dataEq => notSafe ⟨safeData, data, dataEq⟩
        rw [failed] at returned1
        simp only [calcData, calcMinus, run1, bind, Except.bind, returned1.ptr_none]
        exact ⟨_, rfl⟩
      · rcases ih ready safeData keeps with ⟨stop, run1⟩
        refine ⟨stop, ?_⟩
        simp only [calcData, calcMinus, run1, bind, Except.bind]

/-! ## Several operands -/

variable {operands : List DataExpr}

/-- Several calculations one after the other have returned their values, and hold them. -/
structure AllReturned (heap after : DataHeap) (peak : ℕ → ℕ) (ptrs : List (Option ℕ))
    (values : List (Option IDataValue)) : Prop where
  holds : heap.Holds after peak ptrs.reduceOption one_lt_UINT16_MAX
  values_eq : ptrs.map (fun ptr => ptr.bind after.read) = values

theorem peakAll_eq_zero (ready : ∀ exprData ∈ operands, exprData.Ready vdParas vdRow base)
    {other : ℕ} (isNew : base.next ≤ other) : peakAll vdParas vdRow other operands = 0 := by
  induction operands with
  | nil => rfl
  | cons exprData rest ih =>
      rw [List.forall_mem_cons] at ready
      have first := peak_eq_zero ready.1 isNew
      simp [peakAll, first.1, if_neg first.2, ih ready.2]

theorem calcAll_of_safe
    (ready : ∀ exprData ∈ operands, exprData.Ready vdParas vdRow base)
    (safe : ∀ exprData ∈ operands, exprData.Safe newValues base.read vdParas vdRow)
    (keeps : base.Keeps heap) :
    ∃ ptrs after, calcAll newValues vdParas vdRow operands heap = .ok (ptrs, after) ∧
      AllReturned heap after (fun other => peakAll vdParas vdRow other operands) ptrs
        (operands.map (denote newValues base.read vdParas vdRow)) := by
  induction operands generalizing heap with
  | nil => exact ⟨[], heap, rfl, RefHeap.Holds.refl heap one_lt_UINT16_MAX, rfl⟩
  | cons exprData rest ih =>
      rw [List.forall_mem_cons] at ready safe
      rcases calcData_of_safe ready.1 safe.1 keeps with ⟨ptr, heap1, run1, returned1⟩
      rcases ih ready.2 safe.2 (keeps.later returned1.holds) with ⟨ptrs, after, run2, returned2⟩
      have oldOnly : ∀ other, heap.next ≤ other → peakAll vdParas vdRow other rest = 0 :=
        fun other isNew => peakAll_eq_zero ready.2 (Nat.le_trans keeps.next_le isNew)
      refine ⟨ptr :: ptrs, after, ?_, ?_, ?_⟩
      · simp only [calcAll, run1, run2, bind, Except.bind]
        rfl
      · have both := returned1.holds.trans returned2.holds oldOnly
        have together : (ptr :: ptrs).reduceOption = ptr.toList ++ ptrs.reduceOption := by
          cases ptr with
          | none => exact List.reduceOption_cons_of_none ptrs
          | some place => exact List.reduceOption_cons_of_some place ptrs
        rw [together]
        apply both.congr
        intro other below
        rw [peakAll, returned1.count_eq below]
      · rw [List.map_cons, List.map_cons, returned2.values_eq]
        congr 1
        cases value : exprData.denote newValues base.read vdParas vdRow with
        | none =>
            rw [value] at returned1
            rw [returned1.ptr_none]
            rfl
        | some dv =>
            rw [value] at returned1
            rcases returned1.ptr_eq with ⟨place, rfl, reads⟩
            exact returned2.holds.read_old reads

namespace AllReturned

variable {after : DataHeap} {peak : ℕ → ℕ} {ptrs : List (Option ℕ)}
  {values : List (Option IDataValue)}

section

variable (returned : AllReturned heap after peak ptrs values)

include returned

theorem reads {place : ℕ} (mem : some place ∈ ptrs) : ∃ dv, after.read place = some dv := by
  rcases returned.holds.points place (List.reduceOption_mem_iff.mpr mem) with ⟨cell, found⟩
  exact ⟨cell.value, by rw [RefHeap.read, found, Option.map_some]⟩

theorem isSome_eq : ptrs.map Option.isSome = values.map Option.isSome := by
  rw [← returned.values_eq, List.map_map]
  apply List.map_congr_left
  intro ptr mem
  cases ptr with
  | none => rfl
  | some place =>
      rcases returned.reads mem with ⟨dv, reads⟩
      simp [reads]

theorem all_isSome : ptrs.all Option.isSome = values.all Option.isSome := by
  have same := congrArg (List.all · id) returned.isSome_eq
  simpa [List.all_map] using same

end

end AllReturned

theorem readAll_reduceOption {after : DataHeap} {ptrs : List (Option ℕ)}
    (reads : ∀ place, some place ∈ ptrs → ∃ dv, after.read place = some dv) :
    after.readAll ptrs.reduceOption =
      .ok (ptrs.map fun ptr => ptr.bind after.read).reduceOption := by
  induction ptrs with
  | nil => rfl
  | cons ptr ptrs ih =>
      have rest := ih fun place mem => reads place (List.mem_cons_of_mem ptr mem)
      cases ptr with
      | none => simpa [List.reduceOption_cons_of_none] using rest
      | some place =>
          rcases reads place List.mem_cons_self with ⟨dv, readsFirst⟩
          simp only [DataHeap.readAll] at rest ⊢
          rw [List.reduceOption_cons_of_some, List.mapM_cons, rest, readsFirst, List.map_cons,
            Option.bind_some, readsFirst, List.reduceOption_cons_of_some]
          rfl

theorem calcAll_of_not_safe
    (ready : ∀ exprData ∈ operands, exprData.Ready vdParas vdRow base)
    (notSafe : ¬∀ exprData ∈ operands, exprData.Safe newValues base.read vdParas vdRow)
    (keeps : base.Keeps heap) :
    ∃ stop, calcAll newValues vdParas vdRow operands heap = .error stop := by
  induction operands generalizing heap with
  | nil => simp at notSafe
  | cons exprData rest ih =>
      rw [List.forall_mem_cons] at ready notSafe
      by_cases safeFirst : exprData.Safe newValues base.read vdParas vdRow
      · rcases calcData_of_safe ready.1 safeFirst keeps with ⟨ptr, heap1, run1, returned1⟩
        rcases ih ready.2 (fun safeRest => notSafe ⟨safeFirst, safeRest⟩)
          (keeps.later returned1.holds) with ⟨stop, run2⟩
        exact ⟨stop, by simp only [calcAll, run1, run2, bind, Except.bind]⟩
      · rcases calcData_of_not_safe ready.1 safeFirst keeps with ⟨stop, run1⟩
        exact ⟨stop, by simp only [calcAll, run1, bind, Except.bind]⟩

end DataExpr

end RapidDb
