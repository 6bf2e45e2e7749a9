import Mathlib.Tactic.Common
import RapidDb.Expr.ExprStatement
import RapidDb.Expr.WhereSplit

/-!
# Selected columns of one table

`ExprTableSelect::Preprocess` sets the positions of the columns for `SELECT *`. For a list it sets
the positions of the fields in the expressions, and the columns keep the -1 of their constructor;
`HandleLeafRecord` takes the values of a row by the positions of the columns and evaluates no
expression. Looking for the fields of `COUNT(*)` goes through its null pointer, and that of a call
without parameters through the list that is not there. The scan starts from the search of an index,
and follows it also where there is none.

The text of an error is that of the last message of the thread. Calculating a condition leaves none,
so that the text is taken from a null pointer, or from the message of an earlier statement. A row is
one that the scan has come to, and taking a value of it is the same whether the value is shared or
copied.
-/

namespace RapidDb

namespace ExprLogic

variable {V : Type}

mutual

/-- The data expressions that are calculated to search an index for a condition. -/
def operands : ExprLogic V → List (ExprData V)
  | comp _ _ exprRight => [exprRight]
  | between _ exprLeft exprRight => [exprLeft, exprRight]
  | and vctChild => operandsOf vctChild
  | or first rest => first.operands ++ operandsOf rest
  | inNot _ _ _ | isNullNot _ _ | like _ _ _ | not _ => []

def operandsOf : List (ExprLogic V) → List (ExprData V)
  | [] => []
  | logic :: rest => logic.operands ++ operandsOf rest

end

end ExprLogic

namespace ExprCache

/-! ## Outcomes -/

section Outcomes

variable {β γ : Type}

/-- The outcome is an error or a result of which something holds. -/
def Proper (outcome : Outcome β) (right : β → Prop) : Prop :=
  match outcome.run with
  | .error _ => False
  | .ok none => True
  | .ok (some result) => right result

@[simp]
theorem proper_pure (result : β) (right : β → Prop) :
    Proper (pure result) right ↔ right result := Iff.rfl

@[simp]
theorem proper_orError (value : Option β) (right : β → Prop) :
    Proper (orError value) right ↔ ∀ result, value = some result → right result := by
  cases value with
  | none => simp [Proper, orError, pure, Except.pure]
  | some result => simp [Proper, orError, pure, Except.pure]

@[simp]
theorem proper_stopped (right : β → Prop) : Proper stopped right ↔ False := Iff.rfl

@[simp]
theorem proper_bind (outcome : Outcome β) (further : β → Outcome γ) (right : γ → Prop) :
    Proper (outcome >>= further) right ↔
      Proper outcome fun result => Proper (further result) right := by
  simp only [Proper, OptionT.run_bind, Option.elimM]
  cases outcome.run with
  | error stop => rfl
  | ok result =>
      cases result with
      | none => rfl
      | some result => rfl

@[simp]
theorem proper_map (outcome : Outcome β) (further : β → γ) (right : γ → Prop) :
    Proper (further <$> outcome) right ↔ Proper outcome fun result => right (further result) := by
  rw [map_eq_pure_bind, proper_bind]
  rfl

theorem proper_congr {outcome : Outcome β} {right right' : β → Prop}
    (same : ∀ result, outcome.run = .ok (some result) → (right result ↔ right' result)) :
    Proper outcome right ↔ Proper outcome right' := by
  unfold Proper
  cases found : outcome.run with
  | error stop => rfl
  | ok result =>
      cases result with
      | none => rfl
      | some result => exact same result found

end Outcomes

/-! ## The statement and its rows -/

structure ExprTableSelect (V : Type) where
  /-- The parameters in the text. -/
  paraNum : ℕ
  exprTable : ExprTable
  /-- None for `SELECT *`. -/
  vctCol : Option (List (ExprColumn V))
  exprWhere : Option (ExprLogic V)
  groupBy : Option (ExprGroupBy V)
  orderBy : List String

/-- A row has a value for each column of its table. -/
structure StoredRow (V : Type) (table : PhysTable) where
  vdv : List V
  length_eq : vdv.length = table.vctColumn.length

variable {V : Type}

namespace ExprElem

/-- The value of a selected expression on a row. What a condition or an aggregate counts as a value
is given by `other`. -/
def value (other : ExprElem V → Option V) (mapColPos : String → Option ℕ) (vdParas vdRow : List V) :
    ExprElem V → Option V
  | data exprData => exprData.calcData mapColPos vdParas vdRow
  | elem => other elem

end ExprElem

/-- What the scan meets: whether a value can be copied into a column of the key, and whether the
threads of the session and of the index have the message of an earlier error. -/
structure ScanState (V : Type) where
  copies : ℕ → V → Bool
  sessionMsg : Bool
  indexMsg : Bool

def valueAt (vdv : List V) (pos : ℤ) : Option V := if pos < 0 then none else vdv[pos.toNat]?

namespace ExprTableSelect

variable (exprSel : ExprTableSelect V)

def stmt : SqlStmt V :=
  .select (some [exprSel.exprTable]) exprSel.vctCol exprSel.exprWhere exprSel.groupBy
    exprSel.orderBy

/-- The `_pos` of the columns after `Preprocess`. -/
def vctPos (bound : Bound V) : List ℤ :=
  match exprSel.vctCol with
  | none => bound.columns.map fun column => column.1
  | some vctCol => vctCol.map fun _ => -1

/-- The loop over the point conditions with the columns of the key. The result is false when a value
is refused. -/
def pointKey (scan : ScanState V) (mapColPos : String → Option ℕ) (vdParas : List V) :
    List (ExprData V × ℕ) → Except Unit Bool
  | [] => .ok true
  | (exprData, pos) :: rest =>
      match exprData.calcData mapColPos vdParas [] with
      | none => if scan.sessionMsg then .ok false else .error ()
      | some dv =>
          if scan.copies pos dv then pointKey scan mapColPos vdParas rest else .ok false

/-- The values for the ranges of a condition are used without a test. -/
def rangeKey (mapColPos : String → Option ℕ) (vdParas : List V) (operands : List (ExprData V)) :
    Except Unit Bool :=
  if operands.all fun exprData => (exprData.calcData mapColPos vdParas []).isSome then .ok true
  else .error ()

/-- The start of the scan in `SessionExec`. The result is false when the number of the parameters or
a value is refused. -/
def startScan (scan : ScanState V) (mapColPos : String → Option ℕ) (vdParas : List V)
    (bound : Bound V) : Except Unit Bool :=
  if vdParas.length ≠ exprSel.paraNum then
    .ok false
  else
    match bound.exprWhere.bind ExprWhere.indexSearch with
    | none => .error ()
    | some search =>
        match search.vctPointCond with
        | some vctPointCond =>
            pointKey scan mapColPos vdParas (ExprLogic.operandsOf vctPointCond).zipIdx
        | none => rangeKey mapColPos vdParas (ExprLogic.operandsOf search.idxLogic.toList)

/-- What is left of the condition, for a row. -/
def residual (ops : DataOps V) (mapColPos : String → Option ℕ) (vdParas vdv : List V)
    (exprWhere : ExprWhere V) : TriBool :=
  exprWhere.exprLogic.elim .true fun exprLogic => exprLogic.calcLogic ops mapColPos vdParas vdv

/-- `HandleLeafRecord` of a row that can be read. It stops where it goes through a null pointer or
takes a value that is not in the row; the result is none when no row is added. -/
def handleLeafRecord (scan : ScanState V) (ops : DataOps V) (mapColPos : String → Option ℕ)
    (vdParas : List V) (bound : Bound V) (vdv : List V) : Except Unit (Option (List V)) :=
  match bound.exprWhere with
  | none => .error ()
  | some exprWhere =>
      match residual ops mapColPos vdParas vdv exprWhere with
      | .error => if scan.indexMsg then .ok none else .error ()
      | .false => .ok none
      | .true =>
          match (exprSel.vctPos bound).mapM (valueAt vdv) with
          | none => .error ()
          | some vctDv => .ok (some vctDv)

/-! ## What the select list says -/

/-- The values of the selected items on a row. -/
def itemValues (other : ExprElem V → Option V) (mapColPos : String → Option ℕ)
    (vdParas vdv : List V) : List (Option V) :=
  match exprSel.vctCol with
  | none => vdv.map some
  | some vctCol => vctCol.map fun column => column.exprElem.value other mapColPos vdParas vdv

/-- Nothing stops, and a row that is added has the values of the items. -/
def RowRight (scan : ScanState V) (ops : DataOps V) (other : ExprElem V → Option V)
    (mapColPos : String → Option ℕ) (vdParas : List V) (bound : Bound V) (vdv : List V) : Prop :=
  ∃ returned, exprSel.handleLeafRecord scan ops mapColPos vdParas bound vdv = .ok returned ∧
    ∀ vctDv, returned = some vctDv →
      vctDv.map some = exprSel.itemValues other mapColPos vdParas vdv

/-- The scan starts, unless the parameters or a value are refused, and the row comes out right. -/
def ScanRight (scan : ScanState V) (ops : DataOps V) (other : ExprElem V → Option V)
    (mapColPos : String → Option ℕ) (vdParas : List V) (bound : Bound V) (vdv : List V) : Prop :=
  ∃ started, exprSel.startScan scan mapColPos vdParas bound = .ok started ∧
    (started = true → exprSel.RowRight scan ops other mapColPos vdParas bound vdv)

/-- Either the statement is refused, or every table has its rows right. -/
def SelectRight (fuel : ℕ) (managers : Managers) (currDb : Option (ℕ × String))
    (scan : ScanState V) (ops : DataOps V) (other : ExprElem V → Option V) (vdParas : List V)
    (rowOf : ∀ table, StoredRow V table) : Prop :=
  Proper (exprSel.stmt.preprocess fuel managers currDb) fun bound =>
    ∀ table, bound.physTable.bind managers.table = some table →
      exprSel.ScanRight scan ops other table.colPos vdParas bound (rowOf table).vdv

/-! ## When it is so -/

def Resolves (mapColPos : String → Option ℕ) (names : List String) : Prop :=
  ∀ name ∈ names, (mapColPos name).isSome

/-- The names in the list are columns of the table. -/
def ItemsResolve (table : PhysTable) : Prop :=
  ∀ vctCol, exprSel.vctCol = some vctCol →
    Resolves table.colPos (vctCol.map fun column => column.exprElem.names).flatten

/-- `mapRPos`. -/
def mapRPos (table : PhysTable) : String → Option ℕ :=
  match exprSel.vctCol with
  | none => table.colPos
  | some vctCol => fun name => (selectNames vctCol 0).lookup name

/-- The names in GROUP BY, HAVING and ORDER BY are selected. -/
def ClausesResolve (table : PhysTable) : Prop :=
  (∀ groupBy, exprSel.groupBy = some groupBy →
    Resolves (exprSel.mapRPos table) groupBy.vctColName ∧
      ∀ exprLogic, groupBy.exprHaving = some exprLogic →
        Resolves (exprSel.mapRPos table) exprLogic.columns) ∧
    Resolves (exprSel.mapRPos table) exprSel.orderBy

/-- Looking for the fields of HAVING does not go through a null pointer. -/
def HavingFits (table : PhysTable) : Prop :=
  ∀ groupBy, exprSel.groupBy = some groupBy →
    Resolves (exprSel.mapRPos table) groupBy.vctColName →
      ∀ exprLogic, groupBy.exprHaving = some exprLogic → exprLogic.lacksPara = false

/-- The value of an equation is there and can be copied into its column of the key. -/
def Takes (scan : ScanState V) (mapColPos : String → Option ℕ) (vdParas : List V)
    (operand : ExprData V × ℕ) : Prop :=
  ∃ dv, operand.1.calcData mapColPos vdParas [] = some dv ∧ scan.copies operand.2 dv = true

/-- The first value of the equations that is not taken is refused with a message. -/
def PointRefused (scan : ScanState V) (mapColPos : String → Option ℕ) (vdParas : List V)
    (operands : List (ExprData V × ℕ)) : Prop :=
  ∃ before operand behind, operands = before ++ operand :: behind ∧
    (∀ earlier ∈ before, Takes scan mapColPos vdParas earlier) ∧
    ¬Takes scan mapColPos vdParas operand ∧
    (operand.1.calcData mapColPos vdParas [] = none → scan.sessionMsg = true)

/-- What is left of the condition is no error on the row, unless there is a message; where columns
are listed the row does not pass it. -/
def RowFits (scan : ScanState V) (ops : DataOps V) (mapColPos : String → Option ℕ)
    (vdParas vdv : List V) (exprWhere : ExprWhere V) : Prop :=
  (residual ops mapColPos vdParas vdv exprWhere = .error → scan.indexMsg = true) ∧
  (exprSel.vctCol.getD [] ≠ [] → residual ops mapColPos vdParas vdv exprWhere ≠ .true)

/-- The condition searches an index. A value of an equation is refused, or all values are there and
the row fits. -/
def WhereFits (scan : ScanState V) (ops : DataOps V) (mapColPos : String → Option ℕ)
    (vdParas vdv : List V) (exprWhere : ExprWhere V) : Prop :=
  ∃ search, exprWhere.indexSearch = some search ∧
    match search.vctPointCond with
    | some vctPointCond =>
        PointRefused scan mapColPos vdParas (ExprLogic.operandsOf vctPointCond).zipIdx ∨
          (∀ operand ∈ (ExprLogic.operandsOf vctPointCond).zipIdx,
            Takes scan mapColPos vdParas operand) ∧
          exprSel.RowFits scan ops mapColPos vdParas vdv exprWhere
    | none =>
        (∀ exprData ∈ ExprLogic.operandsOf search.idxLogic.toList,
          (exprData.calcData mapColPos vdParas []).isSome = true) ∧
        exprSel.RowFits scan ops mapColPos vdParas vdv exprWhere

/-- There is no `COUNT(*)` and no call without parameters; and unless a name or the number of the
parameters is refused there is a WHERE, whose preparation does not stop, and it fits the row. -/
def SelectFits (fuel : ℕ) (scan : ScanState V) (ops : DataOps V) (vdParas : List V)
    (table : PhysTable) (row : StoredRow V table) : Prop :=
  (∀ column ∈ exprSel.vctCol.getD [], column.exprElem.followsNull = false) ∧
    (exprSel.ItemsResolve table →
      Proper (prepareWhere fuel table exprSel.exprWhere) fun found =>
        exprSel.HavingFits table ∧
          (exprSel.ClausesResolve table → vdParas.length = exprSel.paraNum →
            ∃ exprWhere, found = some exprWhere ∧
              exprSel.WhereFits scan ops table.colPos vdParas row.vdv exprWhere))

end ExprTableSelect

/-! ## The names -/

theorem exists_mapM_eq_some_iff {mapColPos : String → Option ℕ} {names : List String} :
    (∃ positions, names.mapM mapColPos = some positions) ↔
      ExprTableSelect.Resolves mapColPos names := by
  induction names with
  | nil => simp [ExprTableSelect.Resolves]
  | cons name names ih =>
      simp only [ExprTableSelect.Resolves, List.forall_mem_cons] at ih ⊢
      rw [← ih]
      cases found : mapColPos name with
      | none => simp [List.mapM_cons, found]
      | some pos =>
          cases further : names.mapM mapColPos with
          | none => simp [List.mapM_cons, found, further]
          | some positions => simp [List.mapM_cons, found, further]

theorem proper_fillElem {mapColPos : String → Option ℕ} {names : List String} {right : Prop} :
    Proper (fillElem mapColPos names) (fun _ => right) ↔
      (ExprTableSelect.Resolves mapColPos names → right) := by
  simp only [fillElem, proper_orError, ← exists_mapM_eq_some_iff]
  constructor
  · rintro holds ⟨positions, found⟩
    exact holds positions found
  · intro holds positions found
    exact holds ⟨positions, found⟩

theorem proper_columns (elem : ExprElem V) (right : List String → Prop) :
    Proper elem.columns right ↔ elem.followsNull = false ∧ right elem.names := by
  cases follows : elem.followsNull with
  | true => simp [ExprElem.columns, follows]
  | false => simp [ExprElem.columns, follows]

theorem proper_itemColumns (vctCol : List (ExprColumn V)) (right : List (List String) → Prop) :
    Proper (vctCol.mapM fun column => column.exprElem.columns) right ↔
      (∀ column ∈ vctCol, column.exprElem.followsNull = false) ∧
        right (vctCol.map fun column => column.exprElem.names) := by
  induction vctCol generalizing right with
  | nil => simp
  | cons column vctCol ih =>
      simp only [List.mapM_cons, proper_bind, proper_columns, proper_pure, ih, List.forall_mem_cons,
        List.map_cons, and_assoc]

theorem proper_prepareHaving {mapColPos : String → Option ℕ} {exprLogic : ExprLogic V}
    {right : Prop} :
    Proper (prepareHaving mapColPos exprLogic) (fun _ => right) ↔
      exprLogic.lacksPara = false ∧
        (ExprTableSelect.Resolves mapColPos exprLogic.columns → right) := by
  cases lacks : exprLogic.lacksPara with
  | true => simp [prepareHaving, lacks]
  | false => simp [prepareHaving, lacks, proper_fillElem]

theorem proper_prepareGroup {mapColPos : String → Option ℕ} {groupBy : Option (ExprGroupBy V)}
    {right : Prop} :
    Proper (prepareGroup mapColPos groupBy) (fun _ => right) ↔
      (∀ group, groupBy = some group →
        ExprTableSelect.Resolves mapColPos group.vctColName →
          ∀ exprLogic, group.exprHaving = some exprLogic → exprLogic.lacksPara = false) ∧
      ((∀ group, groupBy = some group →
        ExprTableSelect.Resolves mapColPos group.vctColName ∧
          ∀ exprLogic, group.exprHaving = some exprLogic →
            ExprTableSelect.Resolves mapColPos exprLogic.columns) → right) := by
  cases groupBy with
  | none => simp [prepareGroup]
  | some group =>
      cases having : group.exprHaving with
      | none => simp [prepareGroup, having, proper_fillElem]
      | some exprLogic =>
          simp only [prepareGroup, having, proper_bind, proper_pure, proper_fillElem,
            proper_prepareHaving, Option.some.injEq, forall_eq']
          tauto

namespace ExprTableSelect

variable (exprSel : ExprTableSelect V)

/-! ## The rows of a statement that is not refused -/

/-- The columns that `Preprocess` leaves with a statement. -/
def boundColumns (table : PhysTable) : List (ℕ × DataType × ℕ) :=
  if exprSel.vctCol.isNone then table.allColumns else []

theorem proper_fillColumns (fuel : ℕ) (table : PhysTable)
    (right : List (ℕ × DataType × ℕ) → Option (ExprWhere V) → Prop) :
    Proper (exprSel.stmt.fillColumns fuel table)
        (fun bound => right bound.columns bound.exprWhere) ↔
      (∀ column ∈ exprSel.vctCol.getD [], column.exprElem.followsNull = false) ∧
        (exprSel.ItemsResolve table →
          Proper (prepareWhere fuel table exprSel.exprWhere) fun found =>
            exprSel.HavingFits table ∧
              (exprSel.ClausesResolve table → right (exprSel.boundColumns table) found)) := by
  rcases exprSel with ⟨paraNum, exprTable, vctCol, exprWhere, groupBy, orderBy⟩
  cases vctCol with
  | none =>
      simp only [stmt, SqlStmt.fillColumns, proper_bind, proper_pure]
      simp only [proper_fillElem, proper_prepareGroup]
      simp [ItemsResolve, HavingFits, ClausesResolve, boundColumns, mapRPos]
  | some vctCol =>
      simp only [stmt, SqlStmt.fillColumns, proper_bind, proper_pure, proper_itemColumns]
      simp only [proper_fillElem, proper_prepareGroup]
      simp [ItemsResolve, HavingFits, ClausesResolve, boundColumns, mapRPos]

theorem mapM_valueAt_list (vdv : List V) (vctCol : List (ExprColumn V)) :
    (vctCol.map fun _ => (-1 : ℤ)).mapM (valueAt vdv) = if vctCol = [] then some [] else none := by
  cases vctCol with
  | nil => simp
  | cons column vctCol => simp [List.mapM_cons, valueAt]

theorem valueAt_ofNat (vdv : List V) (pos : ℕ) : valueAt vdv (pos : ℤ) = vdv[pos]? := by
  simp [valueAt]

theorem mapM_valueAt_zipIdx {vdv : List V} (vctColumn : List PhysColumn) (pos : ℕ)
    (length : vdv.length = pos + vctColumn.length) :
    ((vctColumn.zipIdx pos).map fun entry => (entry.2 : ℤ)).mapM (valueAt vdv) =
      some (vdv.drop pos) := by
  induction vctColumn generalizing pos with
  | nil =>
      have past : vdv.length ≤ pos := by simp at length; omega
      simp [List.drop_eq_nil_of_le past]
  | cons column vctColumn ih =>
      have inRow : pos < vdv.length := by simp at length; omega
      have further := ih (pos + 1) (by simp at length; omega)
      simp only [List.zipIdx_cons, List.map_cons, List.mapM_cons, valueAt_ofNat,
        List.getElem?_eq_getElem inRow, further]
      simp

theorem mapM_valueAt_all (table : PhysTable) (row : StoredRow V table) :
    (table.allColumns.map fun column => (column.1 : ℤ)).mapM (valueAt row.vdv) = some row.vdv := by
  have whole := mapM_valueAt_zipIdx table.vctColumn 0 (by simpa using row.length_eq)
  simpa [PhysTable.allColumns, Function.comp_def] using whole

section

variable (scan : ScanState V) (ops : DataOps V) (other : ExprElem V → Option V) (vdParas : List V)
  (table : PhysTable) (bound : Bound V) (vdv : List V)

theorem rowRight_iff_of_admits {exprWhere : ExprWhere V}
    (found : bound.exprWhere = some exprWhere)
    (admits : residual ops table.colPos vdParas vdv exprWhere = .true) :
    exprSel.RowRight scan ops other table.colPos vdParas bound vdv ↔
      ∃ vctDv, (exprSel.vctPos bound).mapM (valueAt vdv) = some vctDv ∧
        vctDv.map some = exprSel.itemValues other table.colPos vdParas vdv := by
  simp only [RowRight, handleLeafRecord, found, admits]
  cases (exprSel.vctPos bound).mapM (valueAt vdv) with
  | none => simp
  | some vctDv => simp

end

theorem rowRight_iff (scan : ScanState V) (ops : DataOps V) (other : ExprElem V → Option V)
    (vdParas : List V) (table : PhysTable) (row : StoredRow V table) (bound : Bound V)
    (columns : bound.columns = exprSel.boundColumns table) {exprWhere : ExprWhere V}
    (found : bound.exprWhere = some exprWhere) :
    exprSel.RowRight scan ops other table.colPos vdParas bound row.vdv ↔
      exprSel.RowFits scan ops table.colPos vdParas row.vdv exprWhere := by
  unfold RowFits
  cases value : residual ops table.colPos vdParas row.vdv exprWhere with
  | error =>
      cases message : scan.indexMsg with
      | true => simp [RowRight, handleLeafRecord, found, value, message]
      | false => simp [RowRight, handleLeafRecord, found, value, message]
  | false => simp [RowRight, handleLeafRecord, found, value]
  | true =>
      rw [exprSel.rowRight_iff_of_admits scan ops other vdParas table bound row.vdv found value]
      cases items : exprSel.vctCol with
      | none =>
          have whole := mapM_valueAt_all table row
          simp only [vctPos, items, columns, boundColumns, Option.isNone_none, if_true, whole]
          simp [itemValues, items]
      | some vctCol =>
          simp only [vctPos, items, mapM_valueAt_list]
          by_cases empty : vctCol = []
          · simp [empty, itemValues, items]
          · simp [empty]

theorem pointRefused_cons (scan : ScanState V) (mapColPos : String → Option ℕ) (vdParas : List V)
    (operand : ExprData V × ℕ) (operands : List (ExprData V × ℕ)) :
    PointRefused scan mapColPos vdParas (operand :: operands) ↔
      ¬Takes scan mapColPos vdParas operand ∧
          (operand.1.calcData mapColPos vdParas [] = none → scan.sessionMsg = true) ∨
        Takes scan mapColPos vdParas operand ∧
          PointRefused scan mapColPos vdParas operands := by
  constructor
  · rintro ⟨before, refused, behind, split, taken, notTaken, reports⟩
    cases before with
    | nil =>
        cases split
        exact .inl ⟨notTaken, reports⟩
    | cons first before =>
        cases split
        exact .inr ⟨taken operand List.mem_cons_self, before, refused, behind, rfl,
          fun earlier mem => taken earlier (List.mem_cons_of_mem _ mem), notTaken, reports⟩
  · rintro (⟨notTaken, reports⟩ | ⟨takes, before, refused, behind, rfl, taken, further⟩)
    · exact ⟨[], operand, operands, rfl, fun _ mem => absurd mem List.not_mem_nil, notTaken,
        reports⟩
    · exact ⟨operand :: before, refused, behind, rfl, List.forall_mem_cons.mpr ⟨takes, taken⟩,
        further⟩

theorem pointKey_iff (scan : ScanState V) (mapColPos : String → Option ℕ) (vdParas : List V)
    (operands : List (ExprData V × ℕ)) (right : Prop) :
    (∃ started, pointKey scan mapColPos vdParas operands = .ok started ∧
        (started = true → right)) ↔
      PointRefused scan mapColPos vdParas operands ∨
        (∀ operand ∈ operands, Takes scan mapColPos vdParas operand) ∧ right := by
  induction operands with
  | nil => simp [pointKey, PointRefused]
  | cons operand operands ih =>
      rcases operand with ⟨exprData, pos⟩
      rw [pointRefused_cons, List.forall_mem_cons]
      cases value : exprData.calcData mapColPos vdParas [] with
      | none =>
          cases message : scan.sessionMsg with
          | true => simp [pointKey, Takes, value, message]
          | false => simp [pointKey, Takes, value, message]
      | some dv =>
          cases copies : scan.copies pos dv with
          | true => simpa [pointKey, Takes, value, copies] using ih
          | false => simp [pointKey, Takes, value, copies]

theorem rangeKey_iff (mapColPos : String → Option ℕ) (vdParas : List V)
    (operands : List (ExprData V)) (right : Prop) :
    (∃ started, rangeKey mapColPos vdParas operands = .ok started ∧ (started = true → right)) ↔
      (∀ exprData ∈ operands, (exprData.calcData mapColPos vdParas []).isSome = true) ∧
        right := by
  rw [← List.all_eq_true]
  unfold rangeKey
  split
  · next values => simp [values]
  · next missing => simp [missing]

theorem scanRight_iff (scan : ScanState V) (ops : DataOps V) (other : ExprElem V → Option V)
    (vdParas : List V) (table : PhysTable) (row : StoredRow V table) (bound : Bound V)
    (columns : bound.columns = exprSel.boundColumns table) :
    exprSel.ScanRight scan ops other table.colPos vdParas bound row.vdv ↔
      (vdParas.length = exprSel.paraNum → ∃ exprWhere, bound.exprWhere = some exprWhere ∧
        exprSel.WhereFits scan ops table.colPos vdParas row.vdv exprWhere) := by
  by_cases sameNum : vdParas.length = exprSel.paraNum
  · simp only [ScanRight, startScan, sameNum, ne_eq, not_true_eq_false, if_false, forall_const]
    cases found : bound.exprWhere with
    | none => simp
    | some exprWhere =>
        simp only [Option.bind_some, Option.some.injEq, exists_eq_left', WhereFits,
          ← exprSel.rowRight_iff scan ops other vdParas table row bound columns found]
        cases exprWhere.indexSearch with
        | none => simp
        | some search =>
            simp only [Option.some.injEq, exists_eq_left']
            cases search.vctPointCond with
            | some vctPointCond => exact pointKey_iff scan table.colPos vdParas _ _
            | none => exact rangeKey_iff table.colPos vdParas _ _
  · simp [ScanRight, startScan, sameNum]

/-- A table whose key is its column `a`. -/
def keyTable : PhysTable where
  db := 0
  dbName := "d"
  tName := "t"
  vctColumn := [{ name := "a", dataType := .int, maxLength := 4 }]
  vctIndex := [[0]]

def keyManagers : Managers where
  findDb _ := some 0
  findTable _ _ := some 0
  table _ := some keyTable

/-- `SELECT a FROM t WHERE a = 1`. -/
def selectKey : ExprTableSelect ℤ where
  paraNum := 0
  exprTable := { dbName := none, tName := "t" }
  vctCol := some [{ exprElem := .data (.field "a"), colAlias := none }]
  exprWhere := some (.comp .EQ (.field "a") (.const 1))
  groupBy := none
  orderBy := []

def onesOf (table : PhysTable) : StoredRow ℤ table where
  vdv := List.replicate table.vctColumn.length 1
  length_eq := by simp

/-- All values can be copied, and no thread has a message. -/
def quietScan : ScanState ℤ where
  copies _ _ := true
  sessionMsg := false
  indexMsg := false

end ExprTableSelect

end ExprCache

end RapidDb
