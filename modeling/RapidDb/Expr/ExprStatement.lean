import RapidDb.DataType.DataValue
import RapidDb.Expr.ExprWhere

/-!
# Statements as they are parsed, and what `Preprocess` fills in

`Preprocess` of a statement that reads or writes rows looks for the table in the managers, then for
the columns in the table; the second half depends on the text and the table only. An expression is
refused with an error, or it stops at a null pointer.

An expression is given by what is filled in. Limits, locks and the choice of rows play no part in
it, and a new table comes with the columns that `AddColumn` takes.
-/

namespace RapidDb

namespace ExprCache

structure PhysColumn where
  name : String
  dataType : DataType
  maxLength : ℕ
deriving DecidableEq, Repr

/-- A table, in the database object it has been made in. -/
structure PhysTable where
  db : ℕ
  dbName : String
  tName : String
  vctColumn : List PhysColumn
  vctIndex : List (List ℕ)
deriving DecidableEq, Repr

structure ExprTable where
  dbName : Option String
  tName : String
deriving DecidableEq, Repr

/-- A value of a row, or a selected one; `COUNT(*)` is an aggregate without an expression. -/
inductive ExprElem (V : Type) where
  | data (exprData : ExprData V)
  | logic (exprLogic : ExprLogic V)
  | aggr (exprData : Option (ExprData V))

structure ExprColumn (V : Type) where
  exprElem : ExprElem V
  colAlias : Option String

structure ExprGroupBy (V : Type) where
  vctColName : List String
  exprHaving : Option (ExprLogic V)

inductive SqlStmt (V : Type) where
  /-- An INSERT of rows, or of what a SELECT finds. -/
  | insert (exprTable : ExprTable) (vctCol : Option (List String))
      (vctRowData : Option (List (List (ExprElem V))))
  | update (exprTable : ExprTable) (vctCol : List (String × ExprElem V))
      (exprWhere : Option (ExprLogic V)) (orderBy : List String)
  | delete (exprTable : ExprTable) (exprWhere : Option (ExprLogic V)) (orderBy : List String)
  /-- `SELECT *` has no columns, and a SELECT without FROM no tables. -/
  | select (vctTable : Option (List ExprTable)) (vctCol : Option (List (ExprColumn V)))
      (exprWhere : Option (ExprLogic V)) (groupBy : Option (ExprGroupBy V)) (orderBy : List String)
  | trunTable (table : ExprTable)
  | showTables (dbName : Option String)
  | createDatabase (dbName : String)
  | dropDatabase (dbName : String)
  | createTable (table : ExprTable) (vctColumn : List PhysColumn) (vctIndex : List (List ℕ))
  | dropTable (table : ExprTable)
  | useDatabase (dbName : String)
  | showDatabases
  | transaction

/-- What `Preprocess` fills in. -/
structure Bound (V : Type) where
  /-- `_exprTable->_physTable` and `_exprTable->_db`. -/
  physTable : Option ℕ := none
  db : Option ℕ := none
  /-- The database of the table that CREATE TABLE makes. -/
  physDb : Option ℕ := none
  dbName : Option String := none
  /-- `_pos`, `_dataType` and `_dataLength` of the columns. -/
  columns : List (ℕ × DataType × ℕ) := []
  /-- `_rowPos` of the fields. -/
  rowPos : List ℕ := []
  exprWhere : Option (ExprWhere V) := none
  vctColPos : List ℕ := []
  orderPos : List ℕ := []

/-- What the managers answer, and the tables behind the answers. -/
structure Managers where
  findDb : String → Option ℕ
  findTable : String → String → Option ℕ
  table : ℕ → Option PhysTable

abbrev Outcome (β : Type) : Type := OptionT (Except Stop) β

def orError {β : Type} (value : Option β) : Outcome β := OptionT.mk (pure value)

def stopped {β : Type} : Outcome β := OptionT.mk (.error .nullPointer)

namespace ExprElem

variable {V : Type}

/-- `CollectElem` goes through a null pointer: that of `COUNT(*)`, or the list of a call without
parameters. -/
def followsNull : ExprElem V → Bool
  | data exprData => exprData.lacksPara
  | logic exprLogic => exprLogic.lacksPara
  | aggr none => true
  | aggr (some exprData) => exprData.lacksPara

/-- The columns of the fields, when there is an expression. -/
def names : ExprElem V → List String
  | data exprData => exprData.columns
  | logic exprLogic => exprLogic.columns
  | aggr exprData => exprData.elim [] ExprData.columns

/-- The columns of the fields that `CollectElem` finds. -/
def columns (elem : ExprElem V) : Outcome (List String) :=
  if elem.followsNull then stopped else pure elem.names

/-- The column of an `ExprField`. -/
def fieldName : ExprElem V → Option String
  | data (.field colName) => some colName
  | _ => none

end ExprElem

namespace PhysTable

/-- `_mapColumnPos`. -/
def colPos (table : PhysTable) (colName : String) : Option ℕ :=
  table.vctColumn.findIdx? fun column => column.name = colName

def columnAt (table : PhysTable) (colName : String) : Option (ℕ × DataType × ℕ) := do
  let pos ← table.colPos colName
  let column ← table.vctColumn[pos]?
  pure (pos, column.dataType, column.maxLength)

def allColumns (table : PhysTable) : List (ℕ × DataType × ℕ) :=
  table.vctColumn.zipIdx.map fun entry => (entry.2, entry.1.dataType, entry.1.maxLength)

end PhysTable

section

variable {V : Type}

/-- `FillElemFiled`. -/
def fillElem (mapColPos : String → Option ℕ) (names : List String) : Outcome (List ℕ) :=
  orError (names.mapM mapColPos)

/-- The names of selected columns, as `mapRPos` takes them in; the first of a name stays. -/
def selectNames : List (ExprColumn V) → ℕ → List (String × ℕ)
  | [], _ => []
  | column :: vctCol, i =>
      (match column.exprElem.fieldName, column.colAlias with
        | some colName, some colAlias => [(colName, i), (colAlias, i)]
        | some colName, none => [(colName, i)]
        | none, some colAlias => [(colAlias, i)]
        | none, none => [("col" ++ toString i, i)]) ++ selectNames vctCol (i + 1)

/-- `ExprWhere::Preprocess`. -/
def prepareWhere (fuel : ℕ) (table : PhysTable) :
    Option (ExprLogic V) → Outcome (Option (ExprWhere V))
  | none => pure none
  | some exprLogic => do
      let exprWhere ← OptionT.mk (exprLogic.preprocess table.colPos table.vctIndex fuel)
      pure (some exprWhere)

/-- `ExprHaving::Preprocess`. -/
def prepareHaving (mapColPos : String → Option ℕ) (exprLogic : ExprLogic V) : Outcome (List ℕ) :=
  if exprLogic.lacksPara then stopped else fillElem mapColPos exprLogic.columns

/-- `ExprGroupBy::Preprocess`: the positions of its columns, and of the fields of HAVING. -/
def prepareGroup (mapColPos : String → Option ℕ) :
    Option (ExprGroupBy V) → Outcome (List ℕ × List ℕ)
  | none => pure ([], [])
  | some groupBy => do
      let vctColPos ← fillElem mapColPos groupBy.vctColName
      let rowPos ←
        match groupBy.exprHaving with
        | none => pure []
        | some exprLogic => prepareHaving mapColPos exprLogic
      pure (vctColPos, rowPos)

namespace SqlStmt

/-- The table whose rows are read or written. -/
def exprTable : SqlStmt V → Option ExprTable
  | insert exprTable _ _ | update exprTable _ _ _ | delete exprTable _ _ => some exprTable
  | select (some [exprTable]) _ _ _ _ => some exprTable
  | _ => none

def isTrunTable : SqlStmt V → Bool
  | trunTable _ => true
  | _ => false

/-- `IsCacheExpr`. -/
def isCacheExpr : SqlStmt V → Bool
  | createDatabase _ | dropDatabase _ | createTable _ _ _ | dropTable _ => false
  | _ => true

/-- The part of `Preprocess` that comes after the table has been found. -/
def fillColumns (fuel : ℕ) (table : PhysTable) : SqlStmt V → Outcome (Bound V)
  | insert _ vctCol vctRowData => do
      let columns ←
        match vctCol with
        | none => pure table.allColumns
        | some names => orError (names.mapM table.columnAt)
      match vctRowData with
      | none => stopped
      | some vctRow => do
          let names ← vctRow.mapM fun row => do
            if row.length ≠ columns.length then failure
            row.mapM ExprElem.columns
          let rowPos ← fillElem table.colPos names.flatten.flatten
          pure { columns := columns, rowPos := rowPos }
  | update _ vctCol exprWhere orderBy => do
      let columns ← vctCol.mapM fun column => do
        let found ← orError (table.columnAt column.1)
        let names ← column.2.columns
        pure (found, names)
      let rowPos ← fillElem table.colPos (columns.map Prod.snd).flatten
      let exprWhere ← prepareWhere fuel table exprWhere
      let orderPos ← fillElem table.colPos orderBy
      pure {
        columns := columns.map Prod.fst
        rowPos := rowPos
        exprWhere := exprWhere
        orderPos := orderPos }
  | delete _ exprWhere orderBy => do
      let exprWhere ← prepareWhere fuel table exprWhere
      let orderPos ← fillElem table.colPos orderBy
      pure { exprWhere := exprWhere, orderPos := orderPos }
  | select _ vctCol exprWhere groupBy orderBy => do
      let rowPos ←
        match vctCol with
        | none => pure []
        | some vctCol => do
            let names ← vctCol.mapM fun column => column.exprElem.columns
            fillElem table.colPos names.flatten
      let mapRPos := fun name =>
        match vctCol with
        | none => table.colPos name
        | some vctCol => (selectNames vctCol 0).lookup name
      let exprWhere ← prepareWhere fuel table exprWhere
      let (vctColPos, havingPos) ← prepareGroup mapRPos groupBy
      let orderPos ← fillElem mapRPos orderBy
      pure {
        columns := if vctCol.isNone then table.allColumns else []
        rowPos := rowPos ++ havingPos
        exprWhere := exprWhere
        vctColPos := vctColPos
        orderPos := orderPos }
  | _ => pure {}

end SqlStmt

/-- `ExprTable::Preprocess`: the database object and the table. -/
def ExprTable.preprocess (managers : Managers) (currDb : Option (ℕ × String))
    (exprTable : ExprTable) :
    Outcome (ℕ × ℕ) :=
  match exprTable.dbName with
  | none => do
      let (db, dbName) ← orError currDb
      let physTable ← orError (managers.findTable dbName exprTable.tName)
      pure (db, physTable)
  | some dbName => do
      let db ← orError (managers.findDb dbName)
      let physTable ← orError (managers.findTable dbName exprTable.tName)
      pure (db, physTable)

/-- `Preprocess` of a statement about the rows of a table. -/
def prepareRows (fuel : ℕ) (managers : Managers) (currDb : Option (ℕ × String))
    (exprTable : ExprTable) (stmt : SqlStmt V) : Outcome (Bound V) := do
  let (db, physTable) ← exprTable.preprocess managers currDb
  let table ← orError (managers.table physTable)
  let bound ← stmt.fillColumns fuel table
  pure { bound with physTable := some physTable, db := some db }

/-- `Preprocess`. A new table is made in the current database, and TRUNCATE does not look for its
table. -/
def SqlStmt.preprocess (fuel : ℕ) (managers : Managers) (currDb : Option (ℕ × String))
    (stmt : SqlStmt V) : Outcome (Bound V) :=
  match stmt with
  | insert exprTable _ _ | update exprTable _ _ _ | delete exprTable _ _ =>
      prepareRows fuel managers currDb exprTable stmt
  | select (some [exprTable]) _ _ _ _ => prepareRows fuel managers currDb exprTable stmt
  | select (some _) _ _ _ _ => failure
  | select none _ _ _ _ => stopped
  | trunTable table =>
      match table.dbName with
      | none => do
          let (_, dbName) ← orError currDb
          pure { dbName := some dbName }
      | some dbName => pure { dbName := some dbName }
  | showTables (some dbName) => pure { dbName := some dbName }
  | showTables none =>
      match currDb with
      | none => stopped
      | some (_, dbName) => pure { dbName := some dbName }
  | createTable table _ _ =>
      match table.dbName with
      | none => do
          let (db, dbName) ← orError currDb
          pure { db := some db, physDb := some db, dbName := some dbName }
      | some dbName =>
          match managers.findDb dbName, currDb with
          | none, none => failure
          | some _, none => stopped
          | tableDb, some (db, _) =>
              pure { db := tableDb, physDb := some db, dbName := some dbName }
  | dropTable table =>
      match table.dbName with
      | none => do
          let (db, dbName) ← orError currDb
          pure { db := some db, dbName := some dbName }
      | some dbName => pure { db := managers.findDb dbName, dbName := some dbName }
  | createDatabase _ | dropDatabase _ | useDatabase _ | showDatabases | transaction => pure {}

/-- What an expression binds, apart from the object of its database. -/
def Bound.resolved (bound : Bound V) : Bound V := { bound with db := none }

end

end ExprCache

end RapidDb
