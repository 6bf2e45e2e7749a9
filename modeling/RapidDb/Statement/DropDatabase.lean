import Mathlib.Data.BitVec
import Mathlib.Data.List.Nodup
import RapidDb.Library.BinarySearch
import RapidDb.Library.Bytes
import RapidDb.Statement.InsertStatement

/-!
# Dropping a database

`StmtDropDatabase` lets an index task delete the rows of the database's tables from
`rapid.sys_tables`, waits for the records, and does the same with its row in `rapid.sys_dbs`. The
rows are found by a scan over key ranges of one key each, in the order in which `ListTables` has the
tables, which is that of their names.

The scan belongs to the task of one range of the index and moves on when the next key is greater
than the border of the range. An index that is not divided has one range and no border.

`UpdateRecord` makes a record with the result `IN_PAGE`. The loop of the session also waits for
records without a result, so that here a record may get its result later. Pages that are being read
interrupt a scan; a key is looked for among all keys of a range. The files and entries that are
removed after the transaction has been logged are left out.
-/

namespace RapidDb

open Transition

namespace DropDatabase

/-- The system tables that have rows of a database. -/
inductive SysTable where
  | sysTables
  | sysDbs
deriving DecidableEq, Repr

structure RowKey where
  table : SysTable
  id : ℤ
deriving DecidableEq, Repr

/-! ## The index of a system table -/

structure SysRange where
  borderRecord : Option ℤ := none
  keys : List ℤ := []
deriving DecidableEq, Repr

def compareKey (key other : ℤ) : ℤ :=
  if key < other then -1 else if other < key then 1 else 0

/-- `CalcIndexRange`; none when a range has no border. -/
def calcIndexRange (vctRange : List SysRange) (key : ℤ) : Option ℕ :=
  (vctRange.mapM SysRange.borderRecord).map fun borders =>
    BinarySearch.clamp borders.length (BinarySearch.search
      (fun middle => compareKey (borders.getD middle 0) key) borders.length 0 borders.length).2

/-- `JudgeRange`. -/
def judgeRange (vctRange : List SysRange) (key : ℤ) : Option ℕ :=
  if vctRange.length = 1 then some 0 else calcIndexRange vctRange key

/-- The primary index of a system table: each key is in the range that is judged for it. -/
structure SysIndex where
  vctRange : List SysRange
  nonempty : vctRange ≠ []
  placed : ∀ range ∈ vctRange.zipIdx, ∀ key ∈ range.1.keys, judgeRange vctRange key = some range.2

def SysIndex.Has (index : SysIndex) (key : ℤ) : Prop := ∃ range ∈ index.vctRange, key ∈ range.keys

/-- A scan can go on from a key to another one in the same range. -/
def SysIndex.Shares (index : SysIndex) (key next : ℤ) : Prop :=
  judgeRange index.vctRange next = judgeRange index.vctRange key ∧
    ((judgeRange index.vctRange key).bind fun pos =>
      index.vctRange[pos]?.bind SysRange.borderRecord).any (next ≤ ·)

instance (index : SysIndex) (key next : ℤ) : Decidable (index.Shares key next) :=
  inferInstanceAs (Decidable (_ ∧ _))

/-! ## The statement and what it works on -/

structure Table where
  tname : List Byte
  tid : BitVec 32

/-- The value of the `DataValueInt` with the number of the table. -/
def Table.key (table : Table) : ℤ := table.tid.toInt

/-- A database with its tables as `ListTables` has them. -/
structure Database where
  id : ℤ
  tables : List Table
  listed : tables.Pairwise fun table next => table.tname < next.tname

structure Catalog where
  ifExist : Bool
  dbDel : Option Database
  index : SysTable → SysIndex
  /-- The rows with a lock of another transaction that cannot be released. -/
  locked : RowKey → Bool

/-- The keys of the key ranges for a system table. -/
def Catalog.keys (catalog : Catalog) (table : SysTable) : List ℤ :=
  match catalog.dbDel with
  | none => []
  | some dbDel =>
      match table with
      | .sysTables => dbDel.tables.map Table.key
      | .sysDbs => [dbDel.id]

/-- The rows of the database and its tables. -/
def Catalog.Names (catalog : Catalog) (key : RowKey) : Prop :=
  key.id ∈ catalog.keys key.table ∧ (catalog.index key.table).Has key.id

structure MiddleVar where
  table : SysTable
  vctKeyRange : List ℤ
  keyPos : ℕ := 0

/-- A `StatementAction` in the queue of a range, or in the loop of `SacnIndex`. -/
structure StatementAction where
  rangePos : ℕ
  scanning : Bool := false

structure DropStatement where
  status : StmtStatus := .created
  bDropingTable : Bool := true
  bFinished : Bool := false
  stmtFailed : Bool := false
  midVar : Option MiddleVar := none
  actions : List StatementAction := []
  /-- The records that have been made. -/
  touched : List RowKey := []
  lstWaitRecord : List RowKey := []
  lstFinishRecord : List RowKey := []
  recResult : RowKey → RecordResult := fun _ => .init
  recStatus : RowKey → RecordStatus := fun _ => .init
  isLogged : Bool := false
  /-- A null pointer has been followed or the end of a container passed. -/
  crashed : Bool := false

/-! ## The session -/

/-- How the loop over the waiting records ends. -/
inductive WaitLoop where
  /-- A record has no result: what is left, and what has been moved. -/
  | waits (lstWaitRecord moved : List RowKey)
  | done (lstWaitRecord moved : List RowKey)
  /-- The iterator behind the last record is incremented. -/
  | pastEnd

/-- The loop over the waiting records. The iterator that `erase` returns is incremented, so that the
record behind one that is moved is not visited. -/
def waitLoop (recResult : RowKey → RecordResult) (visited moved : List RowKey) :
    List RowKey → WaitLoop
  | [] => .done visited moved
  | [key] =>
      if recResult key = .init then .waits (visited ++ [key]) moved else .pastEnd
  | key :: skipped :: rest =>
      if recResult key = .init then .waits (visited ++ key :: skipped :: rest) moved
      else waitLoop recResult (visited ++ [skipped]) (moved ++ [key]) rest

/-- The records that have been moved, and whether one of them has failed. -/
def DropStatement.moveRecords (stmt : DropStatement) (lstWaitRecord moved : List RowKey) :
    DropStatement :=
  { stmt with
    lstWaitRecord := lstWaitRecord
    lstFinishRecord := stmt.lstFinishRecord ++ moved
    stmtFailed := stmt.stmtFailed || moved.any fun key => stmt.recResult key = .error }

def DropStatement.mark (stmt : DropStatement) (recStatus : RecordStatus) : DropStatement :=
  { stmt with
    recStatus := fun key => if key ∈ stmt.lstFinishRecord then recStatus else stmt.recStatus key
    status := .finished }

/-- A new `_midVar`, and an action for the range of its first key. -/
def DropStatement.startScan (stmt : DropStatement) (catalog : Catalog) (table : SysTable) :
    Option DropStatement := do
  let first ← (catalog.keys table).head?
  let rangePos ← judgeRange (catalog.index table).vctRange first
  return { stmt with
    midVar := some { table := table, vctKeyRange := catalog.keys table }
    actions := stmt.actions ++ [{ rangePos := rangePos }]
    status := .executing }

/-- `SessionExec` in the status `Created`. It returns `Finished` when there is no database. -/
def DropStatement.execCreated (stmt : DropStatement) (catalog : Catalog) : Option DropStatement :=
  match catalog.dbDel with
  | none =>
      some { stmt with
        stmtFailed := stmt.stmtFailed || !catalog.ifExist
        bFinished := true
        status := .finished }
  | some dbDel =>
      if stmt.bDropingTable ∧ dbDel.tables ≠ [] then stmt.startScan catalog .sysTables
      else { stmt with bDropingTable := false }.startScan catalog .sysDbs

/-- The end of `Executing` behind the second phase. -/
def DropStatement.settle (stmt : DropStatement) : DropStatement :=
  if stmt.stmtFailed then stmt.mark .rollbacked else { stmt with status := .logging }

/-- `SessionExec` in the status `Executing`. -/
def DropStatement.execExecuting (stmt : DropStatement) : Option DropStatement :=
  if stmt.bFinished = false then some stmt
  else if stmt.bDropingTable then
    match waitLoop stmt.recResult [] [] stmt.lstWaitRecord with
    | .waits lstWaitRecord moved => some (stmt.moveRecords lstWaitRecord moved)
    | .pastEnd => some { stmt with crashed := true }
    | .done lstWaitRecord moved =>
        let stmt := { stmt.moveRecords lstWaitRecord moved with bDropingTable := false }
        if stmt.stmtFailed then some (stmt.mark .rollbacked)
        else some { stmt with midVar := none, bFinished := false, status := .created }
  else
    match stmt.lstWaitRecord with
    | [] => some stmt.settle
    | [key] =>
        if stmt.recResult key = .init then some stmt
        else some (stmt.moveRecords [] [key]).settle
    | _ :: _ :: _ => none

def DropStatement.sessionExec (stmt : DropStatement) (catalog : Catalog) : Option DropStatement :=
  match stmt.status with
  | .created => stmt.execCreated catalog
  | .executing => stmt.execExecuting
  | .logging => some (if stmt.isLogged then stmt.mark .commited else stmt)
  | _ => none

/-! ## The index task -/

/-- `AddLeafRecord` with the new record of a row. -/
def DropStatement.addLeafRecord (stmt : DropStatement) (key : RowKey) (recResult : RecordResult) :
    DropStatement :=
  let stmt := { stmt with
    touched := stmt.touched ++ [key]
    recResult := Function.update stmt.recResult key recResult }
  if recResult = .init then { stmt with lstWaitRecord := stmt.lstWaitRecord ++ [key] }
  else { stmt with lstFinishRecord := stmt.lstFinishRecord ++ [key] }

/-- What `SacnIndex` does at the end of a key range. An action for another range is added, and the
scan goes on all the same. -/
def DropStatement.endKeyRange (stmt : DropStatement) (catalog : Catalog) (midVar : MiddleVar)
    (pos : ℕ) (range : SysRange) : DropStatement :=
  let midVar := { midVar with keyPos := midVar.keyPos + 1 }
  let stmt := { stmt with midVar := some midVar }
  match midVar.vctKeyRange[midVar.keyPos]? with
  | none => { stmt with bFinished := true, actions := stmt.actions.eraseIdx pos }
  | some key =>
      match range.borderRecord with
      | none => { stmt with crashed := true }
      | some border =>
          if border < key then
            match calcIndexRange (catalog.index midVar.table).vctRange key with
            | none => { stmt with crashed := true }
            | some rangePos => { stmt with actions := stmt.actions ++ [{ rangePos := rangePos }] }
          else stmt

/-- `HandleLeafRecord` for the row that has been found, then the end of the key range. The statement
has failed if another lock is on the row; the assertion behind does not allow it to have failed with
a record. -/
def DropStatement.handleLeafRecord (stmt : DropStatement) (catalog : Catalog) (midVar : MiddleVar)
    (pos : ℕ) (range : SysRange) (key : RowKey) (recResult : RecordResult) :
    Option DropStatement :=
  if catalog.locked key = true ∨ key ∈ stmt.touched then
    some { stmt with
      stmtFailed := true
      bFinished := true
      actions := stmt.actions.eraseIdx pos }
  else if recResult = .error then none
  else some ((stmt.addLeafRecord key recResult).endKeyRange catalog midVar pos range)

/-- One turn of the loop in `SacnIndex`. -/
def DropStatement.scanTurn (stmt : DropStatement) (catalog : Catalog) (pos : ℕ)
    (recResult : RecordResult) : Option DropStatement := do
  let action ← stmt.actions[pos]?
  if action.scanning = false then none
  else
    match stmt.midVar with
    | none => some { stmt with crashed := true }
    | some midVar =>
        match midVar.vctKeyRange[midVar.keyPos]?,
          (catalog.index midVar.table).vctRange[action.rangePos]? with
        | some id, some range =>
            if id ∈ range.keys then
              stmt.handleLeafRecord catalog midVar pos range ⟨midVar.table, id⟩ recResult
            else some (stmt.endKeyRange catalog midVar pos range)
        | _, _ => some { stmt with crashed := true }

inductive DropEvent where
  | sessionExec
  /-- A task takes an action out of its queue and enters `SacnIndex`. -/
  | enter (pos : ℕ)
  | scanTurn (pos : ℕ) (recResult : RecordResult)
  /-- A page has to be read first; the action is executed again later. -/
  | interval (pos : ℕ)
  | setResult (key : RowKey) (recResult : RecordResult)
  | logged

def next (catalog : Catalog) (stmt : DropStatement) (event : DropEvent) : Option DropStatement :=
  if stmt.crashed then none
  else
    match event with
    | .sessionExec => stmt.sessionExec catalog
    | .enter pos => do
        let action ← stmt.actions[pos]?
        if stmt.stmtFailed then return { stmt with actions := stmt.actions.eraseIdx pos }
        else return { stmt with actions := stmt.actions.set pos { action with scanning := true } }
    | .scanTurn pos recResult => stmt.scanTurn catalog pos recResult
    | .interval pos => do
        let action ← stmt.actions[pos]?
        return { stmt with actions := stmt.actions.set pos { action with scanning := false } }
    | .setResult key recResult =>
        if key ∈ stmt.touched ∧ stmt.recResult key = .init ∧ recResult ≠ .init then
          some { stmt with recResult := Function.update stmt.recResult key recResult }
        else none
    | .logged => if stmt.status = .logging then some { stmt with isLogged := true } else none

/-! ## What dropping a database has to do -/

/-- The record of a row is there and committed. -/
def DropStatement.Deleted (stmt : DropStatement) (key : RowKey) : Prop :=
  key ∈ stmt.touched ∧ stmt.recStatus key = .commited

structure Drops (catalog : Catalog) (stmt : DropStatement) : Prop where
  notCrashed : stmt.crashed = false
  /-- The scan gets its key ranges in order. -/
  sorted : ∀ midVar, stmt.midVar = some midVar → midVar.vctKeyRange.Pairwise (· < ·)
  /-- Behind the first phase each of its records has a result and has been moved once. -/
  left : stmt.bDropingTable = false → ∀ key ∈ stmt.touched, key.table = .sysTables →
    stmt.recResult key ≠ .init ∧ stmt.lstFinishRecord.count key = 1
  deleted : stmt.status = .finished → stmt.stmtFailed = false →
    ∀ key, stmt.Deleted key ↔ catalog.Names key
  rollbacked : stmt.status = .finished → stmt.stmtFailed = true →
    ∀ key ∈ stmt.touched, stmt.recStatus key = .rollbacked

/-- A session starts the scan of tables whose numbers rise with their names and which are in one
range of a divided index, if there is more than one of them, and polls the first phase when no
record is waiting, or the first one has no result yet. -/
def Regular (catalog : Catalog) (stmt : DropStatement) : DropEvent → Prop
  | .sessionExec =>
      (stmt.status = .created → (catalog.keys .sysTables).Pairwise fun key next =>
        key < next ∧ (catalog.index .sysTables).Shares key next) ∧
      (stmt.status = .executing → stmt.bDropingTable = true → stmt.bFinished = true →
        ∀ key ∈ stmt.lstWaitRecord.head?, stmt.recResult key = .init)
  | _ => True

instance (catalog : Catalog) (stmt : DropStatement) (event : DropEvent) :
    Decidable (Regular catalog stmt event) :=
  match event with
  | .sessionExec => inferInstanceAs (Decidable (_ ∧ _))
  | .enter _ | .scanTurn _ _ | .interval _ | .setResult _ _ | .logged => isTrue trivial

end DropDatabase

end RapidDb
