import RapidDb.Statement.InsertStatement

/-!
# What the statements do in the session

`SessionExec` of the statement classes, from the point of view of the session: which status it
returns, and what it has written into the statement and its result by then. What a statement comes
upon (a name that exists, a value that cannot be converted, records with errors) is given to the
step. System records, directories, row counts and result sets are left out.
-/

namespace RapidDb

namespace Serv

inductive TranStatus where
  | init
  | inTran
  | autoTran
  | finished
deriving DecidableEq, Repr

inductive TranAction where
  | tranBegin
  | tranCommit
  | tranRollback
deriving DecidableEq, Repr

inductive ExprType where
  | insert
  | update
  | delete
  | tableSelect
  | createDatabase
  | dropDatabase
  | showDatabases
  | useDatabase
  | createTable
  | dropTable
  | showTables
  | trunTable
  | transaction (tranAction : TranAction)
deriving DecidableEq, Repr

namespace ExprType

def isSoleTran : ExprType → Bool
  | createDatabase | dropDatabase | createTable | dropTable => true
  | _ => false

def isReadonly : ExprType → Bool
  | insert | update | delete | createDatabase | dropDatabase | createTable | dropTable => false
  | _ => true

def onRows : ExprType → Bool
  | insert | update | delete | tableSelect => true
  | _ => false

/-- Index tasks scan an index for the statement. -/
def scans : ExprType → Bool
  | update | delete | tableSelect | dropDatabase | dropTable => true
  | _ => false

/-- At its end the statement marks the last of its finished records. -/
def takesLast : ExprType → Bool
  | createDatabase | createTable | dropTable => true
  | _ => false

/-- Index tasks may send error messages of the statement to the session. -/
def posts : ExprType → Bool
  | insert | update | delete | tableSelect | createDatabase | createTable => true
  | _ => false

end ExprType

/-- The entries of `_vctError`. -/
inductive ErrorText where
  | exprMismatchColumnValue
  /-- What a conversion has left in `_threadErrorMsg`. -/
  | convert
  /-- What `CheckColumnValues` has left in `_threadErrorMsg`. -/
  | columnValue
  | tbColumnUnnullable
  | ddlDatabaseExist
  | ddlDatabaseNotExist
  | ddlDatabaseCreateFailed
  | ddlTableExist
  | ddlTableNotExist
  | ddlTableCreateFailed
  | tranWithUnfinished
  | stmtLockConflict
  /-- The message in the lock of a record, or one of the index tasks. -/
  | record (text : String)
  /-- What the parser or `Preprocess` says. -/
  | parse (text : String)
  | failedToFindSession
deriving DecidableEq, Repr

structure StmtResult where
  bFailed : Bool := false
  vctError : List ErrorText := []
  /-- How often the status was set to `FINISHED`. -/
  finished : ℕ := 0
deriving DecidableEq, Repr

structure Statement where
  /-- Which of the statements of the session it is. -/
  number : ℕ
  type : ExprType
  /-- `IF EXISTS` or `IF NOT EXISTS` was given. -/
  ifExist : Bool := false
  status : StmtStatus := .created
  stmtFailed : Bool := false
  bDropingTable : Bool := true
  /-- The size of `_lstFinishRecord`. -/
  recordSize : ℕ := 0
  result : StmtResult := {}
deriving DecidableEq, Repr

/-- What a statement comes upon in a step. -/
inductive Finding where
  /-- The number of parameters is not that of the expression. -/
  | mismatch
  /-- A value cannot be copied. -/
  | convert
  /-- `CheckColumnValues` fails. -/
  | columnValue
  | unnullable
  /-- The database or table exists, and whether the database has tables. -/
  | found (tables : Bool)
  | missing
  /-- `create_directories` fails. -/
  | noDirectory
  /-- The table has no index that serves, or the statement no condition for one. -/
  | noIndex
  /-- What is used untested is not there: a value of `Calc`, the database of a new table, a table
  that is listed for its database, a system table. -/
  | absent
  /-- Nothing is in the way. -/
  | ready
  /-- The scan or a record is not yet finished. -/
  | waiting
  /-- The scan and all records are finished, some of them with errors. -/
  | ended (errors : List ErrorText) (records : ℕ)
deriving DecidableEq, Repr

/-- What is left of a call of `SessionExec`. -/
structure Exit where
  /-- What it returns. -/
  status : StmtStatus
  stmt : Statement
  /-- An assertion on the transaction status was violated. -/
  violated : Bool := false
  /-- A null pointer was followed, or the last element of an empty list was used. -/
  crashed : Bool := false
deriving DecidableEq, Repr

namespace Statement

def pushError (stmt : Statement) (error : ErrorText) : Statement :=
  { stmt with result := { stmt.result with vctError := stmt.result.vctError ++ [error] } }

/-- An error and `SetStmtFailed`. -/
def fail (stmt : Statement) (error : ErrorText) : Statement :=
  { stmt.pushError error with stmtFailed := true }

def setBFailed (stmt : Statement) : Statement :=
  { stmt with result := { stmt.result with bFailed := true } }

/-- `SetResultStatus(FINISHED)`. -/
def setResult (stmt : Statement) : Statement :=
  { stmt with result := { stmt.result with finished := stmt.result.finished + 1 } }

def setStatus (stmt : Statement) (status : StmtStatus) : Statement :=
  { stmt with status := status }

/-- `return _status` after a new status is set. -/
def exit (stmt : Statement) (status : StmtStatus) (violated : Bool) : Exit where
  status := status
  stmt := stmt.setStatus status
  violated := violated

/-- The program ends while the statement runs. -/
def crash (stmt : Statement) : Exit where
  status := .executing
  stmt := stmt.setStatus .executing
  crashed := true

/-- There is no last finished record to be marked. -/
def lacksRecord (stmt : Statement) : Bool := stmt.type.takesLast && stmt.recordSize = 0

/-- `IsAutoCommit` is called with another status. -/
def noTran (tranStatus : TranStatus) : Bool := tranStatus ≠ .autoTran && tranStatus ≠ .inTran

def collect (stmt : Statement) (errors : List ErrorText) (records : ℕ) : Statement :=
  { stmt with
    stmtFailed := stmt.stmtFailed || !errors.isEmpty
    recordSize := stmt.recordSize + records
    result := { stmt.result with vctError := stmt.result.vctError ++ errors } }

/-- INSERT, UPDATE and DELETE with all results. -/
def endRows (stmt : Statement) (tranStatus : TranStatus) : Exit :=
  if stmt.stmtFailed then stmt.setBFailed.setResult.exit .finished false
  else if tranStatus = .autoTran then stmt.exit .logging false
  else stmt.setResult.exit .executed (noTran tranStatus)

def endSelect (stmt : Statement) (tranStatus : TranStatus) : Exit :=
  if stmt.stmtFailed then stmt.setBFailed.setResult.exit .finished false
  else if tranStatus = .autoTran then stmt.setResult.exit .finished false
  else stmt.setResult.exit .executed (noTran tranStatus)

def endDdl (stmt : Statement) (tranStatus : TranStatus) : Exit :=
  if stmt.stmtFailed then
    if stmt.lacksRecord then stmt.crash else stmt.setBFailed.setResult.exit .finished false
  else stmt.exit .logging (tranStatus ≠ .autoTran)

/-- A statement whose log is to be written. -/
def waitLog (stmt : Statement) (bLogged : Bool) : Exit :=
  if bLogged then
    if stmt.lacksRecord then stmt.crash else stmt.setResult.exit .finished false
  else { status := .logging, stmt }

def go (stmt : Statement) (finding : Finding) (bLogged : Bool)
    (atEnd : List ErrorText → ℕ → Exit) : Option Exit :=
  match stmt.status, finding with
  | .executing, .waiting => some { status := .executing, stmt }
  | .executing, .ended errors records => some (atEnd errors records)
  | .logging, _ => some (stmt.waitLog bLogged)
  | _, _ => none

/-- `InsertStatement::InitRecord`. -/
def initRecord (stmt : Statement) : Finding → Option Exit
  | .mismatch => some { status := .finished, stmt := stmt.fail .exprMismatchColumnValue }
  | .convert => some { status := .finished, stmt := (stmt.fail .convert).setStatus .executed }
  | .columnValue =>
      some { status := .finished, stmt := (stmt.fail .columnValue).setStatus .executed }
  | .unnullable => some { status := .finished, stmt := stmt.fail .tbColumnUnnullable }
  | .noIndex | .absent => some stmt.crash
  | .ready => some (stmt.exit .executing false)
  | _ => none

def insertExec (stmt : Statement) (finding : Finding) (tranStatus : TranStatus)
    (bLogged : Bool) : Option Exit :=
  if stmt.status = .created then stmt.initRecord finding
  else stmt.go finding bLogged fun errors records =>
    (stmt.collect errors records).endRows tranStatus

/-- `_indexSearch` is used untested, and so are the values of `Calc` by `ConditionConvert`. -/
def startScan (stmt : Statement) : Finding → Option Exit
  | .mismatch => some { status := .finished, stmt := stmt.fail .exprMismatchColumnValue }
  | .convert => some { status := .finished, stmt := stmt.fail .convert }
  | .noIndex | .absent => some stmt.crash
  | .ready => some (stmt.exit .executing false)
  | _ => none

def updateExec (stmt : Statement) (finding : Finding) (tranStatus : TranStatus)
    (bLogged : Bool) : Option Exit :=
  if stmt.status = .created then stmt.startScan finding
  else stmt.go finding bLogged fun errors records =>
    (stmt.collect errors records).endRows tranStatus

def deleteExec (stmt : Statement) (finding : Finding) (tranStatus : TranStatus)
    (bLogged : Bool) : Option Exit :=
  if stmt.status = .created then stmt.startScan finding
  else stmt.go finding bLogged fun errors records =>
    (stmt.collect errors records).endRows tranStatus

/-- Only the wrong number of parameters finishes the result. -/
def startSelect (stmt : Statement) : Finding → Option Exit
  | .mismatch =>
    some { status := .finished, stmt := (stmt.fail .exprMismatchColumnValue).setResult }
  | .convert => some { status := .finished, stmt := stmt.fail .convert }
  | .noIndex | .absent => some stmt.crash
  | .ready => some (stmt.exit .executing false)
  | _ => none

def tableSelectExec (stmt : Statement) (finding : Finding) (tranStatus : TranStatus)
    (bLogged : Bool) : Option Exit :=
  if stmt.status = .created then stmt.startSelect finding
  else stmt.go finding bLogged fun errors records =>
    (stmt.collect errors records).endSelect tranStatus

/-- The name is in use, or there is nothing to drop. -/
def refuse (stmt : Statement) (error : ErrorText) : Exit :=
  if stmt.ifExist then stmt.setResult.exit .finished false
  else (stmt.fail error).setBFailed.setResult.exit .finished false

def startCreate (stmt : Statement) (exist createFailed : ErrorText) : Finding → Option Exit
  | .found _ => some (stmt.refuse exist)
  | .noDirectory => some { status := .finished, stmt := stmt.fail createFailed }
  | .absent => some stmt.crash
  | .ready => some (stmt.exit .executing false)
  | _ => none

def createDatabaseExec (stmt : Statement) (finding : Finding) (tranStatus : TranStatus)
    (bLogged : Bool) : Option Exit :=
  if stmt.status = .created then
    stmt.startCreate .ddlDatabaseExist .ddlDatabaseCreateFailed finding
  else stmt.go finding bLogged fun errors records =>
    (stmt.collect errors records).endDdl tranStatus

def createTableExec (stmt : Statement) (finding : Finding) (tranStatus : TranStatus)
    (bLogged : Bool) : Option Exit :=
  if stmt.status = .created then
    stmt.startCreate .ddlTableExist .ddlTableCreateFailed finding
  else stmt.go finding bLogged fun errors records =>
    (stmt.collect errors records).endDdl tranStatus

/-- A database without tables has nothing to do in the first round. The status stays when there is
no database. -/
def startDropDatabase (stmt : Statement) : Finding → Option Exit
  | .missing =>
      let exit := stmt.refuse .ddlDatabaseNotExist
      some { exit with stmt := exit.stmt.setStatus stmt.status }
  | .found tables =>
      some (({ stmt with bDropingTable := stmt.bDropingTable && tables }).exit .executing false)
  | .absent => some stmt.crash
  | _ => none

/-- Behind the records of the tables follows the one of the database. -/
def endDropDatabase (stmt : Statement) (tranStatus : TranStatus) : Exit :=
  if stmt.bDropingTable = true ∧ stmt.stmtFailed = false then
    ({ stmt with bDropingTable := false }).exit .created false
  else stmt.endDdl tranStatus

def dropDatabaseExec (stmt : Statement) (finding : Finding) (tranStatus : TranStatus)
    (bLogged : Bool) : Option Exit :=
  if stmt.status = .created then stmt.startDropDatabase finding
  else stmt.go finding bLogged fun errors records =>
    (stmt.collect errors records).endDropDatabase tranStatus

def startDropTable (stmt : Statement) : Finding → Option Exit
  | .missing => some (stmt.refuse .ddlTableNotExist)
  | .found _ => some (stmt.exit .executing false)
  | .absent => some stmt.crash
  | _ => none

def dropTableExec (stmt : Statement) (finding : Finding) (tranStatus : TranStatus)
    (bLogged : Bool) : Option Exit :=
  if stmt.status = .created then stmt.startDropTable finding
  else stmt.go finding bLogged fun errors records =>
    (stmt.collect errors records).endDdl tranStatus

def showExec (stmt : Statement) : Exit := stmt.setResult.exit .finished false

def useDatabaseExec (stmt : Statement) : Finding → Option Exit
  | .found _ => some (stmt.setResult.exit .finished false)
  | .missing => some { status := .finished, stmt := (stmt.fail .ddlDatabaseNotExist).setResult }
  | _ => none

def trunTableExec (stmt : Statement) : Exit := { status := .finished, stmt }

def failWithUnfinishedTran (stmt : Statement) : Statement :=
  (stmt.fail .tranWithUnfinished).setBFailed.setResult.setStatus .finished

/-- `SessionExec` of all classes but `StmtTransaction`. -/
def exec (stmt : Statement) (finding : Finding) (tranStatus : TranStatus) (bLogged : Bool) :
    Option Exit :=
  match stmt.type with
  | .insert => stmt.insertExec finding tranStatus bLogged
  | .update => stmt.updateExec finding tranStatus bLogged
  | .delete => stmt.deleteExec finding tranStatus bLogged
  | .tableSelect => stmt.tableSelectExec finding tranStatus bLogged
  | .createDatabase => stmt.createDatabaseExec finding tranStatus bLogged
  | .dropDatabase => stmt.dropDatabaseExec finding tranStatus bLogged
  | .showDatabases => some stmt.showExec
  | .useDatabase => stmt.useDatabaseExec finding
  | .createTable => stmt.createTableExec finding tranStatus bLogged
  | .dropTable => stmt.dropTableExec finding tranStatus bLogged
  | .showTables => some stmt.showExec
  | .trunTable => some stmt.trunTableExec
  | .transaction _ => none

/-! ## The ways in which a call can end -/

/-- The first step fails without an answer to the client, or with one that does not say so. -/
def failsSilently (stmt : Statement) : Finding → Bool
  | .mismatch | .convert | .columnValue | .unnullable | .noDirectory => true
  | .missing => stmt.type = .useDatabase
  | _ => false

def shows (stmt : Statement) : Bool := stmt.type = .showDatabases || stmt.type = .showTables

/-- The first step does all that is to be done. -/
def doneAtOnce (stmt : Statement) : Finding → Bool
  | .found _ => stmt.type = .useDatabase || stmt.shows || (stmt.type.isSoleTran && stmt.ifExist)
  | .missing => stmt.shows || (stmt.type.isSoleTran && stmt.ifExist)
  | _ => stmt.shows

/-- What the step uses is not there. -/
def faulty (stmt : Statement) (finding : Finding) (bLogged : Bool) : Bool :=
  match stmt.status, finding with
  | .created, .noIndex | .created, .absent => true
  | .executing, .ended errors records =>
      (stmt.collect errors records).stmtFailed && (stmt.collect errors records).lacksRecord
  | .logging, _ => bLogged && stmt.lacksRecord
  | _, _ => false

/-- One constructor for each kind of exit of `SessionExec`. -/
inductive Outcome (stmt : Statement) (finding : Finding) (tranStatus : TranStatus)
    (bLogged : Bool) : Exit → Prop where
  | started (created : stmt.status = .created)
      (works : stmt.type.onRows = true ∨ stmt.type.isSoleTran = true)
      (next : Statement) (same : next = { stmt with bDropingTable := next.bDropingTable }) :
      Outcome stmt finding tranStatus bLogged (next.exit .executing false)
  | crashed (faulty : stmt.faulty finding bLogged = true)
      (works : stmt.type.onRows = true ∨ stmt.type.isSoleTran = true) (next : Statement)
      (same : next.type = stmt.type) : Outcome stmt finding tranStatus bLogged next.crash
  | silent (created : stmt.status = .created) (silent : stmt.failsSilently finding = true)
      (next : Statement) (failed : next.stmtFailed = true) :
      Outcome stmt finding tranStatus bLogged { status := .finished, stmt := next }
  | truncated (type : stmt.type = .trunTable) :
      Outcome stmt finding tranStatus bLogged { status := .finished, stmt }
  | declined (created : stmt.status = .created) (error : ErrorText) (status : StmtStatus) :
      Outcome stmt finding tranStatus bLogged
        { status := .finished, stmt := (stmt.fail error).setBFailed.setResult.setStatus status }
  | done (first : stmt.status = .created ∨ stmt.shows = true)
      (atOnce : stmt.doneAtOnce finding = true) (status : StmtStatus) :
      Outcome stmt finding tranStatus bLogged
        { status := .finished, stmt := stmt.setResult.setStatus status }
  | waits (executing : stmt.status = .executing) :
      Outcome stmt finding tranStatus bLogged { status := .executing, stmt }
  | failed (executing : stmt.status = .executing) (errors : List ErrorText) (records : ℕ)
      (ended : finding = .ended errors records)
      (failed : (stmt.collect errors records).stmtFailed = true) :
      Outcome stmt finding tranStatus bLogged
        ((stmt.collect errors records).setBFailed.setResult.exit .finished false)
  | selected (executing : stmt.status = .executing) (errors : List ErrorText) (records : ℕ)
      (ended : finding = .ended errors records)
      (passed : (stmt.collect errors records).stmtFailed = false)
      (auto : tranStatus = .autoTran) :
      Outcome stmt finding tranStatus bLogged
        ((stmt.collect errors records).setResult.exit .finished false)
  | executed (executing : stmt.status = .executing) (errors : List ErrorText) (records : ℕ)
      (ended : finding = .ended errors records)
      (passed : (stmt.collect errors records).stmtFailed = false)
      (notAuto : tranStatus ≠ .autoTran) :
      Outcome stmt finding tranStatus bLogged
        ((stmt.collect errors records).setResult.exit .executed (noTran tranStatus))
  | again (executing : stmt.status = .executing) (errors : List ErrorText) (records : ℕ)
      (ended : finding = .ended errors records)
      (passed : (stmt.collect errors records).stmtFailed = false)
      (type : stmt.type.isSoleTran = true) :
      Outcome stmt finding tranStatus bLogged
        (({ stmt.collect errors records with bDropingTable := false }).exit .created false)
  | logs (executing : stmt.status = .executing) (errors : List ErrorText) (records : ℕ)
      (ended : finding = .ended errors records)
      (passed : (stmt.collect errors records).stmtFailed = false) (violated : Bool)
      (assertion : violated = true ↔ tranStatus ≠ .autoTran)
      (auto : stmt.type.isSoleTran = false → tranStatus = .autoTran) :
      Outcome stmt finding tranStatus bLogged ((stmt.collect errors records).exit .logging violated)
  | waitsLog (logging : stmt.status = .logging) (notLogged : bLogged = false) :
      Outcome stmt finding tranStatus bLogged { status := .logging, stmt }
  | logged (logging : stmt.status = .logging) (isLogged : bLogged = true) :
      Outcome stmt finding tranStatus bLogged (stmt.setResult.exit .finished false)

variable {stmt : Statement} {finding : Finding} {tranStatus : TranStatus} {bLogged : Bool}
  {exit : Exit}

theorem faulty_of_created (created : stmt.status = .created) {bLogged' : Bool} :
    stmt.faulty finding bLogged = stmt.faulty finding bLogged' := by
  unfold faulty
  rw [created]
  cases finding <;> rfl

theorem works_of_lacksRecord (lacks : stmt.lacksRecord = true) :
    stmt.type.onRows = true ∨ stmt.type.isSoleTran = true := by
  unfold lacksRecord at lacks
  cases type : stmt.type <;> simp_all [ExprType.takesLast, ExprType.isSoleTran]

theorem outcome_waitLog (logging : stmt.status = .logging) :
    Outcome stmt finding tranStatus bLogged (stmt.waitLog bLogged) := by
  unfold waitLog
  cases isLogged : bLogged with
  | false => exact .waitsLog logging rfl
  | true =>
      cases lacks : stmt.lacksRecord with
      | false => exact .logged logging rfl
      | true =>
          exact .crashed (by simp [faulty, logging, lacks]) (works_of_lacksRecord lacks) stmt rfl

theorem outcome_go {atEnd : List ErrorText → ℕ → Exit}
    (ends : ∀ errors records, stmt.status = .executing → finding = .ended errors records →
      Outcome stmt finding tranStatus bLogged (atEnd errors records))
    (step : stmt.go finding bLogged atEnd = some exit) :
    Outcome stmt finding tranStatus bLogged exit := by
  unfold go at step
  split at step
  · rename_i executing
    cases step
    exact .waits executing
  · rename_i errors records executing
    cases step
    exact ends errors records executing rfl
  · rename_i logging
    cases step
    exact outcome_waitLog logging
  · cases step

section

variable {errors : List ErrorText} {records : ℕ}

theorem outcome_endRows (executing : stmt.status = .executing)
    (ended : finding = .ended errors records) :
    Outcome stmt finding tranStatus bLogged ((stmt.collect errors records).endRows tranStatus) := by
  unfold endRows
  cases failed : (stmt.collect errors records).stmtFailed with
  | true => exact .failed executing errors records ended failed
  | false =>
      by_cases auto : tranStatus = .autoTran
      · rw [if_neg (by decide), if_pos auto]
        exact .logs executing errors records ended failed false (by simp [auto]) fun _ => auto
      · rw [if_neg (by decide), if_neg auto]
        exact .executed executing errors records ended failed auto

theorem outcome_endSelect (executing : stmt.status = .executing)
    (ended : finding = .ended errors records) :
    Outcome stmt finding tranStatus bLogged
      ((stmt.collect errors records).endSelect tranStatus) := by
  unfold endSelect
  cases failed : (stmt.collect errors records).stmtFailed with
  | true => exact .failed executing errors records ended failed
  | false =>
      by_cases auto : tranStatus = .autoTran
      · rw [if_neg (by decide), if_pos auto]
        exact .selected executing errors records ended failed auto
      · rw [if_neg (by decide), if_neg auto]
        exact .executed executing errors records ended failed auto

theorem outcome_endDdl (sole : stmt.type.isSoleTran = true) (executing : stmt.status = .executing)
    (ended : finding = .ended errors records) :
    Outcome stmt finding tranStatus bLogged ((stmt.collect errors records).endDdl tranStatus) := by
  unfold endDdl
  cases failed : (stmt.collect errors records).stmtFailed with
  | true =>
      cases lacks : (stmt.collect errors records).lacksRecord with
      | false => exact .failed executing errors records ended failed
      | true =>
          exact .crashed (by simp [faulty, executing, ended, failed, lacks]) (.inr sole)
            (stmt.collect errors records) rfl
  | false =>
      refine .logs executing errors records ended failed _ (by simp) fun rows => ?_
      rw [sole] at rows
      cases rows

theorem outcome_endDropDatabase (sole : stmt.type.isSoleTran = true)
    (executing : stmt.status = .executing) (ended : finding = .ended errors records) :
    Outcome stmt finding tranStatus bLogged
      ((stmt.collect errors records).endDropDatabase tranStatus) := by
  unfold endDropDatabase
  split
  · rename_i dropping
    exact .again executing errors records ended dropping.2 sole
  · exact outcome_endDdl sole executing ended

end

theorem doneAtOnce_of_named (sole : stmt.type.isSoleTran = true) (given : stmt.ifExist = true)
    (named : finding = .missing ∨ ∃ tables, finding = .found tables) :
    stmt.doneAtOnce finding = true := by
  rcases named with missing | ⟨tables, found⟩
  · simp [missing, doneAtOnce, sole, given]
  · simp [found, doneAtOnce, sole, given]

theorem setStatus_refuse (stmt : Statement) (error : ErrorText) :
    { stmt.refuse error with stmt := (stmt.refuse error).stmt.setStatus .finished } =
      stmt.refuse error := by
  unfold refuse
  split <;> rfl

section

variable (created : stmt.status = .created)

include created

theorem outcome_start (works : stmt.type.onRows = true ∨ stmt.type.isSoleTran = true) :
    Outcome stmt finding tranStatus bLogged (stmt.exit .executing false) :=
  .started created works stmt rfl

theorem outcome_crash (works : stmt.type.onRows = true ∨ stmt.type.isSoleTran = true)
    (lacks : finding = .noIndex ∨ finding = .absent) :
    Outcome stmt finding tranStatus bLogged stmt.crash := by
  refine .crashed ?_ works stmt rfl
  rcases lacks with rfl | rfl <;> simp [faulty, created]

theorem outcome_initRecord (rows : stmt.type.onRows = true)
    (step : stmt.initRecord finding = some exit) :
    Outcome stmt finding tranStatus bLogged exit := by
  cases finding with
  | noIndex | absent =>
      cases step
      exact outcome_crash created (.inl rows) (by simp)
  | mismatch | convert | columnValue | unnullable =>
      cases step
      exact .silent created rfl _ rfl
  | ready =>
      cases step
      exact outcome_start created (.inl rows)
  | _ => cases step

theorem outcome_startScan (rows : stmt.type.onRows = true)
    (step : stmt.startScan finding = some exit) : Outcome stmt finding tranStatus bLogged exit := by
  cases finding with
  | noIndex | absent =>
      cases step
      exact outcome_crash created (.inl rows) (by simp)
  | mismatch | convert =>
      cases step
      exact .silent created rfl _ rfl
  | ready =>
      cases step
      exact outcome_start created (.inl rows)
  | _ => cases step

theorem outcome_startSelect (rows : stmt.type.onRows = true)
    (step : stmt.startSelect finding = some exit) :
    Outcome stmt finding tranStatus bLogged exit := by
  cases finding with
  | noIndex | absent =>
      cases step
      exact outcome_crash created (.inl rows) (by simp)
  | mismatch | convert =>
      cases step
      exact .silent created rfl _ rfl
  | ready =>
      cases step
      exact outcome_start created (.inl rows)
  | _ => cases step

theorem outcome_refuse (sole : stmt.type.isSoleTran = true)
    (named : finding = .missing ∨ ∃ tables, finding = .found tables) (error : ErrorText)
    (status : StmtStatus) :
    Outcome stmt finding tranStatus bLogged
      { stmt.refuse error with stmt := (stmt.refuse error).stmt.setStatus status } := by
  unfold refuse
  cases given : stmt.ifExist with
  | true => exact .done (.inl created) (doneAtOnce_of_named sole given named) status
  | false => exact .declined created error status

theorem outcome_startCreate {exist createFailed : ErrorText} (sole : stmt.type.isSoleTran = true)
    (step : stmt.startCreate exist createFailed finding = some exit) :
    Outcome stmt finding tranStatus bLogged exit := by
  cases finding with
  | found tables =>
      cases step
      rw [← setStatus_refuse]
      exact outcome_refuse created sole (.inr ⟨tables, rfl⟩) exist .finished
  | noDirectory =>
      cases step
      exact .silent created rfl _ rfl
  | absent =>
      cases step
      exact outcome_crash created (.inr sole) (.inr rfl)
  | ready =>
      cases step
      exact outcome_start created (.inr sole)
  | _ => cases step

theorem outcome_startDropDatabase (sole : stmt.type.isSoleTran = true)
    (step : stmt.startDropDatabase finding = some exit) :
    Outcome stmt finding tranStatus bLogged exit := by
  cases finding with
  | missing =>
      cases step
      exact outcome_refuse created sole (.inl rfl) .ddlDatabaseNotExist stmt.status
  | found tables =>
      cases step
      exact .started created (.inr sole) _ rfl
  | absent =>
      cases step
      exact outcome_crash created (.inr sole) (.inr rfl)
  | _ => cases step

theorem outcome_startDropTable (sole : stmt.type.isSoleTran = true)
    (step : stmt.startDropTable finding = some exit) :
    Outcome stmt finding tranStatus bLogged exit := by
  cases finding with
  | missing =>
      cases step
      rw [← setStatus_refuse]
      exact outcome_refuse created sole (.inl rfl) .ddlTableNotExist .finished
  | found tables =>
      cases step
      exact outcome_start created (.inr sole)
  | absent =>
      cases step
      exact outcome_crash created (.inr sole) (.inr rfl)
  | _ => cases step

theorem outcome_useDatabaseExec (type : stmt.type = .useDatabase)
    (step : stmt.useDatabaseExec finding = some exit) :
    Outcome stmt finding tranStatus bLogged exit := by
  cases finding with
  | missing =>
      cases step
      exact .silent created (by simp [failsSilently, type]) _ rfl
  | found tables =>
      cases step
      exact .done (.inl created) (by simp [doneAtOnce, type]) .finished
  | _ => cases step

end

theorem outcome_exec (use : stmt.type = .useDatabase → stmt.status = .created)
    (step : stmt.exec finding tranStatus bLogged = some exit) :
    Outcome stmt finding tranStatus bLogged exit := by
  cases type : stmt.type with
  | insert =>
      simp only [exec, type, insertExec] at step
      split at step
      · rename_i created
        exact outcome_initRecord created (by simp [type, ExprType.onRows]) step
      · exact outcome_go (fun _ _ executing ended => outcome_endRows executing ended) step
  | update =>
      simp only [exec, type, updateExec] at step
      split at step
      · rename_i created
        exact outcome_startScan created (by simp [type, ExprType.onRows]) step
      · exact outcome_go (fun _ _ executing ended => outcome_endRows executing ended) step
  | delete =>
      simp only [exec, type, deleteExec] at step
      split at step
      · rename_i created
        exact outcome_startScan created (by simp [type, ExprType.onRows]) step
      · exact outcome_go (fun _ _ executing ended => outcome_endRows executing ended) step
  | tableSelect =>
      simp only [exec, type, tableSelectExec] at step
      split at step
      · rename_i created
        exact outcome_startSelect created (by simp [type, ExprType.onRows]) step
      · exact outcome_go (fun _ _ executing ended => outcome_endSelect executing ended) step
  | createDatabase =>
      have sole : stmt.type.isSoleTran = true := by simp [type, ExprType.isSoleTran]
      simp only [exec, type, createDatabaseExec] at step
      split at step
      · rename_i created
        exact outcome_startCreate created sole step
      · exact outcome_go (fun _ _ executing ended => outcome_endDdl sole executing ended) step
  | dropDatabase =>
      have sole : stmt.type.isSoleTran = true := by simp [type, ExprType.isSoleTran]
      simp only [exec, type, dropDatabaseExec] at step
      split at step
      · rename_i created
        exact outcome_startDropDatabase created sole step
      · exact outcome_go (fun _ _ executing ended => outcome_endDropDatabase sole executing ended)
          step
  | showDatabases =>
      simp only [exec, type] at step
      cases step
      refine .done (.inr (by simp [shows, type])) ?_ .finished
      cases finding <;> simp [doneAtOnce, shows, type]
  | useDatabase =>
      simp only [exec, type] at step
      exact outcome_useDatabaseExec (use type) type step
  | createTable =>
      have sole : stmt.type.isSoleTran = true := by simp [type, ExprType.isSoleTran]
      simp only [exec, type, createTableExec] at step
      split at step
      · rename_i created
        exact outcome_startCreate created sole step
      · exact outcome_go (fun _ _ executing ended => outcome_endDdl sole executing ended) step
  | dropTable =>
      have sole : stmt.type.isSoleTran = true := by simp [type, ExprType.isSoleTran]
      simp only [exec, type, dropTableExec] at step
      split at step
      · rename_i created
        exact outcome_startDropTable created sole step
      · exact outcome_go (fun _ _ executing ended => outcome_endDdl sole executing ended) step
  | showTables =>
      simp only [exec, type] at step
      cases step
      refine .done (.inr (by simp [shows, type])) ?_ .finished
      cases finding <;> simp [doneAtOnce, shows, type]
  | trunTable =>
      simp only [exec, type] at step
      cases step
      exact .truncated type
  | transaction action =>
      simp only [exec, type] at step
      cases step

end Statement

end Serv

end RapidDb
