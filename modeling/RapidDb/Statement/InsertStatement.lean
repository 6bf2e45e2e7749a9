import Mathlib.Logic.Function.Basic
import RapidDb.Core.CoreEnum
import RapidDb.Library.Transition

/-!
# INSERT statements

The session checks one row after the other and sends an action for each of them. An index task makes
a leaf record for each index of the table, adds actions that put them into leaf pages, and sends the
session a message with the records. The session goes on when it has counted the records of all rows
and none of them is without result.

Session, index tasks and the actions of the records run at the same time. What is one step here is a
part of a function in which at most one access to what others use matters.
-/

namespace RapidDb

open Transition

inductive StmtStatus where
  | created
  | executing
  | executed
  | logging
  | logged
  | finished
deriving DecidableEq, Repr

inductive ActionStatus where
  | init
  | interval
  | suceed
  | failed
deriving DecidableEq, Repr

/-- The errors of `InitRecord`. -/
inductive InitError where
  /-- The number of parameters is not that of the statement. -/
  | mismatch
  /-- A value is calculated to a null pointer, or the program ends while it is converted. -/
  | noValue
  /-- A value cannot be copied into its column. -/
  | convert
  /-- `CheckColumnValues` fails. -/
  | columnValue
  | unnullable
deriving DecidableEq, Repr

/-- What becomes of a value that is given in `Calc` and `Copy`. -/
inductive GivenValue where
  | missing
  | refused
  | copied
deriving DecidableEq

/-- What is looked at of a column and its value. -/
structure ColumnValue where
  hasInitVal : Bool := false
  isNull : Bool := false
  hasDefault : Bool := false
  nullable : Bool := false

structure RowData where
  values : List GivenValue := []
  checked : Bool := true
  columns : List ColumnValue := []
  /-- For each index, whether the leaf record is valid. -/
  leafValid : List Bool := []
  /-- The thread that executes the action has the message of an earlier error. -/
  threadErrorMsg : Bool := false

namespace RowData

/-- The body of the loop of `InitRecord` up to the action. -/
def check (row : RowData) : Except InitError RowData :=
  match row.values.find? (decide <| · ≠ .copied) with
  | some .missing => .error .noValue
  | some _ => .error .convert
  | none =>
      if !row.checked then .error .columnValue
      else if row.columns.any fun col =>
          !col.hasInitVal && (col.isNull && (!col.hasDefault && !col.nullable)) then
        .error .unnullable
      else .ok row

end RowData

/-- A list of parameters, and the rows of the statement with them. -/
structure ParamList where
  size : ℕ
  rows : List RowData

structure InsertInput where
  /-- The number of secondary indexes. -/
  secondary : ℕ
  autoCommit : Bool := true
  paraSz : ℕ := 0
  vctParas : List ParamList

namespace InsertInput

/-- How many leaf records are made for a row. -/
def leafNum (input : InsertInput) : ℕ := input.secondary + 1

/-- What `InitRecord` finds for one row after the other. -/
def checks (input : InsertInput) : List (Except InitError RowData) :=
  input.vctParas.flatMap fun pvct =>
    if pvct.size ≠ input.paraSz then [.error .mismatch] else pvct.rows.map RowData.check

end InsertInput

inductive RowStage where
  /-- It has not been sent. -/
  | unsent
  /-- Before the test of `IsStmtFailed`. -/
  | queued
  | creating
  /-- A record is not valid: the message with the error is to be sent. -/
  | reporting
  /-- The statement is to be marked as failed. -/
  | marking
  /-- So many records have been handed to their index. -/
  | pushing (num : ℕ)
  /-- The number of records is to be set. -/
  | counting
  /-- The message with the records is to be sent. -/
  | sending
  /-- The status of the row is to be set. -/
  | storing (status : ActionStatus)
  | done
deriving DecidableEq, Repr

namespace RowStage

/-- The next step looks at the statement. -/
def usesStatement : RowStage → Bool
  | .queued => true
  | .creating => true
  | .reporting => true
  | .marking => true
  | .sending => true
  | _ => false

end RowStage

/-- `StmtInsertRecord` and its action. -/
structure StmtInsertRecord where
  stage : RowStage := .unsent
  status : ActionStatus := .init
  numLeafRecord : ℕ := 0
deriving DecidableEq

/-- A leaf record by its row and its index. -/
structure RecordId where
  row : ℕ
  index : ℕ
deriving DecidableEq, Repr

inductive SessionMessage where
  /-- `SessionRecordAction` with the records of a row. -/
  | records (row : ℕ)
  /-- `SessionErrMsgAction`. -/
  | errMsg
deriving DecidableEq

inductive ExecStage where
  /-- Between calls, where messages are delivered. -/
  | idle
  /-- In `AddLeafRecords`. -/
  | adding (row pos : ℕ)
  /-- In the loop of `InitRecord`. -/
  | init (i : ℕ)
  /-- In the loop over the rows. -/
  | rows (i : ℕ)
  /-- In the loop over the waiting records. -/
  | waits (i : ℕ)
  /-- Behind both loops. -/
  | concluding
  | rollback (i : ℕ)
  | commit (i : ℕ)
  /-- `SessionExec` has returned `Finished`. -/
  | closing
  /-- The transaction has been closed and the statement deleted. -/
  | ended
deriving DecidableEq, Repr

structure InsertStatement where
  status : StmtStatus := .created
  stmtFailed : Bool := false
  lstRecord : List ℕ := []
  cntLeafRec : ℕ := 0
  lstWaitRecord : List RecordId := []
  lstFinishRecord : List RecordId := []
  stage : ExecStage := .idle
  rows : ℕ → StmtInsertRecord := fun _ => {}
  messages : List SessionMessage := []
  recResult : RecordId → RecordResult := fun _ => .init
  recStatus : RecordId → RecordStatus := fun _ => .init
  /-- The rows whose records have been counted. -/
  counted : List ℕ := []
  /-- The rows that have been found to have failed. -/
  dropped : List ℕ := []
  /-- A message or a value that is not there has been used. -/
  crashed : Bool := false

inductive InsertEvent where
  /-- The session executes a message. -/
  | deliver (i : ℕ)
  /-- The next step of the session. -/
  | exec
  /-- The next step of the action of a row. -/
  | row (r : ℕ)
  /-- The action of a record puts it into a page or sets its error. -/
  | recordAction (id : RecordId) (ok : Bool)
  /-- The session finds that the log has been written. -/
  | logged

namespace InsertStatement

def setRow (stmt : InsertStatement) (r : ℕ) (row : StmtInsertRecord) : InsertStatement :=
  { stmt with rows := Function.update stmt.rows r row }

def atStage (stmt : InsertStatement) (stage : ExecStage) : InsertStatement :=
  { stmt with stage }

/-- A record whose result has been found is finished. -/
def finish (stmt : InsertStatement) (id : RecordId) : InsertStatement :=
  { stmt with
    lstFinishRecord := stmt.lstFinishRecord ++ [id]
    stmtFailed := stmt.stmtFailed || decide (stmt.recResult id = .error) }

/-- An iteration of `AddLeafRecords`. -/
def addLeafRecord (stmt : InsertStatement) (id : RecordId) : InsertStatement :=
  if stmt.recResult id = .init then { stmt with lstWaitRecord := stmt.lstWaitRecord ++ [id] }
  else stmt.finish id

/-- The session begins to execute a message. -/
def receive (stmt : InsertStatement) : SessionMessage → InsertStatement
  | .records r => stmt.atStage (.adding r 0)
  | .errMsg => stmt

/-- The next step of the session; none if it has nothing to do. -/
def execStep (input : InsertInput) (stmt : InsertStatement) : Option InsertStatement :=
  match stmt.stage with
  | .idle =>
      match stmt.status with
      | .created => some (stmt.atStage (.init 0))
      | .executing => some (stmt.atStage (.rows 0))
      | _ => none
  | .adding row pos =>
      if pos < input.leafNum then
        some ((stmt.addLeafRecord ⟨row, pos⟩).atStage (.adding row (pos + 1)))
      else
        some (stmt.atStage .idle)
  | .init i =>
      match input.checks[i]? with
      | some (.ok _) =>
          some { stmt.setRow i { stage := .queued } with
            lstRecord := stmt.lstRecord ++ [i], stage := .init (i + 1) }
      -- the value is used without a test
      | some (.error .noValue) => some { stmt with crashed := true }
      | some (.error error) =>
          some { stmt with
            stmtFailed := true
            status := if error = .convert ∨ error = .columnValue then .executed else stmt.status
            stage := .closing }
      | none => some { stmt with status := .executing, stage := .idle }
  | .rows i =>
      match stmt.lstRecord[i]? with
      | some r =>
          match (stmt.rows r).status with
          | .init => some (stmt.atStage (.rows (i + 1)))
          | .suceed =>
              some { stmt with
                cntLeafRec := (stmt.cntLeafRec + (stmt.rows r).numLeafRecord) % 2 ^ 32
                lstRecord := stmt.lstRecord.eraseIdx i
                counted := stmt.counted ++ [r] }
          | _ =>
              some { stmt with
                lstRecord := stmt.lstRecord.eraseIdx i, dropped := stmt.dropped ++ [r] }
      | none => some (stmt.atStage (if stmt.lstRecord = [] then .waits 0 else .idle))
  | .waits i =>
      match stmt.lstWaitRecord[i]? with
      | some id =>
          if stmt.recResult id = .init then some (stmt.atStage (.waits (i + 1)))
          else some { stmt.finish id with lstWaitRecord := stmt.lstWaitRecord.eraseIdx i }
      | none => some (stmt.atStage .concluding)
  | .concluding =>
      if stmt.lstFinishRecord.length < stmt.cntLeafRec then some (stmt.atStage .idle)
      else if stmt.stmtFailed then some (stmt.atStage (.rollback 0))
      else if input.autoCommit then some { stmt with status := .logging, stage := .idle }
      else some { stmt with status := .executed, stage := .idle }
  | .rollback i =>
      match stmt.lstFinishRecord[i]? with
      | some id =>
          some { stmt with
            recStatus := Function.update stmt.recStatus id .rollbacked, stage := .rollback (i + 1) }
      | none => some { stmt with status := .finished, stage := .closing }
  | .commit i =>
      match stmt.lstFinishRecord[i]? with
      | some id =>
          some { stmt with
            recStatus := Function.update stmt.recStatus id .commited, stage := .commit (i + 1) }
      | none => some { stmt with status := .finished, stage := .closing }
  | .closing => some (stmt.atStage .ended)
  | .ended => none

/-- The next step of `StmtInsertAction::Exec` for a row. -/
def rowStep (input : InsertInput) (stmt : InsertStatement) (r : ℕ) : Option InsertStatement :=
  let row := stmt.rows r
  let go (stage : RowStage) : InsertStatement := stmt.setRow r { row with stage }
  match row.stage with
  | .unsent => none
  | .queued => some (go (if stmt.stmtFailed then .storing .failed else .creating))
  | .creating =>
      match input.checks[r]? with
      | some (.ok data) =>
          if data.leafValid.all id then some (go (.pushing 0))
          else if data.threadErrorMsg then some (go .reporting)
          -- no message is set for a record that is not valid
          else some { stmt with crashed := true }
      | _ => none
  | .reporting => some { go .marking with messages := stmt.messages ++ [.errMsg] }
  | .marking => some { go (.storing .failed) with stmtFailed := true }
  | .pushing num => some (go (if num < input.leafNum then .pushing (num + 1) else .counting))
  | .counting =>
      some (stmt.setRow r { row with
        stage := .sending, numLeafRecord := input.leafNum % 2 ^ 32 })
  | .sending => some { go (.storing .suceed) with messages := stmt.messages ++ [.records r] }
  | .storing status => some (stmt.setRow r { row with stage := .done, status })
  | .done => none

/-- The action of a record has been added to its index. -/
def isPushed (input : InsertInput) (row : StmtInsertRecord) (pos : ℕ) : Bool :=
  match row.stage with
  | .pushing num => decide (pos < num)
  | .counting => decide (pos < input.leafNum)
  | .sending => decide (pos < input.leafNum)
  | .storing .suceed => decide (pos < input.leafNum)
  | .done => decide (row.status = .suceed ∧ pos < input.leafNum)
  | _ => false

/-- One step; none if it is not the turn of what should do it, or the statement has been deleted. -/
def step (input : InsertInput) (stmt : InsertStatement) : InsertEvent → Option InsertStatement
  | .deliver i =>
      if stmt.stage = .idle then
        (stmt.messages[i]?).map { stmt with messages := stmt.messages.eraseIdx i }.receive
      else
        none
  | .exec => stmt.execStep input
  | .row r =>
      if stmt.stage = .ended ∧ (stmt.rows r).stage.usesStatement = true then none
      else stmt.rowStep input r
  | .recordAction id ok =>
      if isPushed input (stmt.rows id.row) id.index = true ∧ stmt.recResult id = .init then
        -- a record that has been rolled back is deleted
        if stmt.recStatus id = .init then
          some { stmt with
            recResult := Function.update stmt.recResult id (if ok then .inPage else .error) }
        else
          some stmt
      else
        none
  | .logged =>
      if stmt.status = .logging ∧ stmt.stage = .idle then some (stmt.atStage (.commit 0)) else none

end InsertStatement

end RapidDb
