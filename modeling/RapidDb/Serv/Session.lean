import RapidDb.Serv.SessionExec

/-!
# Sessions

A session runs its statements one by one. `SessionTask::Run` gives each session of its groups a call
of `Exec`, and deletes a closed session that has nothing to run. Requests of the client, index
tasks, the log and `SessionCleaner` do their steps in between. Sessions do not look at each other,
so the steps are those of one session.

The statement that runs is also in the list of its transaction; here the list has the others. What
is counted and written down besides: the ends of explicit transactions, the statements in the order
in which the session was done with them, and messages that come after that.
-/

namespace RapidDb

open Transition

namespace Serv

inductive Place where
  | mapSession
  | obsoleteSession
  /-- Taken out of the obsolete sessions by `SessionCleaner`. -/
  | erased
  | deleted
deriving DecidableEq, Repr

/-- What an explicit transaction was ended by. -/
inductive TranEnd where
  | commit
  | rollback
  | failedStatement
  | otherStatement
deriving DecidableEq, Repr

/-- A message of an index task that is on its way. -/
structure ErrMsgAction where
  number : ℕ
  errMsg : ErrorText
deriving DecidableEq, Repr

structure Session where
  place : Place := .mapSession
  tranStatus : TranStatus := .init
  bLogged : Bool := false
  /-- The statements of the transaction but the one that runs. -/
  lstStatement : List Statement := []
  currStatement : Option Statement := none
  lstWaittingStmt : List Statement := []
  errMsgActions : List ErrMsgAction := []
  /-- How many statements were sent. -/
  submitted : ℕ := 0
  /-- The statements that are deleted or left in the transaction, as they were then. -/
  disposed : List Statement := []
  /-- The results of texts no statement was made of. -/
  refused : List StmtResult := []
  tranEnds : List TranEnd := []
  /-- An assertion on the transaction status was violated. -/
  violated : Bool := false
  /-- A result was written after the session was done with its statement. -/
  late : Bool := false
  /-- The program has ended at a pointer or an element that is not there. -/
  crashed : Bool := false
deriving DecidableEq, Repr

namespace Session

def noTran (session : Session) : Bool :=
  session.tranStatus = .finished || session.tranStatus = .init

/-- `IsEmpty`. -/
def isEmpty (session : Session) : Bool :=
  session.currStatement.isNone && session.lstWaittingStmt.isEmpty &&
    (session.lstStatement.isEmpty && session.noTran)

/-- `Transaction::IsNeedLog`. -/
def isNeedLog (session : Session) : Bool :=
  session.lstStatement.any fun stmt => !stmt.type.isReadonly && stmt.recordSize != 0

def startTransaction (session : Session) (bAuto : Bool) : Session :=
  { session with
    violated := session.violated || !session.noTran
    tranStatus := if bAuto then .autoTran else .inTran
    bLogged := false }

def closeTransaction (session : Session) (tranEnd : TranEnd) : Session :=
  { session with
    tranEnds := if session.tranStatus = .inTran then session.tranEnds ++ [tranEnd]
      else session.tranEnds
    tranStatus := .finished
    lstStatement := [] }

def setCurrent (session : Session) (stmt : Statement) : Session :=
  { session with currStatement := some stmt }

/-- The session is done with a statement. -/
def dispose (session : Session) (stmt : Statement) : Session :=
  { session with currStatement := none, disposed := session.disposed ++ [stmt] }

def setViolated (session : Session) (violated : Bool) : Session :=
  { session with violated := session.violated || violated }

/-- `StmtTransaction::SessionExec`. -/
def transactionExec (session : Session) (stmt : Statement) : TranAction → Exit × Session
  | .tranBegin => (stmt.setResult.exit .finished false, session.startTransaction false)
  | .tranCommit =>
      if stmt.status = .created ∧ session.isNeedLog = true then (stmt.exit .logging false, session)
      else if stmt.status = .logging ∧ session.bLogged = false then
        ({ status := .logging, stmt }, session)
      else (stmt.setResult.exit .finished false, session.closeTransaction .commit)
  | .tranRollback => (stmt.setResult.exit .finished false, session.closeTransaction .rollback)

/-- The call of `SessionExec`. -/
def sessionExec (session : Session) (stmt : Statement) (finding : Finding) :
    Option (Exit × Session) :=
  match stmt.type with
  | .transaction tranAction => some (session.transactionExec stmt tranAction)
  | _ => (stmt.exec finding session.tranStatus session.bLogged).map fun exit => (exit, session)

/-- What a statement that is finished means for an explicit transaction. -/
def endOf (stmt : Statement) : TranEnd :=
  if stmt.stmtFailed then .failedStatement
  else if stmt.type = .transaction .tranCommit then .commit
  else .otherStatement

def setCrashed (session : Session) (crashed : Bool) : Session :=
  { session with crashed }

/-- The end of `Session::Exec`. -/
def settle (session : Session) (exit : Exit) : Session :=
  match exit.status with
  | .finished =>
      ((session.setViolated exit.violated).closeTransaction (endOf exit.stmt)).dispose exit.stmt
  | .executed =>
      let session := session.setViolated (exit.violated ||
        (session.tranStatus = .autoTran || Statement.noTran session.tranStatus))
      ({ session with lstStatement := session.lstStatement ++ [exit.stmt] }).dispose exit.stmt
  | _ => ((session.setViolated exit.violated).setCurrent exit.stmt).setCrashed exit.crashed

def runCurrent (session : Session) (stmt : Statement) (finding : Finding) : Option Session :=
  (session.sessionExec stmt finding).map fun step => step.2.settle step.1

theorem outcome_runCurrent {session session' : Session} {stmt : Statement} {finding : Finding}
    (notControl : ∀ tranAction, stmt.type ≠ .transaction tranAction)
    (use : stmt.type = .useDatabase → stmt.status = .created)
    (step : session.runCurrent stmt finding = some session') : ∃ exit,
      stmt.Outcome finding session.tranStatus session.bLogged exit ∧
      session' = session.settle exit := by
  have called : session.sessionExec stmt finding =
      (stmt.exec finding session.tranStatus session.bLogged).map fun exit => (exit, session) := by
    unfold sessionExec
    split
    · rename_i tranAction type
      exact absurd type (notControl tranAction)
    · rfl
  rw [runCurrent, called, Option.map_map, Option.map_eq_some_iff] at step
  rcases step with ⟨exit, exitEq, settled⟩
  exact ⟨exit, Statement.outcome_exec use exitEq, settled.symm⟩

/-- The first call for a transaction statement. -/
def runTransaction (session : Session) (stmt : Statement) (tranAction : TranAction) : Session :=
  let step := session.transactionExec stmt tranAction
  if step.1.status = .finished then step.2.dispose step.1.stmt else step.2.setCurrent step.1.stmt

def runFirst (session : Session) (stmt : Statement) (finding : Finding) : Option Session :=
  if stmt.type.isSoleTran = true ∧ session.tranStatus = .inTran then
    some (session.dispose stmt.failWithUnfinishedTran)
  else
    match stmt.type with
    | .transaction tranAction => some (session.runTransaction stmt tranAction)
    | _ =>
        if session.noTran = true then (session.startTransaction true).runCurrent stmt finding
        else session.runCurrent stmt finding

/-- The statement that the next call of `Exec` is for. -/
def upcoming (session : Session) : Option Statement :=
  session.currStatement <|> session.lstWaittingStmt.head?

/-- The session without the statement that is taken from the list. -/
def takeWaitting (session : Session) (waitting : List Statement) : Session :=
  { session with
    lstWaittingStmt := waitting
    violated := session.violated || session.tranStatus = .autoTran }

/-- `Session::Exec`. `_bAutoCommit` is never changed. -/
def exec (session : Session) (finding : Finding) : Option Session :=
  match session.currStatement with
  | some stmt => session.runCurrent stmt finding
  | none =>
      match session.lstWaittingStmt with
      | [] => some session
      | stmt :: waitting => (session.takeWaitting waitting).runFirst stmt finding

end Session

inductive SessionEvent where
  /-- `SessionStatementAction`: a text that parser and `Preprocess` accept. -/
  | statement (type : ExprType) (ifExist : Bool)
  /-- One that they refuse. -/
  | badText (text : String)
  /-- The session task calls `Exec`. -/
  | exec (finding : Finding)
  /-- It deletes the session. -/
  | deleteSession
  /-- `SessionCloseAction`. -/
  | close
  /-- `SessionCleaner` erases the session. -/
  | clean
  /-- `~SessionGroup`, after the session task has found all sessions empty. -/
  | deleteGroup
  /-- `SetLogged`. -/
  | logged
  /-- An index task has an error in the scan of a primary index. -/
  | scanError (error : ErrorText)
  /-- An index task sends an error message. -/
  | postError (error : ErrorText)
  /-- `SessionErrMsgAction`. -/
  | errMsg (pos : ℕ)
  /-- An index task follows a null pointer. -/
  | taskFault
deriving DecidableEq, Repr

namespace Session

def refuseText (session : Session) (error : ErrorText) : Session :=
  { session with
    submitted := session.submitted + 1
    refused := session.refused ++ [{ vctError := [error], finished := 1 }] }

def submit (session : Session) (type : ExprType) (ifExist : Bool) : Session :=
  { session with
    submitted := session.submitted + 1
    lstWaittingStmt := session.lstWaittingStmt ++
      [{ number := session.submitted, type := type, ifExist := ifExist }] }

def setStmtFailed (stmt : Statement) : Statement := { stmt with stmtFailed := true }

/-- `SessionCloseAction::Exec`. -/
def close (session : Session) : Session :=
  { session with
    place := .obsoleteSession
    currStatement := session.currStatement.map setStmtFailed
    lstWaittingStmt := session.lstWaittingStmt.map setStmtFailed }

/-- The assertions of `~Session`. -/
def deleteSession (session : Session) : Session :=
  { session with
    place := .deleted
    violated := session.violated || !session.noTran ||
      !(session.lstWaittingStmt.isEmpty && session.currStatement.isNone) }

/-- The assertion of `~SessionGroup`, and the session is deleted. -/
def deleteInGroup (session : Session) : Session :=
  (session.setViolated (!(session.lstWaittingStmt.isEmpty && session.noTran))).deleteSession

/-- `SessionErrMsgAction::Exec`. -/
def errMsg (session : Session) (action : ErrMsgAction) : Session :=
  match session.currStatement with
  | some stmt =>
      if stmt.number = action.number then session.setCurrent (stmt.pushError action.errMsg)
      else { session with late := true }
  | none => { session with late := true }

def act (session : Session) : SessionEvent → Option Session
  | .statement type ifExist =>
      if session.place = .mapSession then some (session.submit type ifExist)
      else some (session.refuseText .failedToFindSession)
  | .badText text =>
      if session.place = .mapSession then some (session.refuseText (.parse text))
      else some (session.refuseText .failedToFindSession)
  | .exec finding =>
      if session.place = .mapSession ∨ session.place = .obsoleteSession then session.exec finding
      else none
  | .deleteSession =>
      if session.place = .obsoleteSession ∧ session.lstWaittingStmt = [] ∧
          session.currStatement = none then some session.deleteSession
      else none
  | .close => if session.place = .mapSession then some session.close else none
  | .clean =>
      if session.place = .obsoleteSession ∧ session.isEmpty = true then
        some { session with place := .erased }
      else none
  | .deleteGroup =>
      if session.place = .mapSession ∧ session.isEmpty = true then some session.deleteInGroup
      else none
  | .logged =>
      match session.currStatement with
      | some stmt =>
          if stmt.status = .logging then some { session with bLogged := true } else none
      | none => none
  | .scanError error =>
      match session.currStatement with
      | some stmt =>
          if stmt.status = .executing ∧ stmt.type.scans = true then
            some (session.setCurrent (stmt.fail error))
          else none
      | none => none
  | .postError error =>
      match session.currStatement with
      | some stmt =>
          if stmt.status = .executing ∧ stmt.type.posts = true then
            some { session.setCurrent (setStmtFailed stmt) with
              errMsgActions := session.errMsgActions ++ [⟨stmt.number, error⟩] }
          else none
      | none => none
  | .errMsg pos =>
      match session.errMsgActions[pos]? with
      | some action =>
          some (({ session with
            errMsgActions := session.errMsgActions.eraseIdx pos } : Session).errMsg action)
      | none => none
  | .taskFault =>
      match session.currStatement with
      | some stmt => if stmt.status = .executing then some (session.setCrashed true) else none
      | none => none

/-- Nothing is done behind the end of the program. -/
def next (session : Session) (event : SessionEvent) : Option Session :=
  if session.crashed then none else session.act event

def new : Session := {}

end Session

end Serv

end RapidDb
