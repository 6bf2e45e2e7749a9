import RapidDb.Statement.SelectLocks

/-!
# SELECT ... FOR UPDATE and FOR SHARE

The parser keeps the lock type in an `ExprSelect`. `Preprocess` makes an `ExprTableSelect` of a
SELECT on one table, and `HandleLeafRecord` takes the action for `ReadListValue` from there.

Selects, UPDATE, DELETE and INSERT of any number of transactions work on the rows of a table. A
select finds its rows in the primary index, or it finds entries of a secondary index, locks them
until their rows are looked up, and comes to the rows from there. What other statements do to the
entries is left open. A transaction runs one statement at a time; the marks of its versions follow
when it has ended.
-/

namespace RapidDb

open Transition LeafRecord

inductive LockType where
  | noLock
  | shareLock
  | writeLock
deriving DecidableEq, Repr

/-- What the parser makes of a SELECT, as far as locks are concerned. -/
structure ExprSelect where
  vctTable : List String
  lockType : LockType := .noLock
deriving DecidableEq, Repr

structure ExprTableSelect where
  exprTable : String
  lockType : LockType := .noLock
deriving DecidableEq, Repr

/-- `ExprSelect::Preprocess`. The fields of the new expression that are not set keep their
defaults. -/
def ExprSelect.preprocess (exprSelect : ExprSelect) : Option ExprTableSelect :=
  match exprSelect.vctTable with
  | [exprTable] => some { exprTable := exprTable }
  | _ => none

/-- The action of a lock type, as `HandleLeafRecord` chooses it. -/
def LockType.actionType : LockType → ActionType
  | .noLock => .noAction
  | .shareLock => .readShare
  | .writeLock => .readUpdate

namespace LeafRecord

/-- The select puts the row into its result set. -/
def returnsRow (format : IndexFormat) (record : LeafRecord) (stmt : StatementRef)
    (atype : ActionType) (verdict : Verdict) (lockAddr : ℕ) : Bool :=
  match record.prepare.bind fun record =>
      record.readListValue format [] stmt atype false lockAddr with
  | some outcome =>
      (outcome.result = .okLock || outcome.result = .okNolock) && verdict = .holds
  | none => false

/-- A plain read finds a version of the row that is not deleted. -/
def readable (record : LeafRecord) : Bool :=
  match record.prepare with
  | some record =>
      match record.readTarget ⟨0, txidNull⟩ .noAction with
      | .ok (_, lr) => !lr.isDelete
      | .error _ => false
  | none => false

/-- What UPDATE and DELETE make of a row, and whether they change it. -/
structure ChangeResult where
  record : LeafRecord
  changed : Bool

/-- `HandleLeafRecord` of UPDATE and DELETE; `passes` is what the condition says. -/
def changeRow (format : IndexFormat) (record : LeafRecord) (txid : TranID)
    (request : UpdateRequest) (passes : Bool) : Option ChangeResult :=
  record.prepare.bind fun record =>
    (record.readListValue format [] ⟨request.stmtId, txid⟩ request.action.toActionType false
        request.fresh.lockAddr).map fun outcome =>
      if outcome.result = .okNolock ∧ passes = true then
        ⟨applyRequest format txid outcome.record request, true⟩
      else ⟨outcome.record, false⟩

/-- The transaction occurs in a lock of the row. -/
def carries (record : LeafRecord) (txid : TranID) : Bool :=
  record.locks.any fun lock => lock.lstTxid.contains txid

end LeafRecord

/-- A select that runs or has been executed. -/
structure LockingSelect where
  id : ℕ
  /-- What the text asks for. -/
  lockType : LockType
  exprSelect : ExprTableSelect
  returned : List ℕ := []
  /-- Entries whose rows are still to be looked up, and whether they are to be freed then. -/
  lstStmtRec : List (ℕ × Bool) := []
  failed : Bool := false
  /-- How many grants there were when it reported success. -/
  since : ℕ := 0
deriving DecidableEq, Repr

structure LockingTran where
  lstSelect : List LockingSelect := []
  currSelect : Option LockingSelect := none
deriving DecidableEq, Repr

/-- A row was changed, or returned by a select that was to lock it. -/
structure Grant where
  txid : TranID
  position : ℕ
  action : ActionType
deriving DecidableEq, Repr

structure LockingState where
  rows : ℕ → Option LeafRecord
  entries : ℕ → LeafRecord
  trans : TranID → Option LockingTran
  /-- The transactions that were started. -/
  txids : List TranID := []
  grants : List Grant := []
  /-- Locks that a select has left on a row it did not return. -/
  leftLocked : List (TranID × ℕ) := []

inductive LockingEvent where
  | beginTran (txid : TranID)
  | start (txid : TranID) (id : ℕ) (exprSelect : ExprSelect)
  /-- `HandleLeafRecord` in a scan of the primary index. -/
  | row (txid : TranID) (position : ℕ) (verdict : Verdict) (lockAddr : ℕ)
  /-- An entry of the secondary index that is scanned. -/
  | entry (txid : TranID) (entry : ℕ) (lockAddr : ℕ)
  /-- `StmtSecRecordAction` for the first of the entries. -/
  | entryRow (txid : TranID) (position : ℕ) (verdict : Verdict) (lockAddr : ℕ)
  | finish (txid : TranID)
  | change (txid : TranID) (position : ℕ) (request : UpdateRequest) (passes : Bool)
  | insert (stmt : StatementRef) (position : ℕ) (vctKey vctVal : List DataValue) (recStamp : ℕ)
      (fresh : NewRecord)
  /-- COMMIT, ROLLBACK or a statement that fails. -/
  | endTran (txid : TranID)
  | mark (position version : ℕ) (stmt : StatementRef) (status : RecordStatus)
  | release (position : ℕ)
  /-- Other statements change an entry. -/
  | setEntry (entry : ℕ) (record : LeafRecord)

namespace LockingState

def setTran (state : LockingState) (txid : TranID) (tran : LockingTran) : LockingState :=
  { state with trans := Function.update state.trans txid (some tran) }

def setRow (state : LockingState) (position : ℕ) (record : LeafRecord) : LockingState :=
  { state with rows := Function.update state.rows position (some record) }

def current (state : LockingState) (txid : TranID) : Option (LockingTran × LockingSelect) :=
  (state.trans txid).bind fun tran => tran.currSelect.map fun select => (tran, select)

/-- The transaction is open and runs no select. -/
def idle (state : LockingState) (txid : TranID) : Bool :=
  match state.trans txid with
  | some tran => tran.currSelect.isNone
  | none => false

/-- `HandleLeafRecord` for a row that the select comes to. -/
def visitRow (format : IndexFormat) (state : LockingState) (txid : TranID) (tran : LockingTran)
    (select : LockingSelect) (position : ℕ) (verdict : Verdict) (lockAddr : ℕ) :
    Option LockingState :=
  let stmt : StatementRef := ⟨select.id, txid⟩
  let atype := select.exprSelect.lockType.actionType
  (state.rows position).bind fun record =>
    (record.selectRow format stmt atype verdict lockAddr).map fun result =>
      have returned := record.returnsRow format stmt atype verdict lockAddr
      let select :=
        { select with
          returned := if returned then select.returned ++ [position] else select.returned
          failed := select.failed || result.failed }
      let state' := (state.setRow position result.record).setTran txid
        { tran with currSelect := some select }
      { state' with
        grants := if returned ∧ select.lockType ≠ .noLock then
            state.grants ++ [⟨txid, position, select.lockType.actionType⟩]
          else state.grants
        leftLocked :=
          if returned = false ∧ result.record.carries txid = true ∧ record.carries txid = false then
            state.leftLocked ++ [(txid, position)]
          else state.leftLocked }

def step (format : IndexFormat) (state : LockingState) : LockingEvent → Option LockingState
  | .beginTran txid =>
      if txid ∉ state.txids ∧ txid ≠ txidNull then
        some { (state.setTran txid {}) with txids := txid :: state.txids }
      else none
  | .start txid id exprSelect =>
      (state.trans txid).bind fun tran =>
        if tran.currSelect.isNone then
          exprSelect.preprocess.map fun exprTableSelect =>
            let select : LockingSelect :=
              { id := id, lockType := exprSelect.lockType, exprSelect := exprTableSelect }
            state.setTran txid { tran with currSelect := some select }
        else none
  | .row txid position verdict lockAddr =>
      (state.current txid).bind fun (tran, select) =>
        if select.failed = true then none
        else state.visitRow format txid tran select position verdict lockAddr
  | .entry txid entry lockAddr =>
      (state.current txid).bind fun (tran, select) =>
        if select.failed = true then none
        else
          ((state.entries entry).selectEntry ⟨select.id, txid⟩ lockAddr).map fun result =>
            let select :=
              { select with
                lstStmtRec := if result.failed then select.lstStmtRec
                  else select.lstStmtRec ++ [(entry, result.locked)]
                failed := result.failed }
            let state' := state.setTran txid { tran with currSelect := some select }
            { state' with entries := Function.update state.entries entry result.record }
  | .entryRow txid position verdict lockAddr =>
      (state.current txid).bind fun (tran, select) =>
        match select.lstStmtRec with
        | [] => none
        | (entry, bReleaseLock) :: lstStmtRec =>
            let freed :=
              { state with
                entries := if bReleaseLock then
                    Function.update state.entries entry
                      ((state.entries entry).submitStatement ⟨select.id, txid⟩ .freeed)
                  else state.entries }
            have select := { select with lstStmtRec := lstStmtRec }
            if select.failed = true then
              some (freed.setTran txid { tran with currSelect := some select })
            else freed.visitRow format txid tran select position verdict lockAddr
  | .finish txid =>
      (state.current txid).bind fun (tran, select) =>
        if select.failed = true ∨ select.lstStmtRec ≠ [] then none
        else
          some (state.setTran txid
            { lstSelect := tran.lstSelect ++ [{ select with since := state.grants.length }]
              currSelect := none })
  | .change txid position request passes =>
      if state.idle txid = true then
        (state.rows position).bind fun record =>
          (record.changeRow format txid request passes).map fun result =>
            { state.setRow position result.record with
              grants := if result.changed then
                  state.grants ++ [⟨txid, position, request.action.toActionType⟩]
                else state.grants }
      else none
  | .insert stmt position vctKey vctVal recStamp fresh =>
      let lr := newPrimary format vctKey vctVal recStamp (some stmt) fresh
      if state.idle stmt.txid = true ∧ lr.body.bValid = true then
        (insertRow (state.rows position) lr).map fun record =>
          { state with rows := Function.update state.rows position record }
      else none
  | .endTran txid =>
      if (state.trans txid).isSome then
        some { state with trans := Function.update state.trans txid none }
      else none
  | .mark position version stmt status =>
      if (state.trans stmt.txid).isNone then
        (state.rows position).bind fun record =>
          if record.markAllowed version stmt status then
            some (state.setRow position (record.mapVersion (submitLock stmt status) version))
          else none
      else none
  | .release position =>
      (state.rows position).bind fun record =>
        record.prepare.map fun record => state.setRow position record
  | .setEntry entry record =>
      some { state with entries := Function.update state.entries entry record }

/-- A select of the transaction that was to lock its rows has returned the row. -/
def Promises (state : LockingState) (txid : TranID) (position : ℕ) : Prop :=
  ∃ tran ∈ state.trans txid, ∃ select ∈ tran.lstSelect ++ tran.currSelect.toList,
    select.lockType ≠ .noLock ∧ position ∈ select.returned

instance (state : LockingState) (txid : TranID) (position : ℕ) :
    Decidable (state.Promises txid position) := by
  unfold Promises
  infer_instance

end LockingState

instance (lock : RecordLock) (txid : TranID) : Decidable (lock.HeldBy txid) := by
  unfold RecordLock.HeldBy
  infer_instance

instance (record : LeafRecord) (txid : TranID) (action : ActionType) :
    Decidable (record.Recorded txid action) := by
  unfold LeafRecord.Recorded
  infer_instance

namespace LockingState

/-- A row that a locking select returns is already locked by its transaction. -/
def VisitCovered (state : LockingState) (txid : TranID) (position : ℕ) (verdict : Verdict) : Prop :=
  ∀ running ∈ state.current txid, running.2.failed = false → running.2.lockType ≠ .noLock →
    verdict = .holds → ∀ record ∈ state.rows position, record.readable = true →
      record.Recorded txid running.2.lockType.actionType

instance (state : LockingState) (txid : TranID) (position : ℕ) (verdict : Verdict) :
    Decidable (state.VisitCovered txid position verdict) := by
  unfold VisitCovered
  infer_instance

/-- Locking selects return only rows that their transaction has changed, and nothing is inserted in
place of a row that another transaction has returned and deleted. -/
def Covered (state : LockingState) : LockingEvent → Prop
  | .row txid position verdict _ => state.VisitCovered txid position verdict
  | .entryRow txid position verdict _ => state.VisitCovered txid position verdict
  | .insert stmt position _ _ _ _ => ∀ other ∈ state.txids, other ≠ stmt.txid →
      state.Promises other position → ∀ record ∈ state.rows position, record.isDelete = false
  | _ => True

instance (state : LockingState) (event : LockingEvent) : Decidable (Covered state event) := by
  cases event <;> unfold Covered <;> infer_instance

/-- No row has a lock, and nothing has been done yet. -/
structure Idle (state : LockingState) : Prop where
  unlocked : ∀ position, ∀ record ∈ state.rows position, record.recLock = none
  closed : ∀ txid, state.trans txid = none
  fresh : state.txids = [] ∧ state.grants = [] ∧ state.leftLocked = []

/-- The rows that executed locking selects of an open transaction have returned carry its locks, no
other transaction was granted what these exclude, and no select has left a lock on another row. -/
structure RowsHeld (state : LockingState) : Prop where
  held : ∀ txid tran, state.trans txid = some tran → ∀ select ∈ tran.lstSelect,
    select.lockType ≠ .noLock → ∀ position ∈ select.returned,
      ∃ record, state.rows position = some record ∧
        record.Recorded txid select.lockType.actionType
  alone : ∀ txid tran, state.trans txid = some tran → ∀ select ∈ tran.lstSelect,
    select.lockType ≠ .noLock → ∀ position ∈ select.returned,
      ∀ grant ∈ state.grants.drop select.since, grant.position = position →
        grant.txid = txid ∨ select.lockType = .shareLock ∧ grant.action = .readShare
  others : state.leftLocked = []

end LockingState

end RapidDb
