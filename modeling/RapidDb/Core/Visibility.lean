import RapidDb.Core.RecordLocks

/-!
# Plain reads see committed rows

One row of a primary index lives through inserts, updates, deletes and locking reads of
any transactions; their locks are marked one by one when the transactions end, and
released by whoever comes next. Beside the record in the page, the model keeps the
content the last committed transaction gave to the row. A plain read has to return that.

The marks of a commit are left statement by statement, so a version is marked committed
only after the older ones of its transaction have been marked.
-/

namespace RapidDb

open Transition

structure RowContent where
  bysVal : List Byte
  overflowPage : Option OverflowPage
deriving DecidableEq, Repr

namespace RecordBody

def content (body : RecordBody) : RowContent := ⟨body.bysVal, body.overflowPage⟩

/-- The content of a version that is in force, none if the version deletes the row. -/
def live (body : RecordBody) : Option RowContent :=
  if body.bDelete then none else some body.content

end RecordBody

namespace LeafRecord

/-- The values that `ReadListValue` finds in a content. -/
def readContent (format : IndexFormat) (mapPos : List (ℕ × ℕ)) (content : RowContent) :
    Option (List (Option FieldValue)) :=
  readVersion format mapPos
    { addr := 0
      bysVal := content.bysVal
      bSole := false
      indexType := .primary
      overflowPage := content.overflowPage }

/-- Whether the transaction that wrote the versions has ended: none of them is unmarked. -/
def ended (record : LeafRecord) : Bool :=
  record.locks.all fun lock => !lock.actType.isUpdateable || lock.recStatus.isMarked

/-- What the newest committed version of an ended transaction says about the row. -/
def published : LeafRecord → Option (Option RowContent)
  | unlocked _ => none
  | locked body lock =>
      if lock.actType.isUpdateable ∧ lock.recStatus = .commited then
        some (if lock.actType = .delete then none else some body.content)
      else
        none
  | versioned body lock undoRec =>
      if lock.recStatus = .commited then
        some (if lock.actType = .delete then none else some body.content)
      else
        undoRec.published

/-- What the row was before the transaction that wrote the versions. -/
def base : LeafRecord → Option RowContent
  | unlocked body => body.live
  | locked body lock => if lock.actType.isUpdateable then none else body.live
  | versioned _ _ undoRec => undoRec.base

/-- Callers release a releasable lock before they work on a record. -/
def prepare (record : LeafRecord) : Option LeafRecord :=
  if record.releaseLockAble then record.releaseLock.map Released.record else some record

/-!
## Runs of one row
-/

/-- The record of a row, if the page has one, and the committed content of the row. -/
structure RowState where
  record : Option LeafRecord
  committed : Option RowContent
deriving DecidableEq, Repr

inductive RowEvent where
  | insert (vctKey vctVal : List DataValue) (recStamp : ℕ) (stmt : StatementRef)
      (fresh : NewRecord)
  | write (txid : TranID) (request : UpdateRequest)
  | lockRead (stmt : StatementRef) (atype : ActionType) (bGapLock : Bool) (lockAddr : ℕ)
  | mark (version : ℕ) (stmt : StatementRef) (status : RecordStatus)
  | release

/-- The `INSERT` branch of `UpdateAction` for one key: a deleted record makes room, any other
record makes the insert fail. -/
def insertRow (record : Option LeafRecord) (lr : LeafRecord) : Option (Option LeafRecord) :=
  match record with
  | none => some (some lr)
  | some old =>
      old.prepare.map fun old => if old.isDelete then some lr else some old

/-- `HandleLeafRecord` of an update or a delete: a read for the action and, when it is granted,
the new version. -/
def writeRow (format : IndexFormat) (record : LeafRecord) (txid : TranID)
    (request : UpdateRequest) : Option LeafRecord :=
  record.prepare.bind fun record =>
    (record.readListValue format [] ⟨request.stmtId, txid⟩ request.action.toActionType
        false request.fresh.lockAddr).map fun outcome =>
      if outcome.result = .okNolock then applyRequest format txid outcome.record request
      else outcome.record

/-- Whether a mark may be left on a version: the assertion of `SubmitStatement`, and the order
in which a commit goes through the statements. -/
def markAllowed (record : LeafRecord) (version : ℕ) (stmt : StatementRef)
    (status : RecordStatus) : Bool :=
  match record.locks.drop version with
  | [] => false
  | lock :: older =>
      submitAllowed lock stmt status &&
        (status != .commited ||
          older.all fun lock => !lock.actType.isUpdateable || lock.recStatus.isMarked)

def rowStep (format : IndexFormat) (state : RowState) : RowEvent → Option RowState
  | .insert vctKey vctVal recStamp stmt fresh =>
      let lr := newPrimary format vctKey vctVal recStamp (some stmt) fresh
      if lr.body.bValid then
        (insertRow state.record lr).map fun record => { state with record := record }
      else
        none
  | .write txid request =>
      state.record.bind fun record =>
        (writeRow format record txid request).map fun record =>
          { state with record := some record }
  | .lockRead stmt atype bGapLock lockAddr =>
      if atype.isReadLock then
        (state.record.bind prepare).bind fun record =>
          (record.readListValue format [] stmt atype bGapLock lockAddr).map fun outcome =>
            { state with record := some outcome.record }
      else
        none
  | .mark version stmt status =>
      match state.record with
      | none => none
      | some record =>
          if record.markAllowed version stmt status then
            let marked := record.mapVersion (submitLock stmt status) version
            some
              { record := some marked
                committed :=
                  if marked.ended then marked.published.getD state.committed
                  else state.committed }
          else
            none
  | .release =>
      (state.record.bind prepare).map fun record => { state with record := some record }

def noRow : RowState where
  record := none
  committed := none

/-- Releasing is safe unless it takes back a `DELETE` and the version below is not committed. -/
def SafeRelease (record : LeafRecord) : Prop :=
  match record with
  | versioned _ lock undoRec =>
      lock.recStatus = .rollbacked → lock.actType = .delete →
        ∃ older ∈ undoRec.recLock, older.recStatus = .commited ∧ older.actType.isUpdateable = true
  | _ => True

/-- The events that stay clear of the two slips: no rolled back `DELETE` is released on top of
a version that is not committed, and nothing is inserted over a `DELETE` under way. -/
def SafeRowEvent (state : RowState) (event : RowEvent) : Prop :=
  match state.record with
  | none => True
  | some record =>
      match event with
      | .mark _ _ _ => True
      | .insert _ _ _ _ _ =>
          record.SafeRelease ∧
            ∀ old ∈ record.prepare, old.isDelete = true → old.recLock = none
      | _ => record.SafeRelease

/-- Whether the record that an `INSERT` builds is written inside of its block. -/
def insertFits (format : IndexFormat) (vctKey vctVal : List DataValue) : Bool :=
  let lenKey := calcKeyLength vctKey
  let lenVal := calcValueLength format vctVal .insert
  writesInside lenKey lenVal (fillValueBuff format vctVal).length
    (17 + lenKey + if lenVal > maxValueLength lenKey then 20 else lenVal)

/-- The safe events whose record is written inside of its block: a new row, and the version that
a granted update or delete puts on the record. -/
def SafeWrite (format : IndexFormat) (state : RowState) (event : RowEvent) : Prop :=
  SafeRowEvent state event ∧
    match event with
    | .insert vctKey vctVal _ _ _ => insertFits format vctKey vctVal = true
    | .write txid request =>
        ∀ ready ∈ state.record.bind prepare,
          ∀ outcome ∈ ready.readListValue format [] ⟨request.stmtId, txid⟩
            request.action.toActionType false request.fresh.lockAddr,
          outcome.result = .okNolock → request.fits format outcome.record = true
    | _ => True

/-!
## The invariant of a row
-/

/-- The committed content of a row, read off the versions in the page. -/
def committedOf (record : LeafRecord) : Option RowContent :=
  if record.ended then record.published.getD record.base else record.base

/-- The status a lock of a change can have. -/
def WriteStatus (lock : RecordLock) : Prop :=
  lock.recStatus = .init ∨ lock.recStatus = .commited ∨ lock.recStatus = .rollbacked

/-- Every version is an update or a delete of a row that is there, and a version is committed
only after all older ones have been marked. -/
def RowWell : LeafRecord → Prop
  | unlocked _ => True
  | locked body lock =>
      lock.actType.isReadLock = true ∨
        lock.actType = .insert ∧ body.bDelete = false ∧ WriteStatus lock
  | versioned body lock undoRec =>
      (lock.actType = .update ∨ lock.actType = .delete) ∧
        body.bDelete = decide (lock.actType = .delete) ∧ WriteStatus lock ∧
        (lock.recStatus = .commited → undoRec.ended = true) ∧
        undoRec.isDelete = false ∧ undoRec.RowWell

theorem isUpdateable_of_write {lock : RecordLock}
    (writes : lock.actType = .update ∨ lock.actType = .delete) :
    lock.actType.isUpdateable = true := by
  rcases writes with update | delete
  · rw [update]
    rfl
  · rw [delete]
    rfl

theorem isReadLock_eq_false_of_updateable {action : ActionType}
    (updateable : action.isUpdateable = true) : action.isReadLock = false := by
  cases action <;> first | rfl | cases updateable

theorem isUpdateable_eq_false_of_read {action : ActionType} (reads : action.isReadLock = true) :
    action.isUpdateable = false := by
  cases action <;> first | rfl | cases reads

section Committed

variable {body : RecordBody} {lock : RecordLock} {undoRec : LeafRecord}

@[simp]
theorem committedOf_unlocked : (unlocked body).committedOf = body.live := by
  simp [committedOf, ended, locks, published, base]

theorem committedOf_locked_read (notUpdateable : lock.actType.isUpdateable = false) :
    (locked body lock).committedOf = body.live := by
  simp [committedOf, ended, locks, published, base, notUpdateable]

theorem committedOf_locked_insert (insert : lock.actType = .insert) :
    (locked body lock).committedOf =
      if lock.recStatus = .commited then some body.content else none := by
  have updateable : lock.actType.isUpdateable = true := by
    rw [insert]
    rfl
  by_cases commited : lock.recStatus = .commited
  · have marked : RecordStatus.commited.isMarked = true := rfl
    have insertUpdateable : ActionType.insert.isUpdateable = true := rfl
    simp [committedOf, ended, locks, published, commited, insert, insertUpdateable, marked]
  · simp [committedOf, published, base, updateable, commited]

theorem committedOf_versioned_init
    (writes : lock.actType = .update ∨ lock.actType = .delete) (initial : lock.recStatus = .init) :
    (versioned body lock undoRec).committedOf = undoRec.base := by
  have unmarked : RecordStatus.init.isMarked = false := rfl
  simp [committedOf, ended, locks, base, isUpdateable_of_write writes, initial, unmarked]

theorem committedOf_versioned_commited (commited : lock.recStatus = .commited)
    (older : undoRec.ended = true) :
    (versioned body lock undoRec).committedOf =
      if lock.actType = .delete then none else some body.content := by
  have all : (versioned body lock undoRec).ended = true := by
    have marked : RecordStatus.commited.isMarked = true := rfl
    simpa [ended, locks, commited, marked] using older
  simp [committedOf, all, published, commited]

theorem committedOf_versioned_rollbacked (rollbacked : lock.recStatus = .rollbacked) :
    (versioned body lock undoRec).committedOf = undoRec.committedOf := by
  have marked : RecordStatus.rollbacked.isMarked = true := rfl
  have endedEq : (versioned body lock undoRec).ended = undoRec.ended := by
    simp [ended, locks, rollbacked, marked]
  simp [committedOf, endedEq, published, base, rollbacked]

end Committed

variable {record : LeafRecord}

/-- A version below another one has no other base than the committed content, unless its
transaction has ended. -/
theorem committedOf_eq_base (running : record.ended = false) :
    record.committedOf = record.base := by
  simp [committedOf, running]

/-- Nothing is released and nothing is lost: the outcome of a release denotes the same row. -/
structure SameRow (record record' : LeafRecord) : Prop where
  well : record'.RowWell
  committed : record'.committedOf = record.committedOf
  kept : record'.releaseLockAble = false

/-- Restoring an older version into an object whose delete flag is right, or will be set. The
induction goes down the versions that have been rolled back. -/
theorem sameRow_settle {target : RecordBody} {out : Released}
    (well : record.RowWell) (present : record.isDelete = false)
    (flag : target.bDelete = false ∨ ∃ lock ∈ record.recLock, lock.recStatus = .commited ∧
      lock.actType.isUpdateable = true)
    (settled : settle target record = some out) : SameRow record out.record := by
  induction record generalizing target out with
  | unlocked body =>
      have flagFalse : target.bDelete = false := by
        rcases flag with flagFalse | ⟨lock, head, -⟩
        · exact flagFalse
        · cases head
      have bodyFlag : body.bDelete = false := present
      cases settled
      refine ⟨trivial, ?_, rfl⟩
      simp [moveAssign, withBody, RecordBody.live, RecordBody.content, LeafRecord.body, flagFalse,
        bodyFlag]
  | locked body lock =>
      have bodyFlag : body.bDelete = false := present
      rcases well with reads | ⟨insert, -, status⟩
      · have notUpdateable := isUpdateable_eq_false_of_read reads
        have flagFalse : target.bDelete = false := by
          rcases flag with flagFalse | ⟨own, head, -, updateable⟩
          · exact flagFalse
          · cases head
            rw [notUpdateable] at updateable
            cases updateable
        cases able : (locked body lock).releaseLockAble with
        | false =>
            simp only [settle, recLock, able] at settled
            cases settled
            refine ⟨Or.inl reads, ?_, by simpa using able⟩
            rw [moveAssign, withBody, committedOf_locked_read notUpdateable,
              committedOf_locked_read notUpdateable]
            simp [RecordBody.live, RecordBody.content, LeafRecord.body, flagFalse, bodyFlag]
        | true =>
            simp only [settle, recLock, able, releaseInto, reads] at settled
            cases settled
            refine ⟨trivial, ?_, rfl⟩
            rw [committedOf_locked_read notUpdateable]
            simp [moveAssign, withBody, RecordBody.live, RecordBody.content, LeafRecord.body,
              flagFalse, bodyFlag]
      · have notRead : lock.actType.isReadLock = false := by
          rw [insert]
          rfl
        have able : (locked body lock).releaseLockAble = lock.recStatus.isMarked := by
          simp [releaseLockAble, recLock, insert]
        rcases status with initial | commited | rollbacked
        · have flagFalse : target.bDelete = false := by
            rcases flag with flagFalse | ⟨own, head, commited, -⟩
            · exact flagFalse
            · cases head
              rw [initial] at commited
              cases commited
          have unmarked : (locked body lock).releaseLockAble = false := by
            rw [able, initial]
            rfl
          simp only [settle, recLock, unmarked] at settled
          cases settled
          refine ⟨Or.inr ⟨insert, flagFalse, Or.inl initial⟩, ?_, by simpa using unmarked⟩
          rw [moveAssign, withBody, committedOf_locked_insert insert,
            committedOf_locked_insert insert]
          simp [initial]
        · have marked : (locked body lock).releaseLockAble = true := by
            rw [able, commited]
            rfl
          simp only [settle, recLock, marked, releaseInto, notRead, commited] at settled
          cases settled
          refine ⟨trivial, ?_, rfl⟩
          rw [committedOf_locked_insert insert]
          simp [moveAssign, withBody, RecordBody.live, RecordBody.content, LeafRecord.body,
            commited, insert]
        · have marked : (locked body lock).releaseLockAble = true := by
            rw [able, rollbacked]
            rfl
          simp only [settle, recLock, marked, releaseInto, notRead, rollbacked] at settled
          cases settled
          refine ⟨trivial, ?_, rfl⟩
          rw [committedOf_locked_insert insert]
          simp [RecordBody.live, rollbacked]
  | versioned body lock undoRec ih =>
      rcases well with ⟨writes, bodyFlag, status, order, olderPresent, olderWell⟩
      have notRead := isReadLock_eq_false_of_updateable (isUpdateable_of_write writes)
      have notDelete : lock.actType ≠ .delete := by
        have flagEq : body.bDelete = false := present
        rw [flagEq] at bodyFlag
        simpa using bodyFlag.symm
      have notShare : lock.actType ≠ .readShare := by
        rcases writes with update | delete
        · simp [update]
        · exact absurd delete notDelete
      have able : (versioned body lock undoRec).releaseLockAble = lock.recStatus.isMarked := by
        simp [releaseLockAble, recLock, notShare]
      have flagOr : target.bDelete = false ∨ lock.recStatus = .commited := by
        rcases flag with flagFalse | ⟨own, head, commited, -⟩
        · exact Or.inl flagFalse
        · cases head
          exact Or.inr commited
      rcases status with initial | commited | rollbacked
      · have flagFalse : target.bDelete = false :=
          flagOr.resolve_right (by simp [initial])
        have unmarked : (versioned body lock undoRec).releaseLockAble = false := by
          rw [able, initial]
          rfl
        simp only [settle, recLock, unmarked] at settled
        cases settled
        refine ⟨⟨writes, ?_, Or.inl initial, order, olderPresent, olderWell⟩, ?_,
          by simpa using unmarked⟩
        · simp [flagFalse, notDelete]
        · rw [moveAssign, withBody, committedOf_versioned_init writes initial,
            committedOf_versioned_init writes initial]
      · have marked : (versioned body lock undoRec).releaseLockAble = true := by
          rw [able, commited]
          rfl
        simp only [settle, recLock, marked, releaseInto, notRead, commited] at settled
        cases settled
        refine ⟨trivial, ?_, rfl⟩
        rw [committedOf_versioned_commited commited (order commited)]
        simp [moveAssign, withBody, RecordBody.live, RecordBody.content, LeafRecord.body,
          notDelete]
      · have flagFalse : target.bDelete = false :=
          flagOr.resolve_right (by simp [rollbacked])
        have marked : (versioned body lock undoRec).releaseLockAble = true := by
          rw [able, rollbacked]
          rfl
        have released : releaseInto target (versioned body lock undoRec) = some out := by
          simpa [settle, recLock, marked] using settled
        rw [releaseInto_rollbacked target body undoRec notRead rollbacked] at released
        rcases Option.map_eq_some_iff.mp released with ⟨inner, innerEq, rfl⟩
        have innerFlag : (clearBody (moveAssign target (unlocked body)).body).bDelete = false :=
          flagFalse
        have innerSame := ih olderWell olderPresent (Or.inl innerFlag) innerEq
        refine ⟨innerSame.well, ?_, innerSame.kept⟩
        rw [committedOf_versioned_rollbacked rollbacked]
        exact innerSame.committed

theorem sameRow_prepare {record record' : LeafRecord} (well : record.RowWell)
    (safe : record.SafeRelease) (prepared : record.prepare = some record') :
    SameRow record record' := by
  unfold prepare at prepared
  split at prepared
  · next able =>
      rcases Option.map_eq_some_iff.mp prepared with ⟨out, released, rfl⟩
      cases record with
      | unlocked body => cases able
      | locked body lock =>
          rcases well with reads | ⟨insert, flagFalse, status⟩
          · simp only [releaseLock, releaseInto, reads, if_true] at released
            cases released
            refine ⟨trivial, ?_, rfl⟩
            rw [committedOf_locked_read (isUpdateable_eq_false_of_read reads)]
            rfl
          · have settled : settle body (locked body lock) = some out := by
              simpa [settle, recLock, able, releaseLock, LeafRecord.body] using released
            exact sameRow_settle (Or.inr ⟨insert, flagFalse, status⟩) flagFalse
              (Or.inl flagFalse) settled
      | versioned body lock undoRec =>
          rcases well with ⟨writes, bodyFlag, status, order, olderPresent, olderWell⟩
          have notRead := isReadLock_eq_false_of_updateable (isUpdateable_of_write writes)
          have notShare : lock.actType ≠ .readShare := by
            rcases writes with update | delete
            · simp [update]
            · simp [delete]
          have marked : lock.recStatus.isMarked = true := by
            simpa [releaseLockAble, recLock, notShare] using able
          rcases status with initial | commited | rollbacked
          · rw [initial] at marked
            cases marked
          · simp only [releaseLock, releaseInto, notRead, commited] at released
            cases released
            refine ⟨trivial, ?_, rfl⟩
            rw [committedOf_versioned_commited commited (order commited)]
            by_cases delete : lock.actType = .delete <;>
              simp [RecordBody.live, RecordBody.content, moveAssign, withBody, LeafRecord.body,
                delete]
          · simp only [releaseLock, LeafRecord.body] at released
            rw [releaseInto_rollbacked body body undoRec notRead rollbacked] at released
            rcases Option.map_eq_some_iff.mp released with ⟨inner, innerEq, rfl⟩
            have innerFlag : (clearBody (moveAssign body (unlocked body)).body).bDelete = false ∨
                ∃ older ∈ undoRec.recLock, older.recStatus = .commited ∧
                  older.actType.isUpdateable = true := by
              by_cases delete : lock.actType = .delete
              · exact Or.inr (safe rollbacked delete)
              · exact Or.inl (by simpa [clearBody, moveAssign, withBody, LeafRecord.body, delete]
                  using bodyFlag)
            have innerSame := sameRow_settle olderWell olderPresent innerFlag innerEq
            refine ⟨innerSame.well, ?_, innerSame.kept⟩
            rw [committedOf_versioned_rollbacked rollbacked]
            exact innerSame.committed
  · next able =>
      cases prepared
      exact ⟨well, rfl, by simpa using able⟩

/-!
## What keeps the versions of a row
-/

/-- A record that differs in its read locks and sharers only. -/
structure SameVersions (record record' : LeafRecord) : Prop where
  well : record'.RowWell
  committed : record'.committedOf = record.committedOf
  base : record'.base = record.base
  present : record'.isDelete = record.isDelete

theorem SameVersions.refl (well : record.RowWell) :
    SameVersions record record :=
  ⟨well, rfl, rfl, rfl⟩

theorem SameVersions.trans {first second third : LeafRecord} (left : SameVersions first second)
    (right : SameVersions second third) : SameVersions first third :=
  ⟨right.well, right.committed.trans left.committed, right.base.trans left.base,
    right.present.trans left.present⟩

theorem sameVersions_mapLock {change : RecordLock → RecordLock} (well : record.RowWell)
    (keeps : ∀ lock ∈ record.recLock, (change lock).recStatus = lock.recStatus ∧
      ((change lock).actType = lock.actType ∨
        lock.actType.isReadLock = true ∧ (change lock).actType.isReadLock = true)) :
    SameVersions record (record.mapLock change) := by
  cases record with
  | unlocked body => exact SameVersions.refl well
  | locked body lock =>
      rcases keeps lock rfl with ⟨statusEq, sameAction | ⟨reads, readsAfter⟩⟩
      · refine ⟨?_, ?_, ?_, rfl⟩
        · simpa [mapLock, RowWell, WriteStatus, statusEq, sameAction] using well
        · simp [mapLock, committedOf, ended, locks, published, LeafRecord.base, statusEq,
            sameAction]
        · simp [mapLock, LeafRecord.base, sameAction]
      · have before := isUpdateable_eq_false_of_read reads
        have after := isUpdateable_eq_false_of_read readsAfter
        refine ⟨Or.inl readsAfter, ?_, ?_, rfl⟩
        · rw [mapLock, committedOf_locked_read before, committedOf_locked_read after]
        · simp [mapLock, LeafRecord.base, before, after]
  | versioned body lock undoRec =>
      have writes := well.1
      have notRead := isReadLock_eq_false_of_updateable (isUpdateable_of_write writes)
      rcases keeps lock rfl with ⟨statusEq, sameAction | ⟨reads, -⟩⟩
      · refine ⟨?_, ?_, rfl, rfl⟩
        · simpa [mapLock, RowWell, WriteStatus, statusEq, sameAction] using well
        · simp [mapLock, committedOf, ended, locks, published, LeafRecord.base, statusEq,
            sameAction]
      · rw [notRead] at reads
        cases reads

variable {stmt : StatementRef} {atype : ActionType}

theorem sameVersions_addReadLock (bGapLock : Bool) (lockAddr : ℕ) (well : record.RowWell)
    (reads : atype.isReadLock = true) :
    SameVersions record (record.addReadLock stmt atype bGapLock lockAddr).1 := by
  cases head : record.recLock with
  | none =>
      simp only [addReadLock, head]
      cases record with
      | unlocked body =>
          have newRead : (RecordLock.new lockAddr atype .lockOnly bGapLock .inPage stmt).actType =
              atype := rfl
          have notUpdateable := isUpdateable_eq_false_of_read reads
          refine ⟨Or.inl reads, ?_, ?_, rfl⟩
          · rw [committedOf_locked_read (by rw [newRead]; exact notUpdateable),
              committedOf_unlocked]
            rfl
          · simp [LeafRecord.base, newRead, notUpdateable, LeafRecord.body]
      | locked body lock => cases head
      | versioned body lock undoRec => cases head
  | some lock =>
      simp only [addReadLock, head]
      refine sameVersions_mapLock well ?_
      intro own mem
      refine ⟨rfl, ?_⟩
      by_cases upgrade : atype = .readUpdate ∧ own.actType = .readShare
      · right
        rw [upgrade.2]
        simp [joinLock, upgrade]
        decide
      · left
        simp [joinLock, upgrade]

variable {format : IndexFormat}

/-- Reading changes read locks and sharers only, whatever it is asked for. -/
theorem sameVersions_readListValue {mapPos : List (ℕ × ℕ)} {bGapLock : Bool}
    {lockAddr : ℕ} {outcome : ReadOutcome} (well : record.RowWell)
    (answer : record.readListValue format mapPos stmt atype bGapLock lockAddr = some outcome) :
    SameVersions record outcome.record := by
  have target : ∀ ready version, record.readTarget stmt atype = .ok (ready, version) →
      SameVersions record ready := by
    intro ready version targetEq
    cases head : record.recLock with
    | none =>
        simp only [readTarget, head, Except.ok.injEq, Prod.mk.injEq] at targetEq
        exact targetEq.1 ▸ SameVersions.refl well
    | some lock =>
        simp only [readTarget, head] at targetEq
        split at targetEq
        · split at targetEq
          · cases targetEq
          · cases targetEq
            exact sameVersions_mapLock well fun own _ => ⟨by simp, Or.inl (by simp)⟩
        · split at targetEq
          · cases targetEq
          · split at targetEq
            · split at targetEq
              · cases targetEq
              · cases targetEq
                exact SameVersions.refl well
            · cases targetEq
              exact SameVersions.refl well
  cases targetEq : record.readTarget stmt atype with
  | error result =>
      simp only [readListValue, targetEq, Option.some.injEq] at answer
      rw [← answer]
      exact SameVersions.refl well
  | ok pair =>
      rcases pair with ⟨ready, version⟩
      have same := target ready version targetEq
      simp only [readListValue, targetEq] at answer
      split at answer
      · cases answer
        exact same
      · rcases Option.map_eq_some_iff.mp answer with ⟨values, -, rfl⟩
        cases reads : atype.isReadLock with
        | true => exact same.trans (sameVersions_addReadLock bGapLock lockAddr same.well reads)
        | false => exact same

/-- A record that cannot be released has no committed version above its base. -/
theorem committedOf_eq_base_of_kept (well : record.RowWell)
    (kept : record.releaseLockAble = false) : record.committedOf = record.base := by
  cases record with
  | unlocked body => simp [LeafRecord.base]
  | locked body lock =>
      rcases well with reads | ⟨insert, -, status⟩
      · have notUpdateable := isUpdateable_eq_false_of_read reads
        rw [committedOf_locked_read notUpdateable]
        simp [LeafRecord.base, notUpdateable]
      · have unmarked : lock.recStatus ≠ .commited := by
          intro commited
          have marked : RecordStatus.commited.isMarked = true := rfl
          simp [releaseLockAble, recLock, insert, commited, marked] at kept
        have updateable : lock.actType.isUpdateable = true := by
          rw [insert]
          rfl
        rw [committedOf_locked_insert insert, if_neg unmarked]
        simp [LeafRecord.base, updateable]
  | versioned body lock undoRec =>
      rcases well with ⟨writes, -, status, -, -, -⟩
      have notShare : lock.actType ≠ .readShare := by
        rcases writes with update | delete
        · simp [update]
        · simp [delete]
      have unmarked : lock.recStatus.isMarked = false := by
        simpa [releaseLockAble, recLock, notShare] using kept
      have initial : lock.recStatus = .init := by
        rcases status with initial | commited | rollbacked
        · exact initial
        · rw [commited] at unmarked
          cases unmarked
        · rw [rollbacked] at unmarked
          cases unmarked
      rw [committedOf_versioned_init writes initial]
      rfl

/-!
## Every event keeps the invariant
-/

/-- The committed content kept beside a record is the one its versions denote. -/
def RowInv (state : RowState) : Prop :=
  match state.record with
  | none => state.committed = none
  | some record => record.RowWell ∧ state.committed = record.committedOf

theorem newPrimary_valid {vctKey vctVal : List DataValue} {recStamp : ℕ} {fresh : NewRecord}
    (valid : (newPrimary format vctKey vctVal recStamp (some stmt) fresh).body.bValid = true) :
    (newPrimary format vctKey vctVal recStamp (some stmt) fresh).RowWell ∧
      (newPrimary format vctKey vctVal recStamp (some stmt) fresh).committedOf = none := by
  unfold newPrimary at valid ⊢
  simp only at valid ⊢
  split at valid
  · cases valid
  · next inRange =>
      rw [if_neg inRange]
      refine ⟨Or.inr ⟨rfl, rfl, Or.inl rfl⟩, ?_⟩
      simp [newLock, ofBody, committedOf_locked_insert, RecordLock.new]

theorem rowInv_insertRow {record : Option LeafRecord} {lr : LeafRecord}
    {committed : Option RowContent} {record' : Option LeafRecord}
    (inv : RowInv { record := record, committed := committed })
    (newWell : lr.RowWell) (newCommitted : lr.committedOf = none)
    (safe : ∀ old ∈ record, old.SafeRelease ∧
      ∀ ready ∈ old.prepare, ready.isDelete = true → ready.recLock = none)
    (inserted : insertRow record lr = some record') :
    RowInv { record := record', committed := committed } := by
  cases record with
  | none =>
      cases inserted
      exact ⟨newWell, Eq.trans inv newCommitted.symm⟩
  | some old =>
      rcases inv with ⟨well, committedEq⟩
      rcases safe old rfl with ⟨safeRelease, safeInsert⟩
      rcases Option.map_eq_some_iff.mp inserted with ⟨ready, readyEq, rfl⟩
      have same := sameRow_prepare well safeRelease readyEq
      simp only at committedEq
      cases deleted : ready.isDelete with
      | true =>
          have noLock := safeInsert ready readyEq deleted
          refine ⟨newWell, ?_⟩
          simp only
          rw [committedEq, newCommitted, ← same.committed]
          cases ready with
          | unlocked body =>
              have flag : body.bDelete = true := deleted
              simp [RecordBody.live, flag]
          | locked body lock => cases noLock
          | versioned body lock undoRec => cases noLock
      | false =>
          refine ⟨same.well, ?_⟩
          simp only
          rw [committedEq, same.committed]

theorem sameRow_applyRequest (format : IndexFormat) (txid : TranID) (request : UpdateRequest)
    (well : record.RowWell) (present : record.isDelete = false) :
    (applyRequest format txid record request).RowWell ∧
      (applyRequest format txid record request).committedOf = record.base := by
  have writes : request.action.toActionType = .update ∨
      request.action.toActionType = .delete := by
    cases request.action <;> simp [RowAction.toActionType]
  refine ⟨⟨writes, rfl, Or.inl rfl, ?_, present, well⟩, ?_⟩
  · intro commited
    cases commited
  · exact committedOf_versioned_init writes rfl

theorem eq_locked_of_readTarget
    {result : ReadResult} (target : record.readTarget stmt atype = .error result) :
    result = .locked := by
  unfold readTarget at target
  repeat' split at target
  all_goals cases target
  all_goals rfl

theorem isDelete_of_granted {mapPos : List (ℕ × ℕ)} {bGapLock : Bool}
    {lockAddr : ℕ} {outcome : ReadOutcome} (writes : atype.isWriteLock = true)
    (answer : record.readListValue format mapPos stmt atype bGapLock lockAddr = some outcome)
    (granted : outcome.result = .okNolock) : record.isDelete = false := by
  have target : ∀ ready version, record.readTarget stmt atype = .ok (ready, version) →
      version.isDelete = record.isDelete := by
    intro ready version targetEq
    cases head : record.recLock with
    | none =>
        simp only [readTarget, head, Except.ok.injEq, Prod.mk.injEq] at targetEq
        rw [← targetEq.2]
    | some lock =>
        simp only [readTarget, head, writes, if_true] at targetEq
        split at targetEq
        · cases targetEq
        · cases targetEq
          simp [isDelete]
  cases targetEq : record.readTarget stmt atype with
  | error result =>
      simp only [readListValue, targetEq, Option.some.injEq] at answer
      rw [← answer, eq_locked_of_readTarget targetEq] at granted
      cases granted
  | ok pair =>
      rcases pair with ⟨ready, version⟩
      simp only [readListValue, targetEq] at answer
      split at answer
      · cases answer
        cases granted
      · next present =>
          rw [← target ready version targetEq]
          simpa using present

theorem rowInv_writeRow {record record' : LeafRecord} {txid : TranID}
    {request : UpdateRequest} {committed : Option RowContent} (well : record.RowWell)
    (committedEq : committed = record.committedOf) (safe : record.SafeRelease)
    (written : writeRow format record txid request = some record') :
    record'.RowWell ∧ committed = record'.committedOf := by
  rcases Option.bind_eq_some_iff.mp written with ⟨ready, prepared, rest⟩
  rcases Option.map_eq_some_iff.mp rest with ⟨outcome, answer, rfl⟩
  have same := sameRow_prepare well safe prepared
  have versions := sameVersions_readListValue same.well answer
  have readyEq : committed = ready.committedOf := committedEq.trans same.committed.symm
  by_cases granted : outcome.result = .okNolock
  · have writes : request.action.toActionType.isWriteLock = true := by
      cases request.action <;> rfl
    have present := isDelete_of_granted writes answer granted
    rw [if_pos granted]
    rcases sameRow_applyRequest format txid request versions.well
      (versions.present.trans present) with ⟨newWell, newCommitted⟩
    refine ⟨newWell, ?_⟩
    rw [newCommitted, versions.base, readyEq]
    exact committedOf_eq_base_of_kept same.well same.kept
  · rw [if_neg granted]
    exact ⟨versions.well, readyEq.trans versions.committed.symm⟩

/-!
## Marks
-/

section Mark

variable {stmt : StatementRef} {status : RecordStatus}

theorem markAllowed_succ {body : RecordBody} {lock : RecordLock} {undoRec : LeafRecord}
    {version : ℕ} :
    (versioned body lock undoRec).markAllowed (version + 1) stmt status =
      undoRec.markAllowed version stmt status := by
  simp [markAllowed, locks]

theorem status_of_submitAllowed {lock : RecordLock} (writeStatus : WriteStatus lock)
    (allowed : submitAllowed lock stmt status = true) :
    lock.recStatus = .init ∧ (status = .commited ∨ status = .rollbacked) := by
  simp only [submitAllowed, Bool.and_eq_true, Bool.or_eq_true, decide_eq_true_eq] at allowed
  rcases allowed.2 with initial | ⟨lockOnly, -⟩
  · exact initial
  · rcases writeStatus with initial | commited | rollbacked <;> simp_all

theorem submitLock_of_write {lock : RecordLock} (notFreed : status ≠ .freeed) :
    submitLock stmt status lock = { lock with stmt := none, recStatus := status } := by
  simp [submitLock, notFreed]

/-- Marking a version keeps the versions in order and the base as it was. A change that is
marked was open; any other mark leaves what the versions denote as it was. -/
theorem mark_spec {record : LeafRecord} {version : ℕ} (well : record.RowWell)
    (allowed : record.markAllowed version stmt status = true) :
    (record.mapVersion (submitLock stmt status) version).RowWell ∧
      (record.mapVersion (submitLock stmt status) version).base = record.base ∧
      (record.mapVersion (submitLock stmt status) version).isDelete = record.isDelete ∧
      (record.ended = true →
        (record.mapVersion (submitLock stmt status) version).ended = true ∧
          (record.mapVersion (submitLock stmt status) version).published =
            record.published) := by
  induction record generalizing version with
  | unlocked body => simp [markAllowed, locks] at allowed
  | locked body lock =>
      cases version with
      | zero =>
          have lockAllowed : submitAllowed lock stmt status = true := by
            simp only [markAllowed, locks, List.drop_zero, Bool.and_eq_true] at allowed
            exact allowed.1
          rcases well with reads | ⟨insert, flagFalse, writeStatus⟩
          · have notUpdateable := isUpdateable_eq_false_of_read reads
            refine ⟨Or.inl (by simpa using reads), ?_, rfl, fun _ => ⟨?_, ?_⟩⟩
            · simp [mapVersion, mapLock, LeafRecord.base, notUpdateable]
            · simp [mapVersion, mapLock, ended, locks, notUpdateable]
            · simp [mapVersion, mapLock, published, notUpdateable]
          · rcases status_of_submitAllowed writeStatus lockAllowed with ⟨initial, marks⟩
            have notFreed : status ≠ .freeed := by
              rcases marks with rfl | rfl <;> decide
            have updateable : lock.actType.isUpdateable = true := by
              rw [insert]
              rfl
            simp only [mapVersion, mapLock, submitLock_of_write notFreed]
            refine ⟨Or.inr ⟨insert, flagFalse, Or.inr marks⟩, ?_, rfl, fun isOver => ?_⟩
            · simp [LeafRecord.base]
            · have unmarked : RecordStatus.init.isMarked = false := rfl
              simp [ended, locks, updateable, initial, unmarked] at isOver
      | succ version => simp [markAllowed, locks] at allowed
  | versioned body lock undoRec ih =>
      rcases well with ⟨writes, flagEq, writeStatus, order, olderPresent, olderWell⟩
      have updateable := isUpdateable_of_write writes
      cases version with
      | zero =>
          simp only [markAllowed, locks, List.drop_zero, Bool.and_eq_true, Bool.or_eq_true,
            bne_iff_ne, ne_eq] at allowed
          rcases allowed with ⟨lockAllowed, inOrder⟩
          rcases status_of_submitAllowed writeStatus lockAllowed with ⟨initial, marks⟩
          have notFreed : status ≠ .freeed := by
            rcases marks with rfl | rfl <;> decide
          simp only [mapVersion, mapLock, submitLock_of_write notFreed]
          refine ⟨⟨writes, flagEq, Or.inr marks, ?_, olderPresent, olderWell⟩, rfl, rfl,
            fun isOver => ?_⟩
          · intro commited
            exact inOrder.resolve_left fun notCommited => notCommited commited
          · have unmarked : RecordStatus.init.isMarked = false := rfl
            simp [ended, locks, updateable, initial, unmarked] at isOver
      | succ version =>
          rw [markAllowed_succ] at allowed
          rcases ih olderWell allowed with ⟨markedWell, baseEq, presentEq, keepsEnd⟩
          refine ⟨⟨writes, flagEq, writeStatus, fun commited => (keepsEnd (order commited)).1,
            presentEq.trans olderPresent, markedWell⟩, baseEq, rfl, fun isOver => ?_⟩
          have both : lock.recStatus.isMarked = true ∧ undoRec.ended = true := by
            simpa [ended, locks, updateable] using isOver
          rcases keepsEnd both.2 with ⟨endedAfter, publishedEq⟩
          constructor
          · simpa [mapVersion, ended, locks, updateable, both.1] using endedAfter
          · simp [mapVersion, published, publishedEq]

end Mark

theorem rowInv_rowStep {state state' : RowState} {event : RowEvent}
    (safe : SafeRowEvent state event) (inv : RowInv state)
    (step : rowStep format state event = some state') : RowInv state' := by
  rcases state with ⟨record, committed⟩
  cases event with
  | insert vctKey vctVal recStamp stmt fresh =>
      rcases Option.ite_none_right_eq_some.mp step with ⟨valid, step⟩
      rcases Option.map_eq_some_iff.mp step with ⟨record', inserted, rfl⟩
      rcases newPrimary_valid valid with ⟨newWell, newCommitted⟩
      refine rowInv_insertRow inv newWell newCommitted ?_ inserted
      intro old mem
      cases mem
      exact safe
  | write txid request =>
      rcases Option.bind_eq_some_iff.mp step with ⟨old, rfl, rest⟩
      rcases Option.map_eq_some_iff.mp rest with ⟨new, written, rfl⟩
      exact rowInv_writeRow inv.1 inv.2 safe written
  | lockRead stmt atype bGapLock lockAddr =>
      rcases Option.ite_none_right_eq_some.mp step with ⟨-, step⟩
      rcases Option.bind_eq_some_iff.mp step with ⟨ready, readyEq, rest⟩
      rcases Option.bind_eq_some_iff.mp readyEq with ⟨old, rfl, prepared⟩
      rcases Option.map_eq_some_iff.mp rest with ⟨outcome, answer, rfl⟩
      have same := sameRow_prepare inv.1 safe prepared
      have versions := sameVersions_readListValue same.well answer
      exact ⟨versions.well, inv.2.trans (same.committed.symm.trans versions.committed.symm)⟩
  | mark version stmt status =>
      cases record with
      | none => cases step
      | some record =>
          rcases Option.ite_none_right_eq_some.mp step with ⟨allowed, ⟨⟩⟩
          rcases inv with ⟨well, committedEq⟩
          rcases mark_spec well allowed with ⟨markedWell, baseEq, -, keepsEnd⟩
          simp only at committedEq
          refine ⟨markedWell, ?_⟩
          simp only [committedOf, baseEq]
          cases isOver : record.ended with
          | false =>
              rw [committedEq, committedOf_eq_base isOver]
          | true =>
              rcases keepsEnd isOver with ⟨endedAfter, publishedEq⟩
              rw [committedEq, committedOf, endedAfter, publishedEq, isOver]
              cases record.published <;> rfl
  | release =>
      rcases Option.map_eq_some_iff.mp step with ⟨ready, readyEq, rfl⟩
      rcases Option.bind_eq_some_iff.mp readyEq with ⟨old, rfl, prepared⟩
      have same := sameRow_prepare inv.1 safe prepared
      exact ⟨same.well, inv.2.trans same.committed.symm⟩

/-!
## Plain reads
-/

/-- The version a plain read goes to is the base of the chain. -/
theorem visibleUndo_spec (well : record.RowWell)
    (updateable : record.getAction.isUpdateable = true) :
    match record.visibleUndo with
    | none => record.base = none
    | some version => version.isDelete = false ∧ record.base = some version.body.content := by
  induction record with
  | unlocked body => simp [visibleUndo, getAction, recLock] at updateable ⊢; cases updateable
  | locked body lock =>
      have lockUpdateable : lock.actType.isUpdateable = true := updateable
      simp [visibleUndo, LeafRecord.base, lockUpdateable]
  | versioned body lock undoRec ih =>
      rcases well with ⟨-, -, -, -, olderPresent, olderWell⟩
      simp only [visibleUndo, LeafRecord.base]
      cases head : undoRec.recLock with
      | none =>
          cases undoRec with
          | unlocked older =>
              have flag : older.bDelete = false := olderPresent
              exact ⟨flag, by simp [LeafRecord.base, RecordBody.live, flag, LeafRecord.body]⟩
          | locked older own => cases head
          | versioned older own rest => cases head
      | some own =>
          simp only
          by_cases reads : own.actType.isReadLock = true
          · rw [if_pos reads]
            refine ⟨olderPresent, ?_⟩
            cases undoRec with
            | unlocked older => cases head
            | locked older lock =>
                cases head
                have flag : older.bDelete = false := olderPresent
                have notUpdateable := isUpdateable_eq_false_of_read reads
                simp [LeafRecord.base, RecordBody.live, flag, notUpdateable, LeafRecord.body]
            | versioned older lock rest =>
                cases head
                rw [isReadLock_eq_false_of_updateable (isUpdateable_of_write olderWell.1)] at reads
                cases reads
          · rw [if_neg reads]
            refine ih olderWell ?_
            cases undoRec with
            | unlocked older => cases head
            | locked older lock =>
                cases head
                rcases olderWell with isRead | ⟨insert, -, -⟩
                · exact absurd isRead reads
                · simp only [getAction, recLock, Option.map_some, Option.getD_some, insert]
                  rfl
            | versioned older lock rest =>
                cases head
                exact isUpdateable_of_write olderWell.1

/-- What a plain read of a prepared record has to return: the values of the committed content,
or that there is none. -/
def ReadsCommitted (format : IndexFormat) (record : LeafRecord) : Option RowContent → Prop
  | some content => ∀ mapPos stmt bGapLock lockAddr,
      record.readListValue format mapPos stmt .noAction bGapLock lockAddr =
        (readContent format mapPos content).map fun values =>
          { result := .okNolock, vctVal := values, record := record }
  | none => ∀ mapPos stmt bGapLock lockAddr,
      ∃ result, (result = .recDelete ∨ result = .locked) ∧
        record.readListValue format mapPos stmt .noAction bGapLock lockAddr =
          some { result := result, vctVal := [], record := record }

/-- A plain read of a prepared record returns what its versions denote. -/
theorem readsCommitted_of_kept (well : record.RowWell) (kept : record.releaseLockAble = false) :
    ReadsCommitted format record record.committedOf := by
  rw [committedOf_eq_base_of_kept well kept]
  have notWrite : ActionType.noAction.isWriteLock = false := rfl
  have notRead : ActionType.noAction.isReadLock = false := rfl
  by_cases updateable : record.getAction.isUpdateable = true
  · have spec := visibleUndo_spec well updateable
    cases head : record.recLock with
    | none =>
        simp only [getAction, head, Option.map_none, Option.getD_none] at updateable
        cases updateable
    | some lock =>
        have lockUpdateable : lock.actType.isUpdateable = true := by
          simpa [getAction, head] using updateable
        cases visible : record.visibleUndo with
        | none =>
            rw [visible] at spec
            simp only at spec
            rw [spec]
            intro mapPos stmt bGapLock lockAddr
            refine ⟨.locked, Or.inr rfl, ?_⟩
            simp [readListValue, readTarget, head, notWrite, lockUpdateable, visible]
        | some version =>
            rw [visible] at spec
            simp only at spec
            rw [spec.2]
            intro mapPos stmt bGapLock lockAddr
            simp only [readListValue, readTarget, head, notWrite, lockUpdateable, visible, notRead]
            simp [spec.1, readVersion, readContent, RecordBody.content]
  · have lockFree : ∀ stmt, record.readTarget stmt .noAction = .ok (record, record) := by
      intro stmt
      cases head : record.recLock with
      | none => simp [readTarget, head]
      | some lock =>
          have lockNot : lock.actType.isUpdateable = false := by
            simpa [getAction, head] using updateable
          simp [readTarget, head, notWrite, lockNot]
    have baseEq : record.base = record.body.live := by
      cases record with
      | unlocked body => rfl
      | locked body lock =>
          have lockNot : lock.actType.isUpdateable = false := by
            simpa [getAction, recLock] using updateable
          simp [LeafRecord.base, lockNot, LeafRecord.body]
      | versioned body lock undoRec => exact absurd (isUpdateable_of_write well.1) updateable
    rw [baseEq]
    cases deleted : record.body.bDelete with
    | true =>
        simp only [RecordBody.live, deleted, if_true]
        intro mapPos stmt bGapLock lockAddr
        refine ⟨.recDelete, Or.inl rfl, ?_⟩
        simp [readListValue, lockFree, isDelete, deleted]
    | false =>
        simp only [RecordBody.live, deleted, Bool.false_eq_true, if_false]
        intro mapPos stmt bGapLock lockAddr
        simp [readListValue, lockFree, isDelete, deleted, notRead, readVersion, readContent,
          RecordBody.content]

theorem exists_releaseInto (hasLock : record.recLock ≠ none)
    (target : RecordBody) : ∃ out, releaseInto target record = some out := by
  induction record generalizing target with
  | unlocked body => exact absurd rfl hasLock
  | locked body lock =>
      simp only [releaseInto]
      split
      · exact ⟨_, rfl⟩
      · split <;> exact ⟨_, rfl⟩
  | versioned body lock undoRec ih =>
      simp only [releaseInto]
      split
      · exact ⟨_, rfl⟩
      · split
        · split
          · exact ⟨_, rfl⟩
          · next hasOlder =>
              split
              · exact ⟨_, rfl⟩
              · rcases ih (by simpa using hasOlder) (clearBody (moveAssign target
                  (unlocked body)).body) with ⟨out, outEq⟩
                exact ⟨_, by rw [outEq]; rfl⟩
        · exact ⟨_, rfl⟩

theorem exists_prepare (record : LeafRecord) : ∃ ready, record.prepare = some ready := by
  unfold prepare
  split
  · next able =>
      have hasLock : record.recLock ≠ none := by
        intro head
        simp [releaseLockAble, head] at able
      rcases exists_releaseInto hasLock record.body with ⟨out, outEq⟩
      exact ⟨out.record, by rw [releaseLock, outEq]; rfl⟩
  · exact ⟨record, rfl⟩

/-- Plain reads return the committed row in every run that stays clear of the two slips and
whose records are written inside of their blocks. -/
theorem plainRead_committed {format : IndexFormat} {state : RowState}
    (run : Reaches (rowStep format) (SafeWrite format) noRow state) :
    match state.record with
    | none => state.committed = none
    | some record =>
        record.SafeRelease →
          ∃ ready, record.prepare = some ready ∧ ReadsCommitted format ready state.committed := by
  have initially : RowInv noRow := rfl
  have inv : RowInv state := run.preserves initially
    fun _ _ _ safe inv step => rowInv_rowStep safe.1 inv step
  rcases state with ⟨_ | record, committed⟩
  · exact inv
  · intro safe
    rcases inv with ⟨well, committedEq⟩
    rcases exists_prepare record with ⟨ready, prepared⟩
    have same := sameRow_prepare well safe prepared
    refine ⟨ready, prepared, ?_⟩
    simp only at committedEq ⊢
    rw [committedEq, ← same.committed]
    exact readsCommitted_of_kept same.well same.kept

def rowAfter (events : List RowEvent) : RowState :=
  (exec (rowStep sampleFormat) events noRow).getD noRow

/-- Transaction `1` inserts the row and commits. -/
def insertEvents : List RowEvent :=
  [.insert [sampleValue 1] [sampleValue 5] 1 ⟨1, 1⟩ ⟨1, 2, 3, crc32⟩, .mark 0 ⟨1, 1⟩ .commited]

/-- Transaction `2` deletes the row and rolls back. -/
def deleteEvents : List RowEvent :=
  [.write 2 { sampleRequest .delete with stmtId := 2 }, .mark 0 ⟨2, 2⟩ .rollbacked]

theorem plainRead_committed_inserted :
    match (rowAfter insertEvents).record with
    | none => (rowAfter insertEvents).committed = none
    | some record =>
        record.SafeRelease →
          ∃ ready, record.prepare = some ready ∧
            ReadsCommitted sampleFormat ready (rowAfter insertEvents).committed := by
  have first : Reaches (rowStep sampleFormat) (SafeWrite sampleFormat) noRow
      (rowAfter (insertEvents.take 1)) :=
    (Reaches.refl noRow).tail
      (.insert [sampleValue 1] [sampleValue 5] 1 ⟨1, 1⟩ ⟨1, 2, 3, crc32⟩)
      ⟨trivial, by decide +kernel⟩ (by decide +kernel)
  have second : Reaches (rowStep sampleFormat) (SafeWrite sampleFormat) noRow
      (rowAfter insertEvents) := by
    refine first.tail (.mark 0 ⟨1, 1⟩ .commited) ⟨?_, trivial⟩ (by decide +kernel)
    unfold SafeRowEvent
    split <;> trivial
  exact plainRead_committed second

/-- A row whose delete has been rolled back reads as deleted. -/
theorem not_plainRead_committed :
    ¬∀ state record ready, Reaches (rowStep sampleFormat) anyInput noRow state →
      state.record = some record → record.prepare = some ready →
        ReadsCommitted sampleFormat ready state.committed := by
  intro readsCommitted
  have run : Reaches (rowStep sampleFormat) anyInput noRow
      (rowAfter (insertEvents ++ deleteEvents)) :=
    reaches_of_exec (insertEvents ++ deleteEvents) (by decide +kernel)
  have deleted : ((rowAfter (insertEvents ++ deleteEvents)).record.bind prepare).map
      (fun ready => (ready.readListValue sampleFormat [] ⟨3, 3⟩ .noAction false 0).map
        ReadOutcome.result) = some (some .recDelete) := by
    decide +kernel
  have present : (rowAfter (insertEvents ++ deleteEvents)).committed.isSome = true := by
    decide +kernel
  generalize rowAfter (insertEvents ++ deleteEvents) = state at run deleted present
  rcases Option.map_eq_some_iff.mp deleted with ⟨ready, readyEq, answer⟩
  rcases Option.bind_eq_some_iff.mp readyEq with ⟨record, recordEq, prepared⟩
  rcases Option.isSome_iff_exists.mp present with ⟨content, contentEq⟩
  have reads := readsCommitted state record ready run recordEq prepared
  rw [contentEq] at reads
  rw [reads [] ⟨3, 3⟩ false 0] at answer
  cases values : readContent sampleFormat [] content <;> simp [values] at answer

end LeafRecord

end RapidDb
