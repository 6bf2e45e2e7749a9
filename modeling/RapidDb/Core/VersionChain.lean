import Mathlib.Data.List.Induction
import Mathlib.Data.List.Perm.Basic
import RapidDb.Core.LeafRecord

/-!
# Resolving a version chain

A transaction that updates or deletes a primary record several times leaves a chain
of versions behind the record. When the transaction ends, each version is marked
committed or rolled back, and `ReleaseLock` brings the record back to one version.

The move assignment that restores an older version keeps the delete flag of the
object it moves into. The flag is set again only when the restored version carries
a committed write lock, which the oldest version of a chain does not.
-/

namespace RapidDb

open Bytes

namespace LeafRecord

@[simp]
theorem body_withBody (record : LeafRecord) (body : RecordBody) :
    (record.withBody body).body = body := by
  cases record <;> rfl

@[simp]
theorem recLock_withBody (record : LeafRecord) (body : RecordBody) :
    (record.withBody body).recLock = record.recLock := by
  cases record <;> rfl

@[simp]
theorem body_mapLock (record : LeafRecord) (change : RecordLock → RecordLock) :
    (record.mapLock change).body = record.body := by
  cases record <;> rfl

@[simp]
theorem recLock_mapLock (record : LeafRecord) (change : RecordLock → RecordLock) :
    (record.mapLock change).recLock = record.recLock.map change := by
  cases record <;> rfl

@[simp]
theorem recLock_moveAssign (target : RecordBody) (src : LeafRecord) :
    (moveAssign target src).recLock = src.recLock := by
  simp [moveAssign]

@[simp]
theorem releaseLockAble_moveAssign (target : RecordBody) (src : LeafRecord) :
    (moveAssign target src).releaseLockAble = src.releaseLockAble := by
  simp [releaseLockAble]

/-!
## Building and marking a chain
-/

/-- The two actions that put a new version on top of a record. -/
inductive RowAction where
  | update
  | delete
deriving DecidableEq, Repr

/-- The action type of the lock of the new version. -/
def RowAction.toActionType : RowAction → ActionType
  | .update => .update
  | .delete => .delete

/-- One call of `UpdateRecord` on behalf of a statement of the transaction. -/
structure UpdateRequest where
  vctVal : List DataValue
  recStamp : ℕ
  stmtId : ℕ
  action : RowAction
  gapLock : Bool
  fresh : NewRecord

/-- Whether the version that a request puts on a record is written inside of its block. -/
def UpdateRequest.fits (format : IndexFormat) (record : LeafRecord) (request : UpdateRequest) :
    Bool :=
  let lenKey := RecStruct.keyLen record.body.bysVal
  let lenVal := calcValueLength format request.vctVal request.action.toActionType
  let written :=
    if request.action = .update then (fillValueBuff format request.vctVal).length else 0
  writesInside lenKey lenVal written
    (17 + lenKey + (if lenVal > maxValueLength lenKey then 10 else 0) +
      if record.body.overflowPage.isNone then lenVal else 0)

def applyRequest (format : IndexFormat) (txid : TranID) (record : LeafRecord)
    (request : UpdateRequest) : LeafRecord :=
  record.updateRecord format request.vctVal request.recStamp ⟨request.stmtId, txid⟩
    request.action.toActionType request.gapLock request.fresh

/-- The record after a list of requests, the last one on top. -/
def versionChain (format : IndexFormat) (txid : TranID) (base : LeafRecord)
    (requests : List UpdateRequest) : LeafRecord :=
  requests.foldl (applyRequest format txid) base

/-- The chain of a list of requests, none when one of them writes outside of its block. -/
def buildChain (format : IndexFormat) (txid : TranID) :
    LeafRecord → List UpdateRequest → Option LeafRecord
  | record, [] => some record
  | record, request :: requests =>
      if request.fits format record then
        buildChain format txid (applyRequest format txid record request) requests
      else
        none

/-- Each request is written inside of its block on top of the ones before it. -/
def AllFit (format : IndexFormat) (txid : TranID) : LeafRecord → List UpdateRequest → Prop
  | _, [] => True
  | record, request :: requests =>
      request.fits format record = true ∧
        AllFit format txid (applyRequest format txid record request) requests

/-- The number of versions on top of the oldest one. -/
def depth : LeafRecord → ℕ
  | versioned _ _ undoRec => undoRec.depth + 1
  | _ => 0

/-- The marks a transaction leaves at its end: the first `kept` versions on top of the oldest
one are committed, the others rolled back, and a lock of the oldest one is freed. -/
def endTransaction (txid : TranID) (kept : ℕ) : LeafRecord → LeafRecord
  | unlocked body => unlocked body
  | locked body lock => locked body (submitLock (lock.stmt.getD ⟨0, txid⟩) .freeed lock)
  | versioned body lock undoRec =>
      let status := if undoRec.depth < kept then RecordStatus.commited else .rollbacked
      versioned body (submitLock (lock.stmt.getD ⟨0, txid⟩) status lock)
        (endTransaction txid kept undoRec)

/-- `ReleaseLock` again and again until the record has no lock, at most `calls` times. -/
def releaseAll : ℕ → LeafRecord → Option (LeafRecord × List Freed)
  | _, unlocked body => some (unlocked body, [])
  | 0, _ => none
  | calls + 1, record =>
      match record.releaseLock with
      | none => none
      | some out =>
          (releaseAll calls out.record).map fun (final, freed) => (final, out.freed ++ freed)

/-- Everything a record and the versions behind it own. -/
def owned : LeafRecord → List Freed
  | unlocked body => freedOverflow body ++ [.record body.addr]
  | locked body lock => freedOverflow body ++ [.lock lock.addr, .record body.addr]
  | versioned body lock undoRec =>
      freedOverflow body ++ [.lock lock.addr, .record body.addr] ++ undoRec.owned

/-- The oldest version a transaction finds: it is free of locks, or the transaction itself
has locked it for reading. -/
def CommittedFor (txid : TranID) (record : LeafRecord) : Prop :=
  match record with
  | unlocked _ => True
  | locked _ lock =>
      lock.actType.isReadLock = true ∧ lock.lstTxid = [txid] ∧
        ∀ stmt ∈ lock.stmt, stmt.txid = txid
  | versioned _ _ _ => False

/-!
## What has to be the same
-/

/-- Two records that no reader can tell apart. -/
structure SameRecord (format : IndexFormat) (left right : LeafRecord) : Prop where
  bytes : left.body.bysVal = right.body.bysVal
  deleted : left.isDelete = right.isDelete
  overflowPage : left.body.overflowPage = right.body.overflowPage
  totalLength : left.getTotalLength = right.getTotalLength
  valueLength : left.getValueLength = right.getValueLength
  reads : ∀ mapPos stmt atype bGapLock lockAddr,
    (left.readListValue format mapPos stmt atype bGapLock lockAddr).map
        (fun outcome => (outcome.result, outcome.vctVal)) =
      (right.readListValue format mapPos stmt atype bGapLock lockAddr).map
        (fun outcome => (outcome.result, outcome.vctVal))

/-- Releasing a marked chain leaves `version` without a lock, and frees everything else
that the chain owned: all of it but the object of the record itself and the overflow page
of `version`, each as often as the chain owned it. -/
def ResolvesTo (format : IndexFormat) (marked version : LeafRecord) : Prop :=
  ∃ calls final freed, releaseAll calls marked = some (final, freed) ∧
    SameRecord format final (unlocked version.body) ∧
    (freedOverflow version.body ++ .record marked.body.addr :: freed).Perm marked.owned

/-- The chain of the requests is built, and when the first `kept` of them are committed it
resolves to the version that these requests build. -/
def Resolves (format : IndexFormat) (txid : TranID) (base : LeafRecord)
    (requests : List UpdateRequest) (kept : ℕ) : Prop :=
  ∃ chain version, buildChain format txid base requests = some chain ∧
    buildChain format txid base (requests.take kept) = some version ∧
    ResolvesTo format (chain.endTransaction txid kept) version

/-!
## Chains of one transaction
-/

/-- A chain of updates and deletes on top of a version the transaction found. -/
def RowVersions (txid : TranID) : LeafRecord → Prop
  | versioned body lock undoRec =>
      lock.actType.isReadLock = false ∧ body.bDelete = decide (lock.actType = .delete) ∧
        undoRec.RowVersions txid
  | record => CommittedFor txid record

/-- The version of a chain that remains when the first `kept` requests are committed. -/
def versionAt (kept : ℕ) : LeafRecord → LeafRecord
  | versioned body lock undoRec =>
      if undoRec.depth < kept then versioned body lock undoRec else undoRec.versionAt kept
  | record => record

theorem rowVersions_of_committedFor {txid : TranID} {record : LeafRecord}
    (committed : record.CommittedFor txid) : record.RowVersions txid := by
  cases record with
  | unlocked body => trivial
  | locked body lock => exact committed
  | versioned body lock undoRec => exact committed.elim

theorem depth_eq_zero_of_committedFor {txid : TranID} {record : LeafRecord}
    (committed : record.CommittedFor txid) : record.depth = 0 := by
  cases record with
  | unlocked body => rfl
  | locked body lock => rfl
  | versioned body lock undoRec => exact committed.elim

theorem versionAt_of_committedFor {txid : TranID} {record : LeafRecord}
    (committed : record.CommittedFor txid) (kept : ℕ) : record.versionAt kept = record := by
  cases record with
  | unlocked body => rfl
  | locked body lock => rfl
  | versioned body lock undoRec => exact committed.elim

section Chain

variable (format : IndexFormat) (txid : TranID)

@[simp]
theorem versionChain_concat (base : LeafRecord) (requests : List UpdateRequest)
    (request : UpdateRequest) :
    versionChain format txid base (requests ++ [request]) =
      applyRequest format txid (versionChain format txid base requests) request := by
  simp [versionChain]

theorem depth_versionChain {base : LeafRecord} (committed : base.CommittedFor txid)
    (requests : List UpdateRequest) :
    (versionChain format txid base requests).depth = requests.length := by
  induction requests using List.reverseRecOn with
  | nil => simpa [versionChain] using depth_eq_zero_of_committedFor committed
  | append_singleton requests request ih =>
      simp [applyRequest, updateRecord, depth, ih]

theorem rowVersions_versionChain {base : LeafRecord} (committed : base.CommittedFor txid)
    (requests : List UpdateRequest) :
    (versionChain format txid base requests).RowVersions txid := by
  induction requests using List.reverseRecOn with
  | nil => simpa [versionChain] using rowVersions_of_committedFor committed
  | append_singleton requests request ih =>
      rw [versionChain_concat]
      refine ⟨?_, ?_, ih⟩
      · cases action : request.action <;> simp [RowAction.toActionType, RecordLock.new] <;> decide
      · simp [RecordLock.new]

theorem versionAt_versionChain {base : LeafRecord} (committed : base.CommittedFor txid)
    (requests : List UpdateRequest) (kept : ℕ) :
    (versionChain format txid base requests).versionAt kept =
      versionChain format txid base (requests.take kept) := by
  induction requests using List.reverseRecOn with
  | nil => simpa [versionChain] using versionAt_of_committedFor committed kept
  | append_singleton requests request ih =>
      have depthEq := depth_versionChain format txid committed requests
      rw [versionChain_concat, applyRequest, updateRecord, versionAt, depthEq]
      by_cases early : requests.length < kept
      · rw [if_pos early, List.take_of_length_le (by simp; omega), versionChain_concat]
        rfl
      · rw [if_neg early, List.take_append_of_le_length (by omega), ih]

end Chain

/-!
## Releasing a marked chain
-/

section Release

variable {txid : TranID} {kept : ℕ}

@[simp]
theorem body_endTransaction (record : LeafRecord) :
    (record.endTransaction txid kept).body = record.body := by
  cases record <;> rfl

@[simp]
theorem actType_submitLock (stmt : StatementRef) (status : RecordStatus) (lock : RecordLock) :
    (submitLock stmt status lock).actType = lock.actType := by
  unfold submitLock
  split <;> rfl

@[simp]
theorem addr_submitLock (stmt : StatementRef) (status : RecordStatus) (lock : RecordLock) :
    (submitLock stmt status lock).addr = lock.addr := by
  unfold submitLock
  split <;> rfl

theorem recStatus_submitLock {stmt : StatementRef} {status : RecordStatus} {lock : RecordLock}
    (notFreed : status ≠ .freeed) : (submitLock stmt status lock).recStatus = status := by
  simp [submitLock, notFreed]

@[simp]
theorem owned_endTransaction (record : LeafRecord) :
    (record.endTransaction txid kept).owned = record.owned := by
  induction record with
  | unlocked body => rfl
  | locked body lock => simp [endTransaction, owned]
  | versioned body lock undoRec ih => simp [endTransaction, owned, ih]

theorem freeUndo_endTransaction {record : LeafRecord} (versions : record.RowVersions txid) :
    (record.endTransaction txid kept).freeUndo = record.owned := by
  induction record with
  | unlocked body => rfl
  | locked body lock => simp [endTransaction, freeUndo, owned]
  | versioned body lock undoRec ih =>
      have notRead : lock.actType.isReadLock = false := versions.1
      simp [endTransaction, freeUndo, owned, notRead, ih versions.2.2]

theorem releaseLockAble_endTransaction (kept : ℕ) {record : LeafRecord}
    (versions : record.RowVersions txid)
    (hasLock : (record.endTransaction txid kept).recLock.isNone = false) :
    (record.endTransaction txid kept).releaseLockAble = true := by
  cases record with
  | unlocked body => simp [endTransaction, recLock] at hasLock
  | locked body lock =>
      rcases versions with ⟨readLock, ownLock, ownStmt⟩
      have stmtTxid : (lock.stmt.getD ⟨0, txid⟩).txid = txid := by
        cases stmtEq : lock.stmt with
        | none => rfl
        | some stmt => exact ownStmt stmt (by simp [stmtEq])
      simp only [endTransaction, releaseLockAble, recLock, actType_submitLock]
      rcases (ActionType.isReadLock_iff _).mp readLock with share | update
      · simp [submitLock, share, ownLock, leaveSharers, stmtTxid]
      · simp [submitLock, update]
        decide
  | versioned body lock undoRec =>
      have notShare : lock.actType ≠ .readShare := by
        intro share
        have readLock := (ActionType.isReadLock_iff _).mpr (Or.inl share)
        simp [versions.1] at readLock
      simp only [endTransaction, releaseLockAble, recLock, actType_submitLock, if_neg notShare]
      rw [recStatus_submitLock (by split <;> decide)]
      split <;> decide

/-- What `ReleaseLock` does after the move of an older version into the object: it goes on
when the version carries a lock that can be released. -/
def settle (target : RecordBody) (record : LeafRecord) : Option Released :=
  if record.recLock.isNone then
    some { result := .finished, record := moveAssign target record, freed := [] }
  else if !record.releaseLockAble then
    some { result := .unfinish, record := moveAssign target record, freed := [] }
  else
    releaseInto target record

/-- What the object `target` holds after it has been resolved to a version: the flag
`_bDelete` comes from the version only when the version carried a write lock. -/
def restored (target : RecordBody) (version : LeafRecord) : RecordBody :=
  { (moveAssign target version).body with
    bDelete := if version.depth = 0 then target.bDelete else version.body.bDelete }

theorem releaseInto_rollbacked (target body : RecordBody) {lock : RecordLock}
    (undoRec : LeafRecord) (notRead : lock.actType.isReadLock = false)
    (rollbacked : lock.recStatus = .rollbacked) :
    releaseInto target (versioned body lock undoRec) =
      (settle (clearBody (moveAssign target (unlocked body)).body) undoRec).map fun out =>
        { out with
          freed := freedOverflow body ++ [.lock lock.addr, .record undoRec.body.addr] ++
            out.freed } := by
  have overflowEq : freedOverflow (moveAssign target (unlocked body)).body =
      freedOverflow body := rfl
  unfold releaseInto settle
  simp only [notRead, rollbacked, recLock_moveAssign, releaseLockAble_moveAssign, overflowEq]
  cases undoRec.recLock.isNone with
  | true => simp
  | false => cases undoRec.releaseLockAble <;> simp

theorem settle_eq_releaseInto (kept : ℕ) {record : LeafRecord} (versions : record.RowVersions txid)
    (hasLock : (record.endTransaction txid kept).recLock.isNone = false) (target : RecordBody) :
    settle target (record.endTransaction txid kept) =
      releaseInto target (record.endTransaction txid kept) := by
  simp [settle, hasLock, releaseLockAble_endTransaction kept versions hasLock]

/-- Releasing a marked chain in any object restores the version that remains and frees the
others. The induction follows the chain from the newest version down. -/
theorem settle_endTransaction (kept : ℕ) {record : LeafRecord}
    (versions : record.RowVersions txid) (target : RecordBody) :
    ∃ out, settle target (record.endTransaction txid kept) = some out ∧
      out.record = unlocked (restored target (record.versionAt kept)) ∧
      (freedOverflow (record.versionAt kept).body ++
        .record record.body.addr :: out.freed).Perm record.owned := by
  induction record generalizing target with
  | unlocked body =>
      refine ⟨_, rfl, ?_, ?_⟩
      · simp [restored, versionAt, depth, moveAssign, endTransaction, withBody, LeafRecord.body]
      · simp [versionAt, owned, LeafRecord.body]
  | locked body lock =>
      have readLock : lock.actType.isReadLock = true := versions.1
      have settled := settle_eq_releaseInto kept versions rfl target
      refine ⟨_, by rw [settled]; simp [endTransaction, releaseInto, readLock]; rfl, ?_, ?_⟩
      · simp [restored, versionAt, depth, moveAssign, withBody, LeafRecord.body]
      · exact (List.Perm.swap _ _ _).append_left _
  | versioned body lock undoRec ih =>
      have notRead : lock.actType.isReadLock = false := versions.1
      have deleteEq : body.bDelete = decide (lock.actType = .delete) := versions.2.1
      have settled := settle_eq_releaseInto kept versions rfl target
      by_cases committed : undoRec.depth < kept
      · refine
          ⟨{ result := if lock.actType = .delete then .deleted else .finished
             record := unlocked (restored target (versioned body lock undoRec))
             freed := .lock lock.addr :: undoRec.owned }, ?_, ?_, ?_⟩
        · rw [settled]
          simp [endTransaction, releaseInto, notRead, committed, recStatus_submitLock,
            freeUndo_endTransaction versions.2.2, restored, depth,
            LeafRecord.body, deleteEq, moveAssign, withBody]
        · simp [versionAt, committed]
        · simp only [versionAt, if_pos committed, owned, List.append_assoc]
          exact (List.Perm.swap _ _ _).append_left _
      · have rollbacked : (submitLock (lock.stmt.getD ⟨0, txid⟩) .rollbacked lock).recStatus =
            .rollbacked := recStatus_submitLock (by decide)
        rcases ih versions.2.2 (clearBody (moveAssign target (unlocked body)).body) with
          ⟨out, outEq, recordEq, freedPerm⟩
        refine
          ⟨{ out with
             freed := freedOverflow body ++ [.lock lock.addr, .record undoRec.body.addr] ++
               out.freed }, ?_, ?_, ?_⟩
        · have step := releaseInto_rollbacked target body (undoRec.endTransaction txid kept)
            (by simpa using notRead) rollbacked
          rw [outEq] at step
          rw [settled]
          simpa [endTransaction, committed] using step
        · simp only [versionAt, if_neg committed, recordEq]
          simp [restored, moveAssign, clearBody, withBody, LeafRecord.body]
        · have counts := fun freed => freedPerm.count_eq freed
          rw [List.perm_iff_count]
          intro freed
          have count := counts freed
          simp only [versionAt, if_neg committed, owned, LeafRecord.body, List.count_append,
            List.count_cons, List.count_nil] at count ⊢
          omega

end Release

/-!
## The result of the release
-/

section Resolve

variable {txid : TranID} (kept : ℕ)

/-- On a marked chain, releasing until no lock remains is one release at most. -/
theorem releaseAll_endTransaction {record : LeafRecord} {out : Released} {body : RecordBody}
    (versions : record.RowVersions txid)
    (settled : settle record.body (record.endTransaction txid kept) = some out)
    (unlockedOut : out.record = unlocked body) :
    releaseAll 1 (record.endTransaction txid kept) = some (out.record, out.freed) ∧
      ∀ calls result, releaseAll calls (record.endTransaction txid kept) = some result →
        result = (out.record, out.freed) := by
  cases hasLock : (record.endTransaction txid kept).recLock.isNone with
  | true =>
      cases record with
      | unlocked body =>
          have outEq : ({ result := .finished, record := unlocked body, freed := [] } :
              Released) = out := by
            simpa [settle, endTransaction, recLock, moveAssign, withBody, LeafRecord.body]
              using settled
          subst outEq
          refine ⟨rfl, ?_⟩
          intro calls result released
          cases calls <;> simpa [releaseAll, endTransaction] using released.symm
      | locked body lock => simp [endTransaction, recLock] at hasLock
      | versioned body lock undoRec => simp [endTransaction, recLock] at hasLock
  | false =>
      have released : (record.endTransaction txid kept).releaseLock = some out := by
        rw [settle_eq_releaseInto kept versions hasLock] at settled
        simpa [releaseLock] using settled
      have again : ∀ calls, releaseAll calls out.record = some (out.record, []) := by
        intro calls
        rw [unlockedOut]
        cases calls <;> rfl
      have successor : ∀ calls, releaseAll (calls + 1) (record.endTransaction txid kept) =
          some (out.record, out.freed) := by
        intro calls
        cases record with
        | unlocked body => simp [endTransaction, recLock] at hasLock
        | locked body lock =>
            simp only [endTransaction] at released ⊢
            simp [releaseAll, released, again]
        | versioned body lock undoRec =>
            simp only [endTransaction] at released ⊢
            simp [releaseAll, released, again]
      refine ⟨successor 0, ?_⟩
      intro calls result resultEq
      cases calls with
      | zero =>
          cases record with
          | unlocked body => simp [endTransaction, recLock] at hasLock
          | locked body lock => simp [endTransaction, releaseAll] at resultEq
          | versioned body lock undoRec => simp [endTransaction, releaseAll] at resultEq
      | succ calls =>
          rw [successor calls] at resultEq
          exact (Option.some.inj resultEq).symm

variable (format : IndexFormat)

theorem sameRecord_unlocked {left right : RecordBody} (bytes : left.bysVal = right.bysVal)
    (deleted : left.bDelete = right.bDelete)
    (overflowPage : left.overflowPage = right.overflowPage)
    (indexType : left.indexType = right.indexType) :
    SameRecord format (unlocked left) (unlocked right) := by
  rcases left with ⟨leftAddr, leftBytes, leftSole, leftType, leftValid, leftDelete, leftPage⟩
  rcases right with ⟨rightAddr, rightBytes, rightSole, rightType, rightValid, rightDelete,
    rightPage⟩
  dsimp only at bytes deleted overflowPage indexType
  subst bytes deleted overflowPage indexType
  refine ⟨rfl, rfl, rfl, rfl, rfl, ?_⟩
  intro mapPos stmt atype bGapLock lockAddr
  cases leftDelete with
  | true => rfl
  | false =>
      simp only [readListValue, readTarget, recLock, isDelete, LeafRecord.body, readVersion,
        Bool.false_eq_true, if_false]
      cases RecStruct.bysValStart leftBytes leftPage with
      | none => rfl
      | some start => cases atype.isReadLock <;> simp [addReadLock, recLock]

/-- A marked chain resolves to its remaining version exactly when that version carried a
write lock or the flag of the newest version is the right one by itself. -/
theorem resolvesTo_iff {record : LeafRecord} (versions : record.RowVersions txid) :
    ResolvesTo format (record.endTransaction txid kept) (record.versionAt kept) ↔
      ((record.versionAt kept).depth = 0 →
        record.isDelete = (record.versionAt kept).isDelete) := by
  rcases settle_endTransaction kept versions record.body with
    ⟨out, settled, recordEq, freedPerm⟩
  rcases releaseAll_endTransaction kept versions settled recordEq with ⟨released, unique⟩
  constructor
  · rintro ⟨calls, final, freed, finalEq, same, -⟩ isOldest
    have resultEq := unique calls _ finalEq
    have deleted := same.deleted
    rw [show final = out.record from congrArg Prod.fst resultEq, recordEq] at deleted
    simpa [isDelete, LeafRecord.body, restored, isOldest] using deleted
  · intro flagRight
    refine ⟨1, out.record, out.freed, released, ?_, by simpa using freedPerm⟩
    rw [recordEq]
    refine sameRecord_unlocked format ?_ ?_ ?_ ?_
    · simp [restored, moveAssign]
    · by_cases isOldest : (record.versionAt kept).depth = 0
      · simpa [restored, isOldest, isDelete] using flagRight isOldest
      · simp [restored, isOldest]
    · simp [restored, moveAssign]
    · simp [restored, moveAssign]

end Resolve

/-- Whatever part of a transaction's changes to a record is committed, releasing the record
leaves the last committed version and frees all others once, except that a record rolled back
to the version the transaction found keeps the delete flag of the newest version. -/
theorem resolvesTo_versionChain_iff (format : IndexFormat) (txid : TranID) (base : LeafRecord)
    (committed : base.CommittedFor txid) (requests : List UpdateRequest) (kept : ℕ) :
    ResolvesTo format
        ((versionChain format txid base requests).endTransaction txid kept)
        (versionChain format txid base (requests.take kept)) ↔
      (kept = 0 → ∀ request ∈ requests.getLast?,
        (request.action = .delete ↔ base.isDelete = true)) := by
  have versions := rowVersions_versionChain format txid committed requests
  have keptEq := versionAt_versionChain format txid committed requests kept
  have depthEq := depth_versionChain format txid committed (requests.take kept)
  have resolves := resolvesTo_iff kept format versions
  rw [keptEq, depthEq] at resolves
  rw [resolves]
  cases requests using List.reverseRecOn with
  | nil => simp
  | append_singleton requests request _ =>
      have flagEq : (versionChain format txid base (requests ++ [request])).isDelete =
          decide (request.action = .delete) := by
        cases action : request.action <;>
          simp [versionChain_concat, applyRequest, updateRecord, isDelete, LeafRecord.body,
            RowAction.toActionType, action]
      rw [flagEq]
      cases kept with
      | zero =>
          have flagIff : ∀ (action : RowAction) (flag : Bool),
              (decide (action = .delete) = flag ↔ (action = .delete ↔ flag = true)) := by
            intro action flag
            cases action <;> cases flag <;> decide
          simp [versionChain, flagIff]
      | succ kept => simp

theorem buildChain_eq_some_iff {format : IndexFormat} {txid : TranID} {base chain : LeafRecord}
    {requests : List UpdateRequest} :
    buildChain format txid base requests = some chain ↔
      AllFit format txid base requests ∧ versionChain format txid base requests = chain := by
  induction requests generalizing base with
  | nil => simp [buildChain, AllFit, versionChain]
  | cons request requests ih =>
      by_cases fits : request.fits format base = true
      · simp only [buildChain, AllFit, fits, if_true, true_and, ih]
        rfl
      · simp [buildChain, AllFit, fits]

theorem allFit_take {format : IndexFormat} {txid : TranID} {base : LeafRecord}
    {requests : List UpdateRequest} (allFit : AllFit format txid base requests) (kept : ℕ) :
    AllFit format txid base (requests.take kept) := by
  induction requests generalizing base kept with
  | nil => simpa using allFit
  | cons request requests ih =>
      cases kept with
      | zero => trivial
      | succ kept => exact ⟨allFit.1, ih allFit.2 kept⟩

/-- A chain is built and resolved exactly when every version of it is written inside of its
block and, if none of it is committed, the flag of the newest version is that of the oldest. -/
theorem resolves_iff (format : IndexFormat) (txid : TranID) (base : LeafRecord)
    (committed : base.CommittedFor txid) (requests : List UpdateRequest) (kept : ℕ) :
    Resolves format txid base requests kept ↔
      AllFit format txid base requests ∧
        (kept = 0 → ∀ request ∈ requests.getLast?,
          (request.action = .delete ↔ base.isDelete = true)) := by
  have resolvesTo := resolvesTo_versionChain_iff format txid base committed requests kept
  constructor
  · rintro ⟨chain, version, chainEq, versionEq, resolved⟩
    obtain ⟨allFit, rfl⟩ := buildChain_eq_some_iff.mp chainEq
    obtain ⟨-, rfl⟩ := buildChain_eq_some_iff.mp versionEq
    exact ⟨allFit, resolvesTo.mp resolved⟩
  · rintro ⟨allFit, flagRight⟩
    exact ⟨_, _, buildChain_eq_some_iff.mpr ⟨allFit, rfl⟩,
      buildChain_eq_some_iff.mpr ⟨allFit_take allFit kept, rfl⟩, resolvesTo.mpr flagRight⟩

/-- A row of a table with one variable column. -/
def sampleFormat : IndexFormat where
  indexType := .primary
  vctValue := [{ isFixLength := false, maxLength := 100 }]

/-- A value of one byte in a variable column. -/
def sampleValue (byte : Byte) : DataValue where
  isNull := false
  isFixLength := false
  persistenceLength _ := 1
  writeData _ := [byte]

/-- The committed row with key `1` and value `5`. -/
def sampleRecord : LeafRecord :=
  newPrimary sampleFormat [sampleValue 1] [sampleValue 5] 1 none ⟨1, 2, 3, crc32⟩

/-- The first request of a transaction on the row: an update to `6`, or a delete. -/
def sampleRequest (action : RowAction) : UpdateRequest where
  vctVal := match action with
    | .update => [sampleValue 6]
    | .delete => []
  recStamp := 2
  stmtId := 1
  action := action
  gapLock := false
  fresh := ⟨10, 11, 12, crc32⟩

theorem resolves_update :
    Resolves sampleFormat 7 sampleRecord [sampleRequest .update] 0 ↔
      AllFit sampleFormat 7 sampleRecord [sampleRequest .update] ∧
        (0 = 0 → ∀ request ∈ [sampleRequest .update].getLast?,
          (request.action = .delete ↔ sampleRecord.isDelete = true)) :=
  resolves_iff sampleFormat 7 sampleRecord trivial [sampleRequest .update] 0

/-- A row that one transaction deletes and then rolls back stays marked as deleted. -/
theorem not_resolves_of_rollbacked_delete :
    AllFit sampleFormat 7 sampleRecord [sampleRequest .delete] ∧
      ¬Resolves sampleFormat 7 sampleRecord [sampleRequest .delete] 0 := by
  refine ⟨⟨by decide +kernel, trivial⟩, ?_⟩
  rintro ⟨chain, version, chainEq, versionEq, resolved⟩
  obtain ⟨-, rfl⟩ := buildChain_eq_some_iff.mp chainEq
  obtain ⟨-, rfl⟩ := buildChain_eq_some_iff.mp versionEq
  have versions :=
    rowVersions_versionChain sampleFormat 7 (show sampleRecord.CommittedFor 7 from trivial)
    [sampleRequest .delete]
  exact absurd ((resolvesTo_iff 0 sampleFormat versions).mp resolved) (by decide +kernel)

end LeafRecord

end RapidDb
