import Mathlib.Logic.Function.Basic
import RapidDb.Core.Visibility

/-!
# Locks of selects

Selects of any number of transactions lock rows with `READ_SHARE` or `READ_UPDATE`, and
entries of secondary indexes while they look up the rows. A transaction keeps the records
its statements locked in `_lstFinishRecord` until it ends.

A commit or a rollback ends the locks with `SubmitStatement`. A select that runs by itself,
and one that fails, only stores a status on each lock. For `READ_SHARE` the status says
nothing: what counts there is the list of sharers.
-/

namespace RapidDb

open Transition

namespace LeafRecord

/-- Whether a transaction counts as a holder of the record's lock. -/
def Counted (record : LeafRecord) (txid : TranID) : Prop :=
  ∃ lock ∈ record.recLock, txid ∈ lock.lstTxid ∧ txid ≠ txidNull ∧
    (lock.actType = .readShare ∨ lock.recStatus.isMarked = false)

/-- What the condition of a select says about a row. -/
inductive Verdict where
  | holds
  | fails
  | error
deriving DecidableEq, Repr

/-- What a select makes of a row: the record, whether the statement keeps its lock, and whether
the statement fails. -/
structure RowResult where
  record : LeafRecord
  locked : Bool
  failed : Bool

/-- `TableSelectStatement::HandleLeafRecord`. -/
def selectRow (format : IndexFormat) (record : LeafRecord) (stmt : StatementRef)
    (atype : ActionType) (verdict : Verdict) (lockAddr : ℕ) : Option RowResult :=
  record.prepare.bind fun record =>
    (record.readListValue format [] stmt atype false lockAddr).map fun outcome =>
      match outcome.result with
      | .recDelete => ⟨outcome.record, false, false⟩
      | .okNolock => ⟨outcome.record, false, verdict = .error⟩
      | .okLock =>
          if verdict = .holds then
            ⟨outcome.record, true, false⟩
          else
            ⟨outcome.record.submitStatement stmt .freeed, false, verdict = .error⟩
      | .locked | .invalidVersion => ⟨outcome.record, false, true⟩

/-- What the scan of a secondary index makes of an entry. -/
def selectEntry (record : LeafRecord) (stmt : StatementRef) (lockAddr : ℕ) : Option RowResult :=
  record.prepare.map fun record =>
    let (result, record) := record.secondaryReadLock stmt .readUpdate lockAddr
    ⟨record, result = .locked, result = .conflict⟩

/-- The mark of `Statement::Commit` and `Statement::Rollback` on one record. -/
def submitAtEnd (stmt : StatementRef) (committed : Bool) (record : LeafRecord) : LeafRecord :=
  match record.recLock with
  | none => record
  | some lock =>
      record.submitStatement stmt <|
        if lock.actType.isReadLock then .freeed
        else if committed then .commited else .rollbacked

/-- A status stored on the lock of a record. -/
def storeStatus (status : RecordStatus) (record : LeafRecord) : LeafRecord :=
  record.mapLock fun lock => { lock with recStatus := status }

end LeafRecord

/-- A select with the records it keeps locked: rows, and entries of the scanned index. -/
structure SelectStatement where
  id : ℕ
  atype : ActionType
  lstFinishRecord : List ℕ := []
  lstSecRecord : List ℕ := []
  failed : Bool := false
deriving DecidableEq, Repr

/-- A transaction with the selects it has executed and the one that is running. -/
structure SelectTran where
  autoCommit : Bool
  lstStatement : List SelectStatement := []
  currStatement : Option SelectStatement := none
deriving DecidableEq, Repr

def SelectStatement.held (statement : SelectStatement) : List ℕ :=
  statement.lstFinishRecord ++ statement.lstSecRecord

/-- The records a transaction keeps locked. -/
def SelectTran.held (tran : SelectTran) : List ℕ :=
  tran.lstStatement.flatMap SelectStatement.held ++
    (tran.currStatement.map SelectStatement.held).getD []

/-- The records of a table and its secondary indexes, the open transactions, and the ids of
those that have ended. -/
structure SelectState where
  records : ℕ → LeafRecord
  trans : TranID → Option SelectTran
  ended : List TranID

/-- Change some records one after the other. -/
def updateRecords (change : LeafRecord → LeafRecord) (positions : List ℕ)
    (records : ℕ → LeafRecord) : ℕ → LeafRecord :=
  positions.foldl
    (fun records position => Function.update records position (change (records position)))
    records

inductive SelectEvent where
  | beginTran (txid : TranID) (autoCommit : Bool)
  | start (txid : TranID) (id : ℕ) (atype : ActionType)
  | row (txid : TranID) (position : ℕ) (verdict : LeafRecord.Verdict) (lockAddr : ℕ)
  | entry (txid : TranID) (position : ℕ) (lockAddr : ℕ)
  | entryDone (txid : TranID) (position : ℕ)
  | fail (txid : TranID)
  | finish (txid : TranID)
  | endTran (txid : TranID) (committed : Bool)
  | release (position : ℕ)
deriving DecidableEq, Repr

namespace SelectState

/-- Replace a transaction and one record. -/
def set (state : SelectState) (txid : TranID) (tran : SelectTran) (position : ℕ)
    (record : LeafRecord) : SelectState :=
  { state with
    records := Function.update state.records position record
    trans := Function.update state.trans txid (some tran) }

/-- `CloseTransaction`: the statements of the transaction are deleted. -/
def close (state : SelectState) (txid : TranID) (records : ℕ → LeafRecord) : SelectState where
  records := records
  trans := Function.update state.trans txid none
  ended := txid :: state.ended

def current (state : SelectState) (txid : TranID) : Option (SelectTran × SelectStatement) :=
  (state.trans txid).bind fun tran => tran.currStatement.map fun statement => (tran, statement)

def step (format : IndexFormat) (state : SelectState) : SelectEvent → Option SelectState
  | .beginTran txid autoCommit =>
      if (state.trans txid).isNone ∧ txid ∉ state.ended ∧ txid ≠ txidNull then
        some
          { state with
            trans := Function.update state.trans txid (some { autoCommit := autoCommit }) }
      else
        none
  | .start txid id atype =>
      (state.trans txid).bind fun tran =>
        if tran.currStatement.isNone ∧ (tran.autoCommit → tran.lstStatement = []) ∧
            (atype = .noAction ∨ atype.isReadLock) then
          some
            { state with
              trans := Function.update state.trans txid
                (some { tran with currStatement := some { id := id, atype := atype } }) }
        else
          none
  | .row txid position verdict lockAddr =>
      (state.current txid).bind fun (tran, statement) =>
        if statement.failed then
          none
        else
          ((state.records position).selectRow format ⟨statement.id, txid⟩ statement.atype verdict
              lockAddr).map fun result =>
            let statement :=
              { statement with
                lstFinishRecord := if result.locked then statement.lstFinishRecord ++ [position]
                  else statement.lstFinishRecord
                failed := result.failed }
            state.set txid { tran with currStatement := some statement } position result.record
  | .entry txid position lockAddr =>
      (state.current txid).bind fun (tran, statement) =>
        if statement.failed then
          none
        else
          ((state.records position).selectEntry ⟨statement.id, txid⟩ lockAddr).map fun result =>
            let statement :=
              { statement with
                lstSecRecord := if result.locked then statement.lstSecRecord ++ [position]
                  else statement.lstSecRecord
                failed := result.failed }
            state.set txid { tran with currStatement := some statement } position result.record
  | .entryDone txid position =>
      (state.current txid).bind fun (tran, statement) =>
        if position ∈ statement.lstSecRecord then
          let record := (state.records position).submitStatement ⟨statement.id, txid⟩ .freeed
          let statement :=
            { statement with lstSecRecord := statement.lstSecRecord.erase position }
          some (state.set txid { tran with currStatement := some statement } position record)
        else
          none
  | .fail txid =>
      (state.current txid).map fun (tran, statement) =>
        { state with
          trans := Function.update state.trans txid
            (some { tran with currStatement := some { statement with failed := true } }) }
  | .finish txid =>
      (state.current txid).bind fun (tran, statement) =>
        if statement.lstSecRecord ≠ [] then
          none
        else if statement.failed then
          some (state.close txid (updateRecords (LeafRecord.storeStatus .rollbacked)
            statement.lstFinishRecord state.records))
        else if tran.autoCommit then
          some (state.close txid (updateRecords (LeafRecord.storeStatus .freeed)
            statement.lstFinishRecord state.records))
        else
          some
            { state with
              trans := Function.update state.trans txid
                (some
                  { tran with
                    lstStatement := tran.lstStatement ++ [statement]
                    currStatement := none }) }
  | .endTran txid committed =>
      (state.trans txid).bind fun tran =>
        if tran.currStatement.isNone then
          some (state.close txid (tran.lstStatement.foldl
            (fun records statement =>
              updateRecords (LeafRecord.submitAtEnd ⟨statement.id, txid⟩ committed)
                statement.lstFinishRecord records)
            state.records))
        else
          none
  | .release position =>
      (state.records position).prepare.map fun record =>
        { state with records := Function.update state.records position record }

end SelectState

/-- The events that stay clear of the slips: a select that ends its transaction, by itself or by
failing, holds no `READ_SHARE` lock, and it does not fail while earlier selects of its
transaction hold locks. -/
def SafeSelect (state : SelectState) : SelectEvent → Prop
  | .finish txid =>
      ∀ running ∈ state.current txid, running.2.failed = true ∨ running.1.autoCommit = true →
        running.1.lstStatement.flatMap SelectStatement.held = [] ∧
          ∀ position ∈ running.2.lstFinishRecord, ∀ lock ∈ (state.records position).recLock,
            lock.actType ≠ .readShare
  | _ => True

instance (state : SelectState) (event : SelectEvent) : Decidable (SafeSelect state event) := by
  cases event <;> unfold SafeSelect <;> infer_instance

/-- The records have no locks and no transaction is open. -/
structure SelectState.Idle (state : SelectState) : Prop where
  unlocked : ∀ position, (state.records position).recLock = none
  closed : ∀ txid, state.trans txid = none

/-- No transaction that has ended is counted by a lock, and a lock that counts nobody else is
released. -/
structure SelectState.LocksEnd (state : SelectState) : Prop where
  notCounted : ∀ txid ∈ state.ended, ∀ position, ¬(state.records position).Counted txid
  released : ∀ position, (state.records position).recLock ≠ none →
    (∀ txid, (state.records position).Counted txid → txid ∈ state.ended) →
      (state.records position).releaseLockAble = true ∧
        ∃ out, (state.records position).releaseLock = some out ∧ out.record.recLock = none

/-!
## What a select does to one record
-/

/-- A sound lock as selects leave it: each transaction occurs at most once in it. -/
structure RecordLock.ByReads (lock : RecordLock) : Prop where
  sound : lock.Sound
  reads : lock.actType.isReadLock = true
  once : ∀ txid, txid ≠ txidNull → lock.lstTxid.count txid ≤ 1

variable {txid : TranID}

theorem RecordLock.byReads_of_single {lock : RecordLock} (sound : lock.Sound)
    (reads : lock.actType.isReadLock = true) (single : lock.lstTxid = [txid]) : lock.ByReads where
  sound := sound
  reads := reads
  once := fun holder _ => by
    rw [single]
    exact List.count_le_length

namespace LeafRecord

/-- A record that only selects have locked. -/
def ReadOnly : LeafRecord → Prop
  | unlocked _ => True
  | locked _ lock => lock.ByReads
  | versioned _ _ _ => False

@[simp] theorem counted_unlocked (body : RecordBody) (txid : TranID) :
    ¬(unlocked body).Counted txid := by
  simp [Counted, recLock]

@[simp] theorem counted_locked (body : RecordBody) (lock : RecordLock) (txid : TranID) :
    (locked body lock).Counted txid ↔ txid ∈ lock.lstTxid ∧ txid ≠ txidNull ∧
      (lock.actType = .readShare ∨ lock.recStatus.isMarked = false) := by
  simp [Counted, recLock]

variable {record : LeafRecord}

theorem not_counted_of_releaseLockAble
    (able : record.releaseLockAble = true) (txid : TranID) : ¬record.Counted txid := by
  rintro ⟨lock, head, mem, active, counts⟩
  have headEq : record.recLock = some lock := head
  by_cases share : lock.actType = .readShare
  · simp only [releaseLockAble, headEq, share, if_true, List.all_eq_true, beq_iff_eq] at able
    exact active (able txid mem)
  · simp only [releaseLockAble, headEq, share, if_false] at able
    rcases counts with isShare | unmarked
    · exact share isShare
    · rw [able] at unmarked
      cases unmarked

/-- The record is left to selects, and the transaction is counted in addition if it was added. -/
structure Visited (txid : TranID) (added : Prop) (record record' : LeafRecord) : Prop where
  readOnly : record'.ReadOnly
  counted : ∀ holder, record'.Counted holder ↔ record.Counted holder ∨ added ∧ holder = txid
  fresh : added → ¬record.Counted txid

/-- The record is left to selects, and the transaction is not counted any more. -/
structure Leaves (txid : TranID) (record record' : LeafRecord) : Prop where
  readOnly : record'.ReadOnly
  counted : ∀ holder, record'.Counted holder ↔ record.Counted holder ∧ holder ≠ txid

variable {txid : TranID}

theorem visited_same {added : Prop}
    (readOnly : record.ReadOnly) (notAdded : ¬added) : Visited txid added record record where
  readOnly := readOnly
  counted := fun holder => by simp [notAdded]
  fresh := fun isAdded => absurd isAdded notAdded

theorem Visited.after {first second third : LeafRecord} {added : Prop}
    (before : Visited txid False first second) (visited : Visited txid added second third) :
    Visited txid added first third where
  readOnly := visited.readOnly
  counted := fun holder => by
    rw [visited.counted, before.counted]
    simp
  fresh := fun isAdded isCounted =>
    visited.fresh isAdded ((before.counted txid).mpr (Or.inl isCounted))

theorem wellLocked_of_readOnly (readOnly : record.ReadOnly) :
    record.WellLocked := by
  cases record with
  | unlocked body => trivial
  | locked body lock => exact readOnly.sound
  | versioned body lock undoRec => exact readOnly.elim

theorem prepare_readOnly {record record' : LeafRecord} (readOnly : record.ReadOnly)
    (prepared : record.prepare = some record') :
    record'.ReadOnly ∧ (∀ txid, record'.Counted txid ↔ record.Counted txid) ∧
      record'.releaseLockAble = false := by
  unfold prepare at prepared
  split at prepared
  · next able =>
      have notCounted := not_counted_of_releaseLockAble able
      cases record with
      | unlocked body => cases able
      | versioned body lock undoRec => exact readOnly.elim
      | locked body lock =>
          simp only [releaseLock, releaseInto, readOnly.reads, if_true, Option.map_some,
            Option.some.injEq] at prepared
          subst prepared
          exact ⟨trivial, fun txid => by simp only [counted_unlocked, notCounted txid], rfl⟩
  · next able =>
      cases prepared
      exact ⟨readOnly, fun _ => Iff.rfl, by simpa using able⟩

variable {stmt : StatementRef} {atype : ActionType}

theorem visited_new (body : RecordBody)
    (bGapLock : Bool) (lockAddr : ℕ) (active : stmt.txid ≠ txidNull)
    (reads : atype.isReadLock = true) :
    Visited stmt.txid True (unlocked body)
      (locked body (RecordLock.new lockAddr atype .lockOnly bGapLock .inPage stmt)) where
  readOnly := by
    have isAction : atype ≠ .noAction := by
      rintro rfl
      cases reads
    exact RecordLock.byReads_of_single (sound_new isAction (fun _ => rfl) active) reads rfl
  counted := by
    intro holder
    simp only [counted_locked, counted_unlocked, RecordLock.new, List.mem_singleton, false_or,
      true_and]
    constructor
    · rintro ⟨holderEq, -⟩
      exact holderEq
    · rintro rfl
      exact ⟨rfl, active, Or.inr rfl⟩
  fresh := fun _ => counted_unlocked body stmt.txid

variable {body : RecordBody} {lock lock' : RecordLock}

theorem visited_join
    (byReads : lock.ByReads) (active : txid ≠ txidNull) (share : lock.actType = .readShare)
    (new : txid ∉ lock.lstTxid) (action : lock'.actType = lock.actType)
    (status : lock'.recStatus = lock.recStatus) (sharers : lock'.lstTxid = lock.lstTxid ++ [txid]) :
    Visited txid True (locked body lock) (locked body lock') where
  readOnly := by
    have share' := action.trans share
    refine ⟨⟨?_, fun _ => status.trans (byReads.sound.shared share), ?_⟩, ?_, ?_⟩
    · exact action ▸ byReads.sound.action
    · exact fun own => absurd share' own
    · exact action ▸ byReads.reads
    · intro holder holderActive
      rw [sharers, List.count_append]
      by_cases same : holder = txid
      · subst same
        simp [List.count_eq_zero_of_not_mem new]
      · have absent : holder ∉ [txid] := by simpa using same
        rw [List.count_eq_zero_of_not_mem absent]
        exact byReads.once holder holderActive
  counted := by
    intro holder
    simp only [counted_locked, sharers, action, share, List.mem_append, List.mem_singleton,
      true_or, and_true, true_and]
    constructor
    · rintro ⟨mem | same, holderActive⟩
      · exact Or.inl ⟨mem, holderActive⟩
      · exact Or.inr same
    · rintro (⟨mem, holderActive⟩ | rfl)
      · exact ⟨Or.inl mem, holderActive⟩
      · exact ⟨Or.inr rfl, active⟩
  fresh := fun _ isCounted => new ((counted_locked _ _ _).mp isCounted).1

theorem visited_kept
    (byReads : lock.ByReads) (sound : lock'.Sound) (action : lock'.actType = lock.actType)
    (status : lock'.recStatus = lock.recStatus) (sharers : lock'.lstTxid = lock.lstTxid) :
    Visited txid False (locked body lock) (locked body lock') where
  readOnly := ⟨sound, action ▸ byReads.reads, sharers ▸ byReads.once⟩
  counted := fun holder => by simp [counted_locked, action, status, sharers]
  fresh := False.elim

theorem visited_alone (active : txid ≠ txidNull) (unmarked : lock.recStatus.isMarked = false)
    (shares : txid ∈ lock.lstTxid) (alone : otherHolder lock txid = false)
    (sound : lock'.Sound) (reads : lock'.actType.isReadLock = true)
    (status : lock'.recStatus = lock.recStatus) (single : lock'.lstTxid = [txid]) :
    Visited txid False (locked body lock) (locked body lock') where
  readOnly := RecordLock.byReads_of_single sound reads single
  counted := by
    intro holder
    simp only [counted_locked, single, status, unmarked, List.mem_singleton, or_true, and_true,
      false_and, or_false]
    constructor
    · rintro ⟨rfl, -⟩
      exact ⟨shares, active⟩
    · rintro ⟨mem, holderActive⟩
      refine ⟨?_, holderActive⟩
      by_contra different
      rw [otherHolder_iff.mpr ⟨holder, mem, holderActive, different⟩] at alone
      cases alone
  fresh := False.elim

theorem visited_readTarget {record ready lr : LeafRecord} (readOnly : record.ReadOnly)
    (kept : record.releaseLockAble = false)
    (active : stmt.txid ≠ txidNull) (target : record.readTarget stmt atype = .ok (ready, lr)) :
    Visited stmt.txid False record ready := by
  cases record with
  | versioned body lock undoRec => exact readOnly.elim
  | unlocked body =>
      cases target
      exact visited_same trivial id
  | locked body lock =>
      simp only [readTarget, recLock] at target
      split at target
      · split at target
        · cases target
        · next alone =>
            cases target
            rw [Bool.not_eq_true] at alone
            have wellLocked : (locked body lock).WellLocked := readOnly.sound
            have single := lstTxid_dropLeftSharers wellLocked rfl kept alone
            refine visited_alone active (unmarked_of_not_releaseLockAble wellLocked rfl kept)
              (mem_of_not_otherHolder wellLocked rfl kept alone) alone
              (keepsSound_dropLeftSharers readOnly.sound active single) ?_
              (recStatus_dropLeftSharers lock _) single
            rw [actType_dropLeftSharers]
            exact readOnly.reads
      · split at target
        · cases target
        · split at target
          · split at target
            · cases target
            · cases target
              exact visited_same readOnly id
          · cases target
            exact visited_same readOnly id

theorem visited_addReadLock (bGapLock : Bool) (lockAddr : ℕ) (readOnly : record.ReadOnly)
    (active : stmt.txid ≠ txidNull) (reads : atype.isReadLock = true)
    (ready : ∀ lock ∈ record.recLock, lock.recStatus.isMarked = false ∧
      (lock.lstTxid = [stmt.txid] ∨ atype = .readShare ∧ lock.actType = .readShare)) :
    Visited stmt.txid ((record.addReadLock stmt atype bGapLock lockAddr).2 = true) record
      (record.addReadLock stmt atype bGapLock lockAddr).1 := by
  cases record with
  | versioned body lock undoRec => exact readOnly.elim
  | unlocked body =>
      simp only [addReadLock, recLock]
      exact visited_new body bGapLock lockAddr active reads
  | locked body lock =>
      rcases ready lock rfl with ⟨unmarked, lists⟩
      have sound : (joinLock stmt atype bGapLock lock).Sound :=
        sound_joinLock readOnly.sound active lists
      have readsAfter : (joinLock stmt atype bGapLock lock).actType.isReadLock = true := by
        simp only [joinLock]
        split
        · rfl
        · exact readOnly.reads
      simp only [addReadLock, recLock, mapLock, Bool.not_eq_true', List.contains_eq_mem,
        decide_eq_false_iff_not]
      by_cases mem : stmt.txid ∈ lock.lstTxid
      · have sharers : (joinLock stmt atype bGapLock lock).lstTxid = lock.lstTxid := by
          simp [joinLock, mem]
        simp only [mem, not_true_eq_false]
        rcases lists with single | ⟨rfl, share⟩
        · have alone : otherHolder lock stmt.txid = false := by simp [otherHolder, single]
          exact visited_alone active unmarked mem alone sound readsAfter rfl
            (sharers.trans single)
        · refine visited_kept readOnly sound ?_ rfl sharers
          simp [joinLock]
      · rcases lists with single | ⟨rfl, share⟩
        · simp [single] at mem
        · simp only [mem, not_false_eq_true]
          refine visited_join readOnly active share mem ?_ rfl ?_
          · simp [joinLock]
          · simp [joinLock, mem]

theorem visited_readListValue {format : IndexFormat} {mapPos : List (ℕ × ℕ)} {bGapLock : Bool}
    {lockAddr : ℕ} {outcome : ReadOutcome} (readOnly : record.ReadOnly)
    (kept : record.releaseLockAble = false) (active : stmt.txid ≠ txidNull)
    (reads : atype = .noAction ∨ atype.isReadLock = true)
    (answer : record.readListValue format mapPos stmt atype bGapLock lockAddr = some outcome) :
    Visited stmt.txid (outcome.result = .okLock) record outcome.record := by
  unfold readListValue at answer
  cases target : record.readTarget stmt atype with
  | error result =>
      simp only [target, Option.some.injEq] at answer
      subst answer
      refine visited_same readOnly ?_
      intro isLock
      simp only at isLock
      rw [eq_locked_of_readTarget target] at isLock
      cases isLock
  | ok pair =>
      rcases pair with ⟨ready, lr⟩
      have visited := visited_readTarget readOnly kept active target
      simp only [target] at answer
      split at answer
      · cases answer
        refine visited.after (visited_same visited.readOnly ?_)
        intro isLock
        cases isLock
      · rcases Option.map_eq_some_iff.mp answer with ⟨values, -, rfl⟩
        by_cases locks : atype.isReadLock = true
        · have isAction : atype ≠ .noAction := by
            rintro rfl
            cases locks
          have lists : ∀ lock ∈ ready.recLock, lock.recStatus.isMarked = false ∧
              (lock.lstTxid = [stmt.txid] ∨ atype = .readShare ∧ lock.actType = .readShare) := by
            rcases readTarget_spec (wellLocked_of_readOnly readOnly) kept active isAction with
              ⟨refused, -⟩ | ⟨ready', granted, -, -, -, lists⟩
            · rw [target] at refused
              cases refused
            · rw [target] at granted
              cases granted
              exact lists
          have added := visited_addReadLock bGapLock lockAddr visited.readOnly active locks lists
          simp only [locks, if_true]
          have both := visited.after added
          split
          · next isAdded => simpa [isAdded] using both
          · next notAdded => simpa [notAdded] using both
        · simp only [locks, Bool.false_eq_true, if_false]
          refine visited.after (visited_same visited.readOnly ?_)
          intro isLock
          cases isLock

theorem count_leaveSharers {txid holder : TranID} (ids : List TranID)
    (active : holder ≠ txidNull) :
    (leaveSharers txid ids).count holder =
      if holder = txid then ids.count holder - 1 else ids.count holder := by
  induction ids with
  | nil => simp [leaveSharers]
  | cons id ids ih =>
      simp only [leaveSharers]
      by_cases leaves : id = txid
      · subst leaves
        have notNull : txidNull ≠ holder := active.symm
        by_cases same : holder = id
        · subst same
          simp [notNull]
        · have different : id ≠ holder := fun eq => same eq.symm
          simp [notNull, same, different]
      · rw [if_neg leaves, List.count_cons, List.count_cons, ih]
        by_cases same : holder = txid
        · subst same
          simp [leaves]
        · simp [same]

theorem single_of_counted {lock : RecordLock}
    (byReads : lock.ByReads) (own : lock.actType ≠ .readShare)
    (counted : (locked body lock).Counted txid) : lock.lstTxid = [txid] := by
  rcases byReads.sound.single own with ⟨owner, -, single⟩
  have mem := ((counted_locked _ _ _).mp counted).1
  rw [single, List.mem_singleton] at mem
  rw [single, mem]

theorem leaves_of_mark (byReads : lock.ByReads) (own : lock.actType ≠ .readShare)
    (counted : (locked body lock).Counted txid) (action : lock'.actType = lock.actType)
    (sharers : lock'.lstTxid = lock.lstTxid) (marked : lock'.recStatus.isMarked = true) :
    Leaves txid (locked body lock) (locked body lock') where
  readOnly := by
    have single := single_of_counted byReads own counted
    have own' : lock'.actType ≠ .readShare := action ▸ own
    refine RecordLock.byReads_of_single ⟨?_, fun share => absurd share own', fun _ => ?_⟩
      (action ▸ byReads.reads) (sharers.trans single)
    · exact action ▸ byReads.sound.action
    · exact sharers ▸ byReads.sound.single own
  counted := by
    intro holder
    have single := single_of_counted byReads own counted
    simp only [counted_locked, action, own, marked, sharers, single, List.mem_singleton]
    constructor
    · rintro ⟨-, -, impossible⟩
      simp at impossible
    · rintro ⟨⟨same, -⟩, different⟩
      exact absurd same different

theorem leaves_submitStatement (stmt : StatementRef)
    (readOnly : record.ReadOnly) (counted : record.Counted stmt.txid) :
    Leaves stmt.txid record (record.submitStatement stmt .freeed) := by
  cases record with
  | versioned body lock undoRec => exact readOnly.elim
  | unlocked body => exact absurd counted (counted_unlocked body _)
  | locked body lock =>
      simp only [submitStatement, mapLock, submitLock, true_and]
      by_cases share : lock.actType = .readShare
      · rw [if_pos share]
        refine ⟨⟨{ readOnly.sound with single := fun own => absurd share own },
          readOnly.reads, ?_⟩, ?_⟩
        · intro holder active
          rw [count_leaveSharers _ active]
          have once := readOnly.once holder active
          split
          · omega
          · exact once
        · intro holder
          simp only [counted_locked, share, true_or, and_true]
          by_cases active : holder = txidNull
          · simp [active]
          · have once := readOnly.once holder active
            simp only [← List.count_pos_iff, count_leaveSharers _ active]
            by_cases same : holder = stmt.txid
            · simp only [same, if_true, ne_eq, not_true, and_false, iff_false]
              rw [same] at once
              omega
            · simp [same, active]
      · rw [if_neg share]
        exact leaves_of_mark readOnly share counted rfl rfl rfl

theorem leaves_submitAtEnd (stmt : StatementRef) (committed : Bool)
    (readOnly : record.ReadOnly) (counted : record.Counted stmt.txid) :
    Leaves stmt.txid record (record.submitAtEnd stmt committed) := by
  cases record with
  | versioned body lock undoRec => exact readOnly.elim
  | unlocked body => exact absurd counted (counted_unlocked body _)
  | locked body lock =>
      have submitEq : (locked body lock).submitAtEnd stmt committed =
          (locked body lock).submitStatement stmt .freeed := by
        simp [submitAtEnd, recLock, readOnly.reads]
      rw [submitEq]
      exact leaves_submitStatement stmt readOnly counted

theorem leaves_storeStatus {status : RecordStatus}
    (readOnly : record.ReadOnly) (counted : record.Counted txid) (marks : status.isMarked = true)
    (own : ∀ lock ∈ record.recLock, lock.actType ≠ .readShare) :
    Leaves txid record (record.storeStatus status) := by
  cases record with
  | versioned body lock undoRec => exact readOnly.elim
  | unlocked body => exact absurd counted (counted_unlocked body _)
  | locked body lock => exact leaves_of_mark readOnly (own lock rfl) counted rfl rfl marks

theorem visited_selectRow {format : IndexFormat} {verdict : Verdict} {lockAddr : ℕ}
    {result : RowResult}
    (readOnly : record.ReadOnly) (active : stmt.txid ≠ txidNull)
    (reads : atype = .noAction ∨ atype.isReadLock = true)
    (selected : record.selectRow format stmt atype verdict lockAddr = some result) :
    Visited stmt.txid (result.locked = true) record result.record := by
  rcases Option.bind_eq_some_iff.mp selected with ⟨ready, prepared, rest⟩
  rcases Option.map_eq_some_iff.mp rest with ⟨outcome, answer, rfl⟩
  rcases prepare_readOnly readOnly prepared with ⟨readyReadOnly, sameCounted, kept⟩
  have visited := visited_readListValue readyReadOnly kept active reads answer
  have prepares : Visited stmt.txid False record ready :=
    ⟨readyReadOnly, fun holder => by simp [sameCounted], False.elim⟩
  refine prepares.after ?_
  cases resultEq : outcome.result with
  | okLock =>
      simp only [resultEq] at visited ⊢
      split
      · simpa using visited
      · have counted : outcome.record.Counted stmt.txid :=
          (visited.counted _).mpr (Or.inr ⟨trivial, rfl⟩)
        have leaves := leaves_submitStatement stmt visited.readOnly counted
        refine ⟨leaves.readOnly, fun holder => ?_, fun isLock => by cases isLock⟩
        rw [leaves.counted, visited.counted]
        have fresh := visited.fresh trivial
        constructor
        · rintro ⟨isCounted | ⟨-, same⟩, different⟩
          · exact Or.inl isCounted
          · exact absurd same different
        · rintro (isCounted | ⟨impossible, -⟩)
          · refine ⟨Or.inl isCounted, ?_⟩
            rintro rfl
            exact fresh isCounted
          · cases impossible
  | okNolock => simpa [resultEq] using visited
  | locked => simpa [resultEq] using visited
  | recDelete => simpa [resultEq] using visited
  | invalidVersion => simpa [resultEq] using visited

theorem visited_selectEntry {lockAddr : ℕ}
    {result : RowResult} (readOnly : record.ReadOnly) (active : stmt.txid ≠ txidNull)
    (selected : record.selectEntry stmt lockAddr = some result) :
    Visited stmt.txid (result.locked = true) record result.record := by
  rcases Option.map_eq_some_iff.mp selected with ⟨ready, prepared, rfl⟩
  rcases prepare_readOnly readOnly prepared with ⟨readyReadOnly, sameCounted, kept⟩
  have prepares : Visited stmt.txid False record ready :=
    ⟨readyReadOnly, fun holder => by simp [sameCounted], False.elim⟩
  refine prepares.after ?_
  cases ready with
  | versioned body lock undoRec => exact readyReadOnly.elim
  | unlocked body =>
      have reads : ActionType.readUpdate.isReadLock = true := rfl
      have visited := visited_new body false lockAddr active reads
      simpa [secondaryReadLock, recLock, LeafRecord.body] using visited
  | locked body lock =>
      simp only [secondaryReadLock, recLock]
      split
      · next both => cases both.1
      · split
        · exact visited_same readyReadOnly (by simp)
        · exact visited_same readyReadOnly (by simp)

end LeafRecord

/-!
## Runs
-/

/-- The selects of an open transaction keep different records locked, and those that are done
keep no entries. -/
structure SelectTran.Sound (tran : SelectTran) : Prop where
  distinct : tran.held.Nodup
  done : ∀ statement ∈ tran.lstStatement, statement.lstSecRecord = []
  reads : ∀ statement ∈ tran.currStatement,
    statement.atype = .noAction ∨ statement.atype.isReadLock = true

/-- The records that a transaction keeps locked, none once it is closed. -/
def heldOf (tran : Option SelectTran) : List ℕ :=
  (tran.map SelectTran.held).getD []

/-- Exactly the open transactions are counted, on the records they keep locked. -/
structure SelectInv (state : SelectState) : Prop where
  readOnly : ∀ position, (state.records position).ReadOnly
  active : ∀ txid tran, state.trans txid = some tran →
    tran.Sound ∧ txid ≠ txidNull ∧ txid ∉ state.ended
  counted : ∀ txid position,
    (state.records position).Counted txid ↔ position ∈ heldOf (state.trans txid)

open LeafRecord (Visited Leaves)

/-- For one transaction the record counts what `holds` says, for the others nothing changes. -/
structure LeafRecord.Changed (txid : TranID) (holds : Prop) (record record' : LeafRecord) :
    Prop where
  readOnly : record'.ReadOnly
  own : record'.Counted txid ↔ holds
  others : ∀ holder, holder ≠ txid → (record'.Counted holder ↔ record.Counted holder)

theorem LeafRecord.Visited.changed {added : Prop} {record record' : LeafRecord}
    (visited : Visited txid added record record') :
    Changed txid (record.Counted txid ∨ added) record record' where
  readOnly := visited.readOnly
  own := by simp [visited.counted]
  others := fun holder different => by simp [visited.counted, different]

theorem LeafRecord.Leaves.changed {record record' : LeafRecord}
    (leaves : Leaves txid record record') : Changed txid False record record' where
  readOnly := leaves.readOnly
  own := by simp [leaves.counted]
  others := fun holder different => by simp [leaves.counted, different]

section Change

variable {state : SelectState} {txid : TranID}

theorem selectInv_change {records : ℕ → LeafRecord} {tran : Option SelectTran}
    {ended : List TranID} (inv : SelectInv state)
    (isOver : ∀ other, other ≠ txid → other ∈ ended → other ∈ state.ended)
    (sound : ∀ opened ∈ tran, opened.Sound ∧ txid ≠ txidNull ∧ txid ∉ ended)
    (changed : ∀ position,
      LeafRecord.Changed txid (position ∈ heldOf tran) (state.records position)
        (records position)) :
    SelectInv ⟨records, Function.update state.trans txid tran, ended⟩ where
  readOnly := fun position => (changed position).readOnly
  active := by
    intro other opened isOpen
    by_cases same : other = txid
    · subst same
      simp only [Function.update_self] at isOpen
      exact sound opened isOpen
    · simp only [Function.update_of_ne same] at isOpen
      rcases inv.active other opened isOpen with ⟨openedSound, active, live⟩
      exact ⟨openedSound, active, fun mem => live (isOver other same mem)⟩
  counted := by
    intro other position
    by_cases same : other = txid
    · subst same
      simp only [Function.update_self]
      exact (changed position).own
    · simp only [Function.update_of_ne same]
      rw [(changed position).others other same]
      exact inv.counted other position

variable {tran tran' : SelectTran} {position : ℕ} {record : LeafRecord}

section

variable (inv : SelectInv state) (isOpen : state.trans txid = some tran)

include inv isOpen

theorem counted_of_open (other : ℕ) : (state.records other).Counted txid ↔ other ∈ tran.held := by
  rw [inv.counted, isOpen]
  rfl

theorem changed_same (other : ℕ) :
    LeafRecord.Changed txid (other ∈ tran.held) (state.records other) (state.records other) :=
  ⟨inv.readOnly other, counted_of_open inv isOpen other, fun _ _ => Iff.rfl⟩

theorem selectInv_set (sound : tran'.Sound)
    (changed : LeafRecord.Changed txid (position ∈ tran'.held) (state.records position) record)
    (others : ∀ other, other ≠ position → (other ∈ tran'.held ↔ other ∈ tran.held)) :
    SelectInv (state.set txid tran' position record) := by
  rcases inv.active txid tran isOpen with ⟨-, active, live⟩
  refine selectInv_change inv (fun _ _ isOver => isOver) ?_ ?_
  · rintro _ ⟨⟩
    exact ⟨sound, active, live⟩
  · intro other
    by_cases same : other = position
    · subst same
      rw [Function.update_self]
      exact changed
    · rw [Function.update_of_ne same]
      have unchanged := changed_same inv isOpen other
      rwa [← others other same] at unchanged

theorem selectInv_tran (sound : tran'.Sound) (same : tran'.held = tran.held) :
    SelectInv { state with trans := Function.update state.trans txid (some tran') } := by
  rcases inv.active txid tran isOpen with ⟨-, active, live⟩
  refine selectInv_change inv (fun _ _ isOver => isOver) ?_ ?_
  · rintro _ ⟨⟩
    exact ⟨sound, active, live⟩
  · intro other
    have unchanged := changed_same inv isOpen other
    rwa [← same] at unchanged

end

theorem selectInv_close {records : ℕ → LeafRecord} (inv : SelectInv state)
    (changed : ∀ position,
      LeafRecord.Changed txid False (state.records position) (records position)) :
    SelectInv (state.close txid records) := by
  refine selectInv_change inv ?_ (by rintro _ ⟨⟩) ?_
  · intro other different mem
    exact (List.mem_cons.mp mem).resolve_left different
  · intro other
    simpa [heldOf] using changed other

end Change

/-- A transaction leaves some records, and the others stay as they are. -/
structure LeavesAll (txid : TranID) (positions : List ℕ) (records records' : ℕ → LeafRecord) :
    Prop where
  inside : ∀ position ∈ positions, Leaves txid (records position) (records' position)
  outside : ∀ position, position ∉ positions → records' position = records position

theorem updateRecords_apply (change : LeafRecord → LeafRecord) {positions : List ℕ}
    (distinct : positions.Nodup) (records : ℕ → LeafRecord) (position : ℕ) :
    updateRecords change positions records position =
      if position ∈ positions then change (records position) else records position := by
  induction positions generalizing records with
  | nil => simp [updateRecords]
  | cons first rest ih =>
      rcases List.nodup_cons.mp distinct with ⟨notMem, restDistinct⟩
      have tail := ih restDistinct (Function.update records first (change (records first)))
      simp only [updateRecords, List.foldl_cons] at tail ⊢
      rw [tail]
      by_cases same : position = first
      · subst same
        simp [notMem]
      · simp [same]

theorem leavesAll_updateRecords {positions : List ℕ}
    (change : LeafRecord → LeafRecord) {records : ℕ → LeafRecord} (distinct : positions.Nodup)
    (leaves : ∀ position ∈ positions, Leaves txid (records position) (change (records position))) :
    LeavesAll txid positions records (updateRecords change positions records) where
  inside := by
    intro position mem
    rw [updateRecords_apply change distinct, if_pos mem]
    exact leaves position mem
  outside := by
    intro position notMem
    rw [updateRecords_apply change distinct, if_neg notMem]

theorem leavesAll_endTran (committed : Bool) {statements : List SelectStatement}
    {records : ℕ → LeafRecord}
    (distinct : (statements.flatMap SelectStatement.lstFinishRecord).Nodup)
    (readOnly : ∀ position, (records position).ReadOnly)
    (counted : ∀ position ∈ statements.flatMap SelectStatement.lstFinishRecord,
      (records position).Counted txid) :
    LeavesAll txid (statements.flatMap SelectStatement.lstFinishRecord) records (statements.foldl
        (fun records statement =>
          updateRecords (LeafRecord.submitAtEnd ⟨statement.id, txid⟩ committed)
            statement.lstFinishRecord records)
        records) := by
  induction statements generalizing records with
  | nil => exact ⟨by simp, fun _ _ => rfl⟩
  | cons first rest ih =>
      simp only [List.flatMap_cons, List.nodup_append, List.mem_append] at distinct counted
      rcases distinct with ⟨firstDistinct, restDistinct, apart⟩
      have head := leavesAll_updateRecords (LeafRecord.submitAtEnd ⟨first.id, txid⟩ committed)
        firstDistinct fun position mem =>
          LeafRecord.leaves_submitAtEnd ⟨first.id, txid⟩ committed (readOnly position)
            (counted position (Or.inl mem))
      have notFirst : ∀ position ∈ rest.flatMap SelectStatement.lstFinishRecord,
          position ∉ first.lstFinishRecord := fun position mem memFirst =>
        apart position memFirst position mem rfl
      simp only [List.foldl_cons, List.flatMap_cons]
      generalize updateRecords (LeafRecord.submitAtEnd ⟨first.id, txid⟩ committed)
        first.lstFinishRecord records = middle at head
      have readOnlyMiddle : ∀ position, (middle position).ReadOnly := by
        intro position
        by_cases mem : position ∈ first.lstFinishRecord
        · exact (head.inside position mem).readOnly
        · rw [head.outside position mem]
          exact readOnly position
      have tail := ih restDistinct readOnlyMiddle fun position mem => by
        rw [head.outside position (notFirst position mem)]
        exact counted position (Or.inr mem)
      refine ⟨fun position mem => ?_, fun position notMem => ?_⟩
      · rcases List.mem_append.mp mem with memFirst | memRest
        · have notRest : position ∉ rest.flatMap SelectStatement.lstFinishRecord :=
            fun memRest => notFirst position memRest memFirst
          rw [tail.outside position notRest]
          exact head.inside position memFirst
        · have leaves := tail.inside position memRest
          rwa [head.outside position (notFirst position memRest)] at leaves
      · rw [List.mem_append, not_or] at notMem
        rw [tail.outside position notMem.2, head.outside position notMem.1]

section Step

variable {format : IndexFormat} {state state' : SelectState} {txid : TranID} {tran : SelectTran}
  {statement : SelectStatement}

theorem open_of_current (current : state.current txid = some (tran, statement)) :
    state.trans txid = some tran ∧ tran.currStatement = some statement := by
  rcases Option.bind_eq_some_iff.mp current with ⟨tran', isOpen, rest⟩
  rcases Option.map_eq_some_iff.mp rest with ⟨statement', runs, pairEq⟩
  cases pairEq
  exact ⟨isOpen, runs⟩

theorem held_of_current (runs : tran.currStatement = some statement) :
    tran.held = tran.lstStatement.flatMap SelectStatement.held ++ statement.held := by
  simp [SelectTran.held, runs]

theorem sound_running (sound : tran.Sound) {running : SelectStatement}
    (distinct : (tran.lstStatement.flatMap SelectStatement.held ++ running.held).Nodup)
    (reads : running.atype = .noAction ∨ running.atype.isReadLock = true) :
    SelectTran.Sound { tran with currStatement := some running } where
  distinct := distinct
  done := sound.done
  reads := by
    rintro _ ⟨⟩
    exact reads

theorem selectInv_closeAll {positions : List ℕ} {records : ℕ → LeafRecord} (inv : SelectInv state)
    (isOpen : state.trans txid = some tran)
    (holds : ∀ position, position ∈ tran.held ↔ position ∈ positions)
    (leaves : LeavesAll txid positions state.records records) :
    SelectInv (state.close txid records) := by
  refine selectInv_close inv fun position => ?_
  by_cases mem : position ∈ positions
  · exact (leaves.inside position mem).changed
  · rw [leaves.outside position mem]
    refine ⟨inv.readOnly position, ?_, fun _ _ => Iff.rfl⟩
    simp [counted_of_open inv isOpen, holds, mem]

theorem selectInv_finish {status : RecordStatus} (inv : SelectInv state)
    (isOpen : state.trans txid = some tran) (runs : tran.currStatement = some statement)
    (entriesDone : statement.lstSecRecord = [])
    (nothingElse : tran.lstStatement.flatMap SelectStatement.held = [])
    (marks : status.isMarked = true)
    (own : ∀ position ∈ statement.lstFinishRecord, ∀ lock ∈ (state.records position).recLock,
      lock.actType ≠ .readShare) :
    SelectInv (state.close txid
      (updateRecords (LeafRecord.storeStatus status) statement.lstFinishRecord state.records)) := by
  have heldEq : tran.held = statement.lstFinishRecord := by
    rw [held_of_current runs, nothingElse, SelectStatement.held, entriesDone]
    simp
  rcases inv.active txid tran isOpen with ⟨sound, -, -⟩
  refine selectInv_closeAll inv isOpen (fun position => by rw [heldEq]) ?_
  refine leavesAll_updateRecords _ (heldEq ▸ sound.distinct) fun position mem => ?_
  have counted := (counted_of_open inv isOpen position).mpr (heldEq ▸ mem)
  exact LeafRecord.leaves_storeStatus (inv.readOnly position) counted marks (own position mem)

/-- A record is visited, and the running select keeps it if it was locked. -/
theorem selectInv_visit {position : ℕ} {record : LeafRecord} {added : Bool}
    {running : SelectStatement} (inv : SelectInv state) (isOpen : state.trans txid = some tran)
    (runs : tran.currStatement = some statement)
    (visited : Visited txid (added = true) (state.records position) record)
    (holds : running.held.Perm (if added then position :: statement.held else statement.held))
    (action : running.atype = statement.atype) :
    SelectInv (state.set txid { tran with currStatement := some running } position record) := by
  rcases inv.active txid tran isOpen with ⟨sound, -, -⟩
  have heldEq := held_of_current runs
  have reads := sound.reads statement runs
  rw [← action] at reads
  have runningHeld : ∀ other, other ∈ running.held ↔
      added = true ∧ other = position ∨ other ∈ statement.held := by
    intro other
    rw [holds.mem_iff]
    cases added <;> simp
  have distinct : (tran.lstStatement.flatMap SelectStatement.held ++ running.held).Nodup := by
    rw [(holds.append_left _).nodup_iff]
    cases added with
    | false => exact heldEq ▸ sound.distinct
    | true =>
        have new : position ∉ tran.held := fun mem =>
          visited.fresh rfl ((counted_of_open inv isOpen position).mpr mem)
        rw [heldEq] at new
        refine List.perm_middle.nodup_iff.mpr (List.nodup_cons.mpr ⟨new, ?_⟩)
        exact heldEq ▸ sound.distinct
  have mem_iff : ∀ other,
      other ∈ SelectTran.held { tran with currStatement := some running } ↔
        other ∈ tran.held ∨ added = true ∧ other = position := by
    intro other
    rw [heldEq]
    simp only [SelectTran.held, Option.map_some, Option.getD_some, List.mem_append, runningHeld]
    tauto
  refine selectInv_set inv isOpen (sound_running sound distinct reads) ?_ ?_
  · have changed := visited.changed
    rw [counted_of_open inv isOpen] at changed
    simpa [mem_iff] using changed
  · intro other different
    simp [mem_iff, different]

theorem selectInv_step {event : SelectEvent} (safe : SafeSelect state event)
    (inv : SelectInv state) (step : state.step format event = some state') : SelectInv state' := by
  cases event with
  | beginTran txid autoCommit =>
      rcases Option.ite_none_right_eq_some.mp step with ⟨⟨closed, live, active⟩, ⟨⟩⟩
      rw [Option.isNone_iff_eq_none] at closed
      refine selectInv_change inv (fun _ _ isOver => isOver) ?_ fun position => ?_
      · rintro _ ⟨⟩
        refine ⟨⟨List.nodup_nil, ?_, ?_⟩, active, live⟩
        · intro statement mem
          cases mem
        · intro statement mem
          cases mem
      · refine ⟨inv.readOnly position, ?_, fun _ _ => Iff.rfl⟩
        rw [inv.counted, closed]
        rfl
  | start txid id atype =>
      rcases Option.bind_eq_some_iff.mp step with ⟨tran, isOpen, rest⟩
      rcases Option.ite_none_right_eq_some.mp rest with ⟨⟨idle, -, reads⟩, ⟨⟩⟩
      rw [Option.isNone_iff_eq_none] at idle
      rcases inv.active txid tran isOpen with ⟨sound, -, -⟩
      have heldEq : SelectTran.held
          { tran with currStatement := some { id := id, atype := atype } } = tran.held := by
        simp [SelectTran.held, SelectStatement.held, idle]
      refine selectInv_tran inv isOpen ⟨heldEq ▸ sound.distinct, sound.done, ?_⟩ heldEq
      rintro _ ⟨⟩
      exact reads
  | row txid position verdict lockAddr =>
      rcases Option.bind_eq_some_iff.mp step with ⟨⟨tran, statement⟩, current, rest⟩
      rcases open_of_current current with ⟨isOpen, runs⟩
      rcases inv.active txid tran isOpen with ⟨sound, active, -⟩
      simp only at rest
      rcases Option.ite_none_left_eq_some.mp rest with ⟨-, rest⟩
      rcases Option.map_eq_some_iff.mp rest with ⟨result, selected, rfl⟩
      have visited := LeafRecord.visited_selectRow (inv.readOnly position) active
        (sound.reads statement runs) selected
      refine selectInv_visit inv isOpen runs visited ?_ rfl
      cases result.locked with
      | false => exact List.Perm.refl _
      | true =>
          simp only [SelectStatement.held, if_true, List.append_assoc]
          exact List.perm_middle
  | entry txid position lockAddr =>
      rcases Option.bind_eq_some_iff.mp step with ⟨⟨tran, statement⟩, current, rest⟩
      rcases open_of_current current with ⟨isOpen, runs⟩
      rcases inv.active txid tran isOpen with ⟨sound, active, -⟩
      simp only at rest
      rcases Option.ite_none_left_eq_some.mp rest with ⟨-, rest⟩
      rcases Option.map_eq_some_iff.mp rest with ⟨result, selected, rfl⟩
      have visited := LeafRecord.visited_selectEntry (inv.readOnly position) active selected
      refine selectInv_visit inv isOpen runs visited ?_ rfl
      cases result.locked with
      | false => exact List.Perm.refl _
      | true =>
          simp only [SelectStatement.held, if_true, ← List.append_assoc]
          exact List.perm_append_comm
  | entryDone txid position =>
      rcases Option.bind_eq_some_iff.mp step with ⟨⟨tran, statement⟩, current, rest⟩
      rcases open_of_current current with ⟨isOpen, runs⟩
      rcases inv.active txid tran isOpen with ⟨sound, active, -⟩
      have heldEq := held_of_current runs
      simp only at rest
      rcases Option.ite_none_right_eq_some.mp rest with ⟨mem, ⟨⟩⟩
      have holds : tran.held.Perm (position ::
          (tran.lstStatement.flatMap SelectStatement.held ++
            (statement.lstFinishRecord ++ statement.lstSecRecord.erase position))) := by
        rw [heldEq, SelectStatement.held]
        have entries := (List.perm_cons_erase mem).append_left statement.lstFinishRecord
        refine ((entries.trans List.perm_middle).append_left _).trans List.perm_middle
      rcases List.nodup_cons.mp (holds.nodup_iff.mp sound.distinct) with ⟨gone, distinct⟩
      have counted := (counted_of_open inv isOpen position).mpr
        (holds.mem_iff.mpr List.mem_cons_self)
      have leaves := LeafRecord.leaves_submitStatement ⟨statement.id, txid⟩
        (inv.readOnly position) counted
      refine selectInv_set inv isOpen
        (sound_running sound distinct (sound.reads statement runs)) ?_ ?_
      · have changed := leaves.changed
        rwa [← iff_false_intro gone] at changed
      · intro other different
        rw [holds.mem_iff, List.mem_cons]
        simp only [different, false_or]
        rfl
  | fail txid =>
      rcases Option.map_eq_some_iff.mp step with ⟨⟨tran, statement⟩, current, rfl⟩
      rcases open_of_current current with ⟨isOpen, runs⟩
      rcases inv.active txid tran isOpen with ⟨sound, -, -⟩
      have heldEq : SelectTran.held
          { tran with currStatement := some { statement with failed := true } } = tran.held :=
        (held_of_current runs).symm
      refine selectInv_tran inv isOpen ?_ heldEq
      refine sound_running sound ?_ (sound.reads statement runs)
      have distinct := sound.distinct
      rwa [held_of_current runs] at distinct
  | finish txid =>
      rcases Option.bind_eq_some_iff.mp step with ⟨⟨tran, statement⟩, current, rest⟩
      rcases open_of_current current with ⟨isOpen, runs⟩
      rcases inv.active txid tran isOpen with ⟨sound, -, -⟩
      have noShare := safe (tran, statement) current
      simp only at rest
      rcases Option.ite_none_left_eq_some.mp rest with ⟨entriesDone, rest⟩
      rw [not_not] at entriesDone
      split at rest
      · next failed =>
          cases rest
          rcases noShare (Or.inl failed) with ⟨nothingElse, own⟩
          exact selectInv_finish inv isOpen runs entriesDone nothingElse rfl own
      · split at rest
        · next auto =>
            cases rest
            rcases noShare (Or.inr auto) with ⟨nothingElse, own⟩
            exact selectInv_finish inv isOpen runs entriesDone nothingElse rfl own
        · cases rest
          have heldEq : SelectTran.held
              { tran with
                lstStatement := tran.lstStatement ++ [statement]
                currStatement := none } = tran.held := by
            simp [SelectTran.held, runs]
          refine selectInv_tran inv isOpen ⟨heldEq ▸ sound.distinct, ?_, ?_⟩ heldEq
          · intro other mem
            rcases List.mem_append.mp mem with mem | mem
            · exact sound.done other mem
            · rw [List.mem_singleton.mp mem]
              exact entriesDone
          · intro other mem
            cases mem
  | endTran txid committed =>
      rcases Option.bind_eq_some_iff.mp step with ⟨tran, isOpen, rest⟩
      rcases Option.ite_none_right_eq_some.mp rest with ⟨idle, ⟨⟩⟩
      rw [Option.isNone_iff_eq_none] at idle
      rcases inv.active txid tran isOpen with ⟨sound, -, -⟩
      have heldEq : tran.held = tran.lstStatement.flatMap SelectStatement.lstFinishRecord := by
        simp only [SelectTran.held, idle, Option.map_none, Option.getD_none, List.append_nil]
        refine List.flatMap_congr fun statement mem => ?_
        simp [SelectStatement.held, sound.done statement mem]
      refine selectInv_closeAll inv isOpen (fun position => by rw [heldEq]) ?_
      refine leavesAll_endTran committed (heldEq ▸ sound.distinct) inv.readOnly ?_
      intro position mem
      exact (counted_of_open inv isOpen position).mpr (heldEq ▸ mem)
  | release position =>
      rcases Option.map_eq_some_iff.mp step with ⟨record, prepared, rfl⟩
      rcases LeafRecord.prepare_readOnly (inv.readOnly position) prepared with
        ⟨readOnly, sameCounted, -⟩
      refine ⟨fun other => ?_, inv.active, fun txid other => ?_⟩
      · by_cases same : other = position
        · subst same
          simpa using readOnly
        · simpa [same] using inv.readOnly other
      · rw [← inv.counted]
        by_cases same : other = position
        · subst same
          simpa using sameCounted txid
        · simp [same]

end Step

theorem selectInv_of_idle {state : SelectState} (idle : state.Idle) : SelectInv state := by
  have unlocked : ∀ position, ∃ body, state.records position = .unlocked body := by
    intro position
    have noLock := idle.unlocked position
    cases recordEq : state.records position with
    | unlocked body => exact ⟨body, rfl⟩
    | locked body lock =>
        rw [recordEq] at noLock
        cases noLock
    | versioned body lock undoRec =>
        rw [recordEq] at noLock
        cases noLock
  refine ⟨fun position => ?_, fun txid tran isOpen => ?_, fun txid position => ?_⟩
  · rcases unlocked position with ⟨body, recordEq⟩
    rw [recordEq]
    trivial
  · rw [idle.closed] at isOpen
    cases isOpen
  · rcases unlocked position with ⟨body, recordEq⟩
    simp [recordEq, idle.closed, heldOf]

theorem LeafRecord.released_of_not_counted {record : LeafRecord} (readOnly : record.ReadOnly)
    (hasLock : record.recLock ≠ none) (notCounted : ∀ txid, ¬record.Counted txid) :
    record.releaseLockAble = true ∧
      ∃ out, record.releaseLock = some out ∧ out.record.recLock = none := by
  cases record with
  | versioned body lock undoRec => exact readOnly.elim
  | unlocked body => exact absurd rfl hasLock
  | locked body lock =>
      constructor
      · by_cases share : lock.actType = .readShare
        · simp only [releaseLockAble, recLock, share, if_true, List.all_eq_true, beq_iff_eq]
          intro txid mem
          by_contra active
          exact notCounted txid ((counted_locked _ _ _).mpr ⟨mem, active, Or.inl share⟩)
        · rcases readOnly.sound.single share with ⟨owner, active, single⟩
          simp only [releaseLockAble, recLock, share, if_false]
          by_contra unmarked
          rw [Bool.not_eq_true] at unmarked
          exact notCounted owner
            ((counted_locked _ _ _).mpr ⟨by simp [single], active, Or.inr unmarked⟩)
      · exact ⟨_, by simp only [releaseLock, releaseInto, readOnly.reads, if_true]; rfl, rfl⟩

/-- Read locks end with their transaction in every run that stays clear of the slips. -/
theorem readLocks_end {format : IndexFormat} {start state : SelectState} (idle : start.Idle)
    (run : Reaches (SelectState.step format) SafeSelect start state) : state.LocksEnd := by
  have inv : SelectInv state := run.preserves (selectInv_of_idle idle)
    fun _ _ _ safe inv step => selectInv_step safe inv step
  have notCounted : ∀ txid ∈ state.ended, ∀ position, ¬(state.records position).Counted txid := by
    intro txid isOver position counted
    have holds := (inv.counted txid position).mp counted
    cases isOpen : state.trans txid with
    | none =>
        rw [isOpen] at holds
        cases holds
    | some tran =>
        rcases inv.active txid tran isOpen with ⟨-, -, live⟩
        exact live isOver
  refine ⟨notCounted, fun position hasLock allEnded => ?_⟩
  refine LeafRecord.released_of_not_counted (inv.readOnly position) hasLock ?_
  intro txid counted
  exact notCounted txid (allEnded txid counted) position counted

/-- A table of one row in many copies, without locks. -/
def sampleSelects : SelectState where
  records _ := LeafRecord.sampleRecord
  trans _ := none
  ended := []

/-- Transaction `1` shares a row with its only select. -/
def shareEvents (autoCommit : Bool) : List SelectEvent :=
  [.beginTran 1 autoCommit, .start 1 1 .readShare, .row 1 0 .holds 10, .finish 1]

theorem idle_sampleSelects : sampleSelects.Idle :=
  ⟨fun _ => rfl, fun _ => rfl⟩

theorem readLocks_end_commit :
    ∃ state, execPermitted (SelectState.step LeafRecord.sampleFormat) SafeSelect
      (shareEvents false ++ [.endTran 1 true]) sampleSelects = some state ∧ state.LocksEnd := by
  have runs : (execPermitted (SelectState.step LeafRecord.sampleFormat) SafeSelect
      (shareEvents false ++ [.endTran 1 true]) sampleSelects).isSome = true := by
    decide +kernel
  rcases Option.isSome_iff_exists.mp runs with ⟨state, executed⟩
  exact ⟨state, executed, readLocks_end idle_sampleSelects (reaches_of_execPermitted _ executed)⟩

/-- The transaction of a select that shares a row and commits by itself stays a holder. -/
theorem not_readLocks_end :
    ¬∀ start state, SelectState.Idle start →
      Reaches (SelectState.step LeafRecord.sampleFormat) anyInput start state →
        state.LocksEnd := by
  intro locksEnd
  have runs : (exec (SelectState.step LeafRecord.sampleFormat) (shareEvents true)
      sampleSelects).map (fun state => (state.ended, (state.records 0).recLock.map fun lock =>
        (lock.actType, lock.lstTxid))) = some ([1], some (.readShare, [1])) := by
    decide +kernel
  rcases Option.map_eq_some_iff.mp runs with ⟨state, executed, shown⟩
  rcases Prod.mk.inj shown with ⟨ended, lockShown⟩
  rcases Option.map_eq_some_iff.mp lockShown with ⟨lock, head, fields⟩
  rcases Prod.mk.inj fields with ⟨share, sharers⟩
  have ends := locksEnd sampleSelects state idle_sampleSelects (reaches_of_exec _ executed)
  refine ends.notCounted 1 (by simp [ended]) 0 ⟨lock, head, by simp [sharers], ?_, Or.inl share⟩
  decide

end RapidDb
