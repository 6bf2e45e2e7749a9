import RapidDb.Core.Visibility
import RapidDb.Core.LeafPage

/-!
# One unique key in a leaf page

`UpdateAction` brings new records of a primary index, and all changes of a secondary index, into
a leaf page. Reads and the changes of primary rows work on a record of the page, and saving or
splitting the page releases the records one after another. Beside the page, the model keeps the
content that the last committed transaction gave to each key.

A version is pending until its lock is marked. The page has to keep it until then.
-/

namespace RapidDb

open Bytes Transition

namespace RecordLock

/-- A change that its transaction has not ended yet. -/
def isPending (lock : RecordLock) : Bool :=
  lock.actType.isUpdateable && !lock.recStatus.isMarked

end RecordLock

namespace LeafRecord

/-- The versions of a record that carry a lock, the newest one first. -/
def versions : LeafRecord → List (RowContent × RecordLock)
  | unlocked _ => []
  | locked body lock => [(body.content, lock)]
  | versioned body lock undoRec => (body.content, lock) :: undoRec.versions

/-- The version is still there, in whatever object, under a lock that may have been marked. -/
def HasVersion (record : LeafRecord) (version : RowContent × RecordLock) : Prop :=
  ∃ kept ∈ record.versions, kept.1 = version.1 ∧ kept.2.addr = version.2.addr ∧
    kept.2.actType = version.2.actType

/-- No pending version gets lost, and none is marked. -/
def KeepsPending (record record' : LeafRecord) : Prop :=
  ∀ version ∈ record.versions, version.2.isPending = true →
    ∃ kept ∈ record'.versions, kept.1 = version.1 ∧ kept.2.addr = version.2.addr ∧
      kept.2.actType = version.2.actType ∧ kept.2.recStatus = version.2.recStatus

/-- All versions of a record have the same index key. -/
def OneKey (type : IndexType) (key : List Byte) : LeafRecord → Prop
  | unlocked body => (unlocked body).indexKey type = key
  | locked body lock => (locked body lock).indexKey type = key
  | versioned body lock undoRec =>
      (versioned body lock undoRec).indexKey type = key ∧ undoRec.OneKey type key

/-- An insert that has been taken back, with everything its transaction did to the row. -/
def insertTakenBack : LeafRecord → Bool
  | unlocked _ => false
  | locked _ lock => !lock.actType.isReadLock && lock.recStatus = .rollbacked
  | versioned _ lock undoRec => lock.recStatus = .rollbacked && undoRec.insertTakenBack

/-- A change of a secondary record on top of the record it changes: none while another
transaction has the record. `TxID` is the first transaction of the lock. -/
def chained (old lr : LeafRecord) : Option (Option LeafRecord) :=
  lr.recLock.bind fun lock => lock.lstTxid.head?.map fun txid =>
    if old.isConflict txid lock.actType then none else some (versioned lr.body lock old)

/-!
## Pending versions
-/

theorem KeepsPending.refl (record : LeafRecord) : record.KeepsPending record :=
  fun version mem _ => ⟨version, mem, rfl, rfl, rfl, rfl⟩

theorem KeepsPending.trans {first second third : LeafRecord}
    (left : first.KeepsPending second) (right : second.KeepsPending third) :
    first.KeepsPending third := by
  intro version mem pending
  rcases left version mem pending with ⟨middle, middleMem, content, addr, action, status⟩
  have middlePending : middle.2.isPending = true := by
    rw [RecordLock.isPending, action, status]
    exact pending
  rcases right middle middleMem middlePending with
    ⟨kept, keptMem, keptContent, keptAddr, keptAction, keptStatus⟩
  exact ⟨kept, keptMem, keptContent.trans content, keptAddr.trans addr, keptAction.trans action,
    keptStatus.trans status⟩

theorem KeepsPending.hasVersion {record record' : LeafRecord}
    (keeps : record.KeepsPending record') {version : RowContent × RecordLock}
    (mem : version ∈ record.versions) (pending : version.2.isPending = true) :
    record'.HasVersion version := by
  rcases keeps version mem pending with ⟨kept, keptMem, content, addr, action, -⟩
  exact ⟨kept, keptMem, content, addr, action⟩

theorem mem_locks_of_mem_versions {record : LeafRecord} {version : RowContent × RecordLock}
    (mem : version ∈ record.versions) : version.2 ∈ record.locks := by
  induction record with
  | unlocked body => cases mem
  | locked body lock =>
      rw [versions, List.mem_singleton] at mem
      rw [mem]
      exact List.mem_cons_self
  | versioned body lock undoRec ih =>
      rcases List.mem_cons.mp mem with rfl | mem
      · exact List.mem_cons_self
      · exact List.mem_cons_of_mem _ (ih mem)

theorem keepsPending_of_ended {record : LeafRecord} (isOver : record.ended = true)
    (record' : LeafRecord) : record.KeepsPending record' := by
  intro version mem pending
  have marked := List.all_eq_true.mp isOver _ (mem_locks_of_mem_versions mem)
  simp only [RecordLock.isPending, Bool.and_eq_true, Bool.not_eq_true'] at pending
  simp [pending.1, pending.2] at marked

theorem keepsPending_of_recLock_eq_none {record : LeafRecord} (noLock : record.recLock = none)
    (record' : LeafRecord) : record.KeepsPending record' := by
  cases record with
  | unlocked body => exact fun _ mem => absurd mem List.not_mem_nil
  | locked body lock => cases noLock
  | versioned body lock undoRec => cases noLock

@[simp]
theorem versions_moveAssign (target : RecordBody) (src : LeafRecord) :
    (moveAssign target src).versions = src.versions := by
  cases src <;> rfl

theorem keepsPending_moveAssign (target : RecordBody) (src : LeafRecord) :
    src.KeepsPending (moveAssign target src) := by
  intro version mem _
  rw [← versions_moveAssign target] at mem
  exact ⟨version, mem, rfl, rfl, rfl, rfl⟩

theorem keepsPending_versioned (body : RecordBody) (lock : RecordLock) (old : LeafRecord) :
    old.KeepsPending (versioned body lock old) :=
  fun version mem _ => ⟨version, List.mem_cons_of_mem _ mem, rfl, rfl, rfl, rfl⟩

theorem keepsPending_of_undo {body : RecordBody} {lock : RecordLock}
    {undoRec record' : LeafRecord} (notPending : lock.isPending = false)
    (keeps : undoRec.KeepsPending record') :
    (versioned body lock undoRec).KeepsPending record' := by
  intro version mem pending
  rcases List.mem_cons.mp mem with rfl | mem
  · rw [notPending] at pending
    cases pending
  · exact keeps version mem pending

theorem keepsPending_mapLock {record : LeafRecord} {change : RecordLock → RecordLock}
    (keeps : ∀ lock ∈ record.recLock, lock.isPending = true →
      (change lock).addr = lock.addr ∧ (change lock).actType = lock.actType ∧
        (change lock).recStatus = lock.recStatus) :
    record.KeepsPending (record.mapLock change) := by
  cases record with
  | unlocked body => exact KeepsPending.refl _
  | locked body lock =>
      intro version mem pending
      rw [versions, List.mem_singleton] at mem
      subst mem
      exact ⟨_, List.mem_cons_self, rfl, keeps lock rfl pending⟩
  | versioned body lock undoRec =>
      intro version mem pending
      rcases List.mem_cons.mp mem with rfl | mem
      · exact ⟨_, List.mem_cons_self, rfl, keeps lock rfl pending⟩
      · exact ⟨version, List.mem_cons_of_mem _ mem, rfl, rfl, rfl, rfl⟩

/-- Releasing a lock frees no pending version: a committed version is above versions that have
all been marked. The induction goes down the versions that have been rolled back. -/
theorem keepsPending_settle {record : LeafRecord} {target : RecordBody} {out : Released}
    (well : record.RowWell) (settled : settle target record = some out) :
    record.KeepsPending out.record := by
  induction record generalizing target out with
  | unlocked body => exact keepsPending_of_recLock_eq_none rfl _
  | locked body lock =>
      cases able : (locked body lock).releaseLockAble with
      | false =>
          simp only [settle, recLock, able] at settled
          cases settled
          exact keepsPending_moveAssign _ _
      | true =>
          apply keepsPending_of_ended
          rcases well with reads | ⟨insert, -, -⟩
          · simp [ended, locks, isUpdateable_eq_false_of_read reads]
          · have marked : lock.recStatus.isMarked = true := by
              simpa [releaseLockAble, recLock, insert] using able
            simp [ended, locks, marked]
  | versioned body lock undoRec ih =>
      rcases well with ⟨writes, -, status, order, -, olderWell⟩
      have notRead := isReadLock_eq_false_of_updateable (isUpdateable_of_write writes)
      have notShare : lock.actType ≠ .readShare := by
        rcases writes with update | delete
        · simp [update]
        · simp [delete]
      have able : (versioned body lock undoRec).releaseLockAble = lock.recStatus.isMarked := by
        simp [releaseLockAble, recLock, notShare]
      rcases status with initial | commited | rollbacked
      · have unmarked : (versioned body lock undoRec).releaseLockAble = false := by
          rw [able, initial]
          rfl
        simp only [settle, recLock, unmarked] at settled
        cases settled
        exact keepsPending_moveAssign _ _
      · apply keepsPending_of_ended
        have marked : RecordStatus.commited.isMarked = true := rfl
        simpa [ended, locks, commited, marked] using order commited
      · have marked : (versioned body lock undoRec).releaseLockAble = true := by
          rw [able, rollbacked]
          rfl
        have released : releaseInto target (versioned body lock undoRec) = some out := by
          simpa [settle, recLock, marked] using settled
        rw [releaseInto_rollbacked target body undoRec notRead rollbacked] at released
        rcases Option.map_eq_some_iff.mp released with ⟨inner, innerEq, rfl⟩
        have innerKeeps := ih olderWell innerEq
        refine keepsPending_of_undo ?_ innerKeeps
        rw [RecordLock.isPending, rollbacked]
        simp [RecordStatus.isMarked, RecordStatus.toNat]

theorem settle_eq_releaseLock {record : LeafRecord} (able : record.releaseLockAble = true) :
    settle record.body record = record.releaseLock := by
  cases head : record.recLock with
  | none => simp [releaseLockAble, head] at able
  | some lock => simp [settle, head, able, releaseLock]

theorem keepsPending_prepare {record ready : LeafRecord} (well : record.RowWell)
    (prepared : record.prepare = some ready) : record.KeepsPending ready := by
  unfold prepare at prepared
  split at prepared
  · next able =>
      rcases Option.map_eq_some_iff.mp prepared with ⟨out, released, rfl⟩
      rw [← settle_eq_releaseLock able] at released
      exact keepsPending_settle well released
  · cases prepared
    exact KeepsPending.refl record

/-- A release that reports a deleted record leaves one without a lock. -/
theorem deleted_of_settle {record : LeafRecord} {target : RecordBody} {out : Released}
    (settled : settle target record = some out) (deleted : out.result = .deleted) :
    out.record.isDelete = true ∧ out.record.recLock = none := by
  have released : ∀ {target : RecordBody} {record : LeafRecord} {out : Released},
      releaseInto target record = some out → out.result = .deleted →
        out.record.isDelete = true ∧ out.record.recLock = none := by
    intro target record out
    induction record generalizing target out with
    | unlocked body => exact fun released => nomatch released
    | locked body lock =>
        intro released deleted
        simp only [releaseInto] at released
        split at released
        · cases released
          cases deleted
        · split at released
          · cases released
            exact ⟨rfl, rfl⟩
          · cases released
            simp only [ite_eq_left_iff, reduceCtorEq, imp_false, not_not] at deleted
            exact ⟨deleted, rfl⟩
    | versioned body lock undoRec ih =>
        intro released deleted
        simp only [releaseInto] at released
        split at released
        · cases released
          cases deleted
        · split at released
          · split at released
            · cases released
              cases deleted
            · split at released
              · cases released
                cases deleted
              · rcases Option.map_eq_some_iff.mp released with ⟨inner, innerEq, rfl⟩
                have innerDeleted := ih innerEq deleted
                exact innerDeleted
          · cases released
            simp only [ite_eq_left_iff, reduceCtorEq, imp_false, not_not] at deleted
            exact ⟨deleted, rfl⟩
  unfold settle at settled
  split at settled
  · cases settled
    cases deleted
  · split at settled
    · cases settled
      cases deleted
    · exact released settled deleted

/-!
## Index keys
-/

section OneKey

variable {type : IndexType} {key : List Byte}

theorem OneKey.indexKey {record : LeafRecord} (oneKey : record.OneKey type key) :
    record.indexKey type = key := by
  cases record with
  | unlocked body => exact oneKey
  | locked body lock => exact oneKey
  | versioned body lock undoRec => exact oneKey.1

theorem oneKey_moveAssign (target : RecordBody) {src : LeafRecord} (oneKey : src.OneKey type key) :
    (moveAssign target src).OneKey type key := by
  cases src with
  | unlocked body => exact oneKey
  | locked body lock => exact oneKey
  | versioned body lock undoRec => exact oneKey

theorem oneKey_mapLock {record : LeafRecord} (change : RecordLock → RecordLock)
    (oneKey : record.OneKey type key) : (record.mapLock change).OneKey type key := by
  cases record with
  | unlocked body => exact oneKey
  | locked body lock => exact oneKey
  | versioned body lock undoRec => exact oneKey

theorem oneKey_mapVersion {record : LeafRecord} (change : RecordLock → RecordLock) (version : ℕ)
    (oneKey : record.OneKey type key) : (record.mapVersion change version).OneKey type key := by
  induction record generalizing version with
  | unlocked body => cases version <;> exact oneKey
  | locked body lock => cases version <;> exact oneKey
  | versioned body lock undoRec ih =>
      cases version with
      | zero => exact oneKey
      | succ version => exact ⟨oneKey.1, ih version oneKey.2⟩

/-- A released record still has its key, unless it is deleted because its insert has been taken
back. -/
theorem oneKey_settle {record : LeafRecord} {target : RecordBody} {out : Released}
    (oneKey : record.OneKey type key) (settled : settle target record = some out) :
    out.record.OneKey type key ∨
      record.insertTakenBack = true ∧ out.record.isDelete = true ∧ out.result = .deleted := by
  induction record generalizing target out with
  | unlocked body =>
      cases settled
      exact Or.inl (oneKey_moveAssign target oneKey)
  | locked body lock =>
      simp only [settle, recLock, Option.isNone_some, Bool.false_eq_true, if_false] at settled
      split at settled
      · cases settled
        exact Or.inl (oneKey_moveAssign target oneKey)
      · simp only [releaseInto] at settled
        split at settled
        · cases settled
          exact Or.inl oneKey
        · next notRead =>
            split at settled
            · next rollbacked =>
                cases settled
                exact Or.inr ⟨by simp [insertTakenBack, notRead, rollbacked], rfl, rfl⟩
            · cases settled
              exact Or.inl oneKey
  | versioned body lock undoRec ih =>
      rcases oneKey with ⟨topKey, olderKey⟩
      cases able : (versioned body lock undoRec).releaseLockAble with
      | false =>
          simp only [settle, recLock, able] at settled
          cases settled
          exact Or.inl ⟨topKey, olderKey⟩
      | true =>
          have released : releaseInto target (versioned body lock undoRec) = some out := by
            simpa [settle, recLock, able] using settled
          cases reads : lock.actType.isReadLock with
          | true =>
              simp only [releaseInto, reads, if_true] at released
              cases released
              exact Or.inl topKey
          | false =>
              by_cases rollbacked : lock.recStatus = .rollbacked
              · rw [releaseInto_rollbacked target body undoRec reads rollbacked] at released
                rcases Option.map_eq_some_iff.mp released with ⟨inner, innerEq, rfl⟩
                rcases ih olderKey innerEq with innerKey | ⟨takenBack, deleted, result⟩
                · exact Or.inl innerKey
                · exact Or.inr ⟨by simp [insertTakenBack, rollbacked, takenBack], deleted, result⟩
              · simp only [releaseInto, reads, rollbacked] at released
                cases released
                exact Or.inl topKey

theorem oneKey_prepare {record ready : LeafRecord} (oneKey : record.OneKey type key)
    (prepared : record.prepare = some ready) :
    ready.OneKey type key ∨ record.insertTakenBack = true ∧ ready.isDelete = true := by
  unfold prepare at prepared
  split at prepared
  · next able =>
      rcases Option.map_eq_some_iff.mp prepared with ⟨out, released, rfl⟩
      rw [← settle_eq_releaseLock able] at released
      exact (oneKey_settle oneKey released).imp_right fun gone => ⟨gone.1, gone.2.1⟩
  · cases prepared
    exact Or.inl oneKey

theorem bysKey_primaryBytes {keyBytes : List Byte} (short : keyBytes.length < 256 ^ 2)
    (crc32 : List Byte → ℕ) (totalLen recStamp lenVal : ℕ) (action : ActionType)
    (overflowPage : Option OverflowPage) (value : List Byte) :
    let bys := primaryBytes crc32 totalLen keyBytes recStamp lenVal action overflowPage value
    slice 4 (fieldAt 2 2 bys) bys = keyBytes := by
  intro bys
  have layout : ∃ tail,
      bys = (writeLE 2 totalLen ++ writeLE 2 keyBytes.length) ++ (keyBytes ++ tail) := by
    unfold bys
    simp only [primaryBytes, padTo, List.append_assoc]
    exact ⟨_, rfl⟩
  rcases layout with ⟨tail, layoutEq⟩
  have lengthEq : fieldAt 2 2 bys = keyBytes.length := by
    rw [layoutEq, List.append_assoc, fieldAt_append 2 _ (length_writeLE 2 totalLen),
      readLE_writeLE_append, Nat.mod_eq_of_lt short]
  rw [lengthEq, layoutEq, slice, List.drop_left' (by simp), List.take_left' rfl]

theorem indexKey_updateRecord (unique : type ≠ .nonUnique) (format : IndexFormat)
    (record : LeafRecord) (vctVal : List DataValue) (recStamp : ℕ) (stmt : StatementRef)
    (action : ActionType) (gapLock : Bool) (fresh : NewRecord) :
    (record.updateRecord format vctVal recStamp stmt action gapLock fresh).indexKey type =
      record.indexKey type := by
  have short : (RecStruct.bysKey record.body.bysVal).length < 256 ^ 2 := by
    have lengthLe : (RecStruct.bysKey record.body.bysVal).length ≤
        RecStruct.keyLen record.body.bysVal := List.length_take_le _ _
    exact lt_of_le_of_lt lengthLe (fieldAt_lt 2 2 _)
  rw [indexKey, indexKey, indexBytes, indexBytes, if_neg unique, if_neg unique]
  exact bysKey_primaryBytes short _ _ _ _ _ _ _

end OneKey

/-!
## What a reader or a writer leaves of a record
-/

/-- A record that has kept its key and its pending versions. -/
structure Carries (type : IndexType) (record record' : LeafRecord) : Prop where
  pending : record.KeepsPending record'
  oneKey : ∀ key, record.OneKey type key → record'.OneKey type key

section Carries

variable {type : IndexType} {record record' : LeafRecord}

theorem Carries.refl (type : IndexType) (record : LeafRecord) : record.Carries type record :=
  ⟨KeepsPending.refl record, fun _ oneKey => oneKey⟩

theorem Carries.trans {third : LeafRecord} (left : record.Carries type record')
    (right : record'.Carries type third) : record.Carries type third :=
  ⟨left.pending.trans right.pending, fun key oneKey => right.oneKey key (left.oneKey key oneKey)⟩

theorem carries_mapLock {change : RecordLock → RecordLock}
    (keeps : ∀ lock ∈ record.recLock, lock.isPending = true →
      (change lock).addr = lock.addr ∧ (change lock).actType = lock.actType ∧
        (change lock).recStatus = lock.recStatus) :
    record.Carries type (record.mapLock change) :=
  ⟨keepsPending_mapLock keeps, fun _ oneKey => oneKey_mapLock change oneKey⟩

theorem carries_locked (lock : RecordLock) (noLock : record.recLock = none) :
    record.Carries type (locked record.body lock) := by
  refine ⟨keepsPending_of_recLock_eq_none noLock _, ?_⟩
  intro key oneKey
  exact oneKey.indexKey

theorem carries_prepare (well : record.RowWell) (stays : record.insertTakenBack = false)
    (prepared : record.prepare = some record') : record.Carries type record' := by
  refine ⟨keepsPending_prepare well prepared, ?_⟩
  intro key oneKey
  refine (oneKey_prepare oneKey prepared).resolve_right ?_
  rintro ⟨takenBack, -⟩
  rw [stays] at takenBack
  cases takenBack

theorem carries_addReadLock (stmt : StatementRef) {atype : ActionType} (bGapLock : Bool)
    (lockAddr : ℕ) : record.Carries type (record.addReadLock stmt atype bGapLock lockAddr).1 := by
  cases head : record.recLock with
  | none =>
      simp only [addReadLock, head]
      exact carries_locked _ head
  | some lock =>
      simp only [addReadLock, head]
      apply carries_mapLock
      intro own _ pending
      refine ⟨rfl, ?_, rfl⟩
      have notShare : own.actType ≠ .readShare := by
        intro share
        rw [RecordLock.isPending, share] at pending
        cases pending
      simp [joinLock, notShare]

theorem carries_readListValue {format : IndexFormat} {mapPos : List (ℕ × ℕ)}
    {stmt : StatementRef} {atype : ActionType} {bGapLock : Bool} {lockAddr : ℕ}
    {outcome : ReadOutcome}
    (answer : record.readListValue format mapPos stmt atype bGapLock lockAddr = some outcome) :
    record.Carries type outcome.record := by
  have target : ∀ ready version, record.readTarget stmt atype = .ok (ready, version) →
      record.Carries type ready := by
    intro ready version targetEq
    cases head : record.recLock with
    | none =>
        simp only [readTarget, head, Except.ok.injEq, Prod.mk.injEq] at targetEq
        exact targetEq.1 ▸ Carries.refl type record
    | some lock =>
        simp only [readTarget, head] at targetEq
        repeat' split at targetEq
        all_goals cases targetEq
        · exact carries_mapLock fun own _ _ => ⟨by unfold dropLeftSharers; split <;> rfl, by simp,
            by simp⟩
        · exact Carries.refl type record
        · exact Carries.refl type record
  cases targetEq : record.readTarget stmt atype with
  | error result =>
      simp only [readListValue, targetEq, Option.some.injEq] at answer
      rw [← answer]
      exact Carries.refl type record
  | ok pair =>
      rcases pair with ⟨ready, version⟩
      have carries := target ready version targetEq
      simp only [readListValue, targetEq] at answer
      split at answer
      · cases answer
        exact carries
      · rcases Option.map_eq_some_iff.mp answer with ⟨values, -, rfl⟩
        cases reads : atype.isReadLock with
        | true => exact carries.trans (carries_addReadLock stmt bGapLock lockAddr)
        | false => exact carries

theorem carries_secondaryReadLock (stmt : StatementRef) (actType : ActionType) (lockAddr : ℕ) :
    record.Carries type (record.secondaryReadLock stmt actType lockAddr).2 := by
  cases head : record.recLock with
  | none =>
      simp only [secondaryReadLock, head]
      exact carries_locked _ head
  | some lock =>
      simp only [secondaryReadLock, head]
      split
      · split
        · exact Carries.refl type record
        · exact carries_mapLock fun own _ _ => ⟨rfl, rfl, rfl⟩
      · split <;> exact Carries.refl type record

theorem carries_applyRequest (unique : type ≠ .nonUnique) (format : IndexFormat) (txid : TranID)
    (request : UpdateRequest) : record.Carries type (applyRequest format txid record request) := by
  refine ⟨keepsPending_versioned _ _ record, ?_⟩
  intro key oneKey
  exact ⟨(indexKey_updateRecord unique format record _ _ _ _ _ _).trans oneKey.indexKey, oneKey⟩

theorem carries_writeRow (unique : type ≠ .nonUnique) {format : IndexFormat} {txid : TranID}
    {request : UpdateRequest} (well : record.RowWell) (stays : record.insertTakenBack = false)
    (written : writeRow format record txid request = some record') :
    record.Carries type record' := by
  rcases Option.bind_eq_some_iff.mp written with ⟨ready, prepared, rest⟩
  rcases Option.map_eq_some_iff.mp rest with ⟨outcome, answer, rfl⟩
  have read : record.Carries type outcome.record :=
    (carries_prepare well stays prepared).trans (carries_readListValue answer)
  split
  · exact read.trans (carries_applyRequest unique format txid request)
  · exact read

end Carries

end LeafRecord

/-!
## `UpdateAction`
-/

namespace LeafPage

/-- Put a record in the place of another one; `_tempDataLength` and `_committedDataLength` follow
the lengths that `GetLength` finds before and after. -/
def replaceRecord (page : LeafPage) (pos : ℕ) (old record : LeafRecord) : LeafPage :=
  { page with
    records := page.records.set pos record
    tempDataLength := page.tempDataLength + (record.getLength.1 - old.getLength.1 : ℤ)
    committedDataLength := page.committedDataLength + (record.getLength.2 - old.getLength.2 : ℤ) }

/-- The first part of `UpdateAction`: where the key is or belongs, its releasable lock released
and a deleted record taken out. -/
def makeRoom (type : IndexType) (page : LeafPage) (lr : LeafRecord) :
    Option (LeafPage × Bool × ℕ) :=
  match page.searchRecord type lr with
  | (false, pos) => some (page, false, pos)
  | (true, pos) =>
      page.records[pos]?.bind fun old => old.prepare.map fun ready =>
        let page := page.replaceRecord pos old ready
        if ready.isDelete then
          ({ page with records := page.records.eraseIdx pos }, false, pos)
        else
          (page, true, pos)

/-- `UpdateAction`: the page and the result for the record. Without the assertions, a `DELETE`
that finds no record works on whatever is at its place; this is left out here. -/
def updateAction (type : IndexType) (page : LeafPage) (lr : LeafRecord) :
    Option (LeafPage × RecordResult) :=
  (page.makeRoom type lr).bind fun (page, bFind, pos) =>
    let inserted :=
      { page with
        records := page.records.take pos ++ lr :: page.records.drop pos
        tempDataLength := page.tempDataLength + lr.pageLength }
    match lr.getAction with
    | .insert => some (if bFind then (page, .error) else (inserted, .inPage))
    | .delete =>
        if bFind then
          page.records[pos]?.bind fun old => (old.chained lr).map fun
            | none => (page, .error)
            | some version =>
                ({ page with
                    records := page.records.set pos version
                    tempDataLength := page.tempDataLength - old.pageLength }, .inPage)
        else
          none
    | .update =>
        if bFind then
          -- the result of a refused update is overwritten
          page.records[pos]?.bind fun old => (old.chained lr).map fun
            | none => (page, .inPage)
            | some version =>
                ({ page with
                    records := page.records.set pos version
                    tempDataLength :=
                      page.tempDataLength + (lr.getTotalLength - old.getTotalLength : ℤ) },
                  .inPage)
        else
          some (inserted, .inPage)
    | _ => none

/-!
## The record of one key
-/

/-- The first part of `UpdateAction` for the record of one key. -/
def roomFor : Option LeafRecord → Option (Option LeafRecord)
  | none => some none
  | some old => old.prepare.map fun ready => if ready.isDelete then none else some ready

/-- `UpdateAction` for the record of one key. -/
def updateSlot (lr : LeafRecord) (slot : Option LeafRecord) : Option (Option LeafRecord) :=
  (roomFor slot).bind fun room =>
    match lr.getAction, room with
    | .insert, room => some (some (room.getD lr))
    | .delete, some old => (old.chained lr).map fun version => some (version.getD old)
    | .update, some old => (old.chained lr).map fun version => some (version.getD old)
    | .update, none => some (some lr)
    | _, _ => none

/-- The records of a page around the one with a key, if there is one. -/
structure Around (type : IndexType) (key : List Byte) (records left : List LeafRecord)
    (slot : Option LeafRecord) (right : List LeafRecord) : Prop where
  parts : records = left ++ slot.toList ++ right
  before : ∀ other ∈ left, other.indexKey type < key
  behind : ∀ other ∈ right, key < other.indexKey type

/-- The page differs in the record of one key. -/
def Replaces (type : IndexType) (key : List Byte) (records records' : List LeafRecord)
    (slot slot' : Option LeafRecord) : Prop :=
  (∀ record ∈ slot, record.indexKey type = key) ∧
    ∃ left right, Around type key records left slot right ∧
      Around type key records' left slot' right

variable {type : IndexType} {page page' : LeafPage} {lr : LeafRecord}

theorem around_of_found {key : List Byte} {pos : ℕ} {record : LeafRecord}
    (sorted : (page.records.map (LeafRecord.indexKey type)).Pairwise (· < ·))
    (atPos : page.records[pos]? = some record) (same : record.indexKey type = key) :
    Around type key page.records (page.records.take pos) (some record)
      (page.records.drop (pos + 1)) := by
  rcases List.getElem?_eq_some_iff.mp atPos with ⟨inside, recordEq⟩
  have parts : page.records =
      page.records.take pos ++ record :: page.records.drop (pos + 1) := by
    rw [← recordEq, List.getElem_cons_drop, List.take_append_drop]
  have ordered := sorted
  rw [parts, List.map_append, List.map_cons, List.pairwise_append, List.pairwise_cons] at ordered
  refine ⟨by simpa using parts, ?_, ?_⟩
  · intro other mem
    exact same ▸ ordered.2.2 _ (List.mem_map_of_mem mem) _ List.mem_cons_self
  · intro other mem
    exact same ▸ ordered.2.1.1 _ (List.mem_map_of_mem mem)

theorem makeRoom_spec {bFind : Bool} {pos : ℕ}
    (sorted : (page.records.map (LeafRecord.indexKey type)).Pairwise (· < ·))
    (made : page.makeRoom type lr = some (page', bFind, pos)) :
    ∃ left slot room right,
      (∀ record ∈ slot, record.indexKey type = lr.indexKey type) ∧
        Around type (lr.indexKey type) page.records left slot right ∧
        roomFor slot = some room ∧ page'.records.take pos = left ∧
        page'.records.drop pos = room.toList ++ right ∧ bFind = room.isSome := by
  have found := found_searchRecord lr sorted
  unfold makeRoom at made
  generalize page.searchRecord type lr = searched at found made
  rcases searched with ⟨_ | _, place⟩
  · cases made
    refine ⟨_, none, none, _, nofun, ⟨?_, ?_, ?_⟩, rfl, rfl, rfl, rfl⟩
    · simp
    · intro other mem
      apply found.1
      rw [← List.map_take]
      exact List.mem_map_of_mem mem
    · intro other mem
      apply found.2
      rw [← List.map_drop]
      exact List.mem_map_of_mem mem
  · rcases Option.bind_eq_some_iff.mp made with ⟨old, atPlace, rest⟩
    rcases Option.map_eq_some_iff.mp rest with ⟨ready, prepared, result⟩
    have same : old.indexKey type = lr.indexKey type := by
      have keyAt : (page.records.map (LeafRecord.indexKey type))[place]? =
          some (lr.indexKey type) := found
      rw [List.getElem?_map, atPlace] at keyAt
      exact Option.some.inj keyAt
    have around := around_of_found sorted atPlace same
    rcases List.getElem?_eq_some_iff.mp atPlace with ⟨inside, -⟩
    have leftLength : (page.records.take place).length = place := by
      rw [List.length_take]
      omega
    refine ⟨_, some old, if ready.isDelete then none else some ready, _, ?_, around, ?_, ?_⟩
    · intro record mem
      cases mem
      exact same
    · simp [roomFor, prepared]
    · cases deleted : ready.isDelete with
      | true =>
          simp only [deleted, if_true] at result
          cases result
          have erased : (page.records.set pos ready).eraseIdx pos =
              page.records.take pos ++ page.records.drop (pos + 1) :=
            (List.eraseIdx_set_eq).trans (List.eraseIdx_eq_take_drop_succ _ _)
          refine ⟨?_, ?_, rfl⟩
          · simp only [replaceRecord, erased]
            exact List.take_left' leftLength
          · simp only [replaceRecord, erased]
            exact List.drop_left' leftLength
      | false =>
          simp only [deleted] at result
          cases result
          have replaced : page.records.set pos ready =
              page.records.take pos ++ ready :: page.records.drop (pos + 1) :=
            List.set_eq_take_append_cons_drop.trans (if_pos inside)
          refine ⟨?_, ?_, rfl⟩
          · simp only [replaceRecord, replaced]
            exact List.take_left' leftLength
          · simp only [replaceRecord, replaced]
            exact List.drop_left' leftLength

theorem eq_of_chained {old version : LeafRecord}
    (chained : old.chained lr = some (some version)) :
    ∃ lock, lr.recLock = some lock ∧ version = .versioned lr.body lock old := by
  rcases Option.bind_eq_some_iff.mp chained with ⟨lock, head, rest⟩
  rcases Option.map_eq_some_iff.mp rest with ⟨txid, -, result⟩
  split at result
  · cases result
  · exact ⟨lock, head, (Option.some.inj result).symm⟩

/-- `UpdateAction` changes the record of its key only, and by `updateSlot`. -/
theorem updateAction_spec {result : RecordResult}
    (sorted : (page.records.map (LeafRecord.indexKey type)).Pairwise (· < ·))
    (updated : page.updateAction type lr = some (page', result)) :
    ∃ slot slot', updateSlot lr slot = some slot' ∧
      Replaces type (lr.indexKey type) page.records page'.records slot slot' := by
  rcases Option.bind_eq_some_iff.mp updated with ⟨⟨middle, bFind, pos⟩, made, rest⟩
  rcases makeRoom_spec sorted made with
    ⟨left, slot, room, right, same, around, roomEq, takeEq, dropEq, findEq⟩
  have partsEq : middle.records = left ++ room.toList ++ right := by
    rw [List.append_assoc, ← dropEq, ← takeEq, List.take_append_drop]
  have replaces : ∀ slot' : Option LeafRecord, page'.records = left ++ slot'.toList ++ right →
      Replaces type (lr.indexKey type) page.records page'.records slot slot' :=
    fun slot' parts => ⟨same, left, right, around, ⟨parts, around.before, around.behind⟩⟩
  have chains : ∀ old version, middle.records[pos]? = some old → room.isSome = true →
      room = some old ∧
        middle.records.set pos version = left ++ (some version).toList ++ right := by
    intro old version atPos found
    rcases Option.isSome_iff_exists.mp found with ⟨ready, rfl⟩
    rcases List.getElem?_eq_some_iff.mp atPos with ⟨inside, -⟩
    have dropOld : middle.records.drop pos = ready :: right := dropEq
    have atDrop : middle.records[pos]? = (middle.records.drop pos)[0]? := by simp
    rw [atPos, dropOld] at atDrop
    cases atDrop
    refine ⟨rfl, ?_⟩
    have dropNext : middle.records.drop (pos + 1) = right := by
      rw [← List.drop_drop, dropOld]
      rfl
    rw [List.set_eq_take_append_cons_drop, if_pos inside, takeEq, dropNext]
    simp
  have inserts : ∀ {tempDataLength : ℤ}, room = none →
      page' = { middle with
        records := middle.records.take pos ++ lr :: middle.records.drop pos
        tempDataLength := tempDataLength } →
      Replaces type (lr.indexKey type) page.records page'.records slot (some lr) := by
    intro tempDataLength noRoom pageEq
    apply replaces
    rw [pageEq, takeEq, dropEq, noRoom]
    simp
  refine ⟨slot, ?_⟩
  simp only [updateSlot, roomEq, Option.bind_some]
  simp only [findEq] at rest
  cases action : lr.getAction <;> simp only [action] at rest ⊢
  case insert =>
    cases room with
    | none =>
        cases rest
        exact ⟨_, rfl, inserts rfl rfl⟩
    | some ready =>
        cases rest
        exact ⟨_, rfl, replaces _ partsEq⟩
  case delete =>
    cases room with
    | none => cases rest
    | some ready =>
        rcases Option.bind_eq_some_iff.mp rest with ⟨old, atPos, rest⟩
        rcases Option.map_eq_some_iff.mp rest with ⟨version, chainedEq, result⟩
        cases (chains old old atPos rfl).1
        simp only [chainedEq, Option.map_some]
        cases version with
        | none =>
            cases result
            exact ⟨_, rfl, replaces _ partsEq⟩
        | some version =>
            cases result
            exact ⟨_, rfl, replaces _ (chains ready version atPos rfl).2⟩
  case update =>
    cases room with
    | none =>
        cases rest
        exact ⟨_, rfl, inserts rfl rfl⟩
    | some ready =>
        rcases Option.bind_eq_some_iff.mp rest with ⟨old, atPos, rest⟩
        rcases Option.map_eq_some_iff.mp rest with ⟨version, chainedEq, result⟩
        cases (chains old old atPos rfl).1
        simp only [chainedEq, Option.map_some]
        cases version with
        | none =>
            cases result
            exact ⟨_, rfl, replaces _ partsEq⟩
        | some version =>
            cases result
            exact ⟨_, rfl, replaces _ (chains ready version atPos rfl).2⟩
  all_goals cases rest

end LeafPage

end RapidDb
