import RapidDb.Statement.LockingSelect

/-!
# Rows of locking selects

A select never asks `ReadListValue` for a lock, since the lock type of the text does not get into
the expression that is executed. What holds a row that it returns is therefore a version of its own
transaction. Such a version stays until the transaction ends, unless an INSERT takes the place of a
deleted row.
-/

namespace RapidDb

open Transition

namespace LeafRecord

variable {format : IndexFormat} {record record' ready : LeafRecord} {txid txid' : TranID}
  {action action' : ActionType} {trans : TranID → Option LockingTran} {txids : List TranID}

/-! ## One row -/

/-- All locks are those of versions, and the ones of open transactions are not marked. -/
structure RowSound (trans : TranID → Option LockingTran) (txids : List TranID)
    (record : LeafRecord) : Prop where
  wellLocked : record.WellLocked
  notShared : ∀ lock ∈ record.locks, lock.actType ≠ .readShare
  unmarked : ∀ lock ∈ record.locks, ∀ txid ∈ lock.lstTxid, (trans txid).isSome = true →
    lock.recStatus.isMarked = false
  known : ∀ lock ∈ record.locks, ∀ txid ∈ lock.lstTxid, txid ∈ txids

/-- What `ReleaseLock` leaves has no new locks, and it cannot be released again. -/
theorem locks_releaseInto {target : RecordBody} {out : Released}
    (released : releaseInto target record = some out) :
    (∀ lock ∈ out.record.locks, lock ∈ record.locks) ∧ out.record.releaseLockAble = false := by
  induction record generalizing target out with
  | unlocked body => cases released
  | locked body lock =>
      simp only [releaseInto] at released
      split at released
      · cases released
        simp [locks, releaseLockAble, recLock]
      · split at released <;> cases released <;> simp [locks, releaseLockAble, recLock]
  | versioned body lock undoRec ih =>
      have older : ∀ own ∈ undoRec.locks, own ∈ (versioned body lock undoRec).locks :=
        fun own mem => List.mem_cons_of_mem lock mem
      simp only [releaseInto] at released
      split at released
      · cases released
        simp [locks, releaseLockAble, recLock]
      · split at released
        · split at released
          · next noLock =>
              cases released
              refine ⟨fun own mem => older own (by simpa [moveAssign] using mem), ?_⟩
              simp only [releaseLockAble]
              rw [Option.isNone_iff_eq_none.mp noLock]
          · split at released
            · next kept =>
                cases released
                refine ⟨fun own mem => older own (by simpa [moveAssign] using mem), ?_⟩
                simpa using kept
            · rcases Option.map_eq_some_iff.mp released with ⟨inner, innerEq, rfl⟩
              rcases ih innerEq with ⟨subset, kept⟩
              exact ⟨fun own mem => older own (subset own mem), kept⟩
        · cases released
          simp [locks, releaseLockAble, recLock]

theorem locks_prepare (prepared : record.prepare = some ready) :
    (∀ lock ∈ ready.locks, lock ∈ record.locks) ∧ ready.releaseLockAble = false := by
  unfold prepare at prepared
  split at prepared
  · rcases Option.map_eq_some_iff.mp prepared with ⟨out, released, rfl⟩
    exact locks_releaseInto released
  · next kept =>
      cases prepared
      exact ⟨fun _ mem => mem, by simpa using kept⟩

theorem wellLocked_prepare (wellLocked : record.WellLocked)
    (prepared : record.prepare = some ready) : ready.WellLocked := by
  unfold prepare at prepared
  split at prepared
  · rcases Option.map_eq_some_iff.mp prepared with ⟨out, released, rfl⟩
    exact wellLocked_releaseInto wellLocked released
  · cases prepared
    exact wellLocked

theorem sound_of_mem_locks {lock : RecordLock} (wellLocked : record.WellLocked)
    (mem : lock ∈ record.locks) : lock.Sound := by
  induction record with
  | unlocked body => cases mem
  | locked body own =>
      rw [List.mem_singleton.mp mem]
      exact wellLocked
  | versioned body own undoRec ih =>
      rcases List.mem_cons.mp mem with rfl | older
      · exact wellLocked.1
      · exact ih wellLocked.2.2.2 older

section

variable (sound : RowSound trans txids record)

include sound

theorem RowSound.prepare (prepared : record.prepare = some ready) : RowSound trans txids ready := by
  rcases locks_prepare prepared with ⟨subset, -⟩
  exact ⟨wellLocked_prepare sound.wellLocked prepared,
    fun lock mem => sound.notShared lock (subset lock mem),
    fun lock mem => sound.unmarked lock (subset lock mem),
    fun lock mem => sound.known lock (subset lock mem)⟩

theorem RowSound.single {lock : RecordLock} (mem : lock ∈ record.locks) :
    ∃ owner, owner ≠ txidNull ∧ lock.lstTxid = [owner] :=
  (sound_of_mem_locks sound.wellLocked mem).single (sound.notShared lock mem)

theorem RowSound.head (recorded : record.Recorded txid action) :
    ∃ head, record.recLock = some head ∧ head ∈ record.locks ∧ head.lstTxid = [txid] := by
  rcases recorded with ⟨lock, mem, holds, -⟩
  cases head : record.recLock with
  | none => simp [locks_eq_nil_of_recLock head] at mem
  | some own =>
      have ownMem := mem_locks_of_recLock head
      have occurs := (mem_head_of_mem sound.wellLocked head mem holds.1).resolve_right holds.2.1
      rcases sound.single ownMem with ⟨owner, -, single⟩
      rw [single, List.mem_singleton] at occurs
      exact ⟨own, rfl, ownMem, by rw [single, occurs]⟩

theorem RowSound.unique (recorded : record.Recorded txid action)
    (recorded' : record.Recorded txid' action') : txid' = txid := by
  rcases sound.head recorded with ⟨head, headEq, -, single⟩
  rcases sound.head recorded' with ⟨head', headEq', -, single'⟩
  rw [headEq] at headEq'
  cases Option.some.inj headEq'
  rw [single] at single'
  exact (List.singleton_inj.mp single').symm

theorem RowSound.kept (recorded : record.Recorded txid action) (isOpen :
    (trans txid).isSome = true) :
    record.releaseLockAble = false := by
  rcases sound.head recorded with ⟨head, headEq, mem, single⟩
  have notShared := sound.notShared head mem
  have unmarked := sound.unmarked head mem txid (by simp [single]) isOpen
  simp [releaseLockAble, headEq, notShared, unmarked]

theorem RowSound.prepare_eq (recorded : record.Recorded txid action)
    (isOpen : (trans txid).isSome = true) : record.prepare = some record := by
  simp [LeafRecord.prepare, sound.kept recorded isOpen]

end

/-- A step of a row that takes no lock away from an open transaction. -/
structure RowKept (trans : TranID → Option LockingTran) (txids : List TranID)
    (record record' : LeafRecord) : Prop where
  sound : RowSound trans txids record'
  keeps : ∀ txid action, (trans txid).isSome = true → record.Recorded txid action →
    record'.Recorded txid action

theorem RowSound.rowKept_prepare (sound : RowSound trans txids record)
    (prepared : record.prepare = some ready) : RowKept trans txids record ready where
  sound := sound.prepare prepared
  keeps := by
    intro txid action isOpen recorded
    rw [sound.prepare_eq recorded isOpen] at prepared
    cases Option.some.inj prepared
    exact recorded

/-! ## A select at a row -/

theorem readTarget_noAction (record : LeafRecord) (stmt stmt' : StatementRef) :
    record.readTarget stmt .noAction = record.readTarget stmt' .noAction := by
  have notWrite : ActionType.noAction.isWriteLock = false := by decide
  cases head : record.recLock with
  | none => simp only [readTarget, head]
  | some lock => simp [readTarget, head, notWrite]

variable {stmt : StatementRef} {lockAddr : ℕ}

theorem result_readListValue_noAction {outcome : ReadOutcome}
    (answer : record.readListValue format [] stmt .noAction false lockAddr = some outcome) :
    outcome.result ≠ .okLock := by
  have notRead : ActionType.noAction.isReadLock = false := by decide
  unfold readListValue at answer
  cases target : record.readTarget stmt .noAction with
  | error result =>
      simp only [target, Option.some.injEq] at answer
      rw [← answer]
      intro isLock
      have locked := eq_locked_of_readTarget target
      rw [locked] at isLock
      cases isLock
  | ok pair =>
      simp only [target, notRead, Bool.false_eq_true, if_false] at answer
      split at answer
      · cases answer
        simp
      · rcases Option.map_eq_some_iff.mp answer with ⟨values, -, rfl⟩
        simp

theorem record_selectRow {verdict : Verdict} {result : RowResult}
    (selected : record.selectRow format stmt .noAction verdict lockAddr = some result) :
    record.prepare = some result.record := by
  rcases Option.bind_eq_some_iff.mp selected with ⟨ready, prepared, rest⟩
  rcases Option.map_eq_some_iff.mp rest with ⟨outcome, answer, rfl⟩
  have recordEq := record_readListValue_noAction answer
  have notLock := result_readListValue_noAction answer
  rw [prepared, ← recordEq]
  cases resultEq : outcome.result with
  | okLock => exact absurd resultEq notLock
  | _ => rfl

theorem readable_of_returnsRow {verdict : Verdict}
    (returned : record.returnsRow format stmt .noAction verdict lockAddr = true) :
    record.readable = true ∧ verdict = .holds := by
  unfold returnsRow at returned
  split at returned
  · next outcome found =>
      rcases Option.bind_eq_some_iff.mp found with ⟨ready, prepared, answer⟩
      simp only [Bool.and_eq_true, Bool.or_eq_true, decide_eq_true_eq] at returned
      refine ⟨?_, returned.2⟩
      unfold readable
      simp only [prepared]
      rw [readTarget_noAction ready _ stmt]
      unfold readListValue at answer
      cases target : ready.readTarget stmt .noAction with
      | error result =>
          simp only [target, Option.some.injEq] at answer
          subst answer
          have locked := eq_locked_of_readTarget target
          simp [locked] at returned
      | ok pair =>
          simp only [target] at answer ⊢
          split at answer
          · cases answer
            simp at returned
          · next live => simpa using live
  · cases returned

/-! ## Changes of a row -/

theorem record_readListValue_write {outcome : ReadOutcome}
    (sound : RowSound trans txids record) (writes : action.isWriteLock = true)
    (notRead : action.isReadLock = false)
    (answer : record.readListValue format [] stmt action false lockAddr = some outcome) :
    outcome.record = record := by
  have target : ∀ ready lr, record.readTarget stmt action = .ok (ready, lr) → ready = record := by
    intro ready lr targetEq
    cases head : record.recLock with
    | none =>
        simp only [readTarget, head, Except.ok.injEq, Prod.mk.injEq] at targetEq
        exact targetEq.1.symm
    | some lock =>
        rcases sound.single (mem_locks_of_recLock head) with ⟨owner, -, single⟩
        simp only [readTarget, head, writes, if_true] at targetEq
        split at targetEq
        · cases targetEq
        · simp only [Except.ok.injEq, Prod.mk.injEq] at targetEq
          rw [← targetEq.1]
          cases record with
          | unlocked body => rfl
          | locked body own =>
              cases head
              simp [mapLock, dropLeftSharers, single]
          | versioned body own undoRec =>
              cases head
              simp [mapLock, dropLeftSharers, single]
  unfold readListValue at answer
  cases targetEq : record.readTarget stmt action with
  | error result =>
      simp only [targetEq, Option.some.injEq] at answer
      rw [← answer]
  | ok pair =>
      simp only [targetEq, notRead, Bool.false_eq_true, if_false] at answer
      split at answer
      · cases answer
        exact target _ _ targetEq
      · rcases Option.map_eq_some_iff.mp answer with ⟨values, -, rfl⟩
        exact target _ _ targetEq

/-- A change by a transaction: no other open transaction has a lock on a row that is changed, and
locks are only added. -/
theorem RowSound.changeRow (sound : RowSound trans txids record)
    (active : txid ≠ txidNull ∧ txid ∈ txids) {request : UpdateRequest} {passes : Bool}
    {result : ChangeResult}
    (changed : record.changeRow format txid request passes = some result) :
    RowKept trans txids record result.record ∧ (result.changed = true → ∀ holder action,
      (trans holder).isSome = true → record.Recorded holder action → holder = txid) := by
  have isAction : request.action.toActionType ≠ .noAction := by cases request.action <;> decide
  have writes : request.action.toActionType.isWriteLock = true := by
    cases request.action <;> decide
  have notRead : request.action.toActionType.isReadLock = false := by
    cases request.action <;> decide
  have notShare : request.action.toActionType ≠ .readShare := by cases request.action <;> decide
  rcases Option.bind_eq_some_iff.mp changed with ⟨ready, prepared, rest⟩
  rcases Option.map_eq_some_iff.mp rest with ⟨outcome, answer, rfl⟩
  have kept := sound.rowKept_prepare prepared
  have recordEq := record_readListValue_write kept.sound writes notRead answer
  rcases readListValue_decided kept.sound.wellLocked (locks_prepare prepared).2 active.1 isAction
    answer with ⟨-, -, granted, ready'⟩
  by_cases applies : outcome.result = .okNolock ∧ passes = true
  · rw [if_pos applies]
    have able := ready' (.inr applies.1)
    rw [if_neg (by simp [notRead]), recordEq] at able
    have compatible := (granted.mp (.inr applies.1)).1
    rw [recordEq]
    refine ⟨⟨⟨?_, ?_, ?_, ?_⟩, ?_⟩, ?_⟩
    · exact wellLocked_applyRequest format kept.sound.wellLocked active.1 able
    · intro lock mem
      rcases List.mem_cons.mp mem with rfl | mem
      · exact notShare
      · exact kept.sound.notShared lock mem
    · intro lock mem
      rcases List.mem_cons.mp mem with rfl | mem
      · intro _ _ _
        rfl
      · exact kept.sound.unmarked lock mem
    · intro lock mem
      rcases List.mem_cons.mp mem with rfl | mem
      · intro holder holderMem
        rw [List.mem_singleton.mp holderMem]
        exact active.2
      · exact kept.sound.known lock mem
    · intro holder action isOpen recorded
      rcases kept.keeps holder action isOpen recorded with ⟨lock, mem, holds⟩
      exact ⟨lock, List.mem_cons_of_mem _ mem, holds⟩
    · intro _ holder action isOpen recorded
      rcases kept.keeps holder action isOpen recorded with ⟨lock, mem, holds, -⟩
      by_contra different
      exact notShare (compatible lock mem holder holds different).1
  · rw [if_neg applies, recordEq]
    exact ⟨kept, fun impossible => by cases impossible⟩

theorem mem_locks_mapVersion {change : RecordLock → RecordLock} {version : ℕ} {lock : RecordLock}
    (mem : lock ∈ (record.mapVersion change version).locks) :
    lock ∈ record.locks ∨ ∃ old, record.locks[version]? = some old ∧ lock = change old := by
  induction record generalizing version with
  | unlocked body => cases version <;> simp [mapVersion, mapLock, locks] at mem
  | locked body own =>
      cases version with
      | zero =>
          simp only [mapVersion, mapLock, locks, List.mem_singleton] at mem
          exact .inr ⟨own, rfl, mem⟩
      | succ version => exact .inl mem
  | versioned body own undoRec ih =>
      cases version with
      | zero =>
          simp only [mapVersion, mapLock, locks, List.mem_cons] at mem
          rcases mem with rfl | mem
          · exact .inr ⟨own, rfl, rfl⟩
          · exact .inl (List.mem_cons_of_mem own mem)
      | succ version =>
          simp only [mapVersion, locks, List.mem_cons] at mem
          rcases mem with rfl | mem
          · exact .inl List.mem_cons_self
          · rcases ih mem with before | changed
            · exact .inl (List.mem_cons_of_mem own before)
            · exact .inr (by simpa [locks] using changed)

theorem submitAllowed_of_markAllowed {version : ℕ} {status : RecordStatus}
    (allowed : record.markAllowed version stmt status = true) :
    ∃ lock, record.locks[version]? = some lock ∧ submitAllowed lock stmt status = true := by
  unfold markAllowed at allowed
  split at allowed
  · cases allowed
  · next lock older dropped =>
      have found : record.locks[version]? = some lock := by
        have first := congrArg List.head? dropped
        simpa [List.head?_drop] using first
      exact ⟨lock, found, (Bool.and_eq_true_iff.mp allowed).1⟩

theorem RowSound.mark (sound : RowSound trans txids record) {version : ℕ}
    {status : RecordStatus} (isOver : trans stmt.txid = none)
    (allowed : record.markAllowed version stmt status = true) :
    RowKept trans txids record (record.mapVersion (submitLock stmt status) version) := by
  rcases submitAllowed_of_markAllowed allowed with ⟨own, found, submit⟩
  have ownMem : own ∈ record.locks := List.mem_of_getElem? found
  have occurs : stmt.txid ∈ own.lstTxid := by
    simp only [submitAllowed, Bool.and_eq_true, List.contains_eq_mem, decide_eq_true_eq] at submit
    exact submit.1
  rcases sound.single ownMem with ⟨owner, active, ownSingle⟩
  have owned : stmt.txid = owner := by
    rw [ownSingle, List.mem_singleton] at occurs
    exact occurs
  have notShared := sound.notShared own ownMem
  have submitEq : submitLock stmt status own = { own with stmt := none, recStatus := status } := by
    simp [submitLock, notShared]
  refine ⟨⟨?_, ?_, ?_, ?_⟩, ?_⟩
  · refine (wellLocked_mapVersion sound.wellLocked ?_).1
    intro lock mem lockSound
    cases found.symm.trans mem
    exact keepsHolders_submitLock lockSound submit
  · intro lock mem
    rcases mem_locks_mapVersion mem with before | ⟨old, oldFound, rfl⟩
    · exact sound.notShared lock before
    · cases found.symm.trans oldFound
      rw [submitEq]
      exact notShared
  · intro lock mem txid txidMem isOpen
    rcases mem_locks_mapVersion mem with before | ⟨old, oldFound, rfl⟩
    · exact sound.unmarked lock before txid txidMem isOpen
    · cases found.symm.trans oldFound
      rw [submitEq] at txidMem
      have txidMem' : txid ∈ own.lstTxid := txidMem
      rw [ownSingle, List.mem_singleton, ← owned] at txidMem'
      rw [txidMem', isOver] at isOpen
      cases isOpen
  · intro lock mem
    rcases mem_locks_mapVersion mem with before | ⟨old, oldFound, rfl⟩
    · exact sound.known lock before
    · cases found.symm.trans oldFound
      rw [submitEq]
      exact sound.known own ownMem
  · intro txid action isOpen recorded
    rcases sound.head recorded with ⟨head, headEq, -, single⟩
    have inHead := (mem_head_of_mem sound.wellLocked headEq ownMem occurs).resolve_right
      (owned ▸ active)
    rw [single, List.mem_singleton] at inHead
    rw [← inHead, isOver] at isOpen
    cases isOpen

theorem rowSound_newPrimary {vctKey vctVal : List DataValue} {recStamp : ℕ}
    {fresh : NewRecord} (active : stmt.txid ≠ txidNull ∧ stmt.txid ∈ txids)
    (valid : (newPrimary format vctKey vctVal recStamp (some stmt) fresh).body.bValid = true) :
    RowSound trans txids (newPrimary format vctKey vctVal recStamp (some stmt) fresh) ∧
      (newPrimary format vctKey vctVal recStamp (some stmt) fresh).Recorded stmt.txid .insert := by
  unfold newPrimary at valid ⊢
  simp only at valid ⊢
  split at valid
  · cases valid
  · next inRange =>
      rw [if_neg inRange]
      refine ⟨⟨sound_new (by decide) (by simp) active.1, ?_, ?_, ?_⟩, ?_⟩
      · simp [newLock, ofBody, locks, RecordLock.new]
      · intro lock mem txid _ _
        simp only [newLock, ofBody, Option.map_some, locks, List.mem_singleton] at mem
        rw [mem]
        rfl
      · simp [newLock, ofBody, locks, RecordLock.new, active.2]
      · exact ⟨_, List.mem_singleton.mpr rfl, heldBy_new stmt active.1 rfl, le_rfl⟩

theorem recorded_of_insert (recorded : record.Recorded txid .insert) (lockType : LockType) :
    record.Recorded txid lockType.actionType := by
  rcases recorded with ⟨lock, mem, holds, strong⟩
  refine ⟨lock, mem, holds, le_trans ?_ strong⟩
  cases lockType <;> decide

end LeafRecord

/-! ## The table -/

namespace LockingState

open LeafRecord

variable {format : IndexFormat} {state state' : LockingState} {event : LockingEvent}
  {txid : TranID} {tran tran' : LockingTran} {select : LockingSelect} {position : ℕ}

/-- A select that was to lock its rows holds the ones it has returned. -/
def Holds (rows : ℕ → Option LeafRecord) (txid : TranID) (select : LockingSelect) : Prop :=
  select.lockType ≠ .noLock → ∀ position ∈ select.returned,
    ∃ record, rows position = some record ∧ record.Recorded txid select.lockType.actionType

/-- Nothing that an executed select excludes was granted since. -/
def Alone (grants : List Grant) (txid : TranID) (select : LockingSelect) : Prop :=
  select.lockType ≠ .noLock → ∀ position ∈ select.returned,
    ∀ grant ∈ grants.drop select.since, grant.position = position →
      grant.txid = txid ∨ select.lockType = .shareLock ∧ grant.action = .readShare

structure TranSound (state : LockingState) (txid : TranID) (tran : LockingTran) : Prop where
  active : txid ≠ txidNull ∧ txid ∈ state.txids
  /-- The lock type does not get into the expression. -/
  plain : ∀ select ∈ tran.currSelect, select.exprSelect.lockType = .noLock
  holds : ∀ select ∈ tran.lstSelect ++ tran.currSelect.toList, Holds state.rows txid select
  since : ∀ select ∈ tran.lstSelect, select.since ≤ state.grants.length
  alone : ∀ select ∈ tran.lstSelect, Alone state.grants txid select

structure Sound (state : LockingState) : Prop where
  rows : ∀ position record, state.rows position = some record →
    RowSound state.trans state.txids record
  trans : ∀ txid tran, state.trans txid = some tran → TranSound state txid tran
  left : state.leftLocked = []

theorem lockType_preprocess {exprSelect : ExprSelect} {exprTableSelect : ExprTableSelect}
    (preprocessed : exprSelect.preprocess = some exprTableSelect) :
    exprTableSelect.lockType = .noLock := by
  unfold ExprSelect.preprocess at preprocessed
  split at preprocessed
  · cases preprocessed
    rfl
  · cases preprocessed

theorem Sound.rowsHeld (sound : Sound state) : RowsHeld state where
  held := fun txid tran isOpen select mem locks =>
    (sound.trans txid tran isOpen).holds select (List.mem_append_left _ mem) locks
  alone := fun txid tran isOpen select mem locks =>
    (sound.trans txid tran isOpen).alone select mem locks
  others := sound.left

theorem sound_of_idle (idle : Idle state) : Sound state where
  rows := by
    intro position record found
    have noLock := idle.unlocked position record found
    cases record with
    | unlocked body =>
        exact ⟨trivial, by simp [locks], by simp [locks], by simp [locks]⟩
    | locked body lock => cases noLock
    | versioned body lock undoRec => cases noLock
  trans := by
    intro txid tran isOpen
    rw [idle.closed] at isOpen
    cases isOpen
  left := idle.fresh.2.2

variable {record : LeafRecord}

theorem holds_setRow (holds : Holds state.rows txid select)
    (keeps : select.lockType ≠ .noLock → position ∈ select.returned →
      ∀ old, state.rows position = some old →
        old.Recorded txid select.lockType.actionType →
        record.Recorded txid select.lockType.actionType) :
    Holds (Function.update state.rows position (some record)) txid select := by
  intro locks other mem
  rcases holds locks other mem with ⟨old, found, recorded⟩
  by_cases same : other = position
  · subst same
    exact ⟨record, Function.update_self .., keeps locks mem old found recorded⟩
  · exact ⟨old, by rw [Function.update_of_ne same]; exact found, recorded⟩

theorem Sound.setRow (sound : Sound state) (position : ℕ)
    (grants : List Grant) (rowSound : RowSound state.trans state.txids record)
    (keeps : ∀ txid tran, state.trans txid = some tran →
      ∀ select ∈ tran.lstSelect ++ tran.currSelect.toList, select.lockType ≠ .noLock →
        position ∈ select.returned → ∀ old, state.rows position = some old →
          old.Recorded txid select.lockType.actionType →
          record.Recorded txid select.lockType.actionType)
    (alone : ∀ txid tran, state.trans txid = some tran → ∀ select ∈ tran.lstSelect,
      select.lockType ≠ .noLock → ∀ grant ∈ grants, grant.position ∈ select.returned →
        grant.txid = txid) :
    Sound { state.setRow position record with grants := state.grants ++ grants } where
  rows := by
    intro other record' found
    by_cases same : other = position
    · subst same
      simp only [LockingState.setRow, Function.update_self, Option.some.injEq] at found
      exact found ▸ rowSound
    · simp only [LockingState.setRow, Function.update_of_ne same] at found
      exact sound.rows other record' found
  trans := by
    intro txid tran isOpen
    have tranSound := sound.trans txid tran isOpen
    refine ⟨tranSound.active, tranSound.plain, ?_, ?_, ?_⟩
    · intro select mem
      exact holds_setRow (tranSound.holds select mem) (keeps txid tran isOpen select mem)
    · intro select mem
      have before := tranSound.since select mem
      simp only [List.length_append]
      omega
    · intro select mem locks position' mem' grant granted same
      rw [List.drop_append_of_le_length (tranSound.since select mem)] at granted
      rcases List.mem_append.mp granted with before | new
      · exact tranSound.alone select mem locks position' mem' grant before same
      · exact .inl (alone txid tran isOpen select mem locks grant new (same ▸ mem'))
  left := sound.left

theorem Sound.setTran (sound : Sound state) (isOpen : (state.trans txid).isSome = true)
    (tranSound : TranSound state txid tran') : Sound (state.setTran txid tran') where
  rows := by
    intro position record found
    have rowSound := sound.rows position record found
    refine { rowSound with unmarked := ?_ }
    intro lock mem holder holderMem holderOpen
    refine rowSound.unmarked lock mem holder holderMem ?_
    by_cases same : holder = txid
    · rw [same]
      exact isOpen
    · simpa [LockingState.setTran, Function.update_of_ne same] using holderOpen
  trans := by
    intro other tran otherOpen
    by_cases same : other = txid
    · subst same
      simp only [LockingState.setTran, Function.update_self, Option.some.injEq] at otherOpen
      subst otherOpen
      exact { tranSound with }
    · simp only [LockingState.setTran, Function.update_of_ne same] at otherOpen
      have otherSound := sound.trans other tran otherOpen
      exact { otherSound with }
  left := sound.left

theorem Sound.setCurrent (sound : Sound state) (isOpen : state.trans txid = some tran)
    {select' : LockingSelect} (plain : select'.exprSelect.lockType = .noLock)
    (holds : Holds state.rows txid select') :
    Sound (state.setTran txid { tran with currSelect := some select' }) := by
  have tranSound := sound.trans txid tran isOpen
  refine sound.setTran (by simp [isOpen]) { tranSound with plain := ?_, holds := ?_ }
  · intro other same
    rw [← Option.some.inj same]
    exact plain
  · intro other mem
    rcases List.mem_append.mp mem with before | current
    · exact tranSound.holds other (List.mem_append_left _ before)
    · rw [List.mem_singleton.mp current]
      exact holds

theorem of_current (current : state.current txid = some (tran, select)) :
    state.trans txid = some tran ∧ tran.currSelect = some select := by
  rcases Option.bind_eq_some_iff.mp current with ⟨tran', isOpen, rest⟩
  rcases Option.map_eq_some_iff.mp rest with ⟨select', running, pairEq⟩
  rcases Prod.mk.inj pairEq with ⟨rfl, rfl⟩
  exact ⟨isOpen, running⟩

theorem carries_of_subset {record ready : LeafRecord}
    (subset : ∀ lock ∈ ready.locks, lock ∈ record.locks) (carries : ready.carries txid = true) :
    record.carries txid = true := by
  rcases List.any_eq_true.mp carries with ⟨lock, mem, occurs⟩
  exact List.any_eq_true.mpr ⟨lock, subset lock mem, occurs⟩

theorem Sound.setKept (sound : Sound state) {record record' : LeafRecord}
    (found : state.rows position = some record)
    (kept : RowKept state.trans state.txids record record') (grants : List Grant)
    (alone : ∀ txid tran, state.trans txid = some tran → ∀ select ∈ tran.lstSelect,
      select.lockType ≠ .noLock → ∀ grant ∈ grants, grant.position ∈ select.returned →
        grant.txid = txid) :
    Sound { state.setRow position record' with grants := state.grants ++ grants } := by
  refine sound.setRow position grants kept.sound ?_ alone
  intro txid tran isOpen select _ _ _ old oldFound recorded
  rw [found] at oldFound
  cases Option.some.inj oldFound
  exact kept.keeps txid _ (by simp [isOpen]) recorded

theorem Sound.keepRow (sound : Sound state) {record record' : LeafRecord}
    (found : state.rows position = some record)
    (kept : RowKept state.trans state.txids record record') :
    Sound (state.setRow position record') := by
  have replaced := sound.setKept found kept [] (by simp)
  rwa [List.append_nil] at replaced

theorem Sound.sole (sound : Sound state) {action : ActionType}
    (found : state.rows position = some record) (recorded : record.Recorded txid action)
    {other : TranID} (isOpen : state.trans other = some tran) (mem : select ∈ tran.lstSelect)
    (locks : select.lockType ≠ .noLock) (returned : position ∈ select.returned) :
    txid = other := by
  rcases (sound.trans other tran isOpen).holds select (List.mem_append_left _ mem) locks position
    returned with ⟨record', found', recorded'⟩
  rw [found] at found'
  cases Option.some.inj found'
  exact (sound.rows position record found).unique recorded' recorded

theorem Sound.visitRow (sound : Sound state) (isOpen : state.trans txid = some tran)
    (plain : select.exprSelect.lockType = .noLock) (holds : Holds state.rows txid select)
    {verdict : Verdict} {lockAddr : ℕ}
    (covered : ∀ record, state.rows position = some record → select.lockType ≠ .noLock →
      verdict = .holds → record.readable = true →
        record.Recorded txid select.lockType.actionType)
    (step : state.visitRow format txid tran select position verdict lockAddr = some state') :
    Sound state' := by
  rcases Option.bind_eq_some_iff.mp step with ⟨record, found, rest⟩
  rcases Option.map_eq_some_iff.mp rest with ⟨result, selected, rfl⟩
  rw [plain] at selected
  have prepared := record_selectRow selected
  have kept := (sound.rows position record found).rowKept_prepare prepared
  have notLeft : ¬(record.returnsRow format ⟨select.id, txid⟩
      select.exprSelect.lockType.actionType verdict lockAddr = false ∧
      result.record.carries txid = true ∧ record.carries txid = false) := by
    rintro ⟨_, after, before⟩
    rw [carries_of_subset (locks_prepare prepared).1 after] at before
    cases before
  simp only [if_neg notLeft]
  cases returned : record.returnsRow format ⟨select.id, txid⟩
      select.exprSelect.lockType.actionType verdict lockAddr with
  | false =>
      simp only [Bool.false_eq_true, if_false, false_and]
      refine (sound.keepRow found kept).setCurrent isOpen plain ?_
      exact holds_setRow holds fun locks mem old oldFound recorded => by
        rw [found] at oldFound
        cases Option.some.inj oldFound
        exact kept.keeps txid _ (by simp [isOpen]) recorded
  | true =>
      rw [plain] at returned
      rcases readable_of_returnsRow returned with ⟨readable, verdictEq⟩
      have recorded : select.lockType ≠ .noLock →
          result.record.Recorded txid select.lockType.actionType := by
        intro locks
        exact kept.keeps txid _ (by simp [isOpen]) (covered record found locks verdictEq readable)
      have nowHolds : Holds (Function.update state.rows position (some result.record)) txid
          { select with
            returned := select.returned ++ [position]
            failed := select.failed || result.failed } := by
        intro locks other mem
        by_cases same : other = position
        · subst same
          exact ⟨result.record, Function.update_self .., recorded locks⟩
        · have before : other ∈ select.returned := by simpa [same] using mem
          rcases holds locks other before with ⟨old, oldFound, oldRecorded⟩
          exact ⟨old, by rw [Function.update_of_ne same]; exact oldFound, oldRecorded⟩
      by_cases locks : select.lockType ≠ .noLock
      · simp only [if_true, true_and, if_pos locks]
        refine Sound.setCurrent (sound.setKept found kept _ ?_) isOpen plain nowHolds
        intro other otherTran otherOpen otherSelect mem otherLocks grant granted position'
        rw [List.mem_singleton.mp granted] at position' ⊢
        exact sound.sole found (covered record found locks verdictEq readable) otherOpen mem
          otherLocks position'
      · simp only [if_true, true_and, if_neg locks]
        exact (sound.keepRow found kept).setCurrent isOpen plain nowHolds

/-! ## Steps -/

theorem Sound.of_eq (sound : Sound state) (rows : state'.rows = state.rows)
    (trans : state'.trans = state.trans) (txids : state'.txids = state.txids)
    (grants : state'.grants = state.grants) (left : state'.leftLocked = state.leftLocked) :
    Sound state' where
  rows := by
    rw [rows, trans, txids]
    exact sound.rows
  trans := by
    intro txid tran isOpen
    rw [trans] at isOpen
    have tranSound := sound.trans txid tran isOpen
    refine ⟨txids ▸ tranSound.active, tranSound.plain, rows ▸ tranSound.holds,
      grants ▸ tranSound.since, grants ▸ tranSound.alone⟩
  left := left.trans sound.left

theorem Sound.beginTran (sound : Sound state) (new : txid ∉ state.txids)
    (active : txid ≠ txidNull) :
    Sound { (state.setTran txid {}) with txids := txid :: state.txids } where
  rows := by
    intro position record found
    have rowSound := sound.rows position record found
    refine ⟨rowSound.wellLocked, rowSound.notShared, ?_, ?_⟩
    · intro lock mem holder holderMem holderOpen
      have known := rowSound.known lock mem holder holderMem
      have different : holder ≠ txid := fun same => new (same ▸ known)
      refine rowSound.unmarked lock mem holder holderMem ?_
      simpa [LockingState.setTran, Function.update_of_ne different] using holderOpen
    · intro lock mem holder holderMem
      exact List.mem_cons_of_mem _ (rowSound.known lock mem holder holderMem)
  trans := by
    intro other tran otherOpen
    by_cases same : other = txid
    · subst same
      simp only [LockingState.setTran, Function.update_self, Option.some.injEq] at otherOpen
      subst otherOpen
      exact ⟨⟨active, List.mem_cons_self⟩, by simp, by simp, by simp, by simp⟩
    · simp only [LockingState.setTran, Function.update_of_ne same] at otherOpen
      have otherSound := sound.trans other tran otherOpen
      exact { otherSound with
        active := ⟨otherSound.active.1, List.mem_cons_of_mem _ otherSound.active.2⟩ }
  left := sound.left

theorem Sound.endTran (sound : Sound state) (txid : TranID) :
    Sound { state with trans := Function.update state.trans txid none } where
  rows := by
    intro position record found
    have rowSound := sound.rows position record found
    refine { rowSound with unmarked := ?_ }
    intro lock mem holder holderMem holderOpen
    refine rowSound.unmarked lock mem holder holderMem ?_
    by_cases same : holder = txid
    · simp [same] at holderOpen
    · simpa [Function.update_of_ne same] using holderOpen
  trans := by
    intro other tran otherOpen
    by_cases same : other = txid
    · simp [same] at otherOpen
    · simp only [Function.update_of_ne same] at otherOpen
      have otherSound := sound.trans other tran otherOpen
      exact { otherSound with }
  left := sound.left

theorem Sound.finish (sound : Sound state) (current : state.current txid = some (tran, select)) :
    Sound (state.setTran txid
      { lstSelect := tran.lstSelect ++ [{ select with since := state.grants.length }]
        currSelect := none }) := by
  rcases of_current current with ⟨isOpen, running⟩
  have tranSound := sound.trans txid tran isOpen
  refine sound.setTran (by simp [isOpen]) ⟨tranSound.active, by simp, ?_, ?_, ?_⟩
  · intro other mem
    simp only [Option.toList_none, List.append_nil] at mem
    rcases List.mem_append.mp mem with before | new
    · exact tranSound.holds other (List.mem_append_left _ before)
    · rw [List.mem_singleton.mp new]
      exact tranSound.holds select (List.mem_append_right _ (by simp [running]))
  · intro other mem
    rcases List.mem_append.mp mem with before | new
    · exact tranSound.since other before
    · rw [List.mem_singleton.mp new]
  · intro other mem
    rcases List.mem_append.mp mem with before | new
    · exact tranSound.alone other before
    · rw [List.mem_singleton.mp new]
      simp [Alone]

theorem of_idle (idle : state.idle txid = true) :
    ∃ tran, state.trans txid = some tran ∧ tran.currSelect = none := by
  unfold LockingState.idle at idle
  split at idle
  · next tran isOpen => exact ⟨tran, isOpen, Option.isNone_iff_eq_none.mp idle⟩
  · cases idle

theorem Sound.insert (sound : Sound state) {stmt : StatementRef} {vctKey vctVal : List DataValue}
    {recStamp : ℕ} {fresh : NewRecord} (idle : state.idle stmt.txid = true)
    (covered : Covered state (.insert stmt position vctKey vctVal recStamp fresh))
    (valid : (newPrimary format vctKey vctVal recStamp (some stmt) fresh).body.bValid = true)
    {row : Option LeafRecord}
    (inserted : insertRow (state.rows position)
      (newPrimary format vctKey vctVal recStamp (some stmt) fresh) = some row) :
    Sound { state with rows := Function.update state.rows position row } := by
  rcases of_idle idle with ⟨tran, isOpen, -⟩
  have active := (sound.trans stmt.txid tran isOpen).active
  have both : RowSound state.trans state.txids
      (newPrimary format vctKey vctVal recStamp (some stmt) fresh) ∧ _ :=
    rowSound_newPrimary active valid
  rcases both with ⟨newSound, newRecorded⟩
  cases found : state.rows position with
  | none =>
      simp only [insertRow, found, Option.some.injEq] at inserted
      subst inserted
      have replaced := sound.setRow position [] newSound (by simp [found]) (by simp)
      rwa [List.append_nil] at replaced
  | some old =>
      simp only [insertRow, found] at inserted
      rcases Option.map_eq_some_iff.mp inserted with ⟨ready, prepared, rfl⟩
      have oldSound := sound.rows position old found
      split
      · next deleted =>
          have replaced := sound.setRow position [] newSound ?_ (by simp)
          · rwa [List.append_nil] at replaced
          intro txid other otherOpen select mem locks returned old' oldFound recorded
          rw [found] at oldFound
          cases Option.some.inj oldFound
          by_cases own : txid = stmt.txid
          · subst own
            exact recorded_of_insert newRecorded _
          · have live := covered txid (sound.trans txid other otherOpen).active.2 own
              ⟨other, otherOpen, select, mem, locks, returned⟩ old found
            rw [oldSound.prepare_eq recorded (by simp [otherOpen])] at prepared
            cases Option.some.inj prepared
            rw [live] at deleted
            cases deleted
      · exact sound.keepRow found (oldSound.rowKept_prepare prepared)

theorem sound_step (sound : Sound state) (covered : Covered state event)
    (step : state.step format event = some state') : Sound state' := by
  cases event with
  | beginTran txid =>
      rcases Option.ite_none_right_eq_some.mp step with ⟨new, ⟨⟩⟩
      exact sound.beginTran new.1 new.2
  | start txid id exprSelect =>
      rcases Option.bind_eq_some_iff.mp step with ⟨tran, isOpen, rest⟩
      rcases Option.ite_none_right_eq_some.mp rest with ⟨-, rest⟩
      rcases Option.map_eq_some_iff.mp rest with ⟨exprTableSelect, preprocessed, rfl⟩
      refine sound.setCurrent isOpen (lockType_preprocess preprocessed) ?_
      simp [Holds]
  | row txid position verdict lockAddr =>
      rcases Option.bind_eq_some_iff.mp step with ⟨⟨tran, select⟩, current, rest⟩
      rcases of_current current with ⟨isOpen, running⟩
      have tranSound := sound.trans txid tran isOpen
      simp only at rest
      rcases Option.ite_none_left_eq_some.mp rest with ⟨passed, rest⟩
      refine sound.visitRow isOpen (tranSound.plain select running)
        (tranSound.holds select (by simp [running])) ?_ rest
      intro record found locks holds readable
      exact covered ⟨tran, select⟩ current (by simpa using passed) locks holds record found
        readable
  | entry txid entry lockAddr =>
      rcases Option.bind_eq_some_iff.mp step with ⟨⟨tran, select⟩, current, rest⟩
      rcases of_current current with ⟨isOpen, running⟩
      have tranSound := sound.trans txid tran isOpen
      simp only at rest
      rcases Option.ite_none_left_eq_some.mp rest with ⟨-, rest⟩
      rcases Option.map_eq_some_iff.mp rest with ⟨result, -, rfl⟩
      refine Sound.of_eq (sound.setCurrent isOpen ?_ ?_) rfl rfl rfl rfl rfl
      · exact tranSound.plain select running
      · exact tranSound.holds select (by simp [running])
  | entryRow txid position verdict lockAddr =>
      rcases Option.bind_eq_some_iff.mp step with ⟨⟨tran, select⟩, current, rest⟩
      rcases of_current current with ⟨isOpen, running⟩
      have tranSound := sound.trans txid tran isOpen
      have plain := tranSound.plain select running
      have holds := tranSound.holds select (by simp [running])
      simp only at rest
      split at rest
      · cases rest
      · next entry bReleaseLock lstStmtRec pending =>
          split at rest
          · cases rest
            refine Sound.setCurrent ?_ ?_ ?_ ?_
            · exact sound.of_eq rfl rfl rfl rfl rfl
            · exact isOpen
            · exact plain
            · exact holds
          · next passed =>
              refine Sound.visitRow ?_ ?_ ?_ ?_ ?_ rest
              · exact sound.of_eq rfl rfl rfl rfl rfl
              · exact isOpen
              · exact plain
              · exact holds
              intro record found locks verdictEq readable
              exact covered ⟨tran, select⟩ current (by simpa using passed) locks verdictEq record
                found readable
  | finish txid =>
      rcases Option.bind_eq_some_iff.mp step with ⟨⟨tran, select⟩, current, rest⟩
      simp only at rest
      rcases Option.ite_none_left_eq_some.mp rest with ⟨-, ⟨⟩⟩
      exact sound.finish current
  | change txid position request passes =>
      rcases Option.ite_none_right_eq_some.mp step with ⟨idle, step⟩
      rcases of_idle idle with ⟨tran, isOpen, -⟩
      have active := (sound.trans txid tran isOpen).active
      rcases Option.bind_eq_some_iff.mp step with ⟨record, found, rest⟩
      rcases Option.map_eq_some_iff.mp rest with ⟨result, changed, rfl⟩
      rcases (sound.rows position record found).changeRow active changed with ⟨kept, sole⟩
      cases granted : result.changed with
      | false => exact sound.keepRow found kept
      | true =>
          refine sound.setKept found kept _ ?_
          intro other otherTran otherOpen select mem locks grant granted' returned
          rw [List.mem_singleton.mp granted'] at returned ⊢
          rcases (sound.trans other otherTran otherOpen).holds select
            (List.mem_append_left _ mem) locks position returned with ⟨held, heldFound, recorded⟩
          rw [found] at heldFound
          cases Option.some.inj heldFound
          exact (sole granted other _ (by simp [otherOpen]) recorded).symm
  | insert stmt position vctKey vctVal recStamp fresh =>
      rcases Option.ite_none_right_eq_some.mp step with ⟨allowed, step⟩
      rcases Option.map_eq_some_iff.mp step with ⟨row, inserted, rfl⟩
      exact sound.insert allowed.1 covered allowed.2 inserted
  | endTran txid =>
      rcases Option.ite_none_right_eq_some.mp step with ⟨-, ⟨⟩⟩
      exact sound.endTran txid
  | mark position version stmt status =>
      rcases Option.ite_none_right_eq_some.mp step with ⟨isOver, step⟩
      rcases Option.bind_eq_some_iff.mp step with ⟨record, found, rest⟩
      rcases Option.ite_none_right_eq_some.mp rest with ⟨allowed, ⟨⟩⟩
      have kept := (sound.rows position record found).mark
        (Option.isNone_iff_eq_none.mp isOver) allowed
      exact sound.keepRow found kept
  | release position =>
      rcases Option.bind_eq_some_iff.mp step with ⟨record, found, rest⟩
      rcases Option.map_eq_some_iff.mp rest with ⟨ready, prepared, rfl⟩
      exact sound.keepRow found ((sound.rows position record found).rowKept_prepare prepared)
  | setEntry entry record =>
      cases step
      exact sound.of_eq rfl rfl rfl rfl rfl

/-! ## Runs -/

theorem rowsHeld_of_covered {start : LockingState} (idle : Idle start)
    (run : Reaches (LockingState.step format) Covered start state) : RowsHeld state :=
  Sound.rowsHeld (run.preserves (sound_of_idle idle) fun _ _ _ covered sound step =>
    sound_step sound covered step)

/-- A table of one row in many copies, without locks. -/
def sampleTable : LockingState where
  rows _ := some LeafRecord.sampleRecord
  entries _ := LeafRecord.sampleRecord
  trans _ := none

theorem idle_sampleTable : Idle sampleTable where
  unlocked := by
    intro position record found
    rw [← Option.some.inj found]
    rfl
  closed := fun _ => rfl
  fresh := ⟨rfl, rfl, rfl⟩

/-- The selects of a transaction, with what they are to lock and what they have returned. -/
def executed (state : LockingState) (txid : TranID) : Option (List (LockType × List ℕ)) :=
  (state.trans txid).map fun tran =>
    tran.lstSelect.map fun select => (select.lockType, select.returned)

/-- Transaction `1` selects a row for update. -/
def selectForUpdate : List LockingEvent :=
  [.start 1 1 ⟨["t"], .writeLock⟩, .row 1 0 .holds 10, .finish 1]

/-- It has updated the row, and an update by transaction `2` follows. -/
def updateAndSelect : List LockingEvent :=
  [.beginTran 1, .change 1 0 (LeafRecord.sampleRequest .update) true] ++ selectForUpdate ++
    [.beginTran 2, .change 2 0 (LeafRecord.sampleRequest .update) true]

theorem rowsHeld_of_covered_update : ∃ state,
    Reaches (LockingState.step LeafRecord.sampleFormat) Covered sampleTable state ∧
    state.executed 1 = some [(.writeLock, [0])] ∧ state.grants.length = 2 ∧ RowsHeld state := by
  have runs : (execPermitted (LockingState.step LeafRecord.sampleFormat) Covered updateAndSelect
      sampleTable).map (fun state => (state.executed 1, state.grants.length)) =
      some (some [(.writeLock, [0])], 2) := by
    decide +kernel
  rcases Option.map_eq_some_iff.mp runs with ⟨state, execution, shown⟩
  rcases Prod.mk.inj shown with ⟨selects, grants⟩
  have run := reaches_of_execPermitted updateAndSelect execution
  exact ⟨state, run, selects, grants, rowsHeld_of_covered idle_sampleTable run⟩

/-- The locks held on a row and on the versions behind it belong to one transaction. -/
theorem oneHolder_of_covered {start : LockingState} (idle : Idle start)
    (run : Reaches (LockingState.step format) Covered start state) {position : ℕ}
    {record : LeafRecord} (found : state.rows position = some record) :
    ∀ own ∈ record.locks, ∀ other ∈ record.locks, ∀ owner txid, own.HeldBy owner →
      other.HeldBy txid → txid = owner := by
  have sound : Sound state := run.preserves (sound_of_idle idle)
    fun _ _ _ covered sound step => sound_step sound covered step
  rcases sound.rows position record found with ⟨wellLocked, notShared, -, -⟩
  intro own ownMem other otherMem owner txid ownHeld otherHeld
  cases head : record.recLock with
  | none => simp [locks_eq_nil_of_recLock head] at ownMem
  | some lock =>
      have ownerMem := (mem_head_of_mem wellLocked head ownMem ownHeld.1).resolve_right ownHeld.2.1
      have txidMem :=
        (mem_head_of_mem wellLocked head otherMem otherHeld.1).resolve_right otherHeld.2.1
      rcases (sound_of_recLock wellLocked head).single
        (notShared lock (mem_locks_of_recLock head)) with ⟨holder, -, single⟩
      rw [single, List.mem_singleton] at ownerMem txidMem
      rw [ownerMem, txidMem]

theorem oneHolder_of_covered_update : ∃ state record,
    Reaches (LockingState.step LeafRecord.sampleFormat) Covered sampleTable state ∧
      state.rows 0 = some record ∧ record.carries 1 = true ∧
      ∀ own ∈ record.locks, ∀ other ∈ record.locks, ∀ owner txid, own.HeldBy owner →
        other.HeldBy txid → txid = owner := by
  have runs : (execPermitted (LockingState.step LeafRecord.sampleFormat) Covered updateAndSelect
      sampleTable).bind (fun state => (state.rows 0).map (·.carries 1)) = some true := by
    decide +kernel
  rcases Option.bind_eq_some_iff.mp runs with ⟨state, execution, shown⟩
  rcases Option.map_eq_some_iff.mp shown with ⟨record, found, carries⟩
  have run := reaches_of_execPermitted updateAndSelect execution
  exact ⟨state, record, run, found, carries, oneHolder_of_covered idle_sampleTable run found⟩

/-- The row that a SELECT ... FOR UPDATE returns is not locked. -/
theorem not_rowsHeld : ¬∀ start state, Idle start →
    Reaches (LockingState.step LeafRecord.sampleFormat) anyInput start state → RowsHeld state := by
  intro rowsHeld
  have runs : (exec (LockingState.step LeafRecord.sampleFormat) (.beginTran 1 :: selectForUpdate)
      sampleTable).map (fun state => (state.executed 1, (state.rows 0).map LeafRecord.recLock)) =
      some (some [(.writeLock, [0])], some none) := by
    decide +kernel
  rcases Option.map_eq_some_iff.mp runs with ⟨state, execution, shown⟩
  rcases Prod.mk.inj shown with ⟨selects, unlocked⟩
  rcases Option.map_eq_some_iff.mp selects with ⟨tran, isOpen, list⟩
  rcases List.map_eq_singleton_iff.mp list with ⟨select, listEq, fields⟩
  rcases Prod.mk.inj fields with ⟨lockType, returned⟩
  have held := (rowsHeld sampleTable state idle_sampleTable (reaches_of_exec _ execution)).held 1
    tran isOpen select (by simp [listEq]) (by simp [lockType]) 0 (by simp [returned])
  rcases held with ⟨record, found, lock, mem, -⟩
  rcases Option.map_eq_some_iff.mp unlocked with ⟨record', found', noLock⟩
  rw [found] at found'
  cases Option.some.inj found'
  simp [LeafRecord.locks_eq_nil_of_recLock noLock] at mem

end LockingState

end RapidDb
