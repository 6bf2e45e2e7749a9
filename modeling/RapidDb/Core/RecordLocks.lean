import RapidDb.Core.VersionChain
import RapidDb.Library.Transition

/-!
# Who holds a lock on a record

`ReadListValue`, `SecondaryReadLock`, `UpdateRecord`, the marks left at the end of a
transaction and `ReleaseLock` all work on the lock of one record, in any order and for
any number of transactions. Requests come from callers that release a releasable lock
first: `ReadListValue` asserts it, and the scan of a secondary index does it itself.

The invariant is `WellLocked`: a lock other than `READ_SHARE` belongs to one
transaction, and every transaction that occurs behind a version is that of the version.
-/

namespace RapidDb

open Transition

namespace RecordLock

/-- A transaction holds a lock until the lock is marked or the transaction leaves the sharers. -/
def HeldBy (lock : RecordLock) (txid : TranID) : Prop :=
  txid ∈ lock.lstTxid ∧ txid ≠ txidNull ∧ lock.recStatus.isMarked = false

/-- A shared lock is never marked, and any other lock belongs to one transaction. -/
structure Sound (lock : RecordLock) : Prop where
  action : lock.actType ≠ .noAction
  shared : lock.actType = .readShare → lock.recStatus = .lockOnly
  single : lock.actType ≠ .readShare → ∃ txid, txid ≠ txidNull ∧ lock.lstTxid = [txid]

end RecordLock

def ActionType.strength : ActionType → ℕ
  | .noAction => 0
  | .readShare => 1
  | .readUpdate => 2
  | .insert | .update | .delete | .upsert => 3

namespace LeafRecord

/-- The locks of a record and of the versions behind it. -/
def locks : LeafRecord → List RecordLock
  | unlocked _ => []
  | locked _ lock => [lock]
  | versioned _ lock undoRec => lock :: undoRec.locks

/-- Change the lock of a version, the newest one first. -/
def mapVersion (change : RecordLock → RecordLock) : ℕ → LeafRecord → LeafRecord
  | 0, record => record.mapLock change
  | version + 1, versioned body lock undoRec =>
      versioned body lock (mapVersion change version undoRec)
  | _ + 1, record => record

/-- No transaction shares a record that another one has for itself. -/
def Exclusive (record : LeafRecord) : Prop :=
  ∀ own ∈ record.locks, ∀ other ∈ record.locks, ∀ owner txid,
    own.actType.isWriteLock = true → own.HeldBy owner → other.HeldBy txid → txid = owner

/-- What the other transactions hold leaves room for a request. -/
def Compatible (record : LeafRecord) (txid : TranID) (action : ActionType) : Prop :=
  ∀ lock ∈ record.locks, ∀ holder, lock.HeldBy holder → holder ≠ txid →
    action = .readShare ∧ lock.actType = .readShare

/-- The transaction holds a lock at least as strong as an action. -/
def Recorded (record : LeafRecord) (txid : TranID) (action : ActionType) : Prop :=
  ∃ lock ∈ record.locks, lock.HeldBy txid ∧ action.strength ≤ lock.actType.strength

/-!
## Operations on the lock of a record
-/

/-- An operation on the lock of a record. A version is counted from the newest one. -/
inductive LockEvent where
  | readListValue (mapPos : List (ℕ × ℕ)) (stmt : StatementRef) (atype : ActionType)
      (bGapLock : Bool) (lockAddr : ℕ)
  | secondaryReadLock (stmt : StatementRef) (actType : ActionType) (lockAddr : ℕ)
  | updateRecord (txid : TranID) (request : UpdateRequest)
  | submitStatement (version : ℕ) (stmt : StatementRef) (status : RecordStatus)
  | storeStatus (version : ℕ) (status : RecordStatus)
  | releaseLock

inductive LockResponse where
  | read (result : ReadResult)
  | secLock (result : SecLockResult)
  | done
deriving DecidableEq, Repr

/-- The assertion at the top of `SubmitStatement`. -/
def submitAllowed (lock : RecordLock) (stmt : StatementRef) (status : RecordStatus) : Bool :=
  lock.lstTxid.contains stmt.txid &&
    (lock.recStatus = .init && (status = .commited || status = .rollbacked) ||
      lock.recStatus = .lockOnly && status = .freeed)

/-- One operation under the assertions of its function and the checks of its callers.
`storeStatus` is the mark a select leaves without calling `SubmitStatement`. -/
def respond (format : IndexFormat) (record : LeafRecord) :
    LockEvent → Option (LockResponse × LeafRecord)
  | .readListValue mapPos stmt atype bGapLock lockAddr =>
      if record.releaseLockAble ∨ stmt.txid = txidNull then
        none
      else
        (record.readListValue format mapPos stmt atype bGapLock lockAddr).map fun outcome =>
          (.read outcome.result, outcome.record)
  | .secondaryReadLock stmt actType lockAddr =>
      if record.releaseLockAble ∨ stmt.txid = txidNull ∨ actType.isReadLock = false then
        none
      else
        let (result, record) := record.secondaryReadLock stmt actType lockAddr
        some (.secLock result, record)
  | .updateRecord txid request =>
      if record.lockAble txid request.action.toActionType ∧ txid ≠ txidNull then
        some (.done, applyRequest format txid record request)
      else
        none
  | .submitStatement version stmt status =>
      match record.locks[version]? with
      | none => none
      | some lock =>
          if submitAllowed lock stmt status then
            some (.done, record.mapVersion (submitLock stmt status) version)
          else
            none
  | .storeStatus version status =>
      if record.locks[version]?.isSome ∧ (status = .freeed ∨ status = .rollbacked) then
        some (.done, record.mapVersion (fun lock => { lock with recStatus := status }) version)
      else
        none
  | .releaseLock =>
      if record.releaseLockAble then
        record.releaseLock.map fun out => (.done, out.record)
      else
        none

def lockStep (format : IndexFormat) (record : LeafRecord) (event : LockEvent) :
    Option LeafRecord :=
  (record.respond format event).map Prod.snd

/-- A new record, or one that its constructor locked for the statement that writes it. -/
inductive Fresh : LeafRecord → Prop where
  | unlocked (body : RecordBody) : Fresh (.unlocked body)
  | locked (body : RecordBody) (addr : ℕ) (action : ActionType) (gapLock : Bool)
      (result : RecordResult) (stmt : StatementRef) (writes : action.isUpdateable = true)
      (active : stmt.txid ≠ txidNull) :
      Fresh (.locked body (RecordLock.new addr action .init gapLock result stmt))

/-- The inputs that stay clear of the two slips: a transaction that alone shares a record
asks for it through `SecondaryReadLock`, and a status is stored on a shared lock. -/
def SafeRequest (record : LeafRecord) : LockEvent → Prop
  | .secondaryReadLock stmt actType _ =>
      actType = .readUpdate → ∀ lock ∈ record.recLock, lock.actType = .readShare →
        otherHolder lock stmt.txid = true
  | .storeStatus version _ => ∀ lock ∈ record.locks[version]?, lock.actType ≠ .readShare
  | _ => True

/-- A request is granted when it is compatible, and a granted lock is recorded. A read for
an update or a delete records nothing itself but leaves the record ready for `UpdateRecord`. -/
def Decided (record : LeafRecord) (event : LockEvent) (response : LockResponse)
    (record' : LeafRecord) : Prop :=
  match event with
  | .readListValue _ stmt atype _ _ =>
      atype ≠ .noAction →
        (response = .read .locked ↔ ¬record.Compatible stmt.txid atype) ∧
        (response = .read .okLock ∨ response = .read .okNolock ↔
          record.Compatible stmt.txid atype ∧ record.isDelete = false) ∧
        (response = .read .okLock ∨ response = .read .okNolock →
          if atype.isReadLock then record'.Recorded stmt.txid atype
          else record'.lockAble stmt.txid atype = true)
  | .secondaryReadLock stmt actType _ =>
      (response = .secLock .conflict ↔ ¬record.Compatible stmt.txid actType) ∧
        (response ≠ .secLock .conflict → record'.Recorded stmt.txid actType)
  | .updateRecord txid request =>
      record.Compatible txid request.action.toActionType ∧
        record'.Recorded txid request.action.toActionType
  | _ => True

/-!
## The invariant
-/

/-- Every lock is sound, and whoever occurs behind a version is the version's transaction. -/
def WellLocked : LeafRecord → Prop
  | unlocked _ => True
  | locked _ lock => lock.Sound
  | versioned _ lock undoRec =>
      lock.Sound ∧ lock.actType ≠ .readShare ∧
        (∀ older ∈ undoRec.locks, ∀ txid ∈ older.lstTxid, txid ∈ lock.lstTxid ∨ txid = txidNull) ∧
        undoRec.WellLocked

variable {record : LeafRecord} {lock : RecordLock}

theorem sound_of_recLock
    (wellLocked : record.WellLocked) (head : record.recLock = some lock) : lock.Sound := by
  cases record with
  | unlocked body => cases head
  | locked body own =>
      cases head
      exact wellLocked
  | versioned body own undoRec =>
      cases head
      exact wellLocked.1

variable {txid : TranID}

theorem mem_head_of_mem {lock older : RecordLock}
    (wellLocked : record.WellLocked) (head : record.recLock = some lock)
    (mem : older ∈ record.locks) (occurs : txid ∈ older.lstTxid) :
    txid ∈ lock.lstTxid ∨ txid = txidNull := by
  cases record with
  | unlocked body => cases head
  | locked body own =>
      cases head
      simp only [locks, List.mem_singleton] at mem
      subst mem
      exact Or.inl occurs
  | versioned body own undoRec =>
      cases head
      simp only [locks, List.mem_cons] at mem
      rcases mem with rfl | mem
      · exact Or.inl occurs
      · exact wellLocked.2.2.1 older mem txid occurs

theorem mem_locks_of_recLock (head : record.recLock = some lock) : lock ∈ record.locks := by
  cases record with
  | unlocked body => cases head
  | locked body own =>
      cases head
      simp [locks]
  | versioned body own undoRec =>
      cases head
      simp [locks]

theorem locks_eq_nil_of_recLock (head : record.recLock = none) :
    record.locks = [] := by
  cases record with
  | unlocked body => rfl
  | locked body own => cases head
  | versioned body own undoRec => cases head

theorem locks_eq_singleton (wellLocked : record.WellLocked) (head : record.recLock = some lock)
    (share : lock.actType = .readShare) : record.locks = [lock] := by
  cases record with
  | unlocked body => cases head
  | locked body own =>
      cases head
      rfl
  | versioned body own undoRec =>
      cases head
      exact absurd share wellLocked.2.1

theorem exclusive_of_wellLocked (wellLocked : record.WellLocked) :
    record.Exclusive := by
  intro own ownMem other otherMem owner txid writes ownHeld otherHeld
  cases head : record.recLock with
  | none => simp [locks_eq_nil_of_recLock head] at ownMem
  | some lock =>
      have ownerMem := (mem_head_of_mem wellLocked head ownMem ownHeld.1).resolve_right ownHeld.2.1
      have txidMem :=
        (mem_head_of_mem wellLocked head otherMem otherHeld.1).resolve_right otherHeld.2.1
      by_cases share : lock.actType = .readShare
      · rw [locks_eq_singleton wellLocked head share, List.mem_singleton] at ownMem
        subst ownMem
        exact absurd share ((ActionType.isWriteLock_iff _).mp writes).2
      · rcases (sound_of_recLock wellLocked head).single share with ⟨single, -, listEq⟩
        rw [listEq, List.mem_singleton] at ownerMem txidMem
        rw [ownerMem, txidMem]

theorem unmarked_of_not_releaseLockAble
    (wellLocked : record.WellLocked) (head : record.recLock = some lock)
    (kept : record.releaseLockAble = false) : lock.recStatus.isMarked = false := by
  by_cases share : lock.actType = .readShare
  · rw [(sound_of_recLock wellLocked head).shared share]
    rfl
  · simpa [releaseLockAble, head, share] using kept

theorem exists_sharer (head : record.recLock = some lock) (share : lock.actType = .readShare)
    (kept : record.releaseLockAble = false) : ∃ txid ∈ lock.lstTxid, txid ≠ txidNull := by
  simpa [releaseLockAble, head, share] using kept

theorem otherHolder_iff :
    otherHolder lock txid = true ↔
      ∃ holder ∈ lock.lstTxid, holder ≠ txidNull ∧ holder ≠ txid := by
  simp [otherHolder]

/-- For anything but a `READ_SHARE` request on a shared lock, what matters is whether the
newest lock names another transaction. -/
theorem compatible_iff_otherHolder (txid : TranID) (action : ActionType)
    (wellLocked : record.WellLocked) (head : record.recLock = some lock)
    (kept : record.releaseLockAble = false)
    (excludes : ¬(action = .readShare ∧ lock.actType = .readShare)) :
    record.Compatible txid action ↔ otherHolder lock txid = false := by
  constructor
  · intro compatible
    rw [← Bool.not_eq_true]
    intro other
    rcases otherHolder_iff.mp other with ⟨holder, mem, active, different⟩
    exact excludes (compatible lock (mem_locks_of_recLock head) holder
      ⟨mem, active, unmarked_of_not_releaseLockAble wellLocked head kept⟩ different)
  · intro alone older mem holder held different
    have occurs := (mem_head_of_mem wellLocked head mem held.1).resolve_right held.2.1
    have other := otherHolder_iff.mpr ⟨holder, occurs, held.2.1, different⟩
    rw [alone] at other
    cases other

theorem compatible_of_share (wellLocked : record.WellLocked) (head : record.recLock = some lock)
    (share : lock.actType = .readShare) : record.Compatible txid .readShare := by
  intro older mem holder _ _
  rw [locks_eq_singleton wellLocked head share, List.mem_singleton] at mem
  subst mem
  exact ⟨rfl, share⟩

variable {action : ActionType}

theorem compatible_of_recLock_eq_none
    (head : record.recLock = none) : record.Compatible txid action := by
  intro older mem
  simp [locks_eq_nil_of_recLock head] at mem

/-!
## Every operation keeps the invariant
-/

/-- A change of a lock that keeps it sound and lets nobody in. -/
structure KeepsHolders (lock lock' : RecordLock) : Prop where
  sound : lock'.Sound
  action : lock'.actType = lock.actType
  holders : ∀ txid ∈ lock'.lstTxid, txid ∈ lock.lstTxid ∨ txid = txidNull
  single : lock.actType ≠ .readShare → lock'.lstTxid = lock.lstTxid

theorem mem_leaveSharers {txid holder : TranID} {ids : List TranID}
    (mem : holder ∈ leaveSharers txid ids) : holder ∈ ids ∨ holder = txidNull := by
  induction ids with
  | nil => cases mem
  | cons id ids ih =>
      simp only [leaveSharers] at mem
      split at mem
      · rcases List.mem_cons.mp mem with null | mem
        · exact Or.inr null
        · exact Or.inl (List.mem_cons_of_mem _ mem)
      · rcases List.mem_cons.mp mem with head | mem
        · exact Or.inl (head ▸ List.mem_cons_self)
        · exact (ih mem).imp_left (List.mem_cons_of_mem _)

variable {stmt : StatementRef} {status : RecordStatus}

theorem keepsHolders_submitLock (sound : lock.Sound) (allowed : submitAllowed lock stmt status) :
    KeepsHolders lock (submitLock stmt status lock) := by
  simp only [submitAllowed, Bool.and_eq_true, Bool.or_eq_true, decide_eq_true_eq] at allowed
  rcases allowed with ⟨-, allowed⟩
  by_cases share : lock.actType = .readShare
  · have lockOnly := sound.shared share
    have freeed : status = .freeed := by
      rcases allowed with ⟨initial, -⟩ | ⟨-, freeed⟩
      · rw [lockOnly] at initial
        cases initial
      · exact freeed
    have changed : submitLock stmt status lock =
        { lock with lstTxid := leaveSharers stmt.txid lock.lstTxid } := by
      simp [submitLock, freeed, share]
    rw [changed]
    refine ⟨⟨sound.action, sound.shared, fun own => absurd share own⟩, rfl, ?_,
      fun own => absurd share own⟩
    intro txid mem
    exact mem_leaveSharers mem
  · have changed :
        submitLock stmt status lock = { lock with stmt := none, recStatus := status } := by
      simp [submitLock, share]
    rw [changed]
    exact ⟨⟨sound.action, fun shared => absurd shared share, sound.single⟩, rfl,
      fun txid mem => Or.inl mem, fun _ => rfl⟩

theorem keepsHolders_storeStatus (status : RecordStatus)
    (sound : lock.Sound) (own : lock.actType ≠ .readShare) :
    KeepsHolders lock { lock with recStatus := status } :=
  ⟨⟨sound.action, fun shared => absurd shared own, sound.single⟩, rfl,
    fun _ mem => Or.inl mem, fun _ => rfl⟩

/-- Changing the lock of any version lets nobody in and keeps the invariant. -/
theorem wellLocked_mapVersion {change : RecordLock → RecordLock}
    {version : ℕ} (wellLocked : record.WellLocked)
    (keeps : ∀ lock ∈ record.locks[version]?, lock.Sound → KeepsHolders lock (change lock)) :
    (record.mapVersion change version).WellLocked ∧
      ∀ lock ∈ (record.mapVersion change version).locks, ∀ txid ∈ lock.lstTxid,
        (∃ older ∈ record.locks, txid ∈ older.lstTxid) ∨ txid = txidNull := by
  induction record generalizing version with
  | unlocked body => cases version <;> simp [mapVersion, mapLock, WellLocked, locks]
  | locked body lock =>
      cases version with
      | zero =>
          have kept := keeps lock (by simp [locks]) wellLocked
          refine ⟨kept.sound, ?_⟩
          intro newLock mem txid occurs
          simp only [mapVersion, mapLock, locks, List.mem_singleton] at mem
          subst mem
          exact (kept.holders txid occurs).imp_left fun mem => ⟨lock, by simp [locks], mem⟩
      | succ version =>
          refine ⟨wellLocked, ?_⟩
          intro newLock mem txid occurs
          exact Or.inl ⟨newLock, mem, occurs⟩
  | versioned body lock undoRec ih =>
      rcases wellLocked with ⟨sound, notShare, behind, older⟩
      cases version with
      | zero =>
          have kept := keeps lock (by simp [locks]) sound
          have listEq := kept.single notShare
          refine ⟨⟨kept.sound, kept.action ▸ notShare, by rw [listEq]; exact behind, older⟩, ?_⟩
          intro newLock mem txid occurs
          simp only [mapVersion, mapLock, locks, List.mem_cons] at mem
          rcases mem with rfl | mem
          · rw [listEq] at occurs
            exact Or.inl ⟨lock, by simp [locks], occurs⟩
          · exact Or.inl ⟨newLock, by simp [locks, mem], occurs⟩
      | succ version =>
          rcases ih older (by simpa [locks] using keeps) with ⟨olderLocked, olderHolders⟩
          refine ⟨⟨sound, notShare, ?_, olderLocked⟩, ?_⟩
          · intro newLock mem txid occurs
            rcases olderHolders newLock mem txid occurs with ⟨origin, originMem,
              originOccurs⟩ | null
            · exact behind origin originMem txid originOccurs
            · exact Or.inr null
          · intro newLock mem txid occurs
            simp only [mapVersion, locks, List.mem_cons] at mem
            rcases mem with rfl | mem
            · exact Or.inl ⟨newLock, by simp [locks], occurs⟩
            · rcases olderHolders newLock mem txid occurs with ⟨origin, originMem,
                originOccurs⟩ | null
              · exact Or.inl ⟨origin, by simp [locks, originMem], originOccurs⟩
              · exact Or.inr null

@[simp]
theorem locks_withBody (record : LeafRecord) (body : RecordBody) :
    (record.withBody body).locks = record.locks := by
  cases record <;> rfl

theorem wellLocked_withBody (body : RecordBody)
    (wellLocked : record.WellLocked) : (record.withBody body).WellLocked := by
  cases record with
  | unlocked own => trivial
  | locked own lock => exact wellLocked
  | versioned own lock undoRec => exact wellLocked

theorem wellLocked_releaseInto {target : RecordBody} {out : Released}
    (wellLocked : record.WellLocked) (released : releaseInto target record = some out) :
    out.record.WellLocked := by
  induction record generalizing target out with
  | unlocked body => cases released
  | locked body lock =>
      simp only [releaseInto] at released
      split at released
      · cases released
        trivial
      · split at released <;> cases released <;> trivial
  | versioned body lock undoRec ih =>
      rcases wellLocked with ⟨-, -, -, older⟩
      simp only [releaseInto] at released
      split at released
      · cases released
        trivial
      · split at released
        · split at released
          · cases released
            exact wellLocked_withBody _ older
          · split at released
            · cases released
              exact wellLocked_withBody _ older
            · rcases Option.map_eq_some_iff.mp released with ⟨inner, innerEq, rfl⟩
              have innerLocked : inner.record.WellLocked := ih older innerEq
              exact innerLocked
        · cases released
          trivial

theorem sound_new {addr : ℕ} {gapLock : Bool}
    {result : RecordResult} (isAction : action ≠ .noAction)
    (shared : action = .readShare → status = .lockOnly) (active : stmt.txid ≠ txidNull) :
    (RecordLock.new addr action status gapLock result stmt).Sound :=
  ⟨isAction, shared, fun _ => ⟨stmt.txid, active, rfl⟩⟩

theorem heldBy_new {addr : ℕ} {gapLock : Bool}
    {result : RecordResult} (stmt : StatementRef) (active : stmt.txid ≠ txidNull)
    (unmarked : status.isMarked = false) :
    (RecordLock.new addr action status gapLock result stmt).HeldBy stmt.txid :=
  ⟨by simp [RecordLock.new], active, unmarked⟩

theorem lockAble_cases {action : RowAction}
    (able : record.lockAble txid action.toActionType = true) :
    record.recLock = none ∨ ∃ lock, record.recLock = some lock ∧ lock.lstTxid = [txid] := by
  cases head : record.recLock with
  | none => exact Or.inl rfl
  | some lock =>
      refine Or.inr ⟨lock, rfl, ?_⟩
      have notShare : action.toActionType ≠ .readShare := by cases action <;> decide
      simpa [lockAble, head, notShare] using able

theorem wellLocked_applyRequest (format : IndexFormat)
    {request : UpdateRequest} (wellLocked : record.WellLocked) (active : txid ≠ txidNull)
    (able : record.lockAble txid request.action.toActionType = true) :
    (applyRequest format txid record request).WellLocked := by
  have isAction : request.action.toActionType ≠ .noAction := by
    cases request.action <;> decide
  have notShare : request.action.toActionType ≠ .readShare := by
    cases request.action <;> decide
  refine ⟨sound_new isAction (fun share => absurd share notShare) active, notShare, ?_,
    wellLocked⟩
  intro older mem holder occurs
  rcases lockAble_cases able with head | ⟨lock, head, listEq⟩
  · simp [locks_eq_nil_of_recLock head] at mem
  · have inHead := mem_head_of_mem wellLocked head mem occurs
    rw [listEq] at inHead
    exact inHead

/-!
## What a request is answered
-/

@[simp]
theorem actType_dropLeftSharers (lock : RecordLock) (txid : TranID) :
    (dropLeftSharers lock txid).actType = lock.actType := by
  unfold dropLeftSharers
  split <;> rfl

@[simp]
theorem recStatus_dropLeftSharers (lock : RecordLock) (txid : TranID) :
    (dropLeftSharers lock txid).recStatus = lock.recStatus := by
  unfold dropLeftSharers
  split <;> rfl

theorem mem_of_not_otherHolder (wellLocked : record.WellLocked) (head : record.recLock = some lock)
    (kept : record.releaseLockAble = false) (alone : otherHolder lock txid = false) :
    txid ∈ lock.lstTxid := by
  have someone : ∃ holder ∈ lock.lstTxid, holder ≠ txidNull := by
    by_cases share : lock.actType = .readShare
    · exact exists_sharer head share kept
    · rcases (sound_of_recLock wellLocked head).single share with ⟨owner, active, listEq⟩
      exact ⟨owner, by simp [listEq], active⟩
  rcases someone with ⟨holder, mem, active⟩
  by_cases same : holder = txid
  · exact same ▸ mem
  · rw [otherHolder_iff.mpr ⟨holder, mem, active, same⟩] at alone
    cases alone

/-- A write action on a record that no other transaction holds leaves the requester as the
only transaction of the newest lock. -/
theorem lstTxid_dropLeftSharers (wellLocked : record.WellLocked) (head : record.recLock = some lock)
    (kept : record.releaseLockAble = false) (alone : otherHolder lock txid = false) :
    (dropLeftSharers lock txid).lstTxid = [txid] := by
  have mem := mem_of_not_otherHolder wellLocked head kept alone
  unfold dropLeftSharers
  split
  · rfl
  · match listEq : lock.lstTxid with
    | [] => simp [listEq] at mem
    | [only] =>
        rw [listEq, List.mem_singleton] at mem
        rw [← mem]
    | first :: second :: rest => simp_all

theorem keepsSound_dropLeftSharers (sound : lock.Sound)
    (active : txid ≠ txidNull) (listEq : (dropLeftSharers lock txid).lstTxid = [txid]) :
    (dropLeftSharers lock txid).Sound := by
  refine ⟨by simpa using sound.action, ?_, fun _ => ⟨txid, active, listEq⟩⟩
  intro share
  simpa using sound.shared (by simpa using share)

theorem wellLocked_mapLock {change : RecordLock → RecordLock} (wellLocked : record.WellLocked)
    (sound : ∀ lock ∈ record.recLock, (change lock).Sound)
    (notShare : ∀ lock ∈ record.recLock, lock.actType ≠ .readShare →
      (change lock).actType ≠ .readShare)
    (keeps : ∀ lock ∈ record.recLock, lock.actType ≠ .readShare → ∀ txid ∈ lock.lstTxid,
      txid ∈ (change lock).lstTxid) :
    (record.mapLock change).WellLocked := by
  cases record with
  | unlocked body => trivial
  | locked body lock => exact sound lock rfl
  | versioned body lock undoRec =>
      rcases wellLocked with ⟨-, own, behind, older⟩
      refine ⟨sound lock rfl, notShare lock rfl own, ?_, older⟩
      intro olderLock mem txid occurs
      exact (behind olderLock mem txid occurs).imp_left (keeps lock rfl own txid)

theorem readTarget_spec {atype : ActionType}
    (wellLocked : record.WellLocked) (kept : record.releaseLockAble = false)
    (active : stmt.txid ≠ txidNull) (isAction : atype ≠ .noAction) :
    record.readTarget stmt atype = .error .locked ∧ ¬record.Compatible stmt.txid atype ∨
      ∃ ready, record.readTarget stmt atype = .ok (ready, ready) ∧
        record.Compatible stmt.txid atype ∧ ready.WellLocked ∧ ready.body = record.body ∧
        ∀ lock ∈ ready.recLock, lock.recStatus.isMarked = false ∧
          (lock.lstTxid = [stmt.txid] ∨ atype = .readShare ∧ lock.actType = .readShare) := by
  cases head : record.recLock with
  | none =>
      refine Or.inr ⟨record, by simp [readTarget, head],
        compatible_of_recLock_eq_none head, wellLocked, rfl, ?_⟩
      intro lock mem
      rw [head] at mem
      cases mem
  | some lock =>
      have sound := sound_of_recLock wellLocked head
      have unmarked := unmarked_of_not_releaseLockAble wellLocked head kept
      by_cases writes : atype.isWriteLock = true
      · have notShare : atype ≠ .readShare := ((ActionType.isWriteLock_iff _).mp writes).2
        have compatibleIff := compatible_iff_otherHolder stmt.txid atype wellLocked head
          kept (fun both => notShare both.1)
        cases alone : otherHolder lock stmt.txid with
        | true =>
            refine Or.inl ⟨by simp [readTarget, head, writes, alone], ?_⟩
            intro compatible
            rw [compatibleIff.mp compatible] at alone
            cases alone
        | false =>
            have listEq := lstTxid_dropLeftSharers wellLocked head kept alone
            refine Or.inr ⟨record.mapLock fun lock => dropLeftSharers lock stmt.txid,
              by simp [readTarget, head, writes, alone], compatibleIff.mpr alone, ?_,
              body_mapLock _ _, ?_⟩
            · refine wellLocked_mapLock wellLocked ?_ ?_ ?_
              · intro own mem
                cases head.symm.trans mem
                exact keepsSound_dropLeftSharers sound active listEq
              · intro own _ notShared
                simpa using notShared
              · intro own mem notShared txid occurs
                cases head.symm.trans mem
                rcases sound.single notShared with ⟨owner, -, ownerEq⟩
                unfold dropLeftSharers
                rw [if_neg (by simp [ownerEq])]
                exact occurs
            · intro own mem
              rw [recLock_mapLock, head] at mem
              cases mem
              exact ⟨by simpa using unmarked, Or.inl listEq⟩
      · have share : atype = .readShare := by
          by_contra notShare
          exact writes ((ActionType.isWriteLock_iff _).mpr ⟨isAction, notShare⟩)
        subst share
        by_cases shared : lock.actType = .readShare
        · refine Or.inr ⟨record, by simp [readTarget, head, shared, writes],
            compatible_of_share wellLocked head shared, wellLocked, rfl, ?_⟩
          intro own mem
          cases head.symm.trans mem
          exact ⟨unmarked, Or.inr ⟨rfl, shared⟩⟩
        · rcases sound.single shared with ⟨owner, ownerActive, listEq⟩
          have compatibleIff := compatible_iff_otherHolder stmt.txid .readShare wellLocked head
            kept (fun both => shared both.2)
          by_cases ownLock : owner = stmt.txid
          · subst ownLock
            refine Or.inr ⟨record, by simp [readTarget, head, shared, writes, listEq],
              compatibleIff.mpr (by simp [otherHolder, listEq]), wellLocked, rfl, ?_⟩
            intro own mem
            cases head.symm.trans mem
            exact ⟨unmarked, Or.inl listEq⟩
          · refine Or.inl ⟨by simp [readTarget, head, shared, writes, listEq, ownLock], ?_⟩
            intro compatible
            have alone := compatibleIff.mp compatible
            have other : otherHolder lock stmt.txid = true :=
              otherHolder_iff.mpr ⟨owner, by simp [listEq], ownerActive, ownLock⟩
            rw [alone] at other
            cases other

section JoinLock

variable {lock : RecordLock} {stmt : StatementRef} {atype : ActionType} {bGapLock : Bool}

theorem mem_joinLock : stmt.txid ∈ (joinLock stmt atype bGapLock lock).lstTxid := by
  unfold joinLock
  by_cases mem : stmt.txid ∈ lock.lstTxid <;> simp [mem]

theorem mem_joinLock_of_mem {txid : TranID} (occurs : txid ∈ lock.lstTxid) :
    txid ∈ (joinLock stmt atype bGapLock lock).lstTxid := by
  by_cases mem : stmt.txid ∈ lock.lstTxid <;> simp [joinLock, mem, occurs]

theorem actType_joinLock (stmt : StatementRef) (atype : ActionType) (bGapLock : Bool)
    (own : lock.actType ≠ .readShare) :
    (joinLock stmt atype bGapLock lock).actType = lock.actType := by
  simp [joinLock, own]

theorem sound_joinLock (sound : lock.Sound) (active : stmt.txid ≠ txidNull)
    (lists : lock.lstTxid = [stmt.txid] ∨ atype = .readShare ∧ lock.actType = .readShare) :
    (joinLock stmt atype bGapLock lock).Sound := by
  by_cases shared : lock.actType = .readShare
  · refine ⟨by by_cases upgrade : atype = .readUpdate <;> simp [joinLock, upgrade, shared],
      fun _ => sound.shared shared, ?_⟩
    intro own
    rcases lists with listEq | ⟨share, -⟩
    · exact ⟨stmt.txid, active, by simp [joinLock, listEq]⟩
    · simp [joinLock, share, shared] at own
  · have listEq : lock.lstTxid = [stmt.txid] :=
      lists.resolve_right fun both => shared both.2
    have actEq := actType_joinLock stmt atype bGapLock shared
    refine ⟨actEq ▸ sound.action, fun share => absurd (actEq.symm.trans share) shared, ?_⟩
    intro _
    exact ⟨stmt.txid, active, by simp [joinLock, listEq]⟩

theorem strength_le_joinLock (sound : lock.Sound) (reads : atype.isReadLock = true) :
    atype.strength ≤ (joinLock stmt atype bGapLock lock).actType.strength := by
  rcases (ActionType.isReadLock_iff atype).mp reads with rfl | rfl
  · cases actEq : lock.actType <;> simp [joinLock, actEq, ActionType.strength]
    exact sound.action actEq
  · cases actEq : lock.actType <;> simp [joinLock, actEq, ActionType.strength]
    exact sound.action actEq

end JoinLock

theorem addReadLock_spec {atype : ActionType}
    (bGapLock : Bool) (lockAddr : ℕ) (wellLocked : record.WellLocked)
    (active : stmt.txid ≠ txidNull) (reads : atype.isReadLock = true)
    (ready : ∀ lock ∈ record.recLock, lock.recStatus.isMarked = false ∧
      (lock.lstTxid = [stmt.txid] ∨ atype = .readShare ∧ lock.actType = .readShare)) :
    (record.addReadLock stmt atype bGapLock lockAddr).1.WellLocked ∧
      (record.addReadLock stmt atype bGapLock lockAddr).1.Recorded stmt.txid atype := by
  cases head : record.recLock with
  | none =>
      have isAction : atype ≠ .noAction := by
        rintro rfl
        cases reads
      simp only [addReadLock, head]
      exact ⟨sound_new isAction (fun _ => rfl) active,
        _, List.mem_singleton_self _, heldBy_new stmt active rfl, le_rfl⟩
  | some lock =>
      rcases ready lock head with ⟨unmarked, lists⟩
      have sound := sound_of_recLock wellLocked head
      simp only [addReadLock, head]
      constructor
      · refine wellLocked_mapLock wellLocked ?_ ?_ ?_
        · intro own mem
          cases head.symm.trans mem
          exact sound_joinLock sound active lists
        · intro own _ notShared
          rw [actType_joinLock _ _ _ notShared]
          exact notShared
        · intro own _ _ txid occurs
          exact mem_joinLock_of_mem occurs
      · refine ⟨joinLock stmt atype bGapLock lock, mem_locks_of_recLock (by simp [head]),
          ⟨mem_joinLock, active, unmarked⟩, strength_le_joinLock sound reads⟩

variable {format : IndexFormat}

/-- The answer of `ReadListValue` to a lock request, and what it leaves behind. -/
theorem readListValue_decided {mapPos : List (ℕ × ℕ)} {atype : ActionType} {bGapLock : Bool}
    {lockAddr : ℕ} {outcome : ReadOutcome} (wellLocked : record.WellLocked)
    (kept : record.releaseLockAble = false) (active : stmt.txid ≠ txidNull)
    (isAction : atype ≠ .noAction)
    (answer : record.readListValue format mapPos stmt atype bGapLock lockAddr = some outcome) :
    outcome.record.WellLocked ∧
      (outcome.result = .locked ↔ ¬record.Compatible stmt.txid atype) ∧
      (outcome.result = .okLock ∨ outcome.result = .okNolock ↔
        record.Compatible stmt.txid atype ∧ record.isDelete = false) ∧
      (outcome.result = .okLock ∨ outcome.result = .okNolock →
        if atype.isReadLock then outcome.record.Recorded stmt.txid atype
        else outcome.record.lockAble stmt.txid atype = true) := by
  rcases readTarget_spec wellLocked kept active isAction with
    ⟨target, incompatible⟩ | ⟨ready, target, compatible, readyLocked, bodyEq, lists⟩
  · simp only [readListValue, target, Option.some.injEq] at answer
    subst answer
    exact ⟨wellLocked, by simp [incompatible], by simp [incompatible], by simp⟩
  · have deleteEq : ready.isDelete = record.isDelete := by simp [isDelete, bodyEq]
    simp only [readListValue, target] at answer
    cases deleted : record.isDelete with
    | true =>
        simp only [deleteEq, deleted, if_true, Option.some.injEq] at answer
        subst answer
        exact ⟨readyLocked, by simp [compatible], by simp, by simp⟩
    | false =>
        simp only [deleteEq, deleted, Bool.false_eq_true, if_false] at answer
        rcases Option.map_eq_some_iff.mp answer with ⟨values, -, rfl⟩
        cases reads : atype.isReadLock with
        | true =>
            rcases addReadLock_spec bGapLock lockAddr readyLocked active reads lists with
              ⟨lockedAfter, recorded⟩
            simp only [if_true]
            refine ⟨lockedAfter, ?_, ?_, fun _ => recorded⟩
            · split <;> simp [compatible]
            · split <;> simp [compatible]
        | false =>
            have notShare : atype ≠ .readShare := by
              rintro rfl
              cases reads
            simp only [Bool.false_eq_true, if_false]
            refine ⟨readyLocked, by simp [compatible], by simp [compatible], ?_⟩
            intro _
            cases head : ready.recLock with
            | none => simp [lockAble, head]
            | some lock =>
                rcases (lists lock head).2 with listEq | ⟨share, -⟩
                · simp [lockAble, head, listEq]
                · exact absurd share notShare

/-- The answer of `SecondaryReadLock`, when the upgrade of a sole sharer is left out. -/
theorem secondaryReadLock_decided
    {actType : ActionType} (lockAddr : ℕ) (wellLocked : record.WellLocked)
    (kept : record.releaseLockAble = false) (active : stmt.txid ≠ txidNull)
    (reads : actType.isReadLock = true)
    (safe : record.SafeRequest (.secondaryReadLock stmt actType lockAddr)) :
    (record.secondaryReadLock stmt actType lockAddr).2.WellLocked ∧
      ((record.secondaryReadLock stmt actType lockAddr).1 = .conflict ↔
        ¬record.Compatible stmt.txid actType) ∧
      ((record.secondaryReadLock stmt actType lockAddr).1 ≠ .conflict →
        (record.secondaryReadLock stmt actType lockAddr).2.Recorded stmt.txid actType) := by
  cases head : record.recLock with
  | none =>
      have isAction : actType ≠ .noAction := by
        rintro rfl
        cases reads
      have compatible : record.Compatible stmt.txid actType :=
        compatible_of_recLock_eq_none head
      simp only [secondaryReadLock, head]
      exact ⟨sound_new isAction (fun _ => rfl) active, by simp [compatible],
        fun _ => ⟨_, List.mem_singleton_self _, heldBy_new stmt active rfl, le_rfl⟩⟩
  | some lock =>
      have sound := sound_of_recLock wellLocked head
      have unmarked := unmarked_of_not_releaseLockAble wellLocked head kept
      have mem := mem_locks_of_recLock head
      by_cases share : actType = .readShare ∧ lock.actType = .readShare
      · rcases share with ⟨rfl, shared⟩
        have compatible : record.Compatible stmt.txid .readShare :=
          compatible_of_share wellLocked head shared
        by_cases already : stmt.txid ∈ lock.lstTxid
        · have answer : record.secondaryReadLock stmt .readShare lockAddr = (.nolock, record) := by
            simp [secondaryReadLock, head, shared, already]
          rw [answer]
          exact ⟨wellLocked, by simp [compatible],
            fun _ => ⟨lock, mem, ⟨already, active, unmarked⟩, by simp [shared]⟩⟩
        · have answer : record.secondaryReadLock stmt .readShare lockAddr =
              (.locked, record.mapLock fun lock =>
                { lock with lstTxid := lock.lstTxid ++ [stmt.txid] }) := by
            simp [secondaryReadLock, head, shared, already]
          rw [answer]
          refine ⟨?_, by simp [compatible], ?_⟩
          · refine wellLocked_mapLock wellLocked ?_ (fun _ _ own => own) ?_
            · intro own ownMem
              cases head.symm.trans ownMem
              exact ⟨sound.action, sound.shared, fun own => absurd shared own⟩
            · intro own _ _ txid occurs
              exact List.mem_append_left _ occurs
          · intro _
            exact ⟨{ lock with lstTxid := lock.lstTxid ++ [stmt.txid] },
              mem_locks_of_recLock (by simp [head]), ⟨by simp, active, unmarked⟩, by simp [shared]⟩
      · have compatibleIff := compatible_iff_otherHolder stmt.txid actType wellLocked
          head kept share
        by_cases sole : lock.lstTxid = [stmt.txid]
        · have alone : otherHolder lock stmt.txid = false := by simp [otherHolder, sole]
          have own : lock.actType ≠ .readShare := by
            intro shared
            have update : actType = .readUpdate :=
              ((ActionType.isReadLock_iff _).mp reads).resolve_left fun read => share ⟨read, shared⟩
            have other := safe update lock head shared
            rw [alone] at other
            cases other
          have answer : record.secondaryReadLock stmt actType lockAddr = (.nolock, record) := by
            simp [secondaryReadLock, head, own, sole]
          rw [answer]
          refine ⟨wellLocked, by simp [compatibleIff.mpr alone], fun _ => ⟨lock, mem,
            ⟨by simp [sole], active, unmarked⟩, ?_⟩⟩
          have strong : 2 ≤ lock.actType.strength := by
            cases actEq : lock.actType <;> simp_all [ActionType.strength]
            exact sound.action actEq
          refine le_trans ?_ strong
          rcases (ActionType.isReadLock_iff _).mp reads with rfl | rfl <;> decide
        · have answer : record.secondaryReadLock stmt actType lockAddr = (.conflict, record) := by
            simp [secondaryReadLock, head, share, sole]
          rw [answer]
          refine ⟨wellLocked, ?_, by simp⟩
          have other : otherHolder lock stmt.txid = true := by
            by_cases shared : lock.actType = .readShare
            · have update : actType = .readUpdate :=
                ((ActionType.isReadLock_iff _).mp reads).resolve_left fun read =>
                  share ⟨read, shared⟩
              exact safe update lock head shared
            · rcases sound.single shared with ⟨owner, ownerActive, listEq⟩
              refine otherHolder_iff.mpr ⟨owner, by simp [listEq], ownerActive, ?_⟩
              rintro rfl
              exact sole listEq
          simp [compatibleIff, other]

theorem applyRequest_decided (format : IndexFormat)
    {request : UpdateRequest} (wellLocked : record.WellLocked) (active : txid ≠ txidNull)
    (able : record.lockAble txid request.action.toActionType = true) :
    record.Compatible txid request.action.toActionType ∧
      (applyRequest format txid record request).Recorded txid request.action.toActionType := by
  constructor
  · rcases lockAble_cases able with head | ⟨lock, head, listEq⟩
    · exact compatible_of_recLock_eq_none head
    · intro older mem holder held different
      have occurs := (mem_head_of_mem wellLocked head mem held.1).resolve_right held.2.1
      rw [listEq, List.mem_singleton] at occurs
      exact absurd occurs different
  · refine ⟨_, List.mem_cons_self, heldBy_new ⟨request.stmtId, txid⟩ active rfl, le_rfl⟩

theorem wellLocked_of_fresh (fresh : Fresh record) :
    record.WellLocked := by
  cases fresh with
  | unlocked body => trivial
  | locked body addr action gapLock result stmt writes active =>
      rcases (ActionType.isUpdateable_iff _).mp writes with ⟨isAction, notShare, -⟩
      exact sound_new isAction (fun share => absurd share notShare) active

theorem record_readListValue_noAction {mapPos : List (ℕ × ℕ)} {bGapLock : Bool} {lockAddr : ℕ}
    {outcome : ReadOutcome}
    (answer : record.readListValue format mapPos stmt .noAction bGapLock lockAddr = some outcome) :
    outcome.record = record := by
  have target : ∀ ready version, record.readTarget stmt .noAction = .ok (ready, version) →
      ready = record := by
    intro ready version targetEq
    have notWrite : ActionType.noAction.isWriteLock = false := by decide
    cases head : record.recLock with
    | none =>
        simp only [readTarget, head, Except.ok.injEq, Prod.mk.injEq] at targetEq
        exact targetEq.1.symm
    | some lock =>
        simp only [readTarget, head, notWrite] at targetEq
        by_cases updateable : lock.actType.isUpdateable = true
        · cases visible : record.visibleUndo <;> simp_all
        · simp_all
  cases targetEq : record.readTarget stmt .noAction with
  | error result =>
      simp only [readListValue, targetEq, Option.some.injEq] at answer
      rw [← answer]
  | ok pair =>
      rcases pair with ⟨ready, version⟩
      have readyEq := target ready version targetEq
      have notRead : ActionType.noAction.isReadLock = false := by decide
      simp only [readListValue, targetEq, notRead, Bool.false_eq_true, if_false] at answer
      split at answer
      · cases answer
        exact readyEq
      · rcases Option.map_eq_some_iff.mp answer with ⟨values, -, rfl⟩
        exact readyEq

/-- One operation on a record: it keeps the invariant and answers as it should. -/
theorem respond_spec {record record' : LeafRecord} {event : LockEvent}
    {response : LockResponse} (wellLocked : record.WellLocked) (safe : record.SafeRequest event)
    (answer : record.respond format event = some (response, record')) :
    record'.WellLocked ∧ Decided record event response record' := by
  cases event with
  | readListValue mapPos stmt atype bGapLock lockAddr =>
      rcases Option.ite_none_left_eq_some.mp answer with ⟨allowed, answer⟩
      rw [not_or, Bool.not_eq_true] at allowed
      rcases Option.map_eq_some_iff.mp answer with ⟨outcome, outcomeEq, pairEq⟩
      cases pairEq
      by_cases plain : atype = .noAction
      · subst plain
        rw [record_readListValue_noAction outcomeEq]
        exact ⟨wellLocked, fun isAction => absurd rfl isAction⟩
      · rcases readListValue_decided wellLocked allowed.1 allowed.2 plain outcomeEq with
          ⟨lockedAfter, denied, granted, recorded⟩
        refine ⟨lockedAfter, fun _ => ?_⟩
        simpa using And.intro denied (And.intro granted recorded)
  | secondaryReadLock stmt actType lockAddr =>
      simp only [respond] at answer
      rcases Option.ite_none_left_eq_some.mp answer with ⟨allowed, answer⟩
      rw [not_or, not_or, Bool.not_eq_true, Bool.not_eq_false] at allowed
      cases answer
      rcases secondaryReadLock_decided lockAddr wellLocked allowed.1 allowed.2.1 allowed.2.2
        safe with ⟨lockedAfter, denied, recorded⟩
      refine ⟨lockedAfter, ?_⟩
      simpa [Decided] using And.intro denied recorded
  | updateRecord txid request =>
      rcases Option.ite_none_right_eq_some.mp answer with ⟨allowed, ⟨⟩⟩
      exact ⟨wellLocked_applyRequest format wellLocked allowed.2 allowed.1,
        applyRequest_decided format wellLocked allowed.2 allowed.1⟩
  | submitStatement version stmt status =>
      simp only [respond] at answer
      split at answer
      · cases answer
      · next lock found =>
          rcases Option.ite_none_right_eq_some.mp answer with ⟨allowed, ⟨⟩⟩
          refine ⟨(wellLocked_mapVersion wellLocked ?_).1, trivial⟩
          intro own mem sound
          cases found.symm.trans mem
          exact keepsHolders_submitLock sound allowed
  | storeStatus version status =>
      rcases Option.ite_none_right_eq_some.mp answer with ⟨-, ⟨⟩⟩
      refine ⟨(wellLocked_mapVersion wellLocked ?_).1, trivial⟩
      intro own mem sound
      exact keepsHolders_storeStatus status sound (safe own mem)
  | releaseLock =>
      rcases Option.ite_none_right_eq_some.mp answer with ⟨-, answer⟩
      rcases Option.map_eq_some_iff.mp answer with ⟨out, released, pairEq⟩
      cases pairEq
      exact ⟨wellLocked_releaseInto wellLocked released, trivial⟩

theorem wellLocked_of_run {start record : LeafRecord}
    (fresh : Fresh start) (run : Reaches (lockStep format) SafeRequest start record) :
    record.WellLocked := by
  refine run.preserves (wellLocked_of_fresh fresh) ?_
  intro state event state' safe wellLocked step
  rcases Option.map_eq_some_iff.mp step with ⟨⟨response, after⟩, answer, rfl⟩
  exact (respond_spec wellLocked safe answer).1

/-- Locks are compatible in every run: no transaction shares a record that another has for
itself, and every request is granted exactly when the other holders allow it and recorded. -/
theorem lock_compatibility {format : IndexFormat} {start record : LeafRecord}
    (fresh : Fresh start) (run : Reaches (lockStep format) SafeRequest start record) :
    record.Exclusive ∧
      ∀ event response record', record.SafeRequest event →
        record.respond format event = some (response, record') →
        Decided record event response record' := by
  have wellLocked := wellLocked_of_run fresh run
  refine ⟨exclusive_of_wellLocked wellLocked, ?_⟩
  intro event response record' safe answer
  exact (respond_spec wellLocked safe answer).2

/-- An entry of a secondary index, key `5` of the row `1`, without a lock. -/
def sampleEntry : LeafRecord :=
  newSecondary { sampleFormat with indexType := .nonUnique } [sampleValue 5] [1] .insert 1 none
    ⟨1, 2, 3, crc32⟩

/-- The entry shared by transaction `1`, and by transactions `1` and `2`. -/
def sharedEntry (sharers : List TranID) : LeafRecord :=
  locked sampleEntry.body
    { addr := 20, actType := .readShare, recStatus := .lockOnly, bGapLock := false
      recResult := .inPage, stmt := none, lstTxid := sharers }

theorem lock_compatibility_shared :
    (sharedEntry [1, 2]).Exclusive ∧
      ∀ event response record', (sharedEntry [1, 2]).SafeRequest event →
        (sharedEntry [1, 2]).respond sampleFormat event = some (response, record') →
        Decided (sharedEntry [1, 2]) event response record' := by
  have first : Reaches (lockStep sampleFormat) SafeRequest sampleEntry (sharedEntry [1]) :=
    (Reaches.refl sampleEntry).tail (.secondaryReadLock ⟨1, 1⟩ .readShare 20)
      (fun update => nomatch update) (by decide +kernel)
  exact lock_compatibility (.unlocked sampleEntry.body)
    (first.tail (.secondaryReadLock ⟨2, 2⟩ .readShare 21)
      (fun update => nomatch update) (by decide +kernel))

/-- A transaction that shares an entry asks for `READ_UPDATE` and is told that it needs no
lock, but only its share is recorded. -/
theorem not_lock_compatibility :
    ¬∀ start record, Fresh start → Reaches (lockStep sampleFormat) anyInput start record →
      record.Exclusive ∧
        ∀ event response record', record.respond sampleFormat event = some (response, record') →
          Decided record event response record' := by
  intro compatible
  have run : Reaches (lockStep sampleFormat) anyInput sampleEntry (sharedEntry [1]) :=
    reaches_of_exec [.secondaryReadLock ⟨1, 1⟩ .readShare 20] (by decide +kernel)
  have decided := (compatible _ _ (.unlocked sampleEntry.body) run).2
    (.secondaryReadLock ⟨2, 1⟩ .readUpdate 21) (.secLock .nolock) (sharedEntry [1])
    (by decide +kernel)
  rcases decided.2 (by decide) with ⟨lock, mem, -, strong⟩
  simp only [sharedEntry, locks, List.mem_singleton] at mem
  subst mem
  exact absurd strong (by decide)

end LeafRecord

end RapidDb
