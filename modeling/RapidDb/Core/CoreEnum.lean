import Mathlib.Algebra.Group.Int.Defs
import Mathlib.Algebra.GroupWithZero.Nat
import Mathlib.Data.Nat.Notation

/-!
# Enumerations and identifiers of the storage core

`ActionType` is an unscoped C++ enumeration whose values are used as bit sets;
`ActionType.bits` gives the value and `ActionType.hasAny` the test against a mask.
-/

namespace RapidDb

/-- The identifier of a page inside one index file. -/
abbrev PageID := ℕ

abbrev TranID := ℕ

/-- `PAGE_NULL_POINTER`, the largest 32-bit value. -/
def pageNullPointer : PageID := 2 ^ 32 - 1

/-- `TXID_NULL`, the largest 64-bit value; it marks a sharer that has left a lock. -/
def txidNull : TranID := 2 ^ 64 - 1

inductive IndexType where
  | unknown
  | primary
  | hidePrimary
  | unique
  | nonUnique
deriving DecidableEq, Repr

inductive PageStatus where
  | empty
  | reading
  | readed
  | writing
  | valid
  | obsolete
  | invalid
deriving DecidableEq, Repr

inductive ActionType where
  | noAction
  | readShare
  | readUpdate
  | insert
  | update
  | delete
  | upsert
deriving DecidableEq, Repr

namespace ActionType

/-- The value of an action, one bit for each kind. -/
def bits : ActionType → ℕ
  | noAction => 0x0
  | readShare => 0x1
  | readUpdate => 0x2
  | insert => 0x10
  | update => 0x20
  | delete => 0x40
  | upsert => 0x80

/-- The mask of `READ_SHARE` and `READ_UPDATE`. -/
def readLockMask : ℕ := 0x3

/-- The mask of the actions that need a write lock, `READ_UPDATE` among them. -/
def writeLockMask : ℕ := 0xF2

/-- The mask of the actions that change a record. -/
def updateableMask : ℕ := 0xF0

/-- Whether an action has a bit of the mask. -/
def hasAny (action : ActionType) (mask : ℕ) : Bool :=
  action.bits &&& mask != 0

/-- Whether an action is one of the two read locks. -/
def isReadLock (action : ActionType) : Bool :=
  action.hasAny readLockMask

/-- Whether an action needs the record for itself. -/
def isWriteLock (action : ActionType) : Bool :=
  action.hasAny writeLockMask

/-- Whether an action changes the record. -/
def isUpdateable (action : ActionType) : Bool :=
  action.hasAny updateableMask

theorem isReadLock_iff (action : ActionType) :
    action.isReadLock = true ↔ action = readShare ∨ action = readUpdate := by
  cases action <;> decide

theorem isWriteLock_iff (action : ActionType) :
    action.isWriteLock = true ↔ action ≠ noAction ∧ action ≠ readShare := by
  cases action <;> decide

theorem isUpdateable_iff (action : ActionType) :
    action.isUpdateable = true ↔
      action ≠ noAction ∧ action ≠ readShare ∧ action ≠ readUpdate := by
  cases action <;> decide

end ActionType

inductive RecordStatus where
  | init
  | lockOnly
  | commited
  | rollbacked
  | freeed
deriving DecidableEq, Repr

namespace RecordStatus

/-- The value of a status, in the order of the enumeration. -/
def toNat : RecordStatus → ℕ
  | init => 0
  | lockOnly => 1
  | commited => 2
  | rollbacked => 3
  | freeed => 4

/-- The test `status >= RecordStatus::COMMITED`. -/
def isMarked (status : RecordStatus) : Bool :=
  decide (commited.toNat ≤ status.toNat)

end RecordStatus

inductive RecordResult where
  | init
  | inPage
  | error
deriving DecidableEq, Repr

/-- The result of reading the values of a record. -/
inductive ReadResult where
  | okNolock
  | okLock
  | locked
  | recDelete
  | invalidVersion
deriving DecidableEq, Repr

/-- The result of releasing the lock of a record. -/
inductive ReleaseResult where
  | finished
  | deleted
  | unfinish
deriving DecidableEq, Repr

/-- The result of locking a record of a secondary index. -/
inductive SecLockResult where
  | locked
  | nolock
  | conflict
deriving DecidableEq, Repr

end RapidDb
