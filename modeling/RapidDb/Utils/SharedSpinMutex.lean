import RapidDb.Library.Transition
import Mathlib.Algebra.Order.BigOperators.Group.Finset
import Mathlib.Data.Fintype.Basic

/-!
# Shared spin mutexes

`SharedSpinMutex` and `ReentrantSharedSpinMutex` keep the number of readers and a mark of the writer
in two atomic variables. Any number of threads take their atomic operations in any order. The second
class takes a thread that finds its own id in `_owner` for the writer, and an id has only 32 bits of
what the system gives as the thread.
-/

namespace RapidDb

universe u

namespace SpinMutex

open Transition

inductive MutexClass where
  | shared
  | reentrant
deriving DecidableEq, Repr

/-- The next atomic operation of a thread. -/
inductive Pc where
  | idle
  | lockFirst
  | lockExchange
  | lockWait
  | lockOwner
  | tryFirst
  | tryLoad
  | tryExchange
  | tryCheck
  | tryUndo
  | tryOwner
  | unlockCount
  | unlockOwner
  | unlockFlag
  | sharedAdd
  | sharedCheck
  | sharedUndo
  | trySharedLoad
  | trySharedAdd
  | trySharedCheck
  | trySharedUndo
  | unlockShared
deriving DecidableEq, Repr

inductive Call where
  | lock
  | tryLock
  | unlock
  | lockShared
  | tryLockShared
  | unlockShared
deriving DecidableEq, Repr

structure Lock where
  readCount : ℤ
  writeFlag : Bool
  owner : ℕ
  reenCount : ℤ
deriving DecidableEq, Repr

/-- A thread with the locks that it holds, those that it held at its last call, and what the last
try has returned. -/
structure Thread where
  pc : Pc
  reads : ℕ
  writes : ℕ
  called : ℕ × ℕ
  answer : Option Bool
deriving DecidableEq, Repr

/-- A counter of type `int32_t`. -/
def toInt32 (count : ℤ) : ℤ := Int.bmod count (2 ^ 32)

theorem toInt32_of_mem {count : ℤ} (lower : -2 ^ 31 ≤ count) (upper : count < 2 ^ 31) :
    toInt32 count = count := by
  unfold toInt32
  rw [Int.bmod_eq_iff (by decide)]
  omega

/-- `get_thread_id`: `atoi` leaves 32 bits of the number that the system has for the thread. -/
def getThreadId (handle : ℕ) : ℕ := handle % 2 ^ 32

namespace Lock

def initial : Lock where
  readCount := 0
  writeFlag := false
  owner := 0
  reenCount := 0

/-- `fetch_add` and `fetch_sub` of the number of readers. -/
def addReader (lock : Lock) : Lock := { lock with readCount := toInt32 (lock.readCount + 1) }

def subReader (lock : Lock) : Lock := { lock with readCount := toInt32 (lock.readCount - 1) }

def setFlag (writeFlag : Bool) (lock : Lock) : Lock := { lock with writeFlag }

def again (lock : Lock) : Lock := { lock with reenCount := toInt32 (lock.reenCount + 1) }

/-- The end of `lock` and `try_lock`. -/
def own (mutex : MutexClass) (id : ℕ) (lock : Lock) : Lock :=
  match mutex with
  | .shared => { lock with owner := id }
  | .reentrant => { lock with owner := id, reenCount := 1 }

end Lock

namespace Thread

def initial : Thread where
  pc := .idle
  reads := 0
  writes := 0
  called := (0, 0)
  answer := none

def goto (pc : Pc) (thread : Thread) : Thread := { thread with pc }

/-- The end of a call that returns nothing, or the answer of a try. -/
def finish (answer : Option Bool) (thread : Thread) : Thread := { thread with pc := .idle, answer }

def gain (thread : Thread) : Thread := { thread with writes := thread.writes + 1 }

def gainShared (thread : Thread) : Thread := { thread with reads := thread.reads + 1 }

def lose (thread : Thread) : Thread := { thread with writes := thread.writes - 1 }

def loseShared (thread : Thread) : Thread := { thread with reads := thread.reads - 1 }

/-- A thread that does nothing else makes a call. -/
def start (pc : Pc) (thread : Thread) : Option Thread :=
  if thread.pc = .idle then
    some { thread with pc, called := (thread.reads, thread.writes), answer := none }
  else none

/-- A call. A thread unlocks only what it has locked. -/
def call (mutex : MutexClass) (thread : Thread) : Call → Option Thread
  | .lock => thread.start (match mutex with | .shared => .lockExchange | .reentrant => .lockFirst)
  | .tryLock => thread.start (match mutex with | .shared => .tryLoad | .reentrant => .tryFirst)
  | .unlock =>
      if 0 < thread.writes then
        thread.start (match mutex with | .shared => .unlockOwner | .reentrant => .unlockCount)
      else none
  | .lockShared => thread.start .sharedAdd
  | .tryLockShared => thread.start .trySharedLoad
  | .unlockShared => if 0 < thread.reads then thread.start .unlockShared else none

/-- The next atomic operation of a thread in a call. -/
def advance (mutex : MutexClass) (id : ℕ) (lock : Lock) (thread : Thread) :
    Option (Lock × Thread) :=
  match thread.pc with
  | .idle => none
  | .lockFirst =>
      if lock.owner = id then some (lock.again, thread.gain.finish none)
      else some (lock, thread.goto .lockExchange)
  | .lockExchange =>
      if lock.writeFlag then some (lock, thread)
      else some (lock.setFlag true, thread.goto .lockWait)
  | .lockWait =>
      if lock.readCount > 0 then some (lock, thread) else some (lock, thread.goto .lockOwner)
  | .lockOwner => some (lock.own mutex id, thread.gain.finish none)
  | .tryFirst =>
      if lock.owner = id then some (lock.again, thread.gain.finish (some true))
      else some (lock, thread.goto .tryLoad)
  | .tryLoad =>
      if lock.readCount = 0 then some (lock, thread.goto .tryExchange)
      else some (lock, thread.finish (some false))
  | .tryExchange =>
      if lock.writeFlag then some (lock, thread.finish (some false))
      else some (lock.setFlag true, thread.goto .tryCheck)
  | .tryCheck =>
      if lock.readCount > 0 then some (lock, thread.goto .tryUndo)
      else some (lock, thread.goto .tryOwner)
  | .tryUndo => some (lock.setFlag false, thread.finish (some false))
  | .tryOwner => some (lock.own mutex id, thread.gain.finish (some true))
  | .unlockCount =>
      let reenCount := toInt32 (lock.reenCount - 1)
      if reenCount = 0 then some ({ lock with reenCount }, thread.goto .unlockOwner)
      else some ({ lock with reenCount }, thread.lose.finish none)
  | .unlockOwner => some ({ lock with owner := 0 }, thread.goto .unlockFlag)
  | .unlockFlag => some (lock.setFlag false, thread.lose.finish none)
  | .sharedAdd => some (lock.addReader, thread.goto .sharedCheck)
  | .sharedCheck =>
      if lock.writeFlag then some (lock, thread.goto .sharedUndo)
      else some (lock, thread.gainShared.finish none)
  | .sharedUndo => some (lock.subReader, thread.goto .sharedAdd)
  | .trySharedLoad =>
      if lock.writeFlag then some (lock, thread.finish (some false))
      else some (lock, thread.goto .trySharedAdd)
  | .trySharedAdd => some (lock.addReader, thread.goto .trySharedCheck)
  | .trySharedCheck =>
      if lock.writeFlag then some (lock, thread.goto .trySharedUndo)
      else some (lock, thread.gainShared.finish (some true))
  | .trySharedUndo => some (lock.subReader, thread.finish (some false))
  | .unlockShared => some (lock.subReader, thread.loseShared.finish none)

end Thread

/-- What is asserted before the operation of a thread. -/
def Lock.Asserts (id : ℕ) (lock : Lock) : Pc → Prop
  | .lockFirst | .tryFirst => lock.owner = id → 0 < lock.reenCount
  | .lockOwner | .tryOwner => lock.reenCount = 0 ∧ lock.owner = 0
  | .unlockCount | .unlockOwner => lock.owner = id
  | .unlockShared => lock.owner = 0
  | _ => True

structure MutexState (T : Type u) where
  lock : Lock
  threads : T → Thread

/-- A thread makes a call, or its next atomic operation. -/
inductive Action where
  | call (call : Call)
  | advance
deriving DecidableEq, Repr

variable {T : Type u} [DecidableEq T]

namespace MutexState

def initial : MutexState T where
  lock := .initial
  threads _ := .initial

def put (state : MutexState T) (t : T) (lock : Lock) (thread : Thread) : MutexState T where
  lock
  threads := Function.update state.threads t thread

def next (mutex : MutexClass) (handle : T → ℕ) (state : MutexState T) :
    T × Action → Option (MutexState T)
  | (t, .call call) =>
      ((state.threads t).call mutex call).map fun thread => state.put t state.lock thread
  | (t, .advance) =>
      ((state.threads t).advance mutex (getThreadId (handle t)) state.lock).map
        fun (lock, thread) => state.put t lock thread

end MutexState

/-! ### What the threads have to do with the lock -/

/-- What a thread has done to the lock at its place in a call. -/
inductive Role where
  | outside
  | counted
  | claiming
  | admitted
  | leaving
  | left
deriving DecidableEq, Repr

namespace Pc

def role : Pc → Role
  | .sharedCheck | .sharedUndo | .trySharedCheck | .trySharedUndo => .counted
  | .lockWait | .tryCheck | .tryUndo => .claiming
  | .lockOwner | .tryOwner => .admitted
  | .unlockOwner => .leaving
  | .unlockFlag => .left
  | _ => .outside

@[simp]
theorem role_idle : Pc.idle.role = .outside := rfl

def trying : Pc → Bool
  | .tryFirst | .tryLoad | .tryExchange | .tryCheck | .tryUndo | .tryOwner | .trySharedLoad
  | .trySharedAdd | .trySharedCheck | .trySharedUndo => true
  | _ => false

/-- The thread compares `_owner` or changes `_reenCount`. -/
def reenters (pc : Pc) : Prop := pc = .lockFirst ∨ pc = .tryFirst ∨ pc = .unlockCount

instance (pc : Pc) : Decidable pc.reenters :=
  inferInstanceAs (Decidable (pc = .lockFirst ∨ pc = .tryFirst ∨ pc = .unlockCount))

end Pc

namespace Thread

/-- How often the thread is counted as a reader. -/
def shares (thread : Thread) : ℕ := thread.reads + if thread.pc.role = .counted then 1 else 0

/-- The mark of the writer is that of the thread. -/
def Flagged (thread : Thread) : Prop :=
  (thread.pc.role = .claiming ∨ thread.pc.role = .admitted) ∨ 0 < thread.writes

/-- The thread has seen that there are no readers. -/
def Admitted (thread : Thread) : Prop := thread.pc.role = .admitted ∨ 0 < thread.writes

/-- What is in `_owner` while the mark is that of the thread. -/
def ownerOf (id : ℕ) (thread : Thread) : ℕ :=
  if 0 < thread.writes ∧ thread.pc.role ≠ .left then id else 0

/-- What is in `_reenCount` while the mark is that of the thread. -/
def recursion (mutex : MutexClass) (thread : Thread) : ℕ :=
  match mutex with
  | .shared => 0
  | .reentrant =>
      if thread.pc.role = .leaving ∨ thread.pc.role = .left then 0 else thread.writes

/-- The locks that a thread holds at its place in a call. A try that has failed leaves them. -/
structure WellPlaced (mutex : MutexClass) (thread : Thread) : Prop where
  one : mutex = .shared → thread.writes ≤ 1
  claims : thread.pc.role = .claiming ∨ thread.pc.role = .admitted → thread.writes = 0
  last : thread.pc.role = .leaving ∨ thread.pc.role = .left → thread.writes = 1
  first : thread.pc.reenters → mutex = .reentrant
  unlocks : thread.pc = .unlockCount → 0 < thread.writes
  unlocksShared : thread.pc = .unlockShared → 0 < thread.reads
  tries : thread.pc.trying ∨ thread.answer = some false →
    (thread.reads, thread.writes) = thread.called

end Thread

namespace MutexState

variable [Fintype T]

/-- The lock is what the threads have made of it, and no two of them are in each other's way. -/
structure Sound (mutex : MutexClass) (handle : T → ℕ) (state : MutexState T) : Prop where
  count : state.lock.readCount = (∑ t, (state.threads t).shares : ℕ)
  few : state.lock.readCount < 2 ^ 31
  depth : state.lock.reenCount < 2 ^ 31
  flag : state.lock.writeFlag = true ↔ ∃ t, (state.threads t).Flagged
  one : ∀ t t', (state.threads t).Flagged → (state.threads t').Flagged → t = t'
  alone : ∀ t t', (state.threads t).Admitted → (state.threads t').reads = 0
  held : ∀ t, (state.threads t).Flagged →
    state.lock.owner = (state.threads t).ownerOf (getThreadId (handle t)) ∧
      state.lock.reenCount = (state.threads t).recursion mutex
  free : state.lock.writeFlag = false → state.lock.owner = 0 ∧ state.lock.reenCount = 0
  placed : ∀ t, (state.threads t).WellPlaced mutex

end MutexState

namespace Thread

theorem Admitted.flagged {thread : Thread} (admitted : thread.Admitted) : thread.Flagged := by
  rcases admitted with role | writes
  · exact Or.inl (Or.inr role)
  · exact Or.inr writes

/-- How a step changes the lock together with its thread. -/
structure Change (mutex : MutexClass) (id : ℕ) (lock lock' : Lock) (old new : Thread) : Prop where
  count : lock'.readCount = lock.readCount - old.shares + new.shares
  few : lock'.readCount < 2 ^ 31
  depth : lock'.reenCount < 2 ^ 31
  flag : (lock'.writeFlag = lock.writeFlag ∧ (new.Flagged ↔ old.Flagged)) ∨
    (lock.writeFlag = false ∧ lock'.writeFlag = true ∧ new.Flagged) ∨
      (old.Flagged ∧ ¬new.Flagged ∧ lock'.writeFlag = false)
  admitted : new.Admitted → old.Admitted ∨ lock.readCount ≤ 0
  reads : new.reads ≤ old.reads ∨ lock.writeFlag = false ∧ ¬new.Admitted
  held : new.Flagged → lock'.owner = new.ownerOf id ∧ lock'.reenCount = new.recursion mutex
  free : lock'.writeFlag = false → lock'.owner = 0 ∧ lock'.reenCount = 0
  same : ¬old.Flagged → ¬new.Flagged →
    lock'.owner = lock.owner ∧ lock'.reenCount = lock.reenCount
  placed : new.WellPlaced mutex

end Thread

namespace MutexState

variable [Fintype T] {mutex : MutexClass} {handle : T → ℕ} {state : MutexState T}

theorem sum_put (threads : T → Thread) (t : T) (new : Thread) :
    (∑ t', (Function.update threads t new t').shares) + (threads t).shares =
      (∑ t', (threads t').shares) + new.shares := by
  have others : ∑ t' ∈ Finset.univ.erase t, (Function.update threads t new t').shares =
      ∑ t' ∈ Finset.univ.erase t, (threads t').shares := by
    apply Finset.sum_congr rfl
    intro t' mem
    rw [Function.update_of_ne (Finset.ne_of_mem_erase mem)]
  rw [← Finset.add_sum_erase Finset.univ _ (Finset.mem_univ t), others,
    ← Finset.add_sum_erase Finset.univ (fun t' => (threads t').shares) (Finset.mem_univ t),
    Function.update_self]
  omega

omit [DecidableEq T] in
theorem Sound.reads_eq_zero (sound : state.Sound mutex handle) (none : state.lock.readCount ≤ 0)
    (t : T) : (state.threads t).reads = 0 := by
  have le : (state.threads t).shares ≤ ∑ t', (state.threads t').shares :=
    Finset.single_le_sum (f := fun t' => (state.threads t').shares)
      (fun _ _ => Nat.zero_le _) (Finset.mem_univ t)
  have count := sound.count
  have reads : (state.threads t).reads ≤ (state.threads t).shares := Nat.le_add_right _ _
  omega

theorem Sound.change (sound : state.Sound mutex handle) {t : T} {lock' : Lock} {new : Thread}
    (change : (state.threads t).Change mutex (getThreadId (handle t)) state.lock lock' new) :
    (state.put t lock' new).Sound mutex handle := by
  have other {t' : T} (ne : t' ≠ t) : (state.put t lock' new).threads t' = state.threads t' :=
    Function.update_of_ne ne _ _
  have self : (state.put t lock' new).threads t = new := Function.update_self _ _ _
  -- Where the thread has the mark, no other one has it before or after the step.
  have only {t' : T} (ne : t' ≠ t) (flagged : (state.threads t').Flagged) :
      ¬(state.threads t).Flagged ∧ ¬new.Flagged ∧ lock'.writeFlag = state.lock.writeFlag := by
    have notOld : ¬(state.threads t).Flagged := fun old => ne (sound.one t' t flagged old)
    have isSet := sound.flag.mpr ⟨t', flagged⟩
    rcases change.flag with ⟨sameFlag, iff⟩ | ⟨isFalse, -, -⟩ | ⟨old, -, -⟩
    · exact ⟨notOld, fun new => notOld (iff.mp new), sameFlag⟩
    · rw [isSet] at isFalse
      cases isFalse
    · exact absurd old notOld
  refine ⟨?_, change.few, change.depth, ?_, ?_, ?_, ?_, change.free, ?_⟩
  · have sum := sum_put state.threads t new
    have count := sound.count
    have counted := change.count
    simp only [put]
    omega
  · constructor
    · intro isSet
      change lock'.writeFlag = true at isSet
      rcases change.flag with ⟨sameFlag, iff⟩ | ⟨-, -, isNew⟩ | ⟨-, -, isFalse⟩
      · rcases sound.flag.mp (sameFlag ▸ isSet) with ⟨t', flagged⟩
        by_cases eq : t' = t
        · subst eq
          refine ⟨t', ?_⟩
          rw [self]
          exact iff.mpr flagged
        · exact ⟨t', other eq ▸ flagged⟩
      · refine ⟨t, ?_⟩
        rw [self]
        exact isNew
      · rw [isSet] at isFalse
        cases isFalse
    · rintro ⟨t', flagged⟩
      change lock'.writeFlag = true
      by_cases eq : t' = t
      · subst eq
        rw [self] at flagged
        rcases change.flag with ⟨sameFlag, iff⟩ | ⟨-, isSet, -⟩ | ⟨-, notNew, -⟩
        · rw [sameFlag]
          exact sound.flag.mpr ⟨t', iff.mp flagged⟩
        · exact isSet
        · exact absurd flagged notNew
      · rw [other eq] at flagged
        rw [(only eq flagged).2.2]
        exact sound.flag.mpr ⟨t', flagged⟩
  · intro t₁ t₂ flagged₁ flagged₂
    by_cases eq₁ : t₁ = t
    · subst eq₁
      by_contra ne
      rw [other (Ne.symm ne)] at flagged₂
      exact (only (Ne.symm ne) flagged₂).2.1 (self ▸ flagged₁)
    · rw [other eq₁] at flagged₁
      by_cases eq₂ : t₂ = t
      · subst eq₂
        exact absurd (self ▸ flagged₂) (only eq₁ flagged₁).2.1
      · exact sound.one t₁ t₂ flagged₁ (other eq₂ ▸ flagged₂)
  · intro t₁ t₂ admitted
    by_cases eq₁ : t₁ = t
    · subst eq₁
      rw [self] at admitted
      have noReads (t' : T) : (state.threads t').reads = 0 := by
        rcases change.admitted admitted with old | none
        · exact sound.alone t₁ t' old
        · exact sound.reads_eq_zero none t'
      by_cases eq₂ : t₂ = t₁
      · subst eq₂
        rw [self]
        rcases change.reads with le | ⟨-, notNew⟩
        · have zero := noReads t₂
          omega
        · exact absurd admitted notNew
      · rw [other eq₂]
        exact noReads t₂
    · rw [other eq₁] at admitted
      by_cases eq₂ : t₂ = t
      · subst eq₂
        rw [self]
        rcases change.reads with le | ⟨isFalse, -⟩
        · have zero := sound.alone t₁ t₂ admitted
          omega
        · rw [sound.flag.mpr ⟨t₁, admitted.flagged⟩] at isFalse
          cases isFalse
      · rw [other eq₂]
        exact sound.alone t₁ t₂ admitted
  · intro t' flagged
    by_cases eq : t' = t
    · subst eq
      rw [self] at flagged ⊢
      exact change.held flagged
    · rw [other eq] at flagged ⊢
      have same := change.same (only eq flagged).1 (only eq flagged).2.1
      have held := sound.held t' flagged
      exact ⟨same.1.trans held.1, same.2.trans held.2⟩
  · intro t'
    by_cases eq : t' = t
    · subst eq
      rw [self]
      exact change.placed
    · exact other eq ▸ sound.placed t'

/-- A thread that takes itself for the owner is the one, and no counter comes to its end. -/
def Permitted (handle : T → ℕ) (state : MutexState T) : T × Action → Prop
  | (_, .call _) => True
  | (t, .advance) =>
      ((state.threads t).pc = .lockFirst ∨ (state.threads t).pc = .tryFirst →
        state.lock.owner = getThreadId (handle t) →
          0 < (state.threads t).writes ∧ state.lock.reenCount ≠ 2 ^ 31 - 1) ∧
      ((state.threads t).pc = .sharedAdd ∨ (state.threads t).pc = .trySharedAdd →
        state.lock.readCount ≠ 2 ^ 31 - 1)

instance (handle : T → ℕ) (state : MutexState T) : DecidablePred (state.Permitted handle)
  | (_, .call _) => inferInstanceAs (Decidable True)
  | (_, .advance) => inferInstanceAs (Decidable (_ ∧ _))

end MutexState

namespace Thread

structure Knows (mutex : MutexClass) (id : ℕ) (lock : Lock) (thread : Thread) : Prop where
  counted : (thread.shares : ℤ) ≤ lock.readCount
  few : lock.readCount < 2 ^ 31
  depth : lock.reenCount < 2 ^ 31
  flag : thread.Flagged → lock.writeFlag = true
  held : thread.Flagged → lock.owner = thread.ownerOf id ∧ lock.reenCount = thread.recursion mutex
  free : lock.writeFlag = false → lock.owner = 0 ∧ lock.reenCount = 0
  placed : thread.WellPlaced mutex

variable {mutex : MutexClass} {id : ℕ} {lock lock' : Lock} {old new : Thread}

/-! ### The kinds of steps -/

namespace WellPlaced

theorem goto (placed : old.WellPlaced mutex) {pc : Pc}
    (claims : pc.role = .claiming ∨ pc.role = .admitted → old.writes = 0)
    (last : pc.role = .leaving ∨ pc.role = .left → old.writes = 1)
    (inside : ¬pc.reenters ∧ pc ≠ .unlockShared) (trying : pc.trying → old.pc.trying) :
    (old.goto pc).WellPlaced mutex where
  one := placed.one
  claims := claims
  last := last
  first reenters := absurd reenters inside.1
  unlocks isPc := absurd (Or.inr (Or.inr isPc)) inside.1
  unlocksShared isPc := absurd isPc inside.2
  tries tries := placed.tries (tries.imp_left trying)

theorem finish (thread : Thread) {answer : Option Bool}
    (one : mutex = .shared → thread.writes ≤ 1)
    (tries : answer = some false → (thread.reads, thread.writes) = thread.called) :
    (thread.finish answer).WellPlaced mutex where
  one := one
  claims role := by simp [Thread.finish, Pc.role] at role
  last role := by simp [Thread.finish, Pc.role] at role
  first reenters := by simp [Thread.finish, Pc.reenters] at reenters
  unlocks isPc := by cases isPc
  unlocksShared isPc := by cases isPc
  tries failed := by
    rcases failed with trying | failed
    · cases trying
    · exact tries failed

end WellPlaced

namespace Change

section

variable (knows : old.Knows mutex id lock)

include knows

theorem stay (role : new.pc.role = old.pc.role) (reads : new.reads = old.reads)
    (writes : new.writes = old.writes) (placed : new.WellPlaced mutex) :
    old.Change mutex id lock lock new where
  count := by simp [shares, role, reads]
  few := knows.few
  depth := knows.depth
  flag := Or.inl ⟨rfl, by simp [Flagged, role, writes]⟩
  admitted := by
    simp only [Admitted, role, writes]
    exact Or.inl
  reads := Or.inl reads.le
  held := by
    simpa [Flagged, ownerOf, recursion, role, writes] using knows.held
  free := knows.free
  same _ _ := ⟨rfl, rfl⟩
  placed := placed

theorem pass {pc : Pc} (role : pc.role = old.pc.role) (inside : ¬pc.reenters ∧ pc ≠ .unlockShared)
    (trying : pc.trying → old.pc.trying) : old.Change mutex id lock lock (old.goto pc) :=
  stay knows role rfl rfl (knows.placed.goto (role ▸ knows.placed.claims)
    (role ▸ knows.placed.last) inside trying)

theorem refuse (outside : old.pc.role = .outside) (trying : old.pc.trying) :
    old.Change mutex id lock lock (old.finish (some false)) :=
  stay knows outside.symm rfl rfl
    (WellPlaced.finish old knows.placed.one fun _ => knows.placed.tries (Or.inl trying))

theorem claim (isFree : lock.writeFlag = false) {pc : Pc} (outside : old.pc.role = .outside)
    (role : pc.role = .claiming) (trying : pc.trying → old.pc.trying) :
    old.Change mutex id lock (lock.setFlag true) (old.goto pc) := by
  have notFlagged : ¬old.Flagged := by
    intro flagged
    rw [knows.flag flagged] at isFree
    cases isFree
  have writes : old.writes = 0 := by
    by_contra positive
    exact notFlagged (Or.inr (Nat.pos_of_ne_zero positive))
  have isClaim : (old.goto pc).Flagged := Or.inl (Or.inl role)
  refine ⟨?_, knows.few, knows.depth, Or.inr (Or.inl ⟨isFree, rfl, isClaim⟩), ?_, Or.inl le_rfl,
    ?_, ?_, ?_, ?_⟩
  · simp [Lock.setFlag, shares, goto, role, outside]
  · simp [Admitted, goto, role, writes]
  · intro _
    have free := knows.free isFree
    cases mutex <;> simp [Lock.setFlag, ownerOf, recursion, goto, writes, free]
  · intro notSet
    cases notSet
  · intro _ notNew
    exact absurd isClaim notNew
  · refine knows.placed.goto (fun _ => writes) ?_ ?_ trying
    · simp [role]
    · constructor
      · rintro (isPc | isPc | isPc) <;> simp [isPc, Pc.role] at role
      · intro isPc
        simp [isPc, Pc.role] at role

theorem enter (none : lock.readCount ≤ 0) {pc : Pc} (claiming : old.pc.role = .claiming)
    (role : pc.role = .admitted) (trying : pc.trying → old.pc.trying) :
    old.Change mutex id lock lock (old.goto pc) := by
  have writes : old.writes = 0 := knows.placed.claims (Or.inl claiming)
  have flagged : old.Flagged := Or.inl (Or.inl claiming)
  have isNew : (old.goto pc).Flagged := Or.inl (Or.inr role)
  refine ⟨?_, knows.few, knows.depth, Or.inl ⟨rfl, iff_of_true isNew flagged⟩, fun _ => Or.inr none,
    Or.inl le_rfl, ?_, knows.free, fun _ _ => ⟨rfl, rfl⟩, ?_⟩
  · simp [shares, goto, role, claiming]
  · intro _
    have held := knows.held flagged
    cases mutex <;> simpa [ownerOf, recursion, goto, role, writes, claiming] using held
  · refine knows.placed.goto (fun _ => writes) ?_ ?_ trying
    · simp [role]
    · constructor
      · rintro (isPc | isPc | isPc) <;> simp [isPc, Pc.role] at role
      · intro isPc
        simp [isPc, Pc.role] at role

theorem own (admitted : old.pc.role = .admitted) (answer : Option Bool)
    (returns : answer ≠ some false) :
    old.Change mutex id lock (lock.own mutex id) (old.gain.finish answer) := by
  have writes : old.writes = 0 := knows.placed.claims (Or.inr admitted)
  have flagged : old.Flagged := Or.inl (Or.inr admitted)
  have isNew : (old.gain.finish answer).Flagged := Or.inr (Nat.succ_pos _)
  have set := knows.flag flagged
  have held := knows.held flagged
  have sameFlag : (lock.own mutex id).writeFlag = lock.writeFlag := by cases mutex <;> rfl
  have sameCount : (lock.own mutex id).readCount = lock.readCount := by cases mutex <;> rfl
  refine ⟨?_, sameCount ▸ knows.few, ?_, Or.inl ⟨sameFlag, iff_of_true isNew flagged⟩,
    fun _ => Or.inl (Or.inl admitted), Or.inl le_rfl, ?_, ?_, ?_, ?_⟩
  · simp [sameCount, shares, gain, finish, admitted]
  · cases mutex with
    | shared => exact knows.depth
    | reentrant => simp [Lock.own]
  · intro _
    cases mutex <;> simp [Lock.own, ownerOf, recursion, gain, finish, writes] at held ⊢
    exact held.2
  · intro notSet
    rw [sameFlag, set] at notSet
    cases notSet
  · intro notOld
    exact absurd flagged notOld
  · refine WellPlaced.finish old.gain ?_ fun failed => absurd failed returns
    intro _
    simp [gain, writes]

theorem recount {readCount : ℤ} (count : readCount = lock.readCount - old.shares + new.shares)
    (few : readCount < 2 ^ 31) (role : old.pc.role = .outside ∨ old.pc.role = .counted)
    (role' : new.pc.role = .outside ∨ new.pc.role = .counted) (writes : new.writes = old.writes)
    (reads : new.reads ≤ old.reads ∨ lock.writeFlag = false) (placed : new.WellPlaced mutex) :
    old.Change mutex id lock { lock with readCount } new := by
  have flagged : new.Flagged ↔ old.Flagged := by
    rcases role with role | role <;> rcases role' with role' | role' <;>
      simp [Flagged, role, role', writes]
  have admitted : new.Admitted → old.Admitted := by
    rcases role' with role' | role' <;> simp [Admitted, role', writes] <;> exact Or.inr
  refine ⟨count, few, knows.depth, Or.inl ⟨rfl, flagged⟩, fun isNew => Or.inl (admitted isNew), ?_,
    ?_, knows.free, fun _ _ => ⟨rfl, rfl⟩, placed⟩
  · refine reads.imp_right fun isFalse => ⟨isFalse, ?_⟩
    intro isNew
    have set := knows.flag (admitted isNew).flagged
    rw [isFalse] at set
    cases set
  · intro isNew
    have held := knows.held (flagged.mp isNew)
    rcases role with role | role <;> rcases role' with role' | role' <;>
      simpa [ownerOf, recursion, role, role', writes] using held

theorem unclaim (flagged : old.Flagged) (reads : new.reads = old.reads)
    (outside : new.pc.role = .outside) (writes : new.writes = 0)
    (notCounted : old.pc.role ≠ .counted) (nothing : old.ownerOf id = 0 ∧ old.recursion mutex = 0)
    (placed : new.WellPlaced mutex) : old.Change mutex id lock (lock.setFlag false) new := by
  have notNew : ¬new.Flagged := by simp [Flagged, outside, writes]
  have held := knows.held flagged
  refine ⟨?_, knows.few, knows.depth, Or.inr (Or.inr ⟨flagged, notNew, rfl⟩), ?_,
    Or.inl reads.le, ?_, ?_, ?_, placed⟩
  · simp [Lock.setFlag, shares, outside, notCounted, reads]
  · intro isNew
    exact absurd isNew.flagged notNew
  · intro isNew
    exact absurd isNew notNew
  · intro _
    simpa [Lock.setFlag, nothing] using held
  · intro notOld
    exact absurd flagged notOld

theorem disown (writes : 0 < old.writes)
    (notCounted : old.pc.role ≠ .counted ∧ new.pc.role ≠ .counted) (reads : new.reads = old.reads)
    (writes' : 0 < new.writes) {owner : ℕ} {reenCount : ℤ}
    (held : owner = new.ownerOf id ∧ reenCount = new.recursion mutex) (depth : reenCount < 2 ^ 31)
    (placed : new.WellPlaced mutex) :
    old.Change mutex id lock { lock with owner, reenCount } new := by
  have flagged : old.Flagged := Or.inr writes
  have set := knows.flag flagged
  refine ⟨?_, knows.few, depth, Or.inl ⟨rfl, iff_of_true (Or.inr writes') flagged⟩,
    fun _ => Or.inl (Or.inr writes), Or.inl reads.le, fun _ => held, ?_, ?_, placed⟩
  · simp [shares, notCounted, reads]
  · intro notSet
    change lock.writeFlag = false at notSet
    rw [set] at notSet
    cases notSet
  · intro notOld
    exact absurd flagged notOld

end

theorem again (knows : old.Knows .reentrant id lock) (outside : old.pc.role = .outside)
    (isOwner : lock.owner = id) (writes : 0 < old.writes) (room : lock.reenCount ≠ 2 ^ 31 - 1)
    (answer : Option Bool) (returns : answer ≠ some false) :
    old.Change .reentrant id lock lock.again (old.gain.finish answer) := by
  have flagged : old.Flagged := Or.inr writes
  have isNew : (old.gain.finish answer).Flagged := Or.inr (Nat.succ_pos _)
  have set := knows.flag flagged
  have count : lock.reenCount = old.writes := by
    simpa [recursion, outside] using (knows.held flagged).2
  have depth := knows.depth
  have next : toInt32 (lock.reenCount + 1) = lock.reenCount + 1 :=
    toInt32_of_mem (by omega) (by omega)
  refine ⟨?_, knows.few, ?_, Or.inl ⟨rfl, iff_of_true isNew flagged⟩,
    fun _ => Or.inl (Or.inr writes), Or.inl le_rfl, ?_, ?_, ?_, ?_⟩
  · simp [Lock.again, shares, gain, finish, outside]
  · simp only [Lock.again, next]
    omega
  · intro _
    rw [count] at next
    simp [Lock.again, ownerOf, recursion, gain, finish, isOwner, next, count]
  · intro notSet
    change lock.writeFlag = false at notSet
    rw [set] at notSet
    cases notSet
  · intro notOld
    exact absurd flagged notOld
  · refine WellPlaced.finish old.gain ?_ fun failed => absurd failed returns
    intro isShared
    cases isShared

end Change

/-- Every atomic operation under the condition is a step of one of these kinds. -/
theorem Knows.change (knows : old.Knows mutex id lock)
    (owner : old.pc = .lockFirst ∨ old.pc = .tryFirst → lock.owner = id →
      0 < old.writes ∧ lock.reenCount ≠ 2 ^ 31 - 1)
    (room : old.pc = .sharedAdd ∨ old.pc = .trySharedAdd → lock.readCount ≠ 2 ^ 31 - 1)
    (step : old.advance mutex id lock = some (lock', new)) :
    old.Change mutex id lock lock' new := by
  have placed := knows.placed
  have counted := knows.counted
  have few := knows.few
  have add (less : lock.readCount ≠ 2 ^ 31 - 1) :
      toInt32 (lock.readCount + 1) = lock.readCount + 1 := toInt32_of_mem (by omega) (by omega)
  have sub : toInt32 (lock.readCount - 1) = lock.readCount - 1 :=
    toInt32_of_mem (by omega) (by omega)
  unfold Thread.advance at step
  cases pc : old.pc <;> simp only [pc] at step
  case idle => cases step
  case lockFirst =>
    split at step
    · rename_i isOwner
      cases step
      have isReentrant := placed.first (Or.inl pc)
      subst isReentrant
      rcases owner (Or.inl pc) isOwner with ⟨writes, less⟩
      exact Change.again knows (by simp [pc, Pc.role]) isOwner writes less none (by simp)
    · cases step
      exact Change.pass knows (by simp [pc, Pc.role]) (by decide) (by simp [Pc.trying])
  case lockExchange =>
    split at step
    · cases step
      exact Change.stay knows rfl rfl rfl placed
    · rename_i isFree
      cases step
      exact Change.claim knows (by simpa using isFree) (by simp [pc, Pc.role]) rfl
        (by simp [Pc.trying])
  case lockWait =>
    split at step
    · cases step
      exact Change.stay knows rfl rfl rfl placed
    · rename_i none
      cases step
      exact Change.enter knows (by omega) (by simp [pc, Pc.role]) rfl (by simp [Pc.trying])
  case lockOwner =>
    cases step
    exact Change.own knows (by simp [pc, Pc.role]) none (by simp)
  case tryFirst =>
    split at step
    · rename_i isOwner
      cases step
      have isReentrant := placed.first (Or.inr (Or.inl pc))
      subst isReentrant
      rcases owner (Or.inr pc) isOwner with ⟨writes, less⟩
      exact Change.again knows (by simp [pc, Pc.role]) isOwner writes less _ (by simp)
    · cases step
      exact Change.pass knows (by simp [pc, Pc.role]) (by decide) (by simp [pc, Pc.trying])
  case tryLoad =>
    split at step
    · cases step
      exact Change.pass knows (by simp [pc, Pc.role]) (by decide) (by simp [pc, Pc.trying])
    · cases step
      exact Change.refuse knows (by simp [pc, Pc.role]) (by simp [pc, Pc.trying])
  case tryExchange =>
    split at step
    · cases step
      exact Change.refuse knows (by simp [pc, Pc.role]) (by simp [pc, Pc.trying])
    · rename_i isFree
      cases step
      exact Change.claim knows (by simpa using isFree) (by simp [pc, Pc.role]) rfl
        (by simp [pc, Pc.trying])
  case tryCheck =>
    split at step
    · cases step
      exact Change.pass knows (by simp [pc, Pc.role]) (by decide) (by simp [pc, Pc.trying])
    · rename_i none
      cases step
      exact Change.enter knows (by omega) (by simp [pc, Pc.role]) rfl (by simp [pc, Pc.trying])
  case tryUndo =>
    cases step
    have writes : old.writes = 0 := placed.claims (by simp [pc, Pc.role])
    refine Change.unclaim knows (by simp [Flagged, pc, Pc.role]) rfl rfl writes
      (by simp [pc, Pc.role]) ?_ ?_
    · cases mutex <;> simp [ownerOf, recursion, writes]
    · exact WellPlaced.finish old placed.one fun _ => placed.tries (by simp [pc, Pc.trying])
  case tryOwner =>
    cases step
    exact Change.own knows (by simp [pc, Pc.role]) _ (by simp)
  case unlockCount =>
    have isReentrant := placed.first (Or.inr (Or.inr pc))
    subst isReentrant
    have writes := placed.unlocks pc
    have held := knows.held (Or.inr writes)
    have isOwner : lock.owner = id := by simpa [ownerOf, pc, Pc.role, writes] using held.1
    have count : lock.reenCount = old.writes := by simpa [recursion, pc, Pc.role] using held.2
    have depth := knows.depth
    have less : toInt32 (lock.reenCount - 1) = lock.reenCount - 1 :=
      toInt32_of_mem (by omega) (by omega)
    rw [less] at step
    split at step
    · rename_i isLast
      cases step
      refine Change.disown knows writes ?_ (by rfl) ?_ ?_ (by omega) ?_
      · simp [pc, Thread.goto, Pc.role]
      · exact writes
      · simp [ownerOf, recursion, Thread.goto, Pc.role, writes, isOwner, isLast]
      · exact placed.goto (by simp [Pc.role]) (fun _ => by omega) (by decide) (by simp [Pc.trying])
    · rename_i notLast
      cases step
      refine Change.disown knows writes ?_ (by rfl) ?_ ?_ (by omega) ?_
      · simp [pc, finish, Pc.role]
      · simp only [finish, lose]
        omega
      · simp only [ownerOf, recursion, finish, lose, Pc.role_idle, isOwner, count]
        constructor
        · simp; omega
        · simp; omega
      · exact WellPlaced.finish old.lose (by simp) (by simp)
  case unlockOwner =>
    cases step
    have writes : old.writes = 1 := placed.last (by simp [pc, Pc.role])
    have held := (knows.held (Or.inr (by omega))).2
    refine Change.disown knows (by omega) ?_ (by rfl) ?_ ?_ knows.depth ?_
    · simp [pc, Thread.goto, Pc.role]
    · simp [Thread.goto, writes]
    · cases mutex <;> simpa [ownerOf, recursion, Thread.goto, pc, Pc.role] using held
    · exact placed.goto (by simp [Pc.role]) (fun _ => writes) (by decide) (by simp [Pc.trying])
  case unlockFlag =>
    cases step
    have writes : old.writes = 1 := placed.last (by simp [pc, Pc.role])
    refine Change.unclaim knows (Or.inr (by omega)) rfl rfl (by simp [lose, finish, writes])
      (by simp [pc, Pc.role]) ?_ ?_
    · cases mutex <;> simp [ownerOf, recursion, pc, Pc.role]
    · refine WellPlaced.finish old.lose ?_ (by simp)
      simp [lose, writes]
  case sharedAdd =>
    cases step
    have less := room (Or.inl pc)
    refine Change.recount knows ?_ ?_ (by simp [pc, Pc.role]) (by simp [Thread.goto, Pc.role]) rfl
      (Or.inl le_rfl) ?_
    · rw [add less]
      simp [shares, pc, Thread.goto, Pc.role]
      omega
    · rw [add less]
      omega
    · exact placed.goto (by simp [Pc.role]) (by simp [Pc.role]) (by decide) (by simp [Pc.trying])
  case sharedCheck =>
    split at step
    · cases step
      exact Change.pass knows (by simp [pc, Pc.role]) (by decide) (by simp [Pc.trying])
    · rename_i isFree
      cases step
      refine Change.recount knows ?_ few (by simp [pc, Pc.role]) (by simp [finish]) rfl
        (Or.inr (by simpa using isFree)) (WellPlaced.finish old.gainShared placed.one (by simp))
      simp [shares, pc, finish, gainShared, Pc.role]
  case sharedUndo =>
    cases step
    refine Change.recount knows ?_ ?_ (by simp [pc, Pc.role]) (by simp [Thread.goto, Pc.role]) rfl
      (Or.inl le_rfl) ?_
    · rw [sub]
      simp [shares, pc, Thread.goto, Pc.role]
      omega
    · rw [sub]
      omega
    · exact placed.goto (by simp [Pc.role]) (by simp [Pc.role]) (by decide) (by simp [Pc.trying])
  case trySharedLoad =>
    split at step
    · cases step
      exact Change.refuse knows (by simp [pc, Pc.role]) (by simp [pc, Pc.trying])
    · cases step
      exact Change.pass knows (by simp [pc, Pc.role]) (by decide) (by simp [pc, Pc.trying])
  case trySharedAdd =>
    cases step
    have less := room (Or.inr pc)
    refine Change.recount knows ?_ ?_ (by simp [pc, Pc.role]) (by simp [Thread.goto, Pc.role]) rfl
      (Or.inl le_rfl) ?_
    · rw [add less]
      simp [shares, pc, Thread.goto, Pc.role]
      omega
    · rw [add less]
      omega
    · exact placed.goto (by simp [Pc.role]) (by simp [Pc.role]) (by decide)
        (by simp [pc, Pc.trying])
  case trySharedCheck =>
    split at step
    · cases step
      exact Change.pass knows (by simp [pc, Pc.role]) (by decide) (by simp [pc, Pc.trying])
    · rename_i isFree
      cases step
      refine Change.recount knows ?_ few (by simp [pc, Pc.role]) (by simp [finish]) rfl
        (Or.inr (by simpa using isFree)) (WellPlaced.finish old.gainShared placed.one (by simp))
      simp [shares, pc, finish, gainShared, Pc.role]
  case trySharedUndo =>
    cases step
    refine Change.recount knows ?_ ?_ (by simp [pc, Pc.role]) (by simp [finish]) rfl
      (Or.inl le_rfl) ?_
    · rw [sub]
      simp [shares, pc, finish, Pc.role]
      omega
    · rw [sub]
      omega
    · exact WellPlaced.finish old placed.one fun _ => placed.tries (by simp [pc, Pc.trying])
  case unlockShared =>
    cases step
    have reads := placed.unlocksShared pc
    refine Change.recount knows ?_ ?_ (by simp [pc, Pc.role]) (by simp [finish]) rfl
      (Or.inl (Nat.sub_le _ _)) (WellPlaced.finish old.loseShared placed.one (by simp))
    · rw [sub]
      simp [shares, pc, finish, loseShared, Pc.role]
      omega
    · rw [sub]
      omega

theorem Knows.start (knows : old.Knows mutex id lock) {pc : Pc}
    (role : pc.role = .outside ∨ pc.role = .leaving ∧ mutex = .shared ∧ 0 < old.writes)
    (reenters : pc.reenters → mutex = .reentrant) (unlocks : pc = .unlockCount → 0 < old.writes)
    (unlocksShared : pc = .unlockShared → 0 < old.reads) (started : old.start pc = some new) :
    old.Change mutex id lock lock new := by
  simp only [Thread.start, Option.ite_none_right_eq_some, Option.some.injEq] at started
  rcases started with ⟨idle, rfl⟩
  have outside : old.pc.role = .outside := by simp [idle]
  have placed := knows.placed
  rcases role with role | ⟨role, isShared, writes⟩
  · refine Change.stay knows (role.trans outside.symm) rfl rfl ?_
    exact ⟨placed.one, by simp [role], by simp [role], reenters, unlocks, unlocksShared,
      fun _ => rfl⟩
  · subst isShared
    have one : old.writes = 1 := by
      have le := placed.one rfl
      omega
    have held := knows.held (Or.inr writes)
    refine @Change.disown .shared id lock old
      { old with pc, called := (old.reads, old.writes), answer := none }
      knows writes ?_ rfl writes lock.owner lock.reenCount ?_ knows.depth ?_
    · simp [outside, role]
    · simpa [ownerOf, recursion, outside, role] using held
    · exact ⟨placed.one, by simp [role], fun _ => one, reenters, unlocks, unlocksShared,
        fun _ => rfl⟩

theorem Knows.call (knows : old.Knows mutex id lock) {call : Call}
    (called : old.call mutex call = some new) : old.Change mutex id lock lock new := by
  cases call with
  | lock =>
      cases mutex
      · exact knows.start (Or.inl rfl) (by decide) (by simp) (by simp) called
      · exact knows.start (Or.inl rfl) (by simp) (by simp) (by simp) called
  | tryLock =>
      cases mutex
      · exact knows.start (Or.inl rfl) (by decide) (by simp) (by simp) called
      · exact knows.start (Or.inl rfl) (by simp) (by simp) (by simp) called
  | unlock =>
      simp only [Thread.call, Option.ite_none_right_eq_some] at called
      rcases called with ⟨writes, called⟩
      cases mutex
      · exact knows.start (Or.inr ⟨rfl, rfl, writes⟩) (by decide) (by simp) (by simp) called
      · exact knows.start (Or.inl rfl) (by simp) (fun _ => writes) (by simp) called
  | lockShared => exact knows.start (Or.inl rfl) (by simp [Pc.reenters]) (by simp) (by simp) called
  | tryLockShared =>
      exact knows.start (Or.inl rfl) (by simp [Pc.reenters]) (by simp) (by simp) called
  | unlockShared =>
      simp only [Thread.call, Option.ite_none_right_eq_some] at called
      rcases called with ⟨reads, called⟩
      exact knows.start (Or.inl rfl) (by simp [Pc.reenters]) (by simp) (fun _ => reads) called

end Thread

namespace MutexState

variable [Fintype T] {mutex : MutexClass} {handle : T → ℕ} {state state' : MutexState T}

omit [DecidableEq T] in
theorem Sound.knows (sound : state.Sound mutex handle) (t : T) :
    (state.threads t).Knows mutex (getThreadId (handle t)) state.lock := by
  refine ⟨?_, sound.few, sound.depth, fun flagged => sound.flag.mpr ⟨t, flagged⟩, sound.held t,
    sound.free, sound.placed t⟩
  rw [sound.count]
  exact_mod_cast Finset.single_le_sum (f := fun t' => (state.threads t').shares)
    (fun _ _ => Nat.zero_le _) (Finset.mem_univ t)

theorem sound_next (sound : state.Sound mutex handle) {input : T × Action}
    (permitted : state.Permitted handle input)
      (step : state.next mutex handle input = some state') :
    state'.Sound mutex handle := by
  rcases input with ⟨t, call | _⟩
  · simp only [next, Option.map_eq_some_iff] at step
    rcases step with ⟨new, called, rfl⟩
    exact sound.change ((sound.knows t).call called)
  · simp only [next, Option.map_eq_some_iff] at step
    rcases step with ⟨⟨lock', new⟩, step, rfl⟩
    exact sound.change ((sound.knows t).change permitted.1 permitted.2 step)

omit [DecidableEq T] in
theorem sound_initial : (initial : MutexState T).Sound mutex handle := by
  have notFlagged : ¬Thread.initial.Flagged := by simp [Thread.Flagged, Thread.initial]
  refine ⟨?_, by simp [initial, Lock.initial], by simp [initial, Lock.initial], ?_, ?_, ?_, ?_,
    fun _ => ⟨rfl, rfl⟩, ?_⟩
  · simp [initial, Lock.initial, Thread.initial, Thread.shares]
  · simp [initial, Lock.initial, notFlagged]
  · intro t t' flagged
    exact absurd flagged notFlagged
  · intro t t' _
    rfl
  · intro t flagged
    exact absurd flagged notFlagged
  · intro t
    exact ⟨by simp [initial, Thread.initial], by simp [initial, Thread.initial],
      by simp [initial, Thread.initial], by simp [initial, Thread.initial, Pc.reenters],
      by simp [initial, Thread.initial], by simp [initial, Thread.initial], fun _ => rfl⟩

/-- No thread holds the lock together with another one. The lock is what the threads at their
places have made of it, and a try that has failed leaves its thread where it was. -/
structure Guarded (mutex : MutexClass) (handle : T → ℕ) (state : MutexState T) : Prop where
  writers : ∀ t t', 0 < (state.threads t).writes → 0 < (state.threads t').writes → t = t'
  readers : ∀ t t', 0 < (state.threads t).writes → (state.threads t').reads = 0
  single : mutex = .shared → ∀ t, (state.threads t).writes ≤ 1
  readCount : state.lock.readCount = (∑ t, (state.threads t).shares : ℕ)
  writeFlag : state.lock.writeFlag = true ↔ ∃ t, (state.threads t).Flagged
  owner : ∀ t, (state.threads t).Flagged →
    state.lock.owner = (state.threads t).ownerOf (getThreadId (handle t)) ∧
      state.lock.reenCount = (state.threads t).recursion mutex
  noOwner : (∀ t, ¬(state.threads t).Flagged) → state.lock.owner = 0 ∧ state.lock.reenCount = 0
  failedTry : ∀ t, (state.threads t).pc = .idle → (state.threads t).answer = some false →
    ((state.threads t).reads, (state.threads t).writes) = (state.threads t).called ∧
      (state.threads t).shares = (state.threads t).called.1 ∧
        ((state.threads t).Flagged ↔ 0 < (state.threads t).called.2)

omit [DecidableEq T] in
theorem Sound.guarded (sound : state.Sound mutex handle) : state.Guarded mutex handle := by
  refine ⟨?_, ?_, fun isShared t => (sound.placed t).one isShared, sound.count, sound.flag,
    sound.held, ?_, ?_⟩
  · intro t t' writes writes'
    exact sound.one t t' (Or.inr writes) (Or.inr writes')
  · intro t t' writes
    exact sound.alone t t' (Or.inr writes)
  · intro noOwner
    apply sound.free
    by_contra set
    rcases sound.flag.mp (by simpa using set) with ⟨t, flagged⟩
    exact noOwner t flagged
  · intro t idle failed
    have holds := (sound.placed t).tries (Or.inr failed)
    rw [← holds]
    simp [Thread.shares, Thread.Flagged, idle]

omit [DecidableEq T] in
theorem Sound.asserts (sound : state.Sound mutex handle) {t : T}
    (permitted : state.Permitted handle (t, .advance)) :
    state.lock.Asserts (getThreadId (handle t)) (state.threads t).pc := by
  have placed := sound.placed t
  cases pc : (state.threads t).pc <;> simp only [Lock.Asserts]
  case lockFirst | tryFirst =>
    intro isOwner
    have writes := (permitted.1 (by simp [pc]) isOwner).1
    have isReentrant : mutex = .reentrant := placed.first (by simp [pc, Pc.reenters])
    have held := (sound.held t (Or.inr writes)).2
    subst isReentrant
    simp [Thread.recursion, pc, Pc.role] at held
    omega
  case lockOwner | tryOwner =>
    have role : (state.threads t).pc.role = .admitted := by simp [pc, Pc.role]
    have writes := placed.claims (Or.inr role)
    have held := sound.held t (Or.inl (Or.inr role))
    cases mutex <;> simpa [Thread.ownerOf, Thread.recursion, role, writes, and_comm] using held
  case unlockOwner =>
    have writes : (state.threads t).writes = 1 := placed.last (by simp [pc, Pc.role])
    have held := (sound.held t (Or.inr (by omega))).1
    simpa [Thread.ownerOf, pc, Pc.role, writes] using held
  case unlockCount =>
    have writes := placed.unlocks pc
    have held := (sound.held t (Or.inr writes)).1
    simpa [Thread.ownerOf, pc, Pc.role, writes] using held
  case unlockShared =>
    have reads := placed.unlocksShared pc
    cases set : state.lock.writeFlag with
    | false => exact (sound.free set).1
    | true =>
        rcases sound.flag.mp set with ⟨t', flagged⟩
        have noWrites : (state.threads t').writes = 0 := by
          by_contra writes
          have zero := sound.alone t' t (Or.inr (Nat.pos_of_ne_zero writes))
          omega
        simpa [Thread.ownerOf, noWrites] using (sound.held t' flagged).1

omit [DecidableEq T] in
/-- A mutex that nobody uses is as it was made. -/
theorem Sound.lock_eq_initial (sound : state.Sound mutex handle)
    (unused : ∀ t, (state.threads t).pc = .idle ∧ (state.threads t).reads = 0 ∧
      (state.threads t).writes = 0) : state.lock = .initial := by
  have notFlagged (t : T) : ¬(state.threads t).Flagged := by simp [Thread.Flagged, unused t]
  have notSet : state.lock.writeFlag = false := by
    by_contra set
    rcases sound.flag.mp (by simpa using set) with ⟨t, flagged⟩
    exact notFlagged t flagged
  have count : state.lock.readCount = 0 := by
    rw [sound.count]
    simp [Thread.shares, unused]
  rcases sound.free notSet with ⟨owner, reenCount⟩
  rcases lock : state.lock with ⟨_, _, _, _⟩
  simp_all [Lock.initial]

theorem Sound.of_permitted (run : Reaches (next mutex handle) (Permitted handle) initial state) :
    state.Sound mutex handle := by
  refine run.preserves sound_initial ?_
  intro state input state' permitted sound step
  exact sound_next sound permitted step

/-- In these runs no assertion fails, and the mutex is left as it was made. -/
theorem asserts_of_permitted (run : Reaches (next mutex handle) (Permitted handle) initial state) :
    (∀ t, state.Permitted handle (t, .advance) →
      state.lock.Asserts (getThreadId (handle t)) (state.threads t).pc) ∧
    ((∀ t, (state.threads t).pc = .idle ∧ (state.threads t).reads = 0 ∧
      (state.threads t).writes = 0) → state.lock = .initial) :=
  ⟨fun _ => (Sound.of_permitted run).asserts, (Sound.of_permitted run).lock_eq_initial⟩

/-- In every run in which no thread takes itself for the owner by mistake and no counter comes to
its end, the mutex is guarded. -/
theorem guarded_of_permitted (run : Reaches (next mutex handle) (Permitted handle) initial state) :
    state.Guarded mutex handle := by
  have sound : state.Sound mutex handle := by
    refine run.preserves sound_initial ?_
    intro state input state' permitted sound step
    exact sound_next sound permitted step
  exact sound.guarded

/-- The control blocks of two threads whose stacks lie beside each other. -/
def neighbours : Bool → ℕ
  | false => 0x7f0000000700
  | true => 0x7f0000800700

/-- One thread locks the reentrant mutex twice, and the other one is turned away. -/
def nestedLock : List (Bool × Action) :=
  [(false, .call .lock), (false, .advance), (false, .advance), (false, .advance), (false, .advance),
    (false, .call .lock), (false, .advance), (true, .call .tryLockShared), (true, .advance)]

theorem guarded_of_permitted_neighbours :
    ∃ state, execPermitted (next .reentrant neighbours) (Permitted neighbours) nestedLock initial =
      some state ∧ (state.threads false).writes = 2 ∧ (state.threads true).answer = some false ∧
        state.Guarded .reentrant neighbours := by
  refine ⟨_, rfl, rfl, rfl, ?_⟩
  exact guarded_of_permitted (reaches_of_execPermitted nestedLock rfl)

/-- The other thread reads, and the mutex is given back. -/
def givenBack : List (Bool × Action) :=
  [(true, .call .lockShared), (true, .advance), (true, .advance), (true, .call .unlockShared),
    (true, .advance)]

theorem asserts_of_permitted_neighbours :
    ∃ calling idle : MutexState Bool,
      execPermitted (next .shared neighbours) (Permitted neighbours) givenBack.dropLast initial =
        some calling ∧ calling.lock.Asserts (getThreadId 0x7f0000800700) .unlockShared ∧
      execPermitted (next .shared neighbours) (Permitted neighbours) givenBack initial =
        some idle ∧ idle.lock = .initial := by
  refine ⟨_, _, rfl, ?_, rfl, ?_⟩
  · exact (@asserts_of_permitted Bool _ _ .shared neighbours _
      (reaches_of_execPermitted givenBack.dropLast rfl)).1 true (by decide)
  · apply (@asserts_of_permitted Bool _ _ .shared neighbours _
      (reaches_of_execPermitted givenBack rfl)).2
    decide

/-- Two threads whose control blocks are 4 GiB apart. -/
def farApart : Bool → ℕ
  | false => 0x7f0000000700
  | true => 0x7f0100000700

/-- Both of them lock the reentrant mutex. -/
def bothLock : List (Bool × Action) :=
  [(false, .call .lock), (false, .advance), (false, .advance), (false, .advance), (false, .advance),
    (true, .call .lock), (true, .advance)]

/-- The second thread takes the id of the first one in `_owner` for its own. -/
theorem not_guarded : ¬∀ (T : Type) [DecidableEq T] [Fintype T] (mutex : MutexClass)
    (handle : T → ℕ), Function.Injective handle → ∀ state : MutexState T,
      Reaches (next mutex handle) anyInput initial state → state.Guarded mutex handle := by
  intro guarded
  have ran : ∃ state, exec (next .reentrant farApart) bothLock initial = some state ∧
      (state.threads false).writes = 1 ∧ (state.threads true).writes = 1 := ⟨_, rfl, rfl, rfl⟩
  rcases ran with ⟨state, executed, first, second⟩
  have run := reaches_of_exec bothLock executed
  have both := (guarded Bool .reentrant farApart (by decide) state run).writers false true
    (by omega) (by omega)
  cases both

end MutexState

end SpinMutex

end RapidDb
