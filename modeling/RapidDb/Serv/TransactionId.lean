import RapidDb.Core.CoreEnum
import RapidDb.Library.Numbering
import Mathlib.Algebra.GroupWithZero.Nat
import Mathlib.Data.List.Forall2
import Mathlib.Data.List.Nodup
import Mathlib.Data.Nat.Bitwise

/-!
# Transaction ids

A session group numbers the transactions of its sessions. The upper 24 bits of an id are the node,
the restart number and the serial number of the group, and the lower 40 bits are a counter.
`AddAction` finds the group of an id by the lowest 8 of the upper bits, though the comments leave
10 bits to the group and `InitPool` takes more than 256 groups.
-/

namespace RapidDb

namespace TransactionIds

open RapidDb.Numbering

/-- The parts of `SessionGroup` that ids come from and actions go to, with the threads that pushed
the actions. -/
structure SessionGroup where
  currTranId : ℕ
  threaPoolQueue : List (ℕ × ℕ)

def SessionGroup.new (groupSn nodeId restartNum : ℕ) : SessionGroup where
  currTranId := (nodeId <<< 52 + restartNum <<< 48 + groupSn <<< 40) % 2 ^ 64
  threaPoolQueue := []

/-- `Push` into the queue of the thread pool. -/
def SessionGroup.push (threadId action : ℕ) (group : SessionGroup) : SessionGroup :=
  { group with threaPoolQueue := group.threaPoolQueue ++ [(threadId, action)] }

/-- The arguments that `InitPool` accepts, and the node. -/
structure PoolInit where
  groupNum : ℕ
  nodeId : ℕ
  restartNum : ℕ
  powerOfTwo : ∃ power < 16, groupNum = 2 ^ power
  nodeId_lt : nodeId < 2 ^ 12

/-- `InitPool`. -/
def PoolInit.initPool (init : PoolInit) : List SessionGroup :=
  (List.range init.groupNum).map fun groupSn =>
    .new groupSn init.nodeId (init.restartNum % 16)

/-- How `StartTransaction` moves the counter of a group on. -/
def nextTranId (currTranId : ℕ) : ℕ :=
  if currTranId &&& 0xFFFFFFFFFF = 0xFFFFFFFFFF then currTranId &&& 0xFFFFFF0000000000
  else (currTranId + 1) % 2 ^ 64

/-- `StartTransaction` of the session with an id. -/
def startTransaction (vctGroup : List SessionGroup) (sessionId : ℕ) :
    Option (ℕ × List SessionGroup) := do
  let sGroup ← vctGroup[sessionId % vctGroup.length]?
  some (sGroup.currTranId, vctGroup.set (sessionId % vctGroup.length)
    { sGroup with currTranId := nextTranId sGroup.currTranId })

/-- Calls of `StartTransaction` by some sessions, one after the other. -/
def startTransactions : List SessionGroup → List ℕ → Option (List ℕ × List SessionGroup)
  | vctGroup, [] => some ([], vctGroup)
  | vctGroup, sessionId :: sessionIds => do
      let (tid, vctGroup) ← startTransaction vctGroup sessionId
      let (tids, vctGroup) ← startTransactions vctGroup sessionIds
      some (tid :: tids, vctGroup)

/-- `SessionPool::AddAction`, none if the assertion fails. -/
def addAction (vctGroup : List SessionGroup) (threadId : ℕ) (tranId : ℕ) (action : ℕ) :
    Option (List SessionGroup) :=
  let gid := tranId >>> 40 &&& 0xFF
  if gid < vctGroup.length then some (vctGroup.modify gid (SessionGroup.push threadId action))
  else none

/-- Actions for the id go into the queue of the group. -/
def PutsInto (groupNum groupSn : ℕ) (tid : ℕ) : Prop :=
  ∀ vctGroup : List SessionGroup, vctGroup.length = groupNum → ∀ threadId action,
    addAction vctGroup threadId tid action =
      some (vctGroup.modify groupSn (SessionGroup.push threadId action))

namespace PoolInit

variable (init : PoolInit)

def groupOf (sessionId : ℕ) : ℕ := sessionId % init.groupNum

/-- How many of the transactions the sessions of a group start. -/
def starts (sessionIds : List ℕ) (groupSn : ℕ) : ℕ :=
  (sessionIds.map init.groupOf).count groupSn

/-- The ids of the transactions that some sessions start are distinct, none of them is the null id,
and they lead back to the groups of the sessions. -/
def IdsRight (sessionIds : List ℕ) : Prop :=
  ∃ tids vctGroup, startTransactions init.initPool sessionIds = some (tids, vctGroup) ∧
    tids.Nodup ∧ txidNull ∉ tids ∧
      List.Forall₂ (fun sessionId tid => PutsInto init.groupNum (init.groupOf sessionId) tid)
        sessionIds tids

/-- The upper bits of the ids of a group. -/
def upperBits (groupSn : ℕ) : ℕ :=
  (init.nodeId * 2 ^ 12 + init.restartNum % 16 * 2 ^ 8 + groupSn) % 2 ^ 24

def tranId (issue : ℕ × ℕ) : ℕ :=
  init.upperBits issue.1 * 2 ^ 40 + issue.2 % 2 ^ 40

end PoolInit

theorem and_upper (tid : ℕ) :
    tid &&& 0xFFFFFF0000000000 = (tid >>> 40 &&& (2 ^ 24 - 1)) <<< 40 := by
  have mask : 0xFFFFFF0000000000 = (2 ^ 24 - 1) <<< 40 := by decide
  rw [mask]
  apply Nat.eq_of_testBit_eq
  intro i
  simp only [Nat.testBit_and, Nat.testBit_shiftLeft, Nat.testBit_shiftRight]
  by_cases high : 40 ≤ i
  · simp [high]
  · simp [high]

theorem nextTranId_spec {upper number : ℕ} (upperLt : upper < 2 ^ 24) :
    nextTranId (upper * 2 ^ 40 + number % 2 ^ 40) = upper * 2 ^ 40 + (number + 1) % 2 ^ 40 := by
  have counterLt : number % 2 ^ 40 < 2 ^ 40 := Nat.mod_lt _ (by decide)
  have lower : (upper * 2 ^ 40 + number % 2 ^ 40) &&& 0xFFFFFFFFFF = number % 2 ^ 40 := by
    have mask : 0xFFFFFFFFFF = 2 ^ 40 - 1 := by decide
    rw [mask, Nat.and_two_pow_sub_one_eq_mod]
    omega
  have higher : (upper * 2 ^ 40 + number % 2 ^ 40) &&& 0xFFFFFF0000000000 = upper * 2 ^ 40 := by
    rw [and_upper, Nat.and_two_pow_sub_one_eq_mod, Nat.shiftRight_eq_div_pow,
      Nat.shiftLeft_eq]
    omega
  unfold nextTranId
  rw [lower, higher]
  split <;> omega

namespace PoolInit

variable {init : PoolInit}

theorem groupNum_pos (init : PoolInit) : 0 < init.groupNum := by
  rcases init.powerOfTwo with ⟨power, -, isPower⟩
  rw [isPower]
  exact Nat.two_pow_pos power

theorem groupOf_lt (init : PoolInit) (sessionId : ℕ) : init.groupOf sessionId < init.groupNum :=
  Nat.mod_lt _ init.groupNum_pos

theorem groupNum_le (init : PoolInit) : init.groupNum ≤ 2 ^ 15 := by
  rcases init.powerOfTwo with ⟨power, less, isPower⟩
  rw [isPower]
  exact Nat.pow_le_pow_right (by decide) (by omega)

theorem upperBits_lt (init : PoolInit) (groupSn : ℕ) : init.upperBits groupSn < 2 ^ 24 :=
  Nat.mod_lt _ (by decide)

theorem upperBits_inj {groupSn groupSn' : ℕ} (less : groupSn < init.groupNum)
    (less' : groupSn' < init.groupNum) (same : init.upperBits groupSn = init.upperBits groupSn') :
    groupSn = groupSn' := by
  have bound := init.groupNum_le
  simp only [upperBits] at same
  omega

theorem new_currTranId (init : PoolInit) (groupSn : ℕ) :
    (SessionGroup.new groupSn init.nodeId (init.restartNum % 16)).currTranId =
      init.tranId (groupSn, 0) := by
  simp only [SessionGroup.new, tranId, upperBits, Nat.shiftLeft_eq]
  omega

/-- The groups have given out `start` numbers. -/
def Counted (init : PoolInit) (start : ℕ → ℕ) (vctGroup : List SessionGroup) : Prop :=
  vctGroup.map SessionGroup.currTranId =
    (List.range init.groupNum).map fun groupSn => init.tranId (groupSn, start groupSn)

theorem Counted.length {start : ℕ → ℕ} {vctGroup : List SessionGroup}
    (counted : init.Counted start vctGroup) : vctGroup.length = init.groupNum := by
  have lengths := congrArg List.length counted
  simpa using lengths

theorem counted_initPool (init : PoolInit) : init.Counted (fun _ => 0) init.initPool := by
  simp [Counted, initPool, Function.comp_def, new_currTranId]

theorem startTransaction_spec {start : ℕ → ℕ} {vctGroup : List SessionGroup}
    (counted : init.Counted start vctGroup) (sessionId : ℕ) :
    ∃ vctGroup', startTransaction vctGroup sessionId =
        some (init.tranId (init.groupOf sessionId, start (init.groupOf sessionId)), vctGroup') ∧
      init.Counted (Function.update start (init.groupOf sessionId)
        (start (init.groupOf sessionId) + 1)) vctGroup' := by
  have position : sessionId % vctGroup.length = init.groupOf sessionId := by
    rw [counted.length, groupOf]
  have less : init.groupOf sessionId < vctGroup.length := by
    simpa [counted.length] using init.groupOf_lt sessionId
  have current : vctGroup[init.groupOf sessionId].currTranId =
      init.tranId (init.groupOf sessionId, start (init.groupOf sessionId)) := by
    have at_place := congrArg (fun list => list[init.groupOf sessionId]?) counted
    simpa [less, init.groupOf_lt sessionId] using at_place
  refine ⟨vctGroup.set (init.groupOf sessionId) { vctGroup[init.groupOf sessionId] with
    currTranId := nextTranId (init.tranId (init.groupOf sessionId,
      start (init.groupOf sessionId))) }, ?_, ?_⟩
  · simp only [startTransaction, position, List.getElem?_eq_getElem less, Option.bind_eq_bind,
      Option.bind_some, current]
  · have moved : nextTranId (init.tranId (init.groupOf sessionId, start (init.groupOf sessionId))) =
        init.tranId (init.groupOf sessionId, start (init.groupOf sessionId) + 1) :=
      nextTranId_spec (init.upperBits_lt _)
    unfold Counted at counted ⊢
    simp only [List.map_set, counted, moved]
    apply List.ext_getElem
    · simp
    · intro groupSn inside inside'
      by_cases same : init.groupOf sessionId = groupSn
      · simp [same]
      · simp [same, Function.update_of_ne (Ne.symm same)]

theorem startTransactions_spec {start : ℕ → ℕ} {vctGroup : List SessionGroup}
    (counted : init.Counted start vctGroup) (sessionIds : List ℕ) :
    ∃ vctGroup', startTransactions vctGroup sessionIds =
      some ((issued start (sessionIds.map init.groupOf)).map init.tranId, vctGroup') := by
  induction sessionIds generalizing start vctGroup with
  | nil => exact ⟨vctGroup, rfl⟩
  | cons sessionId sessionIds ih =>
      rcases startTransaction_spec counted sessionId with ⟨vctGroup₁, first, counted₁⟩
      rcases ih counted₁ with ⟨vctGroup₂, rest⟩
      refine ⟨vctGroup₂, ?_⟩
      simp [startTransactions, first, rest, issued]

theorem tranId_inj {groupSn groupSn' number number' : ℕ} (less : groupSn < init.groupNum)
    (less' : groupSn' < init.groupNum) (few : number < 2 ^ 40) (few' : number' < 2 ^ 40)
    (same : init.tranId (groupSn, number) = init.tranId (groupSn', number')) :
    (groupSn, number) = (groupSn', number') := by
  simp only [tranId] at same
  have upper : init.upperBits groupSn = init.upperBits groupSn' := by omega
  have number_eq : number = number' := by omega
  rw [upperBits_inj less less' upper, number_eq]

theorem addAction_tranId (init : PoolInit) {vctGroup : List SessionGroup}
    (length : vctGroup.length = init.groupNum) {groupSn : ℕ} (less : groupSn < init.groupNum)
    (number threadId action : ℕ) :
    addAction vctGroup threadId (init.tranId (groupSn, number)) action =
      some (vctGroup.modify (groupSn % 256) (SessionGroup.push threadId action)) := by
  have counterLt : number % 2 ^ 40 < 2 ^ 40 := Nat.mod_lt _ (by decide)
  have gid : init.tranId (groupSn, number) >>> 40 &&& 0xFF = groupSn % 256 := by
    have mask : 0xFF = 2 ^ 8 - 1 := by decide
    rw [mask, Nat.and_two_pow_sub_one_eq_mod, Nat.shiftRight_eq_div_pow]
    simp only [tranId, upperBits]
    omega
  have inside : groupSn % 256 < vctGroup.length := by
    have le := Nat.mod_le groupSn 256
    omega
  simp [addAction, gid, inside]

theorem putsInto_iff {groupSn : ℕ} (less : groupSn < init.groupNum) (number : ℕ) :
    PutsInto init.groupNum groupSn (init.tranId (groupSn, number)) ↔ groupSn < 256 := by
  constructor
  · intro puts
    by_contra high
    have other : groupSn % 256 ≠ groupSn := by
      have low := Nat.mod_lt groupSn (by decide : 0 < 256)
      omega
    have length : init.initPool.length = init.groupNum := by simp [initPool]
    have same := puts init.initPool length 0 0
    rw [init.addAction_tranId length less number 0 0] at same
    have queues := congrArg
      (fun list => list[groupSn]?.map fun group => group.threaPoolQueue.length)
      (Option.some.inj same)
    simp [other, length, less, SessionGroup.push] at queues
  · intro low vctGroup length threadId action
    rw [init.addAction_tranId length less number threadId action, Nat.mod_eq_of_lt low]

theorem putsInto_all_iff (start : ℕ → ℕ) (sessionIds : List ℕ) :
    List.Forall₂ (fun sessionId tid => PutsInto init.groupNum (init.groupOf sessionId) tid)
        sessionIds ((issued start (sessionIds.map init.groupOf)).map init.tranId) ↔
      ∀ sessionId ∈ sessionIds, init.groupOf sessionId < 256 := by
  induction sessionIds generalizing start with
  | nil => simp [issued]
  | cons sessionId sessionIds ih =>
      simp [issued, ih, putsInto_iff (init.groupOf_lt sessionId)]

theorem tranId_eq_null_iff {groupSn number : ℕ} (low : groupSn < 256) (few : number < 2 ^ 40) :
    init.tranId (groupSn, number) = txidNull ↔
      init.nodeId = 4095 ∧ init.restartNum % 16 = 15 ∧ groupSn = 255 ∧ number = 2 ^ 40 - 1 := by
  have nodeLt := init.nodeId_lt
  have null : txidNull = 2 ^ 64 - 1 := rfl
  rw [null]
  simp only [tranId, upperBits]
  omega

/-- The sessions belong to groups whose numbers have 8 bits, and the last group of the last node
does not come to the last id. -/
structure WithinBits (init : PoolInit) (sessionIds : List ℕ) : Prop where
  low : ∀ sessionId ∈ sessionIds, init.groupOf sessionId < 256
  notLast : init.nodeId = 4095 → init.restartNum % 16 = 15 → init.starts sessionIds 255 < 2 ^ 40

theorem mem_tids_iff {sessionIds : List ℕ}
    (few : ∀ groupSn, init.starts sessionIds groupSn ≤ 2 ^ 40)
    (low : ∀ sessionId ∈ sessionIds, init.groupOf sessionId < 256) :
    txidNull ∈ (issued (fun _ => 0) (sessionIds.map init.groupOf)).map init.tranId ↔
      init.nodeId = 4095 ∧ init.restartNum % 16 = 15 ∧ init.starts sessionIds 255 = 2 ^ 40 := by
  simp only [List.mem_map, Prod.exists, mem_issued]
  constructor
  · rintro ⟨groupSn, number, ⟨-, less⟩, null⟩
    have bound := few groupSn
    simp only [starts] at bound
    have member : groupSn ∈ sessionIds.map init.groupOf := List.count_pos_iff.mp (by omega)
    rcases List.mem_map.mp member with ⟨sessionId, mem, rfl⟩
    rcases (tranId_eq_null_iff (low sessionId mem) (by omega)).mp null with
      ⟨isNode, isRestart, isGroup, isNumber⟩
    refine ⟨isNode, isRestart, ?_⟩
    rw [isGroup] at less bound
    simp only [starts]
    omega
  · rintro ⟨isNode, isRestart, all⟩
    refine ⟨255, 2 ^ 40 - 1, ⟨Nat.zero_le _, ?_⟩, ?_⟩
    · simp only [starts] at all
      omega
    · exact (tranId_eq_null_iff (by decide) (by decide)).mpr ⟨isNode, isRestart, rfl, rfl⟩

/-- As long as no group has started more than 2^40 transactions, ids are right exactly if they come
from groups below 256 and the null id has not been reached. -/
theorem idsRight_iff (init : PoolInit) (sessionIds : List ℕ)
    (few : ∀ groupSn, init.starts sessionIds groupSn ≤ 2 ^ 40) :
    init.IdsRight sessionIds ↔ init.WithinBits sessionIds := by
  rcases startTransactions_spec init.counted_initPool sessionIds with ⟨vctGroup, started⟩
  have nodup : ((issued (fun _ => 0) (sessionIds.map init.groupOf)).map init.tranId).Nodup := by
    refine (List.nodup_map_iff_inj_on (nodup_issued _ _)).mpr ?_
    rintro ⟨groupSn, number⟩ mem ⟨groupSn', number'⟩ mem' same
    have inside {groupSn number : ℕ}
        (mem : (groupSn, number) ∈ issued (fun _ => 0) (sessionIds.map init.groupOf)) :
        groupSn < init.groupNum ∧ number < 2 ^ 40 := by
      have less := (mem_issued.mp mem).2
      have bound := few groupSn
      simp only [starts] at bound
      have member : groupSn ∈ sessionIds.map init.groupOf := List.count_pos_iff.mp (by omega)
      rcases List.mem_map.mp member with ⟨sessionId, -, rfl⟩
      exact ⟨init.groupOf_lt sessionId, by omega⟩
    exact tranId_inj (inside mem).1 (inside mem').1 (inside mem).2 (inside mem').2 same
  constructor
  · rintro ⟨tids, vctGroup', started', -, notNull, puts⟩
    rw [started] at started'
    cases started'
    have low := (putsInto_all_iff _ sessionIds).mp puts
    refine ⟨low, ?_⟩
    intro isNode isRestart
    refine lt_of_le_of_ne (few 255) ?_
    intro all
    exact notNull ((mem_tids_iff few low).mpr ⟨isNode, isRestart, all⟩)
  · rintro ⟨low, notLast⟩
    refine ⟨_, vctGroup, started, nodup, ?_, (putsInto_all_iff _ sessionIds).mpr low⟩
    intro null
    rcases (mem_tids_iff few low).mp null with ⟨isNode, isRestart, all⟩
    exact absurd (notLast isNode isRestart) (by omega)

theorem firstNode : 0 < 2 ^ 12 := by decide

theorem fourGroups_power : ∃ power < 16, 4 = 2 ^ power := ⟨2, by decide, rfl⟩

def fourGroups : PoolInit where
  groupNum := 4
  nodeId := 0
  restartNum := 1
  powerOfTwo := fourGroups_power
  nodeId_lt := firstNode

theorem idsRight_fourGroups : fourGroups.IdsRight [5, 1, 4] := by
  refine (idsRight_iff fourGroups [5, 1, 4] ?_).mpr ⟨by decide, ?_⟩
  · intro groupSn
    exact List.count_le_length.trans (by decide)
  · intro isNode
    cases isNode

theorem manyGroups_power : ∃ power < 16, 512 = 2 ^ power := ⟨9, by decide, rfl⟩

/-- `InitPool` takes 512 groups. -/
def manyGroups : PoolInit where
  groupNum := 512
  nodeId := 0
  restartNum := 0
  powerOfTwo := manyGroups_power
  nodeId_lt := firstNode

/-- An action of group 256 goes to group 0. -/
theorem not_idsRight : ¬∀ (init : PoolInit) (sessionIds : List ℕ),
    (∀ groupSn, init.starts sessionIds groupSn ≤ 2 ^ 40) → init.IdsRight sessionIds := by
  intro right
  rcases right manyGroups [256] fun groupSn => List.count_le_length.trans (by decide) with
    ⟨tids, vctGroup, started, -, -, puts⟩
  rcases startTransactions_spec manyGroups.counted_initPool [256] with ⟨vctGroup', started'⟩
  rw [started] at started'
  cases started'
  have low := (putsInto_all_iff _ [256]).mp puts 256 List.mem_cons_self
  exact absurd low (by decide)

end PoolInit

end TransactionIds

end RapidDb
