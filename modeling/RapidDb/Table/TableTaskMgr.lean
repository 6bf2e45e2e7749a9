import RapidDb.Library.Holders
import RapidDb.Library.Transition

/-!
# Table task manager

Session threads push actions into the queue of a range of an index, and each range has a task that
executes them. While `IndexAdjustTask` divides the index into new ranges, the actions are put into a
temporary list, which is moved to the new ranges at the end.

The threads, the tasks and the adjusting task run at the same time. What is one step here is a part
of a function in which at most one access to what others use matters. The mutex of the temporary
list is taken by the sessions only, the adjusting task takes another one. A queue keeps the lines of
all sessions in one list, and the queues between the indexes of a table are left out, since no
action of a session is pushed into them.
-/

namespace RapidDb

open Transition

structure RangeQueue (α : Type) where
  queueSessionAction : List α := []
  lstRangeAction : List α := []
  lstAction : List α := []

/-- Where a session thread is in `AddSessionAction`. -/
inductive SessionStage (α : Type) where
  | idle
  /-- Before the first test of the flag. -/
  | test (action : α)
  | lock (action : α)
  /-- Before the second test of the flag. -/
  | testLocked (action : α)
  | pushTmp (action : α)
  /-- Before the mutex is released. The action has been put into the temporary list, or is still to
  be pushed. -/
  | unlock (action : Option α)
  /-- Before `JudgeRange`. -/
  | judge (action : α)
  | push (action : α) (range : ℕ)
deriving DecidableEq, Repr

/-- Where `IndexAdjustTask` is in `Run`. -/
inductive AdjustStage where
  | idle
  /-- The status is ADJUSTING, the flag is to be set. -/
  | exchanged
  /-- Until the tasks of the index have finished. -/
  | waiting
  /-- Before the queues of a range are taken, or behind the last range before all are cleared. -/
  | draining (i : ℕ)
  /-- Until there are as many new ranges with queues. -/
  | building (num : ℕ)
  /-- In the loop that puts what has been taken into the new ranges. -/
  | distributing
  /-- The flag is to be cleared. -/
  | rebuilt
  /-- The new tasks are to be added. -/
  | starting
  /-- In the loop over the temporary list. -/
  | moving (k : ℕ)
  /-- Behind this loop, before the list is cleared. -/
  | clearing (k : ℕ)
  /-- The status is to be set to RUNNING. -/
  | closing
deriving DecidableEq, Repr

structure TableTaskMgr (α : Type) where
  isReranging : Bool := false
  /-- The session that holds the mutex. -/
  spinMutex : Option ℕ := none
  lstTmpAction : List α := []
  vctRange : List (RangeQueue α)
  /-- For each task whether it still runs. -/
  vctTask : List Bool
  sessions : List (SessionStage α)
  adjust : AdjustStage := .idle
  /-- What the adjusting task has taken from the old ranges. -/
  lstAction : List α := []
  added : List α := []
  executed : List α := []
  /-- What was in a queue or a list when it was cleared. -/
  lost : List α := []

inductive TaskEvent (α : Type) where
  /-- A session calls `AddSessionAction`. -/
  | add (session : ℕ) (action : α)
  /-- The next step of `AddSessionAction`, and what `JudgeRange` returns. -/
  | session (session range : ℕ)
  /-- `CollectTaskData` of a task. -/
  | collect (i : ℕ)
  /-- A task executes an action of its list, which may have to be executed again. -/
  | exec (i k : ℕ) (finished : Bool)
  /-- A task adds an action for another range with `AddActionWithLock`. -/
  | pass (range : ℕ) (action : α)
  /-- A task sees that the ranges are adjusted. -/
  | stop (i : ℕ)
  /-- The next step of `IndexAdjustTask`, the number of ranges it chooses, and what `JudgeRange`
  returns. -/
  | adjust (num : ℕ) (judgeRange : α → ℕ)

namespace SessionStage

variable {α : Type}

/-- The action that a session still has in its hands. -/
def held : SessionStage α → List α
  | .idle => []
  | .test action => [action]
  | .lock action => [action]
  | .testLocked action => [action]
  | .pushTmp action => [action]
  | .unlock action => action.toList
  | .judge action => [action]
  | .push action _ => [action]

end SessionStage

namespace RangeQueue

variable {α : Type}

def held (range : RangeQueue α) : List α :=
  range.lstAction ++ range.queueSessionAction ++ range.lstRangeAction

/-- `CollectTaskData`. -/
def collect (range : RangeQueue α) : RangeQueue α where
  lstAction := range.lstAction ++ range.queueSessionAction ++ range.lstRangeAction

end RangeQueue

namespace AdjustStage

def tasksRun : AdjustStage → Bool
  | .idle => true
  | .exchanged => true
  | .waiting => true
  | _ => false

/-- The ranges are complete, so that `JudgeRange` can look at them. -/
def ranged : AdjustStage → Bool
  | .building _ => false
  | _ => true

def drained : AdjustStage → ℕ
  | .draining i => i
  | _ => 0

/-- How much of the temporary list has been moved to ranges. -/
def moved : AdjustStage → ℕ
  | .moving k => k
  | .clearing k => k
  | _ => 0

/-- The loop over the temporary list is still to come or goes on. -/
def willMove : AdjustStage → Bool
  | .idle => false
  | .exchanged => false
  | .clearing _ => false
  | .closing => false
  | _ => true

end AdjustStage

namespace TableTaskMgr

variable {α : Type}

/-- The constructor: each index has one range and one task. -/
def new (α : Type) (sessionGroupNum : ℕ) : TableTaskMgr α where
  vctRange := [{}]
  vctTask := [true]
  sessions := List.replicate sessionGroupNum .idle

def setSession (mgr : TableTaskMgr α) (i : ℕ) (stage : SessionStage α) : TableTaskMgr α :=
  { mgr with sessions := mgr.sessions.set i stage }

def setRange (mgr : TableTaskMgr α) (i : ℕ) (range : RangeQueue α) : TableTaskMgr α :=
  { mgr with vctRange := mgr.vctRange.set i range }

def atStage (mgr : TableTaskMgr α) (stage : AdjustStage) : TableTaskMgr α :=
  { mgr with adjust := stage }

/-- The next step of `AddSessionAction`; none if the mutex is taken, or it faults. -/
def sessionStep (mgr : TableTaskMgr α) (i judged : ℕ) :
    SessionStage α → Option (TableTaskMgr α)
  | .idle => none
  | .test action =>
      some (mgr.setSession i (if mgr.isReranging then .lock action else .judge action))
  | .lock action =>
      if mgr.spinMutex = none then
        some { mgr.setSession i (.testLocked action) with spinMutex := some i }
      else
        none
  | .testLocked action =>
      some (mgr.setSession i
        (if mgr.isReranging then .pushTmp action else .unlock (some action)))
  | .pushTmp action =>
      some { mgr.setSession i (.unlock none) with lstTmpAction := mgr.lstTmpAction ++ [action] }
  | .unlock none => some { mgr.setSession i .idle with spinMutex := none }
  | .unlock (some action) => some { mgr.setSession i (.judge action) with spinMutex := none }
  | .judge action =>
      if mgr.adjust.ranged = true ∧ judged < mgr.vctRange.length then
        some (mgr.setSession i (.push action judged))
      else
        none
  | .push action r =>
      (mgr.vctRange[r]?).map fun range =>
        (mgr.setSession i .idle).setRange r
          { range with queueSessionAction := range.queueSessionAction ++ [action] }

/-- Appends an action to the list of a range. -/
def addActionFromLocal (mgr : TableTaskMgr α) (i : ℕ) (action : α) : Option (TableTaskMgr α) :=
  (mgr.vctRange[i]?).map fun range =>
    mgr.setRange i { range with lstAction := range.lstAction ++ [action] }

/-- The next step of `IndexAdjustTask`. -/
def adjustStep (mgr : TableTaskMgr α) (num : ℕ) (judgeRange : α → ℕ) :
    Option (TableTaskMgr α) :=
  match mgr.adjust with
  | .idle => some (mgr.atStage .exchanged)
  | .exchanged => some { mgr with isReranging := true, adjust := .waiting }
  | .waiting => if mgr.vctTask.any id then some mgr else some (mgr.atStage (.draining 0))
  | .draining i =>
      match mgr.vctRange[i]? with
      | some range =>
          some { mgr.setRange i {} with
            lstAction := mgr.lstAction ++ range.held
            adjust := .draining (i + 1) }
      | none =>
          if num = 0 then none
          else
            some { mgr with
              vctTask := []
              vctRange := []
              lost := mgr.lost ++ mgr.vctRange.flatMap RangeQueue.held
              adjust := .building num }
  | .building num =>
      if mgr.vctRange.length < num then some { mgr with vctRange := mgr.vctRange ++ [{}] }
      else some (mgr.atStage .distributing)
  | .distributing =>
      match mgr.lstAction with
      | action :: rest =>
          { mgr with lstAction := rest }.addActionFromLocal (judgeRange action) action
      | [] => some (mgr.atStage .rebuilt)
  | .rebuilt => some { mgr with isReranging := false, adjust := .starting }
  | .starting =>
      some { mgr with
        vctTask := List.replicate mgr.vctRange.length true, adjust := .moving 0 }
  | .moving k =>
      match mgr.lstTmpAction[k]? with
      | some action =>
          (mgr.atStage (.moving (k + 1))).addActionFromLocal (judgeRange action) action
      | none => some (mgr.atStage (.clearing k))
  | .clearing k =>
      some { mgr with
        lstTmpAction := []
        lost := mgr.lost ++ mgr.lstTmpAction.drop k
        adjust := .closing }
  | .closing => some (mgr.atStage .idle)

/-- A task runs, and its actions may be executed. -/
def Runs (mgr : TableTaskMgr α) (i : ℕ) : Prop :=
  mgr.adjust.tasksRun = true ∧ mgr.vctTask[i]? = some true

instance (mgr : TableTaskMgr α) (i : ℕ) : Decidable (mgr.Runs i) :=
  inferInstanceAs (Decidable (mgr.adjust.tasksRun = true ∧ mgr.vctTask[i]? = some true))

/-- One step; none if it is not the turn of its thread, or faults. -/
def step (mgr : TableTaskMgr α) : TaskEvent α → Option (TableTaskMgr α)
  | .add i action =>
      match mgr.sessions[i]? with
      | some .idle =>
          some { mgr.setSession i (.test action) with added := mgr.added ++ [action] }
      | _ => none
  | .session i judged => (mgr.sessions[i]?).bind (mgr.sessionStep i judged)
  | .collect i =>
      if mgr.Runs i then (mgr.vctRange[i]?).map fun range => mgr.setRange i range.collect
      else none
  | .exec i k finished =>
      if mgr.Runs i then
        (mgr.vctRange[i]?).bind fun range =>
          (range.lstAction[k]?).map fun action =>
            if finished then
              { mgr.setRange i { range with lstAction := range.lstAction.eraseIdx k } with
                executed := mgr.executed ++ [action] }
            else
              mgr
      else
        none
  | .pass i action =>
      if mgr.adjust.tasksRun = true ∧ mgr.vctTask.any id then
        (mgr.vctRange[i]?).map fun range =>
          { mgr.setRange i { range with lstRangeAction := range.lstRangeAction ++ [action] } with
            added := mgr.added ++ [action] }
      else
        none
  | .stop i =>
      if mgr.adjust = .waiting ∧ mgr.vctTask[i]? = some true then
        some { mgr with vctTask := mgr.vctTask.set i false }
      else
        none
  | .adjust num judgeRange => mgr.adjustStep num judgeRange

/-- An action is pushed into a range that is there and has not been drained, and into the temporary
list only before the loop over this list has ended, and ranges are judged when they are there. -/
def SessionInTime (mgr : TableTaskMgr α) : SessionStage α → Prop
  | .pushTmp _ => mgr.adjust.willMove = true
  | .judge _ => mgr.adjust.ranged = true
  | .push _ r => r < mgr.vctRange.length ∧ mgr.adjust.drained ≤ r
  | _ => True

def InTime (mgr : TableTaskMgr α) : TaskEvent α → Prop
  | .session i _ => ∀ stage ∈ mgr.sessions[i]?, mgr.SessionInTime stage
  | _ => True

/-- What holds in a stage of `IndexAdjustTask`. -/
def StageHolds (mgr : TableTaskMgr α) : AdjustStage → Prop
  | .waiting => mgr.lstAction = []
  | .draining i => (∀ running ∈ mgr.vctTask, running = false) ∧
      ∀ (j : ℕ) (range : RangeQueue α), j < i → mgr.vctRange[j]? = some range → range.held = []
  | .building _ => mgr.vctTask = []
  | .distributing => mgr.vctTask = []
  | .rebuilt => mgr.vctTask = [] ∧ mgr.lstAction = []
  | .starting => mgr.vctTask = [] ∧ mgr.lstAction = []
  | .moving k => mgr.lstAction = [] ∧ k ≤ mgr.lstTmpAction.length ∧
      mgr.vctTask = List.replicate mgr.vctRange.length true
  | .clearing k => mgr.lstAction = [] ∧ k = mgr.lstTmpAction.length ∧
      mgr.vctTask = List.replicate mgr.vctRange.length true
  | _ => mgr.lstAction = [] ∧ mgr.lstTmpAction = [] ∧
      mgr.vctTask = List.replicate mgr.vctRange.length true

section Runs

variable {mgr mgr' : TableTaskMgr α} {i r : ℕ} {action item : α} {stage : SessionStage α}
  {range range' : RangeQueue α}

theorem replicate_set (other : RangeQueue α)
    (all : mgr.vctTask = List.replicate mgr.vctRange.length true) :
    mgr.vctTask = List.replicate (mgr.vctRange.set i other).length true := by
  rw [List.length_set]
  exact all

theorem StageHolds.setRange {stage : AdjustStage} (holds : mgr.StageHolds stage)
    (inTime : stage.drained ≤ i) :
    (mgr.setRange i range').StageHolds stage := by
  cases stage with
  | idle => exact ⟨holds.1, holds.2.1, replicate_set _ holds.2.2⟩
  | exchanged => exact ⟨holds.1, holds.2.1, replicate_set _ holds.2.2⟩
  | waiting => exact holds
  | draining drained =>
      refine ⟨holds.1, fun j range less mem => ?_⟩
      have other : i ≠ j := Nat.ne_of_gt (Nat.lt_of_lt_of_le less inTime)
      have mem : (mgr.vctRange.set i range')[j]? = some range := mem
      rw [List.getElem?_set_ne other] at mem
      exact holds.2 j range less mem
  | building num => exact holds
  | distributing => exact holds
  | rebuilt => exact holds
  | starting => exact holds
  | moving k => exact ⟨holds.1, holds.2.1, replicate_set _ holds.2.2⟩
  | clearing k => exact ⟨holds.1, holds.2.1, replicate_set _ holds.2.2⟩
  | closing => exact ⟨holds.1, holds.2.1, replicate_set _ holds.2.2⟩

theorem drained_of_tasksRun {stage : AdjustStage} (runs : stage.tasksRun = true) :
    stage.drained ≤ i := by
  cases stage with
  | draining drained => cases runs
  | _ => exact Nat.zero_le i

theorem proceeds_of_inTime {judged : ℕ} (at_i : mgr.sessions[i]? = some stage)
    (busy : stage ≠ .idle) (free : mgr.spinMutex ≠ none → ∀ action, stage ≠ .lock action)
    (inside : judged < mgr.vctRange.length) (inTime : mgr.InTime (.session i judged)) :
    ∃ mgr', mgr.step (.session i judged) = some mgr' := by
  simp only [TableTaskMgr.step, at_i, Option.bind_some]
  have inTime := inTime stage at_i
  cases stage with
  | idle => exact absurd rfl busy
  | test action => exact ⟨_, rfl⟩
  | lock action =>
      have open_ : mgr.spinMutex = none := by
        by_contra taken
        exact free taken action rfl
      simp only [TableTaskMgr.sessionStep]
      rw [if_pos open_]
      exact ⟨_, rfl⟩
  | testLocked action => exact ⟨_, rfl⟩
  | pushTmp action => exact ⟨_, rfl⟩
  | unlock left =>
      cases left with
      | none => exact ⟨_, rfl⟩
      | some action => exact ⟨_, rfl⟩
  | judge action =>
      simp only [TableTaskMgr.sessionStep]
      rw [if_pos ⟨inTime, inside⟩]
      exact ⟨_, rfl⟩
  | push action r =>
      simp only [TableTaskMgr.sessionStep]
      rw [List.getElem?_eq_getElem inTime.1]
      exact ⟨_, rfl⟩

/-! ## The tasks alone -/

def OnlyTasks (_ : TableTaskMgr α) (event : TaskEvent α) : Prop :=
  ∃ i, event = .collect i ∨ event = .exec i 0 true

theorem execute_list (mgr : TableTaskMgr α) (list : List α) (runs : mgr.Runs i)
    (at_i : mgr.vctRange[i]? = some { lstAction := list }) :
    Reaches TableTaskMgr.step OnlyTasks mgr
      { mgr.setRange i {} with executed := mgr.executed ++ list } := by
  induction list generalizing mgr with
  | nil =>
      have same : mgr.vctRange.set i {} = mgr.vctRange := by
        rcases List.getElem?_eq_some_iff.mp at_i with ⟨less, rangeEq⟩
        rw [← rangeEq, List.set_getElem_self]
      rw [List.append_nil]
      unfold setRange
      rw [same]
      exact Reaches.refl mgr
  | cons action rest ih =>
      have stepped : mgr.step (.exec i 0 true) = some
          { mgr.setRange i { lstAction := rest } with executed := mgr.executed ++ [action] } := by
        simp only [TableTaskMgr.step]
        rw [if_pos runs, at_i]
        rfl
      have after := ih
        { mgr.setRange i { lstAction := rest } with executed := mgr.executed ++ [action] } runs
        (List.getElem?_set_self (List.getElem?_eq_some_iff.mp at_i).1)
      have twice : (mgr.vctRange.set i { lstAction := rest }).set i {} = mgr.vctRange.set i {} :=
        List.set_set _
      simp only [setRange, twice, List.append_assoc, List.singleton_append] at after
      exact Relation.ReflTransGen.head ⟨_, ⟨i, Or.inr rfl⟩, stepped⟩ after

theorem execute_range (runs : mgr.Runs i) (at_i : mgr.vctRange[i]? = some range) :
    Reaches TableTaskMgr.step OnlyTasks mgr
      { mgr.setRange i {} with executed := mgr.executed ++ range.held } := by
  have stepped : mgr.step (.collect i) = some (mgr.setRange i range.collect) := by
    simp only [TableTaskMgr.step]
    rw [if_pos runs, at_i]
    rfl
  have after := execute_list (mgr.setRange i range.collect) range.held runs
    (List.getElem?_set_self (List.getElem?_eq_some_iff.mp at_i).1)
  simp only [setRange, List.set_set] at after
  exact Relation.ReflTransGen.head ⟨_, ⟨i, Or.inl rfl⟩, stepped⟩ after

theorem execute_ranges (mgr : TableTaskMgr α) (i left : ℕ)
    (runs : ∀ j, j < mgr.vctRange.length → mgr.Runs j)
    (remaining : i + left = mgr.vctRange.length)
    (visited : ∀ (j : ℕ) (range : RangeQueue α), j < i → mgr.vctRange[j]? = some range →
      range.held = []) :
    ∃ mgr', Reaches TableTaskMgr.step OnlyTasks mgr mgr' ∧ mgr'.sessions = mgr.sessions ∧
      mgr'.adjust = mgr.adjust ∧ mgr'.added = mgr.added ∧
      ∀ range ∈ mgr'.vctRange, range.held = [] := by
  induction left generalizing mgr i with
  | zero =>
      refine ⟨mgr, Reaches.refl mgr, rfl, rfl, rfl, fun range mem => ?_⟩
      rcases List.mem_iff_getElem?.mp mem with ⟨j, at_j⟩
      have less := (List.getElem?_eq_some_iff.mp at_j).1
      exact visited j range (by omega) at_j
  | succ left ih =>
      have less : i < mgr.vctRange.length := by omega
      have first := execute_range (runs i less) (List.getElem?_eq_getElem less)
      have length : (mgr.vctRange.set i {}).length = mgr.vctRange.length := List.length_set
      have visited' : ∀ (j : ℕ) (range : RangeQueue α), j < i + 1 →
          (mgr.vctRange.set i {})[j]? = some range → range.held = [] := by
        intro j range before at_j
        by_cases same : i = j
        · subst same
          rw [List.getElem?_set_self less] at at_j
          cases at_j
          rfl
        · rw [List.getElem?_set_ne same] at at_j
          exact visited j range (by omega) at_j
      rcases ih { mgr.setRange i {} with executed := mgr.executed ++ mgr.vctRange[i].held } (i + 1)
          (fun j inside => runs j (length ▸ inside)) (by simp only [setRange, length]; omega)
          visited' with
        ⟨mgr', reached, sessions, adjust, added, empty⟩
      exact ⟨mgr', first.trans reached, sessions, adjust, added, empty⟩

variable [DecidableEq α]

/-- How often an action is with a session, in a queue or a list, or has been executed. -/
def found (mgr : TableTaskMgr α) (item : α) : ℕ :=
  Holders.total SessionStage.held mgr.sessions item +
    Holders.total RangeQueue.held mgr.vctRange item + mgr.lstAction.count item +
    (mgr.lstTmpAction.drop mgr.adjust.moved).count item + mgr.executed.count item

/-- What holds between the steps of a run. -/
structure Sound (mgr : TableTaskMgr α) : Prop where
  found_eq : ∀ item, mgr.found item = mgr.added.count item
  lost_eq : mgr.lost = []
  stage : mgr.StageHolds mgr.adjust

/-! ## Steps of the session threads -/

theorem Sound.proceed (sound : mgr.Sound) {stage' : SessionStage α} (mutex : Option ℕ)
    (at_i : mgr.sessions[i]? = some stage) (same : stage'.held = stage.held) :
    Sound { mgr.setSession i stage' with spinMutex := mutex } := by
  refine ⟨fun item => ?_, sound.lost_eq, sound.stage⟩
  have before := sound.found_eq item
  have sessions := Holders.total_set SessionStage.held stage' at_i item
  rw [same] at sessions
  simp only [found, setSession] at before ⊢
  omega

theorem Sound.pushTmp (sound : mgr.Sound) (at_i : mgr.sessions[i]? = some (.pushTmp action))
    (inTime : mgr.adjust.willMove = true) :
    Sound { mgr.setSession i (.unlock none) with lstTmpAction := mgr.lstTmpAction ++
      [action] } := by
  have holds := sound.stage
  have moved_le : mgr.adjust.moved ≤ mgr.lstTmpAction.length := by
    cases stageEq : mgr.adjust with
    | moving k =>
        rw [stageEq] at holds
        exact holds.2.1
    | clearing k =>
        rw [stageEq] at inTime
        cases inTime
    | _ => exact Nat.zero_le _
  refine ⟨fun item => ?_, sound.lost_eq, ?_⟩
  · have before := sound.found_eq item
    have sessions := Holders.total_set SessionStage.held (.unlock none) at_i item
    simp only [SessionStage.held, Option.toList_none, List.count_nil] at sessions
    simp only [found, setSession, List.drop_append_of_le_length moved_le,
      List.count_append] at before ⊢
    omega
  · change StageHolds _ mgr.adjust
    cases stageEq : mgr.adjust with
    | moving k =>
        rw [stageEq] at holds
        refine ⟨holds.1, ?_, holds.2.2⟩
        rw [List.length_append]
        exact Nat.le_add_right_of_le holds.2.1
    | idle => rw [stageEq] at inTime; cases inTime
    | exchanged => rw [stageEq] at inTime; cases inTime
    | clearing k => rw [stageEq] at inTime; cases inTime
    | closing => rw [stageEq] at inTime; cases inTime
    | _ =>
        rw [stageEq] at holds
        exact holds

theorem Sound.push (sound : mgr.Sound) (at_i : mgr.sessions[i]? = some (.push action r))
    (at_r : mgr.vctRange[r]? = some range)
    (inTime : mgr.adjust.drained ≤ r) :
    Sound ((mgr.setSession i .idle).setRange r
      { range with queueSessionAction := range.queueSessionAction ++ [action] }) := by
  refine ⟨fun item => ?_, sound.lost_eq, ?_⟩
  · have before := sound.found_eq item
    have sessions := Holders.total_set SessionStage.held .idle at_i item
    have ranges := Holders.total_set RangeQueue.held
      { range with queueSessionAction := range.queueSessionAction ++ [action] } at_r item
    simp only [SessionStage.held, RangeQueue.held, List.count_append, List.count_nil]
      at sessions ranges
    simp only [found, setSession, setRange] at before ⊢
    omega
  · have holds : (mgr.setSession i .idle).StageHolds mgr.adjust := sound.stage
    exact holds.setRange inTime

theorem Sound.sessionStep {judged : ℕ} (sound : mgr.Sound)
    (inTime : mgr.SessionInTime stage) (at_i : mgr.sessions[i]? = some stage)
    (stepped : mgr.sessionStep i judged stage = some mgr') : mgr'.Sound := by
  cases stage with
  | idle => cases stepped
  | test action =>
      cases stepped
      refine sound.proceed mgr.spinMutex at_i ?_
      split <;> rfl
  | lock action =>
      rcases Option.ite_none_right_eq_some.mp stepped with ⟨-, ⟨⟩⟩
      exact sound.proceed (some i) at_i rfl
  | testLocked action =>
      cases stepped
      refine sound.proceed mgr.spinMutex at_i ?_
      split <;> rfl
  | pushTmp action =>
      cases stepped
      exact sound.pushTmp at_i inTime
  | unlock left =>
      cases left with
      | none =>
          cases stepped
          exact sound.proceed none at_i rfl
      | some action =>
          cases stepped
          exact sound.proceed none at_i rfl
  | judge action =>
      rcases Option.ite_none_right_eq_some.mp stepped with ⟨-, ⟨⟩⟩
      exact sound.proceed mgr.spinMutex at_i rfl
  | push action r =>
      rcases Option.map_eq_some_iff.mp stepped with ⟨range, at_r, rfl⟩
      exact sound.push at_i at_r inTime.2

/-! ## Steps of the index tasks -/

@[simp]
theorem count_held_collect : range.collect.held.count item = range.held.count item := by
  unfold RangeQueue.collect RangeQueue.held
  simp

section

variable (sound : mgr.Sound) (runs : mgr.adjust.tasksRun = true)
  (at_i : mgr.vctRange[i]? = some range)

include sound runs at_i

theorem Sound.collect : (mgr.setRange i range.collect).Sound := by
  refine ⟨fun item => ?_, sound.lost_eq, StageHolds.setRange sound.stage
    (drained_of_tasksRun runs)⟩
  have before := sound.found_eq item
  have ranges := Holders.total_set RangeQueue.held range.collect at_i item
  rw [count_held_collect] at ranges
  simp only [found, setRange] at before ⊢
  omega

theorem Sound.exec {k : ℕ} (at_k : range.lstAction[k]? = some action) :
    Sound { mgr.setRange i { range with lstAction := range.lstAction.eraseIdx k } with
      executed := mgr.executed ++ [action] } := by
  refine ⟨fun item => ?_, sound.lost_eq, ?_⟩
  · have before := sound.found_eq item
    have ranges := Holders.total_set RangeQueue.held
      { range with lstAction := range.lstAction.eraseIdx k } at_i item
    have erased := Holders.count_eraseIdx at_k item
    simp only [RangeQueue.held, List.count_append] at ranges
    simp only [found, setRange, List.count_append] at before ⊢
    omega
  · exact StageHolds.setRange sound.stage (drained_of_tasksRun runs)

theorem Sound.pass :
    Sound { mgr.setRange i { range with lstRangeAction := range.lstRangeAction ++ [action] } with
      added := mgr.added ++ [action] } := by
  refine ⟨fun item => ?_, sound.lost_eq, ?_⟩
  · have before := sound.found_eq item
    have ranges := Holders.total_set RangeQueue.held
      { range with lstRangeAction := range.lstRangeAction ++ [action] } at_i item
    simp only [RangeQueue.held, List.count_append] at ranges
    simp only [found, setRange, List.count_append] at before ⊢
    omega
  · exact StageHolds.setRange sound.stage (drained_of_tasksRun runs)

end

/-! ## Steps of the adjusting task -/

theorem found_addActionFromLocal (added : mgr.addActionFromLocal i action = some mgr')
    (item : α) : mgr'.found item = mgr.found item + [action].count item := by
  rcases Option.map_eq_some_iff.mp added with ⟨range, at_i, rfl⟩
  have ranges := Holders.total_set RangeQueue.held
    { range with lstAction := range.lstAction ++ [action] } at_i item
  simp only [RangeQueue.held, List.count_append] at ranges
  simp only [found, setRange]
  omega

section

variable (sound : mgr.Sound)

include sound

theorem Sound.startDraining (stageEq : mgr.adjust = .waiting)
    (finished : ¬mgr.vctTask.any id = true) : (mgr.atStage (.draining 0)).Sound := by
  refine ⟨fun item => ?_, sound.lost_eq, fun running mem => ?_, fun j range less => ?_⟩
  · have before := sound.found_eq item
    simp only [found, stageEq] at before
    exact before
  · cases running with
    | false => rfl
    | true => exact absurd (List.any_eq_true.mpr ⟨true, mem, rfl⟩) finished
  · exact absurd less (Nat.not_lt_zero j)

theorem Sound.drain (stageEq : mgr.adjust = .draining i) (at_i : mgr.vctRange[i]? = some range) :
    Sound { mgr.setRange i {} with
      lstAction := mgr.lstAction ++ range.held, adjust := .draining (i + 1) } := by
  have holds := sound.stage
  rw [stageEq] at holds
  refine ⟨fun item => ?_, sound.lost_eq, holds.1, fun j other less mem => ?_⟩
  · have before := sound.found_eq item
    have ranges := Holders.total_set RangeQueue.held {} at_i item
    have empty : RangeQueue.held ({} : RangeQueue α) = [] := rfl
    rw [empty, List.count_nil] at ranges
    simp only [found, stageEq, AdjustStage.moved] at before
    simp only [found, setRange, AdjustStage.moved, List.count_append]
    omega
  · have mem : (mgr.vctRange.set i {})[j]? = some other := mem
    by_cases same : i = j
    · subst same
      rw [List.getElem?_set_self (List.getElem?_eq_some_iff.mp at_i).1] at mem
      cases mem
      rfl
    · rw [List.getElem?_set_ne same] at mem
      exact holds.2 j other (by omega) mem

theorem Sound.clearRanges {num : ℕ} (stageEq : mgr.adjust = .draining i)
    (behind : mgr.vctRange[i]? = none) :
    Sound { mgr with
      vctTask := []
      vctRange := []
      lost := mgr.lost ++ mgr.vctRange.flatMap RangeQueue.held
      adjust := .building num } := by
  have holds := sound.stage
  rw [stageEq] at holds
  have empty : ∀ range ∈ mgr.vctRange, range.held = [] := by
    intro range mem
    rcases List.mem_iff_getElem?.mp mem with ⟨j, at_j⟩
    have less := (List.getElem?_eq_some_iff.mp at_j).1
    have le := List.getElem?_eq_none_iff.mp behind
    exact holds.2 j range (Nat.lt_of_lt_of_le less le) at_j
  refine ⟨fun item => ?_, ?_, rfl⟩
  · have before := sound.found_eq item
    have none := Holders.total_eq_zero empty item
    simp only [found, stageEq, AdjustStage.moved] at before
    simp only [found, AdjustStage.moved, Holders.total_nil]
    omega
  · change mgr.lost ++ mgr.vctRange.flatMap RangeQueue.held = []
    rw [sound.lost_eq, List.flatMap_eq_nil_iff.mpr empty]
    rfl

theorem Sound.build {num : ℕ} (stageEq : mgr.adjust = .building num) :
    Sound { mgr with vctRange := mgr.vctRange ++ [{}] } := by
  have holds := sound.stage
  refine ⟨fun item => ?_, sound.lost_eq, ?_⟩
  · have before := sound.found_eq item
    have empty : RangeQueue.held ({} : RangeQueue α) = [] := rfl
    simp only [found] at before
    simp only [found, Holders.total_append, Holders.total_cons, Holders.total_nil, empty,
      List.count_nil]
    omega
  · change StageHolds _ mgr.adjust
    rw [stageEq] at holds ⊢
    exact holds

theorem Sound.distribute {rest : List α} {target : ℕ} (stageEq : mgr.adjust = .distributing)
    (lst : mgr.lstAction = action :: rest)
    (added : addActionFromLocal { mgr with lstAction := rest, adjust := .distributing }
      target action =
      some mgr') : mgr'.Sound := by
  have holds := sound.stage
  rw [stageEq] at holds
  have balance := found_addActionFromLocal added
  rcases Option.map_eq_some_iff.mp added with ⟨range, at_r, rfl⟩
  refine ⟨fun item => ?_, sound.lost_eq, ?_⟩
  · have before := sound.found_eq item
    have after := balance item
    have split : mgr.lstAction.count item = [action].count item + rest.count item := by
      rw [lst, ← List.singleton_append, List.count_append]
    rw [after]
    simp only [found, stageEq] at before ⊢
    change _ = mgr.added.count item
    omega
  · exact holds

theorem Sound.move {k target : ℕ} (stageEq : mgr.adjust = .moving k)
    (at_k : mgr.lstTmpAction[k]? = some action)
    (added : (mgr.atStage (.moving (k + 1))).addActionFromLocal target action = some mgr') :
    mgr'.Sound := by
  have holds := sound.stage
  rw [stageEq] at holds
  have balance := found_addActionFromLocal added
  rcases Option.map_eq_some_iff.mp added with ⟨range, at_r, rfl⟩
  rcases List.getElem?_eq_some_iff.mp at_k with ⟨less, actionEq⟩
  refine ⟨fun item => ?_, sound.lost_eq, holds.1, less, replicate_set _ holds.2.2⟩
  have before := sound.found_eq item
  have after := balance item
  have split : (mgr.lstTmpAction.drop k).count item =
      [action].count item + (mgr.lstTmpAction.drop (k + 1)).count item := by
    rw [List.drop_eq_getElem_cons less, actionEq, ← List.singleton_append, List.count_append]
  rw [after]
  simp only [found, stageEq, AdjustStage.moved] at before
  simp only [found, atStage, AdjustStage.moved]
  change _ = mgr.added.count item
  omega

theorem Sound.clearTmp {k : ℕ} (stageEq : mgr.adjust = .clearing k) :
    Sound { mgr with
      lstTmpAction := [], lost := mgr.lost ++ mgr.lstTmpAction.drop k, adjust := .closing } := by
  have holds := sound.stage
  rw [stageEq] at holds
  have all : mgr.lstTmpAction.drop k = [] := List.drop_eq_nil_of_le (Nat.le_of_eq holds.2.1.symm)
  refine ⟨fun item => ?_, ?_, holds.1, rfl, holds.2.2⟩
  · have before := sound.found_eq item
    simp only [found, stageEq, AdjustStage.moved, all] at before
    exact before
  · change mgr.lost ++ mgr.lstTmpAction.drop k = []
    rw [sound.lost_eq, all]
    rfl

theorem Sound.next {stage : AdjustStage} (flag : Bool) (moved : stage.moved = mgr.adjust.moved)
    (holds : mgr.StageHolds stage) :
    Sound { mgr with isReranging := flag, adjust := stage } := by
  refine ⟨fun item => ?_, sound.lost_eq, holds⟩
  have before := sound.found_eq item
  simp only [found] at before ⊢
  rw [moved]
  exact before

theorem Sound.adjustStep {num : ℕ} {judgeRange : α → ℕ}
    (stepped : mgr.adjustStep num judgeRange = some mgr') : mgr'.Sound := by
  have holds := sound.stage
  unfold TableTaskMgr.adjustStep at stepped
  cases stageEq : mgr.adjust with
  | idle =>
      simp only [stageEq] at stepped holds
      cases stepped
      exact sound.next mgr.isReranging (stageEq ▸ rfl) holds
  | exchanged =>
      simp only [stageEq] at stepped holds
      cases stepped
      exact sound.next true (stageEq ▸ rfl) holds.1
  | waiting =>
      simp only [stageEq] at stepped
      split at stepped
      · cases stepped
        exact sound
      · next finished =>
          cases stepped
          exact sound.startDraining stageEq finished
  | draining i =>
      simp only [stageEq] at stepped
      split at stepped
      · next range at_i =>
          cases stepped
          exact sound.drain stageEq at_i
      · next behind =>
          rcases Option.ite_none_left_eq_some.mp stepped with ⟨-, ⟨⟩⟩
          exact sound.clearRanges stageEq behind
  | building num =>
      simp only [stageEq] at stepped holds
      split at stepped
      · cases stepped
        have built := sound.build stageEq
        rw [stageEq] at built
        exact built
      · cases stepped
        exact sound.next mgr.isReranging (stageEq ▸ rfl) holds
  | distributing =>
      simp only [stageEq] at stepped holds
      split at stepped
      · next action rest lst => exact sound.distribute stageEq lst stepped
      · next lst =>
          cases stepped
          exact sound.next mgr.isReranging (stageEq ▸ rfl) ⟨holds, lst⟩
  | rebuilt =>
      simp only [stageEq] at stepped holds
      cases stepped
      exact sound.next false (stageEq ▸ rfl) holds
  | starting =>
      simp only [stageEq] at stepped holds
      cases stepped
      refine ⟨fun item => ?_, sound.lost_eq, holds.2, Nat.zero_le _, rfl⟩
      have before := sound.found_eq item
      simp only [found, stageEq] at before
      exact before
  | moving k =>
      simp only [stageEq] at stepped holds
      split at stepped
      · next action at_k => exact sound.move stageEq at_k stepped
      · next behind =>
          cases stepped
          have le := List.getElem?_eq_none_iff.mp behind
          exact sound.next mgr.isReranging (stageEq ▸ rfl)
            ⟨holds.1, Nat.le_antisymm holds.2.1 le, holds.2.2⟩
  | clearing k =>
      simp only [stageEq] at stepped
      cases stepped
      exact sound.clearTmp stageEq
  | closing =>
      simp only [stageEq] at stepped holds
      cases stepped
      exact sound.next mgr.isReranging (stageEq ▸ rfl) holds

end

/-! ## Runs -/

theorem Sound.step {event : TaskEvent α} (sound : mgr.Sound) (inTime : mgr.InTime event)
    (stepped : mgr.step event = some mgr') : mgr'.Sound := by
  cases event with
  | add i action =>
      simp only [TableTaskMgr.step] at stepped
      split at stepped
      · next at_i =>
          cases stepped
          refine ⟨fun item => ?_, sound.lost_eq, sound.stage⟩
          have before := sound.found_eq item
          have sessions := Holders.total_set SessionStage.held (.test action) at_i item
          simp only [SessionStage.held, List.count_nil] at sessions
          simp only [found, setSession, List.count_append] at before ⊢
          omega
      · cases stepped
  | session i judged =>
      rcases Option.bind_eq_some_iff.mp stepped with ⟨stage, at_i, stepped⟩
      exact sound.sessionStep (inTime stage at_i) at_i stepped
  | collect i =>
      rcases Option.ite_none_right_eq_some.mp stepped with ⟨runs, stepped⟩
      rcases Option.map_eq_some_iff.mp stepped with ⟨range, at_i, rfl⟩
      exact sound.collect runs.1 at_i
  | exec i k finished =>
      rcases Option.ite_none_right_eq_some.mp stepped with ⟨runs, stepped⟩
      rcases Option.bind_eq_some_iff.mp stepped with ⟨range, at_i, stepped⟩
      rcases Option.map_eq_some_iff.mp stepped with ⟨action, at_k, rfl⟩
      split
      · exact sound.exec runs.1 at_i at_k
      · exact sound
  | pass i action =>
      rcases Option.ite_none_right_eq_some.mp stepped with ⟨runs, stepped⟩
      rcases Option.map_eq_some_iff.mp stepped with ⟨range, at_i, rfl⟩
      exact sound.pass runs.1 at_i
  | stop i =>
      rcases Option.ite_none_right_eq_some.mp stepped with ⟨waits, ⟨⟩⟩
      have holds := sound.stage
      refine ⟨sound.found_eq, sound.lost_eq, ?_⟩
      change StageHolds _ mgr.adjust
      rw [waits.1] at holds ⊢
      exact holds
  | adjust num judgeRange => exact sound.adjustStep stepped

theorem Sound.taskStep (sound : mgr.Sound) {event : TaskEvent α} (only : mgr.OnlyTasks event)
    (stepped : mgr.step event = some mgr') : mgr'.Sound := by
  rcases only with ⟨i, rfl | rfl⟩
  · have inTime : mgr.InTime (.collect i) := trivial
    exact sound.step inTime stepped
  · have inTime : mgr.InTime (.exec i 0 true) := trivial
    exact sound.step inTime stepped

theorem Sound.execute_all (sound : mgr.Sound) (idle : mgr.adjust = .idle) :
    ∃ mgr', Reaches TableTaskMgr.step OnlyTasks mgr mgr' ∧
      (mgr'.executed ++ mgr.sessions.flatMap SessionStage.held).Perm mgr.added := by
  have holds := sound.stage
  rw [idle] at holds
  have runs : ∀ j, j < mgr.vctRange.length → mgr.Runs j := by
    intro j less
    refine ⟨idle ▸ rfl, ?_⟩
    rw [holds.2.2, List.getElem?_replicate, if_pos less]
  rcases execute_ranges mgr 0 mgr.vctRange.length runs (Nat.zero_add _)
    (fun j range less => absurd less (Nat.not_lt_zero j)) with
    ⟨mgr', reached, sessions, adjust, added, empty⟩
  have sound' : mgr'.Sound := by
    apply reached.preserves sound
    intro state event state' only sound stepped
    exact sound.taskStep only stepped
  have holds' := sound'.stage
  rw [adjust, idle] at holds'
  refine ⟨mgr', reached, List.perm_iff_count.mpr fun item => ?_⟩
  have balance := sound'.found_eq item
  have none := Holders.total_eq_zero empty item
  rw [added] at balance
  simp only [found, holds'.1, holds'.2.1, sessions, List.drop_nil, List.count_nil] at balance
  unfold Holders.total at balance none
  rw [List.count_append]
  omega

structure Conserves (mgr : TableTaskMgr α)
    (possible : TableTaskMgr α → TaskEvent α → Prop) : Prop where
  /-- Each action that has been added has been executed, or is with a session, in a queue of a
  range, with the adjusting task or in the temporary list: exactly one of these. -/
  kept : (mgr.executed ++ mgr.sessions.flatMap SessionStage.held ++
    mgr.vctRange.flatMap RangeQueue.held ++ mgr.lstAction ++
    mgr.lstTmpAction.drop mgr.adjust.moved).Perm mgr.added
  /-- No queue and no list is cleared while something is in it. -/
  lost : mgr.lost = []
  /-- Behind the adjustment nothing is left in the temporary list, and a task runs for each
  range. -/
  settled : mgr.adjust = .idle → mgr.lstTmpAction = [] ∧ mgr.lstAction = [] ∧
    mgr.vctTask = List.replicate mgr.vctRange.length true
  /-- A session finds the ranges and queues it looks at. -/
  proceeds : ∀ (i judged : ℕ) (stage : SessionStage α), mgr.sessions[i]? = some stage →
    stage ≠ .idle → (mgr.spinMutex ≠ none → ∀ action, stage ≠ .lock action) →
    judged < mgr.vctRange.length → possible mgr (.session i judged) →
    ∃ mgr', mgr.step (.session i judged) = some mgr'
  /-- When the sessions are through, the tasks can execute everything. -/
  complete : mgr.adjust = .idle → (∀ stage ∈ mgr.sessions, stage = .idle) →
    ∃ mgr', Reaches TableTaskMgr.step OnlyTasks mgr mgr' ∧ mgr'.executed.Perm mgr.added

theorem Sound.new (α : Type) [DecidableEq α] (sessionGroupNum : ℕ) :
    (TableTaskMgr.new α sessionGroupNum).Sound := by
  refine ⟨fun item => ?_, rfl, rfl, rfl, rfl⟩
  have idle : ∀ stage ∈ List.replicate sessionGroupNum (SessionStage.idle : SessionStage α),
      stage.held = [] := by
    intro stage mem
    rw [List.eq_of_mem_replicate mem]
    rfl
  have none := Holders.total_eq_zero idle item
  simp only [found, TableTaskMgr.new, none]
  rfl

/-- No action is lost or executed twice in a run in which each action is pushed in time. -/
theorem conserves_of_inTime {sessionGroupNum : ℕ}
    (run : Reaches TableTaskMgr.step InTime (TableTaskMgr.new α sessionGroupNum) mgr) :
    mgr.Conserves InTime := by
  have sound : mgr.Sound := by
    apply run.preserves (Sound.new α sessionGroupNum)
    intro state event state' inTime sound stepped
    exact sound.step inTime stepped
  refine ⟨List.perm_iff_count.mpr fun item => ?_, sound.lost_eq, fun idle => ?_, ?_, ?_⟩
  · have balance := sound.found_eq item
    simp only [found, Holders.total] at balance
    simp only [List.count_append]
    omega
  · have holds := sound.stage
    rw [idle] at holds
    exact ⟨holds.2.1, holds.1, holds.2.2⟩
  · intro i judged stage at_i busy free inside inTime
    exact proceeds_of_inTime at_i busy free inside inTime
  · intro idle through
    rcases sound.execute_all idle with ⟨mgr', reached, executed⟩
    have none : mgr.sessions.flatMap SessionStage.held = [] := by
      rw [List.flatMap_eq_nil_iff]
      intro stage mem
      rw [through stage mem]
      rfl
    rw [none, List.append_nil] at executed
    exact ⟨mgr', reached, executed⟩

end Runs

/-!
## Runs that can be computed
-/

instance (mgr : TableTaskMgr α) (stage : SessionStage α) : Decidable (mgr.SessionInTime stage) :=
  match stage with
  | .idle => inferInstanceAs (Decidable True)
  | .test _ => inferInstanceAs (Decidable True)
  | .lock _ => inferInstanceAs (Decidable True)
  | .testLocked _ => inferInstanceAs (Decidable True)
  | .pushTmp _ => inferInstanceAs (Decidable (mgr.adjust.willMove = true))
  | .unlock _ => inferInstanceAs (Decidable True)
  | .judge _ => inferInstanceAs (Decidable (mgr.adjust.ranged = true))
  | .push _ r => inferInstanceAs (Decidable (r < mgr.vctRange.length ∧ mgr.adjust.drained ≤ r))

instance (mgr : TableTaskMgr α) (event : TaskEvent α) : Decidable (mgr.InTime event) :=
  match event with
  | .add _ _ => inferInstanceAs (Decidable True)
  | .session i _ => inferInstanceAs
      (Decidable (∀ stage ∈ mgr.sessions[i]?, mgr.SessionInTime stage))
  | .collect _ => inferInstanceAs (Decidable True)
  | .exec _ _ _ => inferInstanceAs (Decidable True)
  | .pass _ _ => inferInstanceAs (Decidable True)
  | .stop _ => inferInstanceAs (Decidable True)
  | .adjust _ _ => inferInstanceAs (Decidable True)

/-- The range is divided into two. One session pushes its action before, and the other one puts its
action into the temporary list. -/
def adjustEvents : List (TaskEvent ℕ) :=
  [.add 0 7, .session 0 0, .session 0 0, .adjust 2 id, .adjust 2 id, .add 1 8, .session 1 0,
    .session 0 0, .stop 0, .adjust 2 id] ++ List.replicate 3 (.session 1 0) ++
    List.replicate 10 (.adjust 2 fun action => action - 7) ++ [.session 1 0] ++
    List.replicate 3 (.adjust 2 fun action => action - 7) ++ [.collect 0, .exec 0 0 true]

theorem conserves_adjustEvents :
    ∃ mgr, execPermitted step InTime adjustEvents (new ℕ 2) = some mgr ∧
      mgr.Conserves InTime := by
  have ends : (execPermitted step InTime adjustEvents (new ℕ 2)).isSome = true := by
    decide +kernel
  rcases Option.isSome_iff_exists.mp ends with ⟨mgr, executed⟩
  exact ⟨mgr, executed, conserves_of_inTime (reaches_of_execPermitted _ executed)⟩

/-- A session has seen twice that the ranges are adjusted. It puts its action into the temporary
list when this list has been moved and cleared. -/
def lateEvents : List (TaskEvent ℕ) :=
  [.adjust 1 id, .adjust 1 id, .add 0 7] ++ List.replicate 3 (.session 0 0) ++ [.stop 0] ++
    List.replicate 11 (.adjust 1 id) ++ [.session 0 0, .session 0 0]

theorem not_conserves :
    ¬∀ (sessionGroupNum : ℕ) (mgr : TableTaskMgr ℕ),
      Reaches step anyInput (new ℕ sessionGroupNum) mgr → mgr.Conserves anyInput := by
  intro conserves
  have ends : (exec step lateEvents (new ℕ 1)).map (fun mgr =>
      (mgr.adjust, mgr.sessions, mgr.lstTmpAction)) = some (.idle, [.idle], [7]) := by
    decide +kernel
  rcases Option.map_eq_some_iff.mp ends with ⟨mgr, executed, mgrEq⟩
  simp only [Prod.mk.injEq] at mgrEq
  rcases mgrEq with ⟨idle, -, left⟩
  have settled := (conserves 1 mgr (reaches_of_exec _ executed)).settled idle
  rw [left] at settled
  cases settled.1

end TableTaskMgr

end RapidDb
