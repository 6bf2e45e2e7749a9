import Mathlib.Algebra.GroupWithZero.Nat
import Mathlib.Data.List.Basic

/-!
# Another number of session tasks

`SessionAdjustTask` stops the session tasks and gives the session groups of those that have finished
to new ones. The vector of the new tasks is only resized, so there is no task in it.
-/

namespace RapidDb

namespace SessionAdjust

/-- The parts of `SessionTask`: the serial numbers of its groups, and its status. -/
structure SessionTask where
  vctGroup : List ℕ
  bStop : Bool
  finished : Bool
deriving DecidableEq, Repr

def SessionTask.new : SessionTask where
  vctGroup := []
  bStop := false
  finished := false

/-- `AddSessionGroup`. -/
def SessionTask.addSessionGroup (group : ℕ) (task : SessionTask) : SessionTask :=
  { task with vctGroup := task.vctGroup ++ [group] }

/-- `SetStop`. -/
def SessionTask.setStop (task : SessionTask) : SessionTask :=
  { task with bStop := true }

/-- The end of `Run` while the pool has not been closed. -/
def SessionTask.run (task : SessionTask) : SessionTask :=
  { task with finished := task.bStop }

/-- The task objects, the vector of the tasks, the tasks that the thread pool has got, and those
that have been deleted. -/
structure SessionPool where
  heap : List SessionTask
  vctTask : List (Option ℕ)
  scheduled : List ℕ
  deleted : List (Option ℕ)
deriving DecidableEq, Repr

structure SessionAdjustTask where
  newTaskNum : ℕ
  vctOldTask : List (Option ℕ)
deriving DecidableEq, Repr

/-- An index behind the end of the vector, or a null pointer in it. -/
inductive AdjustFault where
  | outOfRange
  | nullTask
deriving DecidableEq, Repr

/-- The arguments of `InitPool`, and the later number of tasks. -/
structure AdjustInit where
  groupNum : ℕ
  taskNum : ℕ
  newTaskNum : ℕ
  groupPower : ∃ power < 16, groupNum = 2 ^ power
  taskPower : ∃ power, taskNum = 2 ^ power
  newTaskPower : ∃ power, newTaskNum = 2 ^ power
  taskNum_le : taskNum ≤ groupNum
  newTaskNum_le : newTaskNum ≤ groupNum

/-- The loop of `InitPool` over the groups. -/
def initLoop (num : ℕ) (heap : List SessionTask) : List ℕ → List SessionTask
  | [] => heap
  | i :: groups =>
      let heap := if i % num = 0 then heap ++ [SessionTask.new] else heap
      initLoop num (heap.modify (heap.length - 1) (SessionTask.addSessionGroup i)) groups

/-- `InitPool`. -/
def AdjustInit.initPool (init : AdjustInit) : SessionPool :=
  let heap := initLoop (init.groupNum / init.taskNum) [] (List.range init.groupNum)
  { heap
    vctTask := (List.range heap.length).map some
    scheduled := List.range heap.length
    deleted := [] }

namespace SessionAdjustTask

/-- The first part of `Run`: the vectors are swapped, and the old tasks are told to stop. -/
def swapTasks (task : SessionAdjustTask) (pool : SessionPool) : SessionAdjustTask × SessionPool :=
  ({ task with vctOldTask := pool.vctTask },
    { pool with
      vctTask := List.replicate task.newTaskNum none
      heap := pool.vctTask.foldl
        (fun heap old => old.elim heap fun place => heap.modify place SessionTask.setStop)
        pool.heap })

/-- The groups of a finished task go to new tasks. -/
def addGroups (newTaskNum : ℕ) (pool : SessionPool) : List ℕ → Except AdjustFault SessionPool
  | [] => .ok pool
  | group :: vctGroup =>
      match pool.vctTask[group / newTaskNum]? with
      | none => .error .outOfRange
      | some none => .error .nullTask
      | some (some place) =>
          addGroups newTaskNum
            { pool with heap := pool.heap.modify place (SessionTask.addSessionGroup group) }
              vctGroup

/-- The loop over the old tasks, with `empty`. -/
def moveGroups (newTaskNum : ℕ) (pool : SessionPool) (empty : Bool) :
    List (Option ℕ) → Except AdjustFault (Bool × SessionPool)
  | [] => .ok (empty, pool)
  | none :: vctOldTask => moveGroups newTaskNum pool empty vctOldTask
  | some place :: vctOldTask =>
      match pool.heap[place]? with
      | none => .error .nullTask
      | some old =>
          if old.finished then
            match addGroups newTaskNum pool old.vctGroup with
            | .error fault => .error fault
            | .ok pool => moveGroups newTaskNum pool empty vctOldTask
          else moveGroups newTaskNum pool false vctOldTask

/-- `Run`, with true if the task has finished. -/
def run (task : SessionAdjustTask) (pool : SessionPool) :
    Except AdjustFault (Bool × SessionAdjustTask × SessionPool) :=
  let (task, pool) := if task.vctOldTask = [] then task.swapTasks pool else (task, pool)
  match moveGroups task.newTaskNum pool true task.vctOldTask with
  | .error fault => .error fault
  | .ok (true, pool) =>
      .ok (true, { task with vctOldTask := [] },
        { pool with deleted := pool.deleted ++ task.vctOldTask })
  | .ok (false, pool) => .ok (false, task, pool)

/-- Calls of `Run`, with the session tasks that run before each of the later ones. -/
def runRounds (task : SessionAdjustTask) (pool : SessionPool) (rounds : List (List ℕ)) :
    Except AdjustFault (Bool × SessionAdjustTask × SessionPool) :=
  match task.run pool, rounds with
  | .error fault, _ => .error fault
  | .ok (true, task, pool), _ => .ok (true, task, pool)
  | .ok (false, task, pool), [] => .ok (false, task, pool)
  | .ok (false, task, pool), places :: rounds =>
      task.runRounds { pool with
        heap := places.foldl (fun heap place => heap.modify place SessionTask.run) pool.heap }
          rounds

end SessionAdjustTask

namespace AdjustInit

variable (init : AdjustInit)

/-- The calls of `Run` for another number of tasks. -/
def adjust (rounds : List (List ℕ)) : Except AdjustFault (Bool × SessionAdjustTask × SessionPool) :=
  SessionAdjustTask.runRounds ⟨init.newTaskNum, []⟩ init.initPool rounds

/-- Every group belongs to exactly one new task, every new task exists, has got groups and is in
the thread pool, and every old task has been deleted once. -/
structure Adjusted (pool : SessionPool) : Prop where
  groups : ∀ group < init.groupNum,
    (pool.vctTask.flatMap fun task => task.elim [] fun place =>
      pool.heap[place]?.elim [] SessionTask.vctGroup).count group = 1
  tasks : pool.vctTask.length = init.newTaskNum
  tasksRun : ∀ task ∈ pool.vctTask, ∃ place ∈ pool.scheduled, task = some place ∧
    ∃ new, pool.heap[place]? = some new ∧ new.vctGroup ≠ []
  oldDeleted : ∀ task ∈ init.initPool.vctTask, pool.deleted.count task = 1

/-- The session tasks all run again before a later call. -/
def Complete (rounds : List (List ℕ)) : Prop :=
  ∀ place < init.initPool.heap.length, ∃ places ∈ rounds, place ∈ places

/-- The adjustment ends, and all groups have got tasks. -/
def GroupsSurvive (rounds : List (List ℕ)) : Prop :=
  ∃ task pool, init.adjust rounds = .ok (true, task, pool) ∧ init.Adjusted pool

end AdjustInit

namespace SessionAdjustTask

variable {newTaskNum : ℕ} {pool : SessionPool}

theorem addGroups_faults (noTask : pool.vctTask = List.replicate newTaskNum none)
    {vctGroup : List ℕ} (someGroup : vctGroup ≠ []) :
    ∃ fault, addGroups newTaskNum pool vctGroup = .error fault := by
  cases vctGroup with
  | nil => exact absurd rfl someGroup
  | cons group vctGroup =>
      by_cases inside : group / newTaskNum < newTaskNum
      · refine ⟨.nullTask, ?_⟩
        simp [addGroups, noTask, inside]
      · refine ⟨.outOfRange, ?_⟩
        simp [addGroups, noTask, inside]

/-- The loop over the old tasks only passes by those that still run or have no groups. -/
theorem moveGroups_ok (noTask : pool.vctTask = List.replicate newTaskNum none)
    {vctOldTask : List (Option ℕ)} {empty empty' : Bool} {pool' : SessionPool}
    (moved : moveGroups newTaskNum pool empty vctOldTask = .ok (empty', pool')) :
    pool' = pool ∧ (empty' = true → empty = true) ∧
      ∀ place old, some place ∈ vctOldTask → pool.heap[place]? = some old → old.vctGroup ≠ [] →
        old.finished = false ∧ empty' = false := by
  induction vctOldTask generalizing empty with
  | nil =>
      cases moved
      exact ⟨rfl, id, by simp⟩
  | cons first vctOldTask ih =>
      cases first with
      | none =>
          simp only [moveGroups] at moved
          rcases ih moved with ⟨same, wasEmpty, passed⟩
          refine ⟨same, wasEmpty, ?_⟩
          intro place old mem
          exact passed place old (by simpa using mem)
      | some first =>
          simp only [moveGroups] at moved
          split at moved
          · cases moved
          · rename_i task found
            split at moved
            · rename_i finished
              by_cases noGroup : task.vctGroup = []
              · simp only [noGroup, addGroups] at moved
                rcases ih moved with ⟨same, wasEmpty, passed⟩
                refine ⟨same, wasEmpty, ?_⟩
                intro place old mem foundOld someGroup
                rcases List.mem_cons.mp mem with isFirst | mem
                · cases isFirst
                  rw [found] at foundOld
                  cases foundOld
                  exact absurd noGroup someGroup
                · exact passed place old mem foundOld someGroup
              · rcases addGroups_faults noTask noGroup with ⟨fault, isFault⟩
                simp only [isFault] at moved
                cases moved
            · rename_i running
              rcases ih moved with ⟨same, wasEmpty, passed⟩
              have isFalse : empty' = false := by
                by_contra isTrue
                exact absurd (wasEmpty (by simpa using isTrue)) (by simp)
              refine ⟨same, by simp [isFalse], ?_⟩
              intro place old mem foundOld someGroup
              rcases List.mem_cons.mp mem with isFirst | mem
              · cases isFirst
                rw [found] at foundOld
                cases foundOld
                exact ⟨by simpa using running, isFalse⟩
              · exact passed place old mem foundOld someGroup

/-- The first old task has groups and has been told to stop, and there is no new task. -/
structure Waits (task : SessionAdjustTask) (pool : SessionPool) (first : SessionTask) : Prop where
  noTask : pool.vctTask = List.replicate task.newTaskNum none
  old : some 0 ∈ task.vctOldTask
  found : pool.heap[0]? = some first
  someGroup : first.vctGroup ≠ []
  stops : first.bStop = true

variable {task : SessionAdjustTask} {first : SessionTask}

theorem run_cases (waits : task.Waits pool first) :
    (∃ fault, task.run pool = .error fault) ∨
      task.run pool = .ok (false, task, pool) ∧ first.finished = false := by
  have notFirst : task.vctOldTask ≠ [] := List.ne_nil_of_mem waits.old
  simp only [run, notFirst, if_false]
  cases moved : moveGroups task.newTaskNum pool true task.vctOldTask with
  | error fault => exact Or.inl ⟨fault, rfl⟩
  | ok result =>
      rcases result with ⟨empty, pool'⟩
      rcases moveGroups_ok waits.noTask moved with ⟨same, -, passed⟩
      rcases passed 0 first waits.old waits.found waits.someGroup with ⟨running, isFalse⟩
      subst same isFalse
      exact Or.inr ⟨rfl, running⟩

theorem getElem?_run (heap : List SessionTask) (places : List ℕ) (place : ℕ) :
    (places.foldl (fun heap place => heap.modify place SessionTask.run) heap)[place]? =
      heap[place]?.map fun task => if place ∈ places then task.run else task := by
  induction places generalizing heap with
  | nil => simp
  | cons other places ih =>
      simp only [List.foldl_cons, ih, List.getElem?_modify, List.mem_cons]
      by_cases same : other = place
      · subst same
        cases heap[other]? with
        | none => rfl
        | some task =>
            by_cases again : other ∈ places
            · simp [again, SessionTask.run]
            · simp [again]
      · simp [same, Ne.symm same]

theorem runRounds_faults {rounds : List (List ℕ)} (waits : task.Waits pool first)
    (finishes : first.finished = true ∨ ∃ places ∈ rounds, 0 ∈ places) :
    ∃ fault, task.runRounds pool rounds = .error fault := by
  induction rounds generalizing pool first with
  | nil =>
      rcases run_cases waits with ⟨fault, isFault⟩ | ⟨ran, running⟩
      · exact ⟨fault, by simp [runRounds, isFault]⟩
      · simp [running] at finishes
  | cons places rounds ih =>
      rcases run_cases waits with ⟨fault, isFault⟩ | ⟨ran, running⟩
      · exact ⟨fault, by simp [runRounds, isFault]⟩
      · unfold runRounds
        simp only [ran]
        have found := getElem?_run pool.heap places 0
        rw [waits.found] at found
        by_cases mem : 0 ∈ places
        · simp only [Option.map_some, mem, if_true] at found
          exact ih { waits with found := found }
            (Or.inl waits.stops)
        · simp only [Option.map_some, mem, if_false] at found
          refine ih { waits with found := found } ?_
          right
          simpa [running, mem] using finishes

theorem getElem?_setStop (heap : List SessionTask) (tasks : List (Option ℕ)) (place : ℕ) :
    (tasks.foldl (fun heap old => old.elim heap fun place =>
        heap.modify place SessionTask.setStop) heap)[place]? =
      heap[place]?.map fun task => if some place ∈ tasks then task.setStop else task := by
  induction tasks generalizing heap with
  | nil => simp
  | cons other tasks ih =>
      simp only [List.foldl_cons, ih, List.mem_cons]
      cases other with
      | none => simp
      | some other =>
          simp only [Option.elim_some, List.getElem?_modify, Option.some.injEq]
          by_cases same : other = place
          · subst same
            cases heap[other]? with
            | none => rfl
            | some task =>
                by_cases again : some other ∈ tasks
                · simp [again, SessionTask.setStop]
                · simp [again]
          · simp [same, Ne.symm same]

end SessionAdjustTask

theorem initLoop_first {num : ℕ} {heap : List SessionTask} {first : SessionTask}
    (found : heap[0]? = some first) (someGroup : first.vctGroup ≠ []) (groups : List ℕ) :
    ∃ first', (initLoop num heap groups)[0]? = some first' ∧ first'.vctGroup ≠ [] := by
  induction groups generalizing heap first with
  | nil => exact ⟨first, found, someGroup⟩
  | cons i groups ih =>
      have kept : (if i % num = 0 then heap ++ [SessionTask.new] else heap)[0]? = some first := by
        have inside := (List.getElem?_eq_some_iff.mp found).1
        split
        · rw [List.getElem?_append_left inside, found]
        · exact found
      simp only [initLoop]
      generalize (if i % num = 0 then heap ++ [SessionTask.new] else heap) = heap' at kept ⊢
      by_cases isFirst : heap'.length - 1 = 0
      · have added : (heap'.modify (heap'.length - 1) (·.addSessionGroup i))[0]? =
            some (first.addSessionGroup i) := by
          simp [isFirst, kept]
        exact ih added (by simp [SessionTask.addSessionGroup])
      · have unchanged : (heap'.modify (heap'.length - 1) (·.addSessionGroup i))[0]? =
            some first := by
          simp [isFirst, kept]
        exact ih unchanged someGroup

namespace AdjustInit

variable (init : AdjustInit)

theorem groupNum_pos : 0 < init.groupNum := by
  rcases init.groupPower with ⟨power, -, isPower⟩
  rw [isPower]
  exact Nat.two_pow_pos power

theorem heap_first :
    ∃ first, init.initPool.heap[0]? = some first ∧ first.vctGroup ≠ [] := by
  rcases Nat.exists_eq_succ_of_ne_zero (Nat.ne_of_gt init.groupNum_pos) with ⟨more, isMore⟩
  simp only [initPool, isMore, List.range_succ_eq_map, initLoop, Nat.zero_mod, if_true]
  exact initLoop_first rfl (by simp [SessionTask.addSessionGroup]) _

theorem adjust_faults {rounds : List (List ℕ)} (complete : init.Complete rounds) :
    ∃ fault, init.adjust rounds = .error fault := by
  rcases init.heap_first with ⟨first, found, someGroup⟩
  have inside := (List.getElem?_eq_some_iff.mp found).1
  have mem : some 0 ∈ init.initPool.vctTask := by
    change some 0 ∈ (List.range init.initPool.heap.length).map some
    exact List.mem_map.mpr ⟨0, List.mem_range.mpr inside, rfl⟩
  have notEmpty : init.initPool.vctTask ≠ [] := List.ne_nil_of_mem mem
  let start : SessionAdjustTask := ⟨init.newTaskNum, []⟩
  have waits : (start.swapTasks init.initPool).1.Waits (start.swapTasks init.initPool).2
      first.setStop := by
    refine ⟨rfl, mem, ?_, someGroup, rfl⟩
    have stopped := SessionAdjustTask.getElem?_setStop init.initPool.heap init.initPool.vctTask 0
    rw [found] at stopped
    simpa [SessionAdjustTask.swapTasks, mem] using stopped
  have sameRun : start.run init.initPool =
      (start.swapTasks init.initPool).1.run (start.swapTasks init.initPool).2 := by
    simp [SessionAdjustTask.run, start, SessionAdjustTask.swapTasks, notEmpty]
  have sameRounds : init.adjust rounds = (start.swapTasks init.initPool).1.runRounds
      (start.swapTasks init.initPool).2 rounds := by
    unfold adjust SessionAdjustTask.runRounds
    rw [← sameRun]
  rw [sameRounds]
  exact SessionAdjustTask.runRounds_faults waits (Or.inr (complete 0 inside))

/-- The groups never get new tasks. -/
theorem not_groupsSurvive_of_complete (rounds : List (List ℕ)) (complete : init.Complete rounds) :
    ¬init.GroupsSurvive rounds := by
  rintro ⟨task, pool, adjusted, -⟩
  rcases init.adjust_faults complete with ⟨fault, isFault⟩
  rw [isFault] at adjusted
  cases adjusted

/-- Four groups, and one task instead of two. -/
def oneTask : AdjustInit where
  groupNum := 4
  taskNum := 2
  newTaskNum := 1
  groupPower := ⟨2, by decide, rfl⟩
  taskPower := ⟨1, rfl⟩
  newTaskPower := ⟨0, rfl⟩
  taskNum_le := by decide
  newTaskNum_le := by decide

theorem not_groupsSurvive_oneTask : ¬oneTask.GroupsSurvive [[1], [0]] :=
  oneTask.not_groupsSurvive_of_complete [[1], [0]] (by unfold Complete; decide)

theorem not_groupsSurvive : ¬∀ (init : AdjustInit) (rounds : List (List ℕ)),
    init.Complete rounds → init.GroupsSurvive rounds := by
  intro survive
  rcases survive oneTask [[1], [0]] (by unfold Complete; decide) with ⟨task, pool, adjusted, -⟩
  have faults : oneTask.adjust [[1], [0]] = .error .outOfRange := by decide
  rw [faults] at adjusted
  cases adjusted

end AdjustInit

end SessionAdjust

end RapidDb
