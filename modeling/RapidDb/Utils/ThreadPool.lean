import RapidDb.Library.Holders
import RapidDb.Library.Transition

/-!
# The thread pool

The thread that manages the pool collects the tasks that have been added, starts and stops threads,
and pushes each task into the queue of a thread. A thread takes what has been pushed into its vector
and runs the tasks of the vector in turn. A task that needs a thread for itself is exclusive; the
manager sets the flag of a thread before it pushes such a task, and the thread gives its other tasks
back when it receives one.

Manager, threads and those who add tasks run at the same time. What is one step here is a part of a
function in which at most one access to what others use matters; the two queues of the pool are one
list. What depends on measured times is left open: which threads are started and stopped, which
thread gets a task, whether a thread is busy and which of its tasks it gives away. The pool is not
stopped. Tasks are numbers, and a task is added again only after it has finished. The build is the
default one, without assertions.
-/

namespace RapidDb

open Transition

namespace ThreadPool

/-- Where a thread is in `WorkProc`. -/
inductive WorkStage where
  | top
  /-- With what has been taken out of the queue. -/
  | popped (lst : List ℕ)
  /-- Before the test of the exclusive flag. -/
  | test
  | exclusive
  /-- In the loop over the normal tasks. -/
  | normal (i : ℕ)
  | bottom
deriving DecidableEq, Repr

structure ThreadPara where
  vctTask : List ℕ := []
  lineQueueTask : List ℕ := []
  bRunning : Bool := false
  bStop : Bool := true
  bExclusiveTask : Bool := false
  bSelRmTask : Bool := false
  stage : WorkStage := .top
deriving DecidableEq, Repr

/-- Where the manager is in `ManageProc`. -/
inductive ManageStage where
  | collect
  /-- Threads are started and stopped. -/
  | check
  | dispatch
  /-- The flag of a thread is set, and the exclusive task still to be pushed. -/
  | push (task pos : ℕ)
  /-- The task has been pushed, and its mask or name is still to be read. -/
  | use (task pos : ℕ)
deriving DecidableEq, Repr

end ThreadPool

structure ThreadPool where
  queueTask : List ℕ := []
  vctThreadPara : List ThreadPool.ThreadPara
  manage : ThreadPool.ManageStage := .collect
  /-- The list of the manager. -/
  queue : List ℕ := []
  unfinished : List ℕ := []
  /-- A task has been used that was no longer its user's, or through an entry that is gone. -/
  misused : Bool := false
deriving DecidableEq, Repr

namespace ThreadPool

def WorkStage.held : WorkStage → List ℕ
  | .popped lst => lst
  | _ => []

/-- The tasks that a thread has, or will take out of its queue. -/
def ThreadPara.held (tpara : ThreadPara) : List ℕ :=
  tpara.lineQueueTask ++ tpara.stage.held ++ tpara.vctTask

/-- The task that the manager has in its hands. -/
def ManageStage.held : ManageStage → List ℕ
  | .push task _ => [task]
  | _ => []

/-- Whether the manager still uses a task that it has pushed into the queue of a thread. -/
def ManageStage.usesIn (manage : ManageStage) (i : ℕ) : Bool :=
  match manage with
  | .use _ pos => pos = i
  | _ => false

def setPara (pool : ThreadPool) (i : ℕ) (tpara : ThreadPara) : ThreadPool :=
  { pool with vctThreadPara := pool.vctThreadPara.set i tpara }

/-! ## A thread -/

/-- What has been taken out of the queue is put into the vector. A single exclusive task replaces
the tasks of the thread. -/
def receive (isExclusive : ℕ → Bool) (pool : ThreadPool) (i : ℕ) (tpara : ThreadPara)
    (lst : List ℕ) : ThreadPool :=
  if lst.length = 1 ∧ lst.all isExclusive then
    { pool.setPara i { tpara with vctTask := lst, stage := .test } with
      queueTask := pool.queueTask ++ tpara.vctTask }
  else pool.setPara i { tpara with vctTask := tpara.vctTask ++ lst, stage := .test }

/-- The first task runs as the exclusive one, and the vector is cleared when it has finished. A
thread that is stopped gives the task back, and then reads its name from the vector that has been
cleared. -/
def runExclusive (pool : ThreadPool) (i : ℕ) (tpara : ThreadPara) (finished : Bool) :
    Option ThreadPool :=
  match tpara.vctTask with
  | [] => none
  | task :: _ =>
      if finished then
        some { pool.setPara i
            { tpara with vctTask := [], bExclusiveTask := false, stage := .bottom } with
          unfinished := pool.unfinished.erase task }
      else if tpara.bStop then
        some { pool.setPara i
            { tpara with
              vctTask := [], bExclusiveTask := false, bRunning := false, stage := .top } with
          queueTask := pool.queueTask ++ [task]
          misused := true }
      else some (pool.setPara i { tpara with stage := .top })

/-- The next task of the vector runs. -/
def runNormal (pool : ThreadPool) (i : ℕ) (tpara : ThreadPara) (k : ℕ) (finished : Bool) :
    ThreadPool :=
  match tpara.vctTask[k]? with
  | none => pool.setPara i { tpara with stage := .bottom }
  | some task =>
      if finished then
        { pool.setPara i { tpara with vctTask := tpara.vctTask.eraseIdx k } with
          unfinished := pool.unfinished.erase task }
      else pool.setPara i { tpara with stage := .normal (k + 1) }

def ThreadPara.givesAway (tpara : ThreadPara) (busy : Bool) : Prop :=
  tpara.bSelRmTask = true ∧ busy = true ∧ 1 < tpara.vctTask.length

instance (tpara : ThreadPara) (busy : Bool) : Decidable (tpara.givesAway busy) :=
  inferInstanceAs (Decidable (_ ∧ _))

/-- The end of the loop. A busy thread gives a task away, and reads its name through the iterator
that has been erased; a thread that is stopped gives back what it has. -/
def endRound (pool : ThreadPool) (i : ℕ) (tpara : ThreadPara) (busy : Bool) (itSel : ℕ) :
    Option ThreadPool :=
  if tpara.givesAway busy then
    (tpara.vctTask[itSel]?).map fun task =>
      { pool.setPara i
          { tpara with
            vctTask := tpara.vctTask.eraseIdx itSel, bSelRmTask := false, stage := .top } with
        queueTask := pool.queueTask ++ [task]
        misused := true }
  else if tpara.bStop then
    some { pool.setPara i { tpara with vctTask := [], bRunning := false, stage := .top } with
      queueTask := pool.queueTask ++ tpara.vctTask }
  else some (pool.setPara i { tpara with stage := .top })

/-- The next step of `WorkProc`; none for a thread that does not run. -/
def workProc (isExclusive : ℕ → Bool) (pool : ThreadPool) (i : ℕ) (tpara : ThreadPara)
    (finished busy : Bool) (itSel : ℕ) : Option ThreadPool :=
  if tpara.bRunning = false then none
  else
    match tpara.stage with
    | .top =>
        some (pool.setPara i
          { tpara with lineQueueTask := [], stage := .popped tpara.lineQueueTask })
    | .popped lst => some (pool.receive isExclusive i tpara lst)
    | .test =>
        some (pool.setPara i { tpara with
          stage :=
            if tpara.vctTask = [] then .bottom
            else if tpara.bExclusiveTask then .exclusive
            else .normal 0 })
    | .exclusive => pool.runExclusive i tpara finished
    | .normal k => some (pool.runNormal i tpara k finished)
    | .bottom => pool.endRound i tpara busy itSel

/-! ## The manager -/

/-- `CreateWorkThread` for the first thread that does not run, if there is one. -/
def createWorkThread (pool : ThreadPool) : ThreadPool :=
  let id := pool.vctThreadPara.findIdx fun tpara => !tpara.bRunning
  match pool.vctThreadPara[id]? with
  | none => pool
  | some tpara =>
      pool.setPara id { tpara with
        bStop := false, bRunning := true, bExclusiveTask := false, stage := .top }

/-- A thread that gets no task now. -/
def ThreadPara.taken (tpara : ThreadPara) : Bool := tpara.bStop || tpara.bExclusiveTask

/-- Hands the first task of the list out to a thread. For an exclusive task the flag comes first.
Where no thread gets one, the task goes in front of the first thread, and so nowhere. -/
def dispatchTask (isExclusive : ℕ → Bool) (pool : ThreadPool) (pos : ℕ) : Option ThreadPool :=
  match pool.queue with
  | [] => none
  | task :: queue =>
      if pool.vctThreadPara.all ThreadPara.taken then
        some { pool with queue := queue, misused := true }
      else
        (pool.vctThreadPara[pos]?).bind fun tpara =>
          if tpara.taken then none
          else if isExclusive task then
            some { pool.setPara pos { tpara with bExclusiveTask := true } with
              queue := queue
              manage := .push task pos }
          else
            some { pool.setPara pos
                { tpara with lineQueueTask := tpara.lineQueueTask ++ [task] } with
              queue := queue
              manage := .use task pos }

inductive PoolEvent where
  | addTask (task : ℕ)
  | workProc (i : ℕ) (finished busy : Bool) (itSel : ℕ)
  | collect
  | createWorkThread
  /-- The slowest thread is selected to give a task away. -/
  | selectRm (i : ℕ)
  | stopThread (i : ℕ)
  | checked
  | dispatchTask (pos : ℕ)
  /-- The exclusive task is pushed. -/
  | pushTask
  /-- The mask or the name of the task that has been pushed is read. -/
  | useTask
  | dispatched

def next (isExclusive : ℕ → Bool) (pool : ThreadPool) : PoolEvent → Option ThreadPool
  | .addTask task =>
      if task ∈ pool.unfinished then none
      else some { pool with
        queueTask := pool.queueTask ++ [task], unfinished := pool.unfinished ++ [task] }
  | .workProc i finished busy itSel =>
      (pool.vctThreadPara[i]?).bind fun tpara =>
        pool.workProc isExclusive i tpara finished busy itSel
  | .collect =>
      if pool.manage = .collect then
        some { pool with
          queue := pool.queue ++ pool.queueTask, queueTask := [], manage := .check }
      else none
  | .createWorkThread =>
      if pool.manage = .check ∨ pool.manage = .dispatch then some pool.createWorkThread else none
  | .selectRm i =>
      if pool.manage = .check then
        (pool.vctThreadPara[i]?).map fun tpara => pool.setPara i { tpara with bSelRmTask := true }
      else none
  | .stopThread i =>
      if pool.manage = .check then
        (pool.vctThreadPara[i]?).bind fun tpara =>
          if tpara.taken then none else some (pool.setPara i { tpara with bStop := true })
      else none
  | .checked => if pool.manage = .check then some { pool with manage := .dispatch } else none
  | .dispatchTask pos =>
      if pool.manage = .dispatch then pool.dispatchTask isExclusive pos else none
  | .pushTask =>
      match pool.manage with
      | .push task pos =>
          (pool.vctThreadPara[pos]?).map fun tpara =>
            { pool.setPara pos { tpara with lineQueueTask := tpara.lineQueueTask ++ [task] } with
              manage := .use task pos }
      | _ => none
  | .useTask =>
      match pool.manage with
      | .use task pos =>
          some { pool with
            manage := .dispatch
            misused := pool.misused ||
              !(pool.vctThreadPara[pos]?).any fun tpara => tpara.lineQueueTask.contains task }
      | _ => none
  | .dispatched =>
      if pool.manage = .dispatch ∧ pool.queue = [] then some { pool with manage := .collect }
      else none

def new (minThreads maxThreads : ℕ) : ThreadPool where
  vctThreadPara := (List.range maxThreads).map fun i =>
    if i < minThreads then { bRunning := true, bStop := false } else {}

/-! ## What the pool has to do -/

/-- How often a task is in the queue of the pool, the list of the manager and what the threads
have. -/
def places (pool : ThreadPool) (task : ℕ) : ℕ :=
  pool.queueTask.count task + pool.queue.count task + pool.manage.held.count task +
    Holders.total ThreadPara.held pool.vctThreadPara task

structure LosesNone (pool : ThreadPool) : Prop where
  /-- A task that has not finished is in one place, and a finished one nowhere. -/
  placed : ∀ task, pool.places task = if task ∈ pool.unfinished then 1 else 0
  /-- A thread that does not run has no tasks. -/
  stopped : ∀ tpara ∈ pool.vctThreadPara, tpara.bRunning = false → tpara.held = []
  notMisused : pool.misused = false

/-- A thread takes its tasks when the manager no longer uses one of them; what runs as the exclusive
task is the only one when it finishes; a busy thread gives nothing away, and a thread that is
stopped leaves when nothing is in its queue. -/
def ThreadPara.Regular (tpara : ThreadPara) (pool : ThreadPool) (i : ℕ) (finished busy : Bool) :
    Prop :=
  (tpara.stage = .top → pool.manage.usesIn i = false) ∧
  (tpara.stage = .exclusive → finished = true → tpara.vctTask.length ≤ 1) ∧
  (tpara.stage = .bottom →
    ¬tpara.givesAway busy ∧ (tpara.bStop = true → tpara.lineQueueTask = []))

/-- The threads are regular, and the manager finds one that gets the task. -/
def Regular (pool : ThreadPool) : PoolEvent → Prop
  | .workProc i finished busy _ =>
      ∀ tpara ∈ pool.vctThreadPara[i]?, tpara.Regular pool i finished busy
  | .dispatchTask _ => ∃ tpara ∈ pool.vctThreadPara, tpara.taken = false
  | _ => True

instance (tpara : ThreadPara) (pool : ThreadPool) (i : ℕ) (finished busy : Bool) :
    Decidable (tpara.Regular pool i finished busy) :=
  inferInstanceAs (Decidable (_ ∧ _ ∧ _))

instance (pool : ThreadPool) (event : PoolEvent) : Decidable (pool.Regular event) :=
  match event with
  | .workProc i finished busy _ =>
      inferInstanceAs (Decidable
        (∀ tpara ∈ pool.vctThreadPara[i]?, tpara.Regular pool i finished busy))
  | .dispatchTask _ =>
      inferInstanceAs (Decidable (∃ tpara ∈ pool.vctThreadPara, tpara.taken = false))
  | .addTask _ | .collect | .createWorkThread | .selectRm _ | .stopThread _ | .checked
  | .pushTask | .useTask | .dispatched => isTrue trivial

end ThreadPool

end RapidDb
