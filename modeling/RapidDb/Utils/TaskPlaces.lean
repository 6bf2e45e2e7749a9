import Mathlib.Data.List.Nodup
import RapidDb.Utils.ThreadPool

/-!
# Where the tasks of the thread pool are

A step of a thread replaces what this thread has, and gives tasks to the queue of the pool. The
places of a task are counted, so that a step has to be balanced.
-/

namespace RapidDb

open Transition

namespace ThreadPool

variable {isExclusive : ℕ → Bool} {pool pool' : ThreadPool} {i : ℕ} {tpara tpara' : ThreadPara}

structure ParaSound (tpara : ThreadPara) : Prop where
  idle : tpara.bRunning = false → tpara.bStop = true ∧ tpara.held = []
  /-- A thread with the flag has not been stopped. -/
  flag : tpara.bExclusiveTask = true → tpara.bStop = false
  exclusive : tpara.stage = .exclusive → tpara.bExclusiveTask = true

/-- What holds when the manager is in the middle of a push. -/
def ManageSound (manage : ManageStage) (vctThreadPara : List ThreadPara) : Prop :=
  match manage with
  | .push _ pos => ∃ tpara, vctThreadPara[pos]? = some tpara ∧ tpara.bStop = false
  | .use task pos => ∃ tpara, vctThreadPara[pos]? = some tpara ∧ task ∈ tpara.lineQueueTask
  | _ => True

structure Sound (pool : ThreadPool) : Prop where
  placed : ∀ task, pool.places task = pool.unfinished.count task
  nodup : pool.unfinished.Nodup
  paras : ∀ tpara ∈ pool.vctThreadPara, ParaSound tpara
  manage : ManageSound pool.manage pool.vctThreadPara
  notMisused : pool.misused = false

theorem ManageSound.set {manage : ManageStage} {vctThreadPara : List ThreadPara}
    (sound : ManageSound manage vctThreadPara) (found : vctThreadPara[i]? = some tpara)
    (stops : ∀ task, manage = .push task i → tpara.bStop = false → tpara'.bStop = false)
    (queued : ∀ task, manage = .use task i → task ∈ tpara.lineQueueTask →
      task ∈ tpara'.lineQueueTask) : ManageSound manage (vctThreadPara.set i tpara') := by
  rcases List.getElem?_eq_some_iff.mp found with ⟨inside, -⟩
  unfold ManageSound at sound ⊢
  split at sound
  · rename_i task pos
    rcases sound with ⟨other, otherFound, running⟩
    by_cases same : i = pos
    · subst same
      rw [found] at otherFound
      cases otherFound
      exact ⟨tpara', List.getElem?_set_self inside, stops task rfl running⟩
    · exact ⟨other, by rw [List.getElem?_set_ne same]; exact otherFound, running⟩
  · rename_i task pos
    rcases sound with ⟨other, otherFound, mem⟩
    by_cases same : i = pos
    · subst same
      rw [found] at otherFound
      cases otherFound
      exact ⟨tpara', List.getElem?_set_self inside, queued task rfl mem⟩
    · exact ⟨other, by rw [List.getElem?_set_ne same]; exact otherFound, mem⟩
  · trivial

theorem ParaSound.running (sound : ParaSound tpara) (running : tpara.bRunning = true)
    (lineQueueTask vctTask : List ℕ) (stage : WorkStage)
    (exclusive : stage = .exclusive → tpara.bExclusiveTask = true) :
    ParaSound { tpara with
      lineQueueTask := lineQueueTask, vctTask := vctTask, stage := stage } := by
  refine ⟨fun idle => ?_, sound.flag, exclusive⟩
  have idle' : tpara.bRunning = false := idle
  rw [running] at idle'
  cases idle'

theorem ManageSound.idle {manage : ManageStage} {vctThreadPara : List ThreadPara}
    (idle : manage = .collect ∨ manage = .check ∨ manage = .dispatch) :
    ManageSound manage vctThreadPara := by
  rcases idle with rfl | rfl | rfl <;> trivial

section

variable (sound : Sound pool) (found : pool.vctThreadPara[i]? = some tpara)

include sound found

theorem Sound.para : ParaSound tpara :=
  sound.paras tpara (List.mem_of_getElem? found)

theorem Sound.mem_unfinished {task : ℕ} (mem : task ∈ tpara.held) : task ∈ pool.unfinished := by
  have placed := sound.placed task
  have erased := Holders.total_eraseIdx ThreadPara.held found task
  have positive : 0 < tpara.held.count task := List.count_pos_iff.mpr mem
  apply List.count_pos_iff.mp
  unfold places at placed
  omega

/-- A thread is replaced by what it is behind a step, and what it has given away or finished is
balanced. -/
theorem Sound.replace (paraSound : ParaSound tpara') {queueTask unfinished : List ℕ}
    (nodup : unfinished.Nodup)
    (balanced : ∀ task, queueTask.count task + tpara'.held.count task +
      pool.unfinished.count task =
        pool.queueTask.count task + tpara.held.count task + unfinished.count task)
    (manage : ManageSound pool.manage (pool.vctThreadPara.set i tpara')) :
    Sound { pool.setPara i tpara' with queueTask := queueTask, unfinished := unfinished } := by
  refine ⟨fun task => ?_, nodup, fun other mem => ?_, manage, sound.notMisused⟩
  · have placed := sound.placed task
    have replaced := Holders.total_set ThreadPara.held tpara' found task
    have balance := balanced task
    simp only [places, setPara] at placed ⊢
    omega
  · rcases List.mem_or_eq_of_mem_set mem with mem | rfl
    · exact sound.paras other mem
    · exact paraSound

theorem Sound.setPara (paraSound : ParaSound tpara')
    (held : ∀ task, tpara'.held.count task = tpara.held.count task)
    (manage : ManageSound pool.manage (pool.vctThreadPara.set i tpara')) :
    Sound (pool.setPara i tpara') := by
  apply sound.replace found paraSound sound.nodup _ manage
  intro task
  rw [held task]

/-! ## A thread -/

theorem Sound.receive (running : tpara.bRunning = true) {lst : List ℕ}
    (stage : tpara.stage = .popped lst) : Sound (pool.receive isExclusive i tpara lst) := by
  have manage (vctTask : List ℕ) : ManageSound pool.manage
      (pool.vctThreadPara.set i { tpara with vctTask := vctTask, stage := .test }) :=
    sound.manage.set found (fun _ _ running => running) fun _ _ mem => mem
  have paraSound (vctTask : List ℕ) : ParaSound { tpara with vctTask := vctTask, stage := .test } :=
    (sound.para found).running running tpara.lineQueueTask vctTask .test nofun
  unfold ThreadPool.receive
  split
  · apply sound.replace found (paraSound lst) sound.nodup _ (manage lst)
    intro task
    simp only [ThreadPara.held, stage, WorkStage.held, List.count_append, List.count_nil]
    omega
  · apply sound.setPara found (paraSound _) _ (manage _)
    intro task
    simp only [ThreadPara.held, stage, WorkStage.held, List.count_append, List.count_nil]
    omega

theorem Sound.count_erase {task : ℕ} (mem : task ∈ tpara.held) (other : ℕ) :
    pool.unfinished.count other =
      [task].count other + (pool.unfinished.erase task).count other := by
  have perm := List.perm_cons_erase (sound.mem_unfinished found mem)
  rw [perm.count_eq other, ← List.singleton_append, List.count_append]

theorem Sound.runExclusive (running : tpara.bRunning = true) (stage : tpara.stage = .exclusive)
    {finished : Bool} (alone : finished = true → tpara.vctTask.length ≤ 1)
    (step : pool.runExclusive i tpara finished = some pool') : Sound pool' := by
  have notStopped := (sound.para found).flag ((sound.para found).exclusive stage)
  unfold ThreadPool.runExclusive at step
  split at step
  · cases step
  · rename_i task rest tasks
    split at step
    · rename_i isFinished
      cases step
      have restNil : rest = [] := by
        have length := alone isFinished
        rw [tasks, List.length_cons] at length
        exact List.length_eq_zero_iff.mp (by omega)
      have mem : task ∈ tpara.held := by simp [ThreadPara.held, tasks]
      apply sound.replace found _ (sound.nodup.erase task)
      · intro other
        have erased := sound.count_erase found mem other
        simp only [ThreadPool.setPara, ThreadPara.held, stage, WorkStage.held, List.count_append,
          List.count_nil, tasks, restNil]
        omega
      · exact sound.manage.set found (fun _ _ running => running) fun _ _ mem => mem
      · exact ⟨((sound.para found).running running tpara.lineQueueTask [] .bottom nofun).idle,
          nofun, nofun⟩
    · split at step
      · rename_i stopped
        rw [notStopped] at stopped
        cases stopped
      · cases step
        apply sound.setPara found ((sound.para found).running running _ _ .top nofun)
        · intro other
          simp [ThreadPara.held, stage, WorkStage.held]
        · exact sound.manage.set found (fun _ _ running => running) fun _ _ mem => mem

theorem Sound.runNormal (running : tpara.bRunning = true) {k : ℕ} (stage : tpara.stage = .normal k)
    {finished : Bool} : Sound (pool.runNormal i tpara k finished) := by
  have manage (vctTask : List ℕ) (stage' : WorkStage) : ManageSound pool.manage
      (pool.vctThreadPara.set i { tpara with vctTask := vctTask, stage := stage' }) :=
    sound.manage.set found (fun _ _ running => running) fun _ _ mem => mem
  unfold ThreadPool.runNormal
  split
  · apply sound.setPara found ((sound.para found).running running _ _ .bottom (by simp)) _
      (manage _ _)
    intro other
    simp [ThreadPara.held, stage, WorkStage.held]
  · rename_i task taskAt
    split
    · have mem : task ∈ tpara.held := by
        simp [ThreadPara.held, List.mem_of_getElem? taskAt]
      apply sound.replace found ((sound.para found).running running _ _ _ _)
        (sound.nodup.erase task) _ (manage _ _)
      · exact (sound.para found).exclusive
      · intro other
        have erased := sound.count_erase found mem other
        have without := Holders.count_eraseIdx taskAt other
        simp only [ThreadPool.setPara, ThreadPara.held, List.count_append]
        omega
    · apply sound.setPara found ((sound.para found).running running _ _ (.normal (k + 1)) (by simp))
        _
        (manage _ _)
      intro other
      simp [ThreadPara.held, stage, WorkStage.held]

theorem Sound.endRound (running : tpara.bRunning = true) (stage : tpara.stage = .bottom)
    {busy : Bool} {itSel : ℕ} (keeps : ¬tpara.givesAway busy)
    (drained : tpara.bStop = true → tpara.lineQueueTask = [])
    (step : pool.endRound i tpara busy itSel = some pool') : Sound pool' := by
  unfold ThreadPool.endRound at step
  rw [if_neg keeps] at step
  split at step
  · rename_i stopped
    cases step
    apply sound.replace found _ sound.nodup
    · intro other
      simp only [ThreadPara.held, stage, WorkStage.held, List.count_append, List.count_nil]
      omega
    · exact sound.manage.set found (fun _ _ running => running) fun _ _ mem => mem
    · refine ⟨fun _ => ⟨stopped, ?_⟩, (sound.para found).flag, nofun⟩
      simp [ThreadPara.held, drained stopped, WorkStage.held]
  · cases step
    apply sound.setPara found ((sound.para found).running running _ _ .top nofun)
    · intro other
      simp [ThreadPara.held, stage, WorkStage.held]
    · exact sound.manage.set found (fun _ _ running => running) fun _ _ mem => mem

theorem Sound.workProc {finished busy : Bool} {itSel : ℕ}
    (regular : tpara.Regular pool i finished busy)
    (step : pool.workProc isExclusive i tpara finished busy itSel = some pool') : Sound pool' := by
  unfold ThreadPool.workProc at step
  rcases Option.ite_none_left_eq_some.mp step with ⟨runs, step⟩
  rw [Bool.not_eq_false] at runs
  cases stage : tpara.stage with
  | top =>
      simp only [stage] at step
      cases step
      apply sound.setPara found
        ((sound.para found).running runs [] _ (.popped tpara.lineQueueTask) nofun)
      · intro other
        simp [ThreadPara.held, stage, WorkStage.held]
      · apply sound.manage.set found
        · exact fun _ _ running => running
        · intro task uses
          have unused := regular.1 stage
          simp [ManageStage.usesIn, uses] at unused
  | popped lst =>
      simp only [stage] at step
      cases step
      exact sound.receive found runs stage
  | test =>
      simp only [stage] at step
      cases step
      apply sound.setPara found ((sound.para found).running runs _ _ _ _)
      · intro other
        simp only [ThreadPara.held, stage, WorkStage.held]
        split_ifs <;> rfl
      · exact sound.manage.set found (fun _ _ running => running) fun _ _ mem => mem
      · split_ifs with empty flag
        · exact nofun
        · exact fun _ => flag
        · exact nofun
  | exclusive =>
      simp only [stage] at step
      exact sound.runExclusive found runs stage (regular.2.1 stage) step
  | normal k =>
      simp only [stage] at step
      cases step
      exact sound.runNormal found runs stage
  | bottom =>
      simp only [stage] at step
      exact sound.endRound found runs stage (regular.2.2 stage).1 (regular.2.2 stage).2 step

/-! ## The manager -/

theorem Sound.setFlags (idle : pool.manage = .check ∨ pool.manage = .dispatch)
    (paraSound : ParaSound tpara') (held : tpara'.held = tpara.held) :
    Sound (pool.setPara i tpara') := by
  apply sound.setPara found paraSound
  · intro task
    rw [held]
  · exact ManageSound.idle (Or.inr idle)

end

theorem Sound.createWorkThread (sound : Sound pool)
    (idle : pool.manage = .check ∨ pool.manage = .dispatch) : Sound pool.createWorkThread := by
  unfold ThreadPool.createWorkThread
  simp only
  split
  · exact sound
  · rename_i tpara found
    rcases List.getElem?_eq_some_iff.mp found with ⟨inside, same⟩
    have stopped : tpara.bRunning = false := by
      have first := List.findIdx_getElem (w := inside)
      rw [same] at first
      simpa using first
    have empty := ((sound.para found).idle stopped).2
    have started : ParaSound { tpara with
        bStop := false, bRunning := true, bExclusiveTask := false, stage := .top } :=
      ⟨nofun, nofun, nofun⟩
    apply sound.setFlags found idle started
    simp only [ThreadPara.held, List.append_eq_nil_iff] at empty
    simp only [ThreadPara.held, empty.1.1, empty.1.2, empty.2]
    rfl

theorem Sound.dispatchTask (sound : Sound pool) (idle : pool.manage = .dispatch) {pos : ℕ}
    (free : ∃ tpara ∈ pool.vctThreadPara, tpara.taken = false)
    (step : pool.dispatchTask isExclusive pos = some pool') : Sound pool' := by
  have notAll : ¬pool.vctThreadPara.all ThreadPara.taken = true := by
    simpa using free
  unfold ThreadPool.dispatchTask at step
  split at step
  · cases step
  · rename_i task queue tasks
    rw [if_neg notAll] at step
    rcases Option.bind_eq_some_iff.mp step with ⟨tpara, found, step⟩
    rcases List.getElem?_eq_some_iff.mp found with ⟨inside, -⟩
    have paraSound := sound.para found
    rcases Option.ite_none_left_eq_some.mp step with ⟨free, step⟩
    simp only [ThreadPara.taken, Bool.or_eq_true, not_or, Bool.not_eq_true] at free
    have running : tpara.bRunning = true := by
      by_contra stopped
      rw [Bool.not_eq_true] at stopped
      have stop := (paraSound.idle stopped).1
      rw [free.1] at stop
      cases stop
    split at step
    · cases step
      have flagged : ParaSound { tpara with bExclusiveTask := true } := by
        refine ⟨fun stopped => ?_, fun _ => free.1, fun _ => rfl⟩
        have stopped' : tpara.bRunning = false := stopped
        rw [running] at stopped'
        cases stopped'
      refine ⟨fun other => ?_, sound.nodup, fun other mem => ?_,
        ⟨_, List.getElem?_set_self inside, free.1⟩, sound.notMisused⟩
      · have placed := sound.placed other
        have replaced := Holders.total_set ThreadPara.held
          { tpara with bExclusiveTask := true } found other
        simp only [places, idle, tasks, ManageStage.held, List.count_nil, ThreadPool.setPara]
          at placed ⊢
        rw [← List.singleton_append, List.count_append] at placed
        simp only [ThreadPara.held] at replaced
        omega
      · rcases List.mem_or_eq_of_mem_set mem with mem | rfl
        · exact sound.paras other mem
        · exact flagged
    · cases step
      refine ⟨fun other => ?_, sound.nodup, fun other mem => ?_,
        ⟨_, List.getElem?_set_self inside, by simp⟩, sound.notMisused⟩
      · have placed := sound.placed other
        have replaced := Holders.total_set ThreadPara.held
          { tpara with lineQueueTask := tpara.lineQueueTask ++ [task] } found other
        simp only [places, idle, tasks, ManageStage.held, List.count_nil, ThreadPool.setPara]
          at placed ⊢
        rw [← List.singleton_append, List.count_append] at placed
        simp only [ThreadPara.held, List.count_append] at replaced
        omega
      · rcases List.mem_or_eq_of_mem_set mem with mem | rfl
        · exact sound.paras other mem
        · exact paraSound.running running _ tpara.vctTask tpara.stage paraSound.exclusive

theorem Sound.pushTask (sound : Sound pool) {task pos : ℕ} (pushes : pool.manage = .push task pos)
    (found : pool.vctThreadPara[pos]? = some tpara) :
    Sound { pool.setPara pos { tpara with lineQueueTask := tpara.lineQueueTask ++ [task] } with
      manage := .use task pos } := by
  rcases List.getElem?_eq_some_iff.mp found with ⟨inside, -⟩
  have paraSound := sound.para found
  have manage := sound.manage
  rw [pushes] at manage
  rcases manage with ⟨other, otherFound, notStopped⟩
  rw [found] at otherFound
  cases otherFound
  have running : tpara.bRunning = true := by
    by_contra stopped
    rw [Bool.not_eq_true] at stopped
    have stop := (paraSound.idle stopped).1
    rw [notStopped] at stop
    cases stop
  refine ⟨fun other => ?_, sound.nodup, fun other mem => ?_,
    ⟨_, List.getElem?_set_self inside, by simp⟩, sound.notMisused⟩
  · have placed := sound.placed other
    have replaced := Holders.total_set ThreadPara.held
      { tpara with lineQueueTask := tpara.lineQueueTask ++ [task] } found other
    simp only [places, pushes, ManageStage.held, List.count_nil, ThreadPool.setPara] at placed ⊢
    simp only [ThreadPara.held, List.count_append] at replaced
    omega
  · rcases List.mem_or_eq_of_mem_set mem with mem | rfl
    · exact sound.paras other mem
    · exact paraSound.running running _ tpara.vctTask tpara.stage paraSound.exclusive

theorem sound_next (sound : Sound pool) {event : PoolEvent} (regular : pool.Regular event)
    (step : next isExclusive pool event = some pool') : Sound pool' := by
  cases event with
  | addTask task =>
      rcases Option.ite_none_left_eq_some.mp step with ⟨isNew, ⟨⟩⟩
      refine { sound with placed := fun other => ?_, nodup := ?_ }
      · have placed := sound.placed other
        simp only [places, List.count_append] at placed ⊢
        omega
      · exact List.Nodup.append sound.nodup (List.nodup_singleton task) (by simpa using isNew)
  | workProc i finished busy itSel =>
      rcases Option.bind_eq_some_iff.mp step with ⟨tpara, found, step⟩
      exact sound.workProc found (regular tpara found) step
  | collect =>
      rcases Option.ite_none_right_eq_some.mp step with ⟨idle, ⟨⟩⟩
      refine ⟨fun other => ?_, sound.nodup, sound.paras, trivial, sound.notMisused⟩
      have placed := sound.placed other
      simp only [places, idle, ManageStage.held, List.count_append, List.count_nil] at placed ⊢
      omega
  | createWorkThread =>
      rcases Option.ite_none_right_eq_some.mp step with ⟨idle, ⟨⟩⟩
      exact sound.createWorkThread idle
  | selectRm i =>
      rcases Option.ite_none_right_eq_some.mp step with ⟨idle, step⟩
      rcases Option.map_eq_some_iff.mp step with ⟨tpara, found, rfl⟩
      have paraSound := sound.para found
      exact sound.setFlags found (Or.inl idle)
        { paraSound with } rfl
  | stopThread i =>
      rcases Option.ite_none_right_eq_some.mp step with ⟨idle, step⟩
      rcases Option.bind_eq_some_iff.mp step with ⟨tpara, found, step⟩
      rcases Option.ite_none_left_eq_some.mp step with ⟨free, ⟨⟩⟩
      have paraSound := sound.para found
      refine sound.setFlags found (Or.inl idle) ⟨fun stopped => ⟨rfl, ?_⟩, fun flag => ?_,
        paraSound.exclusive⟩ rfl
      · exact (paraSound.idle stopped).2
      · exact absurd (Bool.or_eq_true_iff.mpr (Or.inr flag)) free
  | checked =>
      rcases Option.ite_none_right_eq_some.mp step with ⟨idle, ⟨⟩⟩
      refine ⟨fun other => ?_, sound.nodup, sound.paras, trivial, sound.notMisused⟩
      have placed := sound.placed other
      simpa only [places, idle, ManageStage.held] using placed
  | dispatchTask pos =>
      rcases Option.ite_none_right_eq_some.mp step with ⟨idle, step⟩
      exact sound.dispatchTask idle regular step
  | pushTask =>
      simp only [next] at step
      split at step
      · rename_i task pos pushes
        rcases Option.map_eq_some_iff.mp step with ⟨tpara, found, rfl⟩
        exact sound.pushTask pushes found
      · cases step
  | useTask =>
      simp only [next] at step
      split at step
      · rename_i task pos uses
        cases step
        have manage := sound.manage
        rw [uses] at manage
        rcases manage with ⟨tpara, found, queued⟩
        refine ⟨fun other => ?_, sound.nodup, sound.paras, trivial, ?_⟩
        · have placed := sound.placed other
          simpa only [places, uses, ManageStage.held] using placed
        · simp [sound.notMisused, found, queued]
      · cases step
  | dispatched =>
      rcases Option.ite_none_right_eq_some.mp step with ⟨idle, ⟨⟩⟩
      refine ⟨fun other => ?_, sound.nodup, sound.paras, trivial, sound.notMisused⟩
      have placed := sound.placed other
      simpa only [places, idle.1, ManageStage.held] using placed

/-! ## Runs -/

theorem sound_new (minThreads maxThreads : ℕ) : Sound (new minThreads maxThreads) := by
  have started : ∀ tpara ∈ (new minThreads maxThreads).vctThreadPara,
      ParaSound tpara ∧ tpara.held = [] := by
    intro tpara mem
    rcases List.mem_map.mp mem with ⟨i, -, rfl⟩
    split
    · exact ⟨⟨nofun, nofun, nofun⟩, rfl⟩
    · exact ⟨⟨fun _ => ⟨rfl, rfl⟩, nofun, nofun⟩, rfl⟩
  refine ⟨fun task => ?_, List.nodup_nil, fun tpara mem => (started tpara mem).1, trivial, rfl⟩
  have none := Holders.total_eq_zero (fun tpara mem => (started tpara mem).2) task
  simpa [places, new, ManageStage.held] using none

theorem Sound.losesNone (sound : Sound pool) : LosesNone pool := by
  refine ⟨fun task => ?_, fun tpara mem stopped => ((sound.paras tpara mem).idle stopped).2,
    sound.notMisused⟩
  rw [sound.placed task]
  split
  · rename_i mem
    exact List.count_eq_one_of_mem sound.nodup mem
  · rename_i notMem
    exact List.count_eq_zero.mpr notMem

def fromHundred (task : ℕ) : Bool := 100 ≤ task

end ThreadPool

end RapidDb
