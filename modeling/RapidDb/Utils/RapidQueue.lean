import RapidDb.Library.Transition
import RapidDb.Utils.LineQueue

/-!
# Rapid queues

A rapid queue has a line queue for each of its producers. The consumer goes through the lines of
the threads that are alive. When the number of threads is lowered, it still visits the old lines for
some calls of `Pop`, so that nothing in them is left behind.

Producers, the consumer and the thread that resets the number of threads run at the same time. What
is one step here is a part of a function in which at most one access to what others use matters:
`Push` up to its submission and the submission, each iteration of the loops of `Pop`, and each load
and each store of the countdown at its end and of `ResetLiveThreadNumber`.
-/

namespace RapidDb

open Transition

/-- Where the consumer is in `Pop`. -/
inductive PopStage where
  | idle
  /-- Before the loop test for a line. -/
  | visit (i : ℕ)
  /-- In the loop of a line for a position that has been wrapped around, with the submitted
  position that has been loaded and the number of elements submitted at that time. -/
  | wrapped (i head count : ℕ)
  /-- In the other loop of a line. -/
  | below (i head count : ℕ)
  /-- Behind the loop over the lines. -/
  | countdown
  /-- There is something to count down. -/
  | load
  /-- Between the load and the store of the decrement. -/
  | store (popNum : ℕ)
  /-- Behind the decrement. -/
  | test
  /-- The countdown has ended, the new number of threads is to be assigned. -/
  | assign
  /-- The new number of threads has been loaded. -/
  | put (threadNum : ℕ)
deriving DecidableEq, Repr

/-- Where `ResetLiveThreadNumber` is behind its first store. -/
inductive ResetStage where
  | test (threadNum : ℕ)
  | popNum
  | alive (threadNum : ℕ)
deriving DecidableEq, Repr

structure RapidQueue (α : Type) where
  lines : List (Lane α)
  currAlivedThreads : ℕ
  lastSetThreads : ℕ
  popNum : ℕ := 0
  stage : PopStage := .idle
  resetting : Option ResetStage := none
  /-- The last reset has lowered the number that was set. -/
  lowering : Bool := false

inductive QueueEvent (α : Type) where
  /-- `Push` up to the submission. -/
  | write (tid : ℕ) (ele : α) (submit : Bool)
  /-- The submission of `Push`. -/
  | store (tid : ℕ)
  | submit (tid : ℕ)
  /-- The next step of `Pop`. -/
  | pop
  /-- The first store of `ResetLiveThreadNumber`. -/
  | reset (threadNum : ℕ)
  /-- The next step of `ResetLiveThreadNumber`. -/
  | resetRest

namespace RapidQueue

variable {α : Type}

def new (α : Type) (maxThreadNum threadNum : ℕ) : RapidQueue α where
  lines := List.replicate maxThreadNum {}
  currAlivedThreads := if threadNum = 0 then maxThreadNum else threadNum
  lastSetThreads := if threadNum = 0 then maxThreadNum else threadNum

def setLine (queue : RapidQueue α) (i : ℕ) (lane : Lane α) : RapidQueue α :=
  { queue with lines := queue.lines.set i lane }

def atStage (queue : RapidQueue α) (stage : PopStage) : RapidQueue α := { queue with stage }

/-- The next step of `Pop`. -/
def popStep (queue : RapidQueue α) : Option (RapidQueue α) :=
  match queue.stage with
  | .idle => some (queue.atStage (.visit 0))
  | .visit i =>
      if i < queue.currAlivedThreads then
        (queue.lines[i]?).map fun lane =>
          if lane.queue.submited = lane.queue.tail then queue.atStage (.visit (i + 1))
          else queue.atStage (.wrapped i lane.queue.submited lane.covered)
      else
        some (queue.atStage .countdown)
  | .wrapped i head count =>
      (queue.lines[i]?).bind fun lane =>
        if lane.queue.tail > head then lane.take.map (queue.setLine i)
        else some (queue.atStage (.below i head count))
  | .below i head _ =>
      (queue.lines[i]?).bind fun lane =>
        if lane.queue.tail < head then lane.take.map (queue.setLine i)
        else some (queue.atStage (.visit (i + 1)))
  | .countdown => some (queue.atStage (if queue.popNum > 0 then .load else .idle))
  | .load => some (queue.atStage (.store queue.popNum))
  | .store popNum => some { queue with popNum := popNum - 1, stage := .test }
  | .test => some (queue.atStage (if queue.popNum = 0 then .assign else .idle))
  | .assign => some (queue.atStage (.put queue.lastSetThreads))
  | .put threadNum => some { queue with currAlivedThreads := threadNum, stage := .idle }

/-- The next step of `ResetLiveThreadNumber`. -/
def resetStep (queue : RapidQueue α) : ResetStage → RapidQueue α
  | .test threadNum => { queue with
      resetting := some (if queue.currAlivedThreads > threadNum then .popNum
        else .alive threadNum) }
  | .popNum => { queue with popNum := 5, resetting := none, lowering := false }
  | .alive threadNum => { queue with
      currAlivedThreads := threadNum, resetting := none, lowering := false }

/-- One step; none if it is not the turn of its thread, or faults. -/
def step (queue : RapidQueue α) : QueueEvent α → Option (RapidQueue α)
  | .write tid ele submit =>
      (queue.lines[tid]?).bind fun lane =>
        if lane.storing then none else some (queue.setLine tid (lane.write ele submit))
  | .store tid =>
      (queue.lines[tid]?).bind fun lane =>
        if lane.storing then some (queue.setLine tid lane.store) else none
  | .submit tid =>
      (queue.lines[tid]?).bind fun lane =>
        if lane.storing then none
        else if lane.queue.head ≠ lane.queue.submited then some (queue.setLine tid lane.store)
        else some queue
  | .pop => queue.popStep
  | .reset threadNum =>
      if queue.resetting = none then
        some { queue with
          lastSetThreads := threadNum
          resetting := some (.test threadNum)
          lowering := decide (threadNum < queue.lastSetThreads) }
      else
        none
  | .resetRest => queue.resetting.map queue.resetStep

def isEmpty (queue : RapidQueue α) : Bool := queue.lines.all fun lane => lane.queue.isEmpty

def roughSize (queue : RapidQueue α) : ℕ :=
  ((queue.lines.take queue.currAlivedThreads).map fun lane => lane.queue.roughSize).sum % 2 ^ 64

/-- Only threads that are set push and submit, fewer than 2 ^ 64 elements are in a line, and a
thread that is dropped is not pushing. -/
def Permitted (queue : RapidQueue α) : QueueEvent α → Prop
  | .write tid _ _ => tid < queue.lastSetThreads ∧
      ∀ lane ∈ queue.lines[tid]?, lane.pushed.length + 1 < lane.popped.length + 2 ^ 64
  | .submit tid => tid < queue.lastSetThreads
  | .reset threadNum => threadNum ≤ queue.lines.length ∧
      ∀ tid, threadNum ≤ tid → ∀ lane ∈ queue.lines[tid]?, lane.storing = false
  | _ => True

/-- A reset that lowers the number of threads does not overlap with the end of the countdown: it
does not begin before the assignment, the countdown does not end during it, and what it stores does
not get lost by the last decrement. A reset that raises the number beyond the one that `Pop` is to
assign does not get ahead of the assignment. -/
def Apart (queue : RapidQueue α) : QueueEvent α → Prop
  | .reset threadNum => queue.stage = .assign → queue.lastSetThreads ≤ threadNum
  | .pop => queue.stage = .test → queue.popNum = 0 → queue.lowering = false
  | .resetRest =>
      (queue.stage = .store 1 → queue.resetting = some .popNum → queue.lowering = false) ∧
      ∀ threadNum < queue.lastSetThreads, queue.stage = .put threadNum →
        ∃ threadNum' ≥ queue.currAlivedThreads, queue.resetting = some (.test threadNum')
  | _ => True

def PermittedApart (queue : RapidQueue α) (event : QueueEvent α) : Prop :=
  queue.Permitted event ∧ queue.Apart event

/-- All that has been submitted to a line has been popped. -/
def Drained (queue : RapidQueue α) (i : ℕ) : Prop :=
  ∀ lane ∈ queue.lines[i]?, lane.popped.length = lane.covered

/-- All that has been submitted to lines whose threads are not set has been popped. -/
def Cleared (queue : RapidQueue α) : Prop := ∀ i, queue.lastSetThreads ≤ i → queue.Drained i

structure Loaded (lane : Lane α) (head count : ℕ) : Prop where
  head : head = count % 2 ^ 64
  popped_le : lane.popped.length ≤ count
  count_le : count ≤ lane.covered

/-- What holds when a number of threads is to be assigned. -/
structure Putting (queue : RapidQueue α) (threadNum : ℕ) : Prop where
  le : threadNum ≤ queue.currAlivedThreads ∨ threadNum ≤ queue.lastSetThreads
  raising : threadNum < queue.lastSetThreads →
    ∃ threadNum', queue.resetting = some (.test threadNum') ∨
      queue.resetting = some (.alive threadNum')
  lowers : queue.lowering = true → queue.lastSetThreads < threadNum
  reached : ∀ i, ¬queue.Drained i → i < threadNum ∨ i < queue.lastSetThreads

/-- What holds in a stage of `Pop`. -/
def StageHolds (queue : RapidQueue α) : PopStage → Prop
  | .wrapped i head count => ∃ lane, queue.lines[i]? = some lane ∧ Loaded lane head count
  | .below i head count => ∃ lane, queue.lines[i]? = some lane ∧ Loaded lane head count ∧
      lane.popped.length / 2 ^ 64 = count / 2 ^ 64
  | .load => 0 < queue.popNum
  | .store popNum => 0 < popNum
  | .assign => queue.lowering = false ∧ queue.Cleared
  | .put threadNum => queue.Putting threadNum
  | _ => True

/-- What a `Pop` that began behind the last reset has done so far for the lines that are dropped. -/
def Clears (queue : RapidQueue α) : PopStage → Prop
  | .visit i => ∀ j, queue.lastSetThreads ≤ j → j < i → queue.Drained j
  | .wrapped i _ count => (∀ j, queue.lastSetThreads ≤ j → j < i → queue.Drained j) ∧
      (queue.lastSetThreads ≤ i → ∀ lane ∈ queue.lines[i]?, count = lane.covered)
  | .below i _ count => (∀ j, queue.lastSetThreads ≤ j → j < i → queue.Drained j) ∧
      (queue.lastSetThreads ≤ i → ∀ lane ∈ queue.lines[i]?, count = lane.covered)
  | _ => True

/-- Where something may be left in lines that are dropped, another call of `Pop` begins before the
countdown ends, or the present one has begun behind the last reset. -/
def Pending (queue : RapidQueue α) : PopStage → Prop
  | .visit i => queue.popNum = 5 ∨ 0 < queue.popNum ∧ queue.Clears (.visit i)
  | .wrapped i head count =>
      queue.popNum = 5 ∨ 0 < queue.popNum ∧ queue.Clears (.wrapped i head count)
  | .below i head count =>
      queue.popNum = 5 ∨ 0 < queue.popNum ∧ queue.Clears (.below i head count)
  | .countdown | .load => queue.popNum = 5
  | .store popNum => 1 < popNum
  | .assign => False
  | .idle | .test | .put _ => 0 < queue.popNum

/-- What a reset has found out. -/
def ResetHolds (queue : RapidQueue α) : ResetStage → Prop
  | .test threadNum => threadNum = queue.lastSetThreads
  | .popNum => queue.lastSetThreads ≤ queue.currAlivedThreads
  | .alive threadNum => threadNum = queue.lastSetThreads ∧
      queue.currAlivedThreads ≤ threadNum ∧ queue.lowering = false

/-- What holds between the steps of a run. -/
structure Sound (queue : RapidQueue α) : Prop where
  lanes : ∀ lane ∈ queue.lines, lane.Sound
  storing : ∀ i, ∀ lane ∈ queue.lines[i]?, lane.storing = true → i < queue.lastSetThreads
  curr_le : queue.currAlivedThreads ≤ queue.lines.length
  last_le : queue.lastSetThreads ≤ queue.lines.length
  settled : queue.resetting = none → queue.lastSetThreads ≤ queue.currAlivedThreads
  resets : ∀ reset ∈ queue.resetting, queue.ResetHolds reset
  lowers : queue.lowering = true →
    queue.resetting ≠ none ∧ queue.lastSetThreads < queue.currAlivedThreads
  reached : ∀ i, ¬queue.Drained i → i < queue.currAlivedThreads ∨ i < queue.lastSetThreads
  stage : queue.StageHolds queue.stage
  pending : queue.lowering = false → queue.Cleared ∨ queue.Pending queue.stage

section Lines

variable {queue queue' : RapidQueue α} {i j head count : ℕ} {lane lane' : Lane α} {stage : PopStage}

theorem lines_same (found : queue.lines[i]? = some lane) :
    (queue.setLine i lane').lines[i]? = some lane' :=
  List.getElem?_set_self (List.getElem?_eq_some_iff.mp found).1

theorem lines_other (other : j ≠ i) : (queue.setLine i lane').lines[j]? = queue.lines[j]? :=
  List.getElem?_set_ne (Ne.symm other)

theorem drained_other (drained : queue.Drained j) (other : j ≠ i) :
    (queue.setLine i lane').Drained j := by
  intro lane mem
  rw [lines_other other] at mem
  exact drained lane mem

theorem not_drained_other (left : ¬(queue.setLine i lane').Drained j) (other : j ≠ i) :
    ¬queue.Drained j :=
  fun drained => left (drained_other drained other)

theorem mem_lines (found : queue.lines[i]? = some lane) : lane ∈ queue.lines :=
  List.mem_of_getElem? found

theorem lanes_set (sound : queue.Sound) (lane'Sound : lane'.Sound) :
    ∀ lane ∈ (queue.setLine i lane').lines, lane.Sound := by
  intro lane mem
  rcases List.mem_or_eq_of_mem_set mem with mem | rfl
  · exact sound.lanes lane mem
  · exact lane'Sound

theorem storing_set (sound : queue.Sound) (found : queue.lines[i]? = some lane)
    (storing : lane'.storing = true → i < queue.lastSetThreads) :
    ∀ j, ∀ lane ∈ (queue.setLine i lane').lines[j]?, lane.storing = true →
      j < queue.lastSetThreads := by
  intro j other mem isStoring
  by_cases same : j = i
  · subst same
    rw [lines_same found] at mem
    cases mem
    exact storing isStoring
  · rw [lines_other same] at mem
    exact sound.storing j other mem isStoring

theorem length_setLine : (queue.setLine i lane').lines.length = queue.lines.length :=
  List.length_set

theorem Pending.change (pending : queue.Pending stage)
    (positive : 0 < queue.popNum → 0 < queue'.popNum) (all : queue.popNum = 5 → queue'.popNum = 5)
    (clears : queue.Clears stage → queue'.Clears stage) : queue'.Pending stage := by
  cases stage with
  | idle => exact positive pending
  | test => exact positive pending
  | put threadNum => exact positive pending
  | countdown => exact all pending
  | load => exact all pending
  | store popNum => exact pending
  | assign => exact pending
  | visit i => exact pending.imp all (And.imp positive clears)
  | wrapped i head count => exact pending.imp all (And.imp positive clears)
  | below i head count => exact pending.imp all (And.imp positive clears)

theorem Sound.produced (sound : queue.Sound) (found : queue.lines[i]? = some lane)
    (alive : i < queue.lastSetThreads) (lane'Sound : lane'.Sound)
    (popped : lane'.popped = lane.popped) (covered : lane.covered ≤ lane'.covered) :
    (queue.setLine i lane').Sound := by
  have dropped : ∀ j, queue.lastSetThreads ≤ j → j ≠ i := by
    rintro j le rfl
    exact Nat.not_lt_of_le le alive
  have loaded : ∀ {head count : ℕ}, Loaded lane head count → Loaded lane' head count := by
    intro head count loaded
    exact ⟨loaded.head, popped ▸ loaded.popped_le, Nat.le_trans loaded.count_le covered⟩
  have old := sound.stage
  refine ⟨lanes_set sound lane'Sound, storing_set sound found fun _ => alive, ?_, ?_,
    sound.settled, sound.resets, sound.lowers, ?_, ?_, ?_⟩
  · rw [length_setLine]
    exact sound.curr_le
  · rw [length_setLine]
    exact sound.last_le
  · intro j left
    by_cases same : j = i
    · exact Or.inr (same ▸ alive)
    · exact sound.reached j (not_drained_other left same)
  · show (queue.setLine i lane').StageHolds queue.stage
    cases stageEq : queue.stage with
    | idle => trivial
    | visit k => trivial
    | countdown => trivial
    | test => trivial
    | load =>
        rw [stageEq] at old
        exact old
    | store popNum =>
        rw [stageEq] at old
        exact old
    | put threadNum =>
        rw [stageEq] at old
        refine { old with reached := fun j left => ?_ }
        by_cases same : j = i
        · exact Or.inr (same ▸ alive)
        · exact old.reached j (not_drained_other left same)
    | wrapped k head count =>
        rw [stageEq] at old
        rcases old with ⟨laneK, foundK, loadedK⟩
        by_cases same : k = i
        · subst same
          rw [found] at foundK
          cases foundK
          exact ⟨lane', lines_same found, loaded loadedK⟩
        · exact ⟨laneK, (lines_other same).trans foundK, loadedK⟩
    | below k head count =>
        rw [stageEq] at old
        rcases old with ⟨laneK, foundK, loadedK, page⟩
        by_cases same : k = i
        · subst same
          rw [found] at foundK
          cases foundK
          exact ⟨lane', lines_same found, loaded loadedK, popped ▸ page⟩
        · exact ⟨laneK, (lines_other same).trans foundK, loadedK, page⟩
    | assign =>
        rw [stageEq] at old
        exact ⟨old.1, fun j le => drained_other (old.2 j le) (dropped j le)⟩
  · intro high
    refine (sound.pending high).imp (fun cleared j le => ?_) fun pending => ?_
    · exact drained_other (cleared j le) (dropped j le)
    · refine pending.change (fun more => more) (fun all => all) fun clears => ?_
      cases stageEq : queue.stage with
      | visit k =>
          rw [stageEq] at clears
          exact fun j le less => drained_other (clears j le less) (dropped j le)
      | wrapped k head count =>
          rw [stageEq] at clears
          refine ⟨fun j le less => drained_other (clears.1 j le less) (dropped j le), ?_⟩
          intro le laneK mem
          rw [lines_other (dropped k le)] at mem
          exact clears.2 le laneK mem
      | below k head count =>
          rw [stageEq] at clears
          refine ⟨fun j le less => drained_other (clears.1 j le less) (dropped j le), ?_⟩
          intro le laneK mem
          rw [lines_other (dropped k le)] at mem
          exact clears.2 le laneK mem
      | idle | countdown | load | store _ | test | assign | put _ => trivial

theorem Sound.atStage (sound : queue.Sound) (holds : queue.StageHolds stage)
    (pending : queue.lowering = false → queue.Cleared ∨ queue.Pending stage) :
    (queue.atStage stage).Sound := by
  refine { sound with stage := ?_, pending := ?_ }
  · cases stage with
    | idle => trivial
    | visit i => trivial
    | countdown => trivial
    | test => trivial
    | wrapped i head count => exact holds
    | below i head count => exact holds
    | load => exact holds
    | store popNum => exact holds
    | assign => exact holds
    | put threadNum => exact { holds with }
  · intro high
    exact (pending high).imp (fun cleared => cleared) fun pending =>
      pending.change (fun more => more) (fun all => all) fun clears => by
        cases stage <;> exact clears

theorem Sound.consumed (sound : queue.Sound) (found : queue.lines[i]? = some lane)
    (before : lane.popped.length < lane.covered) (lane'Sound : lane'.Sound)
    (covered : lane'.covered = lane.covered) (storing : lane'.storing = lane.storing)
    (stageEq : queue.stage = .wrapped i head count ∨ queue.stage = .below i head count)
    (holds : (queue.setLine i lane').StageHolds queue.stage) :
    (queue.setLine i lane').Sound := by
  have left : ¬queue.Drained i := by
    intro drained
    have same := drained lane found
    omega
  refine ⟨lanes_set sound lane'Sound, storing_set sound found ?_, ?_, ?_, sound.settled,
    sound.resets, sound.lowers, ?_, holds, ?_⟩
  · intro isStoring
    exact sound.storing i lane found (storing ▸ isStoring)
  · rw [length_setLine]
    exact sound.curr_le
  · rw [length_setLine]
    exact sound.last_le
  · intro j leftJ
    by_cases same : j = i
    · exact sound.reached j (same ▸ left)
    · exact sound.reached j (not_drained_other leftJ same)
  · intro high
    refine (sound.pending high).imp (fun cleared j le => ?_) fun pending => ?_
    · refine drained_other (cleared j le) ?_
      rintro rfl
      exact left (cleared j le)
    refine pending.change (fun more => more) (fun all => all) fun clears => ?_
    show (queue.setLine i lane').Clears queue.stage
    have both : (∀ j, queue.lastSetThreads ≤ j → j < i → queue.Drained j) ∧
        (queue.lastSetThreads ≤ i → ∀ lane ∈ queue.lines[i]?, count = lane.covered) →
        (∀ j, queue.lastSetThreads ≤ j → j < i → (queue.setLine i lane').Drained j) ∧
        (queue.lastSetThreads ≤ i →
          ∀ lane ∈ (queue.setLine i lane').lines[i]?, count = lane.covered) := by
      rintro ⟨drained, countEq⟩
      refine ⟨fun j le less => drained_other (drained j le less) (Nat.ne_of_lt less), ?_⟩
      intro le laneI mem
      rw [lines_same found] at mem
      cases mem
      rw [covered]
      exact countEq le lane found
    rcases stageEq with stageEq | stageEq
    · rw [stageEq] at clears ⊢
      exact both clears
    · rw [stageEq] at clears ⊢
      exact both clears

theorem Loaded.count_lt (loaded : Loaded lane head count) (sound : lane.Sound) :
    count < lane.popped.length + 2 ^ 64 :=
  Nat.lt_of_le_of_lt (Nat.le_trans loaded.count_le sound.covered_le) sound.room

theorem Loaded.popped_lt (loaded : Loaded lane head count) (sound : lane.Sound)
    (different : lane.queue.tail ≠ head) : lane.popped.length < count := by
  refine Nat.lt_of_le_of_ne loaded.popped_le fun same => different ?_
  rw [sound.tail, loaded.head, same]

theorem Sound.take (sound : queue.Sound) (found : queue.lines[i]? = some lane)
    (loaded : Loaded lane head count) (different : lane.queue.tail ≠ head)
    (stageEq : queue.stage = .wrapped i head count ∨
      queue.stage = .below i head count ∧ lane.popped.length / 2 ^ 64 = count / 2 ^ 64) :
    ∃ lane', lane.take = some lane' ∧ lane'.Sound ∧ (queue.setLine i lane').Sound ∧
      lane'.popped.length = lane.popped.length + 1 ∧ lane'.pushed = lane.pushed ∧
      lane'.covered = lane.covered := by
  have laneSound := sound.lanes lane (mem_lines found)
  have less := loaded.popped_lt laneSound different
  have before := Nat.lt_of_lt_of_le less loaded.count_le
  rcases laneSound.take before with ⟨lane', taken, lane'Sound, popped, pushed, covered, storing⟩
  have loaded' : Loaded lane' head count := ⟨loaded.head, popped ▸ less, covered ▸ loaded.count_le⟩
  refine ⟨lane', taken, lane'Sound, ?_, popped, pushed, covered⟩
  apply sound.consumed found before lane'Sound covered storing (stageEq.imp_right And.left)
  rcases stageEq with stageEq | ⟨stageEq, page⟩
  · rw [stageEq]
    exact ⟨lane', lines_same found, loaded'⟩
  · rw [stageEq]
    refine ⟨lane', lines_same found, loaded', ?_⟩
    rw [popped]
    omega

theorem Loaded.same_page (loaded : Loaded lane head count) (sound : lane.Sound)
    (notAbove : ¬lane.queue.tail > head) : lane.popped.length / 2 ^ 64 = count / 2 ^ 64 := by
  have less := loaded.count_lt sound
  have le := loaded.popped_le
  rw [sound.tail, loaded.head] at notAbove
  omega

theorem Loaded.all_popped (loaded : Loaded lane head count) (sound : lane.Sound)
    (page : lane.popped.length / 2 ^ 64 = count / 2 ^ 64) (notBelow : ¬lane.queue.tail < head) :
    lane.popped.length = count := by
  have le := loaded.popped_le
  rw [sound.tail, loaded.head] at notBelow
  omega

theorem drained_of_same (sound : queue.Sound) (found : queue.lines[i]? = some lane)
    (same : lane.queue.submited = lane.queue.tail) : lane.popped.length = lane.covered := by
  have laneSound := sound.lanes lane (mem_lines found)
  have room := laneSound.room
  have popped_le := laneSound.popped_le
  have covered_le := laneSound.covered_le
  rw [laneSound.submited, laneSound.tail] at same
  omega

theorem Sound.nextLine (sound : queue.Sound)
    (pending : queue.lowering = false → queue.Cleared ∨ queue.popNum = 5 ∨ 0 < queue.popNum ∧
      (∀ j, queue.lastSetThreads ≤ j → j < i → queue.Drained j) ∧
        (queue.lastSetThreads ≤ i → queue.Drained i)) :
    (queue.atStage (.visit (i + 1))).Sound := by
  refine sound.atStage trivial ?_
  intro high
  refine (pending high).imp_right fun pending => pending.imp_right fun pending => ⟨pending.1, ?_⟩
  intro j le less
  rcases Nat.lt_succ_iff_lt_or_eq.mp less with less | rfl
  · exact pending.2.1 j le less
  · exact pending.2.2 le

theorem Sound.popStep (sound : queue.Sound) (apart : queue.Apart .pop) :
    ∃ queue', queue.popStep = some queue' ∧ queue'.Sound := by
  have holds := sound.stage
  have pending := sound.pending
  unfold RapidQueue.popStep
  cases stageEq : queue.stage with
  | idle =>
      rw [stageEq] at pending
      refine ⟨queue.atStage (.visit 0), rfl, sound.atStage trivial fun high => ?_⟩
      refine (pending high).imp_right fun pending => Or.inr ⟨pending, ?_⟩
      exact fun j _ less => absurd less (Nat.not_lt_zero j)
  | visit i =>
      rw [stageEq] at pending
      by_cases alive : i < queue.currAlivedThreads
      · have inside := Nat.lt_of_lt_of_le alive sound.curr_le
        have found := List.getElem?_eq_getElem inside
        simp only [alive, if_true, found, Option.map_some]
        by_cases same : queue.lines[i].queue.submited = queue.lines[i].queue.tail
        · rw [if_pos same]
          have here : queue.Drained i := by
            intro lane mem
            rw [found] at mem
            cases mem
            exact drained_of_same sound found same
          refine ⟨_, rfl, sound.nextLine fun high => (pending high).imp_right fun pending => ?_⟩
          exact pending.imp_right fun pending => ⟨pending.1, pending.2, fun _ => here⟩
        · rw [if_neg same]
          have laneSound := sound.lanes _ (mem_lines found)
          refine ⟨_, rfl, sound.atStage ⟨_, found, ?_⟩ fun high =>
            (pending high).imp_right fun pending => pending.imp_right fun pending =>
              ⟨pending.1, pending.2, ?_⟩⟩
          · exact ⟨laneSound.submited, laneSound.popped_le, Nat.le_refl _⟩
          · intro le lane mem
            rw [found] at mem
            cases mem
            rfl
      · simp only [alive, if_false]
        refine ⟨_, rfl, sound.atStage trivial fun high => ?_⟩
        rcases pending high with cleared | all | ⟨-, clears⟩
        · exact Or.inl cleared
        · exact Or.inr all
        -- lines that are not alive and not set have nothing left
        refine Or.inl fun j le => ?_
        by_cases less : j < i
        · exact clears j le less
        · by_contra left
          rcases sound.reached j left with less | less
          · omega
          · omega
  | wrapped i head count =>
      rw [stageEq] at holds pending
      rcases holds with ⟨lane, found, loaded⟩
      simp only [found, Option.bind_some]
      by_cases above : lane.queue.tail > head
      · rcases sound.take found loaded (Nat.ne_of_gt above) (Or.inl stageEq) with
          ⟨lane', taken, -, sound', -⟩
        rw [if_pos above, taken]
        exact ⟨_, rfl, sound'⟩
      · rw [if_neg above]
        have laneSound := sound.lanes lane (mem_lines found)
        refine ⟨_, rfl, sound.atStage ⟨lane, found, loaded, ?_⟩ pending⟩
        exact loaded.same_page laneSound above
  | below i head count =>
      rw [stageEq] at holds pending
      rcases holds with ⟨lane, found, loaded, page⟩
      simp only [found, Option.bind_some]
      by_cases less : lane.queue.tail < head
      · rcases sound.take found loaded (Nat.ne_of_lt less) (Or.inr ⟨stageEq, page⟩) with
          ⟨lane', taken, -, sound', -⟩
        rw [if_pos less, taken]
        exact ⟨_, rfl, sound'⟩
      · rw [if_neg less]
        have laneSound := sound.lanes lane (mem_lines found)
        refine ⟨_, rfl, sound.nextLine fun high => (pending high).imp_right fun pending =>
          pending.imp_right fun pending => ⟨pending.1, pending.2.1, ?_⟩⟩
        intro le other mem
        rw [found] at mem
        cases mem
        exact (loaded.all_popped laneSound page less).trans (pending.2.2 le lane found)
  | countdown =>
      rw [stageEq] at pending
      refine ⟨_, rfl, ?_⟩
      by_cases counting : queue.popNum > 0
      · rw [if_pos counting]
        exact sound.atStage counting pending
      · rw [if_neg counting]
        refine sound.atStage trivial fun high => (pending high).imp_right fun all => ?_
        exact absurd (all ▸ Nat.succ_pos 4) counting
  | load =>
      rw [stageEq] at holds pending
      refine ⟨_, rfl, sound.atStage holds fun high => (pending high).imp_right fun all => ?_⟩
      have all : queue.popNum = 5 := all
      rw [all]
      exact Nat.lt_of_sub_eq_succ rfl
  | store popNum =>
      rw [stageEq] at pending
      refine ⟨_, rfl, { sound with stage := trivial, pending := fun high => ?_ }⟩
      exact (pending high).imp_right fun more => Nat.sub_pos_of_lt more
  | test =>
      rw [stageEq] at pending
      refine ⟨_, rfl, ?_⟩
      by_cases ends : queue.popNum = 0
      · rw [if_pos ends]
        have high := apart stageEq ends
        have cleared : queue.Cleared :=
          (pending high).resolve_right fun more => absurd ends (Nat.ne_of_gt more)
        exact sound.atStage ⟨high, cleared⟩ fun _ => Or.inl cleared
      · rw [if_neg ends]
        exact sound.atStage trivial pending
  | assign =>
      rw [stageEq] at holds
      refine ⟨_, rfl, sound.atStage ⟨Or.inr (Nat.le_refl _), ?_, ?_, ?_⟩ fun _ => Or.inl holds.2⟩
      · exact fun less => absurd less (Nat.lt_irrefl _)
      · intro low
        exact absurd (holds.1.symm.trans low) (by decide)
      · intro i left
        exact Or.inl (Nat.lt_of_not_le fun le => left (holds.2 i le))
  | put threadNum =>
      rw [stageEq] at holds pending
      refine ⟨_, rfl, ⟨sound.lanes, sound.storing, ?_, sound.last_le, ?_, ?_, ?_, holds.reached,
        trivial, pending⟩⟩
      · exact holds.le.elim (fun le => Nat.le_trans le sound.curr_le)
          fun le => Nat.le_trans le sound.last_le
      · intro settled
        refine Nat.le_of_not_lt fun less => ?_
        rcases holds.raising less with ⟨_, resetting | resetting⟩ <;>
          exact nomatch settled.symm.trans resetting
      · intro reset mem
        have old := sound.resets reset mem
        cases reset with
        | test threadNum' => exact old
        | popNum =>
            refine Nat.le_of_not_lt fun less => ?_
            rcases holds.raising less with ⟨_, resetting | resetting⟩ <;>
              exact nomatch mem.symm.trans resetting
        | alive threadNum' =>
            refine ⟨old.1, ?_, old.2.2⟩
            exact holds.le.elim (fun le => Nat.le_trans le old.2.1)
              fun le => old.1.symm ▸ le
      · intro low
        exact ⟨(sound.lowers low).1, holds.lowers low⟩

theorem StageHolds.change (holds : queue.StageHolds stage) (lines : queue'.lines = queue.lines)
    (positive : 0 < queue.popNum → 0 < queue'.popNum)
    (assign : stage = .assign → queue'.lowering = false ∧
      ∀ i, queue'.lastSetThreads ≤ i → queue.Drained i)
    (put : ∀ threadNum, stage = .put threadNum → queue'.Putting threadNum) :
    queue'.StageHolds stage := by
  cases stage with
  | idle => trivial
  | visit i => trivial
  | countdown => trivial
  | test => trivial
  | load => exact positive holds
  | store popNum => exact holds
  | put threadNum => exact put threadNum rfl
  | wrapped i head count =>
      rcases holds with ⟨lane, found, loaded⟩
      exact ⟨lane, lines ▸ found, loaded⟩
  | below i head count =>
      rcases holds with ⟨lane, found, loaded, page⟩
      exact ⟨lane, lines ▸ found, loaded, page⟩
  | assign =>
      rcases assign rfl with ⟨high, drained⟩
      exact ⟨high, fun i le lane mem => drained i le lane (lines ▸ mem)⟩

theorem Clears.raise (clears : queue.Clears stage) (lines : queue'.lines = queue.lines)
    (raised : queue.lastSetThreads ≤ queue'.lastSetThreads) : queue'.Clears stage := by
  have same : ∀ j, queue.Drained j → queue'.Drained j :=
    fun j drained lane mem => drained lane (lines ▸ mem)
  cases stage with
  | idle | countdown | load | store _ | test | assign | put _ => trivial
  | visit k => exact fun j le less => same j (clears j (Nat.le_trans raised le) less)
  | wrapped k head count =>
      exact ⟨fun j le less => same j (clears.1 j (Nat.le_trans raised le) less),
        fun le lane mem => clears.2 (Nat.le_trans raised le) lane (lines ▸ mem)⟩
  | below k head count =>
      exact ⟨fun j le less => same j (clears.1 j (Nat.le_trans raised le) less),
        fun le lane mem => clears.2 (Nat.le_trans raised le) lane (lines ▸ mem)⟩

theorem Sound.reset (sound : queue.Sound) {threadNum : ℕ} (idle : queue.resetting = none)
    (permitted : queue.Permitted (.reset threadNum)) (apart : queue.Apart (.reset threadNum)) :
    Sound { queue with
      lastSetThreads := threadNum
      resetting := some (.test threadNum)
      lowering := decide (threadNum < queue.lastSetThreads) } := by
  rcases permitted with ⟨few, notStoring⟩
  have settled := sound.settled idle
  have notLow : queue.lowering = false := by
    cases lowEq : queue.lowering with
    | false => rfl
    | true => exact absurd idle (sound.lowers lowEq).1
  have raised : decide (threadNum < queue.lastSetThreads) = false →
      queue.lastSetThreads ≤ threadNum :=
    fun high => Nat.le_of_not_lt (of_decide_eq_false high)
  have atAssign : queue.stage = .assign → queue.lastSetThreads ≤ threadNum := apart
  refine ⟨sound.lanes, ?_, sound.curr_le, few, nofun, ?_, ?_, ?_, ?_, ?_⟩
  · intro i lane mem isStoring
    refine Nat.lt_of_not_le fun le => ?_
    exact absurd ((notStoring i le lane mem).symm.trans isStoring) (by decide)
  · rintro _ ⟨⟩
    rfl
  · intro low
    exact ⟨nofun, Nat.lt_of_lt_of_le (of_decide_eq_true low) settled⟩
  · intro i left
    have alive := sound.reached i left
    exact Or.inl (alive.elim id fun less => Nat.lt_of_lt_of_le less settled)
  · have holds := sound.stage
    refine StageHolds.change holds rfl (fun more => more) ?_ ?_
    · intro isAssign
      rw [isAssign] at holds
      have le := atAssign isAssign
      exact ⟨decide_eq_false (Nat.not_lt_of_le le), fun i more => holds.2 i (Nat.le_trans le more)⟩
    · intro old isPut
      rw [isPut] at holds
      have loaded : queue.lastSetThreads ≤ old := by
        refine Nat.le_of_not_lt fun less => ?_
        rcases holds.raising less with ⟨_, resetting | resetting⟩ <;>
          exact nomatch idle.symm.trans resetting
      refine ⟨Or.inl ?_, fun _ => ⟨threadNum, Or.inl rfl⟩, ?_, fun i left => Or.inl ?_⟩
      · exact holds.le.elim id fun le => Nat.le_trans le settled
      · exact fun low => Nat.lt_of_lt_of_le (of_decide_eq_true low) loaded
      · exact (holds.reached i left).elim id fun less => Nat.lt_of_lt_of_le less loaded
  · intro high
    refine (sound.pending notLow).imp (fun cleared i le => ?_) fun pending => ?_
    · exact cleared i (Nat.le_trans (raised high) le)
    · exact pending.change id id fun clears => clears.raise rfl (raised high)

theorem Sound.resetTest (sound : queue.Sound) {threadNum : ℕ} (apart : queue.Apart .resetRest)
    (resetting : queue.resetting = some (.test threadNum)) :
    (queue.resetStep (.test threadNum)).Sound := by
  have last : threadNum = queue.lastSetThreads := sound.resets _ resetting
  refine { sound with settled := nofun, resets := ?_, lowers := ?_, stage := ?_ }
  · rintro _ ⟨⟩
    by_cases more : queue.currAlivedThreads > threadNum
    · rw [if_pos more]
      exact Nat.le_of_lt (last ▸ more)
    · rw [if_neg more]
      refine ⟨last, Nat.le_of_not_lt more, ?_⟩
      cases low : queue.lowering with
      | false => exact low
      | true => exact absurd (last ▸ (sound.lowers low).2) more
  · exact fun low => ⟨nofun, (sound.lowers low).2⟩
  · have holds := sound.stage
    refine StageHolds.change holds rfl id ?_ ?_
    · intro (isAssign : queue.stage = .assign)
      rw [isAssign] at holds
      exact holds
    · intro old (isPut : queue.stage = .put old)
      rw [isPut] at holds
      refine { holds with raising := fun less => ⟨threadNum, Or.inr ?_⟩ }
      rcases apart.2 old less isPut with ⟨threadNum', le, same⟩
      rw [resetting] at same
      cases same
      exact congrArg some (if_neg (Nat.not_lt_of_le le))

theorem Sound.resetPopNum (sound : queue.Sound) (apart : queue.Apart .resetRest)
    (resetting : queue.resetting = some .popNum) : (queue.resetStep .popNum).Sound := by
  have holds := sound.stage
  refine ⟨sound.lanes, sound.storing, sound.curr_le, sound.last_le, ?_, nofun, nofun,
    sound.reached, ?_, fun _ => ?_⟩
  · exact fun _ => sound.resets _ resetting
  · refine StageHolds.change holds rfl (fun _ => Nat.succ_pos 4) ?_ ?_
    · intro (isAssign : queue.stage = .assign)
      rw [isAssign] at holds
      exact ⟨rfl, holds.2⟩
    · intro old (isPut : queue.stage = .put old)
      rw [isPut] at holds
      refine ⟨holds.le, fun less => ?_, nofun, holds.reached⟩
      rcases apart.2 old less isPut with ⟨_, _, same⟩
      exact nomatch resetting.symm.trans same
  · show queue.Cleared ∨ Pending _ queue.stage
    cases stageEq : queue.stage with
    | idle | test | put _ => exact Or.inr (Nat.succ_pos 4)
    | visit _ | wrapped _ _ _ | below _ _ _ => exact Or.inr (Or.inl rfl)
    | countdown | load => exact Or.inr rfl
    | store popNum =>
        rw [stageEq] at holds
        by_cases one : popNum = 1
        · subst one
          have pending := sound.pending (apart.1 stageEq resetting)
          rw [stageEq] at pending
          exact Or.inl (pending.resolve_right (Nat.lt_irrefl 1))
        · exact Or.inr (Nat.lt_of_le_of_ne holds (Ne.symm one))
    | assign =>
        rw [stageEq] at holds
        exact Or.inl holds.2

theorem Sound.resetAlive (sound : queue.Sound) {threadNum : ℕ} (apart : queue.Apart .resetRest)
    (resetting : queue.resetting = some (.alive threadNum)) :
    (queue.resetStep (.alive threadNum)).Sound := by
  rcases sound.resets _ resetting with ⟨last, le, high⟩
  have holds := sound.stage
  refine ⟨sound.lanes, sound.storing, last ▸ sound.last_le, sound.last_le, ?_, nofun, nofun, ?_, ?_,
    fun _ => sound.pending high⟩
  · exact fun _ => Nat.le_of_eq last.symm
  · intro i left
    exact (sound.reached i left).imp_left fun alive => Nat.lt_of_lt_of_le alive le
  · refine StageHolds.change holds rfl id ?_ ?_
    · intro (isAssign : queue.stage = .assign)
      rw [isAssign] at holds
      exact ⟨rfl, holds.2⟩
    · intro old (isPut : queue.stage = .put old)
      rw [isPut] at holds
      refine ⟨Or.inr ?_, fun less => ?_, nofun, holds.reached⟩
      · exact holds.le.elim (fun old => last ▸ Nat.le_trans old le) id
      · rcases apart.2 old less isPut with ⟨_, _, same⟩
        exact nomatch resetting.symm.trans same

theorem Sound.resetRest (sound : queue.Sound) (apart : queue.Apart .resetRest)
    (stepped : queue.step .resetRest = some queue') : queue'.Sound := by
  rcases Option.map_eq_some_iff.mp stepped with ⟨reset, resetting, rfl⟩
  cases reset with
  | test threadNum => exact sound.resetTest apart resetting
  | popNum => exact sound.resetPopNum apart resetting
  | alive threadNum => exact sound.resetAlive apart resetting

theorem Sound.step {event : QueueEvent α} (sound : queue.Sound)
    (permitted : queue.PermittedApart event) (stepped : queue.step event = some queue') :
    queue'.Sound := by
  rcases permitted with ⟨permitted, apart⟩
  cases event with
  | write tid ele submit =>
      rcases permitted with ⟨alive, room⟩
      rcases Option.bind_eq_some_iff.mp stepped with ⟨lane, found, rest⟩
      rcases Option.ite_none_left_eq_some.mp rest with ⟨-, ⟨⟩⟩
      have laneSound := sound.lanes lane (mem_lines found)
      exact sound.produced found alive (laneSound.write ele submit (room lane found)) rfl
        (Nat.le_refl _)
  | store tid =>
      rcases Option.bind_eq_some_iff.mp stepped with ⟨lane, found, rest⟩
      rcases Option.ite_none_right_eq_some.mp rest with ⟨isStoring, ⟨⟩⟩
      have laneSound := sound.lanes lane (mem_lines found)
      exact sound.produced found (sound.storing tid lane found isStoring) laneSound.store rfl
        laneSound.covered_le
  | submit tid =>
      rcases Option.bind_eq_some_iff.mp stepped with ⟨lane, found, rest⟩
      rcases Option.ite_none_left_eq_some.mp rest with ⟨-, rest⟩
      split at rest
      · cases rest
        have laneSound := sound.lanes lane (mem_lines found)
        exact sound.produced found permitted laneSound.store rfl laneSound.covered_le
      · cases rest
        exact sound
  | pop =>
      rcases sound.popStep apart with ⟨queue'', popped, sound'⟩
      have stepped : queue.popStep = some queue' := stepped
      rw [stepped] at popped
      cases popped
      exact sound'
  | reset threadNum =>
      unfold RapidQueue.step at stepped
      simp only at stepped
      rcases Option.ite_none_right_eq_some.mp stepped with ⟨idle, ⟨⟩⟩
      exact sound.reset idle permitted apart
  | resetRest => exact sound.resetRest apart stepped

theorem Sound.new (α : Type) {maxThreadNum threadNum : ℕ} (le : threadNum ≤ maxThreadNum) :
    (RapidQueue.new α maxThreadNum threadNum).Sound := by
  have empty : ∀ lane ∈ (RapidQueue.new α maxThreadNum threadNum).lines, lane = {} :=
    fun lane mem => List.eq_of_mem_replicate mem
  have drained : ∀ i, (RapidQueue.new α maxThreadNum threadNum).Drained i := by
    intro i lane mem
    rw [empty lane (List.mem_of_getElem? mem)]
    rfl
  have few : (if threadNum = 0 then maxThreadNum else threadNum) ≤
      (List.replicate maxThreadNum ({} : Lane α)).length := by
    rw [List.length_replicate]
    split
    · exact Nat.le_refl _
    · exact le
  refine ⟨?_, ?_, few, few, fun _ => Nat.le_refl _, nofun, nofun, ?_, trivial,
    fun _ => Or.inl fun i _ => drained i⟩
  · intro lane mem
    rw [empty lane mem]
    exact Lane.Sound.new
  · intro i lane mem isStoring
    rw [empty lane (List.mem_of_getElem? mem)] at isStoring
    cases isStoring
  · exact fun i left => absurd (drained i) left

/-!
## A whole call of `Pop`
-/

def PopOnly (_ : RapidQueue α) (event : QueueEvent α) : Prop := event = .pop

/-- The lines are the same except that more has been popped. -/
structure Follows (queue queue' : RapidQueue α) : Prop where
  alive : queue'.currAlivedThreads = queue.currAlivedThreads
  resetting : queue'.resetting = queue.resetting
  lowering : queue'.lowering = queue.lowering
  lines : ∀ (j : ℕ) (lane : Lane α), queue.lines[j]? = some lane →
    ∃ lane' : Lane α, queue'.lines[j]? = some lane' ∧ lane'.pushed = lane.pushed ∧
      lane'.covered = lane.covered ∧ lane.popped.length ≤ lane'.popped.length

theorem Follows.trans {queue'' : RapidQueue α} (first : Follows queue queue')
    (second : Follows queue' queue'') : Follows queue queue'' := by
  refine ⟨second.alive.trans first.alive, second.resetting.trans first.resetting,
    second.lowering.trans first.lowering, fun j lane mem => ?_⟩
  rcases first.lines j lane mem with ⟨lane', mem', pushed, covered, popped⟩
  rcases second.lines j lane' mem' with ⟨lane'', mem'', pushed', covered', popped'⟩
  exact ⟨lane'', mem'', pushed'.trans pushed, covered'.trans covered,
    Nat.le_trans popped popped'⟩

theorem Follows.atStage (queue : RapidQueue α) (stage : PopStage) :
    Follows queue (queue.atStage stage) :=
  ⟨rfl, rfl, rfl, fun _ lane mem => ⟨lane, mem, rfl, rfl, Nat.le_refl _⟩⟩

theorem Follows.drained (follows : Follows queue queue') (sound' : queue'.Sound)
    (same : queue'.lines.length = queue.lines.length) (drained : queue.Drained j) :
    queue'.Drained j := by
  intro lane' mem'
  have inside : j < queue.lines.length := same ▸ (List.getElem?_eq_some_iff.mp mem').1
  have mem : queue.lines[j]? = some queue.lines[j] := List.getElem?_eq_getElem inside
  rcases follows.lines j _ mem with ⟨other, otherMem, -, covered, popped⟩
  rw [mem'] at otherMem
  cases otherMem
  have le := (sound'.lanes lane' (List.mem_of_getElem? mem')).popped_le
  have all := drained _ mem
  omega

theorem Follows.setLine (found : queue.lines[i]? = some lane) (pushed : lane'.pushed = lane.pushed)
    (covered : lane'.covered = lane.covered) (popped : lane.popped.length ≤ lane'.popped.length) :
    Follows queue (queue.setLine i lane') := by
  refine ⟨rfl, rfl, rfl, fun j other mem => ?_⟩
  by_cases same : j = i
  · subst same
    rw [found] at mem
    cases mem
    exact ⟨lane', lines_same found, pushed, covered, popped⟩
  · exact ⟨other, (lines_other same).trans mem, rfl, rfl, Nat.le_refl _⟩

theorem reaches_pop {queue'' : RapidQueue α} (popped : queue.popStep = some queue')
    (rest : Reaches RapidQueue.step PopOnly queue' queue'') :
    Reaches RapidQueue.step PopOnly queue queue'' :=
  Relation.ReflTransGen.head ⟨.pop, rfl, popped⟩ rest

/-- Steps of `Pop` end the iteration for a line, with what holds of the line then. -/
def LineEnds (queue : RapidQueue α) (i : ℕ) (ends : Lane α → Prop) : Prop :=
  ∃ queue', Reaches RapidQueue.step PopOnly queue queue' ∧ queue'.Sound ∧
    queue'.stage = .visit (i + 1) ∧ Follows queue queue' ∧
    queue'.lines.length = queue.lines.length ∧ ∀ lane ∈ queue'.lines[i]?, ends lane

theorem LineEnds.pop {ends : Lane α → Prop} (popped : queue.popStep = some queue')
    (follows : Follows queue queue') (length : queue'.lines.length = queue.lines.length)
    (further : LineEnds queue' i ends) : LineEnds queue i ends := by
  rcases further with ⟨queue'', reached, sound, stage, follows', length', last⟩
  exact ⟨queue'', reaches_pop popped reached, sound, stage, follows.trans follows',
    length'.trans length, last⟩

theorem Sound.popped {stage : PopStage} (sound : queue.Sound) (stageEq : queue.stage = stage)
    (notTest : stage ≠ .test) (popped : queue.popStep = some queue') : queue'.Sound := by
  have apart : queue.Apart .pop := fun atTest => absurd (stageEq.symm.trans atTest) notTest
  rcases sound.popStep apart with ⟨queue1, popped1, sound1⟩
  rw [popped] at popped1
  cases popped1
  exact sound1

/-- The second loop of a line ends when everything that had been submitted has been popped. -/
theorem below_loop (left : ℕ) (sound : queue.Sound) (stageEq : queue.stage = .below i head count)
    (found : queue.lines[i]? = some lane) (remaining : lane.popped.length + left = count) :
    LineEnds queue i fun lane' => lane'.popped.length = count := by
  induction left generalizing queue lane with
  | zero =>
      have holds := sound.stage
      rw [stageEq] at holds
      rcases holds with ⟨lane1, found1, loaded, page⟩
      rw [found] at found1
      cases found1
      have laneSound := sound.lanes lane (mem_lines found)
      have notBelow : ¬lane.queue.tail < head := by
        rw [laneSound.tail, loaded.head, ← remaining, Nat.add_zero]
        exact Nat.lt_irrefl _
      have popped : queue.popStep = some (queue.atStage (.visit (i + 1))) := by
        unfold RapidQueue.popStep
        simp only [stageEq, found, Option.bind_some]
        rw [if_neg notBelow]
      have sound1 := sound.popped stageEq nofun popped
      refine ⟨_, reaches_pop popped (Reaches.refl _), sound1, rfl, Follows.atStage _ _, rfl, ?_⟩
      intro lane' mem
      have mem : queue.lines[i]? = some lane' := mem
      rw [found] at mem
      cases mem
      exact remaining
  | succ left ih =>
      have holds := sound.stage
      rw [stageEq] at holds
      rcases holds with ⟨lane1, found1, loaded, page⟩
      rw [found] at found1
      cases found1
      have laneSound := sound.lanes lane (mem_lines found)
      have less : lane.queue.tail < head := by
        rw [laneSound.tail, loaded.head]
        omega
      rcases sound.take found loaded (Nat.ne_of_lt less) (Or.inr ⟨stageEq, page⟩) with
        ⟨lane1, taken, -, sound1, popped1, pushed1, covered1⟩
      have popped : queue.popStep = some (queue.setLine i lane1) := by
        unfold RapidQueue.popStep
        simp only [stageEq, found, Option.bind_some]
        rw [if_pos less, taken, Option.map_some]
      have first : Follows queue (queue.setLine i lane1) :=
        Follows.setLine found pushed1 covered1 (popped1 ▸ Nat.le_succ _)
      exact LineEnds.pop popped first length_setLine
        (ih sound1 stageEq (lines_same found) (by omega))

theorem wrapped_to_below (left : ℕ) (sound : queue.Sound)
    (stageEq : queue.stage = .wrapped i head count) (found : queue.lines[i]? = some lane)
    (remaining : lane.popped.length + left = count) (notAbove : ¬lane.queue.tail > head) :
    LineEnds queue i fun lane' => lane'.popped.length = count := by
  have popped : queue.popStep = some (queue.atStage (.below i head count)) := by
    unfold RapidQueue.popStep
    simp only [stageEq, found, Option.bind_some]
    rw [if_neg notAbove]
  have sound1 := sound.popped stageEq nofun popped
  have found1 : (queue.atStage (.below i head count)).lines[i]? = some lane := found
  exact LineEnds.pop popped (Follows.atStage _ _) rfl (below_loop left sound1 rfl found1 remaining)

theorem wrapped_loop (left : ℕ) (sound : queue.Sound)
    (stageEq : queue.stage = .wrapped i head count) (found : queue.lines[i]? = some lane)
    (remaining : lane.popped.length + left = count) :
    LineEnds queue i fun lane' => lane'.popped.length = count := by
  induction left generalizing queue lane with
  | zero =>
      have holds := sound.stage
      rw [stageEq] at holds
      rcases holds with ⟨lane1, found1, loaded⟩
      rw [found] at found1
      cases found1
      have laneSound := sound.lanes lane (mem_lines found)
      have notAbove : ¬lane.queue.tail > head := by
        rw [laneSound.tail, loaded.head, ← remaining, Nat.add_zero]
        exact Nat.lt_irrefl _
      exact wrapped_to_below 0 sound stageEq found remaining notAbove
  | succ left ih =>
      have holds := sound.stage
      rw [stageEq] at holds
      rcases holds with ⟨lane1, found1, loaded⟩
      rw [found] at found1
      cases found1
      by_cases above : lane.queue.tail > head
      · rcases sound.take found loaded (Nat.ne_of_gt above) (Or.inl stageEq) with
          ⟨lane1, taken, -, sound1, popped1, pushed1, covered1⟩
        have popped : queue.popStep = some (queue.setLine i lane1) := by
          unfold RapidQueue.popStep
          simp only [stageEq, found, Option.bind_some]
          rw [if_pos above, taken, Option.map_some]
        have first : Follows queue (queue.setLine i lane1) :=
          Follows.setLine found pushed1 covered1 (popped1 ▸ Nat.le_succ _)
        exact LineEnds.pop popped first length_setLine
          (ih sound1 stageEq (lines_same found) (by omega))
      · exact wrapped_to_below (left + 1) sound stageEq found remaining above

theorem visit_line (sound : queue.Sound) (stageEq : queue.stage = .visit i)
    (alive : i < queue.currAlivedThreads) :
    LineEnds queue i fun lane' => lane'.popped.length = lane'.covered := by
  have inside := Nat.lt_of_lt_of_le alive sound.curr_le
  have found : queue.lines[i]? = some queue.lines[i] := List.getElem?_eq_getElem inside
  have apart : queue.Apart .pop := by
    intro atTest
    rw [stageEq] at atTest
    cases atTest
  rcases sound.popStep apart with ⟨queue1, popped, sound1⟩
  have popped' := popped
  unfold RapidQueue.popStep at popped'
  simp only [stageEq, alive, if_true, found, Option.map_some] at popped'
  by_cases same : queue.lines[i].queue.submited = queue.lines[i].queue.tail
  · rw [if_pos same] at popped'
    cases popped'
    refine ⟨_, reaches_pop popped (Reaches.refl _), sound1, rfl, Follows.atStage _ _, rfl, ?_⟩
    intro lane mem
    have mem : queue.lines[i]? = some lane := mem
    rw [found] at mem
    cases mem
    exact drained_of_same sound found same
  · rw [if_neg same] at popped'
    cases popped'
    have laneSound := sound.lanes _ (mem_lines found)
    rcases wrapped_loop _ sound1 rfl found (Nat.add_sub_cancel' laneSound.popped_le) with
      ⟨queue', reached, sound', stage', follows, length, all⟩
    refine ⟨queue', reaches_pop popped reached, sound', stage',
      (Follows.atStage _ _).trans follows, length, fun lane' mem' => ?_⟩
    rcases follows.lines i _ found with ⟨other, otherMem, -, covered, -⟩
    rw [mem'] at otherMem
    cases otherMem
    exact (all lane' mem').trans covered.symm

theorem visit_lines (left : ℕ) (sound : queue.Sound) (stageEq : queue.stage = .visit i)
    (remaining : i + left = queue.currAlivedThreads) (visited : ∀ j, j < i → queue.Drained j) :
    ∃ queue', Reaches RapidQueue.step PopOnly queue queue' ∧ queue'.Sound ∧
      queue'.stage = .countdown ∧ Follows queue queue' ∧
      ∀ j, j < queue.currAlivedThreads → queue'.Drained j := by
  induction left generalizing queue i with
  | zero =>
      have notAlive : ¬i < queue.currAlivedThreads := by omega
      have popped : queue.popStep = some (queue.atStage .countdown) := by
        unfold RapidQueue.popStep
        simp only [stageEq]
        rw [if_neg notAlive]
      have sound1 := sound.popped stageEq nofun popped
      refine ⟨_, reaches_pop popped (Reaches.refl _), sound1, rfl, Follows.atStage _ _, ?_⟩
      intro j less
      exact visited j (by omega)
  | succ left ih =>
      rcases visit_line sound stageEq (by omega) with
        ⟨queue1, reached1, sound1, stage1, follows1, length1, drained1⟩
      have visited1 : ∀ j, j < i + 1 → queue1.Drained j := by
        intro j less
        rcases Nat.lt_succ_iff_lt_or_eq.mp less with less | rfl
        · exact follows1.drained sound1 length1 (visited j less)
        · exact drained1
      have alive1 := follows1.alive
      rcases ih sound1 stage1 (by omega) visited1 with
        ⟨queue', reached', sound', stage', follows', drained'⟩
      refine ⟨queue', reached1.trans reached', sound', stage', follows1.trans follows', ?_⟩
      intro j less
      exact drained' j (alive1 ▸ less)

theorem countdown_ends (stageEq : queue.stage = .countdown) :
    ∃ queue', Reaches RapidQueue.step PopOnly queue queue' ∧ queue'.stage = .idle ∧
      queue'.lines = queue.lines := by
  by_cases counting : queue.popNum > 0
  · have loads : queue.popStep = some (queue.atStage .load) := by
      unfold RapidQueue.popStep
      simp only [stageEq]
      rw [if_pos counting]
    let counted : RapidQueue α := { queue with popNum := queue.popNum - 1, stage := .test }
    have reached : ∀ {queue'}, Reaches RapidQueue.step PopOnly counted queue' →
        Reaches RapidQueue.step PopOnly queue queue' :=
      fun rest => reaches_pop loads (reaches_pop rfl (reaches_pop rfl rest))
    by_cases ends : counted.popNum = 0
    · have assigns : counted.popStep = some (counted.atStage .assign) :=
        congrArg (fun stage => some (counted.atStage stage)) (if_pos ends)
      exact ⟨_, reached (reaches_pop assigns (reaches_pop rfl (reaches_pop rfl (Reaches.refl _)))),
        rfl, rfl⟩
    · have goes : counted.popStep = some (counted.atStage .idle) :=
        congrArg (fun stage => some (counted.atStage stage)) (if_neg ends)
      exact ⟨_, reached (reaches_pop goes (Reaches.refl _)), rfl, rfl⟩
  · have popped : queue.popStep = some (queue.atStage .idle) := by
      unfold RapidQueue.popStep
      simp only [stageEq]
      rw [if_neg counting]
    exact ⟨_, reaches_pop popped (Reaches.refl _), rfl, rfl⟩

/-- An uninterrupted call of `Pop` returns everything that has been submitted. -/
theorem Sound.pop_all (sound : queue.Sound) (idle : queue.stage = .idle)
    (settled : queue.resetting = none) :
    ∃ queue', Reaches RapidQueue.step PopOnly queue queue' ∧ queue'.stage = .idle ∧
      ∀ (j : ℕ) (lane : Lane α), queue.lines[j]? = some lane →
        ∃ lane' : Lane α, queue'.lines[j]? = some lane' ∧
          lane'.popped = lane.pushed.take lane.covered := by
  have high : queue.lowering = false := by
    cases lowEq : queue.lowering with
    | false => rfl
    | true => exact absurd settled (sound.lowers lowEq).1
  have apart : queue.Apart .pop := fun _ _ => high
  have popped : queue.popStep = some (queue.atStage (.visit 0)) := by
    unfold RapidQueue.popStep
    simp only [idle]
  rcases sound.popStep apart with ⟨queue1, popped1, sound1⟩
  rw [popped] at popped1
  cases popped1
  rcases visit_lines queue.currAlivedThreads sound1 rfl (Nat.zero_add _)
    (fun j less => absurd less (Nat.not_lt_zero j)) with
    ⟨queue2, reached2, sound2, stage2, follows2, drained2⟩
  have follows : Follows queue queue2 := (Follows.atStage _ _).trans follows2
  -- lines that are not alive have nothing left either
  have drained : ∀ j, queue2.Drained j := by
    intro j
    by_contra left
    have settled2 := sound2.settled (follows.resetting.trans settled)
    rcases sound2.reached j left with less | less
    · exact left (drained2 j (follows.alive ▸ less))
    · exact left (drained2 j (follows.alive ▸ Nat.lt_of_lt_of_le less settled2))
  have lines : ∀ (j : ℕ) (lane : Lane α), queue.lines[j]? = some lane →
      ∃ lane' : Lane α, queue2.lines[j]? = some lane' ∧
        lane'.popped = lane.pushed.take lane.covered := by
    intro j lane found
    rcases follows.lines j lane found with ⟨lane', found', pushed, covered, -⟩
    refine ⟨lane', found', ?_⟩
    rw [(sound2.lanes lane' (mem_lines found')).order, drained j lane' found', pushed, covered]
  have reached : Reaches RapidQueue.step PopOnly queue queue2 := reaches_pop popped reached2
  rcases countdown_ends stage2 with ⟨queue3, reached3, stage3, lines3⟩
  refine ⟨queue3, reached.trans reached3, stage3, ?_⟩
  rw [lines3]
  exact lines

structure Delivers (queue : RapidQueue α) (possible : RapidQueue α → QueueEvent α → Prop) :
    Prop where
  /-- Each line returns what has been pushed to it, in this order and not before it is submitted. -/
  inOrder : ∀ lane ∈ queue.lines, lane.popped = lane.pushed.take lane.popped.length ∧
    lane.popped.length ≤ lane.covered ∧ lane.covered ≤ lane.pushed.length
  /-- What is still to be popped is in a block that has not been freed. -/
  kept : ∀ lane ∈ queue.lines, ∀ n, lane.popped.length ≤ n → n < lane.pushed.length →
    ∃ block ∈ lane.queue.nodes, block (n % eleSize) = lane.pushed[n]?
  /-- The consumer never reads what is not there. -/
  proceeds : possible queue .pop → ∃ queue', queue.step .pop = some queue'
  /-- The next call visits every line in which something is left. -/
  reached : queue.resetting = none → ∀ (i : ℕ) (lane : Lane α), queue.lines[i]? = some lane →
    lane.popped.length < lane.covered → i < queue.currAlivedThreads
  /-- A call of `Pop` returns everything that has been submitted. -/
  complete : queue.stage = .idle → queue.resetting = none →
    ∃ queue', Reaches RapidQueue.step PopOnly queue queue' ∧ queue'.stage = .idle ∧
      ∀ (i : ℕ) (lane : Lane α), queue.lines[i]? = some lane →
        ∃ lane' : Lane α, queue'.lines[i]? = some lane' ∧
          lane'.popped = lane.pushed.take lane.covered

/-- Line queues deliver in every run in which a reset and the end of the countdown are apart. -/
theorem delivers_of_apart {maxThreadNum threadNum : ℕ} (le : threadNum ≤ maxThreadNum)
    (run : Reaches RapidQueue.step PermittedApart (RapidQueue.new α maxThreadNum threadNum) queue) :
    queue.Delivers PermittedApart := by
  have sound : queue.Sound := by
    apply run.preserves (Sound.new α le)
    intro queue event queue' permitted sound stepped
    exact sound.step permitted stepped
  refine ⟨?_, ?_, ?_, ?_, sound.pop_all⟩
  · intro lane mem
    have laneSound := sound.lanes lane mem
    exact ⟨laneSound.order, laneSound.popped_le, laneSound.covered_le⟩
  · intro lane mem n fromPopped less
    rcases (sound.lanes lane mem).stored n fromPopped less with ⟨block, found, held⟩
    exact ⟨block, List.mem_of_getElem? found, held⟩
  · intro permitted
    rcases sound.popStep permitted.2 with ⟨queue', popped, -⟩
    exact ⟨queue', popped⟩
  · intro settled i lane found left
    have notDrained : ¬queue.Drained i := by
      intro drained
      exact absurd (drained lane found) (Nat.ne_of_lt left)
    have settled := sound.settled settled
    rcases sound.reached i notDrained with less | less
    · exact less
    · exact Nat.lt_of_lt_of_le less settled

/-- The lines behind those that are alive have nothing left. -/
theorem Sound.sum_alive (sound : queue.Sound) (settled : queue.resetting = none) :
    ((queue.lines.take queue.currAlivedThreads).map fun lane => lane.queue.roughSize).sum =
      (queue.lines.map fun lane => lane.covered - lane.popped.length).sum := by
  have dropped : ((queue.lines.drop queue.currAlivedThreads).map fun lane =>
      lane.covered - lane.popped.length).sum = 0 := by
    rw [List.sum_eq_zero_iff_forall_eq_nat, List.forall_mem_map]
    intro lane mem
    rcases List.mem_iff_getElem?.mp mem with ⟨i, found⟩
    rw [List.getElem?_drop] at found
    have drained : queue.Drained (queue.currAlivedThreads + i) := by
      by_contra left
      have le := sound.settled settled
      rcases sound.reached _ left with less | less <;> omega
    rw [drained lane found, Nat.sub_self]
  have sizes : (queue.lines.take queue.currAlivedThreads).map (fun lane => lane.queue.roughSize) =
      (queue.lines.take queue.currAlivedThreads).map fun lane =>
        lane.covered - lane.popped.length := by
    apply List.map_congr_left
    intro lane mem
    exact (sound.lanes lane (List.mem_of_mem_take mem)).roughSize_eq
  rw [sizes, ← List.take_append_drop queue.currAlivedThreads (queue.lines.map _),
    List.sum_append, ← List.map_take, ← List.map_drop, dropped, Nat.add_zero]

/-- What the consumer is told of the number of elements, also behind the end of the positions. -/
theorem sizes_of_apart {maxThreadNum threadNum : ℕ} (le : threadNum ≤ maxThreadNum)
    (run : Reaches RapidQueue.step PermittedApart (RapidQueue.new α maxThreadNum threadNum) queue) :
    (queue.isEmpty = true ↔ ∀ lane ∈ queue.lines, lane.popped = lane.pushed) ∧
    (queue.resetting = none → queue.roughSize =
      (queue.lines.map fun lane => lane.covered - lane.popped.length).sum % 2 ^ 64) ∧
    ∀ lane ∈ queue.lines, lane.queue.nodes.length ≤
      Lane.freedNodes (lane.pushed.length - lane.popped.length) + 1 := by
  have sound : queue.Sound := by
    apply run.preserves (Sound.new α le)
    intro queue event queue' permitted sound stepped
    exact sound.step permitted stepped
  refine ⟨?_, ?_, fun lane mem => (sound.lanes lane mem).length_nodes_le⟩
  · rw [RapidQueue.isEmpty, List.all_eq_true]
    exact forall₂_congr fun lane mem => (sound.lanes lane mem).isEmpty_iff
  · intro settled
    rw [RapidQueue.roughSize, sound.sum_alive settled]

end Lines

/-!
## Runs that can be computed
-/

theorem forall_dropped_iff (lines : List (Lane α)) (threadNum : ℕ) :
    (∀ lane ∈ lines.drop threadNum, lane.storing = false) ↔
      ∀ tid, threadNum ≤ tid → ∀ lane ∈ lines[tid]?, lane.storing = false := by
  constructor
  · intro all tid le lane mem
    have found : (lines.drop threadNum)[tid - threadNum]? = some lane := by
      rw [List.getElem?_drop, Nat.add_sub_cancel' le]
      exact mem
    exact all lane (List.mem_of_getElem? found)
  · intro all lane mem
    rcases List.mem_iff_getElem?.mp mem with ⟨i, found⟩
    rw [List.getElem?_drop] at found
    exact all _ (Nat.le_add_right _ _) lane found

instance (queue : RapidQueue α) (event : QueueEvent α) : Decidable (queue.Permitted event) :=
  match event with
  | .write tid _ _ => inferInstanceAs (Decidable (tid < queue.lastSetThreads ∧
      ∀ lane ∈ queue.lines[tid]?, lane.pushed.length + 1 < lane.popped.length + 2 ^ 64))
  | .store _ => inferInstanceAs (Decidable True)
  | .submit tid => inferInstanceAs (Decidable (tid < queue.lastSetThreads))
  | .pop => inferInstanceAs (Decidable True)
  | .reset threadNum =>
      decidable_of_iff (threadNum ≤ queue.lines.length ∧
        ∀ lane ∈ queue.lines.drop threadNum, lane.storing = false)
        (and_congr_right fun _ => forall_dropped_iff queue.lines threadNum)
  | .resetRest => inferInstanceAs (Decidable True)

instance (least : ℕ) (reset : Option ResetStage) :
    Decidable (∃ threadNum ≥ least, reset = some (.test threadNum)) :=
  match reset with
  | some (.test threadNum) => decidable_of_iff (least ≤ threadNum)
      ⟨fun le => ⟨threadNum, le, rfl⟩, fun ⟨_, le, same⟩ => by cases same; exact le⟩
  | some .popNum => isFalse fun ⟨_, _, same⟩ => nomatch same
  | some (.alive _) => isFalse fun ⟨_, _, same⟩ => nomatch same
  | none => isFalse fun ⟨_, _, same⟩ => nomatch same

instance (queue : RapidQueue α) (event : QueueEvent α) : Decidable (queue.Apart event) :=
  match event with
  | .write _ _ _ => inferInstanceAs (Decidable True)
  | .store _ => inferInstanceAs (Decidable True)
  | .submit _ => inferInstanceAs (Decidable True)
  | .pop => inferInstanceAs (Decidable (queue.stage = .test → queue.popNum = 0 →
      queue.lowering = false))
  | .reset threadNum => inferInstanceAs (Decidable (queue.stage = .assign →
      queue.lastSetThreads ≤ threadNum))
  | .resetRest => inferInstanceAs (Decidable (
      (queue.stage = .store 1 → queue.resetting = some .popNum → queue.lowering = false) ∧
      ∀ threadNum < queue.lastSetThreads, queue.stage = .put threadNum →
        ∃ threadNum' ≥ queue.currAlivedThreads, queue.resetting = some (.test threadNum')))

instance (queue : RapidQueue α) (event : QueueEvent α) :
    Decidable (queue.PermittedApart event) :=
  inferInstanceAs (Decidable (queue.Permitted event ∧ queue.Apart event))

/-- Two elements of which the second one is not submitted, and a call of `Pop`. -/
def pushEvents : List (QueueEvent ℕ) :=
  [.write 0 7 false, .store 0, .write 0 8 false] ++ List.replicate 4 .pop

theorem delivers_pushEvents :
    ∃ queue, execPermitted step PermittedApart pushEvents (new ℕ 2 2) = some queue ∧
      queue.Delivers PermittedApart := by
  have ends : (execPermitted step PermittedApart pushEvents (new ℕ 2 2)).isSome = true := by
    decide +kernel
  rcases Option.isSome_iff_exists.mp ends with ⟨queue, executed⟩
  exact ⟨queue, executed, delivers_of_apart (Nat.le_refl 2) (reaches_of_execPermitted _ executed)⟩

theorem sizes_pushEvents :
    ∃ queue, execPermitted step PermittedApart pushEvents (new ℕ 2 2) = some queue ∧
      (queue.isEmpty = true ↔ ∀ lane ∈ queue.lines, lane.popped = lane.pushed) ∧
      queue.roughSize =
        (queue.lines.map fun lane => lane.covered - lane.popped.length).sum % 2 ^ 64 := by
  have ends : (execPermitted step PermittedApart pushEvents (new ℕ 2 2)).map (·.resetting) =
      some none := by
    decide +kernel
  rcases Option.map_eq_some_iff.mp ends with ⟨queue, executed, settled⟩
  rcases sizes_of_apart (Nat.le_refl 2) (reaches_of_execPermitted _ executed) with
    ⟨isEmpty, roughSize, -⟩
  exact ⟨queue, executed, isEmpty, roughSize settled⟩

/-- The number of threads is lowered from three to two, and to one when the countdown has just
ended. What the second thread has pushed when its line has been visited the last time stays. -/
def strandingEvents : List (QueueEvent ℕ) :=
  [.reset 2, .resetRest, .resetRest] ++ List.replicate 41 .pop ++
    [.write 1 7 true, .store 1, .pop, .pop, .pop, .pop, .reset 1, .resetRest, .resetRest, .pop,
      .pop]

theorem not_delivers :
    ¬∀ (maxThreadNum threadNum : ℕ) (queue : RapidQueue ℕ), threadNum ≤ maxThreadNum →
      Reaches step Permitted (new ℕ maxThreadNum threadNum) queue → queue.Delivers Permitted := by
  intro delivers
  have ends : (execPermitted step Permitted strandingEvents (new ℕ 3 3)).map (fun queue =>
      (queue.stage, queue.resetting, queue.currAlivedThreads,
        (queue.lines[1]?).map fun lane => (lane.popped.length, lane.covered))) =
      some (.idle, none, 1, some (0, 1)) := by
    decide +kernel
  rcases Option.map_eq_some_iff.mp ends with ⟨queue, executed, queueEq⟩
  simp only [Prod.mk.injEq] at queueEq
  rcases queueEq with ⟨idle, settled, alive, left⟩
  rcases Option.map_eq_some_iff.mp left with ⟨lane, found, laneEq⟩
  simp only [Prod.mk.injEq] at laneEq
  have reached := (delivers 3 3 queue (Nat.le_refl 3)
    (reaches_of_execPermitted _ executed)).reached settled 1 lane found
  rw [laneEq.1, laneEq.2, alive] at reached
  exact absurd (reached Nat.one_pos) (Nat.lt_irrefl 1)

end RapidQueue

end RapidDb
