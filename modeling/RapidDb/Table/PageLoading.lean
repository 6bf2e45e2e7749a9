import RapidDb.Table.IndexAction

/-!
# Pages are picked up when they are loaded

`GetPage` tests a status and changes it later, `PrevPageAction` takes a page that is being read for
one that has been read, the two `SearchPage`, the actions and `SacnIndex` each accept other
statuses, and several of them go on to a page without a test. Runs in which no other action loads a
page at such a moment, and in which no page is found with a status for which the test is wrong or
missing, read each page once, use no page before it has been read and wait for no page that has
been.
-/

namespace RapidDb

open Transition

namespace PageLoad

/-- The page has been read, or was made in memory. -/
def inMemory : PageStatus → Bool
  | .readed | .valid | .writing => true
  | _ => false

/-- Pages that the caller of `GetPage` goes on to use. -/
def PageUse.relies : PageUse → List ℕ
  | keyChild parent | recordChild parent | sibling _ parent => [parent]
  | _ => []

/-- Pages that have been found in memory before. -/
def Place.relies : Place → List ℕ
  | getPage _ _ use | addRead _ use | setReading _ use | syncRead _ use => use.relies
  | setValid page use => page :: use.relies
  | linkKey parent _ | linkRecord parent _ | linkSibling _ parent _ => [parent]
  | keyDescend page | validate page => [page]
  | _ => []

@[simp] theorem PageUse.relies_goesOn (use : PageUse) (page : ℕ) :
    (use.goesOn page).relies = use.relies := by
  cases use <;> rfl

@[simp] theorem PageUse.loads_goesOn (use : PageUse) (page : ℕ) :
    (use.goesOn page).loads = none := by
  cases use <;> rfl

namespace IndexState

@[simp] theorem status_setPage (state : IndexState) (page other : ℕ) (object : IndexPage) :
    (state.setPage page object).status other =
      if other = page then object.pageStatus else state.status other := by
  by_cases same : other = page
  · subst same
    simp [status, setPage]
  · simp [status, setPage, same]

@[simp] theorem loaded_setPage (state : IndexState) (page other : ℕ) (object : IndexPage) :
    (state.setPage page object).loaded other =
      if other = page then object.loaded else state.loaded other := by
  by_cases same : other = page
  · subst same
    simp [loaded, setPage]
  · simp [loaded, setPage, same]

@[simp] theorem loaded_goTo (state : IndexState) (i page : ℕ) (action : IndexAction)
    (place : Place) : (state.goTo i action place).loaded page = state.loaded page := rfl

@[simp] theorem loaded_touch (state : IndexState) (page other : ℕ) :
    (state.touch page).loaded other = state.loaded other := rfl

@[simp] theorem loaded_setStatus (state : IndexState) (page other : ℕ) (status : PageStatus) :
    (state.setStatus page status).loaded other = state.loaded other := by
  by_cases same : other = page
  · subst same
    simp [setStatus, loaded, setPage]
  · simp [setStatus, same]

/-- Nothing that happens to a page is wrong: see the conditions of the single places. -/
def Careful (state : IndexState) (action : IndexAction) : Place → Prop
  -- No other action is between the test of GetPage and the change of the status.
  | .getPage page _ _ =>
      state.status page = .empty → ∀ other ∈ state.actions, other.place.loads ≠ some page
  -- PrevPageAction marks a page that is being read as VALID, and accepts nothing but VALID.
  | .checkPrev page =>
      state.status page ≠ .reading ∧ (action.due = some page → state.status page = .valid)
  -- Tests that do not accept READED.
  | .enterSearch page => action.due = some page → state.status page ≠ .readed
  | .checkLeaf page =>
      action.kind ≠ .secRecord → action.due = some page → state.status page ≠ .readed
  | .checkChild _ child => action.due = some child → state.status child = .valid
  -- Pages that are come to without a test, or with one that accepts EMPTY.
  | .judging page | .judgingParent page | .recordSearch page | .useLeaf page | .header _ page
  | .firstChild _ page =>
      inMemory (state.status page) = true
  | _ => True

def CarefulStep (state : IndexState) : Event → Prop
  | .step i _ => ∀ action ∈ state.actions[i]?, state.Careful action action.place
  | _ => True

instance (state : IndexState) (action : IndexAction) (place : Place) :
    Decidable (state.Careful action place) := by
  cases place <;> unfold Careful <;> infer_instance

instance (state : IndexState) (event : Event) : Decidable (state.CarefulStep event) := by
  cases event <;> unfold CarefulStep <;> infer_instance

structure PickedUp (state : IndexState) : Prop where
  queuedOnce : (state.queuedReads.map Prod.fst).Nodup
  queuedEmpty : ∀ queued ∈ state.queuedReads, queued.2 = .empty
  touchedLoaded : ∀ touched ∈ state.touched, touched.2 = true
  notAgain : state.waitedAgain = []

structure ActionSound (state : IndexState) (action : IndexAction) : Prop where
  loads : ∀ page, action.place.loads = some page → state.status page = .empty
  relies : ∀ page ∈ action.place.relies, state.loaded page = true
  due : ∀ page, action.due = some page → state.loaded page = true

structure Sound (state : IndexState) : Prop extends PickedUp state where
  inMemory : ∀ page, state.loaded page = inMemory (state.status page)
  known : ∀ page, state.status page ≠ .obsolete ∧ state.status page ≠ .invalid
  unqueued : ∀ page, state.status page = .empty → page ∉ state.queuedReads.map Prod.fst
  actions : ∀ action ∈ state.actions, state.ActionSound action
  alone : ∀ (i j : ℕ) (action other : IndexAction) (page : ℕ), state.actions[i]? = some action →
    state.actions[j]? = some other → action.place.loads = some page →
    other.place.loads = some page → i = j
  readNodup : state.readQueue.Nodup
  reading : ∀ page ∈ state.readQueue, state.status page = .reading
  writeQueue : ∀ page ∈ state.writeQueue, state.loaded page = true
  writers : ∀ page ∈ state.writers, state.loaded page = true
  ioRead : ∀ request ∈ state.io, request.read = true → request.afterRead = true ∧
    state.status request.page = .reading ∧ request.page ∉ state.readQueue
  ioWrite : ∀ request ∈ state.io, request.read = false → request.afterRead = false ∧
    state.loaded request.page = true
  tops : ∀ page ∈ state.tops, state.loaded page = true
  children : ∀ page, (state.pages page).children ≠ [] → state.loaded page = true

namespace Sound

variable {state : IndexState}

variable {page : ℕ}

theorem not_empty_of_loaded (sound : Sound state) (isLoaded : state.loaded page = true) :
    state.status page ≠ .empty ∧ state.status page ≠ .reading := by
  rw [sound.inMemory] at isLoaded
  constructor <;> intro statusIs <;> simp [statusIs, PageLoad.inMemory] at isLoaded

theorem free_of_loaded (sound : Sound state) (isLoaded : state.loaded page = true) :
    ∀ action ∈ state.actions, action.place.loads ≠ some page := by
  intro action isAction loads
  exact (sound.not_empty_of_loaded isLoaded).1 ((sound.actions action isAction).loads page loads)

variable {i : ℕ} {action : IndexAction}

section

variable (sound : Sound state)

include sound

theorem setAction (actionSound : state.ActionSound action)
    (alone : ∀ page, action.place.loads = some page →
      ∀ (j : ℕ) (other : IndexAction), j ≠ i → state.actions[j]? = some other →
        other.place.loads ≠ some page) : Sound (state.setAction i action) :=
  { sound with
    actions := by
      intro other isOther
      rcases List.mem_or_eq_of_mem_set isOther with old | rfl
      · exact { sound.actions other old with }
      · exact { actionSound with }
    alone := by
      intro j k first second page at_j at_k loadsFirst loadsSecond
      simp only [IndexState.setAction, List.getElem?_set] at at_j at_k
      by_cases first_i : i = j <;> by_cases second_i : i = k
      · omega
      · rw [if_neg second_i] at at_k
        rw [if_pos first_i] at at_j
        rcases Option.ite_none_right_eq_some.mp at_j with ⟨-, ⟨⟩⟩
        exact absurd loadsSecond (alone page loadsFirst k second (Ne.symm second_i) at_k)
      · rw [if_neg first_i] at at_j
        rw [if_pos second_i] at at_k
        rcases Option.ite_none_right_eq_some.mp at_k with ⟨-, ⟨⟩⟩
        exact absurd loadsFirst (alone page loadsSecond j first (Ne.symm first_i) at_j)
      · rw [if_neg first_i] at at_j
        rw [if_neg second_i] at at_k
        exact sound.alone j k first second page at_j at_k loadsFirst loadsSecond }

theorem setAction_of_loads_eq_none (actionSound : state.ActionSound action)
    (noLoad : action.place.loads = none) : Sound (state.setAction i action) := by
  apply sound.setAction actionSound
  intro page loads
  rw [noLoad] at loads
  cases loads

theorem touch (isLoaded : state.loaded page = true) : Sound (state.touch page) :=
  { sound with
    actions := fun action isAction => { sound.actions action isAction with }
    touchedLoaded := by
      intro touched isTouched
      rcases List.mem_cons.mp isTouched with rfl | old
      · exact isLoaded
      · exact sound.touchedLoaded touched old }

/-- A page that nothing has to do with gets into memory, or one in memory is changed. -/
theorem setPage {object : IndexPage} (isLoaded : object.loaded = true)
    (status : PageLoad.inMemory object.pageStatus = true)
    (free : ∀ action ∈ state.actions, action.place.loads ≠ some page)
    (notQueued : page ∉ state.readQueue)
    (notRead : ∀ request ∈ state.io, request.read = true → request.page ≠ page) :
    Sound (state.setPage page object) := by
  have grows : ∀ other, state.loaded other = true →
    (state.setPage page object).loaded other = true := by
    intro other otherLoaded
    by_cases same : other = page <;> simp [same, isLoaded, otherLoaded]
  refine { sound with
    inMemory := ?_, known := ?_, unqueued := ?_, actions := ?_, reading := ?_, writeQueue := ?_
    writers := ?_, ioRead := ?_, ioWrite := ?_, tops := ?_, children := ?_ }
  · intro other
    by_cases same : other = page <;> simp [same, isLoaded, status, sound.inMemory]
  · intro other
    by_cases same : other = page
    · simp only [status_setPage, same, if_true]
      constructor <;> intro statusIs <;> simp [statusIs, PageLoad.inMemory] at status
    · simpa [same] using sound.known other
  · intro other otherEmpty
    by_cases same : other = page
    · simp only [status_setPage, same, if_true] at otherEmpty
      simp [otherEmpty, PageLoad.inMemory] at status
    · exact sound.unqueued other (by simpa [same] using otherEmpty)
  · intro action isAction
    have old := sound.actions action isAction
    refine ⟨?_, fun other isOther => grows other (old.relies other isOther),
      fun other isDue => grows other (old.due other isDue)⟩
    intro other loads
    have notSame : other ≠ page := fun same => free action isAction (same ▸ loads)
    simpa [notSame] using old.loads other loads
  · intro other isOther
    have notSame : other ≠ page := fun same => notQueued (same ▸ isOther)
    simpa [notSame] using sound.reading other isOther
  · exact fun other isOther => grows other (sound.writeQueue other isOther)
  · exact fun other isOther => grows other (sound.writers other isOther)
  · intro request isRequest read
    have notSame := notRead request isRequest read
    rw [status_setPage, if_neg notSame]
    exact sound.ioRead request isRequest read
  · intro request isRequest write
    have old := sound.ioWrite request isRequest write
    exact ⟨old.1, grows _ old.2⟩
  · exact fun other isOther => grows other (sound.tops other isOther)
  · intro other hasChildren
    by_cases same : other = page
    · simp [same, isLoaded]
    · apply grows
      apply sound.children
      simpa [IndexState.setPage, same] using hasChildren

theorem setPage_of_loaded {object : IndexPage} (wasLoaded : state.loaded page = true)
    (isLoaded : object.loaded = true) (status : PageLoad.inMemory object.pageStatus = true) :
    Sound (state.setPage page object) := by
  have notReading := (sound.not_empty_of_loaded wasLoaded).2
  apply sound.setPage isLoaded status (sound.free_of_loaded wasLoaded)
  · exact fun isQueued => notReading (sound.reading page isQueued)
  · intro request isRequest read same
    exact notReading (same ▸ (sound.ioRead request isRequest read).2.1)

theorem setStatus {status : PageStatus} (wasLoaded : state.loaded page = true)
    (isInMemory : PageLoad.inMemory status = true) : Sound (state.setStatus page status) :=
  sound.setPage_of_loaded wasLoaded wasLoaded isInMemory

theorem setChildPage {parent child : ℕ} (isLoaded : state.loaded parent = true) :
    Sound (state.setChildPage parent child) := by
  have status : PageLoad.inMemory (state.status parent) = true := by
    rw [← sound.inMemory]
    exact isLoaded
  apply touch
  · exact sound.setPage_of_loaded isLoaded isLoaded status
  · rw [loaded_setPage, if_pos rfl]
    exact isLoaded

theorem addReadPage (isEmpty : state.status page = .empty)
    (free : ∀ action ∈ state.actions, action.place.loads ≠ some page) :
    Sound (state.addReadPage page) := by
  have notLoaded : state.loaded page = false := by
    rw [sound.inMemory, isEmpty]
    rfl
  have keeps : ∀ other, state.loaded other = true →
      (state.addReadPage page).loaded other = true := by
    intro other otherLoaded
    exact (loaded_setStatus state page other .reading).trans otherLoaded
  have statusIs : ∀ other, (state.addReadPage page).status other =
      if other = page then .reading else state.status other := by
    intro other
    exact status_setPage state page other _
  refine { sound with
    queuedOnce := ?_, queuedEmpty := ?_, inMemory := ?_, known := ?_, unqueued := ?_, actions := ?_
    readNodup := ?_, reading := ?_, writeQueue := ?_, writers := ?_, ioRead := ?_, ioWrite := ?_
    tops := ?_, children := ?_ }
  · exact List.nodup_cons.mpr ⟨sound.unqueued page isEmpty, sound.queuedOnce⟩
  · intro queued isQueued
    rcases List.mem_cons.mp isQueued with rfl | old
    · exact isEmpty
    · exact sound.queuedEmpty queued old
  · intro other
    apply (loaded_setStatus state page other .reading).trans
    rw [statusIs]
    by_cases same : other = page
    · simpa [same, PageLoad.inMemory] using notLoaded
    · simpa [same] using sound.inMemory other
  · intro other
    rw [statusIs]
    by_cases same : other = page
    · simp [same]
    · simpa [same] using sound.known other
  · intro other otherEmpty
    rw [statusIs] at otherEmpty
    by_cases same : other = page
    · simp [same] at otherEmpty
    · simp only [same, if_false] at otherEmpty
      simpa [IndexState.addReadPage, same] using sound.unqueued other otherEmpty
  · intro action isAction
    have old := sound.actions action isAction
    refine ⟨?_, fun other isOther => keeps other (old.relies other isOther),
      fun other isDue => keeps other (old.due other isDue)⟩
    intro other loads
    have notSame : other ≠ page := fun same => free action isAction (same ▸ loads)
    rw [statusIs, if_neg notSame]
    exact old.loads other loads
  · refine List.nodup_cons.mpr ⟨?_, sound.readNodup⟩
    intro isQueued
    have := sound.reading page isQueued
    simp [isEmpty] at this
  · intro other isOther
    rw [statusIs]
    split
    · rfl
    · rename_i notSame
      exact sound.reading other ((List.mem_cons.mp isOther).resolve_left notSame)
  · exact fun other isOther => keeps other (sound.writeQueue other isOther)
  · exact fun other isOther => keeps other (sound.writers other isOther)
  · intro request isRequest read
    have old := sound.ioRead request isRequest read
    have notSame : request.page ≠ page := by
      intro same
      rw [same, isEmpty] at old
      simp at old
    rw [statusIs, if_neg notSame]
    refine ⟨old.1, old.2.1, ?_⟩
    intro isQueued
    exact old.2.2 ((List.mem_cons.mp isQueued).resolve_left notSame)
  · intro request isRequest write
    have old := sound.ioWrite request isRequest write
    exact ⟨old.1, keeps _ old.2⟩
  · exact fun other isOther => keeps other (sound.tops other isOther)
  · intro other hasChildren
    apply keeps
    apply sound.children
    by_cases same : other = page
    · subst same
      simpa [IndexState.addReadPage, IndexState.setStatus, IndexState.setPage] using hasChildren
    · simpa [IndexState.addReadPage, IndexState.setStatus, IndexState.setPage,
        same] using hasChildren

theorem loaded_of_status (status : PageLoad.inMemory (state.status page) = true) :
    state.loaded page = true :=
  (sound.inMemory page).trans status

theorem status_of_loaded (isLoaded : state.loaded page = true) :
    PageLoad.inMemory (state.status page) = true :=
  (sound.inMemory page).symm.trans isLoaded

theorem moves (i : ℕ) (moved : IndexAction) (isAction : action ∈ state.actions)
    (sameDue : moved.due = action.due) (noLoad : moved.place.loads = none)
    (relies : ∀ page ∈ moved.place.relies, state.loaded page = true) :
    Sound (state.setAction i moved) := by
  refine sound.setAction_of_loads_eq_none ⟨?_, relies, ?_⟩ noLoad
  · intro page loads
    rw [noLoad] at loads
    cases loads
  · intro page isDue
    exact (sound.actions action isAction).due page (sameDue ▸ isDue)

theorem goTo (i : ℕ) {place : Place} (isAction : action ∈ state.actions)
    (noLoad : place.loads = none) (relies : ∀ page ∈ place.relies, state.loaded page = true) :
    Sound (state.goTo i action place) :=
  sound.moves i { action with place := place } isAction rfl noLoad relies

theorem keep (i : ℕ) {place : Place} (isAction : action ∈ state.actions)
    (noLoad : place.loads = none) (relies : ∀ other ∈ place.relies, state.loaded other = true) :
    Sound (state.keep i action page place) :=
  sound.moves i { action with place := place, idxPage := some page } isAction rfl noLoad relies

theorem wait {i page : ℕ} {action moved : IndexAction} (isAction : action ∈ state.actions)
    (sameDue : moved.due = action.due) (notDue : action.due ≠ some page) :
    Sound (state.wait i moved page) := by
  have waiting : Sound (state.setAction i { moved with place := .queued, waits := some page }) := by
    apply sound.moves i { moved with place := .queued, waits := some page } isAction sameDue rfl
    intro other isOther
    cases isOther
  have kept : (if moved.due = some page then page :: state.waitedAgain else state.waitedAgain) =
      state.waitedAgain := by
    rw [if_neg (sameDue ▸ notDue)]
  unfold IndexState.wait
  rw [kept]
  exact waiting

theorem free_of_loads {i page : ℕ} {action moved : IndexAction}
    (at_i : state.actions[i]? = some action) (loads : action.place.loads = some page)
    (noLoad : moved.place.loads = none) :
    ∀ other ∈ (state.setAction i moved).actions, other.place.loads ≠ some page := by
  intro other isOther otherLoads
  rcases List.getElem?_of_mem isOther with ⟨j, at_j⟩
  simp only [IndexState.setAction, List.getElem?_set] at at_j
  by_cases same : i = j
  · rw [if_pos same] at at_j
    rcases Option.ite_none_right_eq_some.mp at_j with ⟨-, ⟨⟩⟩
    rw [noLoad] at otherLoads
    cases otherLoads
  · rw [if_neg same] at at_j
    exact same (sound.alone i j action other page at_i at_j loads otherLoads)

theorem not_queued_of_empty (isEmpty : state.status page = .empty) :
    page ∉ state.readQueue ∧
      ∀ request ∈ state.io, request.read = true → request.page ≠ page := by
  constructor
  · intro isQueued
    have := sound.reading page isQueued
    simp [isEmpty] at this
  · intro request isRequest read same
    have := (sound.ioRead request isRequest read).2.1
    simp [same, isEmpty] at this

end

variable {state' : IndexState}

theorem stepGetPage (sound : Sound state)
    (at_i : state.actions[i]? = some action) (careful : state.Careful action action.place)
    (step : state.stepGetPage i action action.place = some state') : Sound state' := by
  have isAction := List.mem_of_getElem? at_i
  have actionSound := sound.actions action isAction
  cases place : action.place with
  | getPage page bSyncRead use =>
      rw [place] at step careful
      have relies : ∀ other ∈ use.relies, state.loaded other = true := by
        simpa [place, Place.relies] using actionSound.relies
      simp only [IndexState.stepGetPage, Option.some.injEq] at step
      subst step
      by_cases isEmpty : state.status page = .empty
      · have alone := careful isEmpty
        cases bSyncRead with
        | true =>
            simp only [isEmpty, if_true]
            refine sound.setAction ⟨?_, relies, actionSound.due⟩ ?_
            · rintro other ⟨⟩
              exact isEmpty
            · rintro other ⟨⟩ j another - at_j
              exact alone another (List.mem_of_getElem? at_j)
        | false =>
            simp only [isEmpty, if_true, Bool.false_eq_true, if_false]
            refine sound.setAction ⟨?_, relies, actionSound.due⟩ ?_
            · rintro other ⟨⟩
              exact isEmpty
            · rintro other ⟨⟩ j another - at_j
              exact alone another (List.mem_of_getElem? at_j)
      · rw [if_neg isEmpty]
        apply sound.goTo i isAction (use.loads_goesOn page)
        simpa using relies
  | addRead page use =>
      rw [place] at step
      have relies : ∀ other ∈ use.relies, state.loaded other = true := by
        simpa [place, Place.relies] using actionSound.relies
      rcases Option.ite_none_right_eq_some.mp step with ⟨isEmpty, ⟨⟩⟩
      refine sound.setAction ⟨?_, relies, actionSound.due⟩ ?_
      · rintro other ⟨⟩
        exact isEmpty
      · rintro other ⟨⟩ j another differs at_j loads
        exact differs (sound.alone j i another action page at_j at_i loads
          (by simp [place, Place.loads]))
  | setReading page use =>
      rw [place] at step
      have relies : ∀ other ∈ use.relies, state.loaded other = true := by
        simpa [place, Place.relies] using actionSound.relies
      have loads : action.place.loads = some page := by
        rw [place]
        rfl
      simp only [IndexState.stepGetPage, Option.some.injEq] at step
      subst step
      have moved : Sound (state.goTo i action (use.goesOn page)) := by
        apply sound.goTo i isAction (use.loads_goesOn page)
        simpa using relies
      apply moved.addReadPage (actionSound.loads page loads)
      exact sound.free_of_loads at_i loads (use.loads_goesOn page)
  | syncRead page use =>
      rw [place] at step
      have relies : ∀ other ∈ use.relies, state.loaded other = true := by
        simpa [place, Place.relies] using actionSound.relies
      have loads : action.place.loads = some page := by
        rw [place]
        rfl
      have isEmpty := actionSound.loads page loads
      simp only [IndexState.stepGetPage, Option.some.injEq] at step
      subst step
      have moved : Sound (state.goTo i action .queued) := by
        apply sound.goTo i isAction rfl
        intro other isOther
        cases isOther
      have notQueued := sound.not_queued_of_empty isEmpty
      have read : Sound ((state.goTo i action .queued).afterRead page) :=
        moved.setPage rfl rfl (sound.free_of_loads at_i loads rfl) notQueued.1 notQueued.2
      have inActions :
        { action with place := .queued } ∈ (state.goTo i action .queued).actions := by
        apply List.mem_of_getElem?
        exact List.getElem?_set_self (List.getElem?_eq_some_iff.mp at_i).1
      have settles : Sound (((state.goTo i action .queued).afterRead page).goTo i
          { action with place := .queued } (.setValid page use)) := by
        apply read.goTo i inActions rfl
        intro other isOther
        rcases List.mem_cons.mp isOther with rfl | isOther
        · simp [IndexState.afterRead]
        · by_cases same : other = page
          · simp [IndexState.afterRead, same]
          · simpa [IndexState.afterRead, same] using relies other isOther
      simpa [IndexState.goTo, IndexState.setAction, IndexState.afterRead, IndexState.setPage]
        using settles
  | setValid page use =>
      rw [place] at step
      have relies : ∀ other ∈ page :: use.relies, state.loaded other = true := by
        simpa [place, Place.relies] using actionSound.relies
      simp only [IndexState.stepGetPage, Option.some.injEq] at step
      subst step
      have isLoaded := relies page (List.mem_cons_self ..)
      apply (sound.setStatus isLoaded rfl).goTo i isAction (use.loads_goesOn page)
      intro other isOther
      rw [loaded_setStatus]
      apply relies other
      exact List.mem_cons_of_mem page (by simpa using isOther)
  | _ => simp [place, IndexState.stepGetPage] at step

variable {choice : Choice}

section

variable (sound : Sound state)

include sound

theorem stepSearchPage (isAction : action ∈ state.actions)
    (careful : state.Careful action action.place)
    (step : state.stepSearchPage i action choice action.place = some state') : Sound state' := by
  have actionSound := sound.actions action isAction
  -- A place from which the action comes to no page it relies on.
  have noPage : ∀ page ∈ ([] : List ℕ), state.loaded page = true := by
    intro page isPage
    cases isPage
  have onePage : ∀ {page : ℕ}, state.loaded page = true →
      ∀ other ∈ [page], state.loaded other = true := by
    intro page isLoaded other isOther
    rcases List.mem_singleton.mp isOther with rfl
    exact isLoaded
  cases place : action.place with
  | enterSearch page =>
      rw [place] at step careful
      simp only [IndexState.stepSearchPage, Option.some.injEq] at step
      subst step
      split
      · split
        · exact sound.goTo i isAction rfl noPage
        · exact sound.goTo i isAction rfl noPage
      · rename_i notAccepted
        refine sound.wait isAction rfl ?_
        intro isDue
        have status := sound.status_of_loaded (actionSound.due page isDue)
        have notReaded := careful isDue
        cases statusIs : state.status page <;>
          simp_all [PageLoad.inMemory]
  | keySearch page =>
      rw [place] at step
      simp only [IndexState.stepSearchPage, Option.some.injEq] at step
      subst step
      split
      · rename_i statusIs
        exact sound.goTo i isAction rfl (onePage (sound.loaded_of_status (by rw [statusIs]; rfl)))
      · rename_i statusIs
        exact sound.goTo i isAction rfl (onePage (sound.loaded_of_status (by rw [statusIs]; rfl)))
      · rename_i statusIs
        exact sound.goTo i isAction rfl (onePage (sound.loaded_of_status (by rw [statusIs]; rfl)))
      · refine sound.wait isAction rfl ?_
        intro isDue
        have status := sound.status_of_loaded (actionSound.due page isDue)
        cases statusIs : state.status page <;> simp_all [PageLoad.inMemory]
  | keyDescend page =>
      rw [place] at step
      have isLoaded : state.loaded page = true := by
        apply actionSound.relies
        simp [place, Place.relies]
      simp only [IndexState.stepSearchPage] at step
      split at step
      · cases step
        exact sound.goTo i isAction rfl noPage
      · cases choice with
        | child child =>
            simp only [Option.some.injEq] at step
            subst step
            split
            · exact (sound.touch isLoaded).keep i isAction rfl noPage
            · exact (sound.touch isLoaded).goTo i isAction rfl (onePage isLoaded)
        | _ => cases step
  | linkKey parent child =>
      rw [place] at step
      have isLoaded : state.loaded parent = true := by
        apply actionSound.relies
        simp [place, Place.relies]
      simp only [IndexState.stepSearchPage, Option.some.injEq] at step
      subst step
      apply (sound.setChildPage isLoaded).keep i isAction rfl
      intro other isOther
      cases isOther
  | recordSearch page =>
      rw [place] at step careful
      have isLoaded := sound.loaded_of_status careful
      simp only [IndexState.stepSearchPage] at step
      split at step
      · cases step
        exact sound.goTo i isAction rfl noPage
      · cases choice with
        | child child =>
            simp only [Option.some.injEq] at step
            subst step
            split
            · exact (sound.touch isLoaded).keep i isAction rfl noPage
            · exact (sound.touch isLoaded).goTo i isAction rfl (onePage isLoaded)
        | _ => cases step
  | linkRecord parent child =>
      rw [place] at step
      have isLoaded : state.loaded parent = true := by
        apply actionSound.relies
        simp [place, Place.relies]
      simp only [IndexState.stepSearchPage, Option.some.injEq] at step
      subst step
      apply (sound.setChildPage isLoaded).goTo i isAction rfl
      intro other isOther
      cases isOther
  | checkChild parent child =>
      rw [place] at step careful
      rcases Option.ite_none_left_eq_some.mp step with ⟨notValid, ⟨⟩⟩
      refine sound.wait isAction rfl ?_
      exact fun isDue => notValid (careful isDue)
  | _ => simp [place, IndexState.stepSearchPage] at step

theorem stepPrevPage (isAction : action ∈ state.actions)
    (careful : state.Careful action action.place)
    (step : state.stepPrevPage i action choice action.place = some state') : Sound state' := by
  have noPage : ∀ page ∈ ([] : List ℕ), state.loaded page = true := by
    intro page isPage
    cases isPage
  cases place : action.place with
  | checkPrev page =>
      rw [place] at step careful
      simp only [IndexState.stepPrevPage, Option.some.injEq] at step
      subst step
      split
      · rename_i statusIs
        exact absurd statusIs careful.1
      · exact sound.keep i isAction rfl noPage
      · rename_i notValid
        refine sound.wait isAction rfl ?_
        exact fun isDue => notValid (careful.2 isDue)
  | judging page =>
      rw [place] at step careful
      have touched := sound.touch (sound.loaded_of_status careful)
      cases choice with
      | go =>
          cases step
          exact touched.keep i isAction rfl noPage
      | pointer parent =>
          cases step
          exact touched.keep i isAction rfl noPage
      | load unused parent =>
          cases step
          exact touched.keep i isAction rfl noPage
      | _ => cases step
  | judgingParent page =>
      rw [place] at step careful
      cases step
      exact (sound.touch (sound.loaded_of_status careful)).goTo i isAction rfl noPage
  | _ => simp [place, IndexState.stepPrevPage] at step

theorem stepLeaf (isAction : action ∈ state.actions) (careful : state.Careful action action.place)
    (step : state.stepLeaf i action choice action.place = some state') : Sound state' := by
  have actionSound := sound.actions action isAction
  have noPage : ∀ page ∈ ([] : List ℕ), state.loaded page = true := by
    intro page isPage
    cases isPage
  cases place : action.place with
  | checkLeaf page =>
      rw [place] at step careful
      simp only [IndexState.stepLeaf, Option.some.injEq] at step
      subst step
      split
      · exact sound.goTo i isAction rfl noPage
      · exact sound.goTo i isAction rfl noPage
      · rename_i statusIs
        apply sound.goTo i isAction rfl
        intro other isOther
        rcases List.mem_singleton.mp isOther with rfl
        exact sound.loaded_of_status (by rw [statusIs]; rfl)
      · rename_i statusIs
        refine sound.wait isAction rfl ?_
        intro isDue
        exact (sound.not_empty_of_loaded (actionSound.due page isDue)).2 statusIs
      · exact sound.goTo i isAction rfl noPage
      · rename_i notSec
        refine sound.wait isAction rfl ?_
        intro isDue
        have status := sound.status_of_loaded (actionSound.due page isDue)
        have notReaded : state.status page ≠ .readed := by
          apply careful _ isDue
          intro isSec
          simp_all
        cases statusIs : state.status page <;> simp_all [PageLoad.inMemory]
  | validate page =>
      rw [place] at step
      have isLoaded : state.loaded page = true := by
        apply actionSound.relies
        simp [place, Place.relies]
      simp only [IndexState.stepLeaf, Option.some.injEq] at step
      subst step
      have valid : Sound (state.setStatus page .valid) := sound.setStatus isLoaded rfl
      split
      · exact valid.goTo i isAction rfl (by simp [Place.relies])
      · apply valid.goTo i isAction rfl
        intro other isOther
        rcases List.mem_singleton.mp isOther with rfl
        simpa using isLoaded
  | useLeaf page =>
      rw [place] at step careful
      have touched := sound.touch (sound.loaded_of_status careful)
      simp only [IndexState.stepLeaf] at step
      split at step
      · cases step
        exact touched.goTo i isAction rfl noPage
      · cases step
        exact touched.goTo i isAction rfl noPage
      · cases step
        exact touched.goTo i isAction rfl noPage
      · rcases Option.ite_none_right_eq_some.mp step with ⟨isTop, ⟨⟩⟩
        exact (touched.touch (sound.tops _ isTop)).keep i isAction rfl noPage
      · cases step
  | splitPage page =>
      rw [place] at step
      cases choice with
      | go =>
          cases step
          exact sound.goTo i isAction rfl noPage
      | goOn =>
          cases step
          exact sound.goTo i isAction rfl noPage
      | pointer changed =>
          cases step
          exact sound.goTo i isAction rfl noPage
      | load unused changed =>
          cases step
          exact sound.goTo i isAction rfl noPage
      | _ => cases step
  | header page changed =>
      rw [place] at step careful
      cases step
      exact (sound.touch (sound.loaded_of_status careful)).goTo i isAction rfl noPage
  | _ => simp [place, IndexState.stepLeaf] at step

theorem goBehind (isAction : action ∈ state.actions) (before : IndexState) (leaf page : ℕ) :
    Sound (state.goTo i action (before.behind leaf page)) := by
  unfold IndexState.behind
  split
  · exact sound.goTo i isAction rfl (by simp [Place.relies])
  · exact sound.goTo i isAction rfl (by simp [Place.relies])

theorem lookAt (isAction : action ∈ state.actions) {leaf parent child : ℕ}
    (isLoaded : state.loaded parent = true) : Sound (state.lookAt i action leaf parent child) := by
  have touched := sound.touch isLoaded
  unfold IndexState.lookAt
  split
  · exact touched.goBehind isAction state leaf child
  · apply touched.goTo i isAction rfl
    intro other isOther
    rcases List.mem_singleton.mp isOther with rfl
    exact isLoaded

theorem lookUp (isAction : action ∈ state.actions) {leaf page : ℕ}
    (step : state.lookUp i action leaf page choice = some state') : Sound state' := by
  unfold IndexState.lookUp at step
  -- a page with a child in its records has been read
  split at step
  · rcases Option.ite_none_right_eq_some.mp step with ⟨isChild, ⟨⟩⟩
    exact sound.lookAt isAction (sound.children _ (List.ne_nil_of_mem isChild))
  · rcases Option.ite_none_right_eq_some.mp step with ⟨isChild, ⟨⟩⟩
    have touched := sound.touch (sound.children _ (List.ne_nil_of_mem isChild))
    exact touched.goTo i isAction rfl (by simp [Place.relies])
  · cases step

theorem stepNextPage (isAction : action ∈ state.actions)
    (careful : state.Careful action action.place)
    (step : state.stepNextPage i action choice action.place = some state') : Sound state' := by
  have noPage : ∀ page ∈ ([] : List ℕ), state.loaded page = true := by
    intro page isPage
    cases isPage
  cases place : action.place with
  | nextPage leaf =>
      rw [place] at step
      simp only [IndexState.stepNextPage] at step
      split at step
      · cases step
        exact sound.keep i isAction rfl noPage
      · exact sound.lookUp isAction step
      · cases step
        exact sound.goTo i isAction rfl noPage
      · cases step
        exact sound.goTo i isAction rfl noPage
      · exact sound.lookUp isAction step
  | climb leaf page =>
      rw [place] at step
      exact sound.lookUp isAction step
  | firstChild leaf page =>
      rw [place] at step careful
      cases choice with
      | child child =>
          cases step
          exact sound.lookAt isAction (sound.loaded_of_status careful)
      | _ => cases step
  | linkSibling leaf parent page =>
      rw [place] at step
      have isLoaded : state.loaded parent = true := by
        apply (sound.actions action isAction).relies
        simp [place, Place.relies]
      cases step
      exact (sound.setChildPage isLoaded).goBehind isAction state leaf page
  | _ => simp [place, IndexState.stepNextPage] at step

theorem step (at_i : state.actions[i]? = some action) (careful : state.Careful action action.place)
    (step : state.step i action choice = some state') : Sound state' := by
  have isAction := List.mem_of_getElem? at_i
  unfold IndexState.step at step
  split at step
  · cases step
  · cases step
  all_goals first
    | exact sound.stepGetPage at_i careful step
    | exact sound.stepSearchPage isAction careful step
    | exact sound.stepPrevPage isAction careful step
    | exact sound.stepLeaf isAction careful step
    | exact sound.stepNextPage isAction careful step

theorem resume (i : ℕ) (moved : IndexAction) (sameDue : moved.due = (state.resumed action).due)
    (noLoad : moved.place.loads = none) (relies : moved.place.relies = []) :
    Sound (state.setAction i moved) := by
  refine sound.setAction_of_loads_eq_none ⟨?_, ?_, ?_⟩ noLoad
  · intro page loads
    rw [noLoad] at loads
    cases loads
  · intro page isPage
    rw [relies] at isPage
    cases isPage
  · intro page isDue
    rw [sameDue] at isDue
    exact (Option.filter_eq_some_iff.mp isDue).2

theorem startExec {i top : ℕ} (step : state.startExec i action top = some state') :
    Sound state' := by
  unfold IndexState.startExec at step
  split at step
  · cases step
    exact sound.resume i _ rfl rfl rfl
  · cases step
    exact sound.resume i _ rfl rfl rfl
  · cases step
    exact sound.resume i _ rfl rfl rfl
  · rcases Option.ite_none_right_eq_some.mp step with ⟨isTop, ⟨⟩⟩
    refine (sound.touch (sound.tops top isTop)).resume i _ rfl ?_ ?_
    · dsimp only
      split <;> rfl
    · dsimp only
      split <;> rfl
  · cases step
    refine sound.resume i _ rfl ?_ ?_
    · dsimp only
      split
      · split <;> rfl
      · rfl
    · dsimp only
      split
      · split <;> rfl
      · rfl

theorem startJudge (isAction : action ∈ state.actions)
    (step : state.startJudge i action = some state') : Sound state' := by
  have noPage : ∀ page ∈ ([] : List ℕ), state.loaded page = true := by
    intro page isPage
    cases isPage
  unfold IndexState.startJudge at step
  split at step
  · cases step
    exact sound.goTo i isAction rfl noPage
  · cases step
    exact sound.goTo i isAction rfl noPage
  · cases step

end

theorem of_start {begin : IndexAction → Option IndexState}
    (begins : ∀ action ∈ state.actions, begin action = some state' → Sound state')
    (step : state.start i begin = some state') : Sound state' := by
  rcases Option.bind_eq_some_iff.mp step with ⟨action, at_i, starts⟩
  rcases Option.ite_none_right_eq_some.mp starts with ⟨-, starts⟩
  exact begins action (List.mem_of_getElem? at_i) starts

theorem ioFinish (sound : Sound state)
    (step : state.next .ioFinish = some state') : Sound state' := by
  simp only [IndexState.next] at step
  rcases Option.map_eq_some_iff.mp step with ⟨request, isRequest, stateIs⟩
  have idle : Sound { state with io := none } :=
    { sound with
      actions := fun action isAction => { sound.actions action isAction with }
      ioRead := fun _ isRequest => nomatch isRequest
      ioWrite := fun _ isRequest => nomatch isRequest }
  cases read : request.read with
  | true =>
      have reads := sound.ioRead request isRequest read
      rw [if_pos reads.1] at stateIs
      rw [← stateIs]
      apply idle.setPage rfl rfl
      · intro action isAction loads
        have isEmpty := (sound.actions action isAction).loads request.page loads
        rw [reads.2.1] at isEmpty
        cases isEmpty
      · exact reads.2.2
      · exact fun _ isRequest => nomatch isRequest
  | false =>
      have writes := sound.ioWrite request isRequest read
      have isLoaded : (state.pages request.page).loaded = true := writes.2
      rw [if_neg (by simp [writes.1])] at stateIs
      rw [← stateIs]
      exact idle.setPage_of_loaded writes.2 (by simp [isLoaded]) rfl

theorem ioDone (sound : Sound state) {read : Bool}
    (step : state.next (.ioDone page read) = some state') : Sound state' := by
  simp only [IndexState.next] at step
  rcases Option.ite_none_right_eq_some.mp step with ⟨requested, stateIs⟩
  cases stateIs
  cases read with
  | true =>
      have isReading := sound.reading page (by simpa using requested.2)
      refine { sound with
        actions := fun action isAction => { sound.actions action isAction with }
        readNodup := sound.readNodup.erase page
        reading := fun other isOther => sound.reading other (List.mem_of_mem_erase isOther)
        ioRead := ?_, ioWrite := ?_ }
      · rintro request ⟨⟩ -
        refine ⟨by simpa using isReading, isReading, ?_⟩
        exact sound.readNodup.not_mem_erase
      · rintro request ⟨⟩ ⟨⟩
  | false =>
      have isLoaded := sound.writeQueue page (by simpa using requested.2)
      refine { sound with
        actions := fun action isAction => { sound.actions action isAction with }
        writeQueue := fun other isOther => sound.writeQueue other (List.mem_of_mem_erase isOther)
        ioRead := ?_, ioWrite := ?_ }
      · rintro request ⟨⟩ ⟨⟩
      · rintro request ⟨⟩ -
        exact ⟨by simpa using (sound.not_empty_of_loaded isLoaded).2, isLoaded⟩

theorem setWriting (sound : Sound state)
    (step : state.next (.setWriting page) = some state') : Sound state' := by
  rcases Option.ite_none_right_eq_some.mp step with ⟨isWriter, ⟨⟩⟩
  have isLoaded := sound.writers page isWriter
  have writing : Sound (state.setStatus page .writing) := sound.setStatus isLoaded rfl
  have loadedThen : (state.setStatus page .writing).loaded page = true := by
    rw [loaded_setStatus]
    exact isLoaded
  refine { writing with
    actions := fun action isAction => { writing.actions action isAction with }
    writeQueue := ?_
    writers := fun other isOther => writing.writers other (List.mem_of_mem_erase isOther) }
  intro other isOther
  rcases List.mem_cons.mp isOther with rfl | old
  · exact loadedThen
  · exact writing.writeQueue other old

theorem newPage (sound : Sound state) {isLeaf root : Bool}
    (step : state.next (.newPage page isLeaf root) = some state') : Sound state' := by
  rcases Option.ite_none_right_eq_some.mp step with ⟨fresh, ⟨⟩⟩
  have notQueued := sound.not_queued_of_empty fresh.1
  have made :
    Sound (state.setPage page { isLeaf := isLeaf, pageStatus := .valid, loaded := true }) :=
    sound.setPage rfl rfl fresh.2.2 notQueued.1 notQueued.2
  refine { made with
    actions := fun action isAction => { made.actions action isAction with }
    tops := ?_ }
  intro top isTop
  cases root with
  | false => exact made.tops top isTop
  | true =>
      rcases List.mem_cons.mp isTop with rfl | old
      · show (state.setPage top _).loaded top = true
        simp
      · exact made.tops top old

end Sound

theorem sound_next {state state' : IndexState} {event : Event} (sound : Sound state)
    (careful : state.CarefulStep event) (step : state.next event = some state') : Sound state' := by
  cases event with
  | add kind rangePos =>
      cases step
      refine { sound with actions := ?_, alone := ?_ }
      · intro action isAction
        rcases List.mem_append.mp isAction with old | isNew
        · exact { sound.actions action old with }
        · rcases List.mem_singleton.mp isNew with rfl
          constructor <;> intro page hyp <;> cases hyp
      · intro i j action other page at_i at_j loads otherLoads
        have old : ∀ (k : ℕ) (found : IndexAction), found.place.loads = some page →
            (state.actions ++ [{ kind := kind, rangePos := rangePos }])[k]? = some found →
            state.actions[k]? = some found := by
          intro k found foundLoads at_k
          rw [List.getElem?_append] at at_k
          split at at_k
          · exact at_k
          · rcases List.mem_singleton.mp (List.mem_of_getElem? at_k) with rfl
            cases foundLoads
        exact sound.alone i j action other page (old i action loads at_i)
          (old j other otherLoads at_j) loads otherLoads
  | drop i =>
      refine Sound.of_start ?_ step
      intro action isAction drops
      split at drops
      all_goals first
        | cases drops
          exact sound.goTo i isAction rfl (by simp [Place.relies])
        | cases drops
  | exec i top => exact Sound.of_start (fun _ _ starts => sound.startExec starts) step
  | judgeRange i =>
    exact Sound.of_start (fun _ isAction starts => sound.startJudge isAction starts) step
  | step i choice =>
      rcases Option.bind_eq_some_iff.mp step with ⟨action, at_i, steps⟩
      exact sound.step at_i (careful action at_i) steps
  | ioDone page read => exact sound.ioDone step
  | ioFinish => exact sound.ioFinish step
  | addWrite page =>
      rcases Option.ite_none_right_eq_some.mp step with ⟨accepted, ⟨⟩⟩
      refine { sound with
        actions := fun action isAction => { sound.actions action isAction with }
        writers := ?_ }
      intro other isOther
      rcases List.mem_cons.mp isOther with rfl | old
      · apply sound.loaded_of_status
        rcases accepted with isValid | isWriting
        · rw [isValid]
          rfl
        · rw [isWriting]
          rfl
      · exact sound.writers other old
  | setWriting page => exact sound.setWriting step
  | newPage page isLeaf root => exact sound.newPage step

theorem sound_new (isLeaf : ℕ → Bool) (tops : List ℕ) : Sound (new isLeaf tops) where
  queuedOnce := List.nodup_nil
  queuedEmpty := fun _ isQueued => nomatch isQueued
  touchedLoaded := fun _ isTouched => nomatch isTouched
  notAgain := rfl
  inMemory := by
    intro page
    by_cases isTop : page ∈ tops <;> simp [new, loaded, status, isTop, inMemory]
  known := by
    intro page
    by_cases isTop : page ∈ tops <;> simp [new, status, isTop]
  unqueued := by
    intro page _ isQueued
    cases isQueued
  actions := fun _ isAction => nomatch isAction
  alone := by
    intro i j action other page at_i
    simp [new] at at_i
  readNodup := List.nodup_nil
  reading := fun _ isQueued => nomatch isQueued
  writeQueue := fun _ isQueued => nomatch isQueued
  writers := fun _ isWriter => nomatch isWriter
  ioRead := fun _ isRequest => nomatch isRequest
  ioWrite := fun _ isRequest => nomatch isRequest
  tops := by
    intro page isTop
    simpa [new, loaded] using isTop
  children := by
    intro page hasChildren
    simp [new] at hasChildren

/-- An action for a row that is found through a secondary index has the leaf loaded and is executed
again; then an insert comes to the same leaf. -/
def loadedLeaf : List Event :=
  [.add .secRecord 0, .exec 0 0, .step 0 .go, .step 0 .go, .step 0 (.child 1), .step 0 .go,
    .step 0 .go, .step 0 .go, .step 0 .go, .step 0 .go, .ioDone 1 true, .ioFinish, .exec 0 0,
    .step 0 .go, .step 0 .go, .step 0 .go, .step 0 .go, .add .record 0, .exec 1 0, .step 1 .go,
    .step 1 (.child 1), .step 1 .go, .step 1 .go]

/-- A `RecordAction` has a leaf queued for reading and returns; executed again it finds the pointer
to the leaf, tests nothing and changes the leaf, which has not been read. -/
def unreadLeaf : List Event :=
  [.add .record 0, .exec 0 0, .step 0 .go, .step 0 (.child 1), .step 0 .go, .step 0 .go,
    .step 0 .go, .step 0 .go, .step 0 .go, .exec 0 0, .step 0 .go, .step 0 (.child 1), .step 0 .go,
    .step 0 .go]

end IndexState

end PageLoad

end RapidDb
