import Mathlib.Logic.Function.Basic
import RapidDb.Core.CoreEnum
import RapidDb.Library.Transition

/-!
# Index actions and the status of pages

The tasks of the ranges of an index execute its actions. An action that comes to a page that is not
in memory has it queued for reading and returns `INTERVAL`; it is executed again later and goes on
with the page it has kept. The reading thread, the tasks and the callers of `GetPage` share the
pages and have nothing but the page status to tell each other what is in memory, so one step here
has at most one access to a status or to what a page holds. A failed assertion ends the run.

Which child a search chooses, whether a page has to be split and what the next key of a statement
is, depend on records that are left out: a step is given the choice. `_bFromRangeBegin`, which is
never set, is left out too, and so is dividing an index into other ranges. The last two fields of a
page and the last three of the state are what the code does not keep: which pages hold what is on
disk, and what has happened so far.
-/

namespace RapidDb

open Transition

namespace PageLoad

structure IndexPage where
  isLeaf : Bool
  pageStatus : PageStatus := .empty
  /-- The children whose objects the branch records point to. -/
  children : List ℕ := []
  /-- The page was made in memory, or its read has completed. -/
  loaded : Bool := false
deriving DecidableEq, Repr

inductive ActionKind where
  | record
  | statement
  | secRecord
  | prevPage (pageId : ℕ)
  /-- Other code that calls `GetPage`. -/
  | getPage (pageId : ℕ) (bSyncRead : Bool)
deriving DecidableEq, Repr

/-- What `GetPage` was called for. -/
inductive PageUse where
  | caller
  | prevPage
  /-- `JudgeRange`, for the page and for its parent. -/
  | judgeRange
  | judgeParent
  /-- The two `SearchPage`. -/
  | keyChild (parent : ℕ)
  | recordChild (parent : ℕ)
  /-- `FillNextPage` and `BranchPage::GetNextPage`, for a page on the way to the next leaf. -/
  | sibling (leaf parent : ℕ)
  /-- `SplitPage`, for a child. -/
  | splitting (page : ℕ)
deriving DecidableEq, Repr

inductive Place where
  | queued
  /-- Before `GetPage` looks at the status. -/
  | getPage (page : ℕ) (bSyncRead : Bool) (use : PageUse)
  /-- Before the assertion of `AddReadPage`, and behind it. -/
  | addRead (page : ℕ) (use : PageUse)
  | setReading (page : ℕ) (use : PageUse)
  /-- Before the end of `SyncReadPage` and `AfterRead`, and behind it. -/
  | syncRead (page : ℕ) (use : PageUse)
  | setValid (page : ℕ) (use : PageUse)
  /-- Behind `GetPage` in the two `SearchPage`, in the two `GetNextPage`, and in `SplitPage`. -/
  | linkKey (parent child : ℕ)
  | linkRecord (parent child : ℕ)
  | linkSibling (leaf parent child : ℕ)
  | header (page changed : ℕ)
  /-- Before the tests of `PrevPageAction`. -/
  | checkPrev (page : ℕ)
  | judging (page : ℕ)
  | judgingParent (page : ℕ)
  /-- Before the first test of `SearchPage`, and in its loop. -/
  | enterSearch (page : ℕ)
  | keySearch (page : ℕ)
  | keyDescend (page : ℕ)
  | recordSearch (page : ℕ)
  | checkChild (parent child : ℕ)
  /-- A page whose read has completed is to be marked as `VALID`. -/
  | validate (page : ℕ)
  /-- Before the tests of an action that has kept a leaf. -/
  | checkLeaf (page : ℕ)
  | useLeaf (page : ℕ)
  | nextPage (leaf : ℕ)
  /-- In `BranchPage::GetNextPage`: before the search for the page behind a branch page, and at a
  page that has been found so, before the use of its first child. -/
  | climb (leaf page : ℕ)
  | firstChild (leaf page : ℕ)
  | splitPage (page : ℕ)
  | finished
deriving DecidableEq, Repr

structure IndexAction where
  kind : ActionKind
  rangePos : ℕ
  place : Place := .queued
  /-- `_idxPage`, the `_page` of a `PrevPageAction` and the `_midPage` of a statement. -/
  idxPage : Option ℕ := none
  /-- The page for which the last execution returned `INTERVAL`. -/
  waits : Option ℕ := none
  /-- That page, if its read had completed when the action was executed again. -/
  due : Option ℕ := none
deriving DecidableEq, Repr

/-- What a step finds that does not depend on statuses. -/
inductive Choice where
  | go
  /-- The child that a search comes to. -/
  | child (page : ℕ)
  /-- A pointer that is set: to the next leaf, to the parent, or to a page a split has to change. -/
  | pointer (page : ℕ)
  /-- A page to be loaded; its parent matters on the way to the next leaf only. -/
  | load (parent page : ℕ)
  /-- The page is the last one of its parent. -/
  | lastOf (parent : ℕ)
  /-- The next key of a statement is searched from a top page. -/
  | nextKey (top : ℕ)
  /-- The leaf is read to its end, or has to be split. -/
  | goOn
deriving DecidableEq, Repr

structure IoRequest where
  page : ℕ
  read : Bool
  /-- The page was `READING` when the request was done, so `AfterRead` is called. -/
  afterRead : Bool
deriving DecidableEq, Repr

structure IndexState where
  pages : ℕ → IndexPage
  actions : List IndexAction := []
  /-- The root page and the top pages of the ranges. -/
  tops : List ℕ := []
  readQueue : List ℕ := []
  writeQueue : List ℕ := []
  /-- Pages behind the assertion of `AddWritePage`. -/
  writers : List ℕ := []
  /-- What the reading and writing thread is about to finish. -/
  io : Option IoRequest := none
  /-- The pages that were queued for reading, each with the status it had. -/
  queuedReads : List (ℕ × PageStatus) := []
  /-- The pages whose records, header or children were read or changed, and whether they were
  loaded. -/
  touched : List (ℕ × Bool) := []
  /-- The pages that were waited for again although they had been loaded in between. -/
  waitedAgain : List ℕ := []

inductive Event where
  | add (kind : ActionKind) (rangePos : ℕ)
  /-- An action that ends at once: its statement has failed, or its record was rolled back. -/
  | drop (action : ℕ)
  /-- `Exec`; the search starts at the top page unless the action has kept a page. -/
  | exec (action top : ℕ)
  | judgeRange (action : ℕ)
  | step (action : ℕ) (choice : Choice)
  /-- The reading thread gets to know that a request is done, and calls `AfterRead` or
  `AfterWrite`. -/
  | ioDone (page : ℕ) (read : Bool)
  | ioFinish
  /-- `AddWritePage`, which asserts the status and then sets it. -/
  | addWrite (page : ℕ)
  | setWriting (page : ℕ)
  /-- A page of `ApplyIndexPages`, which may be the new root page. -/
  | newPage (page : ℕ) (isLeaf root : Bool)

namespace PageUse

/-- Where the caller goes on with the page. -/
def goesOn (page : ℕ) : PageUse → Place
  | caller => .finished
  | prevPage => .checkPrev page
  | judgeRange => .judging page
  | judgeParent => .judgingParent page
  | keyChild parent => .linkKey parent page
  | recordChild parent => .linkRecord parent page
  | sibling leaf parent => .linkSibling leaf parent page
  | splitting source => .header source page

end PageUse

namespace Place

/-- The page that is being loaded between the test of `GetPage` and the change of its status. -/
def loads : Place → Option ℕ
  | addRead page _ | setReading page _ | syncRead page _ => some page
  | _ => none

def running : Place → Bool
  | queued | finished => false
  | _ => true

end Place

namespace IndexState

def status (state : IndexState) (page : ℕ) : PageStatus := (state.pages page).pageStatus

def loaded (state : IndexState) (page : ℕ) : Bool := (state.pages page).loaded

def isLeaf (state : IndexState) (page : ℕ) : Bool := (state.pages page).isLeaf

def setPage (state : IndexState) (page : ℕ) (object : IndexPage) : IndexState :=
  { state with pages := Function.update state.pages page object }

def setStatus (state : IndexState) (page : ℕ) (status : PageStatus) : IndexState :=
  state.setPage page { state.pages page with pageStatus := status }

/-- `AfterRead`: the status and the fields are set from what was read. -/
def afterRead (state : IndexState) (page : ℕ) : IndexState :=
  state.setPage page { state.pages page with pageStatus := .readed, loaded := true }

/-- The records, the header or the children of a page are read or changed. -/
def touch (state : IndexState) (page : ℕ) : IndexState :=
  { state with touched := (page, state.loaded page) :: state.touched }

/-- `SetChildPage` in a record of the parent. -/
def setChildPage (state : IndexState) (parent child : ℕ) : IndexState :=
  (state.setPage parent { state.pages parent with
    children := child :: (state.pages parent).children }).touch parent

def setAction (state : IndexState) (i : ℕ) (action : IndexAction) : IndexState :=
  { state with actions := state.actions.set i action }

def goTo (state : IndexState) (i : ℕ) (action : IndexAction) (place : Place) : IndexState :=
  state.setAction i { action with place := place }

/-- The action keeps the page and goes on. -/
def keep (state : IndexState) (i : ℕ) (action : IndexAction) (page : ℕ) (place : Place) :
    IndexState :=
  state.setAction i { action with place := place, idxPage := some page }

/-- The action returns `INTERVAL` because of the status of a page. -/
def wait (state : IndexState) (i : ℕ) (action : IndexAction) (page : ℕ) : IndexState :=
  { state.setAction i { action with place := .queued, waits := some page } with
    waitedAgain := if action.due = some page then page :: state.waitedAgain else state.waitedAgain }

/-- No action of the range is being executed. -/
def rangeFree (state : IndexState) (rangePos : ℕ) : Bool :=
  state.actions.all fun action => !(action.rangePos = rangePos && action.place.running)

/-- `FilePagePool::AddReadPage`, behind its assertion. -/
def addReadPage (state : IndexState) (page : ℕ) : IndexState :=
  { state.setStatus page .reading with
    readQueue := page :: state.readQueue
    queuedReads := (page, state.status page) :: state.queuedReads }

/-- The steps of `IndexTree::GetPage`. -/
def stepGetPage (state : IndexState) (i : ℕ) (action : IndexAction) : Place → Option IndexState
  | .getPage page bSyncRead use =>
      some (state.goTo i action
        (if state.status page = .empty then
          if bSyncRead then .syncRead page use else .addRead page use
        else use.goesOn page))
  | .addRead page use =>
      if state.status page = .empty then some (state.goTo i action (.setReading page use)) else none
  | .setReading page use => some ((state.addReadPage page).goTo i action (use.goesOn page))
  | .syncRead page use => some ((state.afterRead page).goTo i action (.setValid page use))
  | .setValid page use => some ((state.setStatus page .valid).goTo i action (use.goesOn page))
  | _ => none

/-- The steps of the two `IndexTree::SearchPage`. -/
def stepSearchPage (state : IndexState) (i : ℕ) (action : IndexAction) (choice : Choice) :
    Place → Option IndexState
  | .enterSearch page =>
      some (if state.status page = .valid ∨ state.status page = .writing then
        state.goTo i action (if action.kind = .record then .recordSearch page else .keySearch page)
      else state.wait i action page)
  | .keySearch page =>
      some (match state.status page with
        | .readed => state.goTo i action (.validate page)
        | .valid | .writing => state.goTo i action (.keyDescend page)
        | _ => state.wait i action page)
  | .keyDescend page =>
      if state.isLeaf page then some (state.goTo i action (.useLeaf page))
      else match choice with
        | .child child =>
            some (if child ∈ (state.pages page).children then
              (state.touch page).keep i action child (.keySearch child)
            else (state.touch page).goTo i action (.getPage child false (.keyChild page)))
        | _ => none
  | .linkKey parent child =>
      some ((state.setChildPage parent child).keep i action child (.keySearch child))
  | .recordSearch page =>
      if state.isLeaf page then some (state.goTo i action (.useLeaf page))
      else match choice with
        | .child child =>
            some (if child ∈ (state.pages page).children then
              (state.touch page).keep i action child (.recordSearch child)
            else (state.touch page).goTo i action (.getPage child false (.recordChild page)))
        | _ => none
  | .linkRecord parent child =>
      some ((state.setChildPage parent child).goTo i action (.checkChild parent child))
  -- The variable that the loop goes on with is not the one that was set: behind a child that is
  -- VALID a null pointer is used.
  | .checkChild _ child =>
      if state.status child = .valid then none else some (state.wait i action child)
  | _ => none

/-- The steps of `PrevPageAction`, `Exec` up to the use of the leaf and `JudgeRange`. -/
def stepPrevPage (state : IndexState) (i : ℕ) (action : IndexAction) (choice : Choice) :
    Place → Option IndexState
  | .checkPrev page =>
      some (match state.status page with
        | .reading => state.keep i action page (.validate page)
        | .valid => state.keep i action page (.useLeaf page)
        | _ => state.wait i { action with idxPage := some page } page)
  | .judging page =>
      match choice with
      | .go => some ((state.touch page).keep i action page .queued)
      | .pointer parent => some ((state.touch page).keep i action page (.judgingParent parent))
      | .load _ parent =>
          some ((state.touch page).keep i action page (.getPage parent true .judgeParent))
      | _ => none
  | .judgingParent page => some ((state.touch page).goTo i action .queued)
  | _ => none

/-- The steps of an action that has come to its leaf. -/
def stepLeaf (state : IndexState) (i : ℕ) (action : IndexAction) (choice : Choice) :
    Place → Option IndexState
  | .checkLeaf page =>
      some (match action.kind, state.status page with
        | _, .valid | _, .writing => state.goTo i action (.useLeaf page)
        | .secRecord, .readed => state.goTo i action (.validate page)
        | .secRecord, .reading => state.wait i action page
        | .secRecord, _ => state.goTo i action (.useLeaf page)
        | _, _ => state.wait i action page)
  | .validate page =>
      some ((state.setStatus page .valid).goTo i action (match action.kind with
        | .prevPage _ => .useLeaf page
        | _ => .keyDescend page))
  | .useLeaf page =>
      match action.kind, choice with
      | _, .go => some ((state.touch page).goTo i action .finished)
      | .record, .goOn => some ((state.touch page).goTo i action (.splitPage page))
      | .statement, .goOn => some ((state.touch page).goTo i action (.nextPage page))
      | .statement, .nextKey top =>
          if top ∈ state.tops then
            some (((state.touch page).touch top).keep i action top (.enterSearch top))
          else none
      | _, _ => none
  | .splitPage page =>
      match choice with
      | .go => some (state.goTo i action .finished)
      | .goOn => some (state.goTo i action (.nextPage page))
      | .pointer changed => some (state.goTo i action (.header page changed))
      | .load _ changed => some (state.goTo i action (.getPage changed false (.splitting page)))
      | _ => none
  | .header page changed => some ((state.touch changed).goTo i action (.splitPage page))
  | _ => none

/-- Where the search for the next leaf goes on with a page it has come to. -/
def behind (state : IndexState) (leaf page : ℕ) : Place :=
  if state.isLeaf page then .nextPage leaf else .firstChild leaf page

/-- A child of a page is looked at on the way to the next leaf, and loaded if it has to be: a branch
page at once, a leaf by the reading thread. -/
def lookAt (state : IndexState) (i : ℕ) (action : IndexAction) (leaf parent child : ℕ) :
    IndexState :=
  (state.touch parent).goTo i action
    (if child ∈ (state.pages parent).children then state.behind leaf child
    else .getPage child (!state.isLeaf child) (.sibling leaf parent))

/-- The records of the parent of a page on the way to the next leaf. -/
def lookUp (state : IndexState) (i : ℕ) (action : IndexAction) (leaf page : ℕ) :
    Choice → Option IndexState
  | .load parent child =>
      if page ∈ (state.pages parent).children then some (state.lookAt i action leaf parent child)
      else none
  | .lastOf parent =>
      if page ∈ (state.pages parent).children then
        some ((state.touch parent).goTo i action (.climb leaf parent))
      else none
  | _ => none

/-- The steps of the two `GetNextPage`, called by `SacnIndex` and by `SplitPage`. -/
def stepNextPage (state : IndexState) (i : ℕ) (action : IndexAction) (choice : Choice) :
    Place → Option IndexState
  | .nextPage leaf =>
      match action.kind, choice with
      | .statement, .pointer next => some (state.keep i action next (.useLeaf next))
      | .statement, _ => state.lookUp i action leaf leaf choice
      | _, .pointer next => some (state.goTo i action (.header leaf next))
      | _, .go => some (state.goTo i action (.splitPage leaf))
      | _, _ => state.lookUp i action leaf leaf choice
  | .climb leaf page => state.lookUp i action leaf page choice
  | .firstChild leaf page =>
      match choice with
      | .child child => some (state.lookAt i action leaf page child)
      | _ => none
  | .linkSibling leaf parent page =>
      some ((state.setChildPage parent page).goTo i action (state.behind leaf page))
  | _ => none

/-- The next step of an action that is being executed. -/
def step (state : IndexState) (i : ℕ) (action : IndexAction) (choice : Choice) :
    Option IndexState :=
  match action.place with
  | .queued | .finished => none
  | .getPage .. | .addRead .. | .setReading .. | .syncRead .. | .setValid .. =>
      state.stepGetPage i action action.place
  | .enterSearch _ | .keySearch _ | .keyDescend _ | .linkKey .. | .recordSearch _ |
      .linkRecord .. | .checkChild .. => state.stepSearchPage i action choice action.place
  | .checkPrev _ | .judging _ | .judgingParent _ => state.stepPrevPage i action choice action.place
  | .checkLeaf _ | .validate _ | .useLeaf _ | .splitPage _ | .header .. =>
      state.stepLeaf i action choice action.place
  | .nextPage _ | .climb .. | .firstChild .. | .linkSibling .. =>
      state.stepNextPage i action choice action.place

/-- The action as `Exec` finds it: what it waited for, if that has been loaded. -/
def resumed (state : IndexState) (action : IndexAction) : IndexAction :=
  { action with waits := none, due := action.waits.filter fun page => state.loaded page }

/-- The beginning of `Exec`. -/
def startExec (state : IndexState) (i : ℕ) (action : IndexAction) (top : ℕ) : Option IndexState :=
  match action.kind, action.idxPage with
  | .getPage pageId bSyncRead, _ =>
      some (state.goTo i (state.resumed action) (.getPage pageId bSyncRead .caller))
  | .prevPage pageId, none =>
      some (state.goTo i (state.resumed action) (.getPage pageId true .prevPage))
  | .prevPage _, some page => some (state.goTo i (state.resumed action) (.checkPrev page))
  | kind, none =>
      if top ∈ state.tops then
        some ((state.touch top).keep i (state.resumed action) top
          (if state.isLeaf top ∧ kind ≠ .statement then .checkLeaf top else .enterSearch top))
      else none
  | kind, some page =>
      some (state.goTo i (state.resumed action)
        (if state.isLeaf page then
          if kind = .statement then .useLeaf page else .checkLeaf page
        else .enterSearch page))

/-- The beginning of `JudgeRange` of a `PrevPageAction` in an index of several ranges. -/
def startJudge (state : IndexState) (i : ℕ) (action : IndexAction) : Option IndexState :=
  match action.kind, action.idxPage with
  | .prevPage pageId, none => some (state.goTo i action (.getPage pageId true .judgeRange))
  | .prevPage _, some page => some (state.goTo i action (.judging page))
  | _, _ => none

/-- An action that waits in its queue starts, if the range is free. -/
def start (state : IndexState) (i : ℕ) (begin : IndexAction → Option IndexState) :
    Option IndexState :=
  state.actions[i]?.bind fun action =>
    if action.place = .queued ∧ state.rangeFree action.rangePos then begin action else none

def next (state : IndexState) : Event → Option IndexState
  | .add kind rangePos =>
      some { state with actions := state.actions ++ [{ kind := kind, rangePos := rangePos }] }
  | .drop i => state.start i fun action =>
      match action.kind with
      | .record | .statement | .secRecord => some (state.goTo i action .finished)
      | _ => none
  | .exec i top => state.start i fun action => state.startExec i action top
  | .judgeRange i => state.start i fun action => state.startJudge i action
  | .step i choice => state.actions[i]?.bind fun action => state.step i action choice
  | .ioDone page read =>
      if state.io = none ∧ page ∈ (if read then state.readQueue else state.writeQueue) then
        some { state with
          readQueue := if read then state.readQueue.erase page else state.readQueue
          writeQueue := if read then state.writeQueue else state.writeQueue.erase page
          io := some ⟨page, read, state.status page = .reading⟩ }
      else none
  | .ioFinish =>
      state.io.map fun request =>
        let finished := if request.afterRead then state.afterRead request.page
          else state.setPage request.page { state.pages request.page with
            pageStatus := .valid
            loaded := (state.pages request.page).loaded || request.read }
        { finished with io := none }
  | .addWrite page =>
      if state.status page = .valid ∨ state.status page = .writing then
        some { state with writers := page :: state.writers }
      else none
  | .setWriting page =>
      if page ∈ state.writers then
        some { state.setStatus page .writing with
          writers := state.writers.erase page
          writeQueue := page :: state.writeQueue }
      else none
  | .newPage page isLeaf root =>
      -- Page ids are given out once, so nothing has to do with the page before.
      if state.status page = .empty ∧ state.loaded page = false ∧
          (∀ action ∈ state.actions, action.place.loads ≠ some page) then
        some { state.setPage page { isLeaf := isLeaf, pageStatus := .valid, loaded := true } with
          tops := if root then page :: state.tops else state.tops }
      else none

/-- The index when its ranges have been made: the top pages are in memory. -/
def new (isLeaf : ℕ → Bool) (tops : List ℕ) : IndexState where
  pages page :=
    { isLeaf := isLeaf page
      pageStatus := if page ∈ tops then .valid else .empty
      loaded := page ∈ tops }
  tops := tops

end IndexState

end PageLoad

end RapidDb
