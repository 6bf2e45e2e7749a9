import Mathlib.Tactic.IntervalCases
import RapidDb.Core.TreeInvariant

/-!
# Searching while pages are loaded

The two `SearchPage` go down a tree of which some pages are in the page pool, some of these linked
into their parents. The one for a key tests the status of each page and puts a page that has to be
read into the queue. The one for a record tests no page that is linked, and at one that is not it
sets a variable of an inner block; what it does there is no part of the results.

In a non-unique index a record is searched for by its key and its primary key, and a key by the key
alone.
-/

namespace RapidDb

open SeparatorTree

def IndexPage.isLeaf : IndexPage → Bool
  | leaf _ => true
  | branch _ => false

/-- `VALID` or `WRITING`. -/
def PageStatus.usable : PageStatus → Bool
  | .valid | .writing => true
  | _ => false

/-- A page in the page pool, apart from its bytes. -/
structure PageObject where
  isLeaf : Bool
  pageStatus : PageStatus
  parentPage : Option PageID
deriving DecidableEq, Repr

/-- An index tree with the pages that are in memory. -/
structure PagedTree where
  /-- What is in the pages, once they have been read. -/
  tree : IndexTree
  pool : PageID → Option PageObject
  /-- The record for the page in its parent has the pointer to it. -/
  linked : PageID → Bool
  /-- The requests of `AddReadPage`. -/
  readQueue : List PageID

/-- The value that `SearchPage` returns and the page that it sets. -/
structure SearchEnd where
  found : Bool
  page : PageID
  state : PagedTree

namespace PagedTree

def setObject (state : PagedTree) (pageId : PageID) (object : PageObject) : PagedTree :=
  { state with pool := Function.update state.pool pageId (some object) }

/-- `SetChildPage`. -/
def setChildPage (state : PagedTree) (pageId : PageID) : PagedTree :=
  { state with linked := Function.update state.linked pageId true }

def setParentPage (state : PagedTree) (pageId parentPage : PageID) : PagedTree :=
  { state with
    pool := Function.update state.pool pageId
      ((state.pool pageId).map fun object => { object with parentPage := some parentPage }) }

def usable (state : PagedTree) (pageId : PageID) : Bool :=
  (state.pool pageId).any fun object => object.pageStatus.usable

/-- A branch page whose records are in memory. -/
def branchPage (state : PagedTree) (pageId : PageID) : Option BranchPage :=
  (state.pool pageId).bind fun object =>
    if object.pageStatus = .empty ∨ object.pageStatus = .reading then none
    else state.tree.branchPage? pageId

/-- `IndexTree::GetPage`, which does not wait for the page to be read. -/
def getPage (state : PagedTree) (pageId : PageID) (isLeaf : Bool) (parentPage : Option PageID) :
    Option PagedTree :=
  if pageId < state.tree.totalPageCount then
    let cached := (state.pool pageId).getD ⟨isLeaf, .empty, none⟩
    let page := { cached with parentPage := parentPage.or cached.parentPage }
    if page.pageStatus = .empty then
      some { state.setObject pageId { page with pageStatus := .reading } with
        readQueue := state.readQueue ++ [pageId] }
    else some (state.setObject pageId page)
  else none

/-- A page that has been read becomes valid. -/
def validate (state : PagedTree) (page : PageID) (object : PageObject) : PagedTree :=
  if object.pageStatus = .readed then state.setObject page { object with pageStatus := .valid }
  else state

/-- The child of a record, which is linked if it was not. -/
def openChild (state : PagedTree) (child : PageID) (isLeaf : Bool) (parentPage : PageID) :
    Option PagedTree :=
  if state.linked child then some state
  else (state.getPage child isLeaf (some parentPage)).map fun state => state.setChildPage child

/-- The loop of `SearchPage` for a key; the number bounds its iterations. -/
def keyLoop (key : List Byte) : ℕ → PageID → PagedTree → Option SearchEnd
  | 0, _, _ => none
  | fuel + 1, page, state =>
      (state.pool page).bind fun object =>
        if object.pageStatus = .readed ∨ object.pageStatus.usable then
          if object.isLeaf then some ⟨true, page, state.validate page object⟩
          else
            ((state.validate page object).branchPage page).bind fun bPage =>
              bPage.records[(SearchTarget.key key).position state.tree.indexType
                bPage.records]?.bind fun br =>
                ((state.validate page object).openChild br.childPage (bPage.pageLevel == 1)
                  page).bind (keyLoop key fuel br.childPage)
        else some ⟨false, page, state⟩

/-- The loop of `SearchPage` for a record. -/
def recordLoop (indexKey : List Byte) : ℕ → PageID → PagedTree → Option SearchEnd
  | 0, _, _ => none
  | fuel + 1, page, state => do
      let object ← state.pool page
      if object.isLeaf then some ⟨true, page, state⟩
      else
        let bPage ← state.branchPage page
        let br ← bPage.records[
          (SearchTarget.record indexKey).position state.tree.indexType bPage.records]?
        if state.linked br.childPage then recordLoop indexKey fuel br.childPage state
        else
          let state ← state.getPage br.childPage (bPage.pageLevel == 1) none
          let state := (state.setChildPage br.childPage).setParentPage br.childPage page
          let child ← state.pool br.childPage
          -- The page is in a variable of the block, and the one outside of it is null.
          if child.pageStatus ≠ .valid then some ⟨false, page, state⟩ else none

/-- `SearchPage` for a key. -/
def searchKey (state : PagedTree) (key : List Byte) (fuel : ℕ) (page : PageID) :
    Option SearchEnd :=
  (state.pool page).bind fun object =>
    if object.pageStatus.usable then keyLoop key fuel page state else some ⟨false, page, state⟩

/-- `SearchPage` for a record. -/
def searchRecord (state : PagedTree) (lr : LeafRecord) (fuel : ℕ) (page : PageID) :
    Option SearchEnd :=
  (state.pool page).bind fun object =>
    if object.pageStatus.usable then
      recordLoop (lr.indexKey state.tree.indexType) fuel page state
    else some ⟨false, page, state⟩

/-! ## What the searches rely on -/

/-- The pages in the pool are pages of the tree, and a page that is linked is in the pool. -/
structure Coherent (state : PagedTree) : Prop where
  typed : ∀ page object, state.pool page = some object →
    ∃ content, state.tree.pages page = some content ∧ object.isLeaf = content.isLeaf
  linked : ∀ page, state.linked page = true → ∃ object, state.pool page = some object

/-- The searches change the links, the statuses and the queue, and take back no link. -/
structure Kept (state state' : PagedTree) : Prop where
  tree : state'.tree = state.tree
  linked : ∀ page, state.linked page = true → state'.linked page = true
  coherent : state'.Coherent

/-- The page at which a search ends is one for the key, and it is a leaf that is usable and linked
if the search has found it, and otherwise a page that is not usable. -/
structure Right (tree : IndexTree) (height : ℕ) (layer : ℕ → List PageID) (key : List Byte)
    (level : ℕ) (start : PageID) (ending : SearchEnd) : Prop where
  cached : ∃ object, ending.state.pool ending.page = some object ∧
    object.pageStatus.usable = ending.found
  path : ∃ level' ≤ level,
    Owner tree.shape tree.rootPageId height layer key level' ending.page
  leaf : ending.found = true →
    Owner tree.shape tree.rootPageId height layer key 0 ending.page ∧
      (ending.page = start ∨ ending.state.linked ending.page = true)

/-- The pages for the key below a page are linked and usable. -/
def Ready (state : PagedTree) (height : ℕ) (layer : ℕ → List PageID) (key : List Byte)
    (level : ℕ) : Prop :=
  ∀ level' < level, ∀ page,
    Owner state.tree.shape state.tree.rootPageId height layer key level' page →
      state.linked page = true ∧ state.usable page = true

variable {state state' : PagedTree} {height level fuel : ℕ} {layer : ℕ → List PageID}
  {page : PageID} {key : List Byte} {object : PageObject}

theorem usable_eq_true_iff : state.usable page = true ↔
    ∃ object, state.pool page = some object ∧ object.pageStatus.usable = true := by
  cases found : state.pool page <;> simp [usable, found]

theorem Coherent.kept (coherent : state.Coherent) : state.Kept state := ⟨rfl, fun _ => id, coherent⟩

theorem Coherent.setObject (coherent : state.Coherent) {content : IndexPage}
    (isPage : state.tree.pages page = some content) (isType : object.isLeaf = content.isLeaf) :
    (state.setObject page object).Coherent := by
  refine ⟨?_, ?_⟩
  · intro other object' cached
    by_cases here : other = page
    · subst here
      simp only [PagedTree.setObject, Function.update_self, Option.some.injEq] at cached
      subst cached
      exact ⟨content, isPage, isType⟩
    · simp only [PagedTree.setObject, Function.update_of_ne here] at cached
      exact coherent.typed other object' cached
  · intro other linked
    by_cases here : other = page
    · exact ⟨object, by simp [PagedTree.setObject, here]⟩
    · simpa [PagedTree.setObject, here] using coherent.linked other linked

theorem Coherent.getPage (coherent : state.Coherent) {content : IndexPage} {isLeaf : Bool}
    (isPage : state.tree.pages page = some content) (isType : isLeaf = content.isLeaf)
    (allocated : page < state.tree.totalPageCount) (parentPage : Option PageID) :
    ∃ state' object, state.getPage page isLeaf parentPage = some state' ∧ state.Kept state' ∧
      state'.pool page = some object := by
  let cached := (state.pool page).getD ⟨isLeaf, .empty, none⟩
  have cachedType : cached.isLeaf = content.isLeaf := by
    cases found : state.pool page with
    | none => simpa [cached, found] using isType
    | some object =>
        rcases coherent.typed page object found with ⟨content', isPage', isType'⟩
        rw [isPage] at isPage'
        cases isPage'
        simpa [cached, found] using isType'
  simp only [PagedTree.getPage, if_pos allocated]
  split
  · refine ⟨_, _, rfl, ⟨rfl, fun _ => id, ?_⟩, Function.update_self ..⟩
    have kept := @Coherent.setObject _ _
      { cached with parentPage := parentPage.or cached.parentPage, pageStatus := .reading }
      coherent content isPage cachedType
    exact { kept with }
  · exact ⟨_, _, rfl, ⟨rfl, fun _ => id, coherent.setObject isPage cachedType⟩,
      Function.update_self ..⟩

theorem Coherent.setChildPage (coherent : state.Coherent) (cached : state.pool page = some object) :
    (state.setChildPage page).Coherent := by
  refine ⟨coherent.typed, ?_⟩
  intro other linked
  by_cases here : other = page
  · exact ⟨object, here ▸ cached⟩
  · simp only [PagedTree.setChildPage, Function.update_of_ne here] at linked
    exact coherent.linked other linked

theorem branchPage_eq (cached : state.pool page = some object)
    (loaded : object.pageStatus = .readed ∨ object.pageStatus.usable = true) :
    state.branchPage page = state.tree.branchPage? page := by
  have notWaiting : ¬(object.pageStatus = .empty ∨ object.pageStatus = .reading) := by
    rcases loaded with isReaded | isUsable
    · simp [isReaded]
    · cases status : object.pageStatus <;> simp_all [PageStatus.usable]
  simp only [branchPage, cached, Option.bind_some, if_neg notWaiting]

theorem Coherent.openChild (coherent : state.Coherent) {child : PageID} {content : IndexPage}
    {isLeaf : Bool} (isPage : state.tree.pages child = some content)
    (isType : isLeaf = content.isLeaf) (allocated : child < state.tree.totalPageCount)
    (parentPage : PageID) :
    ∃ state' object, state.openChild child isLeaf parentPage = some state' ∧ state.Kept state' ∧
      state'.pool child = some object ∧ state'.linked child = true := by
  cases isLinked : state.linked child with
  | true =>
      rcases coherent.linked child isLinked with ⟨object, cached⟩
      exact ⟨state, object, by simp [PagedTree.openChild, isLinked], coherent.kept, cached,
        isLinked⟩
  | false =>
      rcases coherent.getPage isPage isType allocated (some parentPage) with
        ⟨state', object, got, kept, cached⟩
      refine ⟨state'.setChildPage child, object, by simp [PagedTree.openChild, isLinked, got],
        ⟨kept.tree, ?_, ?_⟩, cached, Function.update_self ..⟩
      · intro other linked
        by_cases here : other = child
        · simp [PagedTree.setChildPage, here]
        · simpa [PagedTree.setChildPage, here] using kept.linked other linked
      · exact kept.coherent.setChildPage cached

theorem Coherent.validate (coherent : state.Coherent) (cached : state.pool page = some object)
    (loaded : object.pageStatus = .readed ∨ object.pageStatus.usable = true) :
    ∃ object', (state.validate page object).pool page = some object' ∧
      object'.pageStatus.usable = true ∧ state.Kept (state.validate page object) := by
  by_cases isReaded : object.pageStatus = .readed
  · rcases coherent.typed page object cached with ⟨content, isPage, isType⟩
    rw [PagedTree.validate, if_pos isReaded]
    refine ⟨{ object with pageStatus := .valid }, Function.update_self .., rfl, rfl, fun _ => id,
      ?_⟩
    exact coherent.setObject isPage isType
  · rw [PagedTree.validate, if_neg isReaded]
    exact ⟨object, cached, loaded.resolve_left isReaded, coherent.kept⟩

theorem Kept.trans {state'' : PagedTree} (first : state.Kept state')
    (second : state'.Kept state'') : state.Kept state'' :=
  ⟨second.tree.trans first.tree, fun page linked => second.linked page (first.linked page linked),
    second.coherent⟩

theorem Coherent.isLeaf (coherent : state.Coherent) (cached : state.pool page = some object)
    {content : IndexPage} (isPage : state.tree.pages page = some content) :
    object.isLeaf = content.isLeaf := by
  rcases coherent.typed page object cached with ⟨content', isPage', isType⟩
  rw [isPage, Option.some.injEq] at isPage'
  exact isPage' ▸ isType

theorem content_of_owner {tree : IndexTree} (search : tree.Searchable height layer)
    (owner : Owner tree.shape tree.rootPageId height layer key level page) :
    ∃ content, tree.pages page = some content ∧ content.isLeaf = (level == 0) ∧
      page < tree.totalPageCount := by
  rcases owner_mem search.layered owner with ⟨levelLe, mem⟩
  rcases search.ofLevel level levelLe page mem with ⟨content, pageEq, ofLevel⟩
  refine ⟨content, pageEq, ?_, search.allocated page content pageEq⟩
  cases content with
  | leaf content => simpa [IndexPage.isLeaf, IndexPage.OfLevel] using ofLevel
  | branch content => simp [IndexPage.isLeaf, ofLevel.1]

theorem right_of_not_usable {tree : IndexTree} (cached : state.pool page = some object)
    (notUsable : object.pageStatus.usable = false)
    (owner : Owner tree.shape tree.rootPageId height layer key level page) :
    Right tree height layer key level page ⟨false, page, state⟩ :=
  ⟨⟨object, cached, notUsable⟩, ⟨level, le_rfl, owner⟩, fun found => by cases found⟩

theorem Right.up {tree : IndexTree} {child : PageID} {ending : SearchEnd}
    (right : Right tree height layer key level child ending)
    (linked : ending.state.linked child = true) :
    Right tree height layer key (level + 1) page ending := by
  refine ⟨right.cached, ?_, ?_⟩
  · rcases right.path with ⟨level', levelLe, owner⟩
    exact ⟨level', Nat.le_succ_of_le levelLe, owner⟩
  · intro found
    rcases right.leaf found with ⟨owner, isChild | isLinked⟩
    · exact ⟨owner, Or.inr (isChild ▸ linked)⟩
    · exact ⟨owner, Or.inr isLinked⟩

theorem keyLoop_spec {tree : IndexTree} (search : tree.Searchable height layer)
    (regular : ∀ pageId, ∀ br ∈ tree.branchRecords pageId,
      (SearchTarget.key key).Regular tree.indexType br)
    (coherent : state.Coherent) (same : state.tree = tree)
    (cached : state.pool page = some object) (enough : level < fuel)
    (owner : Owner tree.shape tree.rootPageId height layer key level page) :
    ∃ ending, keyLoop key fuel page state = some ending ∧ state.Kept ending.state ∧
      Right tree height layer key level page ending := by
  induction level generalizing fuel page state object with
  | zero =>
      cases fuel with
      | zero => omega
      | succ fuel =>
          rcases content_of_owner search owner with ⟨content, pageEq, isLeaf, -⟩
          have isType := (coherent.isLeaf cached (same ▸ pageEq)).trans isLeaf
          by_cases loaded : object.pageStatus = .readed ∨ object.pageStatus.usable = true
          · rcases coherent.validate cached loaded with ⟨object', cached', usable, kept⟩
            refine ⟨⟨true, page, state.validate page object⟩, ?_, kept,
              ⟨object', cached', usable⟩, ⟨0, le_rfl, owner⟩, fun _ => ⟨owner, Or.inl rfl⟩⟩
            simp [keyLoop, cached, loaded, isType]
          · refine ⟨⟨false, page, state⟩, ?_, coherent.kept, right_of_not_usable cached ?_ owner⟩
            · simp only [keyLoop, cached, Option.bind_some, if_neg loaded]
            · simpa using (not_or.mp loaded).2
  | succ level ih =>
      cases fuel with
      | zero => omega
      | succ fuel =>
          rcases content_of_owner search owner with ⟨content, pageEq, isLeaf, -⟩
          have isType := (coherent.isLeaf cached (same ▸ pageEq)).trans isLeaf
          by_cases loaded : object.pageStatus = .readed ∨ object.pageStatus.usable = true
          · rcases coherent.validate cached loaded with ⟨object', cached', usable, kept⟩
            rcases @IndexTree.Searchable.child_spec _ _ _ _ _ search (.key key) (regular page) owner
              with ⟨bPage, br, pageEq, pageLevel, brEq, child⟩
            rcases content_of_owner search child with ⟨content', childEq, isLeaf', allocated⟩
            have same' := kept.tree.trans same
            have records : (state.validate page object).branchPage page = some bPage := by
              rw [branchPage_eq cached' (Or.inr usable), same']
              simp [IndexTree.branchPage?, pageEq]
            have isType' : (bPage.pageLevel == 1) = content'.isLeaf := by simp [pageLevel, isLeaf']
            rcases kept.coherent.openChild (same'.symm ▸ childEq) isType' (same'.symm ▸ allocated)
              page with ⟨state', object'', opened, kept', cached'', linked⟩
            rcases ih kept'.coherent (kept'.tree.trans same') cached''
              (Nat.lt_of_succ_lt_succ enough) child with ⟨ending, searched, kept'', right⟩
            refine ⟨ending, ?_, (kept.trans kept').trans kept'', right.up (kept''.linked _ linked)⟩
            rw [← same] at brEq
            simp only [keyLoop, cached, Option.bind_some, if_pos loaded, isType, records, brEq,
              opened, searched]
            simp
          · refine ⟨⟨false, page, state⟩, ?_, coherent.kept, right_of_not_usable cached ?_ owner⟩
            · simp only [keyLoop, cached, Option.bind_some, if_neg loaded]
            · simpa using (not_or.mp loaded).2

/-- The loop of the function for the target. -/
def loop : SearchTarget → ℕ → PageID → PagedTree → Option SearchEnd
  | .record indexKey => recordLoop indexKey
  | .key key => keyLoop key

theorem validate_of_usable (usable : object.pageStatus.usable = true) :
    state.validate page object = state := by
  have notReaded : object.pageStatus ≠ .readed := by
    intro isReaded
    simp [isReaded, PageStatus.usable] at usable
  rw [validate, if_neg notReaded]

/-- Both searches end at the leaf where the pages are linked and usable. -/
theorem loop_of_ready {tree : IndexTree} {target : SearchTarget}
    (search : tree.Searchable height layer)
    (regular : ∀ pageId, ∀ br ∈ tree.branchRecords pageId, target.Regular tree.indexType br)
    (coherent : state.Coherent) (same : state.tree = tree) (isUsable : state.usable page = true)
    (ready : state.Ready height layer target.bytes level) (enough : level < fuel)
    (owner : Owner tree.shape tree.rootPageId height layer target.bytes level page) :
    ∃ leaf, loop target fuel page state = some ⟨true, leaf, state⟩ ∧
      Right tree height layer target.bytes level page ⟨true, leaf, state⟩ := by
  subst same
  induction level generalizing fuel page with
  | zero =>
      cases fuel with
      | zero => omega
      | succ fuel =>
          rcases usable_eq_true_iff.mp isUsable with ⟨object, cached, usable⟩
          rcases content_of_owner search owner with ⟨content, pageEq, isLeaf, -⟩
          have isType := (coherent.isLeaf cached pageEq).trans isLeaf
          refine ⟨page, ?_, ⟨object, cached, usable⟩, ⟨0, le_rfl, owner⟩,
            fun _ => ⟨owner, Or.inl rfl⟩⟩
          cases target with
          | record indexKey => simp [loop, recordLoop, cached, isType]
          | key key => simp [loop, keyLoop, cached, isType, usable, validate_of_usable usable]
  | succ level ih =>
      cases fuel with
      | zero => omega
      | succ fuel =>
          rcases usable_eq_true_iff.mp isUsable with ⟨object, cached, usable⟩
          rcases content_of_owner search owner with ⟨content, pageEq, isLeaf, -⟩
          have isType := (coherent.isLeaf cached pageEq).trans isLeaf
          rcases search.child_spec (regular page) owner with
            ⟨bPage, br, pageEq, pageLevel, brEq, child⟩
          rcases ready level (Nat.lt_succ_self level) br.childPage child with ⟨linked, childUsable⟩
          have ready' : state.Ready height layer target.bytes level := fun level' less =>
            ready level' (Nat.lt_succ_of_lt less)
          rcases ih childUsable ready' (Nat.lt_of_succ_lt_succ enough) child with
            ⟨leaf, searched, right⟩
          refine ⟨leaf, ?_, right.up linked⟩
          have records : state.branchPage page = some bPage := by
            rw [branchPage_eq cached (Or.inr usable)]
            simp [IndexTree.branchPage?, pageEq]
          cases target with
          | record indexKey =>
              simp only [loop] at searched
              simp [loop, recordLoop, cached, isType, records, brEq, linked, searched]
          | key key =>
              simp only [loop] at searched
              simp [loop, keyLoop, cached, isType, usable, validate_of_usable usable, records, brEq,
                openChild, linked, searched]

/-- In any tree, with any of its pages in memory, a search for a key from a page for it ends, at the
leaf for the key or at a page above it that cannot be used yet. So does a search for a record if the
pages below the first one are linked and usable or that page is not, and in an index that is not
non-unique it ends where the search for the key of the record does. -/
theorem searchPage_right (search : state.tree.Searchable height layer) (coherent : state.Coherent)
    (cached : state.pool page = some object) (enough : level < fuel) (lr : LeafRecord) :
    (∀ key, Owner state.tree.shape state.tree.rootPageId height layer key level page →
      (∀ pageId, ∀ br ∈ state.tree.branchRecords pageId,
        (SearchTarget.key key).Regular state.tree.indexType br) →
      ∃ ending, state.searchKey key fuel page = some ending ∧
        Right state.tree height layer key level page ending) ∧
    (Owner state.tree.shape state.tree.rootPageId height layer (lr.indexKey state.tree.indexType)
        level page →
      (state.usable page = true →
        state.Ready height layer (lr.indexKey state.tree.indexType) level) →
      ∃ ending, state.searchRecord lr fuel page = some ending ∧
        Right state.tree height layer (lr.indexKey state.tree.indexType) level page ending ∧
        (state.tree.indexType ≠ .nonUnique →
          ∃ ending', state.searchKey lr.getKey fuel page = some ending' ∧
            ending'.found = ending.found ∧ ending'.page = ending.page)) := by
  cases usable : object.pageStatus.usable with
  | false =>
      constructor
      · intro key owner _
        exact ⟨_, by simp [searchKey, cached, usable], right_of_not_usable cached usable owner⟩
      · intro owner _
        refine ⟨⟨false, page, state⟩, by simp [searchRecord, cached, usable],
          right_of_not_usable cached usable owner, fun _ => ⟨⟨false, page, state⟩, ?_, rfl, rfl⟩⟩
        simp [searchKey, cached, usable]
  | true =>
      constructor
      · intro key owner regular
        rcases keyLoop_spec search regular coherent rfl cached enough owner with
          ⟨ending, searched, -, right⟩
        exact ⟨ending, by simp [searchKey, cached, usable, searched], right⟩
      · intro owner ready
        have isUsable := usable_eq_true_iff.mpr ⟨object, cached, usable⟩
        rcases @loop_of_ready _ _ _ _ _ _ _ (.record (lr.indexKey state.tree.indexType)) search
          (fun _ _ _ => trivial) coherent rfl isUsable (ready isUsable) enough owner with
          ⟨leaf, searched, right⟩
        simp only [loop] at searched
        refine ⟨⟨true, leaf, state⟩, by simp [searchRecord, cached, usable, searched], right, ?_⟩
        intro unique
        have sameKey : lr.indexKey state.tree.indexType = lr.getKey := by
          simp [LeafRecord.indexKey, indexBytes, unique, LeafRecord.getKey, LeafRecord.getKeyLength]
        rw [sameKey] at owner ready right
        rcases @loop_of_ready _ _ _ _ _ _ _ (.key lr.getKey) search
          (fun _ _ _ isNonUnique => absurd isNonUnique unique) coherent rfl isUsable
          (ready isUsable) enough owner with ⟨leaf', searched', right'⟩
        simp only [loop] at searched'
        refine ⟨⟨true, leaf', state⟩, by simp [searchKey, cached, usable, searched'], rfl, ?_⟩
        exact owner_eq (right'.leaf rfl).1 (right.leaf rfl).1

/-! ## Two leaves with one key -/

/-- A record of a non-unique index with the key 1. -/
def sampleRecord (primaryKey : Byte) : LeafRecord :=
  .unlocked
    { addr := 0
      bysVal := [14, 0, 1, 0, 1, primaryKey, 0, 0, 0, 0, 0, 0, 0, 0]
      bSole := false
      indexType := .nonUnique }

def sampleLeaf (records : List LeafRecord) (nextPageId : Option PageID) : LeafPage where
  records := records
  parentPageId := some 2
  nextPageId := nextPageId
  endPage := nextPageId.isNone
  committedDataLength := Segments.total LeafRecord.pageLength records
  tempDataLength := Segments.total LeafRecord.pageLength records

def sampleRoot : BranchPage where
  pageLevel := 1
  records := [.ofLeaf (sampleRecord 2) 0, .ofLeaf (sampleRecord 4) 1]
  parentPageId := none
  endPage := true
  committedDataLength := Segments.total BranchPage.recordLength
    [.ofLeaf (sampleRecord 2) 0, .ofLeaf (sampleRecord 4) 1]

def sampleTree : IndexTree where
  indexType := .nonUnique
  pages pageId := [.leaf (sampleLeaf [sampleRecord 1, sampleRecord 2] (some 1)),
    .leaf (sampleLeaf [sampleRecord 3, sampleRecord 4] none), .branch sampleRoot][pageId]?
  rootPageId := 2
  totalPageCount := 3

def sampleLayer (level : ℕ) : List PageID :=
  if level = 0 then [0, 1] else if level = 1 then [2] else []

theorem insertable_sampleRecord (primaryKey : Byte) :
    (sampleRecord primaryKey).Insertable .nonUnique := by
  have keyLength : (sampleRecord primaryKey).getKeyLength = 1 := rfl
  have valueLength : (sampleRecord primaryKey).getValueLength = 1 := by
    revert primaryKey
    decide +kernel
  have length : (sampleRecord primaryKey).body.bysVal.length = 14 := rfl
  refine ⟨rfl, rfl, rfl, rfl, rfl, ?_, ?_, ?_, ?_⟩ <;>
    simp [keyLength, valueLength, length, maxDataLengthLeaf, maxDataLengthBranch, indexPageSize]

theorem plain_sampleLeaf {records : List LeafRecord} {nextPageId : Option PageID}
    (insertable : ∀ lr ∈ records, lr.Insertable .nonUnique) :
    (sampleLeaf records nextPageId).Plain .nonUnique :=
  ⟨insertable, rfl, rfl⟩

theorem layered_sampleTree :
    Layered sampleTree.shape sampleTree.rootPageId 1 sampleLayer := by
  refine ⟨rfl, ?_, ?_, ?_, ?_, ?_, ?_⟩
  · intro level levelLe
    interval_cases level <;> decide
  · intro level levelLe other otherLe
    interval_cases level <;> interval_cases other <;> decide
  · intro level levelLt
    interval_cases level
    rfl
  · intro level levelLe
    interval_cases level <;> decide
  · intro level levelLe
    interval_cases level <;> decide
  · intro level levelLt
    interval_cases level
    unfold Covers
    decide

theorem pages_sampleTree {pageId : PageID} {content : IndexPage}
    (pageEq : sampleTree.pages pageId = some content) :
    pageId < 3 ∧ pageId ∈ sampleLayer (if pageId = 2 then 1 else 0) := by
  rcases List.getElem?_eq_some_iff.mp pageEq with ⟨less, -⟩
  simp only [List.length_cons, List.length_nil] at less
  interval_cases pageId <;> decide

theorem invariant_sampleTree : sampleTree.Invariant 1 sampleLayer := by
  have valid : ∀ (primaryKey : Byte) (child : PageID),
      (BranchRecord.ofLeaf (sampleRecord primaryKey) child).Valid := fun primaryKey child =>
    ((insertable_sampleRecord primaryKey).ofLeaf_spec child).1
  refine ⟨layered_sampleTree, ?_, ?_, ?_, ?_, rfl, ?_, ?_, ?_⟩
  · intro level levelLe pageId mem
    interval_cases level
    · rcases List.mem_pair.mp mem with rfl | rfl
      · exact ⟨_, rfl, rfl, plain_sampleLeaf (by simp [insertable_sampleRecord])⟩
      · exact ⟨_, rfl, rfl, plain_sampleLeaf (by simp [insertable_sampleRecord])⟩
    · rcases List.mem_singleton.mp mem with rfl
      exact ⟨_, rfl, Nat.one_ne_zero, rfl, by simp [sampleRoot, valid], rfl⟩
  · intro pageId content pageEq
    refine ⟨if pageId = 2 then 1 else 0, by split <;> simp, (pages_sampleTree pageEq).2⟩
  · intro pageId content pageEq
    exact (pages_sampleTree pageEq).1
  · decide
  · intro parentId br mem
    rcases parentId with _ | _ | _ | parentId
    · cases mem
    · cases mem
    · rcases List.mem_pair.mp mem with rfl | rfl <;> rfl
    · cases mem
  · intro level levelLe before pageId behind layerEq
    interval_cases level
    · rcases before with _ | ⟨first, _ | ⟨second, before⟩⟩
      · cases layerEq
        rfl
      · cases layerEq
        rfl
      · simp [sampleLayer] at layerEq
    · rcases before with _ | ⟨first, before⟩
      · cases layerEq
        rfl
      · simp [sampleLayer] at layerEq
  · intro before pageId behind layerEq
    rcases before with _ | ⟨first, _ | ⟨second, before⟩⟩
    · cases layerEq
      rfl
    · cases layerEq
      rfl
    · simp [sampleLayer] at layerEq

/-- The root and the first leaf are valid, and the second leaf has a status and is linked or not. -/
def sampleState (pageStatus : PageStatus) (linked : Bool) : PagedTree where
  tree := sampleTree
  pool pageId := [some ⟨true, .valid, some 2⟩, some ⟨true, pageStatus, none⟩,
    some ⟨false, .valid, none⟩][pageId]?.join
  linked pageId := pageId == 0 || (linked && pageId == 1)
  readQueue := []

theorem coherent_sampleState (pageStatus : PageStatus) (linked : Bool) :
    (sampleState pageStatus linked).Coherent := by
  refine ⟨?_, ?_⟩
  · intro page object cached
    rcases page with _ | _ | _ | page
    · cases cached
      exact ⟨_, rfl, rfl⟩
    · cases cached
      exact ⟨_, rfl, rfl⟩
    · cases cached
      exact ⟨_, rfl, rfl⟩
    · cases cached
  · intro page isLinked
    simp only [sampleState, Bool.or_eq_true, Bool.and_eq_true, beq_iff_eq] at isLinked
    rcases isLinked with rfl | ⟨-, rfl⟩
    · exact ⟨_, rfl⟩
    · exact ⟨_, rfl⟩

/-- The search for a key comes to the leaf that is being read, and the one for a record to the other
leaf. -/
theorem searchPage_right_reading :
    (∃ ending, (sampleState .reading false).searchKey [2] 2 2 = some ending ∧
      Right sampleTree 1 sampleLayer [2] 1 2 ending) ∧
    ∃ ending, (sampleState .reading false).searchRecord (sampleRecord 1) 2 2 = some ending ∧
      Right sampleTree 1 sampleLayer ((sampleRecord 1).indexKey .nonUnique) 1 2 ending ∧
      (IndexType.nonUnique ≠ .nonUnique →
        ∃ ending', (sampleState .reading false).searchKey (sampleRecord 1).getKey 2 2 =
          some ending' ∧ ending'.found = ending.found ∧ ending'.page = ending.page) := by
  have spec := @searchPage_right (sampleState .reading false) 1 1 2 sampleLayer 2
    ⟨false, .valid, none⟩ invariant_sampleTree.searchable (coherent_sampleState _ _) rfl
    (by decide) (sampleRecord 1)
  constructor
  · refine spec.1 [2] (owner_root ..) ?_
    intro pageId br mem _ isPrefix
    rcases pageId with _ | _ | _ | pageId
    · cases mem
    · cases mem
    · rcases List.mem_pair.mp mem with rfl | rfl <;> revert isPrefix <;> decide
    · cases mem
  · refine spec.2 (owner_root ..) ?_
    intro _ level less page owner
    have isZero : level = 0 := by omega
    subst isZero
    have first : Owner sampleTree.shape sampleTree.rootPageId 1 sampleLayer
        ((sampleRecord 1).indexKey .nonUnique) 0 0 :=
      ⟨[], [1, 2], [([1, 4], 1)], rfl, by simp, fun _ => by decide⟩
    rcases owner_eq first owner with rfl
    exact ⟨rfl, rfl⟩

/-- In a non-unique index the search for the key of a record can end in front of the record. -/
theorem not_searchPage_same :
    ¬∀ (state : PagedTree) (height level fuel : ℕ) (layer : ℕ → List PageID) (page : PageID)
      (object : PageObject) (lr : LeafRecord), state.tree.Invariant height layer →
      state.Coherent → state.pool page = some object → level < fuel →
      Owner state.tree.shape state.tree.rootPageId height layer (lr.indexKey state.tree.indexType)
        level page →
      (state.searchRecord lr fuel page).map SearchEnd.page =
        (state.searchKey lr.getKey fuel page).map SearchEnd.page := by
  intro same
  have pages := same (sampleState .valid true) 1 1 2 sampleLayer 2 ⟨false, .valid, none⟩
    (sampleRecord 3) invariant_sampleTree (coherent_sampleState _ _) rfl (by decide)
    (owner_root ..)
  revert pages
  decide +kernel

end PagedTree

end RapidDb
