import RapidDb.Core.TreeInvariant
import RapidDb.Library.Neighbours

/-!
# Pages in memory and the way to the next leaf

Only some pages of a tree are in memory. A branch record has the identifier of its child and,
once the child has been fetched through it, a pointer to the page; pages point to their parent
and a leaf to its right neighbour when the neighbour has been found. Pages are named here by
their identifiers, and a pointer by the identifier of the page it points to.

`LeafPage::GetNextPage` and `BranchPage::FillNextPage` call each other, and
`BranchPage::GetNextPage` climbs, so the functions take fuel. `none` is a call that is not over
when the fuel is spent, a null pointer that is used, or `abort`. The assertions are in the code
only in a debug build; `asserts` says whether they are.
-/

namespace RapidDb

namespace SiblingLinks

structure CachedLeaf where
  parentPage : Option PageID
  /-- `PAGE_NULL_POINTER` until the bytes of the page are there. -/
  nextPageId : Option PageID
  nextPage : Option PageID
  rangeEndPage : Bool
  /-- The bytes have been read. -/
  valid : Bool

structure ChildRef where
  childPageId : PageID
  childPage : Option PageID

structure CachedBranch where
  parentPage : Option PageID
  endPage : Bool
  records : List ChildRef

inductive PageType where
  | leafPage
  | branchPage
deriving DecidableEq, Repr

structure PageCache where
  leafPages : PageID → Option CachedLeaf
  branchPages : PageID → Option CachedBranch

/-- A leaf page whose bytes have not been read. -/
def CachedLeaf.new : CachedLeaf := ⟨none, none, none, false, false⟩

/-- A branch page as it comes from the file. -/
def CachedBranch.read (tree : IndexTree) (pageId : PageID) : CachedBranch where
  parentPage := none
  endPage := ((tree.pages pageId).map IndexPage.endPage).getD false
  records := (tree.branchRecords pageId).map fun br => ⟨br.childPage, none⟩

namespace PageCache

def setLeaf (cache : PageCache) (pageId : PageID) (leaf : CachedLeaf) : PageCache :=
  { cache with leafPages := Function.update cache.leafPages pageId (some leaf) }

def setBranch (cache : PageCache) (pageId : PageID) (branch : CachedBranch) : PageCache :=
  { cache with branchPages := Function.update cache.branchPages pageId (some branch) }

def Has (cache : PageCache) (pageId : PageID) : PageType → Prop
  | .leafPage => ∃ leaf, cache.leafPages pageId = some leaf
  | .branchPage => ∃ branch, cache.branchPages pageId = some branch

/-- `IndexTree::GetPage` with a parent page. A branch page is read before the call returns, a
leaf page is only queued for reading. -/
def getPage (tree : IndexTree) (cache : PageCache) (pageId : PageID) (type : PageType)
    (parentPage : PageID) : PageCache :=
  match type with
  | .leafPage =>
      cache.setLeaf pageId
        { (cache.leafPages pageId).getD .new with parentPage := some parentPage }
  | .branchPage =>
      cache.setBranch pageId
        { (cache.branchPages pageId).getD (.read tree pageId) with parentPage := some parentPage }

/-- `BranchRecord::SetChildPage` of the record at a position of a branch page. -/
def setChild (cache : PageCache) (page : PageID) (pos : ℕ) (child : Option PageID) : PageCache :=
  match cache.branchPages page with
  | none => cache
  | some branch =>
      cache.setBranch page { branch with
        records := branch.records.modify pos fun record => { record with childPage := child } }

/-- The child page of a record, fetched and attached when the record has no pointer to it. -/
def childAt (tree : IndexTree) (cache : PageCache) (page : PageID) (pos : ℕ) (record : ChildRef)
    (type : PageType) : PageID × PageCache :=
  match record.childPage with
  | some child => (child, cache)
  | none =>
      (record.childPageId,
        (cache.getPage tree record.childPageId type page).setChild page pos
          (some record.childPageId))

/-- `LeafPage::SetNextPage`. -/
def setNextPage (cache : PageCache) (page : PageID) (next : Option PageID) : PageCache :=
  match cache.leafPages page with
  | none => cache
  | some leaf => cache.setLeaf page { leaf with nextPage := next }

/-- The bytes of a queued leaf page have arrived, and `InitParameters` has run. -/
def afterRead (tree : IndexTree) (cache : PageCache) (page : PageID) : PageCache :=
  match cache.leafPages page with
  | none => cache
  | some leaf =>
      cache.setLeaf page { leaf with
        nextPageId := ((tree.pages page).map IndexPage.nextPageId).getD none
        valid := true }

end PageCache

open PageCache

/-- The position of the record that points to a page, looked for backwards. -/
def scanBack (records : List ChildRef) (currPage : PageID) : ℕ → Option ℕ
  | 0 => none
  | pos + 1 =>
      if (records[pos]?).bind ChildRef.childPage = some currPage then some pos
      else scanBack records currPage pos

/-- `BranchPage::GetNextPage`. -/
def branchNextPage (asserts : Bool) (tree : IndexTree) :
    ℕ → PageCache → PageID → PageID → PageType → Option (PageID × PageCache)
  | 0, _, _, _, _ => none
  | fuel + 1, cache, page, currPage, type => do
      let branch ← cache.branchPages page
      if asserts && branch.endPage then none
      else
        let last ← branch.records.getLast?
        if last.childPage = some currPage then
          let parentPage ← branch.parentPage
          let (bp, cache) ← branchNextPage asserts tree fuel cache parentPage page .branchPage
          let right ← cache.branchPages bp
          let record ← right.records.head?
          some (cache.childAt tree bp 0 record type)
        else
          -- no record points to the page: `abort`
          let pos ← scanBack branch.records currPage (branch.records.length - 1)
          let record ← branch.records[pos + 1]?
          some (cache.childAt tree page (pos + 1) record type)

/-- The loop of `FillNextPage` over the records left of a position, from right to left. -/
def fillLoop (asserts : Bool) (tree : IndexTree)
    (leafNextPage : PageCache → PageID → Option (Option PageID × PageCache))
    (page currPage : PageID) (bAll : Bool) : ℕ → Option PageID → PageCache → Option PageCache
  | 0, _, cache => some cache
  | pos + 1, lpNext, cache => do
      let branch ← cache.branchPages page
      let record ← branch.records[pos]?
      let (lpCurr, cache) := cache.childAt tree page pos record .leafPage
      let (found, cache) ← leafNextPage cache lpCurr
      let cache := if found = none then cache.setNextPage lpCurr lpNext else cache
      let cache ←
        if asserts then
          (leafNextPage cache lpCurr).bind fun (again, cache) =>
            if again = lpNext then some cache else none
        else some cache
      if !bAll && lpCurr == currPage then some cache
      else fillLoop asserts tree leafNextPage page currPage bAll pos (some lpCurr) cache

/-- `BranchPage::FillNextPage`. -/
def fillNextPage (asserts : Bool) (tree : IndexTree)
    (leafNextPage : PageCache → PageID → Option (Option PageID × PageCache)) (fuel : ℕ)
    (cache : PageCache) (page currPage : PageID) (bAll : Bool) : Option PageCache := do
  let branch ← cache.branchPages page
  let last ← branch.records.getLast?
  if last.childPage = some currPage then
    let (lpNext, cache) ← branchNextPage asserts tree fuel cache page currPage .leafPage
    some (cache.setNextPage currPage (some lpNext))
  else
    let cache :=
      match last.childPage with
      | some _ => cache
      | none =>
          -- `lpNext == GetPage(..)` compares, so `lpNext` stays null
          (cache.getPage tree last.childPageId .leafPage page).setChild page
            (branch.records.length - 1) none
    fillLoop asserts tree leafNextPage page currPage bAll (branch.records.length - 1)
      last.childPage cache

/-- `LeafPage::GetNextPage`. -/
def getNextPage (asserts : Bool) (tree : IndexTree) :
    ℕ → PageCache → PageID → Bool → Option (Option PageID × PageCache)
  | 0, _, _, _ => none
  | fuel + 1, cache, page, bLoad => do
      let leaf ← cache.leafPages page
      match leaf.nextPage with
      | some next => some (some next, cache)
      | none =>
          if leaf.rangeEndPage || leaf.nextPageId = none then some (none, cache)
          else if bLoad then
            let parentPage ← leaf.parentPage
            let cache ← fillNextPage asserts tree
              (fun cache page => getNextPage asserts tree fuel cache page true) fuel cache
              parentPage page false
            let leaf ← cache.leafPages page
            some (leaf.nextPage, cache)
          else some (none, cache)

end SiblingLinks

end RapidDb
