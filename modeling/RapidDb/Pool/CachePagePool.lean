import Mathlib.Data.List.Basic
import Mathlib.Logic.Function.Basic
import RapidDb.Core.CoreEnum
import RapidDb.Library.Transition

/-!
# The pool of cached pages

Index tasks get pages from the pool, which creates a page that is not there, and add pages that are
new. `PoolManage` walks over the pages without the lock, selects those that may go and deletes them
under the lock. A page and a tree are known by the numbers in whose order they have been created,
and stay known when they have been deleted.

The build is the default one, without assertions: a page whose place in a map is taken does not get
into it. How a page is read and written, what the tree links, and whether the score of a page is
low, are steps of their own or part of a step.
-/

namespace RapidDb

open Transition

structure CachedPage where
  indexTree : ℕ := 0
  fileId : ℕ := 0
  pageId : PageID := 0
  bRefered : Bool := true
  pageStatus : PageStatus := .empty
  parentPage : Option ℕ := none
  childPages : List ℕ := []
  prevPage : Option ℕ := none
  nextPage : Option ℕ := none
  /-- How often it has been deleted. -/
  deleted : ℕ := 0
deriving DecidableEq, Repr

structure CachedTree where
  fileId : ℕ := 0
  pagesInMem : ℕ := 0
  bClosed : Bool := false
  /-- How often it has been deleted. -/
  deleted : ℕ := 0
deriving DecidableEq, Repr

namespace CachedPage

/-- `CachePage::HashCode`. -/
def hashCode (page : CachedPage) : ℕ := page.fileId * 2 ^ 32 + page.pageId

/-- `Releaseable`, the same for leaf and branch pages. -/
def releaseable (page : CachedPage) : Bool := !page.bRefered && page.pageStatus == .valid

def links (page : CachedPage) : List ℕ :=
  page.parentPage.toList ++ page.childPages ++ page.prevPage.toList ++ page.nextPage.toList

/-- What `ReleaseIndexPage` does with a page of its list. The pointer to the previous leaf stays. -/
def release (page : CachedPage) : CachedPage :=
  { page with bRefered := false, parentPage := none, childPages := [], nextPage := none }

end CachedPage

namespace CachedTree

/-- `IndexTree::IncPages`. -/
def incPages (tree : CachedTree) (pnum : ℕ) : CachedTree :=
  { tree with pagesInMem := (tree.pagesInMem + pnum) % 2 ^ 32 }

/-- `IndexTree::DecPages`. A tree that has been deleted is used as it was. -/
def decPages (tree : CachedTree) (pnum : ℕ) : CachedTree :=
  { tree with
    pagesInMem := (tree.pagesInMem + 2 ^ 32 - pnum) % 2 ^ 32
    deleted := if tree.pagesInMem = pnum then tree.deleted + 1 else tree.deleted }

end CachedTree

/-- Where `PoolManage` is. -/
inductive ManageStage where
  | idle
  /-- The pages that the walk has seen, and `lst`. -/
  | scanning (visited lst : List ℕ)
deriving DecidableEq, Repr

inductive LinkKind where
  | parent | child | prev | next
deriving DecidableEq, Repr

structure CachePagePool where
  trees : ℕ → CachedTree := fun _ => {}
  treeNum : ℕ := 0
  pages : ℕ → CachedPage := fun _ => {}
  pageNum : ℕ := 0
  mapCache : List ℕ := []
  tmpCache : List ℕ := []
  /-- None is the greatest number. -/
  midPage : Option ℕ := none
  stage : ManageStage := .idle
  /-- The pages that callers reference, wait for or have linked. -/
  held : List ℕ := []

inductive PoolEvent where
  /-- An `IndexTree` is constructed. -/
  | newTree (fileId : ℕ)
  /-- `IndexTree::ApplyIndexPages`, which calls `AddPages`. -/
  | applyIndexPages (tree : ℕ) (pageIds : List ℕ)
  /-- The end of `IndexTree::LoadIndexTree`, which calls `AddPage`. -/
  | loadIndexTree (tree rootId : ℕ)
  | getPage (tree pageId : ℕ)
  /-- A read or a write of the page begins or ends. -/
  | setPageStatus (page : ℕ) (status : PageStatus)
  /-- A caller links a page of its tree. -/
  | link (page : ℕ) (kind : LinkKind) (target : ℕ)
  /-- `IndexTree::Close` is called: nobody else uses the tree. -/
  | startClose (tree : ℕ)
  /-- `ReleaseIndexPage` comes to a page. -/
  | releasePage (page : ℕ)
  /-- The end of `IndexTree::Close`. -/
  | close (tree : ℕ)
  /-- `PoolManage` begins its walk. -/
  | startManage
  /-- The walk comes to a page, whose score is low or not. -/
  | scan (page : ℕ) (low : Bool)
  /-- The part of `PoolManage` behind the walk. -/
  | remove
  | clearPool
deriving DecidableEq, Repr

namespace CachePagePool

def new : CachePagePool := {}

def setPage (pool : CachePagePool) (page : ℕ) (new : CachedPage) : CachePagePool :=
  { pool with pages := Function.update pool.pages page new }

def setTree (pool : CachePagePool) (tree : ℕ) (new : CachedTree) : CachePagePool :=
  { pool with trees := Function.update pool.trees tree new }

def HasTree (pool : CachePagePool) (tree : ℕ) : Prop :=
  tree < pool.treeNum ∧ (pool.trees tree).deleted = 0

instance (pool : CachePagePool) (tree : ℕ) : Decidable (pool.HasTree tree) :=
  inferInstanceAs (Decidable (tree < pool.treeNum ∧ (pool.trees tree).deleted = 0))

/-- `find` in one of the maps. -/
def find (pool : CachePagePool) (map : List ℕ) (hash : ℕ) : Option ℕ :=
  map.find? fun page => (pool.pages page).hashCode == hash

def newPage (pool : CachePagePool) (tree pageId : ℕ) (status : PageStatus) : CachedPage where
  indexTree := tree
  fileId := (pool.trees tree).fileId
  pageId := pageId
  pageStatus := status

/-- A page is constructed and put into `_tmpCache`, if none is there in its place. -/
def addPage (pool : CachePagePool) (tree pageId : ℕ) : CachePagePool :=
  let page := pool.newPage tree pageId .valid
  { pool.setPage pool.pageNum page with
    pageNum := pool.pageNum + 1
    tmpCache :=
      if pool.find pool.tmpCache page.hashCode = none then pool.tmpCache ++ [pool.pageNum]
      else pool.tmpCache
    held := pool.pageNum :: pool.held }

/-- The pages of `ApplyIndexPages`. -/
def addPages (pool : CachePagePool) (tree : ℕ) (pageIds : List ℕ) : CachePagePool :=
  pageIds.foldl (fun pool pageId => pool.addPage tree pageId) pool

def incPages (pool : CachePagePool) (tree pnum : ℕ) : CachePagePool :=
  pool.setTree tree ((pool.trees tree).incPages pnum)

def decPages (pool : CachePagePool) (tree pnum : ℕ) : CachePagePool :=
  pool.setTree tree ((pool.trees tree).decPages pnum)

/-- A page that is there is referred and returned. -/
def refer (pool : CachePagePool) (page : ℕ) : CachePagePool :=
  { pool.setPage page { pool.pages page with bRefered := true } with held := page :: pool.held }

/-- Where `GetPage` finds a page. -/
def found (pool : CachePagePool) (tree pageId : ℕ) : Option ℕ :=
  let hash := (pool.newPage tree pageId .empty).hashCode
  (pool.find pool.mapCache hash).or (pool.find pool.tmpCache hash)

/-- `CachePagePool::GetPage`, with the page that it returns. -/
def getPage (pool : CachePagePool) (tree pageId : ℕ) : ℕ × CachePagePool :=
  match pool.found tree pageId with
  | some page => (page, pool.refer page)
  | none =>
      (pool.pageNum, { (pool.setPage pool.pageNum (pool.newPage tree pageId .empty)).incPages tree 1
        with
          pageNum := pool.pageNum + 1
          mapCache := pool.mapCache ++ [pool.pageNum]
          held := pool.pageNum :: pool.held })

/-- `delete` of a page. -/
def deletePage (pool : CachePagePool) (page : ℕ) : CachePagePool :=
  let old := pool.pages page
  (pool.setPage page { old with deleted := old.deleted + 1 }).decPages old.indexTree 1

/-- What `PoolManage` does with a page of its list. -/
def evict (pool : CachePagePool) (page : ℕ) : CachePagePool :=
  let pool' := (pool.decPages (pool.pages page).indexTree 1).deletePage page
  { pool' with mapCache := pool'.mapCache.erase page }

/-- The pages of `_tmpCache` with none in their places in `_mapCache`. -/
def movable (pool : CachePagePool) : List ℕ :=
  pool.tmpCache.filter fun page =>
    pool.find pool.mapCache (pool.pages page).hashCode = none

/-- The pages of `_tmpCache` are put into `_mapCache`, as far as they get into it. -/
def moveTmp (pool : CachePagePool) : CachePagePool :=
  { pool with mapCache := pool.mapCache ++ pool.movable, tmpCache := [] }

def startsAt (pool : CachePagePool) (visited : List ℕ) (page : ℕ) : Prop :=
  visited ≠ [] ∨ pool.midPage = none ∨ pool.midPage = some (pool.pages page).hashCode

instance (pool : CachePagePool) (visited : List ℕ) (page : ℕ) :
    Decidable (pool.startsAt visited page) :=
  inferInstanceAs (Decidable (visited ≠ [] ∨ pool.midPage = none ∨ _))

def setLink (page : CachedPage) (kind : LinkKind) (target : ℕ) : CachedPage :=
  match kind with
  | .parent => { page with parentPage := some target }
  | .child => { page with childPages := target :: page.childPages }
  | .prev => { page with prevPage := some target }
  | .next => { page with nextPage := some target }

/-- One step; none if it is not possible now, or ends the program. -/
def next (pool : CachePagePool) : PoolEvent → Option CachePagePool
  | .newTree fileId =>
      some { pool.setTree pool.treeNum { fileId := fileId } with treeNum := pool.treeNum + 1 }
  | .applyIndexPages tree pageIds =>
      if pool.HasTree tree ∧ ∀ pageId ∈ pageIds, pageId < pageNullPointer then
        some ((pool.addPages tree pageIds).incPages tree pageIds.length)
      else
        none
  | .loadIndexTree tree rootId =>
      if pool.HasTree tree ∧ rootId < pageNullPointer then
        some ((pool.incPages tree 1).addPage tree rootId)
      else
        none
  | .getPage tree pageId =>
      if pool.HasTree tree ∧ pageId < pageNullPointer then some (pool.getPage tree pageId).2
      else none
  | .setPageStatus page status =>
      if page < pool.pageNum ∧ (pool.pages page).deleted = 0 then
        some (pool.setPage page { pool.pages page with pageStatus := status })
      else
        none
  | .link page kind target =>
      if page ∈ pool.held ∧ target ∈ pool.held ∧
          (pool.pages page).indexTree = (pool.pages target).indexTree then
        some (pool.setPage page (setLink (pool.pages page) kind target))
      else
        none
  | .startClose tree =>
      some { pool with held := pool.held.filter fun page => (pool.pages page).indexTree ≠ tree }
  | .releasePage page =>
      if page < pool.pageNum ∧ (pool.pages page).deleted = 0 ∧ page ∉ pool.held ∧
          (pool.pages page).pageStatus = .valid then
        some (pool.setPage page (pool.pages page).release)
      else
        none
  | .close tree => some (pool.setTree tree { pool.trees tree with bClosed := true })
  | .startManage =>
      if pool.stage = .idle then some { pool with stage := .scanning [] [] } else none
  | .scan page low =>
      match pool.stage with
      | .scanning visited lst =>
          if page ∈ pool.mapCache ∧ page ∉ visited ∧ lst.length < 100000 ∧
              pool.startsAt visited page then
            if (pool.pages page).releaseable = true ∧
                ((pool.trees (pool.pages page).indexTree).bClosed = true ∨ low = true) then
              some { pool with stage := .scanning (page :: visited) (lst ++ [page]) }
            else
              some { pool with stage := .scanning (page :: visited) lst }
          else
            none
      | .idle => none
  | .remove =>
      match pool.stage with
      | .scanning visited lst =>
          -- a walk over the whole map reads its place from the null node behind the last page
          if lst.length = 100000 ∧ ∃ page ∈ pool.mapCache, page ∉ visited then
            some (lst.foldl evict { pool with midPage := none, stage := .idle }).moveTmp
          else
            none
      | .idle => none
  | .clearPool =>
      if pool.stage = .idle then
        some { (pool.mapCache ++ pool.tmpCache).foldl deletePage pool with
          mapCache := [], tmpCache := [] }
      else
        none

/-- The pages that the walk has selected. -/
def lst (pool : CachePagePool) : List ℕ :=
  match pool.stage with
  | .scanning _ lst => lst
  | .idle => []

def cached (pool : CachePagePool) : List ℕ := pool.mapCache ++ pool.tmpCache

end CachePagePool

end RapidDb
