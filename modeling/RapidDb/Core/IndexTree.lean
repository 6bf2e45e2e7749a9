import RapidDb.Core.LeafPage

/-!
# Index trees in memory

All pages of the tree are in memory here, so that a page is found by its id and the pointers to
the parent, the child and the neighbouring pages are ids. Page ids are handed out in sequence, as
long as no page has been given back.

Splitting a page replaces its record in the parent page. A page without a parent gets a new root
page first. If the parent has become much too long it is split at once.
-/

namespace RapidDb

inductive IndexPage where
  | leaf (page : LeafPage)
  | branch (page : BranchPage)
deriving DecidableEq, Repr

structure IndexTree where
  indexType : IndexType
  pages : PageID → Option IndexPage
  rootPageId : PageID
  totalPageCount : ℕ

namespace IndexTree

def leafPage? (tree : IndexTree) (pageId : PageID) : Option LeafPage :=
  match tree.pages pageId with
  | some (.leaf page) => some page
  | _ => none

def branchPage? (tree : IndexTree) (pageId : PageID) : Option BranchPage :=
  match tree.pages pageId with
  | some (.branch page) => some page
  | _ => none

def setPage (tree : IndexTree) (pageId : PageID) (page : IndexPage) : IndexTree :=
  { tree with pages := Function.update tree.pages pageId (some page) }

def setPages (tree : IndexTree) (pages : List (PageID × IndexPage)) : IndexTree :=
  pages.foldl (fun tree (pageId, page) => tree.setPage pageId page) tree

/-- `CreateIndexTree`: the root is an empty leaf. -/
def create (indexType : IndexType) : IndexTree where
  indexType := indexType
  pages := Function.update (fun _ => none) 0
    (some (.leaf { parentPageId := none, endPage := true }))
  rootPageId := 0
  totalPageCount := 1

/-- The ids `ApplyIndexPages` hands out. -/
def newPageIds (tree : IndexTree) (pnum : ℕ) : List PageID :=
  List.range' tree.totalPageCount pnum

/-- The loop of `SearchPage` for a record; the first number bounds its iterations. -/
def searchFrom (tree : IndexTree) (lr : LeafRecord) : ℕ → PageID → Option PageID
  | 0, _ => none
  | fuel + 1, pageId =>
      match tree.pages pageId with
      | none => none
      | some (.leaf _) => some pageId
      | some (.branch page) =>
          let pos := page.searchRecord tree.indexType (lr.indexKey tree.indexType)
          page.records[pos]?.bind fun br => tree.searchFrom lr fuel br.childPage

/-- `SearchPage` from the root. -/
def searchPage (tree : IndexTree) (lr : LeafRecord) : Option PageID :=
  tree.searchFrom lr tree.totalPageCount tree.rootPageId

def searchPageFrom (tree : IndexTree) (target : SearchTarget) : ℕ → PageID → Option PageID
  | 0, _ => none
  | fuel + 1, pageId =>
      match tree.pages pageId with
      | none => none
      | some (.leaf _) => some pageId
      | some (.branch page) =>
          page.records[target.position tree.indexType page.records]?.bind fun br =>
            tree.searchPageFrom target fuel br.childPage

theorem searchPageFrom_record (tree : IndexTree) (lr : LeafRecord) (fuel : ℕ) (pageId : PageID) :
    tree.searchPageFrom (.record (lr.indexKey tree.indexType)) fuel pageId =
      tree.searchFrom lr fuel pageId := by
  induction fuel generalizing pageId with
  | zero => rfl
  | succ fuel ih =>
      unfold searchPageFrom searchFrom
      cases tree.pages pageId with
      | none => rfl
      | some page =>
          cases page with
          | leaf page => rfl
          | branch page =>
              refine congrArg (Option.bind _) (funext fun br => ?_)
              exact ih br.childPage

/-- An insertion in memory: `SearchPage` from the root, `SearchRecord` and `InsertRecord`. -/
def insertRecord (tree : IndexTree) (lr : LeafRecord) : Option IndexTree := do
  let pageId ← tree.searchPage lr
  let page ← tree.leafPage? pageId
  let pos := (page.searchRecord tree.indexType lr).2
  some (tree.setPage pageId (.leaf (page.insertRecord lr pos)))

/-- `SearchPage` from the root and `SearchRecord`. -/
def findRecord (tree : IndexTree) (lr : LeafRecord) : Option LeafRecord := do
  let pageId ← tree.searchPage lr
  let page ← tree.leafPage? pageId
  match page.searchRecord tree.indexType lr with
  | (true, pos) => page.records[pos]?
  | (false, _) => none

/-- What the first part of `SplitPage` finds out and changes: the parent of the page, and the
record that was taken out of it. -/
structure Detached where
  tree : IndexTree
  parentPageId : PageID
  parentPage : BranchPage
  brParentOld : Option BranchRecord
  posInParent : ℕ

/-- The first part of `SplitPage`: a new root page, or the parent without the record of the page.
`last` is the record made from the last record of the page. -/
def detach (tree : IndexTree) (pageLevel : ℕ) (parentPageId : Option PageID)
    (last : Option BranchRecord) : Option Detached :=
  match parentPageId with
  | none =>
      some
        { tree := { tree with totalPageCount := tree.totalPageCount + 1 }
          parentPageId := tree.totalPageCount
          parentPage := { pageLevel := pageLevel + 1, parentPageId := none, endPage := true }
          brParentOld := none
          posInParent := 0 }
  | some parentPageId =>
      last.bind fun br =>
        (tree.branchPage? parentPageId).bind fun parent =>
          let posInParent := parent.searchRecord tree.indexType (br.indexKey tree.indexType)
          (parent.deleteRecord posInParent).map fun (brParentOld, parentPage) =>
            { tree := tree
              parentPageId := parentPageId
              parentPage := parentPage
              brParentOld := brParentOld
              posInParent := posInParent }

/-- A part of a split page: the id of its page, the index key of its last record, and the record
made from it for the parent. -/
structure NewEntry where
  pageId : PageID
  lastKey : List Byte
  record : BranchRecord

/-- The entries of the parts, for the records of a leaf or of a branch page. -/
def newEntries {α : Type} (indexKey : α → List Byte) (make : α → PageID → BranchRecord) :
    List (PageID × List α) → Option (List NewEntry)
  | [] => some []
  | (pageId, part) :: rest =>
      part.getLast?.bind fun last =>
        (newEntries indexKey make rest).map fun entries =>
          { pageId := pageId, lastKey := indexKey last, record := make last pageId } :: entries

/-- The records for the new pages: each is made from the last record of its page, the last one
from the old record of the split page if that is larger. -/
def newRecords (type : IndexType) (brParentOld : Option BranchRecord) :
    List NewEntry → List BranchRecord
  | [] => []
  | [entry] =>
      match brParentOld with
      | none => [entry.record]
      | some old =>
          if 0 < Bytes.bytesCompare (old.indexKey type) entry.lastKey then
            [old.ofBranch type entry.pageId]
          else
            [entry.record]
  | entry :: next :: rest => entry.record :: newRecords type brParentOld (next :: rest)

/-- The records that go into the parent: those of the page itself and of the new pages. -/
def splitRecords (type : IndexType) (brParentOld : Option BranchRecord) :
    List NewEntry → List BranchRecord
  | [] => []
  | entry :: rest => entry.record :: newRecords type brParentOld rest

/-- The branch pages made from the parts that leave a page. -/
def newBranchPages (pageLevel : ℕ) (parentPageId : PageID) (endPage : Bool) :
    List (PageID × List BranchRecord × ℕ) → List (PageID × BranchPage)
  | [] => []
  | (pageId, records, len) :: rest =>
      (pageId,
        { pageLevel := pageLevel
          records := records
          parentPageId := parentPageId
          endPage := endPage && rest.isEmpty
          committedDataLength := len }) ::
        newBranchPages pageLevel parentPageId endPage rest

/-- `SetParentPage` and `SetParentPageID`. -/
def setParent (tree : IndexTree) (parentPageId pageId : PageID) : Option IndexTree :=
  (tree.pages pageId).map fun
    | .leaf page => tree.setPage pageId (.leaf { page with parentPageId := parentPageId })
    | .branch page => tree.setPage pageId (.branch { page with parentPageId := parentPageId })

def adoptRecords (parentPageId : PageID) : List BranchRecord → IndexTree → Option IndexTree
  | [], tree => some tree
  | br :: rest, tree =>
    (tree.setParent parentPageId br.childPage).bind (adoptRecords parentPageId rest)

/-- The children of new branch pages get their new parent. -/
def adoptChildren : List (PageID × BranchPage) → IndexTree → Option IndexTree
  | [], tree => some tree
  | (pageId, page) :: rest, tree =>
      (adoptRecords pageId page.records tree).bind (adoptChildren rest)

/-- The second part of `BranchPage::SplitPage`: the parts go to the page itself and to new pages,
and the parent gets their records. -/
def placeBranch (detached : Detached) (pageId : PageID) (page : BranchPage)
    (first : List BranchRecord × ℕ) (parts : List (List BranchRecord × ℕ)) :
    Option (BranchPage × IndexTree) := do
  let tree := detached.tree
  let ids := tree.newPageIds parts.length
  let entries ← newEntries (BranchRecord.indexKey tree.indexType)
    (BranchRecord.ofBranch tree.indexType) ((pageId, first.1) :: ids.zip (parts.map Prod.fst))
  let parent := detached.parentPage.insertRecords
    (splitRecords tree.indexType detached.brParentOld entries) detached.posInParent
  let newPages := newBranchPages page.pageLevel detached.parentPageId page.endPage (ids.zip parts)
  let tree := { tree with totalPageCount := tree.totalPageCount + parts.length }
  let tree := tree.setPage pageId
    (.branch
      { page with
        records := first.1
        parentPageId := detached.parentPageId
        endPage := false
        committedDataLength := first.2 })
  let tree := tree.setPage detached.parentPageId (.branch parent)
  let tree := tree.setPages (newPages.map fun (id, page) => (id, .branch page))
  let tree ← adoptChildren newPages tree
  some (parent, tree)

/-- `BranchPage::SplitPage`; the first number bounds the pages that are split one after the
other. The last new page is looked up to mark it as the end page, also if there is none. -/
def splitBranch : ℕ → IndexTree → PageID → Option IndexTree
  | 0, _, _ => none
  | fuel + 1, tree, pageId => do
      let page ← tree.branchPage? pageId
      let last := page.records.getLast?.map fun br => br.ofBranch tree.indexType pageId
      let detached ← tree.detach page.pageLevel page.parentPageId last
      match ← page.splitParts with
      | [] => none
      | first :: parts =>
          if page.endPage && parts.isEmpty then
            none
          else
            let (parent, tree) ← placeBranch detached pageId page first parts
            if detached.brParentOld.isNone then
              some { tree with rootPageId := detached.parentPageId }
            else if parent.needForceSplit then
              splitBranch fuel tree detached.parentPageId
            else
              some tree

/-- The leaf pages made from the parts that leave a page, linked one behind the other. -/
def newLeafPages (parentPageId : PageID) (lastId : Option PageID) :
    PageID → List (PageID × LeafPage.SplitPart) → List (PageID × LeafPage)
  | _, [] => []
  | prevPageId, (pageId, part) :: rest =>
      (pageId,
        { records := part.records
          parentPageId := parentPageId
          prevPageId := prevPageId
          nextPageId := (rest.head?.map Prod.fst).or lastId
          endPage := rest.isEmpty && lastId.isNone
          committedDataLength := part.committedLength
          tempDataLength := part.tempLength }) ::
        newLeafPages parentPageId lastId pageId rest

/-- The page behind the split one gets its new neighbour. -/
def setPrev (tree : IndexTree) (pageId : Option PageID) (prevPageId : PageID) : Option IndexTree :=
  match pageId with
  | none => some tree
  | some pageId =>
      (tree.leafPage? pageId).map fun page =>
        tree.setPage pageId (.leaf { page with prevPageId := prevPageId })

/-- The second part of `LeafPage::SplitPage` if there is more than one part. All pages are saved
at the end of it. -/
def placeLeaf (detached : Detached) (pageId : PageID) (page : LeafPage) (first : LeafPage.SplitPart)
    (parts : List LeafPage.SplitPart) : Option (BranchPage × IndexTree) := do
  let tree := detached.tree
  let ids := tree.newPageIds parts.length
  let entries ← newEntries (LeafRecord.indexKey tree.indexType) BranchRecord.ofLeaf
    ((pageId, first.records) :: ids.zip (parts.map LeafPage.SplitPart.records))
  let parent := detached.parentPage.insertRecords
    (splitRecords tree.indexType detached.brParentOld entries) detached.posInParent
  let lastId := page.nextPageId
  let firstPage :=
    { page with
      records := first.records
      parentPageId := detached.parentPageId
      nextPageId := ids.head?
      endPage := page.endPage && lastId.isSome
      committedDataLength := first.committedLength
      tempDataLength := first.tempLength }
  let newPages := newLeafPages detached.parentPageId lastId pageId (ids.zip parts)
  let saved ← ((pageId, firstPage) :: newPages).mapM fun (id, page) =>
    page.saveRecords.map fun saved => (id, IndexPage.leaf saved.page)
  let tree := { tree with totalPageCount := tree.totalPageCount + parts.length }
  let tree ← tree.setPrev lastId (ids.getLastD pageId)
  let tree := tree.setPage detached.parentPageId (.branch parent)
  some (parent, tree.setPages saved)

/-- The second part of `LeafPage::SplitPage` if all records stay in the page. -/
def keepLeaf (detached : Detached) (pageId : PageID) (page : LeafPage) (only : LeafPage.SplitPart) :
    Option IndexTree := do
  let tree := detached.tree
  let entries ← newEntries (LeafRecord.indexKey tree.indexType) BranchRecord.ofLeaf
    [(pageId, only.records)]
  let records := match detached.brParentOld with
    | some old => [old]
    | none => entries.map NewEntry.record
  let tree := tree.setPage pageId
    (.leaf
      { page with
        records := only.records
        parentPageId := detached.parentPageId
        committedDataLength := only.committedLength
        tempDataLength := only.tempLength })
  some (tree.setPage detached.parentPageId
    (.branch (detached.parentPage.insertRecords records detached.posInParent)))

/-- `LeafPage::SplitPage`. -/
def splitLeaf (tree : IndexTree) (pageId : PageID) : Option IndexTree := do
  let page ← tree.leafPage? pageId
  let last := page.records.getLast?.map fun lr => BranchRecord.ofLeaf lr pageId
  let detached ← tree.detach 0 page.parentPageId last
  match ← page.splitParts with
  | [] => none
  | [only] =>
      let tree ← keepLeaf detached pageId page only
      if detached.brParentOld.isNone then
        some { tree with rootPageId := detached.parentPageId }
      else
        some tree
  | first :: parts =>
      let (parent, tree) ← placeLeaf detached pageId page first parts
      if detached.brParentOld.isNone then
        some { tree with rootPageId := detached.parentPageId }
      else if parent.needForceSplit then
        splitBranch tree.totalPageCount tree detached.parentPageId
      else
        some tree

/-- The `SplitPage` of a page in memory. -/
def splitPage (tree : IndexTree) (pageId : PageID) : Option IndexTree :=
  (tree.pages pageId).bind fun
    | .leaf _ => tree.splitLeaf pageId
    | .branch _ => splitBranch tree.totalPageCount tree pageId

end IndexTree

end RapidDb
