import RapidDb.Core.NextPage
import RapidDb.Core.SplitBranch

/-!
# Splitting any branch page

`BranchPage::SplitPage` of a page with any branch records, of which some children are in memory and
others are not. A call that has split a page goes on with the parent page if that is far too long
then. The model follows the call up the ancestors of the page; it has the page objects in memory,
each with its C++ class and its parent pointer.

A record that is longer than a page makes the loop of `SplitPage` look at it again and again. A part
that fills its page exactly is taken as it is, although the page is then too long by `IsOverlength`,
and if it is the only part there is no new page at all. A child that is not in memory is always
fetched as a branch page.
-/

namespace RapidDb

open SiblingLinks (PageType)

namespace BranchSplit

structure PageObject where
  type : PageType
  parentPage : PageID
deriving DecidableEq, Repr

abbrev Objects := PageID → Option PageObject

def childType (pageLevel : ℕ) : PageType :=
  if pageLevel = 1 then .leafPage else .branchPage

/-- A child of a new page gets its parent page; `GetPage` makes an object of a missing one. -/
def adopt (parentPage : PageID) (objects : Objects) (br : BranchRecord) : Objects :=
  Function.update objects br.childPage
    (some { (objects br.childPage).getD ⟨.branchPage, parentPage⟩ with parentPage := parentPage })

def adoptAll : List (PageID × BranchPage) → Objects → Objects
  | [], objects => objects
  | (pageId, page) :: rest, objects => adoptAll rest (page.records.foldl (adopt pageId) objects)

/-- A page that is to be split below a parent page, from which its record has been taken out. -/
structure Call where
  indexType : IndexType
  /-- The first identifier that no page has. -/
  newPageId : PageID
  objects : Objects
  pageId : PageID
  page : BranchPage
  parentPageId : PageID
  parentPage : BranchPage
  brParentOld : Option BranchRecord
  posInParent : ℕ

/-- The page and its new brothers, and the parent page with their records. -/
structure Outcome where
  newPageId : PageID
  objects : Objects
  pages : List (PageID × BranchPage)
  parentPage : BranchPage

def Call.root (indexType : IndexType) (newPageId : PageID) (objects : Objects) (pageId : PageID)
    (page : BranchPage) : Call where
  indexType := indexType
  newPageId := newPageId + 1
  objects := objects
  pageId := pageId
  page := page
  parentPageId := newPageId
  parentPage := { pageLevel := page.pageLevel + 1, parentPageId := none, endPage := true }
  brParentOld := none
  posInParent := 0

/-- The record of another page is looked for with the last record of the page and taken out. -/
def Call.below (indexType : IndexType) (newPageId : PageID) (objects : Objects) (pageId : PageID)
    (page : BranchPage) (parentPageId : PageID) (parentPage : BranchPage) : Option Call := do
  let last ← page.records.getLast?
  let posInParent :=
    parentPage.searchRecord indexType ((last.ofBranch indexType pageId).indexKey indexType)
  let (brParentOld, parentPage) ← parentPage.deleteRecord posInParent
  some
    { indexType := indexType
      newPageId := newPageId
      objects := objects
      pageId := pageId
      page := page
      parentPageId := parentPageId
      parentPage := parentPage
      brParentOld := some brParentOld
      posInParent := posInParent }

def Call.newPageIds (call : Call) (pnum : ℕ) : List PageID :=
  (List.range pnum).map (call.newPageId + ·)

/-- `BranchPage::SplitPage` without the split of the parent page. -/
def Call.run (call : Call) : Option Outcome := do
  match ← call.page.splitParts with
  | [] => none
  | first :: parts =>
      -- the end mark goes to the last new page, also if there is none
      if call.page.endPage && parts.isEmpty then none
      else
        let ids := call.newPageIds parts.length
        let entries ← IndexTree.newEntries (BranchRecord.indexKey call.indexType)
          (BranchRecord.ofBranch call.indexType)
          ((call.pageId, first.1) :: ids.zip (parts.map Prod.fst))
        let newPages := IndexTree.newBranchPages call.page.pageLevel call.parentPageId
          call.page.endPage (ids.zip parts)
        some
          { newPageId := call.newPageId + parts.length
            objects := adoptAll newPages call.objects
            pages :=
              (call.pageId,
                { call.page with
                  records := first.1
                  parentPageId := call.parentPageId
                  endPage := false
                  committedDataLength := first.2 }) :: newPages
            parentPage := call.parentPage.insertRecords
              (IndexTree.splitRecords call.indexType call.brParentOld entries) call.posInParent }

/-- `BranchPage::SplitPage` of a page below its ancestors, with all splits it makes. -/
def splitPage (indexType : IndexType) :
    PageID → Objects → PageID → BranchPage → List (PageID × BranchPage) →
      Option (List (Call × Outcome))
  | newPageId, objects, pageId, page, [] =>
      let call := Call.root indexType newPageId objects pageId page
      call.run.map fun outcome => [(call, outcome)]
  | newPageId, objects, pageId, page, (parentPageId, parentPage) :: ancestors => do
      let call ← Call.below indexType newPageId objects pageId page parentPageId parentPage
      let outcome ← call.run
      if outcome.parentPage.needForceSplit then
        (splitPage indexType outcome.newPageId outcome.objects parentPageId outcome.parentPage
          ancestors).map ((call, outcome) :: ·)
      else some [(call, outcome)]

end BranchSplit

end RapidDb
