import RapidDb.Core.PageSplit

/-!
# `SplitPage` keeps the invariant

The first part of `SplitPage` takes the record of the page out of its parent, or makes a new root
page. In the second case the tree is compared with one that has grown before: its root page has
a single record, made from the last record of the page.
-/

namespace RapidDb

open SeparatorTree

def IndexPage.withParent (parentPageId : PageID) : IndexPage → IndexPage
  | leaf page => leaf { page with parentPageId := parentPageId }
  | branch page => branch { page with parentPageId := parentPageId }

@[simp]
theorem IndexPage.withParent_fields (parentPageId : PageID) (page : IndexPage) :
    (page.withParent parentPageId).parentPageId = some parentPageId ∧
      (page.withParent parentPageId).endPage = page.endPage ∧
      (page.withParent parentPageId).nextPageId = page.nextPageId ∧
      (page.withParent parentPageId).records = page.records ∧
      (page.withParent parentPageId).withoutLinks = page.withoutLinks := by
  cases page <;> exact ⟨rfl, rfl, rfl, rfl, rfl⟩

theorem IndexPage.withParent_of_parent {parentPageId : PageID} {page : IndexPage}
    (hasParent : page.parentPageId = some parentPageId) : page.withParent parentPageId = page := by
  cases page with
  | leaf page =>
      have same : page.parentPageId = some parentPageId := hasParent
      rw [withParent, ← same]
  | branch page =>
      have same : page.parentPageId = some parentPageId := hasParent
      rw [withParent, ← same]

namespace IndexTree

/-!
## The parent of the page
-/

def rootAbove (level : ℕ) (old : BranchRecord) : BranchPage where
  pageLevel := level + 1
  records := [old]
  parentPageId := none
  endPage := true
  committedDataLength := BranchPage.recordLength old

/-- The tree with a new root page above the old one. -/
def grow (tree : IndexTree) (level : ℕ) (page : IndexPage) (old : BranchRecord) : IndexTree :=
  { (tree.setPage tree.rootPageId (page.withParent tree.totalPageCount)).setPage
      tree.totalPageCount (.branch (rootAbove level old)) with
    rootPageId := tree.totalPageCount
    totalPageCount := tree.totalPageCount + 1 }

section Grow

variable {tree : IndexTree} {height : ℕ} {layer : ℕ → List PageID} {page : IndexPage}
  {old : BranchRecord}

theorem pages_grow_new (tree : IndexTree) (level : ℕ) (page : IndexPage) (old : BranchRecord) :
    (tree.grow level page old).pages tree.totalPageCount = some (.branch (rootAbove level old)) :=
  pages_setPage_self

@[simp]
theorem grow_fields (tree : IndexTree) (level : ℕ) (page : IndexPage) (old : BranchRecord) :
    (tree.grow level page old).indexType = tree.indexType ∧
      (tree.grow level page old).rootPageId = tree.totalPageCount ∧
      (tree.grow level page old).totalPageCount = tree.totalPageCount + 1 :=
  ⟨rfl, rfl, rfl⟩

theorem pages_grow_root (inv : tree.Invariant height layer) (level : ℕ)
    (pageEq : tree.pages tree.rootPageId = some page) :
    (tree.grow level page old).pages tree.rootPageId =
      some (page.withParent tree.totalPageCount) := by
  have notNew : tree.rootPageId ≠ tree.totalPageCount :=
    Nat.ne_of_lt (inv.allocated tree.rootPageId page pageEq)
  exact (pages_setPage_of_ne notNew).trans pages_setPage_self

theorem pages_grow_other {other : PageID} (level : ℕ) (notNew : other ≠ tree.totalPageCount)
    (notRoot : other ≠ tree.rootPageId) :
    (tree.grow level page old).pages other = tree.pages other :=
  (pages_setPage_of_ne notNew).trans (pages_setPage_of_ne notRoot)

theorem pages_grow_old (inv : tree.Invariant height layer) (level : ℕ)
    (pageEq : tree.pages tree.rootPageId = some page) (old : BranchRecord) {other : PageID}
    (notNew : other ≠ tree.totalPageCount) :
    ((tree.grow level page old).pages other).map IndexPage.withoutLinks =
      (tree.pages other).map IndexPage.withoutLinks := by
  by_cases isRoot : other = tree.rootPageId
  · rw [isRoot, pages_grow_root inv level pageEq, pageEq, Option.map_some, Option.map_some,
      (IndexPage.withParent_fields _ _).2.2.2.2]
  · rw [pages_grow_other level notNew isRoot]

theorem Invariant.entriesTo_grow (inv : tree.Invariant height layer)
    (pageEq : tree.pages tree.rootPageId = some page) (old : BranchRecord) {lower : ℕ}
    (lowerLt : lower < height) :
    (tree.grow height page old).entriesTo
        (Function.update layer (height + 1) [tree.totalPageCount]) lower =
      tree.entriesTo layer lower := by
  rw [entriesTo, entriesTo, Function.update_of_ne (by omega)]
  refine List.flatMap_congr fun x mem => ?_
  rcases inv.plain (lower + 1) lowerLt x mem with ⟨page', xEq, -⟩
  have notNew := Nat.ne_of_lt (inv.allocated x page' xEq)
  rw [shape_entries, shape_entries,
    (records_of_withoutLinks (pages_grow_old inv height pageEq old notNew)).2.1]
  rfl

theorem Invariant.grow (inv : tree.Invariant height layer)
    (pageEq : tree.pages tree.rootPageId = some page) (valid : old.Valid)
    (child : old.childPage = tree.rootPageId) :
    (tree.grow height page old).Invariant (height + 1)
        (Function.update layer (height + 1) [tree.totalPageCount]) ∧
      (tree.grow height page old).allRecords
          (Function.update layer (height + 1) [tree.totalPageCount]) =
        tree.allRecords layer := by
  have allocated : ∀ level ≤ height, ∀ x ∈ layer level, x ≠ tree.totalPageCount := by
    intro level levelLe x mem
    rcases inv.plain level levelLe x mem with ⟨page, xEq, -⟩
    exact Nat.ne_of_lt (inv.allocated x page xEq)
  have same : ∀ x, x ≠ tree.totalPageCount →
      ((tree.grow height page old).pages x).map IndexPage.withoutLinks =
        (tree.pages x).map IndexPage.withoutLinks :=
    fun x notNew => pages_grow_old inv height pageEq old notNew
  have newRecords := branchRecords_of_branchPage? (pages_grow_new tree height page old)
  have kept : ∀ level ≤ height,
      Function.update layer (height + 1) [tree.totalPageCount] level = layer level :=
    fun level levelLe => Function.update_of_ne (by omega) _ _
  have exists_old : ∀ x page', (tree.grow height page old).pages x = some page' →
      x = tree.totalPageCount ∨ ∃ page, tree.pages x = some page := by
    intro x page' xEq
    by_cases isNew : x = tree.totalPageCount
    · exact Or.inl isNew
    · have isSome := congrArg Option.isSome (same x isNew)
      rw [Option.isSome_map, Option.isSome_map, xEq] at isSome
      exact Or.inr (Option.isSome_iff_exists.mp isSome.symm)
  have topLayer : Function.update layer (height + 1) [tree.totalPageCount] (height + 1) =
      [tree.totalPageCount] := Function.update_self ..
  have oldEnds : ∀ level ≤ height, ∀ x ∈ layer level,
      ((tree.grow height page old).pages x).map IndexPage.endPage =
        (tree.pages x).map IndexPage.endPage := fun level levelLe x mem =>
    (records_of_withoutLinks (same x (allocated level levelLe x mem))).2.2.1
  refine ⟨⟨?_, ?_, ?_, ?_, ?_, ?_, ?_, ?_, ?_⟩, ?_⟩
  · have rootEntries : (tree.grow height page old).shape.entries tree.totalPageCount =
        [(old.indexKey tree.indexType, tree.rootPageId)] := by
      rw [shape_entries, newRecords.1, ← child]
      rfl
    refine inv.layered.grow ?_ rootEntries ?_
    · exact fun level levelLe mem => allocated level levelLe _ mem rfl
    · intro level levelLe x mem
      have sameRecords := records_of_withoutLinks (same x (allocated level levelLe x mem))
      rw [shape_leafKeys, shape_leafKeys, shape_entries, shape_entries, sameRecords.1,
        sameRecords.2.1]
      exact ⟨rfl, rfl⟩
  · intro level levelLe x mem
    rcases Nat.lt_or_eq_of_le levelLe with levelLt | rfl
    · have levelLe := Nat.le_of_lt_succ levelLt
      rw [kept level levelLe] at mem
      rcases inv.plain level levelLe x mem with ⟨page, xEq, plain⟩
      have sameLinks := same x (allocated level levelLe x mem)
      rw [xEq, Option.map_some, Option.map_eq_some_iff] at sameLinks
      rcases sameLinks with ⟨page', newEq, sameLinks⟩
      exact ⟨page', newEq, IndexPage.plain_of_withoutLinks sameLinks plain⟩
    · rw [topLayer, List.mem_singleton] at mem
      refine ⟨_, mem ▸ pages_grow_new tree height page old, ?_⟩
      refine ⟨Nat.succ_ne_zero height, rfl, ?_, ?_⟩
      · intro br brMem
        rw [List.mem_singleton.mp brMem]
        exact valid
      · simp [rootAbove]
  · intro x page' xEq
    rcases exists_old x page' xEq with isNew | ⟨page, oldEq⟩
    · refine ⟨height + 1, le_rfl, ?_⟩
      rw [topLayer, isNew]
      exact List.mem_singleton_self _
    · rcases inv.owned x page oldEq with ⟨level, levelLe, mem⟩
      exact ⟨level, Nat.le_succ_of_le levelLe, (kept level levelLe).symm ▸ mem⟩
  · intro x page' xEq
    rcases exists_old x page' xEq with isNew | ⟨page, oldEq⟩
    · rw [isNew]
      exact Nat.lt_succ_self _
    · exact Nat.lt_succ_of_lt (inv.allocated x page oldEq)
  · exact Nat.succ_lt_succ inv.heightLt
  · exact congrArg (Option.map IndexPage.parentPageId) (pages_grow_new tree height page old)
  · intro parentId br mem
    by_cases isNew : parentId = tree.totalPageCount
    · rw [isNew, newRecords.1] at mem
      rw [List.mem_singleton.mp mem, child, pages_grow_root inv height pageEq, Option.map_some,
        (IndexPage.withParent_fields _ _).1, isNew]
    · rw [(records_of_withoutLinks (same parentId isNew)).2.1] at mem
      have oldParent := inv.parents parentId br mem
      have notRoot : br.childPage ≠ tree.rootPageId := by
        intro isRoot
        rw [isRoot, inv.rootParent] at oldParent
        cases oldParent
      rcases inv.child_mem mem with ⟨lower, lowerLt, -, childMem⟩
      have notNew := allocated lower (le_of_lt lowerLt) br.childPage childMem
      rw [pages_grow_other height notNew notRoot]
      exact oldParent
  · intro level levelLe before x behind layerEq
    rcases Nat.lt_or_eq_of_le levelLe with levelLt | rfl
    · have levelLe := Nat.le_of_lt_succ levelLt
      rw [kept level levelLe] at layerEq
      have mem : x ∈ layer level := by
        rw [layerEq]
        simp
      rw [oldEnds level levelLe x mem]
      exact inv.ends level levelLe before x behind layerEq
    · rw [topLayer] at layerEq
      rcases List.append_eq_singleton_iff.mp layerEq.symm with ⟨-, onlyEq⟩ | ⟨-, empty⟩
      · rcases List.cons.inj onlyEq with ⟨rfl, rfl⟩
        exact congrArg (Option.map IndexPage.endPage) (pages_grow_new tree height page old)
      · cases empty
  · intro before x behind layerEq
    rw [kept 0 (Nat.zero_le _)] at layerEq
    have mem : x ∈ layer 0 := by
      rw [layerEq]
      simp
    rw [(records_of_withoutLinks (same x (allocated 0 (Nat.zero_le _) x mem))).2.2.2]
    exact inv.links before x behind layerEq
  · rw [allRecords, allRecords, kept 0 (Nat.zero_le _)]
    exact List.flatMap_congr fun x mem =>
      (records_of_withoutLinks (same x (allocated 0 (Nat.zero_le _) x mem))).1

end Grow

/-- A tree in which the parent of a page is known, compared with what the first part of
`SplitPage` leaves. The record of the page is `old` there. -/
structure Attached (tree : IndexTree) (detached : Detached) (height level : ℕ)
    (layer : ℕ → List PageID) (pageId : PageID) (page : IndexPage) (parent : BranchPage)
    (left right : List BranchRecord) (old : BranchRecord) : Prop where
  inv : tree.Invariant height layer
  below : level < height
  pageMem : pageId ∈ layer level
  parentMem : detached.parentPageId ∈ layer (level + 1)
  pageEq : tree.pages pageId = some (page.withParent detached.parentPageId)
  parentEq : tree.pages detached.parentPageId = some (.branch parent)
  recordsEq : parent.records = left ++ old :: right
  parentPage : detached.parentPage =
    { parent with
      records := left ++ right
      committedDataLength := parent.committedDataLength - BranchPage.recordLength old }
  pos : detached.posInParent = left.length
  child : old.childPage = pageId
  others : ∀ other, other ≠ pageId → other ≠ detached.parentPageId →
    detached.tree.pages other = tree.pages other
  typeEq : detached.tree.indexType = tree.indexType
  totalEq : detached.tree.totalPageCount = tree.totalPageCount
  rootEq : tree.rootPageId =
    if detached.brParentOld.isNone then detached.parentPageId else detached.tree.rootPageId
  oldEq : ∀ br, detached.brParentOld = some br → br = old
  grown : detached.brParentOld = none →
    (tree.shape.contents level pageId).getLast? = some (old.indexKey tree.indexType)

/-- The second tree has the records of the first one, and the same entries below its root page. -/
structure SameBelow (tree tree' : IndexTree) (height height' : ℕ) (layer layer' : ℕ → List PageID) :
    Prop where
  records : tree'.allRecords layer' = tree.allRecords layer
  typeEq : tree'.indexType = tree.indexType
  heightLe : height ≤ height'
  entries : ∀ lower < height, tree'.entriesTo layer' lower = tree.entriesTo layer lower

section Detach

variable {tree : IndexTree} {height level : ℕ} {layer : ℕ → List PageID} {pageId : PageID}
  {page : IndexPage} {last : BranchRecord}

theorem Invariant.searchRecord_last (inv : tree.Invariant height layer) (below : level < height)
    {parentId : PageID} {key : List Byte} (parentMem : parentId ∈ layer (level + 1))
      {parent : BranchPage}
    (parentEq : tree.pages parentId = some (.branch parent)) {left right : List BranchRecord}
    {old : BranchRecord} (recordsEq : parent.records = left ++ old :: right)
    (stored : key ∈ tree.shape.contents level old.childPage) :
    parent.searchRecord tree.indexType key = left.length := by
  have parentRecords := (branchRecords_of_branchPage? parentEq).1
  have sorted := inv.layered.sorted (level + 1) below parentId parentMem
  rw [Shape.contents_succ, shape_entries, parentRecords, List.map_map] at sorted
  have nonempty : parent.records ≠ [] := by simp [recordsEq]
  rcases BranchPage.searchRecord_spec key nonempty sorted with
    ⟨left', old', right', recordsEq', position, smaller', bound'⟩
  have covers := inv.layered.covers level below
  rcases List.append_of_mem parentMem with ⟨before, behind, layerEq⟩
  have entriesEq := layerEntries_eq parentEq recordsEq layerEq
  rw [entriesEq] at covers
  have smaller : ∀ other ∈ left, other.indexKey tree.indexType < key := by
    intro other mem
    have entryMem : other.entry tree.indexType ∈ tree.shape.layerEntries before ++
        left.map (BranchRecord.entry tree.indexType) :=
      List.mem_append_right _ (List.mem_map_of_mem mem)
    exact (left_bounds covers entryMem).2.2 key stored
  have bound : right ≠ [] → key ≤ old.indexKey tree.indexType := by
    intro notLast
    refine (bounds_of_right covers ?_).1 key stored
    simp [notLast]
  rcases owns_unique (BranchRecord.indexKey tree.indexType) (recordsEq.symm.trans recordsEq')
    smaller bound smaller' bound' with ⟨rfl, -, -⟩
  exact position.symm

theorem Invariant.exists_parent (inv : tree.Invariant height layer)
    (pageEq : tree.pages pageId = some page) (mem : pageId ∈ layer level)
      (levelLe : level ≤ height) :
    (page.parentPageId = none ∧ level = height ∧ pageId = tree.rootPageId) ∨
      ∃ parentId parent left old right, page.parentPageId = some parentId ∧ level < height ∧
        parentId ∈ layer (level + 1) ∧ tree.pages parentId = some (.branch parent) ∧
        parent.records = left ++ old :: right ∧ old.childPage = pageId := by
  rcases Nat.lt_or_eq_of_le levelLe with below | rfl
  · have childMem := mem
    rw [inv.layered.children level below] at childMem
    rcases List.mem_map.mp childMem with ⟨entry, entryMem, rfl⟩
    rcases List.mem_flatMap.mp entryMem with ⟨parentId, parentMem, entryMem⟩
    rw [shape_entries] at entryMem
    rcases List.mem_map.mp entryMem with ⟨old, oldMem, rfl⟩
    rcases inv.branch below parentMem with ⟨parent, parentEq, -, -⟩
    have parentOf := inv.parents parentId old oldMem
    rw [(branchRecords_of_branchPage? parentEq).1] at oldMem
    rcases List.append_of_mem oldMem with ⟨left, right, recordsEq⟩
    have childEq : tree.pages old.childPage = some page := pageEq
    rw [childEq, Option.map_some, Option.some.injEq] at parentOf
    exact Or.inr ⟨parentId, parent, left, old, right, parentOf, below, parentMem, parentEq,
      recordsEq, rfl⟩
  · rw [inv.layered.top, List.mem_singleton] at mem
    have rootParent := inv.rootParent
    rw [← mem, pageEq, Option.map_some, Option.some.injEq] at rootParent
    exact Or.inl ⟨rootParent, rfl, mem⟩

theorem Invariant.detach_spec (inv : tree.Invariant height layer)
    (pageEq : tree.pages pageId = some page) (mem : pageId ∈ layer level) (levelLe : level ≤ height)
    (valid : last.Valid) (child : last.childPage = pageId)
    (isLast : (tree.shape.contents level pageId).getLast? = some (last.indexKey tree.indexType)) :
    ∃ (detached : Detached) (tree' : IndexTree) (height' : ℕ) (layer' : ℕ → List PageID)
      (parent : BranchPage) (left right : List BranchRecord) (old : BranchRecord),
      tree.detach level page.parentPageId (some last) = some detached ∧
        tree'.Attached detached height' level layer' pageId page parent left right old ∧
        SameBelow tree tree' height height' layer layer' ∧
        (detached.brParentOld.isNone = false → height' = height) ∧
        (detached.brParentOld = none → old = last) := by
  rcases inv.exists_parent pageEq mem levelLe with ⟨isRoot, rfl, rfl⟩ |
    ⟨parentId, parent, left, old, right, hasParent, below, parentMem, parentEq, recordsEq, oldChild⟩
  · rcases inv.grow pageEq valid child with ⟨grown, sameRecords⟩
    have notNew : tree.rootPageId ≠ tree.totalPageCount :=
      Nat.ne_of_lt (inv.allocated tree.rootPageId page pageEq)
    have same := records_of_withoutLinks
      (pages_grow_old inv level pageEq last notNew)
    have detachEq : tree.detach level page.parentPageId (some last) =
        some
          { tree := { tree with totalPageCount := tree.totalPageCount + 1 }
            parentPageId := tree.totalPageCount
            parentPage := { pageLevel := level + 1, parentPageId := none, endPage := true }
            brParentOld := none
            posInParent := 0 } := by
      rw [isRoot]
      rfl
    refine ⟨_, tree.grow level page last, level + 1, _, rootAbove level last, [], [],
      last, detachEq,
      ?_, ⟨sameRecords, rfl, Nat.le_succ level, ?_⟩, fun isSome => (by cases isSome),
      fun _ => rfl⟩
    · exact
        { inv := grown
          below := Nat.lt_succ_self level
          pageMem := by
            rw [Function.update_of_ne (Nat.ne_of_lt (Nat.lt_succ_self level))]
            exact mem
          parentMem := by
            rw [Function.update_self]
            exact List.mem_singleton_self _
          pageEq := pages_grow_root inv level pageEq
          parentEq := pages_grow_new tree level page last
          recordsEq := rfl
          parentPage := by simp [rootAbove]
          pos := rfl
          child := child
          others := fun other notPage notNew => (pages_grow_other level notNew notPage).symm
          typeEq := rfl
          totalEq := rfl
          rootEq := rfl
          oldEq := by
            intro br isSome
            cases isSome
          grown := by
            intro _
            rw [(grow_fields tree level page last).1, ← isLast]
            cases level with
            | zero =>
                rw [Shape.contents_zero, Shape.contents_zero, shape_leafKeys,
                  shape_leafKeys, same.1]
                rfl
            | succ lower =>
                rw [Shape.contents_succ, Shape.contents_succ, shape_entries, shape_entries,
                  same.2.1]
                rfl }
    · exact fun lower lowerLt => inv.entriesTo_grow pageEq last lowerLt
  · have position : parent.searchRecord tree.indexType (last.indexKey tree.indexType) =
        left.length := by
      refine inv.searchRecord_last below parentMem parentEq recordsEq ?_
      rw [oldChild]
      exact List.mem_of_getLast? isLast
    have atPosition : parent.records[left.length]? = some old := by
      rw [recordsEq, List.getElem?_append_right le_rfl, Nat.sub_self]
      rfl
    have erased : parent.records.eraseIdx left.length = left ++ right := by
      rw [recordsEq, List.eraseIdx_append_of_length_le le_rfl, Nat.sub_self]
      rfl
    refine ⟨
      { tree := tree
        parentPageId := parentId
        parentPage :=
          { parent with
            records := left ++ right
            committedDataLength := parent.committedDataLength - BranchPage.recordLength old }
        brParentOld := some old
        posInParent := left.length }, tree, height, layer, parent, left, right, old, ?_, ?_,
      ⟨rfl, rfl, le_rfl, fun _ _ => rfl⟩, fun _ => rfl, fun isNone => (by cases isNone)⟩
    · simp [detach, hasParent, branchPage?, parentEq, position, BranchPage.deleteRecord,
        atPosition, erased]
    · exact
        { inv := inv
          below := below
          pageMem := mem
          parentMem := parentMem
          pageEq := by
            rw [pageEq, IndexPage.withParent_of_parent hasParent]
          parentEq := parentEq
          recordsEq := recordsEq
          parentPage := rfl
          pos := rfl
          child := oldChild
          others := fun _ _ _ => rfl
          typeEq := rfl
          totalEq := rfl
          rootEq := rfl
          oldEq := fun br isSome => (Option.some.inj isSome).symm
          grown := by
            intro isNone
            cases isNone }

end Detach

/-!
## The new records of the parent
-/

section Entries

variable {type : IndexType} {entries : List NewEntry} {brParentOld : Option BranchRecord}
  {separator : List Byte}

/-- The record of a part leads to its page, under the key of its last record. -/
structure NewEntry.Good (type : IndexType) (entry : NewEntry) : Prop where
  valid : entry.record.Valid
  key : entry.record.indexKey type = entry.lastKey
  child : entry.record.childPage = entry.pageId

theorem newEntries_spec {α : Type} (indexKey : α → List Byte) (make : α → PageID → BranchRecord)
    (parts : List (PageID × List α)) (nonempty : ∀ part ∈ parts, part.2 ≠ []) :
    ∃ entries, newEntries indexKey make parts = some entries ∧
      entries.map NewEntry.pageId = parts.map Prod.fst ∧
      ∀ entry ∈ entries, ∃ records last, (entry.pageId, records) ∈ parts ∧
        records.getLast? = some last ∧ entry.lastKey = indexKey last ∧
        entry.record = make last entry.pageId := by
  induction parts with
  | nil => exact ⟨[], rfl, rfl, by simp⟩
  | cons part parts ih =>
      rcases ih fun other mem => nonempty other (List.mem_cons_of_mem _ mem) with
        ⟨entries, entriesEq, ids, all⟩
      rcases part with ⟨pageId, records⟩
      have notEmpty := nonempty (pageId, records) List.mem_cons_self
      generalize lastEq : records.getLast notEmpty = last
      have isLast :
        records.getLast? = some last := by rw [← lastEq, List.getLast?_eq_getLast_of_ne_nil]
      refine ⟨⟨pageId, indexKey last, make last pageId⟩ :: entries, ?_, ?_, ?_⟩
      · simp [newEntries, isLast, entriesEq]
      · simp [ids]
      · intro entry mem
        rcases List.mem_cons.mp mem with rfl | mem
        · exact ⟨records, last, List.mem_cons_self, isLast, rfl, rfl⟩
        · rcases all entry mem with ⟨records, last, partMem, rest⟩
          exact ⟨records, last, List.mem_cons_of_mem _ partMem, rest⟩

variable (nonempty : entries ≠ []) (good : ∀ entry ∈ entries, entry.Good type)
  (oldEq : ∀ old, brParentOld = some old → old.Valid ∧ old.indexKey type = separator)
  (grown : brParentOld = none → ∀ last, entries.getLast? = some last → last.lastKey = separator)

include nonempty good oldEq grown

/-- Among the records for the new pages only the last one can have the key of the old record. -/
theorem newRecords_spec :
    ∃ init final finalRecord, entries = init ++ [final] ∧
      newRecords type brParentOld entries = init.map NewEntry.record ++ [finalRecord] ∧
      finalRecord.Valid ∧ finalRecord.childPage = final.pageId ∧
      finalRecord.indexKey type = max separator final.lastKey := by
  induction entries with
  | nil => exact absurd rfl nonempty
  | cons entry rest ih =>
      have entryGood := good entry List.mem_cons_self
      cases rest with
      | nil =>
          cases brParentOld with
          | none =>
              have keyEq := grown rfl entry rfl
              refine ⟨[], entry, entry.record, rfl, rfl, entryGood.valid, entryGood.child, ?_⟩
              rw [entryGood.key, keyEq, max_self]
          | some old =>
              rcases oldEq old rfl with ⟨valid, keyEq⟩
              have compares := Bytes.compares_bytesCompare (old.indexKey type) entry.lastKey
              rw [keyEq] at compares
              by_cases larger : entry.lastKey < separator
              · rcases BranchRecord.ofBranch_spec type valid entry.pageId with
                  ⟨newValid, newKey, newChild⟩
                refine ⟨[], entry, old.ofBranch type entry.pageId, rfl, ?_, newValid, newChild, ?_⟩
                · rw [newRecords, keyEq, if_pos (compares.pos.mpr larger)]
                  rfl
                · rw [newKey, keyEq, max_eq_left (le_of_lt larger)]
              · refine ⟨[], entry, entry.record, rfl, ?_, entryGood.valid, entryGood.child, ?_⟩
                · rw [newRecords, keyEq, if_neg (fun positive => larger (compares.pos.mp positive))]
                  rfl
                · rw [entryGood.key, max_eq_right (le_of_not_gt larger)]
      | cons next rest =>
          rcases ih (List.cons_ne_nil _ _)
            (fun other mem => good other (List.mem_cons_of_mem _ mem))
            (fun isNone last isLast => grown isNone last (by simpa using isLast)) with
            ⟨init, final, finalRecord, entriesEq, recordsEq, finalGood⟩
          refine ⟨entry :: init, final, finalRecord, ?_, ?_, finalGood⟩
          · rw [entriesEq, List.cons_append]
          · rw [newRecords, recordsEq, List.map_cons, List.cons_append]

theorem splitRecords_spec (single : ∀ entry, entries = [entry] → separator ≤ entry.lastKey) :
    ∃ init final finalRecord, entries = init ++ [final] ∧
      splitRecords type brParentOld entries = init.map NewEntry.record ++ [finalRecord] ∧
      finalRecord.Valid ∧ finalRecord.childPage = final.pageId ∧
      finalRecord.indexKey type = max separator final.lastKey := by
  cases entries with
  | nil => exact absurd rfl nonempty
  | cons entry rest =>
      have entryGood := good entry List.mem_cons_self
      cases rest with
      | nil =>
          refine ⟨[], entry, entry.record, rfl, rfl, entryGood.valid, entryGood.child, ?_⟩
          rw [entryGood.key, max_eq_right (single entry rfl)]
      | cons next rest =>
          rcases newRecords_spec (List.cons_ne_nil next rest)
            (fun other mem => good other (List.mem_cons_of_mem _ mem)) oldEq
            (fun isNone last isLast => grown isNone last (by simpa using isLast)) with
            ⟨init, final, finalRecord, entriesEq, recordsEq, finalGood⟩
          refine ⟨entry :: init, final, finalRecord, ?_, ?_, finalGood⟩
          · rw [entriesEq, List.cons_append]
          · rw [splitRecords, recordsEq, List.map_cons, List.cons_append]

theorem splitRecords_entries (single : ∀ entry, entries = [entry] → separator ≤ entry.lastKey)
    {contents : List (List Byte)} {contents' : PageID → List (List Byte)}
    (parts : (entries.map NewEntry.pageId).flatMap contents' = contents)
    (lasts : ∀ entry ∈ entries, (contents' entry.pageId).getLast? = some entry.lastKey) :
    (splitRecords type brParentOld entries).map BranchRecord.childPage =
        entries.map NewEntry.pageId ∧
      (∀ br ∈ splitRecords type brParentOld entries, br.Valid) ∧
      SplitEntries contents contents' separator
        ((splitRecords type brParentOld entries).map (BranchRecord.entry type)) := by
  rcases splitRecords_spec nonempty good oldEq grown single with
    ⟨init, final, finalRecord, rfl, recordsEq, valid, child, key⟩
  have initChildren : (init.map NewEntry.record).map BranchRecord.childPage =
      init.map NewEntry.pageId := by
    rw [List.map_map]
    exact List.map_congr_left fun entry mem => (good entry (List.mem_append_left _ mem)).child
  have children : (splitRecords type brParentOld (init ++ [final])).map BranchRecord.childPage =
      (init ++ [final]).map NewEntry.pageId := by
    rw [recordsEq, List.map_append, List.map_append, initChildren, List.map_singleton,
      List.map_singleton, child]
  refine ⟨children, ?_, ?_, ?_⟩
  · intro br mem
    rw [recordsEq, List.mem_append, List.mem_singleton] at mem
    rcases mem with mem | rfl
    · rcases List.mem_map.mp mem with ⟨entry, entryMem, rfl⟩
      exact (good entry (List.mem_append_left _ entryMem)).valid
    · exact valid
  · rw [← parts, ← children, List.flatMap_map, List.flatMap_map]
    rfl
  · refine ⟨(init.map NewEntry.record).map (BranchRecord.entry type), finalRecord.entry type,
      final.lastKey, ?_, ?_, ?_, key⟩
    · rw [recordsEq, List.map_append, List.map_singleton]
    · intro entry mem
      rw [List.map_map] at mem
      rcases List.mem_map.mp mem with ⟨new, newMem, rfl⟩
      have newGood := good new (List.mem_append_left _ newMem)
      have isLast := lasts new (List.mem_append_left _ newMem)
      rw [← newGood.child, ← newGood.key] at isLast
      exact isLast
    · have isLast := lasts final (List.mem_append_right _ (List.mem_singleton_self _))
      rw [← child] at isLast
      exact isLast

end Entries

/-!
## Splitting below a known parent
-/

section SetPages

variable {tree : IndexTree} {pages : List (PageID × IndexPage)} {pageId : PageID}

theorem setPages_fields (tree : IndexTree) (pages : List (PageID × IndexPage)) :
    (tree.setPages pages).indexType = tree.indexType ∧
      (tree.setPages pages).rootPageId = tree.rootPageId ∧
      (tree.setPages pages).totalPageCount = tree.totalPageCount := by
  induction pages generalizing tree with
  | nil => exact ⟨rfl, rfl, rfl⟩
  | cons page pages ih => exact ih (tree.setPage page.1 page.2)

theorem pages_setPages_of_not_mem (notMem : pageId ∉ pages.map Prod.fst) :
    (tree.setPages pages).pages pageId = tree.pages pageId := by
  induction pages generalizing tree with
  | nil => rfl
  | cons page pages ih =>
      rw [List.map_cons, List.mem_cons, not_or] at notMem
      exact (ih notMem.2).trans (pages_setPage_of_ne notMem.1)

theorem pages_setPages_of_mem (nodup : (pages.map Prod.fst).Nodup) {page : IndexPage}
    (mem : (pageId, page) ∈ pages) : (tree.setPages pages).pages pageId = some page := by
  induction pages generalizing tree with
  | nil => cases mem
  | cons first pages ih =>
      rw [List.map_cons, List.nodup_cons] at nodup
      rcases List.mem_cons.mp mem with rfl | mem
      · exact (pages_setPages_of_not_mem nodup.1).trans pages_setPage_self
      · exact ih nodup.2 mem

end SetPages

section Attached

variable {tree tree' : IndexTree} {detached : Detached} {height level : ℕ}
  {layer : ℕ → List PageID} {pageId : PageID} {page : IndexPage} {parent : BranchPage}
  {left right : List BranchRecord} {old : BranchRecord} {fresh : List PageID}
  {parts : List (PageID × IndexPage)} {entries : List NewEntry}

theorem contents_parts (lower : ℕ) {type : IndexType} (typeEq : tree.indexType = type)
    (typeEq' : tree'.indexType = type) (pageEq : tree.pages pageId = some page)
    (partPages : ∀ part ∈ parts, tree'.pages part.1 = some part.2)
    (leafRecords : (parts.flatMap fun part => part.2.records.1).map LeafRecord.inPage =
      page.records.1.map LeafRecord.inPage)
    (branchRecords : (parts.flatMap fun part => part.2.records.2) = page.records.2) :
    (parts.map Prod.fst).flatMap (tree'.shape.contents lower) =
      tree.shape.contents lower pageId := by
  have sameKeys : ∀ records : List LeafRecord, (records.map LeafRecord.inPage).map
      (LeafRecord.indexKey type) = records.map (LeafRecord.indexKey type) := by
    intro records
    simp [Function.comp_def]
  rw [List.flatMap_map]
  cases lower with
  | zero =>
      have partKeys : ∀ part ∈ parts, tree'.shape.contents 0 part.1 =
          part.2.records.1.map (LeafRecord.indexKey type) := by
        intro part mem
        rw [Shape.contents_zero, shape_leafKeys, IndexTree.leafRecords, partPages part mem, typeEq']
        rfl
      rw [List.flatMap_congr partKeys, ← List.map_flatMap, ← sameKeys, leafRecords, sameKeys,
        Shape.contents_zero, shape_leafKeys, IndexTree.leafRecords, pageEq, typeEq]
      rfl
  | succ lower =>
      have partKeys : ∀ part ∈ parts, tree'.shape.contents (lower + 1) part.1 =
          part.2.records.2.map (BranchRecord.indexKey type) := by
        intro part mem
        rw [Shape.contents_succ, shape_entries, IndexTree.branchRecords,
          partPages part mem, typeEq', List.map_map]
        rfl
      rw [List.flatMap_congr partKeys, ← List.map_flatMap, branchRecords, Shape.contents_succ,
        shape_entries, IndexTree.branchRecords, pageEq, typeEq, List.map_map]
      rfl

variable (attached : tree.Attached detached height level layer pageId page parent left right old)

include attached

theorem Attached.fresh_spec {num : ℕ} (freshEq : List.range' tree.totalPageCount num = fresh) :
    detached.tree.newPageIds num = fresh ∧ fresh.length = num ∧ fresh.Nodup ∧
      (∀ new ∈ fresh, tree.pages new = none) ∧ pageId ∉ fresh ∧ detached.parentPageId ∉ fresh := by
  have unused : ∀ new ∈ fresh, tree.pages new = none := by
    intro new isFresh
    rw [← freshEq, List.mem_range'_1] at isFresh
    cases newEq : tree.pages new with
    | none => rfl
    | some page => exact absurd (attached.inv.allocated new page newEq) (Nat.not_lt.mpr isFresh.1)
  refine ⟨?_, ?_, ?_, unused, ?_, ?_⟩
  · rw [newPageIds, attached.totalEq, freshEq]
  · rw [← freshEq, List.length_range']
  · rw [← freshEq]
    exact List.nodup_range'
  · intro isFresh
    have pageEq := attached.pageEq
    rw [unused pageId isFresh] at pageEq
    cases pageEq
  · intro isFresh
    have parentEq := attached.parentEq
    rw [unused _ isFresh] at parentEq
    cases parentEq

theorem Attached.parent_ne : detached.parentPageId ≠ pageId := by
  intro same
  have parentMem := attached.parentMem
  rw [same] at parentMem
  exact Nat.succ_ne_self level (attached.inv.layered.apart (level + 1) attached.below level
    (le_of_lt attached.below) pageId parentMem attached.pageMem)

theorem Attached.child_other {num : ℕ} (freshEq : List.range' tree.totalPageCount num = fresh)
    {br : BranchRecord} (mem : br ∈ page.records.2) :
    br.childPage ∉ pageId :: fresh ∧ br.childPage ≠ detached.parentPageId ∧
      (tree.pages br.childPage).isSome := by
  have inv := attached.inv
  have unused := (attached.fresh_spec freshEq).2.2.2.1
  have pageRecords : tree.branchRecords pageId = page.records.2 := by
    rw [IndexTree.branchRecords, attached.pageEq, Option.map_some,
      (IndexPage.withParent_fields _ _).2.2.2.1]
    rfl
  rw [← pageRecords] at mem
  rcases inv.child_mem mem with ⟨lower, lowerLt, upperMem, childMem⟩
  have lowerLe := le_of_lt lowerLt
  have levelLe := le_of_lt attached.below
  have levelEq := inv.layered.apart (lower + 1) lowerLt level levelLe pageId upperMem
    attached.pageMem
  rcases inv.plain lower lowerLe br.childPage childMem with ⟨child, childEq, -⟩
  refine ⟨?_, ?_, ?_⟩
  · intro isPart
    rcases List.mem_cons.mp isPart with isPage | isFresh
    · have same := inv.layered.apart lower lowerLe level levelLe br.childPage childMem
        (isPage ▸ attached.pageMem)
      omega
    · rw [unused _ isFresh] at childEq
      cases childEq
  · intro isParent
    have same := inv.layered.apart lower lowerLe (level + 1) attached.below br.childPage childMem
      (isParent ▸ attached.parentMem)
    omega
  · rw [childEq]
    rfl

/-- The parent gets the records of the parts in place of the old one. -/
theorem Attached.parent_spec {news : List BranchRecord} (valid : ∀ br ∈ news, br.Valid) :
    (detached.parentPage.insertRecords news detached.posInParent).records =
        left ++ (news ++ right) ∧
      (detached.parentPage.insertRecords news detached.posInParent).Plain ∧
      (detached.parentPage.insertRecords news detached.posInParent).pageLevel = parent.pageLevel ∧
      (detached.parentPage.insertRecords news detached.posInParent).parentPageId =
        parent.parentPageId ∧
      (detached.parentPage.insertRecords news detached.posInParent).endPage = parent.endPage := by
  rcases attached.inv.branch attached.below attached.parentMem with ⟨same, sameEq, -, plain⟩
  rw [attached.parentEq, Option.some.injEq, IndexPage.branch.injEq] at sameEq
  subst sameEq
  have oldRecords : ∀ br ∈ left ++ right, br.Valid := by
    intro br mem
    refine plain.records br ?_
    rw [attached.recordsEq]
    simp only [List.mem_append, List.mem_cons] at mem ⊢
    tauto
  have committed := plain.committed
  rw [attached.recordsEq] at committed
  have recordsEq : (detached.parentPage.insertRecords news detached.posInParent).records =
      left ++ (news ++ right) := by
    have posLe : detached.posInParent ≤ detached.parentPage.records.length := by
      rw [attached.pos, attached.parentPage, List.length_append]
      exact Nat.le_add_right _ _
    rw [BranchPage.records_insertRecords _ _ posLe, attached.pos, attached.parentPage,
      List.take_left, List.drop_left]
  rcases BranchPage.insertRecords_fields detached.parentPage news detached.posInParent with
    ⟨levelEq, parentEq, endEq⟩
  refine ⟨recordsEq, ⟨?_, ?_⟩, ?_, ?_, ?_⟩
  · intro br mem
    rw [recordsEq] at mem
    simp only [List.mem_append] at mem oldRecords
    rcases mem with mem | mem | mem
    · exact oldRecords br (Or.inl mem)
    · exact valid br mem
    · exact oldRecords br (Or.inr mem)
  · rw [BranchPage.committedDataLength_insertRecords, recordsEq, attached.parentPage]
    simp only [Segments.total_append, Segments.total_cons, Nat.cast_add] at committed ⊢
    omega
  · rw [levelEq, attached.parentPage]
  · rw [parentEq, attached.parentPage]
  · rw [endEq, attached.parentPage]

/-- What `SplitPage` has to do with the page and the tree, once its parent is known. -/
theorem Attached.splitInto (typeEq : tree'.indexType = tree.indexType)
    (rootEq : tree'.rootPageId = tree.rootPageId)
    (totalEq : tree'.totalPageCount = tree.totalPageCount + fresh.length)
    (freshEq : fresh = List.range' tree.totalPageCount fresh.length)
    (parentNew : tree'.pages detached.parentPageId =
      some (.branch (detached.parentPage.insertRecords
        (splitRecords tree.indexType detached.brParentOld entries) detached.posInParent)))
    (ids : parts.map Prod.fst = pageId :: fresh)
    (entryIds : entries.map NewEntry.pageId = pageId :: fresh)
    (good : ∀ entry ∈ entries, entry.Good tree.indexType)
    (lasts : ∀ entry ∈ entries,
      (tree'.shape.contents level entry.pageId).getLast? = some entry.lastKey)
    (single : ∀ entry, entries = [entry] → old.indexKey tree.indexType ≤ entry.lastKey)
    (partPages : ∀ part ∈ parts, tree'.pages part.1 = some part.2 ∧
      part.2.Plain tree.indexType level ∧ part.2.parentPageId = some detached.parentPageId)
    (leafRecords : (parts.flatMap fun part => part.2.records.1).map LeafRecord.inPage =
      page.records.1.map LeafRecord.inPage)
    (branchRecords : (parts.flatMap fun part => part.2.records.2) = page.records.2)
    (ends : ∀ before part behind, parts = before ++ part :: behind →
      part.2.endPage = (behind.isEmpty && page.endPage))
    (links : ∀ before part behind, parts = before ++ part :: behind → level = 0 →
      part.2.nextPageId = (behind.head?.map Prod.fst).or page.nextPageId)
    (others : ∀ other, other ∉ pageId :: fresh → other ≠ detached.parentPageId →
      (tree'.pages other).map IndexPage.withoutLinks =
        (tree.pages other).map IndexPage.withoutLinks)
    (adopted : ∀ part ∈ parts.tail, ∀ br ∈ part.2.records.2,
      (tree'.pages br.childPage).map IndexPage.parentPageId = some (some part.1))
    (notAdopted : ∀ other, other ∉ pageId :: fresh → other ≠ detached.parentPageId →
      (∀ part ∈ parts.tail, ∀ br ∈ part.2.records.2, br.childPage ≠ other) →
      (tree'.pages other).map IndexPage.parentPageId =
        (tree.pages other).map IndexPage.parentPageId) :
    SplitInto tree tree' level detached.parentPageId pageId
      (page.withParent detached.parentPageId) parent
      (detached.parentPage.insertRecords
        (splitRecords tree.indexType detached.brParentOld entries) detached.posInParent)
      left right (splitRecords tree.indexType detached.brParentOld entries) old fresh parts := by
  rcases IndexPage.withParent_fields detached.parentPageId page with
    ⟨-, endEq, nextEq, recordsEq, -⟩
  rw [← recordsEq] at leafRecords branchRecords
  simp only [← endEq] at ends
  simp only [← nextEq] at links
  have contents := contents_parts level rfl typeEq attached.pageEq
    (fun part mem => (partPages part mem).1) leafRecords branchRecords
  rw [ids, ← entryIds] at contents
  have nonempty : entries ≠ [] := by
    rintro rfl
    cases entryIds
  rcases attached.inv.branch attached.below attached.parentMem with ⟨same, sameEq, -, plain⟩
  rw [attached.parentEq, Option.some.injEq, IndexPage.branch.injEq] at sameEq
  subst sameEq
  have oldValid : old.Valid := by
    refine plain.records old ?_
    rw [attached.recordsEq]
    simp
  have grown : detached.brParentOld = none → ∀ last, entries.getLast? = some last →
      last.lastKey = old.indexKey tree.indexType := by
    intro isNone last isLast
    rcases List.getLast?_eq_some_iff.mp isLast with ⟨init, rfl⟩
    have lastKey := lasts last (List.mem_append_right _ (List.mem_singleton_self _))
    have pageLast := attached.grown isNone
    rw [← contents, List.map_append, List.flatMap_append, List.map_singleton,
      List.flatMap_singleton, List.getLast?_append, lastKey] at pageLast
    exact Option.some.inj pageLast
  rcases splitRecords_entries nonempty good
    (fun br isOld => by
      rw [attached.oldEq br isOld]
      exact ⟨oldValid, rfl⟩)
    grown single contents lasts with
    ⟨children, valid, split⟩
  rcases attached.parent_spec valid with ⟨parentRecords, parentPlain, sameLevel,
    sameParent, sameEnd⟩
  exact
    { typeEq := typeEq
      rootEq := rootEq
      totalEq := totalEq
      freshEq := freshEq
      pageEq := attached.pageEq
      parentOld := attached.parentEq
      parentNew := parentNew
      parentSame := ⟨sameLevel, sameParent, sameEnd⟩
      parentPlain := parentPlain
      recordsOld := attached.recordsEq
      recordsNew := parentRecords
      child := attached.child
      children := children.trans entryIds
      ids := ids
      partPages := partPages
      leafRecords := leafRecords
      branchRecords := branchRecords
      ends := ends
      links := links
      split := split
      others := others
      adopted := adopted
      notAdopted := notAdopted }

end Attached

end IndexTree

end RapidDb
