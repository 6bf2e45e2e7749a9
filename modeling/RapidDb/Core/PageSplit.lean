import RapidDb.Core.TreeInvariant

/-!
# Splitting a page of an index tree

When a page is split its records go to the page itself and to new pages, and its record in the
parent page is replaced by one for each of them. The end mark moves to the last of these pages,
the new pages are linked behind the old one, and the children of new branch pages get their new
parent.

The parent of the page must be known here. A page without a parent is split as if the new root
page had been there before.
-/

namespace RapidDb

open SeparatorTree

namespace IndexPage

/-- A page without the links that the split of another page changes. -/
def withoutLinks : IndexPage → IndexPage
  | leaf page => leaf { page with parentPageId := none, prevPageId := none }
  | branch page => branch { page with parentPageId := none }

section WithoutLinks

variable {page page' : IndexPage}

theorem eq_of_withoutLinks (same : page'.withoutLinks = page.withoutLinks) :
    page'.records = page.records ∧ page'.endPage = page.endPage ∧
      page'.nextPageId = page.nextPageId := by
  cases page <;> cases page' <;> simp only [withoutLinks, leaf.injEq, branch.injEq,
    LeafPage.mk.injEq, BranchPage.mk.injEq, reduceCtorEq] at same
  · exact ⟨by rw [records, records, same.1], same.2.2.2.2.1, same.2.2.2.1⟩
  · exact ⟨by rw [records, records, same.2.1], same.2.2.2.1, rfl⟩

theorem plain_of_withoutLinks {type : IndexType} {level : ℕ}
    (same : page'.withoutLinks = page.withoutLinks) (plain : page.Plain type level) :
    page'.Plain type level := by
  cases page <;> cases page' <;> simp only [withoutLinks, leaf.injEq, branch.injEq,
    LeafPage.mk.injEq, BranchPage.mk.injEq, reduceCtorEq] at same
  · rcases same with ⟨records, -, -, -, -, committed, temp⟩
    rcases plain with ⟨isLeaf, plain⟩
    refine ⟨isLeaf, ?_, ?_, ?_⟩
    · rw [records]
      exact plain.records
    · rw [committed, records]
      exact plain.committed
    · rw [temp, records]
      exact plain.temp
  · rcases same with ⟨pageLevel, records, -, -, committed⟩
    rcases plain with ⟨notLeaf, levelEq, plain⟩
    refine ⟨notLeaf, pageLevel.trans levelEq, ?_, ?_⟩
    · rw [records]
      exact plain.records
    · rw [committed, records]
      exact plain.committed

end WithoutLinks

end IndexPage

namespace IndexTree

theorem records_of_withoutLinks {tree tree' : IndexTree} {other : PageID}
    (same : (tree'.pages other).map IndexPage.withoutLinks =
      (tree.pages other).map IndexPage.withoutLinks) :
    tree'.leafRecords other = tree.leafRecords other ∧
      tree'.branchRecords other = tree.branchRecords other ∧
      (tree'.pages other).map IndexPage.endPage = (tree.pages other).map IndexPage.endPage ∧
      (tree'.pages other).map IndexPage.nextPageId =
        (tree.pages other).map IndexPage.nextPageId := by
  rw [leafRecords, leafRecords, branchRecords, branchRecords]
  cases oldEq : tree.pages other with
  | none =>
      rw [oldEq, Option.map_none, Option.map_eq_none_iff] at same
      rw [same]
      exact ⟨rfl, rfl, rfl, rfl⟩
  | some page =>
      rw [oldEq, Option.map_some, Option.map_eq_some_iff] at same
      rcases same with ⟨page', newEq, sameLinks⟩
      rcases IndexPage.eq_of_withoutLinks sameLinks with ⟨sameRecords, sameEnd, sameNext⟩
      simp [newEq, sameRecords, sameEnd, sameNext]

/-- `tree'` is `tree` after a page has been split into parts. The first part is the page itself,
the others are new pages. -/
structure SplitInto (tree tree' : IndexTree) (level : ℕ) (parentId pageId : PageID)
    (page : IndexPage) (parent parent' : BranchPage) (left right news : List BranchRecord)
    (old : BranchRecord) (fresh : List PageID) (parts : List (PageID × IndexPage)) : Prop where
  typeEq : tree'.indexType = tree.indexType
  rootEq : tree'.rootPageId = tree.rootPageId
  totalEq : tree'.totalPageCount = tree.totalPageCount + fresh.length
  freshEq : fresh = List.range' tree.totalPageCount fresh.length
  pageEq : tree.pages pageId = some page
  parentOld : tree.pages parentId = some (.branch parent)
  parentNew : tree'.pages parentId = some (.branch parent')
  parentSame : parent'.pageLevel = parent.pageLevel ∧ parent'.parentPageId = parent.parentPageId ∧
    parent'.endPage = parent.endPage
  parentPlain : parent'.Plain
  recordsOld : parent.records = left ++ old :: right
  recordsNew : parent'.records = left ++ (news ++ right)
  child : old.childPage = pageId
  children : news.map BranchRecord.childPage = pageId :: fresh
  ids : parts.map Prod.fst = pageId :: fresh
  partPages : ∀ part ∈ parts, tree'.pages part.1 = some part.2 ∧
    part.2.Plain tree.indexType level ∧ part.2.parentPageId = some parentId
  leafRecords : (parts.flatMap fun part => part.2.records.1).map LeafRecord.inPage =
    page.records.1.map LeafRecord.inPage
  branchRecords : (parts.flatMap fun part => part.2.records.2) = page.records.2
  ends : ∀ before part behind, parts = before ++ part :: behind →
    part.2.endPage = (behind.isEmpty && page.endPage)
  links : ∀ before part behind, parts = before ++ part :: behind → level = 0 →
    part.2.nextPageId = (behind.head?.map Prod.fst).or page.nextPageId
  split : SplitEntries (tree.shape.contents level pageId) (tree'.shape.contents level)
    (old.indexKey tree.indexType) (news.map (BranchRecord.entry tree.indexType))
  others : ∀ other, other ∉ pageId :: fresh → other ≠ parentId →
    (tree'.pages other).map IndexPage.withoutLinks = (tree.pages other).map IndexPage.withoutLinks
  adopted : ∀ part ∈ parts.tail, ∀ br ∈ part.2.records.2,
    (tree'.pages br.childPage).map IndexPage.parentPageId = some (some part.1)
  notAdopted : ∀ other, other ∉ pageId :: fresh → other ≠ parentId →
    (∀ part ∈ parts.tail, ∀ br ∈ part.2.records.2, br.childPage ≠ other) →
    (tree'.pages other).map IndexPage.parentPageId = (tree.pages other).map IndexPage.parentPageId

section SplitInto

variable {tree tree' : IndexTree} {height level : ℕ} {layer : ℕ → List PageID}
  {parentId pageId : PageID} {page : IndexPage} {parent parent' : BranchPage}
  {left right news : List BranchRecord} {old : BranchRecord} {fresh : List PageID}
  {parts : List (PageID × IndexPage)}

theorem Invariant.child_mem (inv : tree.Invariant height layer) {br : BranchRecord}
    {other : PageID} (mem : br ∈ tree.branchRecords other) :
    ∃ lower, lower < height ∧ other ∈ layer (lower + 1) ∧ br.childPage ∈ layer lower := by
  cases pageEq : tree.pages other with
  | none => simp [IndexTree.branchRecords, pageEq] at mem
  | some page =>
      rcases inv.level_of_page pageEq with ⟨level, levelLe, layerMem, plain⟩
      cases page with
      | leaf page =>
          rw [(leafRecords_of_leafPage? pageEq).2] at mem
          cases mem
      | branch page =>
          cases level with
          | zero => exact absurd rfl plain.1
          | succ lower =>
              refine ⟨lower, levelLe, layerMem, ?_⟩
              rw [inv.layered.children lower levelLe]
              refine List.mem_map.mpr ⟨br.entry tree.indexType, ?_, rfl⟩
              exact List.mem_flatMap.mpr ⟨other, layerMem, List.mem_map_of_mem mem⟩

theorem Invariant.children_nodup (inv : tree.Invariant height layer) (other : PageID) :
    ((tree.branchRecords other).map BranchRecord.childPage).Nodup := by
  rcases Option.eq_none_or_eq_some (tree.branchRecords other).head? with empty | ⟨br, isHead⟩
  · rw [List.head?_eq_none_iff.mp empty]
    exact List.nodup_nil
  · rcases inv.child_mem (List.mem_of_head? isHead) with ⟨lower, lowerLt, layerMem, -⟩
    have nodup := inv.layered.nodup lower (le_of_lt lowerLt)
    rcases List.append_of_mem layerMem with ⟨before, behind, layerEq⟩
    rw [inv.layered.children lower lowerLt, layerEq] at nodup
    simp only [Shape.layerEntries, List.flatMap_append, List.flatMap_cons, List.map_append,
      shape_entries, List.map_map] at nodup
    exact (List.nodup_append.mp (List.nodup_append.mp nodup).2.1).1

section

variable
  (split : SplitInto tree tree' level parentId pageId page parent parent' left right news old fresh
    parts)
  (inv : tree.Invariant height layer) (below : level < height)
  (parentMem : parentId ∈ layer (level + 1))

include split

theorem SplitInto.other_page {other : PageID} (notPart : other ∉ pageId :: fresh)
    (notParent : other ≠ parentId) :
    tree'.leafRecords other = tree.leafRecords other ∧
      tree'.branchRecords other = tree.branchRecords other ∧
      (tree'.pages other).map IndexPage.endPage = (tree.pages other).map IndexPage.endPage ∧
      (tree'.pages other).map IndexPage.nextPageId =
        (tree.pages other).map IndexPage.nextPageId :=
  records_of_withoutLinks (split.others other notPart notParent)

theorem SplitInto.page_records :
    tree.leafRecords pageId = page.records.1 ∧ tree.branchRecords pageId = page.records.2 := by
  rw [IndexTree.leafRecords, IndexTree.branchRecords, split.pageEq]
  exact ⟨rfl, rfl⟩

theorem SplitInto.part_records {part : PageID × IndexPage} (mem : part ∈ parts) :
    tree'.leafRecords part.1 = part.2.records.1 ∧
      tree'.branchRecords part.1 = part.2.records.2 := by
  rw [IndexTree.leafRecords, IndexTree.branchRecords, (split.partPages part mem).1]
  exact ⟨rfl, rfl⟩

theorem SplitInto.flatMap_records :
    ((pageId :: fresh).flatMap tree'.leafRecords).map LeafRecord.inPage =
        page.records.1.map LeafRecord.inPage ∧
      (pageId :: fresh).flatMap tree'.branchRecords = page.records.2 := by
  rw [← split.ids, List.flatMap_map, List.flatMap_map, ← split.leafRecords, ← split.branchRecords]
  constructor
  · exact congrArg _ (List.flatMap_congr fun part mem => (split.part_records mem).1)
  · exact List.flatMap_congr fun part mem => (split.part_records mem).2

theorem SplitInto.page_cases (other : PageID) :
    (∃ part ∈ parts, part.1 = other) ∨ other = parentId ∨
      other ∉ pageId :: fresh ∧ other ≠ parentId := by
  by_cases isPart : other ∈ pageId :: fresh
  · rw [← split.ids] at isPart
    exact Or.inl (List.mem_map.mp isPart)
  · by_cases isParent : other = parentId
    · exact Or.inr (Or.inl isParent)
    · exact Or.inr (Or.inr ⟨isPart, isParent⟩)

theorem SplitInto.exists_page {other : PageID} {page' : IndexPage}
    (pageEq : tree'.pages other = some page') :
    other ∈ fresh ∨ ∃ page, tree.pages other = some page := by
  rcases split.page_cases other with ⟨part, mem, rfl⟩ | rfl | ⟨notPart, notParent⟩
  · have isPart : part.1 ∈ pageId :: fresh := by
      rw [← split.ids]
      exact List.mem_map_of_mem mem
    rcases List.mem_cons.mp isPart with isPage | isFresh
    · exact Or.inr ⟨page, isPage ▸ split.pageEq⟩
    · exact Or.inl isFresh
  · exact Or.inr ⟨_, split.parentOld⟩
  · have same := congrArg Option.isSome (split.others other notPart notParent)
    rw [Option.isSome_map, Option.isSome_map, pageEq] at same
    exact Or.inr (Option.isSome_iff_exists.mp same.symm)

theorem SplitInto.tail_mem {part : PageID × IndexPage} (mem : part ∈ parts) {br : BranchRecord}
    (brMem : br ∈ part.2.records.2) : br ∈ tree.branchRecords pageId := by
  rw [split.page_records.2, ← split.branchRecords]
  exact List.mem_flatMap.mpr ⟨part, mem, brMem⟩

include inv

theorem SplitInto.fresh_unallocated {new : PageID}
    (isFresh : new ∈ fresh) : tree.pages new = none := by
  rw [split.freshEq, List.mem_range'_1] at isFresh
  cases pageEq : tree.pages new with
  | none => rfl
  | some page =>
      exact absurd (inv.allocated new page pageEq) (Nat.not_lt.mpr isFresh.1)

theorem SplitInto.kept_parent {other : PageID} (notPart : other ∉ pageId :: fresh)
    (notChild : (tree.pages other).map IndexPage.parentPageId ≠ some (some pageId)) :
    (tree'.pages other).map IndexPage.parentPageId =
      (tree.pages other).map IndexPage.parentPageId := by
  by_cases isParent : other = parentId
  · rw [isParent, split.parentOld, split.parentNew]
    exact congrArg some split.parentSame.2.1
  · refine split.notAdopted other notPart isParent ?_
    rintro part partMem br brMem rfl
    exact notChild (inv.parents pageId br (split.tail_mem (List.mem_of_mem_tail partMem) brMem))

include below parentMem

theorem SplitInto.pageSplit :
    PageSplit tree.shape tree'.shape height layer level parentId pageId fresh
      (old.indexKey tree.indexType) (left.map (BranchRecord.entry tree.indexType))
      (right.map (BranchRecord.entry tree.indexType))
      (news.map (BranchRecord.entry tree.indexType)) where
  below := below
  parentMem := parentMem
  parentOld := by
    rw [shape_entries, (branchRecords_of_branchPage? split.parentOld).1, split.recordsOld,
      List.map_append, List.map_cons, ← split.child]
    rfl
  parentNew := by
    rw [shape_entries, (branchRecords_of_branchPage? split.parentNew).1, split.recordsNew,
      List.map_append, List.map_append, split.typeEq]
  pages := by
    rw [List.map_map, ← split.children]
    rfl
  freshNodup := by
    rw [split.freshEq]
    exact List.nodup_range'
  freshNew := by
    intro new isFresh other otherLe mem
    rcases inv.plain other otherLe new mem with ⟨page, pageEq, -⟩
    rw [split.fresh_unallocated inv isFresh] at pageEq
    cases pageEq
  split := split.split
  children := by
    intro positive
    rw [Shape.layerEntries, shape_entries, split.page_records.2, ← split.flatMap_records.2,
      List.map_flatMap, ← split.typeEq]
    rfl
  leafFrame := by
    intro other notPage notFresh
    have notPart : other ∉ pageId :: fresh := by simp [notPage, notFresh]
    rw [shape_leafKeys, shape_leafKeys, split.typeEq]
    by_cases isParent : other = parentId
    · rw [isParent, (branchRecords_of_branchPage? split.parentOld).2,
        (branchRecords_of_branchPage? split.parentNew).2]
    · rw [(split.other_page notPart isParent).1]
  frame := by
    intro other notPage notParent notFresh
    have notPart : other ∉ pageId :: fresh := by simp [notPage, notFresh]
    rw [shape_entries, shape_entries, split.typeEq, (split.other_page notPart notParent).2.1]

theorem SplitInto.parent_not_part : parentId ∉ pageId :: fresh := by
  have pageSplit := split.pageSplit inv below parentMem
  intro mem
  rcases List.mem_cons.mp mem with isPage | isFresh
  · exact pageSplit.ne_page inv.layered below parentMem (Nat.succ_ne_self level) isPage
  · exact pageSplit.freshNew parentId isFresh (level + 1) below parentMem

theorem SplitInto.plain {other : ℕ} {x : PageID} (otherLe : other ≤ height)
    (mem : x ∈ layer other ∨ other = level ∧ x ∈ fresh) :
    ∃ page, tree'.pages x = some page ∧ page.Plain tree'.indexType other := by
  rw [split.typeEq]
  rcases split.page_cases x with ⟨part, partMem, rfl⟩ | rfl | ⟨notPart, notParent⟩
  · have levelEq : other = level := by
      rcases mem with old | ⟨levelEq, -⟩
      · have isPart : part.1 ∈ pageId :: fresh := by
          rw [← split.ids]
          exact List.mem_map_of_mem partMem
        have pageSplit := split.pageSplit inv below parentMem
        rcases List.mem_cons.mp isPart with isPage | isFresh
        · rw [isPage] at old
          exact inv.layered.apart other otherLe level (le_of_lt below) pageId old
            (pageSplit.pageMem inv.layered)
        · exact absurd old (pageSplit.freshNew part.1 isFresh other otherLe)
      · exact levelEq
    rcases split.partPages part partMem with ⟨pageEq, plain, -⟩
    exact ⟨part.2, pageEq, levelEq ▸ plain⟩
  · have notPart := split.parent_not_part inv below parentMem
    have old : x ∈ layer other := by
      refine mem.resolve_right fun isFresh => notPart ?_
      exact List.mem_cons_of_mem _ isFresh.2
    rcases inv.plain other otherLe x old with ⟨page, pageEq, plain⟩
    rw [split.parentOld] at pageEq
    cases pageEq
    exact ⟨_, split.parentNew, plain.1, split.parentSame.1.trans plain.2.1, split.parentPlain⟩
  · have old : x ∈ layer other := by
      refine mem.resolve_right fun isFresh => notPart ?_
      exact List.mem_cons_of_mem _ isFresh.2
    rcases inv.plain other otherLe x old with ⟨page, pageEq, plain⟩
    have same := split.others x notPart notParent
    rw [pageEq, Option.map_some, Option.map_eq_some_iff] at same
    rcases same with ⟨page', newEq, sameLinks⟩
    exact ⟨page', newEq, IndexPage.plain_of_withoutLinks sameLinks plain⟩

theorem SplitInto.parents (other : PageID) (br : BranchRecord)
    (mem : br ∈ tree'.branchRecords other) :
    (tree'.pages br.childPage).map IndexPage.parentPageId = some (some other) := by
  have pageSplit := split.pageSplit inv below parentMem
  have pageMem := pageSplit.pageMem inv.layered
  have notSame : parentId ≠ pageId :=
    pageSplit.ne_page inv.layered below parentMem (Nat.succ_ne_self level)
  have parentRecords := (branchRecords_of_branchPage? split.parentOld).1
  have oldMem : old ∈ tree.branchRecords parentId := by
    rw [parentRecords, split.recordsOld]
    exact List.mem_append_right _ List.mem_cons_self
  have pageParent := inv.parents parentId old oldMem
  rw [split.child] at pageParent
  -- a child in the old tree is not one of the new pages
  have notFresh : ∀ parent, ∀ br ∈ tree.branchRecords parent, br.childPage ∉ fresh := by
    intro parent br mem isFresh
    rcases inv.child_mem mem with ⟨lower, lowerLt, -, childMem⟩
    exact pageSplit.freshNew br.childPage isFresh lower (le_of_lt lowerLt) childMem
  rcases split.page_cases other with ⟨part, partMem, rfl⟩ | rfl | ⟨notPart, notParent⟩
  · rw [(split.part_records partMem).2] at mem
    cases partsEq : parts with
    | nil =>
        rw [partsEq] at partMem
        cases partMem
    | cons head rest =>
        have headId : head.1 = pageId := by
          have ids := split.ids
          rw [partsEq] at ids
          exact (List.cons.inj ids).1
        have inTail : parts.tail = rest := by rw [partsEq, List.tail_cons]
        rw [partsEq, List.mem_cons] at partMem
        rcases partMem with rfl | partMem
        · have oldRecord : br ∈ tree.branchRecords pageId :=
            split.tail_mem (partsEq ▸ List.mem_cons_self) mem
          rcases inv.child_mem oldRecord with ⟨lower, lowerLt, upperMem, childMem⟩
          have levelEq := inv.layered.apart (lower + 1) lowerLt level (le_of_lt below) pageId
            upperMem pageMem
          have lowerLe := le_of_lt lowerLt
          have notPart : br.childPage ∉ pageId :: fresh := by
            intro isPart
            rcases List.mem_cons.mp isPart with isPage | isFresh
            · exact pageSplit.ne_page inv.layered lowerLe childMem (by omega) isPage
            · exact notFresh pageId br oldRecord isFresh
          have notParent : br.childPage ≠ parentId :=
            pageSplit.ne_parent inv.layered lowerLe childMem (by omega)
          rw [headId, ← inv.parents pageId br oldRecord]
          refine split.notAdopted br.childPage notPart notParent ?_
          -- the children of the page are different, so the new pages take others
          rw [inTail]
          intro later laterMem other otherMem sameChild
          have nodup := inv.children_nodup pageId
          rw [split.page_records.2, ← split.branchRecords, partsEq, List.flatMap_cons,
            List.map_append, List.nodup_append] at nodup
          refine nodup.2.2 br.childPage (List.mem_map_of_mem mem) br.childPage ?_ rfl
          rw [← sameChild]
          exact List.mem_map_of_mem (List.mem_flatMap.mpr ⟨later, laterMem, otherMem⟩)
        · exact split.adopted part (inTail ▸ partMem) br mem
  · rw [(branchRecords_of_branchPage? split.parentNew).1, split.recordsNew] at mem
    simp only [List.mem_append] at mem
    have sibling : br ∈ left ++ right → (tree'.pages br.childPage).map IndexPage.parentPageId =
        some (some other) := by
      intro siblingMem
      have oldRecord : br ∈ tree.branchRecords other := by
        rw [parentRecords, split.recordsOld]
        simp only [List.mem_append, List.mem_cons] at siblingMem ⊢
        tauto
      have notPage : br.childPage ≠ pageId := by
        intro isPage
        have nodup := inv.children_nodup other
        rw [parentRecords, split.recordsOld, List.map_append, List.map_cons] at nodup
        refine (List.nodup_cons.mp (List.nodup_middle.mp nodup)).1 ?_
        rw [split.child, ← isPage, ← List.map_append]
        exact List.mem_map_of_mem siblingMem
      have notPart : br.childPage ∉ pageId :: fresh := by
        intro isPart
        rcases List.mem_cons.mp isPart with isPage | isFresh
        · exact notPage isPage
        · exact notFresh other br oldRecord isFresh
      have oldParent := inv.parents other br oldRecord
      rw [split.kept_parent inv notPart, oldParent]
      rw [oldParent]
      simpa using notSame
    rcases mem with leftMem | newMem | rightMem
    · exact sibling (List.mem_append_left _ leftMem)
    · have isPart : br.childPage ∈ pageId :: fresh := by
        rw [← split.children]
        exact List.mem_map_of_mem newMem
      rw [← split.ids] at isPart
      rcases List.mem_map.mp isPart with ⟨part, partMem, partId⟩
      rcases split.partPages part partMem with ⟨partEq, -, partParent⟩
      rw [← partId, partEq, Option.map_some, partParent]
    · exact sibling (List.mem_append_right _ rightMem)
  · rw [(split.other_page notPart notParent).2.1] at mem
    have oldParent := inv.parents other br mem
    have childNotPart : br.childPage ∉ pageId :: fresh := by
      intro isPart
      rcases List.mem_cons.mp isPart with isPage | isFresh
      · rw [isPage, pageParent] at oldParent
        exact notParent (Option.some.inj (Option.some.inj oldParent)).symm
      · exact notFresh other br mem isFresh
    rw [split.kept_parent inv childNotPart, oldParent]
    rw [oldParent]
    intro isPage
    exact notPart (Option.some.inj (Option.some.inj isPage) ▸ List.mem_cons_self)

/-- A page of a layer after the split is one of the parts, or it had the same page behind it
before. -/
theorem SplitInto.position_cases {pagesLeft pagesRight : List PageID}
    (layerEq : layer level = pagesLeft ++ pageId :: pagesRight) {other : ℕ}
    (otherLe : other ≤ height) {before behind : List PageID} {x : PageID}
    (newEq : splitLayer layer level pagesLeft pageId fresh pagesRight other =
      before ++ x :: behind) :
    (other = level ∧ ∃ front part rear, parts = front ++ part :: rear ∧ part.1 = x ∧
      behind = rear.map Prod.fst ++ pagesRight) ∨
      x ∉ pageId :: fresh ∧ ∃ before' behind', layer other = before' ++ x :: behind' ∧
        behind'.head? = behind.head? := by
  have pageSplit := split.pageSplit inv below parentMem
  have pageMem := pageSplit.pageMem inv.layered
  have notFresh : ∀ other ≤ height, ∀ x ∈ layer other, x ∉ fresh :=
    fun other otherLe x mem isFresh => pageSplit.freshNew x isFresh other otherLe mem
  by_cases same : other = level
  · subst same
    have nodup := inv.layered.nodup other otherLe
    rw [layerEq] at nodup
    have notPage : ∀ x ∈ pagesLeft ++ pagesRight, x ∉ pageId :: fresh := by
      intro x mem isPart
      rcases List.mem_cons.mp isPart with rfl | isFresh
      · exact (List.nodup_cons.mp (List.nodup_middle.mp nodup)).1 mem
      · refine notFresh other otherLe x ?_ isFresh
        rw [layerEq]
        simp only [List.mem_append, List.mem_cons] at mem ⊢
        tauto
    rw [splitLayer, Function.update_self, ← List.cons_append, ← split.ids] at newEq
    rcases append_cons_cases newEq with ⟨rest, leftEq, behindEq⟩ | ⟨rest, -, restEq⟩
    · refine Or.inr ⟨notPage x ?_, before, rest ++ pageId :: pagesRight, ?_, ?_⟩
      · rw [leftEq]
        simp
      · rw [layerEq, leftEq]
        simp
      · rw [behindEq, split.ids]
        cases rest <;> rfl
    · rcases append_cons_cases restEq with ⟨rest', partsEq, behindEq⟩ | ⟨rest', -, rightEq⟩
      · rcases List.map_eq_append_iff.mp partsEq with ⟨front, rear, rfl, rfl, rearEq⟩
        rcases List.map_eq_cons_iff.mp rearEq with ⟨part, rear, rfl, rfl, rfl⟩
        exact Or.inl ⟨rfl, front, part, rear, rfl, rfl, behindEq⟩
      · refine Or.inr ⟨notPage x ?_, pagesLeft ++ pageId :: rest', behind, ?_, rfl⟩
        · rw [rightEq]
          simp
        · rw [layerEq, rightEq]
          simp
  · rw [splitLayer, Function.update_of_ne same] at newEq
    have mem : x ∈ layer other := by
      rw [newEq]
      simp
    refine Or.inr ⟨?_, before, behind, newEq, rfl⟩
    intro isPart
    rcases List.mem_cons.mp isPart with isPage | isFresh
    · exact pageSplit.ne_page inv.layered otherLe mem same isPage
    · exact notFresh other otherLe x mem isFresh

end

/-- What a split does to the entries that lead to the pages of each level. -/
structure EntriesSplit (tree tree' : IndexTree) (height level : ℕ) (layer layer' : ℕ → List PageID)
    (pageId : PageID) (fresh : List PageID) : Prop where
  others : ∀ lower < height, lower ≠ level →
    tree'.entriesTo layer' lower = tree.entriesTo layer lower
  replaced : level < height → ∃ front separator rear news,
    tree.entriesTo layer level = front ++ (separator, pageId) :: rear ∧
      tree'.entriesTo layer' level = front ++ (news ++ rear) ∧
      news.map Prod.snd = pageId :: fresh ∧
      (rear ≠ [] → (news.map Prod.fst).getLast? = some separator)

/-- A split keeps the invariant, and the records of the tree. -/
theorem Invariant.split (inv : tree.Invariant height layer)
    (split : SplitInto tree tree' level parentId pageId page parent parent' left right news old
      fresh parts) (below : level < height) (parentMem : parentId ∈ layer (level + 1)) :
    ∃ layer', tree'.Invariant height layer' ∧ layer' (level + 1) = layer (level + 1) ∧
      (tree'.allRecords layer').map LeafRecord.inPage =
        (tree.allRecords layer).map LeafRecord.inPage ∧
      EntriesSplit tree tree' height level layer layer' pageId fresh := by
  have pageSplit := split.pageSplit inv below parentMem
  have pageMem := pageSplit.pageMem inv.layered
  have levelLe := le_of_lt below
  rcases inv.layered.split pageSplit with ⟨before, behind, layerEq, layered⟩
  have pageEnds := inv.ends level levelLe before pageId behind layerEq
  rw [split.pageEq, Option.map_some, Option.some.injEq] at pageEnds
  have inLayer : ∀ other ≤ height, ∀ x ∈ layer other,
      x ∈ splitLayer layer level before pageId fresh behind other := by
    intro other _ x mem
    by_cases same : other = level
    · subst same
      rw [splitLayer, Function.update_self]
      rw [layerEq] at mem
      simp only [List.mem_append, List.mem_cons] at mem ⊢
      tauto
    · rwa [splitLayer, Function.update_of_ne same]
  refine ⟨splitLayer layer level before pageId fresh behind,
    ⟨?_, ?_, ?_, ?_, ?_, ?_, split.parents inv below parentMem, ?_, ?_⟩, ?_, ?_, ?_, ?_⟩
  · rw [split.rootEq]
    exact layered
  · intro other otherLe x mem
    exact split.plain inv below parentMem otherLe (PageSplit.mem_splitLayer layerEq mem)
  · intro other page' pageEq
    rcases split.exists_page pageEq with isFresh | ⟨page, oldEq⟩
    · refine ⟨level, levelLe, ?_⟩
      rw [splitLayer, Function.update_self]
      simp [isFresh]
    · rcases inv.owned other page oldEq with ⟨level', levelLe', mem⟩
      exact ⟨level', levelLe', inLayer level' levelLe' other mem⟩
  · intro other page' pageEq
    rw [split.totalEq]
    rcases split.exists_page pageEq with isFresh | ⟨page, oldEq⟩
    · rw [split.freshEq, List.mem_range'_1] at isFresh
      exact isFresh.2
    · exact Nat.lt_add_right _ (inv.allocated other page oldEq)
  · rw [split.totalEq]
    exact Nat.lt_add_right _ inv.heightLt
  · rw [split.rootEq]
    have rootMem : tree.rootPageId ∈ layer height := by
      rw [inv.layered.top]
      exact List.mem_singleton_self _
    have notPart : tree.rootPageId ∉ pageId :: fresh := by
      intro isPart
      rcases List.mem_cons.mp isPart with isPage | isFresh
      · exact pageSplit.ne_page inv.layered le_rfl rootMem (Nat.ne_of_gt below) isPage
      · exact pageSplit.freshNew _ isFresh height le_rfl rootMem
    rw [split.kept_parent inv notPart, inv.rootParent]
    rw [inv.rootParent]
    simp
  · intro other otherLe pagesLeft x pagesRight newEq
    rcases split.position_cases inv below parentMem layerEq otherLe newEq with
      ⟨-, front, part, rear, partsEq, rfl, rfl⟩ | ⟨notPart, before', behind', oldEq, sameHead⟩
    · have partMem : part ∈ parts := by
        rw [partsEq]
        simp
      rw [(split.partPages part partMem).1, Option.map_some, split.ends front part rear partsEq,
        pageEnds]
      cases rear <;> cases behind <;> rfl
    · have sameEnd : (tree'.pages x).map IndexPage.endPage = (tree.pages x).map
        IndexPage.endPage := by
        by_cases isParent : x = parentId
        · rw [isParent, split.parentOld, split.parentNew]
          exact congrArg some split.parentSame.2.2
        · exact (split.other_page notPart isParent).2.2.1
      rw [sameEnd, inv.ends other otherLe before' x behind' oldEq]
      cases behind' <;> cases pagesRight <;> simp_all
  · intro pagesLeft x pagesRight newEq
    rcases split.position_cases inv below parentMem layerEq (Nat.zero_le _) newEq with
      ⟨isLeaf, front, part, rear, partsEq, rfl, rfl⟩ | ⟨notPart, before', behind', oldEq, sameHead⟩
    · have partMem : part ∈ parts := by
        rw [partsEq]
        simp
      have pageLink := inv.links before pageId behind (isLeaf ▸ layerEq)
      rw [split.pageEq, Option.map_some, Option.some.injEq] at pageLink
      rw [(split.partPages part partMem).1, Option.map_some,
        split.links front part rear partsEq isLeaf.symm, pageLink, List.head?_append,
        List.head?_map]
    · have leafMem : x ∈ layer 0 := by
        rw [oldEq]
        simp
      have notParent : x ≠ parentId := pageSplit.ne_parent inv.layered (Nat.zero_le _) leafMem
        (Nat.succ_ne_zero level).symm
      rw [(split.other_page notPart notParent).2.2.2, inv.links before' x behind' oldEq, sameHead]
  · exact Function.update_of_ne (Nat.succ_ne_self level) _ _
  · have kept : ∀ x ∈ layer 0, x ≠ pageId → tree'.leafRecords x = tree.leafRecords x := by
      intro x mem notPage
      refine (split.other_page ?_ ?_).1
      · intro isPart
        rcases List.mem_cons.mp isPart with isPage | isFresh
        · exact notPage isPage
        · exact pageSplit.freshNew x isFresh 0 (Nat.zero_le _) mem
      · exact pageSplit.ne_parent inv.layered (Nat.zero_le _) mem (Nat.succ_ne_zero level).symm
    rw [allRecords, allRecords]
    by_cases isLeaf : level = 0
    · subst isLeaf
      have nodup := inv.layered.nodup 0 (Nat.zero_le _)
      rw [layerEq] at nodup
      have others : ∀ x ∈ before ++ behind, tree'.leafRecords x = tree.leafRecords x := by
        intro x mem
        refine kept x ?_ ?_
        · rw [layerEq]
          simp only [List.mem_append, List.mem_cons] at mem ⊢
          tauto
        · rintro rfl
          exact (List.nodup_cons.mp (List.nodup_middle.mp nodup)).1 mem
      have sameBefore : before.flatMap tree'.leafRecords = before.flatMap tree.leafRecords :=
        List.flatMap_congr fun x mem => others x (List.mem_append_left _ mem)
      have sameBehind : behind.flatMap tree'.leafRecords = behind.flatMap tree.leafRecords :=
        List.flatMap_congr fun x mem => others x (List.mem_append_right _ mem)
      have partRecords := split.flatMap_records.1
      rw [← split.page_records.1] at partRecords
      rw [splitLayer, Function.update_self, layerEq, ← List.cons_append]
      simp only [List.flatMap_append, List.map_append, partRecords, sameBefore, sameBehind]
      rw [List.flatMap_cons, List.map_append]
    · rw [splitLayer, Function.update_of_ne (Ne.symm isLeaf)]
      refine congrArg _ (List.flatMap_congr fun x mem => kept x mem ?_)
      exact pageSplit.ne_page inv.layered (Nat.zero_le _) mem (Ne.symm isLeaf)
  · intro lower lowerLt notLevel
    exact pageSplit.layerEntries_splitLayer inv.layered layerEq lowerLt notLevel
  · intro _
    rcases pageSplit.entries_replaced inv.layered before behind with
      ⟨front, rear, oldEq, newEq, lastEq⟩
    exact ⟨front, _, rear, _, oldEq, newEq, pageSplit.pages, lastEq⟩

end SplitInto

end IndexTree

end RapidDb
