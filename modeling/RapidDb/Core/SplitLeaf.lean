import RapidDb.Core.SplitBranch

/-!
# Splitting a leaf

A leaf that is too long is split into parts that fit, and all of them are saved. If everything
still fits into one page nothing but the root page can change.
-/

namespace RapidDb

open SeparatorTree

namespace IndexTree

/-!
## The new pages
-/

section NewLeafPages

variable {parentPageId prevPageId : PageID} {lastId : Option PageID}
  {parts : List (PageID × LeafPage.SplitPart)}

theorem map_newLeafPages :
    (newLeafPages parentPageId lastId prevPageId parts).map (fun new =>
        (new.1, new.2.records, new.2.committedDataLength, new.2.tempDataLength)) =
      parts.map fun part =>
        (part.1, part.2.records, part.2.committedLength, part.2.tempLength) := by
  induction parts generalizing prevPageId with
  | nil => rfl
  | cons part parts ih => rw [newLeafPages, List.map_cons, List.map_cons, ih]

theorem newLeafPages_ids :
    (newLeafPages parentPageId lastId prevPageId parts).map Prod.fst = parts.map Prod.fst := by
  induction parts generalizing prevPageId with
  | nil => rfl
  | cons part parts ih => rw [newLeafPages, List.map_cons, List.map_cons, ih]

theorem newLeafPages_parent {new : PageID × LeafPage}
    (mem : new ∈ newLeafPages parentPageId lastId prevPageId parts) :
    new.2.parentPageId = some parentPageId := by
  induction parts generalizing prevPageId with
  | nil => cases mem
  | cons part parts ih =>
      rw [newLeafPages, List.mem_cons] at mem
      rcases mem with rfl | mem
      · rfl
      · exact ih mem

theorem newLeafPages_links {before behind : List (PageID × LeafPage)} {new : PageID × LeafPage}
    (position : newLeafPages parentPageId lastId prevPageId parts = before ++ new :: behind) :
    new.2.endPage = (behind.isEmpty && lastId.isNone) ∧
      new.2.nextPageId = (behind.head?.map Prod.fst).or lastId := by
  induction parts generalizing before prevPageId with
  | nil => simp [newLeafPages] at position
  | cons part parts ih =>
      rw [newLeafPages] at position
      cases before with
      | nil =>
          rcases List.cons.inj position with ⟨rfl, rfl⟩
          cases parts with
          | nil => exact ⟨rfl, rfl⟩
          | cons next parts => exact ⟨rfl, rfl⟩
      | cons first before => exact ih (List.cons.inj position).2

end NewLeafPages

theorem mapM_saveRecords {type : IndexType} {pages : List (PageID × LeafPage)}
    (plain : ∀ page ∈ pages, page.2.Plain type)
    (fits : ∀ page ∈ pages,
      Segments.total LeafRecord.pageLength page.2.records ≤ maxDataLengthLeaf) :
    (pages.mapM fun (id, page) =>
        page.saveRecords.map fun saved => (id, IndexPage.leaf saved.page)) =
      some (pages.map fun page =>
        (page.1, .leaf { page.2 with records := page.2.records.map LeafRecord.inPage })) := by
  induction pages with
  | nil => rfl
  | cons page pages ih =>
      have saved := (plain page List.mem_cons_self).saveRecords_eq (fits page List.mem_cons_self)
      rw [Option.map_eq_some_iff] at saved
      rcases saved with ⟨saved, savedEq, pageEq⟩
      rw [List.mapM_cons, ih (fun other mem => plain other (List.mem_cons_of_mem _ mem))
        (fun other mem => fits other (List.mem_cons_of_mem _ mem))]
      simp [savedEq, pageEq]

theorem setPrev_spec {tree : IndexTree} {lastId : Option PageID} (prevPageId : PageID)
    (exist : ∀ pageId, lastId = some pageId → ∃ page, tree.pages pageId = some (.leaf page)) :
    ∃ tree', tree.setPrev lastId prevPageId = some tree' ∧ SameRecords tree tree' ∧
      ∀ other, (tree'.pages other).map IndexPage.parentPageId =
        (tree.pages other).map IndexPage.parentPageId := by
  cases lastId with
  | none => exact ⟨tree, rfl, SameRecords.refl tree, fun _ => rfl⟩
  | some pageId =>
      rcases exist pageId rfl with ⟨page, pageEq⟩
      refine ⟨tree.setPage pageId (.leaf { page with prevPageId := prevPageId }), ?_, ?_, ?_⟩
      · simp [setPrev, leafPage?, pageEq]
      · exact sameRecords_setPage pageEq rfl
      · intro other
        by_cases isPage : other = pageId
        · rw [isPage, pages_setPage_self, pageEq]
          rfl
        · rw [pages_setPage_of_ne isPage]

/-!
## The parts of a leaf
-/

section PlaceLeaf

variable {tree : IndexTree} {detached : Detached} {height : ℕ} {layer : ℕ → List PageID}
  {pageId : PageID} {page : LeafPage} {parent : BranchPage} {left right : List BranchRecord}
  {old : BranchRecord} {first : List LeafRecord × ℕ} {rest : List (List LeafRecord × ℕ)}

/-- A part of a leaf whose records hold no locks. -/
def plainPart (part : List LeafRecord × ℕ) : LeafPage.SplitPart := ⟨part.1, part.2, part.2⟩

theorem Attached.placeLeaf_spec
    (attached : tree.Attached detached height 0 layer pageId (.leaf page) parent left right old)
    (plain : page.Plain tree.indexType)
    (joined : (first :: rest).flatMap Prod.fst = page.records)
    (all : ∀ part ∈ first :: rest,
      Segments.Part LeafRecord.pageLength (maxDataLengthLeaf * loadFactor / 100)
        maxDataLengthLeaf part)
    (several : rest ≠ []) :
    ∃ parent' tree' news parts,
      placeLeaf detached pageId page (plainPart first) (rest.map plainPart) =
          some (parent', tree') ∧
        tree'.rootPageId = detached.tree.rootPageId ∧
        SplitInto tree { tree' with rootPageId := tree.rootPageId } 0 detached.parentPageId
          pageId ((IndexPage.leaf page).withParent detached.parentPageId) parent parent' left right
          news old (detached.tree.newPageIds rest.length) parts := by
  have inv := attached.inv
  generalize freshEq : List.range' tree.totalPageCount rest.length = fresh
  rcases attached.fresh_spec freshEq with
    ⟨idsEq, freshLength, freshNodup, unused, pageNotFresh, parentNotFresh⟩
  have parentNotPage := attached.parent_ne
  -- what stands behind the page
  rcases List.append_of_mem attached.pageMem with ⟨before, behind, layerEq⟩
  have pageEnd := inv.ends 0 (Nat.zero_le _) before pageId behind layerEq
  have pageNext := inv.links before pageId behind layerEq
  rw [attached.pageEq, Option.map_some, Option.some.injEq] at pageEnd pageNext
  have lastEq : page.nextPageId = behind.head? := pageNext
  have endEq : page.endPage = behind.isEmpty := pageEnd
  have lastNone : page.endPage = page.nextPageId.isNone := by
    rw [lastEq, endEq]
    cases behind <;> rfl
  -- the pages of the parts, before and after they are saved
  generalize firstEq : { page with
    records := first.1
    parentPageId := some detached.parentPageId
    nextPageId := fresh.head?
    endPage := page.endPage && page.nextPageId.isSome
    committedDataLength := (first.2 : ℤ)
    tempDataLength := (first.2 : ℤ) } = firstPage
  generalize newPagesEq : newLeafPages detached.parentPageId page.nextPageId pageId
    (fresh.zip (rest.map plainPart)) = newPages
  generalize pagesEq : (pageId, firstPage) :: newPages = pages
  have newIds : newPages.map Prod.fst = fresh := by
    rw [← newPagesEq, newLeafPages_ids]
    exact List.map_fst_zip (by simp [freshLength])
  have pageIds : pages.map Prod.fst = pageId :: fresh := by rw [← pagesEq, List.map_cons, newIds]
  have pageFields : pages.map
      (fun new => (new.1, new.2.records, new.2.committedDataLength, new.2.tempDataLength)) =
        ((pageId, first) :: fresh.zip rest).map fun part =>
          (part.1, part.2.1, (part.2.2 : ℤ), (part.2.2 : ℤ)) := by
    rw [← pagesEq, List.map_cons, List.map_cons, ← newPagesEq, map_newLeafPages, List.zip_map_right,
      List.map_map, ← firstEq]
    rfl
  have pageRecords : (pages.flatMap fun new => new.2.records) = page.records := by
    have recordsEq := congrArg (List.flatMap fun new => new.2.1) pageFields
    rw [List.flatMap_map, List.flatMap_map] at recordsEq
    rw [recordsEq, ← joined, List.flatMap_cons, List.flatMap_cons]
    refine congrArg _ ?_
    have zipParts : (fresh.zip rest).map Prod.snd = rest :=
      List.map_snd_zip (le_of_eq freshLength.symm)
    conv_rhs => rw [← zipParts, List.flatMap_map]
  have pagePairs : (pageId, first.1) :: fresh.zip (rest.map Prod.fst) =
      pages.map fun new => (new.1, new.2.records) := by
    have pairs := congrArg (List.map fun new => (new.1, new.2.1)) pageFields
    rw [List.map_map, List.map_map] at pairs
    rw [List.zip_map_right]
    exact pairs.symm
  have pagePart : ∀ new ∈ pages, ∃ part ∈ first :: rest, new.2.records = part.1 ∧
      new.2.committedDataLength = part.2 ∧ new.2.tempDataLength = part.2 := by
    intro new mem
    have fields : (new.1, new.2.records, new.2.committedDataLength, new.2.tempDataLength) ∈
        pages.map fun new =>
          (new.1, new.2.records, new.2.committedDataLength, new.2.tempDataLength) :=
      List.mem_map_of_mem mem
    rw [pageFields] at fields
    rcases List.mem_map.mp fields with ⟨part, partMem, partEq⟩
    simp only [Prod.mk.injEq] at partEq
    refine ⟨part.2, ?_, partEq.2.1.symm, partEq.2.2.1.symm, partEq.2.2.2.symm⟩
    rcases List.mem_cons.mp partMem with rfl | partMem
    · exact List.mem_cons_self
    · exact List.mem_cons_of_mem _ (List.of_mem_zip partMem).2
  have pagePlain : ∀ new ∈ pages, new.2.Plain tree.indexType := by
    intro new mem
    rcases pagePart new mem with ⟨part, partMem, recordsEq, committed, temp⟩
    have length := (all part partMem).length
    refine ⟨?_, ?_, ?_⟩
    · intro lr lrMem
      refine plain.records lr ?_
      rw [← pageRecords]
      exact List.mem_flatMap.mpr ⟨new, mem, lrMem⟩
    · rw [committed, length, recordsEq]
    · rw [temp, length, recordsEq]
  have pageFits : ∀ new ∈ pages,
      Segments.total LeafRecord.pageLength new.2.records ≤ maxDataLengthLeaf := by
    intro new mem
    rcases pagePart new mem with ⟨part, partMem, recordsEq, -, -⟩
    rw [recordsEq, ← (all part partMem).length]
    exact (all part partMem).fits
  have saved := mapM_saveRecords pagePlain pageFits
  generalize partsEq : (pages.map fun page =>
    (page.1, IndexPage.leaf { page.2 with records := page.2.records.map LeafRecord.inPage })) =
      parts at saved
  have partIds : parts.map Prod.fst = pageId :: fresh := by
    rw [← partsEq, ← pageIds, List.map_map]
    rfl
  have partLeaf : ∀ part ∈ parts, ∃ new ∈ pages, part =
      (new.1, .leaf { new.2 with records := new.2.records.map LeafRecord.inPage }) := by
    intro part mem
    rw [← partsEq] at mem
    rcases List.mem_map.mp mem with ⟨new, newMem, partEq⟩
    exact ⟨new, newMem, partEq.symm⟩
  have leafRecords : (parts.flatMap fun part => part.2.records.1).map LeafRecord.inPage =
      page.records.map LeafRecord.inPage := by
    rw [← partsEq, List.flatMap_map, ← pageRecords]
    simp [IndexPage.records, List.map_flatMap, Function.comp_def]
  have branchRecords : (parts.flatMap fun part => part.2.records.2) = [] := by
    rw [← partsEq, List.flatMap_map]
    simp [IndexPage.records]
  have notAlone : newPages ≠ [] := by
    rintro rfl
    rw [← newIds] at freshLength
    exact several (List.length_eq_zero_iff.mp freshLength.symm)
  have positions : ∀ before part behind, parts = before ++ part :: behind →
      part.2.endPage = (behind.isEmpty && page.endPage) ∧
        part.2.nextPageId = (behind.head?.map Prod.fst).or page.nextPageId := by
    intro before part behind position
    rw [← partsEq] at position
    rcases List.map_eq_append_iff.mp position with ⟨front, rest', splitEq, rfl, restEq⟩
    rcases List.map_eq_cons_iff.mp restEq with ⟨new, rear, rfl, rfl, rfl⟩
    rw [← pagesEq] at splitEq
    cases front with
    | nil =>
        rcases List.cons.inj splitEq with ⟨rfl, rfl⟩
        have notEnd : (page.endPage && page.nextPageId.isSome) = false := by
          rw [lastNone]
          cases page.nextPageId <;> rfl
        have endFirst : firstPage.endPage = false := by
          rw [← firstEq]
          exact notEnd
        have nextFirst : firstPage.nextPageId = newPages.head?.map Prod.fst := by
          rw [← firstEq, ← newIds, List.head?_map]
        cases newPages with
        | nil => exact absurd rfl notAlone
        | cons next newPages => exact ⟨endFirst, nextFirst⟩
    | cons head front =>
        have isNew := (List.cons.inj splitEq).2
        rcases newLeafPages_links (newPagesEq.trans isNew) with ⟨isEnd, isNext⟩
        rw [lastNone]
        refine ⟨?_, ?_⟩
        · simpa [IndexPage.endPage] using isEnd
        · simpa [IndexPage.nextPageId, Function.comp_def] using isNext
  -- the records for the parent
  have nonempty : ∀ part ∈ (pageId, first.1) :: fresh.zip (rest.map Prod.fst), part.2 ≠ [] := by
    intro part mem
    rw [pagePairs] at mem
    rcases List.mem_map.mp mem with ⟨new, newMem, rfl⟩
    rcases pagePart new newMem with ⟨part, partMem, recordsEq, -, -⟩
    rw [recordsEq]
    exact (all part partMem).nonempty
  rcases newEntries_spec (LeafRecord.indexKey tree.indexType) BranchRecord.ofLeaf _ nonempty with
    ⟨entries, entriesEq, entryIds, entryAll⟩
  rw [pagePairs, List.map_map] at entryIds
  have entryIds' : entries.map NewEntry.pageId = pageId :: fresh := entryIds.trans pageIds
  generalize parentEq' : detached.parentPage.insertRecords
    (splitRecords tree.indexType detached.brParentOld entries) detached.posInParent = parent'
  -- the page behind the split one
  generalize startEq : ({ detached.tree with
    totalPageCount := detached.tree.totalPageCount + rest.length } : IndexTree) = start
  have startOther : ∀ other, other ∉ pageId :: fresh → other ≠ detached.parentPageId →
      start.pages other = tree.pages other := by
    intro other notPart notParent
    rw [List.mem_cons, not_or] at notPart
    rw [← startEq]
    exact attached.others other notPart.1 notParent
  have exist : ∀ next, page.nextPageId = some next →
      ∃ nextPage, start.pages next = some (.leaf nextPage) := by
    intro next isNext
    have nextMem : next ∈ behind := List.mem_of_head? (lastEq.symm.trans isNext)
    have leafMem : next ∈ layer 0 := by
      rw [layerEq]
      exact List.mem_append_right _ (List.mem_cons_of_mem _ nextMem)
    rcases inv.leaf leafMem with ⟨nextPage, nextEq, -⟩
    refine ⟨nextPage, ?_⟩
    rw [startOther next, nextEq]
    · intro isPart
      rcases List.mem_cons.mp isPart with rfl | isFresh
      · have nodup := inv.layered.nodup 0 (Nat.zero_le _)
        rw [layerEq] at nodup
        exact (List.nodup_cons.mp (List.nodup_middle.mp nodup)).1
          (List.mem_append_right _ nextMem)
      · rw [unused next isFresh] at nextEq
        cases nextEq
    · rintro rfl
      have same := inv.layered.apart 0 (Nat.zero_le _) 1 attached.below _ leafMem
        attached.parentMem
      omega
  rcases setPrev_spec (fresh.getLastD pageId) exist with ⟨linked, linkedEq, sameLinked, keptParents⟩
  generalize placedEq : (linked.setPage detached.parentPageId (.branch parent')).setPages parts =
    tree'
  have partNodup : (parts.map Prod.fst).Nodup := by
    rw [partIds]
    exact List.nodup_cons.mpr ⟨pageNotFresh, freshNodup⟩
  have parentNotPart : detached.parentPageId ∉ parts.map Prod.fst := by
    rw [partIds, List.mem_cons, not_or]
    exact ⟨parentNotPage, parentNotFresh⟩
  have atPart : ∀ part ∈ parts, tree'.pages part.1 = some part.2 := by
    intro part mem
    rw [← placedEq]
    exact pages_setPages_of_mem partNodup mem
  have atParent : tree'.pages detached.parentPageId = some (.branch parent') := by
    rw [← placedEq, pages_setPages_of_not_mem parentNotPart, pages_setPage_self]
  have atOther : ∀ other, other ∉ pageId :: fresh → other ≠ detached.parentPageId →
      tree'.pages other = linked.pages other := by
    intro other notPart notParent
    rw [← placedEq, pages_setPages_of_not_mem (partIds ▸ notPart), pages_setPage_of_ne notParent]
  have typeEq : tree'.indexType = tree.indexType := by
    rw [← placedEq, (setPages_fields _ _).1, (setPage_fields _ _ _).1, sameLinked.typeEq, ← startEq]
    exact attached.typeEq
  have rootEq : tree'.rootPageId = detached.tree.rootPageId := by
    rw [← placedEq, (setPages_fields _ _).2.1, (setPage_fields _ _ _).2.1, sameLinked.rootEq,
      ← startEq]
  have totalEq : tree'.totalPageCount = tree.totalPageCount + fresh.length := by
    rw [← placedEq, (setPages_fields _ _).2.2, (setPage_fields _ _ _).2.2, sameLinked.totalEq,
      ← startEq, freshLength, ← attached.totalEq]
  have partPages : ∀ part ∈ parts, tree'.pages part.1 = some part.2 ∧
      part.2.Plain tree.indexType 0 ∧ part.2.parentPageId = some detached.parentPageId := by
    intro part mem
    rcases partLeaf part mem with ⟨new, newMem, rfl⟩
    have newPlain := pagePlain new newMem
    refine ⟨atPart _ mem, ⟨rfl, ?_, ?_, ?_⟩, ?_⟩
    · intro lr lrMem
      rcases List.mem_map.mp lrMem with ⟨record, recordMem, rfl⟩
      exact (newPlain.records record recordMem).inPage
    · rw [LeafPage.total_inPage newPlain.records]
      exact newPlain.committed
    · rw [LeafPage.total_inPage newPlain.records]
      exact newPlain.temp
    · rw [← pagesEq, List.mem_cons] at newMem
      rcases newMem with rfl | newMem
      · rw [← firstEq]
        rfl
      · exact newLeafPages_parent (newPagesEq ▸ newMem)
  have lasts : ∀ entry ∈ entries,
      (tree'.shape.contents 0 entry.pageId).getLast? = some entry.lastKey := by
    intro entry mem
    rcases entryAll entry mem with ⟨records, last, pairMem, isLast, lastKey, -⟩
    rw [pagePairs] at pairMem
    rcases List.mem_map.mp pairMem with ⟨new, newMem, newEq⟩
    simp only [Prod.mk.injEq] at newEq
    have partMem : (new.1, IndexPage.leaf
        { new.2 with records := new.2.records.map LeafRecord.inPage }) ∈ parts := by
      rw [← partsEq]
      exact List.mem_map_of_mem newMem
    rw [Shape.contents_zero, shape_leafKeys, IndexTree.leafRecords, ← newEq.1, atPart _ partMem]
    simp only [IndexPage.records, Option.map_some, Option.getD_some, newEq.2, List.map_map,
      List.getLast?_map, isLast, lastKey, typeEq, Function.comp_apply, LeafRecord.indexKey_inPage]
  rw [idsEq]
  refine ⟨parent', tree', splitRecords tree.indexType detached.brParentOld entries, parts, ?_,
    rootEq, ?_⟩
  · have recordsEq : (rest.map plainPart).map LeafPage.SplitPart.records = rest.map Prod.fst := by
      rw [List.map_map]
      rfl
    rw [← attached.typeEq] at entriesEq parentEq'
    have firstEq' : { page with
        records := (plainPart first).records
        parentPageId := some detached.parentPageId
        nextPageId := fresh.head?
        endPage := page.endPage && page.nextPageId.isSome
        committedDataLength := (plainPart first).committedLength
        tempDataLength := (plainPart first).tempLength } = firstPage := firstEq
    have entriesEq' : newEntries (LeafRecord.indexKey detached.tree.indexType) BranchRecord.ofLeaf
        ((pageId, (plainPart first).records) :: fresh.zip (rest.map Prod.fst)) = some entries :=
      entriesEq
    simp only [placeLeaf, List.length_map, idsEq, recordsEq, Option.bind_eq_bind, entriesEq',
      Option.bind_some, firstEq', newPagesEq, pagesEq, saved, startEq, linkedEq,
        parentEq', placedEq]
  · rw [← parentEq']
    refine attached.splitInto typeEq rfl totalEq ?_ ?_ partIds entryIds' ?_ lasts ?_ partPages
      leafRecords branchRecords ?_ ?_ ?_ ?_ ?_
    · rw [freshLength, freshEq]
    · rw [parentEq']
      exact atParent
    · intro entry mem
      rcases entryAll entry mem with ⟨records, last, pairMem, isLast, lastKey, recordEq⟩
      rw [pagePairs] at pairMem
      rcases List.mem_map.mp pairMem with ⟨new, newMem, newEq⟩
      simp only [Prod.mk.injEq] at newEq
      have lastMem : last ∈ page.records := by
        rw [← pageRecords]
        refine List.mem_flatMap.mpr ⟨new, newMem, ?_⟩
        rw [newEq.2]
        exact List.mem_of_getLast? isLast
      rcases (plain.records last lastMem).ofLeaf_spec entry.pageId with ⟨valid, key, child⟩
      rw [← recordEq] at valid key child
      exact ⟨valid, key.trans lastKey.symm, child⟩
    · intro entry single
      rw [single] at entryIds'
      have alone : fresh = [] := (List.cons.inj entryIds').2.symm
      rw [alone] at freshLength
      exact absurd (List.length_eq_zero_iff.mp freshLength.symm) several
    · exact fun before part behind position => (positions before part behind position).1
    · exact fun before part behind position _ => (positions before part behind position).2
    · intro other notPart notParent
      rw [← startOther other notPart notParent, ← sameLinked.pages other]
      exact congrArg _ (atOther other notPart notParent)
    · intro part mem br brMem
      have noRecords : br ∈ parts.flatMap fun part => part.2.records.2 :=
        List.mem_flatMap.mpr ⟨part, List.mem_of_mem_tail mem, brMem⟩
      rw [branchRecords] at noRecords
      cases noRecords
    · intro other notPart notParent _
      rw [← startOther other notPart notParent, ← keptParents other]
      exact congrArg _ (atOther other notPart notParent)

/-- If all records stay in the page, the tree is the one in which the parent is known. -/
theorem Attached.keepLeaf_spec
    (attached : tree.Attached detached height 0 layer pageId (.leaf page) parent left right old)
    (plain : page.Plain tree.indexType) {only : List LeafRecord × ℕ} {last : LeafRecord}
    (joined : only.1 = page.records) (length : only.2 = Segments.total LeafRecord.pageLength only.1)
    (isLast : page.records.getLast? = some last)
    (grown : detached.brParentOld = none → old = BranchRecord.ofLeaf last pageId) :
    ∃ tree', keepLeaf detached pageId page (plainPart only) = some tree' ∧
      tree'.rootPageId = detached.tree.rootPageId ∧
      { tree' with rootPageId := tree.rootPageId } = tree := by
  have parentBack : detached.parentPage.insertRecords [old] detached.posInParent = parent := by
    rw [attached.parentPage, attached.pos]
    simp [BranchPage.insertRecords, BranchPage.insertRecord, ← attached.recordsEq]
  have pageBack : IndexPage.leaf { page with
      records := only.1
      parentPageId := some detached.parentPageId
      committedDataLength := (only.2 : ℤ)
      tempDataLength := (only.2 : ℤ) } = (IndexPage.leaf page).withParent
        detached.parentPageId := by
    rw [length, joined]
    conv_lhs => rw [← plain.committed]
    rw [IndexPage.withParent, plain.committed, ← plain.temp]
  have entriesEq : newEntries (LeafRecord.indexKey detached.tree.indexType) BranchRecord.ofLeaf
      [(pageId, (plainPart only).records)] =
        some [⟨pageId, last.indexKey detached.tree.indexType, .ofLeaf last pageId⟩] := by
    have lastEq : (plainPart only).records.getLast? = some last := by
      rw [← isLast, ← joined]
      rfl
    simp [newEntries, lastEq]
  generalize placedEq : (detached.tree.setPage pageId
    ((IndexPage.leaf page).withParent detached.parentPageId)).setPage detached.parentPageId
      (.branch parent) = tree'
  refine ⟨tree', ?_, ?_, ?_⟩
  · cases oldEq : detached.brParentOld with
    | none =>
        have sameOld := grown oldEq
        simp only [keepLeaf, Option.bind_eq_bind, entriesEq, Option.bind_some, oldEq, List.map_cons,
          List.map_nil, ← sameOld, parentBack]
        rw [← placedEq, ← pageBack]
        rfl
    | some br =>
        have sameOld := attached.oldEq br oldEq
        simp only [keepLeaf, Option.bind_eq_bind, entriesEq, Option.bind_some, oldEq, sameOld,
          parentBack]
        rw [← placedEq, ← pageBack]
        rfl
  · rw [← placedEq]
    rfl
  · have pagesEq : tree'.pages = tree.pages := by
      funext other
      rw [← placedEq]
      by_cases isParent : other = detached.parentPageId
      · rw [isParent, pages_setPage_self, attached.parentEq]
      · rw [pages_setPage_of_ne isParent]
        by_cases isPage : other = pageId
        · rw [isPage, pages_setPage_self, attached.pageEq]
        · rw [pages_setPage_of_ne isPage, attached.others other isPage isParent]
    have typeEq : tree'.indexType = tree.indexType := by
      rw [← placedEq]
      exact attached.typeEq
    have totalEq : tree'.totalPageCount = tree.totalPageCount := by
      rw [← placedEq]
      exact attached.totalEq
    rw [pagesEq, typeEq, totalEq]

end PlaceLeaf

/-!
## `LeafPage::SplitPage`
-/

section SplitLeaf

variable {tree : IndexTree} {height : ℕ} {layer : ℕ → List PageID} {pageId : PageID}
  {page : LeafPage}

/-- A leaf is split, without its parent. If all records stay in it, it may still get a parent. -/
theorem Invariant.splitLeaf_once (inv : tree.Invariant height layer)
    (pageEq : tree.pages pageId = some (.leaf page)) (nonempty : page.records ≠ []) :
    ∃ detached first rest,
      tree.detach 0 page.parentPageId
          (page.records.getLast?.map fun lr => BranchRecord.ofLeaf lr pageId) = some detached ∧
        page.splitParts = some (first :: rest) ∧ first.records ≠ [] ∧
        first.records ⊆ page.records ∧
        (rest = [] → ∃ kept height' layer', keepLeaf detached pageId page first = some kept ∧
          (if detached.brParentOld.isNone then { kept with rootPageId := detached.parentPageId }
            else kept).Invariant height' layer' ∧ SameBelow tree kept height height' layer layer') ∧
        (rest ≠ [] → ∃ parent placed height' layer',
          placeLeaf detached pageId page first rest = some (parent, placed) ∧
            SplitOnce tree height 0 layer pageId detached (detached.tree.newPageIds rest.length)
              parent placed height' layer') := by
  rcases inv.level_of_page pageEq with ⟨level, levelLe, mem, isLeaf, plain⟩
  subst isLeaf
  rcases List.eq_nil_or_concat page.records with empty | ⟨init, last, recordsEq⟩
  · exact absurd empty nonempty
  have isLast : page.records.getLast? = some last := by simp [recordsEq]
  rcases (plain.records last (List.mem_of_getLast? isLast)).ofLeaf_spec pageId with
    ⟨valid, key, child⟩
  have lastKey : (tree.shape.contents 0 pageId).getLast? =
      some ((BranchRecord.ofLeaf last pageId).indexKey tree.indexType) := by
    rw [Shape.contents_zero, shape_leafKeys, (leafRecords_of_leafPage? pageEq).1, List.getLast?_map,
      isLast, key]
    rfl
  rcases inv.detach_spec pageEq mem levelLe valid child lastKey with
    ⟨detached, grown, height', layer', parent, left, right, old, detachEq, attached,
      same, sameHeight, grownOld⟩
  rcases plain.splitParts_spec with ⟨parts, partsEq, joined, all⟩
  rw [← same.typeEq] at plain
  cases parts with
  | nil => exact absurd joined.symm nonempty
  | cons first rest =>
      have firstPart := all first List.mem_cons_self
      refine ⟨detached, plainPart first, rest.map plainPart, ?_, partsEq,
        firstPart.nonempty, ?_, ?_, ?_⟩
      · rw [isLast]
        exact detachEq
      · rw [← joined, List.flatMap_cons]
        exact List.subset_append_left _ _
      · intro empty
        rw [List.map_eq_nil_iff] at empty
        subst empty
        have firstRecords : first.1 = page.records := by simpa using joined
        rcases attached.keepLeaf_spec plain firstRecords firstPart.length isLast grownOld with
          ⟨kept, keepEq, rootEq, sameTree⟩
        have grownInv := attached.inv
        have grownRoot := attached.rootEq
        rw [← sameTree] at grownInv same
        refine ⟨kept, height', layer', keepEq, ?_, same.records, same.typeEq, same.heightLe,
          same.entries⟩
        rw [grownRoot] at grownInv
        split
        · next isNone =>
            rw [if_pos isNone] at grownInv
            exact grownInv
        · next isSome =>
            rw [if_neg isSome, ← rootEq] at grownInv
            exact grownInv
      · intro several
        rw [Ne, List.map_eq_nil_iff] at several
        rcases attached.placeLeaf_spec plain joined all several with
          ⟨parent', placed, news, newParts, placedEq, rootEq, split⟩
        rcases attached.splitOnce same sameHeight rootEq split with ⟨layer'', once⟩
        rw [List.length_map]
        exact ⟨parent', placed, height', layer'', placedEq, once⟩

/-- Splitting a leaf that is too long keeps the invariant. -/
theorem Invariant.splitLeaf_spec (inv : tree.Invariant height layer)
    (pageEq : tree.pages pageId = some (.leaf page)) (nonempty : page.records ≠ []) :
    ∃ tree' height' layer', tree.splitLeaf pageId = some tree' ∧
      tree'.Invariant height' layer' ∧ tree'.indexType = tree.indexType ∧
      (tree'.allRecords layer').map LeafRecord.inPage =
        (tree.allRecords layer).map LeafRecord.inPage := by
  rcases inv.splitLeaf_once pageEq nonempty with
    ⟨detached, first, rest, detachEq, partsEq, -, -, whenKept, whenSplit⟩
  have pageEq' : tree.leafPage? pageId = some page := by rw [leafPage?, pageEq]
  cases rest with
  | nil =>
      rcases whenKept rfl with ⟨kept, height', layer', keepEq, keptInv, same⟩
      simp only [splitLeaf, Option.bind_eq_bind, pageEq', Option.bind_some, detachEq, partsEq,
        keepEq]
      have sameRecords := congrArg (List.map LeafRecord.inPage) same.records
      split
      · next isNone =>
          rw [if_pos isNone] at keptInv
          exact ⟨_, _, _, rfl, keptInv, same.typeEq, sameRecords⟩
      · next isSome =>
          rw [if_neg isSome] at keptInv
          exact ⟨_, _, _, rfl, keptInv, same.typeEq, sameRecords⟩
  | cons second rest =>
      rcases whenSplit (List.cons_ne_nil second rest) with
        ⟨parent, placed, height', layer', placedEq, once⟩
      have onceInv := once.inv
      simp only [splitLeaf, Option.bind_eq_bind, pageEq', Option.bind_some, detachEq, partsEq,
        placedEq]
      split
      · next isNone =>
          rw [if_pos isNone] at onceInv
          exact ⟨_, _, _, rfl, onceInv, once.typeEq, once.records⟩
      · next isSome =>
          rw [if_neg isSome] at onceInv
          split
          · next force =>
              rcases onceInv.splitBranch_spec once.parentEq once.below once.parentMem
                (fun _ _ => two_parts_of_needForceSplit once.parentPlain force)
                (Nat.lt_add_right _ onceInv.heightLt) with
                ⟨tree', height'', layer'', splitEq, inv', typeEq, sameRecords⟩
              exact ⟨tree', height'', layer'', splitEq, inv', typeEq.trans once.typeEq,
                sameRecords.trans once.records⟩
          · exact ⟨placed, _, _, rfl, onceInv, once.typeEq, once.records⟩

end SplitLeaf

end IndexTree

end RapidDb
