import RapidDb.Core.TreeSplit

/-!
# Splitting a branch page

A branch page is split into parts that fit. Its last part, if it is not the only one, takes the end
mark, and the children of the new pages learn of their new parent. The last branch page of a layer
must have at least two parts: `SplitPage` passes the end mark on to the last new page, also if
there is none.
-/

namespace RapidDb

open SeparatorTree

namespace IndexTree

section Adopt

variable {tree : IndexTree} {pageId : PageID}

/-- `tree'` differs from `tree` in the links of its pages only. -/
structure SameRecords (tree tree' : IndexTree) : Prop where
  typeEq : tree'.indexType = tree.indexType
  rootEq : tree'.rootPageId = tree.rootPageId
  totalEq : tree'.totalPageCount = tree.totalPageCount
  pages : ∀ other, (tree'.pages other).map IndexPage.withoutLinks =
    (tree.pages other).map IndexPage.withoutLinks

theorem SameRecords.refl (tree : IndexTree) : SameRecords tree tree :=
  ⟨rfl, rfl, rfl, fun _ => rfl⟩

theorem SameRecords.trans {tree' tree'' : IndexTree} (first : SameRecords tree tree')
    (second : SameRecords tree' tree'') : SameRecords tree tree'' :=
  ⟨second.typeEq.trans first.typeEq, second.rootEq.trans first.rootEq,
    second.totalEq.trans first.totalEq, fun other => (second.pages other).trans (first.pages other)⟩

theorem sameRecords_setPage {page page' : IndexPage} (pageEq : tree.pages pageId = some page)
    (same : page'.withoutLinks = page.withoutLinks) :
    SameRecords tree (tree.setPage pageId page') := by
  refine ⟨rfl, rfl, rfl, fun other => ?_⟩
  by_cases isPage : other = pageId
  · rw [isPage, pages_setPage_self, pageEq, Option.map_some, Option.map_some, same]
  · rw [pages_setPage_of_ne isPage]

theorem setParent_eq {page : IndexPage} (pageEq : tree.pages pageId = some page)
    (parentPageId : PageID) :
    tree.setParent parentPageId pageId =
      some (tree.setPage pageId (page.withParent parentPageId)) := by
  rw [setParent, pageEq]
  cases page <;> rfl

theorem adoptRecords_spec (parentPageId : PageID) {records : List BranchRecord}
    (exist : ∀ br ∈ records, (tree.pages br.childPage).isSome) :
    ∃ tree', adoptRecords parentPageId records tree = some tree' ∧ SameRecords tree tree' ∧
      (∀ br ∈ records,
        (tree'.pages br.childPage).map IndexPage.parentPageId = some (some parentPageId)) ∧
      ∀ other, (∀ br ∈ records, br.childPage ≠ other) → tree'.pages other = tree.pages other := by
  induction records generalizing tree with
  | nil => exact ⟨tree, rfl, SameRecords.refl tree, by simp, fun _ _ => rfl⟩
  | cons br records ih =>
      rcases Option.isSome_iff_exists.mp (exist br List.mem_cons_self) with ⟨page, pageEq⟩
      rcases IndexPage.withParent_fields parentPageId page with ⟨parentEq, -, -, -, sameLinks⟩
      have same := sameRecords_setPage pageEq sameLinks
      have exist' : ∀ other ∈ records, ((tree.setPage br.childPage
          (page.withParent parentPageId)).pages other.childPage).isSome := by
        intro other mem
        have isSome := congrArg Option.isSome (same.pages other.childPage)
        rw [Option.isSome_map, Option.isSome_map] at isSome
        rw [isSome]
        exact exist other (List.mem_cons_of_mem _ mem)
      rcases ih exist' with ⟨tree', adopted, sameRest, parents, kept⟩
      refine ⟨tree', ?_, same.trans sameRest, ?_, ?_⟩
      · rw [adoptRecords, setParent_eq pageEq, Option.bind_some, adopted]
      · intro other mem
        rcases List.mem_cons.mp mem with rfl | mem
        · by_cases again : ∃ later ∈ records, later.childPage = other.childPage
          · rcases again with ⟨later, laterMem, sameChild⟩
            rw [← sameChild]
            exact parents later laterMem
          · rw [kept other.childPage fun later laterMem sameChild => again
              ⟨later, laterMem, sameChild⟩, pages_setPage_self, Option.map_some, parentEq]
        · exact parents other mem
      · intro other notChild
        rw [kept other fun later laterMem => notChild later (List.mem_cons_of_mem _ laterMem)]
        exact pages_setPage_of_ne (notChild br List.mem_cons_self).symm

/-- The children of new pages get their new parents, and no other page is touched. -/
theorem adoptChildren_spec {newPages : List (PageID × BranchPage)}
    (exist : ∀ new ∈ newPages, ∀ br ∈ new.2.records, (tree.pages br.childPage).isSome)
    (nodup : ((newPages.flatMap fun new => new.2.records).map BranchRecord.childPage).Nodup) :
    ∃ tree', adoptChildren newPages tree = some tree' ∧ SameRecords tree tree' ∧
      (∀ new ∈ newPages, ∀ br ∈ new.2.records,
        (tree'.pages br.childPage).map IndexPage.parentPageId = some (some new.1)) ∧
      ∀ other, (∀ new ∈ newPages, ∀ br ∈ new.2.records, br.childPage ≠ other) →
        tree'.pages other = tree.pages other := by
  induction newPages generalizing tree with
  | nil => exact ⟨tree, rfl, SameRecords.refl tree, by simp, fun _ _ => rfl⟩
  | cons new newPages ih =>
      rw [List.flatMap_cons, List.map_append, List.nodup_append] at nodup
      rcases adoptRecords_spec new.1 (exist new List.mem_cons_self) with
        ⟨middle, adopted, same, parents, kept⟩
      have exist' : ∀ other ∈ newPages, ∀ br ∈ other.2.records,
          (middle.pages br.childPage).isSome := by
        intro other mem br brMem
        have isSome := congrArg Option.isSome (same.pages br.childPage)
        rw [Option.isSome_map, Option.isSome_map] at isSome
        rw [isSome]
        exact exist other (List.mem_cons_of_mem _ mem) br brMem
      rcases ih exist' nodup.2.1 with ⟨tree', adoptedRest, sameRest, parentsRest, keptRest⟩
      refine ⟨tree', ?_, same.trans sameRest, ?_, ?_⟩
      · rw [adoptChildren, adopted, Option.bind_some, adoptedRest]
      · intro other mem br brMem
        rcases List.mem_cons.mp mem with rfl | mem
        · rw [keptRest br.childPage, parents br brMem]
          intro later laterMem later' laterMem' sameChild
          refine nodup.2.2 br.childPage (List.mem_map_of_mem brMem) br.childPage ?_ rfl
          rw [← sameChild]
          exact List.mem_map_of_mem (List.mem_flatMap.mpr ⟨later, laterMem, laterMem'⟩)
        · exact parentsRest other mem br brMem
      · intro other notChild
        rw [keptRest other fun later laterMem => notChild later (List.mem_cons_of_mem _ laterMem)]
        exact kept other (notChild new List.mem_cons_self)

end Adopt

/-!
## The new pages
-/

section NewBranchPages

variable {pageLevel : ℕ} {parentPageId : PageID} {endPage : Bool}
  {parts : List (PageID × List BranchRecord × ℕ)}

theorem map_newBranchPages :
    (newBranchPages pageLevel parentPageId endPage parts).map
        (fun new => (new.1, new.2.records, new.2.committedDataLength)) =
      parts.map fun part => (part.1, part.2.1, (part.2.2 : ℤ)) := by
  induction parts with
  | nil => rfl
  | cons part parts ih => rw [newBranchPages, List.map_cons, List.map_cons, ih]

theorem newBranchPages_fields {new : PageID × BranchPage}
    (mem : new ∈ newBranchPages pageLevel parentPageId endPage parts) :
    new.2.pageLevel = pageLevel ∧ new.2.parentPageId = some parentPageId := by
  induction parts with
  | nil => cases mem
  | cons part parts ih =>
      rw [newBranchPages, List.mem_cons] at mem
      rcases mem with rfl | mem
      · exact ⟨rfl, rfl⟩
      · exact ih mem

theorem newBranchPages_ends {before behind : List (PageID × BranchPage)} {new : PageID × BranchPage}
    (position : newBranchPages pageLevel parentPageId endPage parts = before ++ new :: behind) :
    new.2.endPage = (behind.isEmpty && endPage) := by
  induction parts generalizing before with
  | nil => simp [newBranchPages] at position
  | cons part parts ih =>
      rw [newBranchPages] at position
      cases before with
      | nil =>
          rcases List.cons.inj position with ⟨rfl, rfl⟩
          cases parts with
          | nil => simp [newBranchPages]
          | cons next parts => simp [newBranchPages]
      | cons first before => exact ih (List.cons.inj position).2

end NewBranchPages

/-!
## The parts of a branch page
-/

section PlaceBranch

variable {tree : IndexTree} {detached : Detached} {height level : ℕ} {layer : ℕ → List PageID}
  {pageId : PageID} {page : BranchPage} {parent : BranchPage} {left right : List BranchRecord}
  {old : BranchRecord} {first : List BranchRecord × ℕ} {rest : List (List BranchRecord × ℕ)}

theorem Attached.exact {page : IndexPage}
    (attached : tree.Attached detached height level layer pageId page parent left right old)
    (notLeaf : level ≠ 0) (notEnd : page.endPage = false) :
    (tree.shape.contents level pageId).getLast? = some (old.indexKey tree.indexType) := by
  rcases List.append_of_mem attached.parentMem with ⟨before, behind, layerEq⟩
  have covers := attached.inv.layered.covers level attached.below
  have children := attached.inv.layered.children level attached.below
  have entriesEq := layerEntries_eq attached.parentEq attached.recordsEq layerEq
  rw [attached.child] at entriesEq
  rw [entriesEq] at covers children
  rw [List.map_append, List.map_cons] at children
  have isEnd := attached.inv.ends level (le_of_lt attached.below) _ _ _ children
  rw [attached.pageEq, Option.map_some, (IndexPage.withParent_fields _ _).2.1, notEnd,
    Option.some.injEq] at isEnd
  refine (bounds_of_right covers ?_).2 notLeaf
  intro empty
  rw [empty] at isEnd
  cases isEnd

theorem Attached.placeBranch_spec
    (attached : tree.Attached detached height level layer pageId (.branch page) parent left right
      old)
    (plain : page.Plain) (levelEq : page.pageLevel = level) (notLeaf : level ≠ 0)
    (joined : (first :: rest).flatMap Prod.fst = page.records)
    (all : ∀ part ∈ first :: rest,
      Segments.Part BranchPage.recordLength (maxDataLengthBranch * loadFactor / 100)
        maxDataLengthBranch part)
    (notEnd : page.endPage = true → rest ≠ []) :
    ∃ parent' tree' news parts,
      placeBranch detached pageId page first rest = some (parent', tree') ∧
        tree'.rootPageId = detached.tree.rootPageId ∧
        SplitInto tree { tree' with rootPageId := tree.rootPageId } level detached.parentPageId
          pageId ((IndexPage.branch page).withParent detached.parentPageId) parent
            parent' left right
          news old (detached.tree.newPageIds rest.length) parts := by
  have inv := attached.inv
  -- the new pages, and what is in them
  generalize freshEq : List.range' tree.totalPageCount rest.length = fresh
  rcases attached.fresh_spec freshEq with
    ⟨idsEq, freshLength, freshNodup, -, pageNotFresh, parentNotFresh⟩
  have zipIds : (fresh.zip rest).map Prod.fst = fresh :=
    List.map_fst_zip (le_of_eq freshLength)
  have zipParts : (fresh.zip rest).map Prod.snd = rest :=
    List.map_snd_zip (le_of_eq freshLength.symm)
  generalize newPagesEq : newBranchPages page.pageLevel detached.parentPageId page.endPage
    (fresh.zip rest) = newPages
  have newFields : newPages.map (fun new => (new.1, new.2.records, new.2.committedDataLength)) =
      (fresh.zip rest).map fun part => (part.1, part.2.1, (part.2.2 : ℤ)) := by
    rw [← newPagesEq]
    exact map_newBranchPages
  have newIds : newPages.map Prod.fst = fresh := by
    rw [← zipIds]
    simpa [Function.comp_def] using congrArg (List.map Prod.fst) newFields
  have newRecords : (newPages.flatMap fun new => new.2.records) = rest.flatMap Prod.fst := by
    have recordsEq := congrArg (List.flatMap fun new => new.2.1) newFields
    rw [List.flatMap_map, List.flatMap_map] at recordsEq
    rw [recordsEq]
    conv_rhs => rw [← zipParts, List.flatMap_map]
  have newPairs : newPages.map (fun new => (new.1, new.2.records)) =
      fresh.zip (rest.map Prod.fst) := by
    rw [List.zip_map_right]
    simpa [Function.comp_def, Prod.map_def] using
      congrArg (List.map fun new => (new.1, new.2.1)) newFields
  generalize firstEq : { page with
    records := first.1
    parentPageId := some detached.parentPageId
    endPage := false
    committedDataLength := (first.2 : ℤ) } = firstPage
  generalize partsEq : (pageId, IndexPage.branch firstPage) ::
    newPages.map (fun new => (new.1, IndexPage.branch new.2)) = parts
  have partIds : parts.map Prod.fst = pageId :: fresh := by
    rw [← partsEq, ← newIds]
    simp [Function.comp_def]
  have partRecords : (parts.flatMap fun part => part.2.records.2) = page.records := by
    rw [← partsEq, ← joined, List.flatMap_cons, List.flatMap_cons, List.flatMap_map, ← newRecords,
      ← firstEq]
    rfl
  have noLeafRecords : (parts.flatMap fun part => part.2.records.1).map LeafRecord.inPage = [] := by
    rw [← partsEq, List.flatMap_cons, List.flatMap_map]
    simp [IndexPage.records]
  have partPairs : (pageId, first.1) :: fresh.zip (rest.map Prod.fst) =
      parts.map fun part => (part.1, part.2.records.2) := by
    rw [← partsEq, ← newPairs, ← firstEq]
    simp [Function.comp_def, IndexPage.records]
  have parentNotPage := attached.parent_ne
  have pageRecords : tree.branchRecords pageId = page.records :=
    (branchRecords_of_branchPage? attached.pageEq).1
  have childOther : ∀ br ∈ page.records, br.childPage ∉ pageId :: fresh ∧
      br.childPage ≠ detached.parentPageId ∧ (tree.pages br.childPage).isSome :=
    fun br mem => attached.child_other freshEq mem
  have newChild : ∀ new ∈ newPages, ∀ br ∈ new.2.records, br ∈ page.records := by
    intro new mem br brMem
    rw [← joined, List.flatMap_cons, ← newRecords]
    exact List.mem_append_right _ (List.mem_flatMap.mpr ⟨new, mem, brMem⟩)
  -- the records for the parent
  have nonempty : ∀ part ∈ (pageId, first.1) :: fresh.zip (rest.map Prod.fst), part.2 ≠ [] := by
    intro part mem
    have inParts : part.2 ∈ (first :: rest).map Prod.fst := by
      rcases List.mem_cons.mp mem with rfl | mem
      · simp
      · exact List.mem_cons_of_mem _ (List.of_mem_zip mem).2
    rcases List.mem_map.mp inParts with ⟨one, oneMem, same⟩
    rw [← same]
    exact (all one oneMem).nonempty
  rcases newEntries_spec (BranchRecord.indexKey tree.indexType)
    (BranchRecord.ofBranch tree.indexType) _ nonempty with ⟨entries, entriesEq, entryIds, entryAll⟩
  rw [partPairs, List.map_map] at entryIds
  have entryIds' : entries.map NewEntry.pageId = pageId :: fresh := entryIds.trans partIds
  generalize parentEq' : detached.parentPage.insertRecords
    (splitRecords tree.indexType detached.brParentOld entries) detached.posInParent = parent'
  -- the tree before the children learn of their new parents
  generalize baseEq : ((({ detached.tree with
      totalPageCount := detached.tree.totalPageCount + rest.length } : IndexTree).setPage pageId
        (.branch firstPage)).setPage detached.parentPageId (.branch parent')).setPages
          (newPages.map fun new => (new.1, IndexPage.branch new.2)) = base
  have newIds' : (newPages.map fun new => (new.1, IndexPage.branch new.2)).map
    Prod.fst = fresh := by
    rw [← newIds, List.map_map]
    rfl
  have basePage : base.pages pageId = some (.branch firstPage) := by
    rw [← baseEq, pages_setPages_of_not_mem (newIds' ▸ pageNotFresh),
      pages_setPage_of_ne parentNotPage.symm, pages_setPage_self]
  have baseParent : base.pages detached.parentPageId = some (.branch parent') := by
    rw [← baseEq, pages_setPages_of_not_mem (newIds' ▸ parentNotFresh), pages_setPage_self]
  have baseNew : ∀ new ∈ newPages, base.pages new.1 = some (.branch new.2) := by
    intro new mem
    rw [← baseEq]
    refine pages_setPages_of_mem (newIds' ▸ freshNodup) ?_
    exact List.mem_map_of_mem mem
  have baseOther : ∀ other, other ∉ pageId :: fresh → other ≠ detached.parentPageId →
      base.pages other = tree.pages other := by
    intro other notPart notParent
    rw [List.mem_cons, not_or] at notPart
    rw [← baseEq, pages_setPages_of_not_mem (newIds' ▸ notPart.2), pages_setPage_of_ne notParent,
      pages_setPage_of_ne notPart.1]
    exact attached.others other notPart.1 notParent
  have childrenNodup : ((newPages.flatMap fun new => new.2.records).map
      BranchRecord.childPage).Nodup := by
    have nodup := inv.children_nodup pageId
    rw [pageRecords, ← joined, List.flatMap_cons, List.map_append, List.nodup_append] at nodup
    rw [newRecords]
    exact nodup.2.1
  have childExists : ∀ new ∈ newPages, ∀ br ∈ new.2.records,
      (base.pages br.childPage).isSome := by
    intro new mem br brMem
    rcases childOther br (newChild new mem br brMem) with ⟨notPart, notParent, isSome⟩
    rw [baseOther _ notPart notParent]
    exact isSome
  rcases adoptChildren_spec childExists childrenNodup with ⟨tree', adopted, same, parents, kept⟩
  have keptPart : ∀ other, other ∈ pageId :: fresh ∨ other = detached.parentPageId →
      tree'.pages other = base.pages other := by
    intro other concerned
    refine kept other ?_
    rintro new mem br brMem rfl
    rcases childOther br (newChild new mem br brMem) with ⟨notPart, notParent, -⟩
    exact concerned.elim notPart notParent
  have typeEq : tree'.indexType = tree.indexType := by
    rw [same.typeEq, ← baseEq, (setPages_fields _ _).1]
    exact attached.typeEq
  have rootEq : tree'.rootPageId = detached.tree.rootPageId := by
    rw [same.rootEq, ← baseEq, (setPages_fields _ _).2.1]
    rfl
  have totalEq : tree'.totalPageCount = tree.totalPageCount + fresh.length := by
    rw [same.totalEq, ← baseEq, (setPages_fields _ _).2.2, freshLength, ← attached.totalEq]
    rfl
  have partPages : ∀ part ∈ parts, tree'.pages part.1 = some part.2 ∧
      part.2.Plain tree.indexType level ∧
      part.2.parentPageId = some detached.parentPageId := by
    intro part mem
    have isPart : part.1 ∈ pageId :: fresh := by
      rw [← partIds]
      exact List.mem_map_of_mem mem
    have recordsPlain : ∀ br ∈ part.2.records.2, br.Valid := by
      intro br brMem
      refine plain.records br ?_
      rw [← partRecords]
      exact List.mem_flatMap.mpr ⟨part, mem, brMem⟩
    rw [keptPart part.1 (Or.inl isPart)]
    rw [← partsEq, List.mem_cons] at mem
    rcases mem with rfl | mem
    · refine ⟨basePage, ⟨notLeaf, ?_, recordsPlain, ?_⟩, ?_⟩
      · rw [← firstEq]
        exact levelEq
      · rw [← firstEq]
        exact congrArg Nat.cast (all first List.mem_cons_self).length
      · rw [← firstEq]
        rfl
    · rcases List.mem_map.mp mem with ⟨new, newMem, rfl⟩
      have fields := newBranchPages_fields (newPagesEq ▸ newMem)
      have lengths : (new.1, new.2.records, new.2.committedDataLength) ∈
          newPages.map fun new => (new.1, new.2.records, new.2.committedDataLength) :=
        List.mem_map_of_mem newMem
      rw [newFields] at lengths
      rcases List.mem_map.mp lengths with ⟨one, oneMem, oneEq⟩
      simp only [Prod.mk.injEq] at oneEq
      have oneAll := all one.2 (List.mem_cons_of_mem _ (List.of_mem_zip oneMem).2)
      refine ⟨baseNew new newMem, ⟨notLeaf, fields.1.trans levelEq, recordsPlain, ?_⟩, fields.2⟩
      rw [← oneEq.2.2, ← oneEq.2.1]
      exact congrArg Nat.cast oneAll.length
  have lasts : ∀ entry ∈ entries,
      (tree'.shape.contents level entry.pageId).getLast? = some entry.lastKey := by
    intro entry mem
    rcases entryAll entry mem with ⟨records, last, pairMem, isLast, lastKey, -⟩
    rw [partPairs] at pairMem
    rcases List.mem_map.mp pairMem with ⟨part, partMem, partEq⟩
    simp only [Prod.mk.injEq] at partEq
    rcases Nat.exists_eq_succ_of_ne_zero notLeaf with ⟨lower, rfl⟩
    rw [Shape.contents_succ, shape_entries, IndexTree.branchRecords, ← partEq.1,
      (partPages part partMem).1, Option.map_some, Option.getD_some, partEq.2, List.map_map,
      List.getLast?_map, isLast, lastKey, typeEq]
    rfl
  rw [idsEq]
  refine ⟨parent', tree', splitRecords tree.indexType detached.brParentOld entries, parts, ?_,
    rootEq, ?_⟩
  · rw [← attached.typeEq] at entriesEq parentEq'
    simp [placeBranch, idsEq, newPagesEq, firstEq, entriesEq, parentEq', baseEq, adopted]
  · have notChild : ∀ other, (∀ part ∈ parts.tail, ∀ br ∈ part.2.records.2,
        br.childPage ≠ other) → ∀ new ∈ newPages, ∀ br ∈ new.2.records, br.childPage ≠ other := by
      intro other notChild new mem br brMem
      refine notChild (new.1, .branch new.2) ?_ br brMem
      rw [← partsEq, List.tail_cons]
      exact List.mem_map_of_mem mem
    rw [← parentEq']
    refine attached.splitInto typeEq rfl totalEq ?_ ?_ partIds entryIds' ?_ lasts ?_ partPages
      noLeafRecords partRecords ?_ ?_ ?_ ?_ ?_
    · rw [freshLength, freshEq]
    · rw [parentEq']
      exact (keptPart _ (Or.inr rfl)).trans baseParent
    · intro entry mem
      rcases entryAll entry mem with ⟨records, last, pairMem, isLast, lastKey, recordEq⟩
      rw [partPairs] at pairMem
      rcases List.mem_map.mp pairMem with ⟨part, partMem, partEq⟩
      simp only [Prod.mk.injEq] at partEq
      have lastMem : last ∈ page.records := by
        rw [← partRecords]
        refine List.mem_flatMap.mpr ⟨part, partMem, ?_⟩
        rw [partEq.2]
        exact List.mem_of_getLast? isLast
      rcases BranchRecord.ofBranch_spec tree.indexType (plain.records last lastMem)
        entry.pageId with
        ⟨valid, key, child⟩
      rw [← recordEq] at valid key child
      exact ⟨valid, key.trans lastKey.symm, child⟩
    · intro entry single
      have alone : fresh = [] := by
        rw [single] at entryIds'
        exact (List.cons.inj entryIds').2.symm
      have restEmpty : rest = [] := by
        rw [alone] at freshLength
        exact List.length_eq_zero_iff.mp freshLength.symm
      have notEndPage : page.endPage = false := by
        cases isEnd : page.endPage with
        | false => rfl
        | true => exact absurd restEmpty (notEnd isEnd)
      have oldKey := attached.exact notLeaf notEndPage
      have contents := contents_parts level rfl typeEq attached.pageEq
        (fun part mem => (partPages part mem).1) noLeafRecords partRecords
      have entryId : entry.pageId = pageId := by
        rw [single] at entryIds'
        exact (List.cons.inj entryIds').1
      have lastKey := lasts entry (by simp [single])
      rw [partIds, alone, List.flatMap_singleton] at contents
      rw [entryId, contents, oldKey] at lastKey
      exact le_of_eq (Option.some.inj lastKey)
    · intro before part behind position
      rw [← partsEq] at position
      cases before with
      | nil =>
          rcases List.cons.inj position with ⟨rfl, rfl⟩
          have freshEmpty : newPages = [] → rest = [] := by
            intro empty
            rw [← newIds, empty] at freshLength
            exact List.length_eq_zero_iff.mp freshLength.symm
          rw [← firstEq]
          cases isEnd : page.endPage with
          | false => simp [IndexPage.endPage, isEnd]
          | true =>
              have notEmpty : newPages ≠ [] := fun empty => notEnd isEnd (freshEmpty empty)
              simp [IndexPage.endPage, isEnd, notEmpty]
      | cons head before =>
          rcases List.map_eq_append_iff.mp (List.cons.inj position).2 with
            ⟨front, rear, frontEq, rfl, rearEq⟩
          rcases List.map_eq_cons_iff.mp rearEq with ⟨new, rear, rfl, rfl, rfl⟩
          have isEnd := newBranchPages_ends (newPagesEq.trans frontEq)
          simpa [IndexPage.endPage] using isEnd
    · exact fun before part behind position isLeaf => absurd isLeaf notLeaf
    · intro other notPart notParent
      rw [← baseOther other notPart notParent]
      exact same.pages other
    · intro part mem br brMem
      rw [← partsEq, List.tail_cons] at mem
      rcases List.mem_map.mp mem with ⟨new, newMem, rfl⟩
      exact parents new newMem br brMem
    · intro other notPart notParent notAdopted
      rw [← baseOther other notPart notParent]
      exact congrArg _ (kept other (notChild other notAdopted))

end PlaceBranch

/-!
## `BranchPage::SplitPage`
-/

theorem two_parts {page : BranchPage} (plain : page.Plain)
    (long : maxDataLengthBranch < Segments.total BranchPage.recordLength page.records ∨
      maxDataLengthBranch * loadFactor / 100 <
        Segments.total BranchPage.recordLength page.records.dropLast)
    {parts : List (List BranchRecord × ℕ)} (partsEq : page.splitParts = some parts) :
    2 ≤ parts.length := by
  rcases plain.splitParts_spec with ⟨same, sameEq, joined, all⟩
  rw [partsEq, Option.some.injEq] at sameEq
  subst sameEq
  match parts, joined, all with
  | [], joined, _ =>
      rw [← joined] at long
      simp only [List.flatMap_nil, List.dropLast_nil, Segments.total_nil] at long
      omega
  | [only], joined, all =>
      have fits := (all only List.mem_cons_self).fits
      have length := (all only List.mem_cons_self).length
      have filled := (all only List.mem_cons_self).filled
      rw [← joined, List.flatMap_singleton] at long
      omega
  | _ :: _ :: _, _, _ => simp

theorem two_parts_of_needForceSplit {page : BranchPage} (plain : page.Plain)
    (force : page.needForceSplit = true) {parts : List (List BranchRecord × ℕ)}
    (partsEq : page.splitParts = some parts) : 2 ≤ parts.length := by
  have long : loadThreshold < asUInt32 page.committedDataLength := by
    simpa [BranchPage.needForceSplit] using force
  have lengthLe := asUInt32_natCast_le (Segments.total BranchPage.recordLength page.records)
  rw [plain.committed] at long
  have thresholdEq : loadThreshold = 81920 := rfl
  have maxEq : maxDataLengthBranch = 16368 := rfl
  exact two_parts plain (Or.inl (by omega)) partsEq

/-- The tree behind the split of a page whose parent has not been split yet. The root page is the
parent if that is new. -/
structure SplitOnce (tree : IndexTree) (height level : ℕ) (layer : ℕ → List PageID)
    (pageId : PageID) (detached : Detached) (newPages : List PageID) (parent : BranchPage)
    (placed : IndexTree) (height' : ℕ) (layer' : ℕ → List PageID) : Prop where
  inv : (if detached.brParentOld.isNone then { placed with rootPageId := detached.parentPageId }
    else placed).Invariant height' layer'
  typeEq : placed.indexType = tree.indexType
  records : (placed.allRecords layer').map LeafRecord.inPage =
    (tree.allRecords layer).map LeafRecord.inPage
  parentEq : placed.pages detached.parentPageId = some (.branch parent)
  parentMem : detached.parentPageId ∈ layer' (level + 1)
  parentPlain : parent.Plain
  below : level < height'
  heightLe : height ≤ height'
  sameHeight : detached.brParentOld.isNone = false → height' = height
  notNew : pageId ∉ newPages
  entries : EntriesSplit tree placed height level layer layer' pageId newPages

section SplitOnce

variable {tree grown placed : IndexTree} {detached : Detached} {height height' level : ℕ}
  {layer layer' : ℕ → List PageID} {pageId : PageID} {page : IndexPage}
  {parent parent' : BranchPage} {left right news : List BranchRecord} {old : BranchRecord}
  {newPages : List PageID} {parts : List (PageID × IndexPage)}

theorem Attached.splitOnce
    (attached : grown.Attached detached height' level layer' pageId page parent left right old)
    (same : SameBelow tree grown height height' layer layer')
    (sameHeight : detached.brParentOld.isNone = false → height' = height)
    (rootEq : placed.rootPageId = detached.tree.rootPageId)
    (split : SplitInto grown { placed with rootPageId := grown.rootPageId } level
      detached.parentPageId pageId (page.withParent detached.parentPageId) parent parent' left right
      news old newPages parts) :
    ∃ layer'', SplitOnce tree height level layer pageId detached newPages parent' placed height'
      layer'' := by
  rcases attached.inv.split split attached.below attached.parentMem with
    ⟨layer'', splitInv, sameLayer, sameRecords, entries⟩
  have grownRoot := attached.rootEq
  refine ⟨layer'', ?_⟩
  exact
    { inv := by
        rw [grownRoot] at splitInv
        split
        · next isNone =>
            rw [if_pos isNone] at splitInv
            exact splitInv
        · next isSome =>
            rw [if_neg isSome, ← rootEq] at splitInv
            exact splitInv
      typeEq := split.typeEq.trans same.typeEq
      records := sameRecords.trans (congrArg _ same.records)
      parentEq := split.parentNew
      parentMem := by
        rw [sameLayer]
        exact attached.parentMem
      parentPlain := split.parentPlain
      below := attached.below
      heightLe := same.heightLe
      sameHeight := sameHeight
      notNew := by
        intro isNew
        have unallocated := split.fresh_unallocated attached.inv isNew
        rw [attached.pageEq] at unallocated
        cases unallocated
      entries :=
        { others := by
            intro lower lowerLt notLevel
            rw [← same.entries lower lowerLt]
            exact entries.others lower (lt_of_lt_of_le lowerLt same.heightLe) notLevel
          replaced := by
            intro levelLt
            rw [← same.entries level levelLt]
            exact entries.replaced attached.below } }

theorem Invariant.splitBranch_once {page : BranchPage} (inv : tree.Invariant height layer)
    (pageEq : tree.pages pageId = some (.branch page)) (levelLe : level ≤ height)
    (mem : pageId ∈ layer level)
    (parted : page.endPage = true → ∀ parts, page.splitParts = some parts → 2 ≤ parts.length) :
    ∃ detached first rest parent placed height' layer',
      tree.detach page.pageLevel page.parentPageId
          (page.records.getLast?.map fun br => br.ofBranch tree.indexType pageId) = some detached ∧
        page.splitParts = some (first :: rest) ∧ ¬(page.endPage && rest.isEmpty) = true ∧
        placeBranch detached pageId page first rest = some (parent, placed) ∧
        SplitOnce tree height level layer pageId detached (detached.tree.newPageIds rest.length)
          parent placed height' layer' := by
  rcases inv.plain level levelLe pageId mem with ⟨found, foundEq, plain⟩
  rw [pageEq, Option.some.injEq] at foundEq
  subst foundEq
  rcases plain with ⟨notLeaf, levelEq, plain⟩
  have pageRecords := (branchRecords_of_branchPage? pageEq).1
  have nonempty := inv.layered.nonempty level levelLe (Nat.pos_of_ne_zero notLeaf) pageId mem
  rw [shape_entries, pageRecords] at nonempty
  have recordsNonempty : page.records ≠ [] := by
    rintro empty
    exact nonempty (by rw [empty]; rfl)
  rcases List.eq_nil_or_concat page.records with empty | ⟨init, last, recordsEq⟩
  · exact absurd empty recordsNonempty
  have isLast : page.records.getLast? = some last := by simp [recordsEq]
  have lastValid := plain.records last (List.mem_of_getLast? isLast)
  rcases BranchRecord.ofBranch_spec tree.indexType lastValid pageId with ⟨valid, key, child⟩
  have lastKey : (tree.shape.contents level pageId).getLast? =
      some ((last.ofBranch tree.indexType pageId).indexKey tree.indexType) := by
    rcases Nat.exists_eq_succ_of_ne_zero notLeaf with ⟨lower, rfl⟩
    rw [Shape.contents_succ, shape_entries, pageRecords, List.map_map, List.getLast?_map, isLast,
      key]
    rfl
  rcases inv.detach_spec pageEq mem levelLe valid child lastKey with
    ⟨detached, grown, height', layer', parent, left, right, old, detachEq, attached,
      same, sameHeight, -⟩
  rcases plain.splitParts_spec with ⟨parts, partsEq, joined, all⟩
  cases parts with
  | nil => exact absurd joined.symm recordsNonempty
  | cons first rest =>
      have notEnd : page.endPage = true → rest ≠ [] := by
        intro isEnd empty
        have two := parted isEnd _ partsEq
        simp [empty] at two
      rcases attached.placeBranch_spec plain levelEq notLeaf joined all notEnd with
        ⟨parent', placed, news, newParts, placedEq, rootEq, split⟩
      rcases attached.splitOnce same sameHeight rootEq split with ⟨layer'', once⟩
      refine ⟨detached, first, rest, parent', placed, height', layer'', ?_, partsEq, ?_, placedEq,
        once⟩
      · rw [isLast, levelEq]
        exact detachEq
      · simpa [Bool.and_eq_true] using notEnd

/-- Splitting a branch page keeps the invariant. If it is the last page of its layer it must have
at least two parts. -/
theorem Invariant.splitBranch_spec {fuel : ℕ} {page : BranchPage}
    (inv : tree.Invariant height layer) (pageEq : tree.pages pageId = some (.branch page))
    (levelLe : level ≤ height) (mem : pageId ∈ layer level)
    (parted : page.endPage = true → ∀ parts, page.splitParts = some parts → 2 ≤ parts.length)
    (enough : height < fuel + level) :
    ∃ tree' height' layer', splitBranch fuel tree pageId = some tree' ∧
      tree'.Invariant height' layer' ∧ tree'.indexType = tree.indexType ∧
      (tree'.allRecords layer').map LeafRecord.inPage =
        (tree.allRecords layer).map LeafRecord.inPage := by
  induction fuel generalizing tree height level layer pageId page with
  | zero => omega
  | succ fuel ih =>
      rcases inv.splitBranch_once pageEq levelLe mem parted with
        ⟨detached, first, rest, parent, placed, height', layer', detachEq, partsEq, proceeds,
          placedEq, once⟩
      have pageEq' : tree.branchPage? pageId = some page := by rw [branchPage?, pageEq]
      have onceInv := once.inv
      simp only [splitBranch, Option.bind_eq_bind, pageEq', Option.bind_some, detachEq, partsEq,
        placedEq, if_neg proceeds]
      split
      · next isNone =>
          rw [if_pos isNone] at onceInv
          exact ⟨_, _, _, rfl, onceInv, once.typeEq, once.records⟩
      · next isSome =>
          rw [if_neg isSome] at onceInv
          split
          · next force =>
              have heightEq := once.sameHeight (Bool.not_eq_true _ ▸ isSome)
              rcases ih onceInv once.parentEq once.below once.parentMem
                (fun _ _ => two_parts_of_needForceSplit once.parentPlain force) (by omega) with
                ⟨tree', height'', layer'', splitEq, inv', typeEq, sameRecords⟩
              exact ⟨tree', height'', layer'', splitEq, inv', typeEq.trans once.typeEq,
                sameRecords.trans once.records⟩
          · exact ⟨placed, _, _, rfl, onceInv, once.typeEq, once.records⟩

end SplitOnce

end IndexTree

end RapidDb
