import RapidDb.Core.SearchPage

/-!
# Appending records in sequence

`StartSequenceAppend` takes the root page as the current leaf, and `AppendRecord` puts record after
record behind the last one. A full leaf is followed by a new one, whose record goes into the parent
of the full one. The root page has no parent, so that only records that fit into it are appended.

The pages are found by their ids, and a pointer to a parent is the id of the parent. The records may
have locks and overflow pages, and the assertions are those of a debug build.
-/

namespace RapidDb

/-- What ends an append: a null pointer, a failed assertion, or `AppendRecord` returns false. -/
inductive AppendStop where
  | nullPage
  | nullParent
  | assertion
  | refused
deriving DecidableEq, Repr

namespace LeafPage

/-- A record behind the last one. -/
def append (page : LeafPage) (lr : LeafRecord) : LeafPage :=
  { page with
    records := page.records ++ [lr]
    committedDataLength := page.committedDataLength + lr.pageLength }

/-- `AppendRecord`, none when there is no room. -/
def appendRecord (asserts : Bool) (page : LeafPage) (lr : LeafRecord) (bFullPage : Bool) :
    Except AppendStop (Option LeafPage) :=
  let maxLen := if bFullPage then maxDataLengthLeaf else maxDataLengthLeaf * loadFactor / 100
  if maxLen < asUInt32 (page.committedDataLength + lr.pageLength) then .ok none
  else if asserts && lr.recLock.isSome then .error .assertion
  else .ok (some (page.append lr))

abbrev totalLength (records : List LeafRecord) : ℕ :=
  Segments.total LeafRecord.pageLength records

/-- The lengths of a page are in their ranges, and that of the current versions is none that the
records do not have. -/
structure Counted (page : LeafPage) : Prop where
  committed : 0 ≤ page.committedDataLength ∧ page.committedDataLength < maxDataLengthLeaf
  temp : 0 ≤ page.tempDataLength ∧ page.tempDataLength ≤ totalLength page.records

end LeafPage

def BranchPage.appendRecord (page : BranchPage) (rr : BranchRecord) : Option BranchPage :=
  if maxDataLengthBranch * loadFactor / 100 < asUInt32 page.committedDataLength ∨
      maxDataLengthBranch < asUInt32 (page.committedDataLength + recordLength rr) then
    none
  else
    some
      { page with
        records := page.records ++ [rr]
        committedDataLength := page.committedDataLength + recordLength rr }

/-- The page is not too long, by its counters and by its records as they are now. -/
def IndexPage.NotOverlength : IndexPage → Prop
  | leaf page =>
      page.isOverlength = false ∧ LeafPage.totalLength page.records < maxDataLengthLeaf
  | branch page => page.committedDataLength < maxDataLengthBranch

/-- The keys of the records increase. -/
def Increasing (type : IndexType) (records : List LeafRecord) : Prop :=
  (records.map (LeafRecord.indexKey type)).Pairwise (· < ·)

namespace IndexTree

def setParentPage (tree : IndexTree) (pageId parentId : PageID) : IndexTree :=
  match tree.pages pageId with
  | none => tree
  | some (.leaf page) => tree.setPage pageId (.leaf { page with parentPageId := some parentId })
  | some (.branch page) => tree.setPage pageId (.branch { page with parentPageId := some parentId })

/-- The loop of `AppendRecord` that puts the record of a new page into the parent, or into a new
page beside a full one. Each iteration goes up one level, and there are fewer than pages. -/
def appendToParent (asserts : Bool) (lr : LeafRecord) : ℕ → PageID → Option PageID → IndexTree →
    Except AppendStop IndexTree
  | fuel + 1, idxNew, some parentId, tree =>
      match tree.branchPage? parentId with
      | none => .error .nullParent
      | some parent =>
          let br := BranchRecord.ofLeaf lr idxNew
          match parent.appendRecord br with
          | some parent => .ok (tree.setPage parentId (.branch parent))
          | none =>
              let bp : BranchPage :=
                { pageLevel := parent.pageLevel, parentPageId := parent.parentPageId }
              if asserts && (bp.appendRecord br).isNone then .error .assertion
              else
                let bpId := tree.totalPageCount
                let tree := { tree with totalPageCount := tree.totalPageCount + 1 }
                -- without a parent the level of the null pointer is read for a new root page
                appendToParent asserts lr fuel bpId parent.parentPageId
                  ((tree.setPage bpId (.branch ((bp.appendRecord br).getD bp))).setParentPage idxNew
                    bpId)
  | _, _, _, _ => .error .nullParent

/-- An insertion, with the split of a leaf that becomes too long. -/
def insertSplit (tree : IndexTree) (lr : LeafRecord) : Option IndexTree := do
  let pageId ← tree.searchPage lr
  let tree ← tree.insertRecord lr
  let page ← tree.leafPage? pageId
  if page.isOverlength then tree.splitPage pageId else some tree

/-- A tree with all pages in their layers, sorted separators that bound the pages they lead to, the
parents, the end marks and the links of the leaves, and without a page that is too long. -/
structure WellFormed (tree : IndexTree) (height : ℕ) (layer : ℕ → List PageID) : Prop
    extends tree.Searchable height layer where
  owned : ∀ pageId page, tree.pages pageId = some page → ∃ level ≤ height, pageId ∈ layer level
  heightLt : height < tree.totalPageCount
  rootParent : (tree.pages tree.rootPageId).map IndexPage.parentPageId = some none
  parents : ∀ parentId, ∀ br ∈ tree.branchRecords parentId,
    (tree.pages br.childPage).map IndexPage.parentPageId = some (some parentId)
  ends : ∀ level ≤ height, ∀ before pageId behind, layer level = before ++ pageId :: behind →
    (tree.pages pageId).map IndexPage.endPage = some behind.isEmpty
  links : ∀ before pageId behind, layer 0 = before ++ pageId :: behind →
    (tree.pages pageId).map IndexPage.nextPageId = some behind.head?
  short : ∀ pageId page, tree.pages pageId = some page → page.NotOverlength

theorem Invariant.wellFormed {tree : IndexTree} {height : ℕ} {layer : ℕ → List PageID}
    (inv : tree.Invariant height layer)
    (short : ∀ pageId page, tree.pages pageId = some page → page.NotOverlength) :
    tree.WellFormed height layer :=
  { inv.searchable, inv with short }

end IndexTree

structure SequenceAppend where
  tree : IndexTree
  bFullPage : Bool
  maxPages : ℕ
  currPage : Option PageID

namespace SequenceAppend

/-- `StartSequenceAppend`; the cast to a leaf gives a null pointer for a branch page. -/
def start (asserts : Bool) (tree : IndexTree) (maxPages : ℕ) : Except AppendStop SequenceAppend :=
  if asserts ∧ tree.rootPageId ≠ 0 then .error .assertion
  else
    .ok
      { tree
        bFullPage := false
        maxPages
        currPage := (tree.leafPage? tree.rootPageId).map fun _ => tree.rootPageId }

/-- The part of `IndexTree::AppendRecord` behind a full leaf. -/
def appendLeaf (asserts : Bool) (state : SequenceAppend) (lr : LeafRecord)
    (parentPageId : Option PageID) : Except AppendStop SequenceAppend :=
  let pid := state.tree.totalPageCount
  if state.maxPages < pid then .error .refused
  else
    let lpNew : LeafPage := { parentPageId }
    match lpNew.appendRecord asserts lr state.bFullPage with
    | .error stop => .error stop
    | .ok appended =>
        if asserts && appended.isNone then .error .assertion
        else
          let tree := { state.tree with totalPageCount := pid + 1 }.setPage pid
            (.leaf (appended.getD lpNew))
          (tree.appendToParent asserts lr tree.totalPageCount pid parentPageId).map fun tree =>
            { state with tree, currPage := some pid }

/-- `IndexTree::AppendRecord`. -/
def appendRecord (asserts : Bool) (state : SequenceAppend) (lr : LeafRecord) :
    Except AppendStop SequenceAppend :=
  match state.currPage.bind fun pageId =>
    (state.tree.leafPage? pageId).map fun page => (pageId, page) with
  | none => .error .nullPage
  | some (pageId, page) =>
      if asserts && page.records.getLast?.any fun last =>
          0 ≤ Bytes.bytesCompare (last.indexKey state.tree.indexType)
            (lr.indexKey state.tree.indexType) then
        .error .assertion
      else
        match page.appendRecord asserts lr state.bFullPage with
        | .error stop => .error stop
        | .ok (some page) => .ok { state with tree := state.tree.setPage pageId (.leaf page) }
        | .ok none => state.appendLeaf asserts lr page.parentPageId

/-- The appends succeed without a null pointer and give a tree in order, without a page that is too
long, whose leaves hold the same records as after insertions one by one. -/
def AppendRight (asserts : Bool) (tree : IndexTree) (maxPages : ℕ) (records : List LeafRecord) :
    Prop :=
  ∃ state appended inserted height layer height' layer',
    start asserts tree maxPages = .ok state ∧
      records.foldlM (appendRecord asserts) state = .ok appended ∧
      records.foldlM IndexTree.insertSplit tree = some inserted ∧
      appended.tree.WellFormed height layer ∧ inserted.WellFormed height' layer' ∧
      appended.tree.allRecords layer = inserted.allRecords layer'

end SequenceAppend

/-! ## A leaf as the root page -/

section Run

variable {asserts : Bool} {tree : IndexTree} {layer : ℕ → List PageID} {page : LeafPage}
  {lr : LeafRecord} {records : List LeafRecord} {height : ℕ}

namespace LeafPage

theorem pageLength_lt (lr : LeafRecord) : lr.pageLength < 2 ^ 17 := by
  have actual : lr.getActualLength < 256 ^ 2 := Bytes.fieldAt_lt 2 0 _
  unfold LeafRecord.pageLength LeafRecord.getTotalLength
  split <;> omega

/-- An insertion behind the last record. -/
def insertLast (page : LeafPage) (lr : LeafRecord) : LeafPage :=
  page.insertRecord lr page.records.length

theorem records_insertLast (page : LeafPage) (lr : LeafRecord) :
    (page.insertLast lr).records = page.records ++ [lr] := by
  simp [insertLast, insertRecord]

theorem foldl_append (page : LeafPage) (records : List LeafRecord) :
    records.foldl append page =
      { page with
        records := page.records ++ records
        committedDataLength := page.committedDataLength + totalLength records } := by
  induction records generalizing page with
  | nil => simp
  | cons lr records ih =>
      rw [List.foldl_cons, ih]
      simp [append, add_assoc]

/-- What is the same in a page after insertions behind its last record. -/
theorem foldl_insertLast (page : LeafPage) (records : List LeafRecord) :
    ∃ committed : ℤ, page.committedDataLength ≤ committed ∧
      committed ≤ page.committedDataLength + totalLength records ∧
      records.foldl insertLast page =
        { page with
          records := page.records ++ records
          tempDataLength := page.tempDataLength + totalLength records
          committedDataLength := committed } := by
  induction records generalizing page with
  | nil => exact ⟨page.committedDataLength, le_rfl, by simp, by simp⟩
  | cons lr records ih =>
      rcases ih (page.insertLast lr) with ⟨committed, least, most, same⟩
      refine ⟨committed, ?_, ?_, ?_⟩
      · refine le_trans ?_ least
        simp only [insertLast, insertRecord]
        split <;> omega
      · refine most.trans ?_
        simp only [insertLast, insertRecord, totalLength, Segments.total_cons]
        split <;> omega
      · rw [List.foldl_cons, same]
        simp [insertLast, insertRecord, add_assoc]

theorem isOverlength_of_le
    (committed : 0 ≤ page.committedDataLength ∧ page.committedDataLength < maxDataLengthLeaf)
    (temp : 0 ≤ page.tempDataLength ∧ page.tempDataLength < maxDataLengthLeaf) :
    page.isOverlength = false := by
  have maxEq : maxDataLengthLeaf = 16360 := rfl
  have committedLt : asUInt32 page.committedDataLength < maxDataLengthLeaf := by
    unfold asUInt32
    omega
  have tempLt : asUInt32 page.tempDataLength < maxDataLengthLeaf := by
    unfold asUInt32
    omega
  simp [isOverlength, committedLt, tempLt]

end LeafPage

namespace IndexTree

theorem setPage_setPage (pageId : PageID) (page page' : IndexPage) :
    (tree.setPage pageId page).setPage pageId page' = tree.setPage pageId page' := by
  simp [setPage]

theorem setPage_same {pageId : PageID} {page : IndexPage} (pageEq : tree.pages pageId = some page) :
    tree.setPage pageId page = tree := by
  simp [setPage, ← pageEq]

theorem WellFormed.only_root (wellFormed : tree.WellFormed height layer)
    (atRoot : tree.pages tree.rootPageId = some (.leaf page)) :
    height = 0 ∧ page.parentPageId = none ∧ tree.allRecords layer = page.records ∧
      ∀ pageId, pageId ≠ tree.rootPageId → tree.pages pageId = none := by
  have top := wellFormed.layered.top
  have rootMem : tree.rootPageId ∈ layer height := by simp [top]
  rcases wellFormed.ofLevel height le_rfl _ rootMem with ⟨same, sameEq, ofLevel⟩
  rw [atRoot] at sameEq
  cases sameEq
  have heightEq : height = 0 := ofLevel
  subst heightEq
  have parent := wellFormed.rootParent
  rw [atRoot] at parent
  refine ⟨rfl, Option.some.inj parent, ?_, ?_⟩
  · simp [allRecords, top, (leafRecords_of_leafPage? atRoot).1]
  · intro pageId notRoot
    by_contra there
    rcases Option.ne_none_iff_exists'.mp there with ⟨other, otherEq⟩
    rcases wellFormed.owned pageId other otherEq with ⟨level, levelLe, mem⟩
    rw [Nat.le_zero.mp levelLe, top] at mem
    exact notRoot (List.mem_singleton.mp mem)

theorem map_setPage {α : Type*} {pageId : PageID} {page page' : IndexPage} (field : IndexPage → α)
    (pageEq : tree.pages pageId = some page) (same : field page' = field page) (other : PageID) :
    ((tree.setPage pageId page').pages other).map field = (tree.pages other).map field := by
  by_cases here : other = pageId
  · subst here
    rw [pages_setPage_self, pageEq, Option.map_some, Option.map_some, same]
  · rw [pages_setPage_of_ne here]

/-- A tree of one leaf with other records in it. -/
theorem WellFormed.setRoot (wellFormed : tree.WellFormed height layer)
    (atRoot : tree.pages tree.rootPageId = some (.leaf page)) {page' : LeafPage}
    (sameParent : page'.parentPageId = page.parentPageId) (sameEnd : page'.endPage = page.endPage)
    (sameNext : page'.nextPageId = page.nextPageId)
    (increasing : Increasing tree.indexType page'.records)
    (short : (IndexPage.leaf page').NotOverlength) :
    (tree.setPage tree.rootPageId (.leaf page')).WellFormed height layer := by
  rcases wellFormed.only_root atRoot with ⟨rfl, -, -, others⟩
  have top := wellFormed.layered.top
  have atRoot' : (tree.setPage tree.rootPageId (.leaf page')).pages tree.rootPageId =
      some (.leaf page') := pages_setPage_self
  have only : ∀ pageId content,
      (tree.setPage tree.rootPageId (.leaf page')).pages pageId = some content →
        pageId = tree.rootPageId := by
    intro pageId content pageEq
    by_contra notRoot
    rw [pages_setPage_of_ne notRoot, others pageId notRoot] at pageEq
    cases pageEq
  have inLayer : ∀ level ≤ 0, ∀ pageId ∈ layer level, level = 0 ∧ pageId = tree.rootPageId := by
    intro level levelLe pageId mem
    rw [Nat.le_zero.mp levelLe, top] at mem
    exact ⟨Nat.le_zero.mp levelLe, List.mem_singleton.mp mem⟩
  refine ⟨⟨⟨top, wellFormed.layered.nodup, wellFormed.layered.apart, ?_, ?_, ?_, ?_⟩, ?_, ?_⟩,
    ?_, wellFormed.heightLt, ?_, ?_, ?_, ?_, ?_⟩
  · intro level levelLt
    omega
  · intro level levelLe positive
    omega
  · intro level levelLe pageId mem
    rcases inLayer level levelLe pageId mem with ⟨rfl, rfl⟩
    rw [SeparatorTree.Shape.contents_zero, shape_leafKeys, (leafRecords_of_leafPage? atRoot').1]
    exact increasing
  · intro level levelLt
    omega
  · intro level levelLe pageId mem
    rcases inLayer level levelLe pageId mem with ⟨rfl, rfl⟩
    exact ⟨_, atRoot', rfl⟩
  · intro pageId content pageEq
    rw [only pageId content pageEq]
    exact wellFormed.allocated _ _ atRoot
  · intro pageId content pageEq
    rw [only pageId content pageEq]
    exact wellFormed.owned _ _ atRoot
  · exact (map_setPage _ atRoot sameParent _).trans wellFormed.rootParent
  · intro parentId br mem
    exfalso
    cases pageEq : (tree.setPage tree.rootPageId (.leaf page')).pages parentId with
    | none => simp [branchRecords, pageEq] at mem
    | some content =>
        rw [only parentId content pageEq, (leafRecords_of_leafPage? atRoot').2] at mem
        cases mem
  · intro level levelLe before pageId behind layerEq
    rw [map_setPage _ atRoot sameEnd]
    exact wellFormed.ends level levelLe before pageId behind layerEq
  · intro before pageId behind layerEq
    rw [map_setPage _ atRoot sameNext]
    exact wellFormed.links before pageId behind layerEq
  · intro pageId content pageEq
    obtain rfl := only pageId content pageEq
    rw [atRoot', Option.some.injEq] at pageEq
    exact pageEq ▸ short

theorem insertSplit_last (allocated : tree.rootPageId < tree.totalPageCount)
    (atRoot : tree.pages tree.rootPageId = some (.leaf page))
    (increasing : Increasing tree.indexType (page.records ++ [lr]))
    (short : (page.insertLast lr).isOverlength = false) :
    tree.insertSplit lr = some (tree.setPage tree.rootPageId (.leaf (page.insertLast lr))) := by
  have found : tree.searchPage lr = some tree.rootPageId := by
    rcases Nat.exists_eq_succ_of_ne_zero (Nat.ne_of_gt (Nat.zero_lt_of_lt allocated)) with
      ⟨fuel, fuelEq⟩
    simp [searchPage, fuelEq, searchFrom, atRoot]
  simp only [Increasing, List.map_append, List.map_cons, List.map_nil, List.pairwise_append,
    List.mem_singleton, forall_eq, List.forall_mem_map] at increasing
  rcases increasing with ⟨sorted, -, below⟩
  have isNew : lr.indexKey tree.indexType ∉
      page.records.map (LeafRecord.indexKey tree.indexType) := by
    intro mem
    rcases List.mem_map.mp mem with ⟨other, otherMem, same⟩
    exact absurd same (below other otherMem).ne
  rcases LeafPage.searchRecord_new sorted isNew with ⟨pos, search, -, behind⟩
  have none_behind : page.records.drop pos = [] := by
    apply List.eq_nil_iff_forall_not_mem.mpr
    intro other mem
    exact lt_asymm (behind other mem) (below other (List.mem_of_mem_drop mem))
  have atEnd : page.insertRecord lr pos = page.insertLast lr := by
    have past := List.drop_eq_nil_iff.mp none_behind
    simp [LeafPage.insertLast, LeafPage.insertRecord, List.take_of_length_le past, none_behind]
  have inserted : tree.insertRecord lr =
      some (tree.setPage tree.rootPageId (.leaf (page.insertLast lr))) := by
    simp [insertRecord, found, leafPage?, atRoot, search, atEnd]
  simp [insertSplit, found, inserted, leafPage?, short]

/-- Insertions of records behind the last one, as long as they fit into the root page. -/
theorem insert_run (allocated : tree.rootPageId < tree.totalPageCount)
    (atRoot : tree.pages tree.rootPageId = some (.leaf page)) (counted : page.Counted)
    (increasing : Increasing tree.indexType (page.records ++ records))
    (committed : page.committedDataLength + LeafPage.totalLength records < maxDataLengthLeaf)
    (temp : page.tempDataLength + LeafPage.totalLength records < maxDataLengthLeaf) :
    records.foldlM insertSplit tree =
      some (tree.setPage tree.rootPageId (.leaf (records.foldl LeafPage.insertLast page))) := by
  induction records generalizing tree page with
  | nil => simp [setPage_same atRoot]
  | cons lr records ih =>
      rw [LeafPage.totalLength, Segments.total_cons, Nat.cast_add] at committed temp
      rw [List.append_cons] at increasing
      have increasingLr : Increasing tree.indexType (page.records ++ [lr]) := by
        rw [Increasing, List.map_append] at increasing
        exact (List.pairwise_append.mp increasing).1
      have nonneg := counted.committed.1
      have counted' : (page.insertLast lr).Counted := by
        refine ⟨?_, ?_, ?_⟩
        · simp only [LeafPage.insertLast, LeafPage.insertRecord]
          split <;> constructor <;> omega
        · exact add_nonneg counted.temp.1 (Int.natCast_nonneg _)
        · rw [LeafPage.records_insertLast, LeafPage.totalLength, Segments.total_append,
            Nat.cast_add]
          exact add_le_add counted.temp.2 (by simp)
      have committed' : (page.insertLast lr).committedDataLength ≤
          page.committedDataLength + lr.pageLength := by
        simp only [LeafPage.insertLast, LeafPage.insertRecord]
        split <;> omega
      have temp' : (page.insertLast lr).tempDataLength = page.tempDataLength + lr.pageLength := rfl
      have short := LeafPage.isOverlength_of_le counted'.committed
        ⟨counted'.temp.1, by rw [temp']; omega⟩
      rw [List.foldlM_cons, insertSplit_last allocated atRoot increasingLr short]
      have rest := @ih (tree.setPage tree.rootPageId (.leaf (page.insertLast lr)))
        (page.insertLast lr) allocated pages_setPage_self counted'
        (by rw [LeafPage.records_insertLast]; exact increasing)
        (by rw [LeafPage.totalLength]; omega) (by rw [temp', LeafPage.totalLength]; omega)
      exact rest.trans (congrArg some (setPage_setPage _ _ _))

end IndexTree

namespace SequenceAppend

theorem appendLeaf_none (state : SequenceAppend) (lr : LeafRecord) :
    ∃ stop, state.appendLeaf asserts lr none = .error stop := by
  unfold appendLeaf
  dsimp only
  split
  · exact ⟨_, rfl⟩
  · split
    · exact ⟨_, rfl⟩
    · split
      · exact ⟨_, rfl⟩
      · exact ⟨.nullParent, rfl⟩

theorem appendRecord_eq {state : SequenceAppend} {pageId : PageID}
    (currPage : state.currPage = some pageId) (bFullPage : state.bFullPage = false)
    (pageEq : state.tree.pages pageId = some (.leaf page)) (counted : page.Counted)
    (increasing : Increasing state.tree.indexType (page.records ++ [lr])) :
    state.appendRecord asserts lr =
      if page.committedDataLength + lr.pageLength ≤ 14724 then
        if asserts && lr.recLock.isSome then .error .assertion
        else .ok { state with tree := state.tree.setPage pageId (.leaf (page.append lr)) }
      else state.appendLeaf asserts lr page.parentPageId := by
  have limitEq : maxDataLengthLeaf * loadFactor / 100 = 14724 := by decide
  have maxEq : maxDataLengthLeaf = 16360 := rfl
  have behindLast : (page.records.getLast?.any fun last =>
      decide (0 ≤ Bytes.bytesCompare (last.indexKey state.tree.indexType)
        (lr.indexKey state.tree.indexType))) = false := by
    simp only [Increasing, List.map_append, List.map_cons, List.map_nil, List.pairwise_append,
      List.mem_singleton, forall_eq, List.forall_mem_map] at increasing
    simp only [Option.any_eq_false, decide_eq_false_iff_not, not_le,
      (Bytes.compares_bytesCompare _ _).neg]
    intro last isLast
    exact increasing.2.2 last (List.mem_of_getLast? isLast)
  have length := LeafPage.pageLength_lt lr
  have committed := counted.committed
  have fits_iff : ¬14724 < asUInt32 (page.committedDataLength + lr.pageLength) ↔
      page.committedDataLength + lr.pageLength ≤ 14724 := by
    unfold asUInt32
    omega
  simp only [appendRecord, currPage, IndexTree.leafPage?, pageEq, behindLast, LeafPage.appendRecord,
    bFullPage, limitEq, Option.bind_some, Option.map_some, Bool.and_false, Bool.false_eq_true,
    if_false]
  by_cases fits : page.committedDataLength + lr.pageLength ≤ 14724
  · rw [if_neg (fits_iff.mpr fits), if_pos fits]
    cases asserts && lr.recLock.isSome <;> rfl
  · rw [if_pos (not_not.mp (mt fits_iff.mp fits)), if_neg fits]

/-- All records are appended to the root page. -/
def Appends (asserts : Bool) (page : LeafPage) (records : List LeafRecord) : Prop :=
  page.committedDataLength + LeafPage.totalLength records ≤ 14724 ∧
    (asserts = true → ∀ lr ∈ records, lr.recLock = none)

/-- With a leaf as the root page either all records are appended to it, or an append fails. -/
theorem append_run {state : SequenceAppend} (bFullPage : state.bFullPage = false)
    (currPage : state.currPage = some state.tree.rootPageId)
    (atRoot : state.tree.pages state.tree.rootPageId = some (.leaf page))
    (noParent : page.parentPageId = none) (counted : page.Counted)
    (increasing : Increasing state.tree.indexType (page.records ++ records)) :
    (records = [] ∨ Appends asserts page records →
      records.foldlM (appendRecord asserts) state = .ok { state with
        tree := state.tree.setPage state.tree.rootPageId
          (.leaf (records.foldl LeafPage.append page)) }) ∧
      (records ≠ [] → ¬Appends asserts page records →
        ∃ stop, records.foldlM (appendRecord asserts) state = .error stop) := by
  induction records generalizing state page with
  | nil =>
      refine ⟨fun _ => ?_, fun some => absurd rfl some⟩
      simp only [List.foldlM_nil, List.foldl_nil, IndexTree.setPage_same atRoot]
      rfl
  | cons lr records ih =>
      rw [List.append_cons] at increasing
      have increasingLr : Increasing state.tree.indexType (page.records ++ [lr]) := by
        rw [Increasing, List.map_append] at increasing
        exact (List.pairwise_append.mp increasing).1
      have step := @appendRecord_eq asserts page lr state _ currPage bFullPage atRoot counted
        increasingLr
      have total : (LeafPage.totalLength (lr :: records) : ℤ) =
          lr.pageLength + LeafPage.totalLength records := by
        simp
      have positive : 0 ≤ (LeafPage.totalLength records : ℤ) := Int.natCast_nonneg _
      have fails : (∃ stop, state.appendRecord asserts lr = .error stop) →
          ∃ stop, (lr :: records).foldlM (appendRecord asserts) state = .error stop := by
        rintro ⟨stop, stops⟩
        exact ⟨stop, by rw [List.foldlM_cons, stops]; rfl⟩
      simp only [Appends, total, List.forall_mem_cons]
      by_cases fits : page.committedDataLength + lr.pageLength ≤ 14724
      · rw [if_pos fits] at step
        by_cases lock : (asserts && lr.recLock.isSome) = true
        · rw [if_pos lock] at step
          simp only [Bool.and_eq_true, Option.isSome_iff_ne_none] at lock
          refine ⟨?_, fun _ _ => fails ⟨_, step⟩⟩
          rintro (empty | ⟨-, noLock⟩)
          · cases empty
          · exact absurd (noLock lock.1).1 lock.2
        · rw [if_neg lock] at step
          have noLock : asserts = true → lr.recLock = none := by
            intro isDebug
            simpa [isDebug] using lock
          have counted' : (page.append lr).Counted := by
            have nonneg := counted.committed.1
            have maxEq : maxDataLengthLeaf = 16360 := rfl
            refine ⟨⟨?_, ?_⟩, counted.temp.1, counted.temp.2.trans ?_⟩
            · dsimp only [LeafPage.append]
              omega
            · dsimp only [LeafPage.append]
              omega
            · simp [LeafPage.append]
          have rest := @ih (page.append lr)
            { state with
              tree := state.tree.setPage state.tree.rootPageId (.leaf (page.append lr)) }
            bFullPage currPage IndexTree.pages_setPage_self noParent counted' increasing
          have same : Appends asserts (page.append lr) records ↔
              page.committedDataLength + (lr.pageLength + LeafPage.totalLength records) ≤ 14724 ∧
                (asserts = true → lr.recLock = none ∧ ∀ lr ∈ records, lr.recLock = none) := by
            simp only [Appends, LeafPage.append, add_assoc]
            exact and_congr_right fun _ =>
              ⟨fun others isDebug => ⟨noLock isDebug, others isDebug⟩,
                fun all isDebug => (all isDebug).2⟩
          rw [same] at rest
          simp only [List.foldlM_cons, List.foldl_cons, step]
          refine ⟨?_, ?_⟩
          · rintro (empty | appends)
            · cases empty
            · exact (rest.1 (.inr appends)).trans
                (congrArg (fun tree => Except.ok { state with tree })
                  (IndexTree.setPage_setPage _ _ _))
          · intro _ refused
            refine rest.2 ?_ refused
            rintro rfl
            exact refused ⟨by simpa using fits, fun isDebug => ⟨noLock isDebug, nofun⟩⟩
      · rw [if_neg fits, noParent] at step
        refine ⟨?_, fun _ _ => fails (step ▸ appendLeaf_none state lr)⟩
        rintro (empty | ⟨all, -⟩)
        · cases empty
        · omega

theorem wellFormed_create : (IndexTree.create .nonUnique).WellFormed 0
    (fun level => if level = 0 then [0] else []) := by
  refine (IndexTree.invariant_create .nonUnique).wellFormed ?_
  intro pageId page pageEq
  by_cases atRoot : pageId = 0
  · subst atRoot
    cases pageEq
    exact ⟨by decide, by decide⟩
  · simp [IndexTree.create, Function.update_of_ne atRoot] at pageEq

theorem counted_create (page : LeafPage)
    (atRoot : (IndexTree.create .nonUnique).pages 0 = some (.leaf page)) : page.Counted := by
  cases atRoot
  exact ⟨by decide, by decide⟩

/-- A record of a non-unique index that fills half of a leaf. -/
def longRecord (key : Byte) : LeafRecord :=
  .unlocked
    { addr := 0
      bysVal := [64, 31, 1, 0, key] ++ List.replicate 7995 0
      bSole := false
      indexType := .nonUnique }

end SequenceAppend

end Run

end RapidDb
