import RapidDb.Core.IndexTree
import RapidDb.Library.SeparatorTree

/-!
# The invariant of an index tree

The pages of a tree are arranged in layers, from the leaves up to the root page. Each branch
record leads to a page of the layer below, and that page knows its parent. The last page of a
layer is marked as the end page, and the next-page links go through the lowest layer.
-/

namespace RapidDb

open SeparatorTree

namespace IndexPage

def parentPageId : IndexPage → Option PageID
  | leaf page => page.parentPageId
  | branch page => page.parentPageId

def endPage : IndexPage → Bool
  | leaf page => page.endPage
  | branch page => page.endPage

def records : IndexPage → List LeafRecord × List BranchRecord
  | leaf page => (page.records, [])
  | branch page => ([], page.records)

def nextPageId : IndexPage → Option PageID
  | leaf page => page.nextPageId
  | branch _ => none

/-- A page of a level, with records that hold no locks and a length that is theirs. -/
def Plain (type : IndexType) (level : ℕ) : IndexPage → Prop
  | leaf page => level = 0 ∧ page.Plain type
  | branch page => level ≠ 0 ∧ page.pageLevel = level ∧ page.Plain

/-- A page of a level, with any records in a leaf. -/
def OfLevel (level : ℕ) : IndexPage → Prop
  | leaf _ => level = 0
  | branch page => level ≠ 0 ∧ page.pageLevel = level ∧ ∀ br ∈ page.records, br.Valid

theorem Plain.ofLevel {type : IndexType} {level : ℕ} {page : IndexPage}
    (plain : page.Plain type level) : page.OfLevel level := by
  cases page with
  | leaf page => exact plain.1
  | branch page => exact ⟨plain.1, plain.2.1, plain.2.2.records⟩

end IndexPage

/-- The separator of a branch record and the page it leads to. -/
def BranchRecord.entry (type : IndexType) (br : BranchRecord) : List Byte × PageID :=
  (br.indexKey type, br.childPage)

namespace IndexTree

def leafRecords (tree : IndexTree) (pageId : PageID) : List LeafRecord :=
  ((tree.pages pageId).map fun page => page.records.1).getD []

def branchRecords (tree : IndexTree) (pageId : PageID) : List BranchRecord :=
  ((tree.pages pageId).map fun page => page.records.2).getD []

/-- A tree as a search tree linked by separators. -/
def shape (tree : IndexTree) : Shape PageID (List Byte) where
  leafKeys pageId := (tree.leafRecords pageId).map (LeafRecord.indexKey tree.indexType)
  entries pageId := (tree.branchRecords pageId).map (BranchRecord.entry tree.indexType)

@[simp]
theorem shape_leafKeys (tree : IndexTree) (pageId : PageID) :
    tree.shape.leafKeys pageId =
      (tree.leafRecords pageId).map (LeafRecord.indexKey tree.indexType) :=
  rfl

@[simp]
theorem shape_entries (tree : IndexTree) (pageId : PageID) :
    tree.shape.entries pageId =
      (tree.branchRecords pageId).map (BranchRecord.entry tree.indexType) :=
  rfl

/-- All records in the leaves, from left to right. -/
def allRecords (tree : IndexTree) (layer : ℕ → List PageID) : List LeafRecord :=
  (layer 0).flatMap tree.leafRecords

/-- The entries that lead to the pages of a level. -/
def entriesTo (tree : IndexTree) (layer : ℕ → List PageID) (level : ℕ) :
    List (List Byte × PageID) :=
  tree.shape.layerEntries (layer (level + 1))

structure Invariant (tree : IndexTree) (height : ℕ) (layer : ℕ → List PageID) : Prop where
  layered : Layered tree.shape tree.rootPageId height layer
  plain : ∀ level ≤ height, ∀ pageId ∈ layer level,
    ∃ page, tree.pages pageId = some page ∧ page.Plain tree.indexType level
  owned : ∀ pageId page, tree.pages pageId = some page → ∃ level ≤ height, pageId ∈ layer level
  allocated : ∀ pageId page, tree.pages pageId = some page → pageId < tree.totalPageCount
  heightLt : height < tree.totalPageCount
  rootParent : (tree.pages tree.rootPageId).map IndexPage.parentPageId = some none
  parents : ∀ parentId, ∀ br ∈ tree.branchRecords parentId,
    (tree.pages br.childPage).map IndexPage.parentPageId = some (some parentId)
  ends : ∀ level ≤ height, ∀ before pageId behind, layer level = before ++ pageId :: behind →
    (tree.pages pageId).map IndexPage.endPage = some behind.isEmpty
  links : ∀ before pageId behind, layer 0 = before ++ pageId :: behind →
    (tree.pages pageId).map IndexPage.nextPageId = some behind.head?

/-- What a search relies on; the records in the leaves may have locks and overflow pages. -/
structure Searchable (tree : IndexTree) (height : ℕ) (layer : ℕ → List PageID) : Prop where
  layered : Layered tree.shape tree.rootPageId height layer
  ofLevel : ∀ level ≤ height, ∀ pageId ∈ layer level,
    ∃ page, tree.pages pageId = some page ∧ page.OfLevel level
  allocated : ∀ pageId page, tree.pages pageId = some page → pageId < tree.totalPageCount

section Pages

variable {tree : IndexTree} {height level : ℕ} {layer : ℕ → List PageID} {pageId : PageID}

theorem leafRecords_of_leafPage? {page : LeafPage}
    (pageEq : tree.pages pageId = some (.leaf page)) :
    tree.leafRecords pageId = page.records ∧ tree.branchRecords pageId = [] := by
  simp [leafRecords, branchRecords, pageEq, IndexPage.records]

theorem branchRecords_of_branchPage? {page : BranchPage}
    (pageEq : tree.pages pageId = some (.branch page)) :
    tree.branchRecords pageId = page.records ∧ tree.leafRecords pageId = [] := by
  simp [leafRecords, branchRecords, pageEq, IndexPage.records]

theorem Invariant.leaf (inv : tree.Invariant height layer) (mem : pageId ∈ layer 0) :
    ∃ page, tree.pages pageId = some (.leaf page) ∧ page.Plain tree.indexType := by
  rcases inv.plain 0 (Nat.zero_le _) pageId mem with ⟨_ | page, pageEq, plain⟩
  · exact ⟨_, pageEq, plain.2⟩
  · exact absurd rfl plain.1

theorem Invariant.branch (inv : tree.Invariant height layer) (levelLt : level < height)
    (mem : pageId ∈ layer (level + 1)) :
    ∃ page, tree.pages pageId = some (.branch page) ∧ page.pageLevel = level + 1 ∧
      page.Plain := by
  rcases inv.plain (level + 1) levelLt pageId mem with ⟨page | _, pageEq, plain⟩
  · exact absurd plain.1 (Nat.succ_ne_zero level)
  · exact ⟨_, pageEq, plain.2⟩

theorem Invariant.searchable (inv : tree.Invariant height layer) :
    tree.Searchable height layer where
  layered := inv.layered
  allocated := inv.allocated
  ofLevel level levelLe pageId mem := by
    rcases inv.plain level levelLe pageId mem with ⟨page, pageEq, plain⟩
    exact ⟨page, pageEq, plain.ofLevel⟩

theorem Searchable.leaf (search : tree.Searchable height layer) (mem : pageId ∈ layer 0) :
    ∃ page, tree.pages pageId = some (.leaf page) := by
  rcases search.ofLevel 0 (Nat.zero_le _) pageId mem with ⟨page | _, pageEq, ofLevel⟩
  · exact ⟨page, pageEq⟩
  · exact absurd rfl ofLevel.1

theorem Searchable.branch (search : tree.Searchable height layer) (levelLt : level < height)
    (mem : pageId ∈ layer (level + 1)) :
    ∃ page, tree.pages pageId = some (.branch page) ∧ page.pageLevel = level + 1 ∧
      ∀ br ∈ page.records, br.Valid := by
  rcases search.ofLevel (level + 1) levelLt pageId mem with ⟨_ | page, pageEq, ofLevel⟩
  · exact absurd ofLevel (Nat.succ_ne_zero level)
  · exact ⟨page, pageEq, ofLevel.2⟩

theorem Invariant.level_of_page (inv : tree.Invariant height layer) {page : IndexPage}
    (pageEq : tree.pages pageId = some page) :
    ∃ level ≤ height, pageId ∈ layer level ∧ page.Plain tree.indexType level := by
  rcases inv.owned pageId page pageEq with ⟨level, levelLe, mem⟩
  rcases inv.plain level levelLe pageId mem with ⟨same, sameEq, plain⟩
  rw [pageEq] at sameEq
  cases sameEq
  exact ⟨level, levelLe, mem, plain⟩

end Pages

theorem layerEntries_eq {tree : IndexTree} {pages before behind : List PageID} {pageId : PageID}
    {page : BranchPage} (pageEq : tree.pages pageId = some (.branch page))
    {left right : List BranchRecord} {br : BranchRecord}
    (recordsEq : page.records = left ++ br :: right)
    (pagesEq : pages = before ++ pageId :: behind) :
    tree.shape.layerEntries pages =
      (tree.shape.layerEntries before ++ left.map (BranchRecord.entry tree.indexType)) ++
        (br.indexKey tree.indexType, br.childPage) ::
          (right.map (BranchRecord.entry tree.indexType) ++ tree.shape.layerEntries behind) := by
  have records := (branchRecords_of_branchPage? pageEq).1
  rw [pagesEq]
  simp [Shape.layerEntries, records, recordsEq, BranchRecord.entry]

/-- A tree whose pages have the same links and branch records as those of another one. -/
theorem Invariant.congr {tree tree' : IndexTree} {height : ℕ} {layer : ℕ → List PageID}
    (inv : tree.Invariant height layer)
    (rootEq : tree'.rootPageId = tree.rootPageId)
    (totalEq : tree'.totalPageCount = tree.totalPageCount)
    (layered : Layered tree'.shape tree'.rootPageId height layer)
    (plain : ∀ level ≤ height, ∀ pageId ∈ layer level,
      ∃ page, tree'.pages pageId = some page ∧ page.Plain tree'.indexType level)
    (links : ∀ pageId, (tree'.pages pageId).map
        (fun page => (page.parentPageId, page.endPage, page.nextPageId, page.records.2)) =
      (tree.pages pageId).map
        fun page => (page.parentPageId, page.endPage, page.nextPageId, page.records.2)) :
    tree'.Invariant height layer := by
  have parents : ∀ pageId, (tree'.pages pageId).map IndexPage.parentPageId =
      (tree.pages pageId).map IndexPage.parentPageId := by
    intro pageId
    simpa [Option.map_map, Function.comp_def] using
      congrArg (Option.map fun page => page.1) (links pageId)
  have ends : ∀ pageId, (tree'.pages pageId).map IndexPage.endPage =
      (tree.pages pageId).map IndexPage.endPage := by
    intro pageId
    simpa [Option.map_map, Function.comp_def] using
      congrArg (Option.map fun page => page.2.1) (links pageId)
  have nexts : ∀ pageId, (tree'.pages pageId).map IndexPage.nextPageId =
      (tree.pages pageId).map IndexPage.nextPageId := by
    intro pageId
    simpa [Option.map_map, Function.comp_def] using
      congrArg (Option.map fun page => page.2.2.1) (links pageId)
  have records : ∀ pageId, tree'.branchRecords pageId = tree.branchRecords pageId := by
    intro pageId
    simpa [branchRecords, Option.map_map, Function.comp_def] using
      congrArg (fun links => (links.map fun page => page.2.2.2).getD []) (links pageId)
  have exists_page : ∀ pageId page', tree'.pages pageId = some page' →
      ∃ page, tree.pages pageId = some page := by
    intro pageId page' pageEq
    have isSome := congrArg Option.isSome (links pageId)
    rw [Option.isSome_map, Option.isSome_map, pageEq] at isSome
    exact Option.isSome_iff_exists.mp isSome.symm
  refine ⟨layered, plain, ?_, ?_, ?_, ?_, ?_, ?_, ?_⟩
  · intro pageId page' pageEq
    rcases exists_page pageId page' pageEq with ⟨page, oldEq⟩
    exact inv.owned pageId page oldEq
  · intro pageId page' pageEq
    rcases exists_page pageId page' pageEq with ⟨page, oldEq⟩
    rw [totalEq]
    exact inv.allocated pageId page oldEq
  · rw [totalEq]
    exact inv.heightLt
  · rw [parents, rootEq]
    exact inv.rootParent
  · intro parentId br mem
    rw [records] at mem
    rw [parents]
    exact inv.parents parentId br mem
  · intro level levelLe before pageId behind layerEq
    rw [ends]
    exact inv.ends level levelLe before pageId behind layerEq
  · intro before pageId behind layerEq
    rw [nexts]
    exact inv.links before pageId behind layerEq

/-!
## Searching
-/

section Search

variable {tree : IndexTree} {height level : ℕ} {layer : ℕ → List PageID} {pageId : PageID}

theorem Searchable.branch_records (search : tree.Searchable height layer) (levelLt : level < height)
    (mem : pageId ∈ layer (level + 1)) {page : BranchPage}
    (pageEq : tree.pages pageId = some (.branch page)) :
    page.records ≠ [] ∧
      (page.records.map (BranchRecord.indexKey tree.indexType)).Pairwise (· < ·) ∧
      ∀ br ∈ page.records, br.Valid := by
  have nonempty := search.layered.nonempty (level + 1) levelLt (Nat.succ_pos level) pageId mem
  have sorted := search.layered.sorted (level + 1) levelLt pageId mem
  have recordsEq := (branchRecords_of_branchPage? pageEq).1
  rcases search.branch levelLt mem with ⟨same, sameEq, -, valid⟩
  rw [pageEq, Option.some.injEq, IndexPage.branch.injEq] at sameEq
  subst sameEq
  simp only [Shape.contents_succ, shape_entries, recordsEq, List.map_map] at nonempty sorted
  refine ⟨?_, sorted, valid⟩
  rintro empty
  exact nonempty (by rw [empty]; rfl)

theorem position_owns {records : List BranchRecord} {target : SearchTarget}
    (nonempty : records ≠ [])
    (sorted : (records.map (BranchRecord.indexKey tree.indexType)).Pairwise (· < ·))
    (valid : ∀ br ∈ records, br.Valid) (regular : ∀ br ∈ records,
      target.Regular tree.indexType br) :
    ∃ br, records[target.position tree.indexType records]? = some br ∧
      Owns target.bytes (records.map (BranchRecord.entry tree.indexType)) br.childPage := by
  rcases SearchTarget.position_spec nonempty sorted valid regular with
    ⟨left, record, right, recordsEq, position, smaller, bound⟩
  refine ⟨record, ?_, left.map (BranchRecord.entry tree.indexType), record.indexKey tree.indexType,
    right.map (BranchRecord.entry tree.indexType), ?_, ?_, ?_⟩
  · rw [← position, recordsEq, List.getElem?_append_right le_rfl, Nat.sub_self]
    rfl
  · rw [recordsEq, List.map_append, List.map_cons]
    rfl
  · intro entry mem
    rcases List.mem_map.mp mem with ⟨other, otherMem, rfl⟩
    exact smaller other otherMem
  · intro notLast
    exact bound fun empty => notLast (by rw [empty]; rfl)

/-- The record that a search follows in a branch page leads to the page of the next level that the
key belongs to. -/
theorem Searchable.child_spec (search : tree.Searchable height layer) {target : SearchTarget}
    (regular : ∀ br ∈ tree.branchRecords pageId, target.Regular tree.indexType br)
    (owner : Owner tree.shape tree.rootPageId height layer target.bytes (level + 1) pageId) :
    ∃ page br, tree.pages pageId = some (.branch page) ∧ page.pageLevel = level + 1 ∧
      page.records[target.position tree.indexType page.records]? = some br ∧
      Owner tree.shape tree.rootPageId height layer target.bytes level br.childPage := by
  rcases owner_mem search.layered owner with ⟨levelLe, mem⟩
  rcases search.branch levelLe mem with ⟨page, pageEq, pageLevel, -⟩
  have recordsEq := (branchRecords_of_branchPage? pageEq).1
  rcases search.branch_records levelLe mem pageEq with ⟨nonempty, sorted, valid⟩
  rcases position_owns nonempty sorted valid
    (fun br mem => regular br (by rwa [recordsEq])) with ⟨br, brEq, owns⟩
  refine ⟨page, br, pageEq, pageLevel, brEq, owner_child search.layered owner ?_⟩
  rw [shape_entries, recordsEq]
  exact owns

theorem Searchable.searchPageFrom_spec (search : tree.Searchable height layer)
    {target : SearchTarget}
    (regular : ∀ pageId, ∀ br ∈ tree.branchRecords pageId, target.Regular tree.indexType br)
    {fuel : ℕ} (enough : level < fuel)
    (owner : Owner tree.shape tree.rootPageId height layer target.bytes level pageId) :
    ∃ leafId, tree.searchPageFrom target fuel pageId = some leafId ∧
      Owner tree.shape tree.rootPageId height layer target.bytes 0 leafId := by
  induction level generalizing fuel pageId with
  | zero =>
      cases fuel with
      | zero => omega
      | succ fuel =>
          rcases search.leaf (owner_mem search.layered owner).2 with ⟨page, pageEq⟩
          exact ⟨pageId, by simp only [searchPageFrom, pageEq], owner⟩
  | succ level ih =>
      cases fuel with
      | zero => omega
      | succ fuel =>
          rcases search.child_spec (regular pageId) owner with ⟨page, br, pageEq, -, brEq, child⟩
          rcases ih (Nat.lt_of_succ_lt_succ enough) child with ⟨leafId, searchEq, leafOwner⟩
          refine ⟨leafId, ?_, leafOwner⟩
          simp [searchPageFrom, pageEq, brEq, searchEq]

section

variable (inv : tree.Invariant height layer)

include inv

theorem Invariant.searchFrom_spec (lr : LeafRecord) {fuel : ℕ} (enough : level < fuel)
    (owner : Owner tree.shape tree.rootPageId height layer (lr.indexKey tree.indexType) level
      pageId) :
    ∃ leafId, tree.searchFrom lr fuel pageId = some leafId ∧
      Owner tree.shape tree.rootPageId height layer (lr.indexKey tree.indexType) 0 leafId := by
  have regular : ∀ pageId, ∀ br ∈ tree.branchRecords pageId,
      (SearchTarget.record (lr.indexKey tree.indexType)).Regular tree.indexType br :=
    fun _ _ _ => trivial
  rw [← searchPageFrom_record]
  exact inv.searchable.searchPageFrom_spec regular enough owner

theorem Invariant.searchPage_spec (lr : LeafRecord) :
    ∃ leafId page, tree.searchPage lr = some leafId ∧
      tree.pages leafId = some (.leaf page) ∧ page.Plain tree.indexType ∧
      Owner tree.shape tree.rootPageId height layer (lr.indexKey tree.indexType) 0 leafId := by
  rcases inv.searchFrom_spec lr inv.heightLt (owner_root ..) with ⟨leafId, searchEq, owner⟩
  rcases inv.leaf (owner_mem inv.layered owner).2 with ⟨page, pageEq, plain⟩
  exact ⟨leafId, page, searchEq, pageEq, plain, owner⟩

theorem Invariant.findRecord_eq {lr : LeafRecord} (mem : lr ∈ tree.allRecords layer) :
    tree.findRecord lr = some lr := by
  rcases List.mem_flatMap.mp mem with ⟨leaf, leafMem, recordMem⟩
  rcases inv.searchPage_spec lr with ⟨leafId, page, searchEq, pageEq, -, owner⟩
  have keyMem : lr.indexKey tree.indexType ∈ tree.shape.leafKeys leaf :=
    List.mem_map_of_mem recordMem
  have sameLeaf := owner_unique inv.layered owner leafMem keyMem
  have recordsEq := (leafRecords_of_leafPage? pageEq).1
  rw [sameLeaf, recordsEq] at recordMem
  have sorted := inv.layered.sorted 0 (Nat.zero_le _) leafId (owner_mem inv.layered owner).2
  rw [Shape.contents_zero, shape_leafKeys, recordsEq] at sorted
  rcases LeafPage.searchRecord_mem recordMem sorted with ⟨pos, found, atPos⟩
  simp [findRecord, searchEq, leafPage?, pageEq, found, atPos]

end

end Search

/-!
## Creating a tree and inserting records
-/

theorem invariant_create (type : IndexType) :
    (create type).Invariant 0 (fun level => if level = 0 then [0] else []) := by
  have pagesEq : (create type).pages = Function.update (fun _ => none) 0
      (some (.leaf { parentPageId := none, endPage := true })) := rfl
  have atZero : (create type).pages 0 = some (.leaf { parentPageId := none, endPage := true }) := by
    rw [pagesEq, Function.update_self]
  have only : ∀ pageId page, (create type).pages pageId = some page → pageId = 0 := by
    intro pageId page pageEq
    by_contra notZero
    rw [pagesEq, Function.update_of_ne notZero] at pageEq
    cases pageEq
  have single : ∀ before pageId behind, [0] = before ++ pageId :: behind →
      pageId = 0 ∧ behind = ([] : List PageID) := by
    intro before pageId behind layerEq
    rcases List.append_eq_singleton_iff.mp layerEq.symm with ⟨-, onlyEq⟩ | ⟨-, empty⟩
    · exact List.cons.inj onlyEq
    · cases empty
  refine ⟨⟨rfl, ?_, ?_, ?_, ?_, ?_, ?_⟩, ?_, ?_, ?_, Nat.one_pos, ?_, ?_, ?_, ?_⟩
  · intro level levelLe
    rw [Nat.le_zero.mp levelLe]
    exact List.nodup_singleton 0
  · intro level levelLe other otherLe _ _ _
    omega
  · intro level levelLt
    omega
  · intro level levelLe positive
    omega
  · intro level levelLe pageId mem
    rw [Nat.le_zero.mp levelLe] at mem ⊢
    rw [List.mem_singleton.mp mem, Shape.contents_zero, shape_leafKeys,
      (leafRecords_of_leafPage? atZero).1]
    exact List.Pairwise.nil
  · intro level levelLt
    omega
  · intro level levelLe pageId mem
    rw [Nat.le_zero.mp levelLe] at mem ⊢
    rw [List.mem_singleton.mp mem]
    exact ⟨_, atZero, rfl, ⟨by simp, rfl, rfl⟩⟩
  · intro pageId page pageEq
    exact ⟨0, le_rfl, List.mem_singleton.mpr (only pageId page pageEq)⟩
  · intro pageId page pageEq
    rw [only pageId page pageEq]
    exact Nat.one_pos
  · exact congrArg (Option.map IndexPage.parentPageId) atZero
  · intro parentId br mem
    cases pageEq : (create type).pages parentId with
    | none => simp [branchRecords, pageEq] at mem
    | some page =>
        rw [only parentId page pageEq, (leafRecords_of_leafPage? atZero).2] at mem
        cases mem
  · intro level levelLe before pageId behind layerEq
    rw [Nat.le_zero.mp levelLe] at layerEq
    rcases single before pageId behind layerEq with ⟨rfl, rfl⟩
    exact congrArg (Option.map IndexPage.endPage) atZero
  · intro before pageId behind layerEq
    rcases single before pageId behind layerEq with ⟨rfl, rfl⟩
    exact congrArg (Option.map IndexPage.nextPageId) atZero

section SetPage

variable {tree : IndexTree} {pageId other : PageID} {page : IndexPage}

@[simp]
theorem setPage_fields (tree : IndexTree) (pageId : PageID) (page : IndexPage) :
    (tree.setPage pageId page).indexType = tree.indexType ∧
      (tree.setPage pageId page).rootPageId = tree.rootPageId ∧
      (tree.setPage pageId page).totalPageCount = tree.totalPageCount :=
  ⟨rfl, rfl, rfl⟩

@[simp]
theorem pages_setPage_self : (tree.setPage pageId page).pages pageId = some page :=
  Function.update_self ..

theorem pages_setPage_of_ne (notSame : other ≠ pageId) :
    (tree.setPage pageId page).pages other = tree.pages other :=
  Function.update_of_ne notSame ..

end SetPage

theorem perm_flatMap_cons {ι α : Type*} {pages : List ι} {page : ι} {records records' : ι → List α}
    {record : α} (nodup : pages.Nodup) (mem : page ∈ pages)
    (inserted : (records' page).Perm (record :: records page))
    (others : ∀ other, other ≠ page → records' other = records other) :
    (pages.flatMap records').Perm (record :: pages.flatMap records) := by
  rcases List.append_of_mem mem with ⟨before, behind, rfl⟩
  have notMem := (List.nodup_cons.mp (List.nodup_middle.mp nodup)).1
  have sameBefore : before.flatMap records' = before.flatMap records := by
    refine List.flatMap_congr fun other otherMem => others other ?_
    rintro rfl
    exact notMem (List.mem_append_left _ otherMem)
  have sameBehind : behind.flatMap records' = behind.flatMap records := by
    refine List.flatMap_congr fun other otherMem => others other ?_
    rintro rfl
    exact notMem (List.mem_append_right _ otherMem)
  rw [List.flatMap_append, List.flatMap_append, List.flatMap_cons, List.flatMap_cons, sameBefore,
    sameBehind]
  calc before.flatMap records ++ (records' page ++ behind.flatMap records)
      _ |>.Perm (before.flatMap records ++ (record :: records page ++ behind.flatMap records)) :=
        (inserted.append_right _).append_left _
      _ |>.Perm (record :: (before.flatMap records ++ (records page ++ behind.flatMap records))) :=
        List.perm_middle

theorem Invariant.insertRecord_spec {tree : IndexTree} {height : ℕ} {layer : ℕ → List PageID}
    (inv : tree.Invariant height layer) {lr : LeafRecord}
    (insertable : lr.Insertable tree.indexType)
    (isNew : ∀ other ∈ tree.allRecords layer,
      other.indexKey tree.indexType ≠ lr.indexKey tree.indexType) :
    ∃ tree', tree.insertRecord lr = some tree' ∧ tree'.indexType = tree.indexType ∧
      tree'.Invariant height layer ∧
      (tree'.allRecords layer).Perm (lr :: tree.allRecords layer) := by
  rcases inv.searchPage_spec lr with ⟨leafId, page, searchEq, pageEq, plain, owner⟩
  have leafMem := (owner_mem inv.layered owner).2
  have recordsEq := (leafRecords_of_leafPage? pageEq).1
  have sorted := inv.layered.sorted 0 (Nat.zero_le _) leafId leafMem
  rw [Shape.contents_zero, shape_leafKeys, recordsEq] at sorted
  have notThere : lr.indexKey tree.indexType ∉
      page.records.map (LeafRecord.indexKey tree.indexType) := by
    intro mem
    rcases List.mem_map.mp mem with ⟨other, otherMem, sameKey⟩
    refine isNew other (List.mem_flatMap.mpr ⟨leafId, leafMem, ?_⟩) sameKey
    rwa [recordsEq]
  rcases LeafPage.searchRecord_new sorted notThere with ⟨pos, found, smaller, larger⟩
  generalize pageEq' : page.insertRecord lr pos = page'
  have records' : page'.records = page.records.take pos ++ lr :: page.records.drop pos := by
    rw [← pageEq']
    rfl
  have plain' : page'.Plain tree.indexType := by
    have total : Segments.total LeafRecord.pageLength page'.records =
        Segments.total LeafRecord.pageLength page.records + lr.pageLength := by
      conv_rhs => rw [← List.take_append_drop pos page.records]
      rw [records']
      simp only [Segments.total_append, Segments.total_cons]
      omega
    have committed := plain.committed
    have temp := plain.temp
    refine ⟨?_, ?_, ?_⟩
    · intro other mem
      rw [records', List.mem_append, List.mem_cons] at mem
      rcases mem with mem | rfl | mem
      · exact plain.records other (List.mem_of_mem_take mem)
      · exact insertable
      · exact plain.records other (List.mem_of_mem_drop mem)
    · rw [total, ← pageEq']
      simp only [LeafPage.insertRecord, insertable.noLock, committed]
      simp
    · rw [total, ← pageEq']
      simp only [LeafPage.insertRecord, temp]
      simp
  generalize treeEq : tree.setPage leafId (.leaf page') = tree'
  have typeEq : tree'.indexType = tree.indexType := by rw [← treeEq]; rfl
  have rootEq : tree'.rootPageId = tree.rootPageId := by rw [← treeEq]; rfl
  have totalEq : tree'.totalPageCount = tree.totalPageCount := by rw [← treeEq]; rfl
  have atLeaf : tree'.pages leafId = some (.leaf page') := by
    rw [← treeEq, pages_setPage_self]
  have atOther : ∀ other, other ≠ leafId → tree'.pages other = tree.pages other := by
    intro other notLeaf
    rw [← treeEq, pages_setPage_of_ne notLeaf]
  have leafRecords' := (leafRecords_of_leafPage? atLeaf).1
  have branchRecords' : tree'.branchRecords = tree.branchRecords := by
    funext other
    by_cases isLeaf : other = leafId
    · rw [isLeaf, (leafRecords_of_leafPage? atLeaf).2, (leafRecords_of_leafPage? pageEq).2]
    · simp only [branchRecords, atOther other isLeaf]
  have otherRecords : ∀ other, other ≠ leafId →
    tree'.leafRecords other = tree.leafRecords other := by
    intro other notLeaf
    simp only [leafRecords, atOther other notLeaf]
  refine ⟨tree', ?_, typeEq, ?_, ?_⟩
  · simp [insertRecord, searchEq, leafPage?, pageEq, found, pageEq', treeEq]
  · have layered : Layered tree'.shape tree'.rootPageId height layer := by
      rw [rootEq]
      have keysEq : tree.shape.leafKeys leafId =
          (page.records.take pos).map (LeafRecord.indexKey tree.indexType) ++
            (page.records.drop pos).map (LeafRecord.indexKey tree.indexType) := by
        rw [shape_leafKeys, recordsEq, ← List.map_append, List.take_append_drop]
      refine inv.layered.insert owner keysEq ?_ ?_ ?_ ?_ ?_
      · intro key mem
        rcases List.mem_map.mp mem with ⟨other, otherMem, rfl⟩
        exact smaller other otherMem
      · intro key mem
        rcases List.mem_map.mp mem with ⟨other, otherMem, rfl⟩
        exact larger other otherMem
      · rw [shape_leafKeys, leafRecords', records', typeEq, List.map_append, List.map_cons]
      · intro other notLeaf
        rw [shape_leafKeys, shape_leafKeys, otherRecords other notLeaf, typeEq]
      · funext other
        rw [shape_entries, shape_entries, branchRecords', typeEq]
    refine inv.congr rootEq totalEq layered ?_ ?_
    · intro level levelLe pageId mem
      rw [typeEq]
      by_cases isLeaf : pageId = leafId
      · subst isLeaf
        have levelEq := inv.layered.apart level levelLe 0 (Nat.zero_le _) pageId mem leafMem
        exact ⟨_, atLeaf, levelEq, plain'⟩
      · rw [atOther pageId isLeaf]
        exact inv.plain level levelLe pageId mem
    · intro pageId
      by_cases isLeaf : pageId = leafId
      · rw [isLeaf, atLeaf, pageEq, ← pageEq']
        rfl
      · rw [atOther pageId isLeaf]
  · refine perm_flatMap_cons (inv.layered.nodup 0 (Nat.zero_le _)) leafMem ?_ otherRecords
    rw [leafRecords', recordsEq, records']
    refine List.perm_middle.trans (List.Perm.cons lr ?_)
    rw [List.take_append_drop]

end IndexTree

end RapidDb
