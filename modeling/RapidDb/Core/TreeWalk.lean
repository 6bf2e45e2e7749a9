import RapidDb.Core.RightSibling
import RapidDb.Core.TreeRuns

/-!
# The pages of a tree that has been built

What every run of insertions and splits makes of the pages themselves. Each page but the root page
is the child of one record, one level below its parent. A search finds what was inserted and nothing
else. And a walk over the right siblings, which starts at the leftmost leaf and reads pages as it
meets them, yields each inserted record once and in order, as long as every leaf on its way knows
its right sibling or has a way to it.
-/

namespace RapidDb

open SeparatorTree Transition

/-- The level of a page; leaves have none of their own. -/
def IndexPage.level : IndexPage → ℕ
  | leaf _ => 0
  | branch page => page.pageLevel

theorem IndexPage.Plain.level_eq {type : IndexType} {level : ℕ} {page : IndexPage}
    (plain : page.Plain type level) : page.level = level := by
  cases page with
  | leaf page => exact plain.1.symm
  | branch page => exact plain.2.1

namespace IndexTree

variable {tree : IndexTree} {height : ℕ} {layer : ℕ → List PageID}

/-- The pages form a tree, and know their parents and levels. -/
structure Rooted (tree : IndexTree) : Prop where
  root : ∃ page, tree.pages tree.rootPageId = some page ∧ page.parentPageId = none
  below : ∀ pageId page, tree.pages pageId = some (.branch page) → ∀ br ∈ page.records,
    ∃ child, tree.pages br.childPage = some child ∧ child.parentPageId = some pageId ∧
      child.level + 1 = page.pageLevel
  parent : ∀ pageId page, tree.pages pageId = some page → pageId ≠ tree.rootPageId →
    ∃ parentId parent, page.parentPageId = some parentId ∧
      tree.pages parentId = some (.branch parent) ∧
      (parent.records.map BranchRecord.childPage).count pageId = 1
  allocated : ∀ pageId page, tree.pages pageId = some page → pageId < tree.totalPageCount

theorem Invariant.below (inv : tree.Invariant height layer) {pageId : PageID} {page : BranchPage}
    (pageEq : tree.pages pageId = some (.branch page)) {br : BranchRecord}
    (mem : br ∈ page.records) :
    ∃ child, tree.pages br.childPage = some child ∧ child.parentPageId = some pageId ∧
      child.level + 1 = page.pageLevel := by
  have recordsEq := (branchRecords_of_branchPage? pageEq).1
  rcases inv.level_of_page pageEq with ⟨level, levelLe, layerMem, notLeaf, levelEq, -⟩
  rcases Nat.exists_eq_succ_of_ne_zero notLeaf with ⟨lower, rfl⟩
  have childMem : br.childPage ∈ layer lower := by
    apply inv.linked.child_mem levelLe layerMem
    rw [childIds, recordsEq]
    exact List.mem_map_of_mem mem
  rcases inv.plain lower (Nat.le_of_lt levelLe) br.childPage childMem with
    ⟨child, childEq, plain⟩
  have parentEq := inv.parents pageId br (recordsEq ▸ mem)
  rw [childEq, Option.map_some, Option.some.injEq] at parentEq
  exact ⟨child, childEq, parentEq, by rw [plain.level_eq, levelEq]⟩

theorem Invariant.rooted (inv : tree.Invariant height layer) : tree.Rooted where
  root := Option.map_eq_some_iff.mp inv.rootParent
  below := fun _ _ pageEq _ mem => inv.below pageEq mem
  parent := by
    intro pageId page pageEq notRoot
    rcases inv.level_of_page pageEq with ⟨level, levelLe, layerMem, -⟩
    rcases Nat.lt_or_eq_of_le levelLe with levelLt | rfl
    · rw [inv.linked.children level levelLt] at layerMem
      rcases List.mem_flatMap.mp layerMem with ⟨parentId, parentMem, childMem⟩
      rcases inv.branch levelLt parentMem with ⟨parent, parentEq, -⟩
      have recordsEq := (branchRecords_of_branchPage? parentEq).1
      have nodup := inv.linked.nodup_childIds levelLt parentMem
      rw [childIds, recordsEq] at childMem nodup
      rcases List.mem_map.mp childMem with ⟨br, brMem, rfl⟩
      have parentPage := inv.parents parentId br (recordsEq ▸ brMem)
      rw [pageEq, Option.map_some, Option.some.injEq] at parentPage
      exact ⟨parentId, parent, parentPage, parentEq, List.count_eq_one_of_mem nodup childMem⟩
    · rw [inv.layered.top, List.mem_singleton] at layerMem
      exact absurd layerMem notRoot
  allocated := inv.allocated

end IndexTree

namespace TreeState

variable {state : TreeState}

theorem holds_of_reaches (type : IndexType) (run : Reaches step Permitted (start type) state) :
    state.Holds type := by
  refine run.preserves (holds_start type) ?_
  intro state event state' permitted holds stepEq
  have further : ∃ next, state.step event = some next ∧ next.Holds type := by
    cases event with
    | insert lr => exact holds.insert permitted.1
    | split pageId => exact holds.split permitted
  rcases further with ⟨next, nextEq, nextHolds⟩
  rw [stepEq, Option.some.injEq] at nextEq
  exact nextEq ▸ nextHolds

/-- In every tree that has been built each page has its place. -/
theorem rooted_of_reaches (type : IndexType) (run : Reaches step Permitted (start type) state) :
    state.tree.Rooted := by
  rcases (holds_of_reaches type run).2 with ⟨height, layer, inv, -⟩
  exact inv.rooted

theorem reaches_filling : ∃ state, Reaches step Permitted (start .primary) state ∧
    state.inserted.length = 5 := by
  have runs : (execPermitted step Permitted fillingEvents (start .primary)).map (fun state =>
      state.inserted.length) = some 5 := by
    decide +kernel
  rcases Option.map_eq_some_iff.mp runs with ⟨state, executed, length⟩
  exact ⟨state, reaches_of_execPermitted _ executed, length⟩

theorem rooted_of_reaches_filling :
    ∃ state : TreeState, state.inserted.length = 5 ∧ state.tree.Rooted := by
  rcases reaches_filling with ⟨state, run, length⟩
  exact ⟨state, length, rooted_of_reaches .primary run⟩

theorem Holds.findRecord_none {type : IndexType} (holds : state.Holds type) {lr : LeafRecord}
    (absent : ∀ other ∈ state.inserted,
      other.indexKey state.tree.indexType ≠ lr.indexKey state.tree.indexType) :
    state.tree.findRecord lr = none := by
  rcases holds with ⟨-, height, layer, inv, perm⟩
  rcases inv.searchPage_spec lr with ⟨leafId, page, searchEq, pageEq, -, owner⟩
  have leafMem := (owner_mem inv.layered owner).2
  have recordsEq := (IndexTree.leafRecords_of_leafPage? pageEq).1
  have sorted := inv.layered.sorted 0 (Nat.zero_le _) leafId leafMem
  rw [Shape.contents_zero, IndexTree.shape_leafKeys, recordsEq] at sorted
  have isNew : lr.indexKey state.tree.indexType ∉
      page.records.map (LeafRecord.indexKey state.tree.indexType) := by
    intro keyMem
    rcases List.mem_map.mp keyMem with ⟨stored, storedMem, sameKey⟩
    have inTree : stored ∈ state.tree.allRecords layer :=
      List.mem_flatMap.mpr ⟨leafId, leafMem, recordsEq ▸ storedMem⟩
    rcases List.mem_map.mp (perm.mem_iff.mp (List.mem_map_of_mem inTree)) with
      ⟨other, mem, same⟩
    apply absent other mem
    rw [← LeafRecord.indexKey_inPage other, same, LeafRecord.indexKey_inPage, sameKey]
  rcases LeafPage.searchRecord_new sorted isNew with ⟨pos, found, -⟩
  simp [IndexTree.findRecord, searchEq, IndexTree.leafPage?, pageEq, found]

/-- To a search the tree is the list of the inserted records. -/
theorem findRecord_of_reaches (type : IndexType)
    (run : Reaches step Permitted (start type) state) (lr : LeafRecord) :
    (state.tree.findRecord lr).map LeafRecord.inPage =
      (state.inserted.find? fun other =>
        other.indexKey state.tree.indexType = lr.indexKey state.tree.indexType).map
          LeafRecord.inPage := by
  have holds := holds_of_reaches type run
  cases found : state.inserted.find? fun other =>
      other.indexKey state.tree.indexType = lr.indexKey state.tree.indexType with
  | some other =>
      have sameKey : other.indexKey state.tree.indexType = lr.indexKey state.tree.indexType := by
        simpa using List.find?_some found
      rw [← IndexTree.findRecord_congr sameKey]
      exact holds.sound.found other (List.mem_of_find?_eq_some found)
  | none =>
      rw [holds.findRecord_none fun other mem => by
        simpa using List.find?_eq_none.mp found other mem]

theorem findRecord_of_reaches_filling :
    ∃ state : TreeState, state.inserted.length = 5 ∧
      (state.tree.findRecord (sampleRow 6 1)).map LeafRecord.inPage =
        (state.inserted.find? fun other => other.indexKey state.tree.indexType =
          (sampleRow 6 1).indexKey state.tree.indexType).map LeafRecord.inPage := by
  rcases reaches_filling with ⟨state, run, length⟩
  exact ⟨state, length, findRecord_of_reaches .primary run (sampleRow 6 1)⟩

/-- The leaves have all inserted records once and in order, and a walk over the right siblings
comes to each of the leaves, whichever pages are in memory. -/
def WalksRight (state : TreeState) : Prop :=
  ∃ height layer, state.tree.Linked height layer ∧
    (((layer 0).flatMap state.tree.leafRecords).map LeafRecord.inPage).Perm
      (state.inserted.map LeafRecord.inPage) ∧
    (((layer 0).flatMap state.tree.leafRecords).map
      (LeafRecord.indexKey state.tree.indexType)).Pairwise (· < ·) ∧
    ∀ asserts cache page, SiblingLinks.Represents state.tree height layer cache →
      SiblingLinks.Valid cache page → (layer 0).head? = some page →
        SiblingLinks.WaysRight asserts state.tree layer cache page →
          SiblingLinks.Walk asserts state.tree cache page (layer 0)

theorem walksRight_of_reaches (type : IndexType)
    (run : Reaches step Permitted (start type) state) : state.WalksRight := by
  rcases (holds_of_reaches type run).2 with ⟨height, layer, inv, perm⟩
  refine ⟨height, layer, inv.linked, perm, ?_, ?_⟩
  · rw [List.map_flatMap]
    exact sorted_leaves inv.layered
  · intro asserts cache page represents valid isFirst ways
    rcases List.head?_eq_some_iff.mp isFirst with ⟨behind, layerEq⟩
    rw [layerEq]
    exact @SiblingLinks.walk_visits _ _ _ _ _ _ inv.linked represents valid [] _ layerEq ways

theorem walksRight_of_reaches_filling :
    ∃ state : TreeState, state.inserted.length = 5 ∧ state.WalksRight := by
  rcases reaches_filling with ⟨state, run, length⟩
  exact ⟨state, length, walksRight_of_reaches .primary run⟩

end TreeState

end RapidDb
