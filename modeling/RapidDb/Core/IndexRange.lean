import RapidDb.Core.IndexTree

/-!
# Ranges of an index tree

An index tree whose root page lies high enough can be divided into ranges, each with a task of its
own. A range owns some neighbouring children of the root page, and keeps a copy of the last record
of the last one as its border. A search chooses the range by the borders and the page to start at
by the last records of the pages, before it goes down as it does from the root page.
-/

namespace RapidDb

/-- A range; the only one of a tree that is not divided has no border and no pages. -/
structure IndexRange where
  borderRecord : Option BranchRecord := none
  vctRangePage : List PageID := []
  startPage : Option PageID := none
  endPage : Option PageID := none
deriving DecidableEq, Repr

/-- `GetTopPage`. -/
def IndexRange.getTopPage (tree : IndexTree) (range : IndexRange) (target : SearchTarget) :
    Option PageID := do
  let records ← range.vctRangePage.mapM fun pageId =>
    (tree.branchPage? pageId).bind fun page => page.records.getLast?
  range.vctRangePage[target.position tree.indexType records]?

structure RangedTree where
  tree : IndexTree
  vctRange : List IndexRange := [{}]

namespace RangedTree

/-- `CalcIndexRange`. -/
def calcIndexRange (state : RangedTree) (target : SearchTarget) : Option ℕ :=
  (state.vctRange.mapM IndexRange.borderRecord).map (target.position state.tree.indexType)

end RangedTree

/-!
## Binary searches
-/

open Bytes

/-- Records sorted by what the searches compare: their places in the index, all different, and
their keys, which a non-unique index can hold more than once. -/
structure SortedRecords {α : Type} (indexKey getKey : α → List Byte) (records : List α) : Prop where
  places : (records.map indexKey).Pairwise (· < ·)
  keys : (records.map getKey).Pairwise (· ≤ ·)

/-- What a search compares with a branch record. -/
def SearchTarget.entry (type : IndexType) : SearchTarget → BranchRecord → List Byte
  | record _ => BranchRecord.indexKey type
  | key _ => BranchRecord.getKey

section BinarySearches

variable {α : Type} {type : IndexType} {indexKey getKey : α → List Byte} {records : List α}

theorem compares_records (records : List α) (entry : α → List Byte) (key : List Byte)
    (position : ℕ) (inside : position < (records.map entry).length) :
    Compares ((records[position]?.map fun record => bytesCompare (entry record) key).getD 0)
      (records.map entry)[position] key := by
  rw [List.length_map] at inside
  rw [List.getElem?_eq_getElem inside, List.getElem_map]
  exact compares_bytesCompare _ _

theorem SortedRecords.located_search (sorted : SortedRecords indexKey getKey records)
    (key : List Byte) :
    BinarySearch.Located (records.map indexKey) key
      (BinarySearch.search
        (fun middle => (records[middle]?.map fun record => bytesCompare (indexKey record) key).getD
          0)
        records.length 0 records.length) := by
  have located := BinarySearch.located_searchFirst (sorted.places.imp le_of_lt)
    (fun _ : true = true => sorted.places) (compares_records records indexKey key)
  rwa [BinarySearch.searchFirst_true, List.length_map] at located

theorem SortedRecords.located_searchFirst (sorted : SortedRecords indexKey getKey records)
    (same : type ≠ .nonUnique → indexKey = getKey) (key : List Byte) :
    BinarySearch.Located (records.map getKey) key
      (BinarySearch.searchFirst (type ≠ .nonUnique)
        (fun middle => (records[middle]?.map fun record => bytesCompare (getKey record) key).getD 0)
        records.length 0 records.length) := by
  have strict : decide (type ≠ .nonUnique) = true → (records.map getKey).Pairwise (· < ·) :=
    fun unique => same (of_decide_eq_true unique) ▸ sorted.places
  have located := BinarySearch.located_searchFirst sorted.keys strict
    (compares_records records getKey key)
  rwa [List.length_map] at located

theorem LeafRecord.indexKey_of_unique (unique : type ≠ .nonUnique) :
    LeafRecord.indexKey type = LeafRecord.getKey := by
  funext record
  rw [LeafRecord.indexKey, indexBytes, if_neg unique]
  rfl

theorem SearchTarget.position_eq {records : List BranchRecord} (target : SearchTarget)
    (sorted : SortedRecords (BranchRecord.indexKey type) BranchRecord.getKey records) :
    target.position type records =
      min (BinarySearch.firstNotLess (records.map (target.entry type)) target.bytes)
        (records.length - 1) := by
  cases target with
  | record indexKey =>
      have found := sorted.located_search indexKey
      simp only [SearchTarget.position, SearchTarget.compareWith, found.position,
        BinarySearch.clamp_eq_min]
      rfl
  | key bysKey =>
      have same : type ≠ .nonUnique → BranchRecord.indexKey type = BranchRecord.getKey :=
        fun unique => funext (BranchRecord.indexKey_of_unique unique)
      have found := sorted.located_searchFirst same bysKey
      simp only [SearchTarget.position, SearchTarget.compareWith, found.position,
        BinarySearch.clamp_eq_min]
      rfl

end BinarySearches

/-- The searches in leaf and branch pages and in the borders of ranges, for pages and ranges of
one tree. -/
theorem binarySearches_spec {state : RangedTree} {leaf : LeafPage} {branch : BranchPage}
    {range : IndexRange} {lastRecords borders : List BranchRecord}
    (leafSorted : SortedRecords (LeafRecord.indexKey state.tree.indexType) LeafRecord.getKey
      leaf.records)
    (branchSorted : SortedRecords (BranchRecord.indexKey state.tree.indexType) BranchRecord.getKey
      branch.records)
    (children : branch.records ≠ [])
    (lastRecordsEq : range.vctRangePage.mapM (fun pageId =>
      (state.tree.branchPage? pageId).bind fun page => page.records.getLast?) = some lastRecords)
    (lastSorted : SortedRecords (BranchRecord.indexKey state.tree.indexType) BranchRecord.getKey
      lastRecords)
    (bordersEq : state.vctRange.mapM IndexRange.borderRecord = some borders)
    (bordersSorted : SortedRecords (BranchRecord.indexKey state.tree.indexType) BranchRecord.getKey
      borders)
    (rr : LeafRecord) (key : List Byte) (target : SearchTarget) :
    let type := state.tree.indexType
    let first := fun (records : List BranchRecord) =>
      min (BinarySearch.firstNotLess (records.map (target.entry type)) target.bytes)
        (records.length - 1)
    BinarySearch.Located (leaf.records.map (LeafRecord.indexKey type)) (rr.indexKey type)
        (leaf.searchRecord type rr) ∧
      BinarySearch.Located (leaf.records.map LeafRecord.getKey) key (leaf.searchKey type key) ∧
      BinarySearch.Located (leaf.records.map LeafRecord.getKey) rr.getKey
        (leaf.searchKeyOf type rr) ∧
      target.position type branch.records = first branch.records ∧
      target.position type branch.records < branch.records.length ∧
      range.getTopPage state.tree target = range.vctRangePage[first lastRecords]? ∧
      state.calcIndexRange target = some (first borders) ∧
      ∀ (unique : Bool) (compare : ℕ → ℤ) (num fuel : ℕ), num ≤ fuel →
        BinarySearch.searchFirst unique compare fuel 0 num =
            BinarySearch.searchFirst unique compare num 0 num ∧
          BinarySearch.search compare fuel 0 num = BinarySearch.search compare num 0 num := by
  intro type first
  have keyFound := fun key => leafSorted.located_searchFirst LeafRecord.indexKey_of_unique key
  have childrenPos := List.length_pos_iff.mpr children
  have inside : first branch.records < branch.records.length := by
    apply lt_of_le_of_lt (Nat.min_le_right _ _)
    omega
  refine ⟨leafSorted.located_search _, keyFound key, keyFound rr.getKey,
    target.position_eq branchSorted, (target.position_eq branchSorted).symm ▸ inside, ?_, ?_, ?_⟩
  · simp only [IndexRange.getTopPage, lastRecordsEq, Option.bind_eq_bind, Option.bind_some,
      target.position_eq lastSorted]
    rfl
  · simp only [RangedTree.calcIndexRange, bordersEq, Option.map_some,
      target.position_eq bordersSorted]
    rfl
  · intro unique compare num fuel enough
    have ended := fun unique => @BinarySearch.searchFirst_fuel compare unique fuel num 0 num
      (by omega) (by omega)
    have endedTrue := ended true
    simp only [BinarySearch.searchFirst_true] at endedTrue
    exact ⟨ended unique, endedTrue⟩

/-- A record of a non-unique index, for a key of one byte and a primary key of one byte. -/
def twinRecord (primaryKey : Byte) : LeafRecord :=
  .unlocked
    { addr := 0
      bysVal := [14, 0, 1, 0, 1, primaryKey]
      bSole := true
      indexType := .nonUnique }

def twinLeaf : LeafPage := { records := [twinRecord 1, twinRecord 2], parentPageId := some 0 }

def twinRoot : BranchPage :=
  { records := [.ofLeaf (twinRecord 2) 1]
    parentPageId := none
    pageLevel := 1 }

def twinRange : IndexRange :=
  { borderRecord := some (.ofLeaf (twinRecord 2) 1)
    vctRangePage := [0] }

def twinTree : RangedTree where
  tree :=
    { indexType := .nonUnique
      pages := fun _ => some (.branch twinRoot)
      rootPageId := 0
      totalPageCount := 2 }
  vctRange := [twinRange]

theorem twinTree_searches :
    BinarySearch.Located (twinLeaf.records.map LeafRecord.getKey) [1]
      (twinLeaf.searchKey .nonUnique [1]) :=
  (@binarySearches_spec twinTree twinLeaf twinRoot twinRange [.ofLeaf (twinRecord 2) 1]
    [.ofLeaf (twinRecord 2) 1] ⟨by decide, by decide⟩ ⟨by decide, by decide⟩ (by decide) rfl
    ⟨by decide, by decide⟩ rfl ⟨by decide, by decide⟩ (twinRecord 1) [1] (.key [1])).2.1

end RapidDb
