import RapidDb.Core.NextPage

/-!
# The right sibling of a leaf

Which leaves `GetNextPage` finds the right neighbour of, for every tree and every set of pages
in memory. A leaf that has its pointer already has the answer. The way over the parent page is
sound for the last child of a page that is attached to its record, as are the pages that are
climbed over. For every other leaf `FillNextPage` asks the leaf for its next page before it has
set it, and the two functions call each other for ever.
-/

namespace RapidDb

open Neighbours

namespace IndexTree

def childIds (tree : IndexTree) (page : PageID) : List PageID :=
  (tree.branchRecords page).map BranchRecord.childPage

/-- The pages in their layers, with the identifiers of the next pages in the leaves. -/
structure Linked (tree : IndexTree) (height : ℕ) (layer : ℕ → List PageID) : Prop where
  top : layer height = [tree.rootPageId]
  nodup : ∀ level ≤ height, (layer level).Nodup
  apart : ∀ level ≤ height, ∀ other ≤ height, ∀ page ∈ layer level, page ∈ layer other →
    level = other
  children : ∀ level < height, layer level = (layer (level + 1)).flatMap tree.childIds
  nonempty : ∀ level < height, ∀ page ∈ layer (level + 1), tree.childIds page ≠ []
  links : ∀ page ∈ layer 0,
    (tree.pages page).map IndexPage.nextPageId = some (following (layer 0) page)

theorem Invariant.linked {tree : IndexTree} {height : ℕ} {layer : ℕ → List PageID}
    (inv : tree.Invariant height layer) : tree.Linked height layer where
  top := inv.layered.top
  nodup := inv.layered.nodup
  apart := inv.layered.apart
  children level levelLt := by
    rw [inv.layered.children level levelLt]
    simp only [SeparatorTree.Shape.layerEntries, shape_entries, List.map_flatMap, List.map_map]
    rfl
  nonempty level levelLt page mem := by
    have nonempty := inv.layered.nonempty (level + 1) levelLt (Nat.succ_pos level) page mem
    simpa [childIds] using nonempty
  links page mem := by
    rcases List.append_of_mem mem with ⟨before, behind, layerEq⟩
    have nodup := inv.layered.nodup 0 (Nat.zero_le _)
    rw [inv.links before page behind layerEq]
    rw [layerEq] at nodup ⊢
    rw [following_of_nodup nodup]

namespace Linked

variable {tree : IndexTree} {height level : ℕ} {layer : ℕ → List PageID} {page child : PageID}

section

variable (linked : tree.Linked height layer) (levelLt : level < height)
  (mem : page ∈ layer (level + 1))

include linked levelLt mem

theorem child_mem (childMem : child ∈ tree.childIds page) : child ∈ layer level := by
  rw [linked.children level levelLt]
  exact List.mem_flatMap.mpr ⟨page, mem, childMem⟩

theorem nodup_childIds : (tree.childIds page).Nodup := by
  have nodup := linked.nodup level levelLt.le
  rw [linked.children level levelLt, List.nodup_flatMap] at nodup
  exact nodup.1 page mem

theorem parent_unique {other : PageID} {otherLevel : ℕ} (childMem : child ∈ tree.childIds page)
    (otherLt : otherLevel < height) (otherMem : other ∈ layer (otherLevel + 1))
    (childMem' : child ∈ tree.childIds other) : page = other := by
  have same := linked.apart level levelLt.le otherLevel otherLt.le child
    (linked.child_mem levelLt mem childMem) (linked.child_mem otherLt otherMem childMem')
  subst same
  have nodup := linked.nodup level levelLt.le
  rw [linked.children level levelLt] at nodup
  exact owner_unique nodup mem otherMem childMem childMem'

end

end Linked

end IndexTree

namespace SiblingLinks

open PageCache

variable {asserts : Bool} {tree : IndexTree} {height level : ℕ} {layer : ℕ → List PageID}
  {cache cache' : PageCache} {page child : PageID}

def typeAt : ℕ → PageType
  | 0 => .leafPage
  | _ + 1 => .branchPage

/-!
## Caches that represent a tree
-/

structure LeafGood (tree : IndexTree) (layer : ℕ → List PageID) (cache : PageCache)
    (page : PageID) (leaf : CachedLeaf) : Prop where
  inTree : page ∈ layer 0
  nextPageId : leaf.nextPageId = if leaf.valid then following (layer 0) page else none
  linked : ∀ next, leaf.nextPage = some next →
    Follows (layer 0) page next ∧ cache.Has next .leafPage
  parent : ∀ parent, leaf.parentPage = some parent →
    page ∈ tree.childIds parent ∧ cache.Has parent .branchPage

structure BranchGood (tree : IndexTree) (height level : ℕ) (layer : ℕ → List PageID)
    (cache : PageCache) (page : PageID) (branch : CachedBranch) : Prop where
  below : level < height
  inTree : page ∈ layer (level + 1)
  records : branch.records.map ChildRef.childPageId = tree.childIds page
  attached : ∀ record ∈ branch.records, ∀ child, record.childPage = some child →
    child = record.childPageId ∧ cache.Has child (typeAt level)
  parent : ∀ parent, branch.parentPage = some parent →
    page ∈ tree.childIds parent ∧ cache.Has parent .branchPage

/-- The pages in memory are pages of the tree, and their pointers lead to the right pages. -/
structure Represents (tree : IndexTree) (height : ℕ) (layer : ℕ → List PageID)
    (cache : PageCache) : Prop where
  leaves : ∀ page leaf, cache.leafPages page = some leaf → LeafGood tree layer cache page leaf
  branches : ∀ page branch, cache.branchPages page = some branch →
    ∃ level, BranchGood tree height level layer cache page branch

def Grows (cache cache' : PageCache) : Prop :=
  ∀ page type, cache.Has page type → cache'.Has page type

theorem Grows.refl (cache : PageCache) : Grows cache cache := fun _ _ has => has

theorem Grows.trans {middle : PageCache} (first : Grows cache middle)
    (second : Grows middle cache') : Grows cache cache' :=
  fun page type has => second page type (first page type has)

theorem has_setLeaf (cache : PageCache) (page : PageID) (leaf : CachedLeaf) :
    (cache.setLeaf page leaf).Has page .leafPage :=
  ⟨leaf, by simp [setLeaf]⟩

theorem has_setBranch (cache : PageCache) (page : PageID) (branch : CachedBranch) :
    (cache.setBranch page branch).Has page .branchPage :=
  ⟨branch, by simp [setBranch]⟩

theorem grows_setLeaf (cache : PageCache) (page : PageID) (leaf : CachedLeaf) :
    Grows cache (cache.setLeaf page leaf) := by
  intro other type has
  cases type with
  | leafPage =>
      rcases has with ⟨old, oldEq⟩
      by_cases same : other = page
      · subst same
        exact has_setLeaf cache other leaf
      · exact ⟨old, by simpa [setLeaf, same] using oldEq⟩
  | branchPage => exact has

theorem grows_setBranch (cache : PageCache) (page : PageID) (branch : CachedBranch) :
    Grows cache (cache.setBranch page branch) := by
  intro other type has
  cases type with
  | leafPage => exact has
  | branchPage =>
      rcases has with ⟨old, oldEq⟩
      by_cases same : other = page
      · subst same
        exact has_setBranch cache other branch
      · exact ⟨old, by simpa [setBranch, same] using oldEq⟩

theorem LeafGood.mono {leaf : CachedLeaf} (good : LeafGood tree layer cache page leaf)
    (grows : Grows cache cache') : LeafGood tree layer cache' page leaf where
  inTree := good.inTree
  nextPageId := good.nextPageId
  linked next nextEq := ⟨(good.linked next nextEq).1, grows _ _ (good.linked next nextEq).2⟩
  parent parent parentEq :=
    ⟨(good.parent parent parentEq).1, grows _ _ (good.parent parent parentEq).2⟩

theorem BranchGood.mono {branch : CachedBranch}
    (good : BranchGood tree height level layer cache page branch) (grows : Grows cache cache') :
    BranchGood tree height level layer cache' page branch where
  below := good.below
  inTree := good.inTree
  records := good.records
  attached record mem child childEq :=
    ⟨(good.attached record mem child childEq).1,
      grows _ _ (good.attached record mem child childEq).2⟩
  parent parent parentEq :=
    ⟨(good.parent parent parentEq).1, grows _ _ (good.parent parent parentEq).2⟩

namespace Represents

theorem setLeaf {leaf : CachedLeaf} (represents : Represents tree height layer cache)
    (good : LeafGood tree layer cache page leaf) :
    Represents tree height layer (cache.setLeaf page leaf) where
  leaves other found foundEq := by
    have grows := grows_setLeaf cache page leaf
    by_cases same : other = page
    · subst same
      have leafEq : leaf = found := by simpa [PageCache.setLeaf] using foundEq
      exact leafEq ▸ good.mono grows
    · have oldEq : cache.leafPages other = some found := by
        simpa [PageCache.setLeaf, same] using foundEq
      exact (represents.leaves other found oldEq).mono grows
  branches other branch branchEq := by
    rcases represents.branches other branch branchEq with ⟨level, good⟩
    exact ⟨level, good.mono (grows_setLeaf cache page leaf)⟩

theorem setBranch {branch : CachedBranch} (represents : Represents tree height layer cache)
    (good : BranchGood tree height level layer cache page branch) :
    Represents tree height layer (cache.setBranch page branch) where
  leaves other leaf leafEq :=
    (represents.leaves other leaf leafEq).mono (grows_setBranch cache page branch)
  branches other found foundEq := by
    have grows := grows_setBranch cache page branch
    by_cases same : other = page
    · subst same
      have branchEq : branch = found := by simpa [PageCache.setBranch] using foundEq
      exact ⟨level, branchEq ▸ good.mono grows⟩
    · have oldEq : cache.branchPages other = some found := by
        simpa [PageCache.setBranch, same] using foundEq
      rcases represents.branches other found oldEq with ⟨level, old⟩
      exact ⟨level, old.mono grows⟩

end Represents

theorem leafPages_setChild (cache : PageCache) (page : PageID) (pos : ℕ) (child : Option PageID) :
    (cache.setChild page pos child).leafPages = cache.leafPages := by
  unfold PageCache.setChild
  split
  · rfl
  · rfl

theorem grows_getPage (cache : PageCache) (child : PageID) (type : PageType) (page : PageID) :
    Grows cache (cache.getPage tree child type page) := by
  cases type with
  | leafPage => exact grows_setLeaf cache child _
  | branchPage => exact grows_setBranch cache child _

theorem grows_setChild (cache : PageCache) (page : PageID) (pos : ℕ) (child : Option PageID) :
    Grows cache (cache.setChild page pos child) := by
  unfold PageCache.setChild
  split
  · exact Grows.refl cache
  · exact grows_setBranch cache page _

theorem grows_setNextPage (cache : PageCache) (page : PageID) (next : Option PageID) :
    Grows cache (cache.setNextPage page next) := by
  unfold PageCache.setNextPage
  split
  · exact Grows.refl cache
  · exact grows_setLeaf cache page _

theorem grows_childAt (cache : PageCache) (page : PageID) (pos : ℕ) (record : ChildRef)
    (type : PageType) : Grows cache (cache.childAt tree page pos record type).2 := by
  unfold PageCache.childAt
  split
  · exact Grows.refl cache
  · exact (grows_getPage cache _ type page).trans (grows_setChild _ page pos _)

theorem has_getPage (cache : PageCache) (child : PageID) (type : PageType) (page : PageID) :
    (cache.getPage tree child type page).Has child type := by
  cases type with
  | leafPage => exact has_setLeaf cache child _
  | branchPage => exact has_setBranch cache child _

theorem Represents.branch (represents : Represents tree height layer cache)
    (linked : tree.Linked height layer) (levelLt : level < height) (mem : page ∈ layer (level + 1))
    {branch : CachedBranch} (branchEq : cache.branchPages page = some branch) :
    BranchGood tree height level layer cache page branch := by
  rcases represents.branches page branch branchEq with ⟨other, good⟩
  have same := linked.apart (level + 1) levelLt (other + 1) good.below page mem good.inTree
  cases same
  exact good

theorem map_modify_childPage (records : List ChildRef) (pos : ℕ) (child : Option PageID) :
    (records.modify pos fun record => { record with childPage := child }).map
      ChildRef.childPageId = records.map ChildRef.childPageId := by
  apply List.ext_getElem?
  intro index
  by_cases same : pos = index
  · subst same
    simp [Function.comp_def]
  · simp [same]

namespace Represents

theorem getPage (represents : Represents tree height layer cache)
    (linked : tree.Linked height layer) (levelLt : level < height) (mem : page ∈ layer (level + 1))
    (childMem : child ∈ tree.childIds page) (has : cache.Has page .branchPage) :
    Represents tree height layer (cache.getPage tree child (typeAt level) page) := by
  have inLayer := linked.child_mem levelLt mem childMem
  cases level with
  | zero =>
      apply represents.setLeaf
      cases leafEq : cache.leafPages child with
      | none =>
          refine ⟨inLayer, rfl, ?_, ?_⟩
          · rintro next ⟨⟩
          · rintro parent ⟨⟩
            exact ⟨childMem, has⟩
      | some leaf =>
          have good := represents.leaves child leaf leafEq
          refine ⟨inLayer, good.nextPageId, good.linked, ?_⟩
          rintro parent ⟨⟩
          exact ⟨childMem, has⟩
  | succ level =>
      apply represents.setBranch
      cases branchEq : cache.branchPages child with
      | none =>
          refine ⟨Nat.lt_of_succ_lt levelLt, inLayer, ?_, ?_, ?_⟩
          · simp [CachedBranch.read, IndexTree.childIds]
          · intro record recordMem grandchild childEq
            rcases List.mem_map.mp recordMem with ⟨br, brMem, rfl⟩
            cases childEq
          · rintro parent ⟨⟩
            exact ⟨childMem, has⟩
      | some branch =>
          have good := represents.branch linked (Nat.lt_of_succ_lt levelLt) inLayer branchEq
          refine ⟨good.below, inLayer, good.records, good.attached, ?_⟩
          rintro parent ⟨⟩
          exact ⟨childMem, has⟩

theorem setChild (represents : Represents tree height layer cache)
    (linked : tree.Linked height layer) (levelLt : level < height) (mem : page ∈ layer (level + 1))
    {pos : ℕ} (atPos : (tree.childIds page)[pos]? = some child) {pointer : Option PageID}
    (points : ∀ target, pointer = some target → target = child ∧ cache.Has child (typeAt level)) :
    Represents tree height layer (cache.setChild page pos pointer) := by
  unfold PageCache.setChild
  split
  · exact represents
  · next branch branchEq =>
      have good := represents.branch linked levelLt mem branchEq
      apply represents.setBranch
      refine ⟨good.below, good.inTree, ?_, ?_, good.parent⟩
      · rw [map_modify_childPage]
        exact good.records
      · intro record recordMem target targetEq
        rcases List.getElem?_of_mem recordMem with ⟨index, recordEq⟩
        rw [List.getElem?_modify] at recordEq
        rcases Option.map_eq_some_iff.mp recordEq with ⟨old, oldEq, rfl⟩
        have oldId : (tree.childIds page)[index]? = some old.childPageId := by
          rw [← good.records, List.getElem?_map, oldEq]
          rfl
        by_cases same : pos = index
        · subst same
          rw [atPos] at oldId
          cases oldId
          simp only [if_true] at targetEq ⊢
          rcases points target targetEq with ⟨rfl, has⟩
          exact ⟨rfl, has⟩
        · simp only [same, if_false] at targetEq ⊢
          exact good.attached old (List.mem_of_getElem? oldEq) target targetEq

theorem setNextPage (represents : Represents tree height layer cache) {next : Option PageID}
    (follows : ∀ target, next = some target →
      Follows (layer 0) page target ∧ cache.Has target .leafPage) :
    Represents tree height layer (cache.setNextPage page next) := by
  unfold PageCache.setNextPage
  split
  · exact represents
  · next leaf leafEq =>
      have good := represents.leaves page leaf leafEq
      apply represents.setLeaf
      exact { good with linked := follows }

end Represents

theorem childAt_spec (represents : Represents tree height layer cache)
    (linked : tree.Linked height layer) (levelLt : level < height) (mem : page ∈ layer (level + 1))
    {branch : CachedBranch} (branchEq : cache.branchPages page = some branch) {pos : ℕ}
    {record : ChildRef} (recordEq : branch.records[pos]? = some record) :
    (cache.childAt tree page pos record (typeAt level)).1 = record.childPageId ∧
      Represents tree height layer (cache.childAt tree page pos record (typeAt level)).2 ∧
      (cache.childAt tree page pos record (typeAt level)).2.Has record.childPageId
        (typeAt level) := by
  have good := represents.branch linked levelLt mem branchEq
  have atPos : (tree.childIds page)[pos]? = some record.childPageId := by
    rw [← good.records, List.getElem?_map, recordEq]
    rfl
  have childMem := List.mem_of_getElem? atPos
  unfold PageCache.childAt
  split
  · next target targetEq =>
      rcases good.attached record (List.mem_of_getElem? recordEq) target targetEq with ⟨rfl, has⟩
      exact ⟨rfl, represents, has⟩
  · have has := @has_getPage tree cache record.childPageId (typeAt level) page
    refine ⟨rfl, ?_, grows_setChild _ page pos _ _ _ has⟩
    apply (represents.getPage linked levelLt mem childMem ⟨branch, branchEq⟩).setChild linked
      levelLt mem atPos
    rintro target ⟨⟩
    exact ⟨rfl, has⟩

/-!
## Leaves that wait for themselves
-/

/-- A leaf that has a right neighbour and does not know the page. -/
def Unlinked (cache : PageCache) (page : PageID) : Prop :=
  ∃ leaf, cache.leafPages page = some leaf ∧ leaf.nextPage = none ∧ leaf.rangeEndPage = false ∧
    leaf.nextPageId ≠ none

theorem Unlinked.setLeaf {other : PageID} {leaf : CachedLeaf} (unlinked : Unlinked cache page)
    (apart : page ≠ other) : Unlinked (cache.setLeaf other leaf) page := by
  rcases unlinked with ⟨old, oldEq, rest⟩
  exact ⟨old, by simpa [PageCache.setLeaf, apart] using oldEq, rest⟩

theorem Unlinked.getPage {other parent : PageID} {type : PageType}
    (unlinked : Unlinked cache page) : Unlinked (cache.getPage tree other type parent) page := by
  cases type with
  | branchPage => exact unlinked
  | leafPage =>
      by_cases same : page = other
      · subst same
        rcases unlinked with ⟨leaf, leafEq, nextEq, rangeEq, idEq⟩
        refine ⟨{ leaf with parentPage := some parent }, ?_, nextEq, rangeEq, idEq⟩
        simp [PageCache.getPage, PageCache.setLeaf, leafEq]
      · exact unlinked.setLeaf same

theorem Unlinked.setChild {other : PageID} {pos : ℕ} {pointer : Option PageID}
    (unlinked : Unlinked cache page) : Unlinked (cache.setChild other pos pointer) page := by
  rcases unlinked with ⟨leaf, leafEq, rest⟩
  exact ⟨leaf, by rwa [leafPages_setChild], rest⟩

theorem Unlinked.childAt {other : PageID} {pos : ℕ} {record : ChildRef} {type : PageType}
    (unlinked : Unlinked cache page) :
    Unlinked (cache.childAt tree other pos record type).2 page := by
  unfold PageCache.childAt
  split
  · exact unlinked
  · exact unlinked.getPage.setChild

theorem Unlinked.setNextPage {other : PageID} {next : Option PageID}
    (unlinked : Unlinked cache page) (apart : page ≠ other) :
    Unlinked (cache.setNextPage other next) page := by
  unfold PageCache.setNextPage
  split
  · exact unlinked
  · exact unlinked.setLeaf apart

theorem getNextPage_of_not_unlinked {fuel : ℕ} {leaf : CachedLeaf}
    (leafEq : cache.leafPages page = some leaf) (notUnlinked : ¬ Unlinked cache page) :
    getNextPage asserts tree (fuel + 1) cache page true = some (leaf.nextPage, cache) := by
  cases nextEq : leaf.nextPage with
  | some next => simp [getNextPage, leafEq, nextEq]
  | none =>
      have ends : leaf.rangeEndPage = true ∨ leaf.nextPageId = none := by
        by_contra neither
        rw [not_or, Bool.not_eq_true] at neither
        exact notUnlinked ⟨leaf, leafEq, nextEq, neither.1, neither.2⟩
      simp [getNextPage, leafEq, nextEq, ends]

theorem not_unlinked_setNextPage {leaf : CachedLeaf} {next : Option PageID}
    (leafEq : cache.leafPages page = some leaf) (notUnlinked : ¬ Unlinked cache page)
    (nextEq : leaf.nextPage = none) : ¬ Unlinked (cache.setNextPage page next) page := by
  rintro ⟨found, foundEq, -, rangeEq, idEq⟩
  have same : { leaf with nextPage := next } = found := by
    simpa [PageCache.setNextPage, leafEq, PageCache.setLeaf] using foundEq
  subst same
  exact notUnlinked ⟨leaf, leafEq, nextEq, rangeEq, idEq⟩

/-- A leaf with a right neighbour under the same parent page. -/
def HasBrother (tree : IndexTree) (layer : ℕ → List PageID) (page : PageID) : Prop :=
  ∃ parent ∈ layer 1, ∃ next, Follows (tree.childIds parent) page next

section Loop

variable {fuel : ℕ} {currPage : PageID} (linked : tree.Linked height layer) (below : 0 < height)
  (mem : page ∈ layer 1)

include linked below mem

theorem settled {lpCurr next : PageID} {lpNext : Option PageID} {leaf : CachedLeaf}
    (follows : Follows (tree.childIds page) lpCurr next)
    (represents : Represents tree height layer cache) (leafEq : cache.leafPages lpCurr = some leaf)
    (notUnlinked : ¬ Unlinked cache lpCurr)
    (known : ∀ target, lpNext = some target → target = next ∧ cache.Has target .leafPage) :
    Represents tree height layer
        (if leaf.nextPage = none then cache.setNextPage lpCurr lpNext else cache) ∧
      Grows cache (if leaf.nextPage = none then cache.setNextPage lpCurr lpNext else cache) ∧
      ¬ Unlinked (if leaf.nextPage = none then cache.setNextPage lpCurr lpNext else cache)
        lpCurr := by
  split
  · next nextEq =>
      refine ⟨?_, grows_setNextPage cache lpCurr lpNext,
        not_unlinked_setNextPage leafEq notUnlinked nextEq⟩
      apply represents.setNextPage
      intro target targetEq
      rcases known target targetEq with ⟨rfl, has⟩
      rw [linked.children 0 below]
      exact ⟨follows.flatMap mem, has⟩
  · exact ⟨represents, Grows.refl cache, notUnlinked⟩

variable
  (stuck : ∀ cache page, Represents tree height layer cache → Unlinked cache page →
    HasBrother tree layer page → getNextPage asserts tree fuel cache page true = none)
  (represents : Represents tree height layer cache) (has : cache.Has page .branchPage)
  (unlinked : Unlinked cache currPage)

include stuck represents unlinked

include has in
/-- One round of the loop: it comes to a page whose next page is known, or was looked for in vain,
and leaves the other pages as they are. -/
theorem fillLoop_step {pos : ℕ} {next : PageID} {lpNext : Option PageID}
    (behind : (tree.childIds page)[pos + 1]? = some next)
    (known : ∀ target, lpNext = some target → target = next ∧ cache.Has next .leafPage)
    (result : fillLoop asserts tree
      (fun cache page => getNextPage asserts tree fuel cache page true) page currPage false
      (pos + 1) lpNext cache = some cache') :
    ∃ middle lpCurr, (tree.childIds page)[pos]? = some lpCurr ∧ lpCurr ≠ currPage ∧
      Represents tree height layer middle ∧ Grows cache middle ∧ Unlinked middle currPage ∧
      middle.Has lpCurr .leafPage ∧
      fillLoop asserts tree (fun cache page => getNextPage asserts tree fuel cache page true) page
        currPage false pos (some lpCurr) middle = some cache' := by
  rcases has with ⟨branch, branchEq⟩
  have good := represents.branch linked below mem branchEq
  have posLt : pos < branch.records.length := by
    have bound := (List.getElem?_eq_some_iff.mp behind).1
    rw [← good.records, List.length_map] at bound
    omega
  have recordEq : branch.records[pos]? = some branch.records[pos] :=
    List.getElem?_eq_getElem posLt
  set record := branch.records[pos] with recordDef
  have atPos : (tree.childIds page)[pos]? = some record.childPageId := by
    rw [← good.records, List.getElem?_map, recordEq]
    rfl
  have follows := follows_of_getElem? atPos behind
  rcases childAt_spec represents linked below mem branchEq recordEq with ⟨idEq, childRep, childHas⟩
  have childGrows := @grows_childAt tree cache page pos record .leafPage
  have childUnlinked := @Unlinked.childAt tree _ _ page pos record .leafPage unlinked
  simp only [typeAt] at idEq childRep childHas
  simp only [fillLoop, branchEq, recordEq, Option.bind_eq_bind, Option.bind_some] at result
  generalize cache.childAt tree page pos record .leafPage = found at *
  rcases found with ⟨lpCurr, middle⟩
  simp only at idEq childRep childHas childGrows childUnlinked result
  subst idEq
  by_cases waits : Unlinked middle record.childPageId
  · rw [stuck middle _ childRep waits ⟨page, mem, next, follows⟩] at result
    cases result
  · have apart : record.childPageId ≠ currPage := fun same => waits (same ▸ childUnlinked)
    rcases childHas with ⟨leaf, leafEq⟩
    cases fuel with
    | zero => cases result
    | succ fuel =>
        rw [getNextPage_of_not_unlinked leafEq waits, Option.bind_some] at result
        rcases settled linked below mem follows childRep leafEq waits
            (fun target targetEq => ⟨(known target targetEq).1,
              (known target targetEq).1 ▸ childGrows _ _ (known target targetEq).2⟩) with
          ⟨settledRep, settledGrows, settledKnows⟩
        have settledUnlinked : Unlinked
            (if leaf.nextPage = none then middle.setNextPage record.childPageId lpNext else middle)
            currPage := by
          split
          · exact childUnlinked.setNextPage (Ne.symm apart)
          · exact childUnlinked
        generalize (if leaf.nextPage = none then middle.setNextPage record.childPageId lpNext
          else middle) = settledCache at *
        rcases settledGrows record.childPageId .leafPage
          ⟨leaf, leafEq⟩ with ⟨settledLeaf, settledEq⟩
        have goesOn : (!false && record.childPageId == currPage) = false := by simpa using apart
        refine ⟨settledCache, record.childPageId, atPos, apart, settledRep,
          childGrows.trans settledGrows, settledUnlinked, ⟨settledLeaf, settledEq⟩, ?_⟩
        simp only [getNextPage_of_not_unlinked settledEq settledKnows, Option.bind_some, goesOn,
          Bool.false_eq_true, if_false] at result
        split at result
        · split at result
          · exact result
          · cases result
        · exact result

include has in
/-- When the loop comes to its end, it has not met the page whose next page it looks for, which
does not know it now either. -/
theorem fillLoop_spec {pos : ℕ} {next : PageID} {lpNext : Option PageID}
    (behind : (tree.childIds page)[pos]? = some next)
    (known : ∀ target, lpNext = some target → target = next ∧ cache.Has next .leafPage)
    (result : fillLoop asserts tree
      (fun cache page => getNextPage asserts tree fuel cache page true) page currPage false
      pos lpNext cache = some cache') :
    Unlinked cache' currPage ∧ ∀ index < pos, (tree.childIds page)[index]? ≠ some currPage := by
  induction pos generalizing cache next lpNext with
  | zero =>
      cases result
      exact ⟨unlinked, fun index indexLt => absurd indexLt (Nat.not_lt_zero index)⟩
  | succ pos ih =>
      rcases fillLoop_step linked below mem stuck represents has unlinked behind known result with
        ⟨middle, lpCurr, atPos, apart, middleRep, grows, middleUnlinked, middleHas, rest⟩
      rcases ih middleRep (grows _ _ has) middleUnlinked atPos
        (fun target targetEq => ⟨(Option.some.inj targetEq).symm, middleHas⟩) rest with
        ⟨unlinkedEnd, notMet⟩
      refine ⟨unlinkedEnd, fun index indexLt => ?_⟩
      rcases Nat.lt_succ_iff_lt_or_eq.mp indexLt with earlier | rfl
      · exact notMet index earlier
      · rw [atPos]
        exact fun same => apart (Option.some.inj same)

/-- The parent page has not filled in the next page of a child that its last record does not
point to. -/
theorem fillNextPage_unlinked {branch : CachedBranch}
    (branchEq : cache.branchPages page = some branch) {last : ChildRef}
    (lastEq : branch.records.getLast? = some last) (notAttached : last.childPage ≠ some currPage)
    (result : fillNextPage asserts tree
      (fun cache page => getNextPage asserts tree fuel cache page true) fuel cache page currPage
      false = some cache') :
    Unlinked cache' currPage ∧
      ∀ index < branch.records.length - 1, (tree.childIds page)[index]? ≠ some currPage := by
  have good := represents.branch linked below mem branchEq
  have atLast : branch.records[branch.records.length - 1]? = some last := by
    rw [← List.getLast?_eq_getElem?, lastEq]
  have idAtLast : (tree.childIds page)[branch.records.length - 1]? = some last.childPageId := by
    rw [← good.records, List.getElem?_map, atLast]
    rfl
  simp only [fillNextPage, branchEq, lastEq, Option.bind_eq_bind, Option.bind_some,
    if_neg notAttached] at result
  cases lastPointer : last.childPage with
  | some lpNext =>
      rcases good.attached last (List.mem_of_getElem? atLast) lpNext lastPointer with
        ⟨rfl, lastHas⟩
      simp only [lastPointer] at result
      exact fillLoop_spec linked below mem stuck represents ⟨branch, branchEq⟩ unlinked idAtLast
        (fun target targetEq => ⟨(Option.some.inj targetEq).symm, lastHas⟩) result
  | none =>
      simp only [lastPointer] at result
      have fetched := represents.getPage linked below mem (List.mem_of_getElem? idAtLast)
        ⟨branch, branchEq⟩
      have cleared := @Represents.setChild _ _ _ _ _ _ _ fetched linked below mem _ idAtLast none
        (fun target targetEq => by cases targetEq)
      have grows := (@grows_getPage tree cache last.childPageId .leafPage page).trans
        (grows_setChild _ page (branch.records.length - 1) none)
      exact fillLoop_spec linked below mem stuck cleared (grows _ _ ⟨branch, branchEq⟩)
        unlinked.getPage.setChild idAtLast (fun target targetEq => by cases targetEq) result

end Loop

theorem BranchGood.isLast {branch : CachedBranch}
    (good : BranchGood tree height level layer cache page branch) {last : ChildRef}
    (lastEq : branch.records.getLast? = some last) :
    IsLast (tree.childIds page) last.childPageId := by
  apply isLast_of_getLast?
  rw [← good.records, List.getLast?_map, lastEq]
  rfl

theorem BranchGood.records_ne_nil {branch : CachedBranch}
    (good : BranchGood tree height level layer cache page branch)
    (childMem : child ∈ tree.childIds page) : branch.records ≠ [] := by
  intro empty
  have ids := good.records
  rw [empty, List.map_nil] at ids
  rw [← ids] at childMem
  cases childMem

/-- A leaf that waits for its next page and has a right brother never gets an answer. -/
theorem getNextPage_stuck (linked : tree.Linked height layer) (below : 0 < height) {fuel : ℕ}
    (represents : Represents tree height layer cache) (unlinked : Unlinked cache page)
    (brother : HasBrother tree layer page) :
    getNextPage asserts tree fuel cache page true = none := by
  induction fuel generalizing cache page with
  | zero => rfl
  | succ fuel ih =>
      have waits := unlinked
      rcases unlinked with ⟨leaf, leafEq, nextEq, rangeEq, idEq⟩
      rcases brother with ⟨parent, parentMem, next, follows⟩
      cases parentEq : leaf.parentPage with
      | none => simp [getNextPage, leafEq, nextEq, rangeEq, idEq, parentEq]
      | some other =>
          rcases (represents.leaves page leaf leafEq).parent other parentEq with
            ⟨childMem, branch, branchEq⟩
          rcases represents.branches other branch branchEq with ⟨level, found⟩
          have same := linked.parent_unique found.below found.inTree childMem below parentMem
            follows.mem.1
          subst same
          have good := represents.branch linked below parentMem branchEq
          have nodup := linked.nodup_childIds below parentMem
          suffices fillNextPage asserts tree
              (fun cache page => getNextPage asserts tree fuel cache page true) fuel
                cache other page
              false = none by
            simp [getNextPage, leafEq, nextEq, rangeEq, idEq, parentEq, this]
          rw [Option.eq_none_iff_forall_ne_some]
          intro cache' result
          have nonempty := good.records_ne_nil childMem
          have lastEq := List.getLast?_eq_some_getLast nonempty
          have notAttached : (branch.records.getLast nonempty).childPage ≠ some page := by
            intro attached
            have pageEq := (good.attached _ (List.getLast_mem nonempty) page attached).1
            exact (good.isLast lastEq).not_follows nodup (pageEq ▸ follows)
          rcases follows.exists_index with ⟨pos, posLt, atPos⟩
          have notMet := (fillNextPage_unlinked linked below parentMem
            (fun _ _ represents unlinked brother => ih represents unlinked brother) represents waits
            branchEq lastEq notAttached result).2
          rw [← good.records, List.length_map] at posLt
          exact notMet pos (by omega) atPos

/-!
## Climbing to the neighbour
-/

/-- From a child of a page the way leads over records that point to the pages it comes from, up to
the first page with a record behind. In a debug build no page on the way may be an end page. -/
inductive Turns (asserts : Bool) (cache : PageCache) : PageID → PageID → Prop
  | right {page currPage : PageID} {branch : CachedBranch} {before behind : List ChildRef}
      {record next : ChildRef} (branchEq : cache.branchPages page = some branch)
      (asserted : asserts = true → branch.endPage = false)
      (recordsEq : branch.records = before ++ record :: next :: behind)
      (attached : record.childPage = some currPage) : Turns asserts cache page currPage
  | up {page currPage parent : PageID} {branch : CachedBranch} {before : List ChildRef}
      {record : ChildRef} (branchEq : cache.branchPages page = some branch)
      (asserted : asserts = true → branch.endPage = false)
      (recordsEq : branch.records = before ++ [record])
      (attached : record.childPage = some currPage) (parentEq : branch.parentPage = some parent)
      (above : Turns asserts cache parent page) : Turns asserts cache page currPage

theorem scanBack_sound {records : List ChildRef} {currPage : PageID} {bound pos : ℕ}
    (found : scanBack records currPage bound = some pos) :
    pos < bound ∧ ∃ record, records[pos]? = some record ∧ record.childPage = some currPage := by
  induction bound with
  | zero => cases found
  | succ bound ih =>
      rw [scanBack] at found
      split at found
      · next points =>
          cases found
          rcases Option.bind_eq_some_iff.mp points with ⟨record, recordEq, attached⟩
          exact ⟨Nat.lt_succ_self _, record, recordEq, attached⟩
      · rcases ih found with ⟨posLt, rest⟩
        exact ⟨Nat.lt_succ_of_lt posLt, rest⟩

theorem scanBack_eq {records : List ChildRef} {currPage : PageID} {bound pos : ℕ}
    {record : ChildRef} (posLt : pos < bound) (recordEq : records[pos]? = some record)
    (attached : record.childPage = some currPage)
    (unique : ∀ other record, records[other]? = some record → record.childPage = some currPage →
      other = pos) : scanBack records currPage bound = some pos := by
  induction bound with
  | zero => omega
  | succ bound ih =>
      rw [scanBack]
      split
      · next points =>
          rcases Option.bind_eq_some_iff.mp points with ⟨other, otherEq, otherAttached⟩
          rw [unique bound other otherEq otherAttached]
      · next notHere =>
          apply ih
          rcases Nat.lt_succ_iff_lt_or_eq.mp posLt with earlier | same
          · exact earlier
          · subst same
            exact absurd (by rw [recordEq]; exact attached) notHere

theorem turns_of_branchNextPage {fuel : ℕ} {currPage : PageID} {type : PageType}
    {result : PageID × PageCache}
    (found : branchNextPage asserts tree fuel cache page currPage type = some result) :
    Turns asserts cache page currPage := by
  induction fuel generalizing page currPage type result with
  | zero => cases found
  | succ fuel ih =>
      simp only [branchNextPage, Option.bind_eq_bind, Option.bind_eq_some_iff] at found
      rcases found with ⟨branch, branchEq, found⟩
      rcases Option.ite_none_left_eq_some.mp found with ⟨asserted, found⟩
      have asserted : asserts = true → branch.endPage = false := by simpa using asserted
      simp only [Option.bind_eq_some_iff] at found
      rcases found with ⟨last, lastEq, found⟩
      split at found
      · next attached =>
          simp only [Option.bind_eq_some_iff] at found
          rcases found with ⟨parent, parentEq, above, aboveEq, -⟩
          rcases List.getLast?_eq_some_iff.mp lastEq with ⟨before, recordsEq⟩
          exact .up branchEq asserted recordsEq attached parentEq (ih aboveEq)
      · simp only [Option.bind_eq_some_iff] at found
        rcases found with ⟨pos, posEq, next, nextEq, -⟩
        rcases scanBack_sound posEq with ⟨-, record, recordEq, attached⟩
        rcases follows_of_getElem? recordEq nextEq with ⟨before, behind, recordsEq⟩
        exact .right branchEq asserted recordsEq attached

theorem BranchGood.attached_unique {branch : CachedBranch}
    (good : BranchGood tree height level layer cache page branch)
    (linked : tree.Linked height layer) {first second : ℕ} {left right : ChildRef}
    (leftEq : branch.records[first]? = some left) (rightEq : branch.records[second]? = some right)
    (leftAttached : left.childPage = some child) (rightAttached : right.childPage = some child) :
    first = second := by
  have nodup := linked.nodup_childIds good.below good.inTree
  have leftId := (good.attached left (List.mem_of_getElem? leftEq) child leftAttached).1
  have rightId := (good.attached right (List.mem_of_getElem? rightEq) child rightAttached).1
  rw [← good.records] at nodup
  have firstLt : first < (branch.records.map ChildRef.childPageId).length := by
    rw [List.length_map]
    exact (List.getElem?_eq_some_iff.mp leftEq).1
  apply (List.getElem?_inj firstLt nodup).mp
  rw [List.getElem?_map, List.getElem?_map, leftEq, rightEq]
  exact congrArg some (leftId.symm.trans rightId)

theorem branchNextPage_spec {currPage : PageID} (linked : tree.Linked height layer)
    (represents : Represents tree height layer cache) (turns : Turns asserts cache page currPage)
    (levelLt : level < height) (mem : page ∈ layer (level + 1)) :
    ∃ fuel next cache',
      branchNextPage asserts tree fuel cache page currPage (typeAt level) = some (next, cache') ∧
      Follows (layer level) currPage next ∧ Represents tree height layer cache' ∧
      cache'.Has next (typeAt level) ∧ Grows cache cache' := by
  induction turns generalizing level with
  | @right page currPage branch before behind record next branchEq asserted recordsEq attached =>
      have good := represents.branch linked levelLt mem branchEq
      have atRecord : branch.records[before.length]? = some record := by simp [recordsEq]
      have atNext : branch.records[before.length + 1]? = some next := by simp [recordsEq]
      have currEq := (good.attached record (by simp [recordsEq]) currPage attached).1
      have scan : scanBack branch.records currPage (branch.records.length - 1) =
          some before.length := by
        refine scanBack_eq (by simp [recordsEq]) atRecord attached ?_
        intro other record' otherEq otherAttached
        exact good.attached_unique linked otherEq atRecord otherAttached attached
      have notEmpty : branch.records ≠ [] := by simp [recordsEq]
      have lastEq := List.getLast?_eq_some_getLast notEmpty
      have notLast : (branch.records.getLast notEmpty).childPage ≠ some currPage := by
        intro lastAttached
        rw [List.getLast?_eq_getElem?] at lastEq
        have same := good.attached_unique linked lastEq atRecord lastAttached attached
        simp [recordsEq] at same
      have follows : Follows (tree.childIds page) currPage next.childPageId := by
        refine ⟨before.map ChildRef.childPageId, behind.map ChildRef.childPageId, ?_⟩
        rw [← good.records, recordsEq, currEq]
        simp
      rcases childAt_spec represents linked levelLt mem branchEq atNext with
        ⟨idEq, represents', has⟩
      refine ⟨1, next.childPageId,
        (cache.childAt tree page (before.length + 1) next (typeAt level)).2, ?_, ?_, represents',
        has, grows_childAt cache page _ next _⟩
      · simpa [branchNextPage, branchEq, lastEq, notLast, scan, atNext, ← idEq] using asserted
      · rw [linked.children level levelLt]
        exact follows.flatMap mem
  | @up page currPage parent branch before record branchEq asserted recordsEq attached parentEq
      above ih =>
      have good := represents.branch linked levelLt mem branchEq
      have currEq := (good.attached record (by simp [recordsEq]) currPage attached).1
      rcases good.parent parent parentEq with ⟨pageMem, parentBranch, parentBranchEq⟩
      rcases represents.branches parent parentBranch parentBranchEq with ⟨upper, parentGood⟩
      have upperEq : level + 1 = upper :=
        linked.apart (level + 1) levelLt upper parentGood.below.le page mem
          (linked.child_mem parentGood.below parentGood.inTree pageMem)
      subst upperEq
      rcases ih parentGood.below parentGood.inTree with
        ⟨fuel, bp, middle, upEq, follows, middleRep, ⟨right, rightEq⟩, grows⟩
      have bpMem := follows.mem.2
      have rightGood := middleRep.branch linked levelLt bpMem rightEq
      rcases List.exists_cons_of_ne_nil (linked.nonempty level levelLt bp bpMem) with
        ⟨firstId, ids, idsEq⟩
      have rightRecords := rightGood.records
      rw [idsEq] at rightRecords
      rcases List.map_eq_cons_iff.mp rightRecords with ⟨first, others, recordsEq', firstEq, -⟩
      have atFirst : right.records[0]? = some first := by simp [recordsEq']
      rcases childAt_spec middleRep linked levelLt bpMem rightEq atFirst with
        ⟨idEq, represents', has⟩
      have last : IsLast (tree.childIds page) currPage := by
        refine ⟨before.map ChildRef.childPageId, ?_⟩
        rw [← good.records, recordsEq, currEq]
        simp
      have lastEq : branch.records.getLast? = some record := by simp [recordsEq]
      refine ⟨fuel + 1, first.childPageId, (middle.childAt tree bp 0 first (typeAt level)).2, ?_,
        ?_, represents', has, grows.trans (grows_childAt middle bp 0 first _)⟩
      · simp only [typeAt] at upEq
        simpa [branchNextPage, branchEq, lastEq, attached, parentEq, upEq, rightEq, recordsEq',
          ← idEq] using asserted
      · rw [linked.children level levelLt]
        exact follows.flatMap_border last (by rw [idsEq, firstEq]; rfl)

/-!
## Which leaves find their neighbour
-/

/-- The call comes back with the leaf that is next in the layer of the leaves, or with null for the
last one. -/
def FindsRight (asserts : Bool) (tree : IndexTree) (layer : ℕ → List PageID) (cache : PageCache)
    (page : PageID) : Prop :=
  ∃ fuel cache',
    getNextPage asserts tree fuel cache page true = some (following (layer 0) page, cache')

/-- The last record of the parent page of a leaf points to the leaf, and a way leads from there to
the first page with a record behind. -/
def ClimbsRight (asserts : Bool) (cache : PageCache) (page : PageID) (leaf : CachedLeaf) : Prop :=
  ∃ parent branch before record, leaf.parentPage = some parent ∧
    cache.branchPages parent = some branch ∧ branch.records = before ++ [record] ∧
    record.childPage = some page ∧ Turns asserts cache parent page

/-- The leaf has its next page, or is the last leaf, or no range ends with it and it is the last
child of its parent page with a way to its neighbour. -/
def HasWayRight (asserts : Bool) (layer : ℕ → List PageID) (cache : PageCache) (page : PageID) :
    Prop :=
  ∃ leaf, cache.leafPages page = some leaf ∧
    (leaf.nextPage ≠ none ∨ following (layer 0) page = none ∨
      leaf.rangeEndPage = false ∧ ClimbsRight asserts cache page leaf)

/-- The bytes of a leaf page have been read. -/
def Valid (cache : PageCache) (page : PageID) : Prop :=
  ∃ leaf, cache.leafPages page = some leaf ∧ leaf.valid = true

/-- A leaf with a way to its right neighbour finds it, and the cache represents the tree as
before. -/
theorem getNextPage_spec (linked : tree.Linked height layer)
    (represents : Represents tree height layer cache) (valid : Valid cache page)
    (way : HasWayRight asserts layer cache page) :
    ∃ fuel cache',
      getNextPage asserts tree fuel cache page true = some (following (layer 0) page, cache') ∧
      Represents tree height layer cache' ∧
      ∀ next, following (layer 0) page = some next → cache'.Has next .leafPage := by
  rcases valid with ⟨leaf, leafEq, isValid⟩
  rcases way with ⟨same, sameEq, way⟩
  rw [leafEq] at sameEq
  cases sameEq
  have good := represents.leaves page leaf leafEq
  have nodup := linked.nodup 0 (Nat.zero_le _)
  have idEq : leaf.nextPageId = following (layer 0) page := by
    rw [good.nextPageId, isValid, if_pos rfl]
  cases nextEq : leaf.nextPage with
  | some next =>
      rcases good.linked next nextEq with ⟨follows, has⟩
      have found := follows.following_eq nodup
      refine ⟨1, cache, by simp [getNextPage, leafEq, nextEq, found], represents, ?_⟩
      intro other otherEq
      rw [found] at otherEq
      cases otherEq
      exact has
  | none =>
      rcases way with linkedTo | isLast | ⟨notRangeEnd, climbs⟩
      · exact absurd nextEq linkedTo
      · refine ⟨1, cache, by simp [getNextPage, leafEq, nextEq, idEq, isLast], represents, ?_⟩
        intro other otherEq
        rw [isLast] at otherEq
        cases otherEq
      · rcases climbs with ⟨parent, branch, before, record, parentEq, branchEq, recordsEq, attached,
          turns⟩
        have childMem := (good.parent parent parentEq).1
        rcases represents.branches parent branch branchEq with ⟨level, branchGood⟩
        have levelEq : 0 = level := linked.apart 0 (Nat.zero_le _) level branchGood.below.le page
          good.inTree (linked.child_mem branchGood.below branchGood.inTree childMem)
        subst levelEq
        rcases branchNextPage_spec linked represents turns branchGood.below branchGood.inTree with
          ⟨fuel, next, middle, climbEq, follows, middleRep, has, grows⟩
        simp only [typeAt] at climbEq has
        have found := follows.following_eq nodup
        have lastEq : branch.records.getLast? = some record := by simp [recordsEq]
        rcases grows page .leafPage ⟨leaf, leafEq⟩ with ⟨middleLeaf, middleEq⟩
        refine ⟨fuel + 1, middle.setNextPage page (some next), ?_, ?_, ?_⟩
        · simp [getNextPage, leafEq, nextEq, notRangeEnd, idEq, found, parentEq, fillNextPage,
            branchEq, lastEq, attached, climbEq, PageCache.setNextPage, middleEq,
            PageCache.setLeaf]
        · apply middleRep.setNextPage
          rintro target ⟨⟩
          exact ⟨follows, has⟩
        · intro other otherEq
          rw [found] at otherEq
          cases otherEq
          exact grows_setNextPage middle page _ next .leafPage has

theorem hasWayRight_of_findsRight (linked : tree.Linked height layer)
    (represents : Represents tree height layer cache) (valid : Valid cache page)
    (finds : FindsRight asserts tree layer cache page) : HasWayRight asserts layer cache page := by
  rcases valid with ⟨leaf, leafEq, isValid⟩
  rcases finds with ⟨fuel, cache', found⟩
  refine ⟨leaf, leafEq, ?_⟩
  by_contra noWay
  simp only [not_or, not_and, ne_eq, not_not] at noWay
  rcases noWay with ⟨nextEq, notLast, noClimb⟩
  have good := represents.leaves page leaf leafEq
  have idEq : leaf.nextPageId = following (layer 0) page := by
    rw [good.nextPageId, isValid, if_pos rfl]
  cases fuel with
  | zero => cases found
  | succ fuel =>
      cases rangeEq : leaf.rangeEndPage with
      | true =>
          simp only [getNextPage, leafEq, nextEq, rangeEq, Option.bind_eq_bind, Option.bind_some,
            Bool.true_or, if_true, Option.some.injEq, Prod.mk.injEq] at found
          exact notLast found.1.symm
      | false =>
          have unlinked : Unlinked cache page := ⟨leaf, leafEq, nextEq, rangeEq, idEq ▸ notLast⟩
          simp only [getNextPage, leafEq, nextEq, rangeEq, idEq, notLast, Option.bind_eq_bind,
            Option.bind_some, Bool.false_or, decide_false, Bool.false_eq_true, if_false, if_true,
            Option.bind_eq_some_iff, Option.some.injEq, Prod.mk.injEq] at found
          rcases found with ⟨parent, parentEq, middle, filled, leaf', leafEq', nextEq', -⟩
          rcases good.parent parent parentEq with ⟨childMem, branch, branchEq⟩
          rcases represents.branches parent branch branchEq with ⟨level, branchGood⟩
          have levelEq : 0 = level := linked.apart 0 (Nat.zero_le _) level branchGood.below.le page
            good.inTree (linked.child_mem branchGood.below branchGood.inTree childMem)
          subst levelEq
          rcases List.getLast?_isSome.mpr (branchGood.records_ne_nil childMem) with lastSome
          rcases Option.isSome_iff_exists.mp lastSome with ⟨last, lastEq⟩
          by_cases attached : last.childPage = some page
          · simp only [fillNextPage, branchEq, lastEq, attached, Option.bind_eq_bind,
              Option.bind_some, if_true, Option.bind_eq_some_iff] at filled
            rcases filled with ⟨answer, climbEq, -⟩
            rcases List.getLast?_eq_some_iff.mp lastEq with ⟨before, recordsEq⟩
            exact noClimb rangeEq ⟨parent, branch, before, last, parentEq, branchEq, recordsEq,
              attached, turns_of_branchNextPage climbEq⟩
          · rcases (fillNextPage_unlinked linked branchGood.below branchGood.inTree
              (fun _ _ represents unlinked brother =>
                getNextPage_stuck linked branchGood.below represents unlinked brother)
              represents unlinked branchEq lastEq attached filled).1 with
              ⟨same, sameEq, stillNone, -⟩
            rw [leafEq'] at sameEq
            cases sameEq
            exact notLast (nextEq'.symm.trans stillNone)

/-!
## Walking from leaf to leaf
-/

/-- The leaves that are visited one after the other; a page that comes back unread is read before
the walk goes on. -/
inductive Walk (asserts : Bool) (tree : IndexTree) : PageCache → PageID → List PageID → Prop
  | last {cache cache' : PageCache} {page : PageID} {fuel : ℕ}
      (answer : getNextPage asserts tree fuel cache page true = some (none, cache')) :
      Walk asserts tree cache page [page]
  | next {cache cache' : PageCache} {page next : PageID} {fuel : ℕ} {rest : List PageID}
      (answer : getNextPage asserts tree fuel cache page true = some (some next, cache'))
      (goesOn : Walk asserts tree (cache'.afterRead tree next) next rest) :
      Walk asserts tree cache page (page :: rest)

def WalkStep (asserts : Bool) (tree : IndexTree) (source target : PageCache × PageID) : Prop :=
  ∃ fuel cache',
    getNextPage asserts tree fuel source.1 source.2 true = some (some target.2, cache') ∧
      target.1 = cache'.afterRead tree target.2

/-- Every leaf that a walk comes to has a way to its right neighbour when the walk is there. -/
def WaysRight (asserts : Bool) (tree : IndexTree) (layer : ℕ → List PageID) (cache : PageCache)
    (page : PageID) : Prop :=
  ∀ state, Relation.ReflTransGen (WalkStep asserts tree) (cache, page) state →
    HasWayRight asserts layer state.1 state.2

theorem afterRead_spec (linked : tree.Linked height layer)
    (represents : Represents tree height layer cache) (has : cache.Has page .leafPage) :
    Represents tree height layer (cache.afterRead tree page) ∧
      Valid (cache.afterRead tree page) page := by
  rcases has with ⟨leaf, leafEq⟩
  have good := represents.leaves page leaf leafEq
  simp only [PageCache.afterRead, leafEq]
  refine ⟨represents.setLeaf { good with nextPageId := ?_ }, ?_⟩
  · rw [linked.links page good.inTree]
    rfl
  · refine ⟨{ leaf with
      nextPageId := ((tree.pages page).map IndexPage.nextPageId).getD none
      valid := true }, ?_, rfl⟩
    simp [PageCache.setLeaf]

theorem walk_visits (linked : tree.Linked height layer)
    (represents : Represents tree height layer cache) (valid : Valid cache page)
    {before behind : List PageID} (layerEq : layer 0 = before ++ page :: behind)
    (ways : WaysRight asserts tree layer cache page) :
    Walk asserts tree cache page (page :: behind) := by
  induction behind generalizing cache page before with
  | nil =>
      rcases getNextPage_spec linked represents valid (ways _ .refl) with ⟨fuel, cache', answer, -⟩
      have nodup := linked.nodup 0 (Nat.zero_le _)
      rw [layerEq] at nodup answer
      rw [following_of_nodup nodup] at answer
      exact .last answer
  | cons next behind ih =>
      rcases getNextPage_spec linked represents valid (ways _ .refl) with
        ⟨fuel, cache', answer, represents', has⟩
      have nodup := linked.nodup 0 (Nat.zero_le _)
      have found : following (layer 0) page = some next := by
        rw [layerEq] at nodup ⊢
        exact following_of_nodup nodup
      rw [found] at answer
      rcases afterRead_spec linked represents' (has next found) with ⟨represents'', valid'⟩
      refine .next answer (@ih _ _ represents'' valid' (before ++ [page]) ?_ ?_)
      · rw [layerEq]
        simp
      · intro state reached
        exact ways state (.head ⟨fuel, cache', answer, rfl⟩ reached)

/-- For every tree and every set of pages in memory a leaf finds its right neighbour exactly when it
has a way to it, and a walk from the leftmost leaf whose leaves all have one visits every leaf
once and in order. -/
theorem getNextPage_findsRight_iff (asserts : Bool) (linked : tree.Linked height layer)
    (represents : Represents tree height layer cache) (valid : Valid cache page) :
    (FindsRight asserts tree layer cache page ↔ HasWayRight asserts layer cache page) ∧
      ∀ behind, layer 0 = page :: behind → WaysRight asserts tree layer cache page →
        (layer 0).Nodup ∧ Walk asserts tree cache page (layer 0) := by
  refine ⟨⟨hasWayRight_of_findsRight linked represents valid, fun way => ?_⟩, ?_⟩
  · rcases getNextPage_spec linked represents valid way with ⟨fuel, cache', answer, -⟩
    exact ⟨fuel, cache', answer⟩
  · intro behind layerEq ways
    refine ⟨linked.nodup 0 (Nat.zero_le _), ?_⟩
    rw [layerEq]
    exact @walk_visits _ _ _ _ _ _ linked represents valid [] _ layerEq ways

def sampleTree : IndexTree where
  indexType := .primary
  pages
    | 0 => some (.branch { pageLevel := 1, records := [⟨[], 1⟩, ⟨[], 2⟩], parentPageId := none })
    | 1 => some (.leaf { parentPageId := some 0, nextPageId := some 2 })
    | 2 => some (.leaf { parentPageId := some 0 })
    | _ => none
  rootPageId := 0
  totalPageCount := 3

def sampleLayer : ℕ → List PageID
  | 0 => [1, 2]
  | _ => [0]

/-- All pages are in memory and attached; the first leaf does not know its neighbour yet. -/
def sampleCache : PageCache where
  leafPages
    | 1 => some ⟨some 0, some 2, none, false, true⟩
    | 2 => some ⟨some 0, none, none, false, true⟩
    | _ => none
  branchPages
    | 0 => some ⟨none, true, [⟨1, some 1⟩, ⟨2, some 2⟩]⟩
    | _ => none

theorem linked_sampleTree : sampleTree.Linked 1 sampleLayer where
  top := rfl
  nodup := by decide
  apart := by decide
  children := by decide
  nonempty := by decide
  links := by decide

theorem represents_sampleCache : Represents sampleTree 1 sampleLayer sampleCache where
  leaves page leaf leafEq := by
    match page, leafEq with
    | 1, leafEq =>
        cases leafEq
        exact ⟨by decide, rfl, by rintro next ⟨⟩, by rintro parent ⟨⟩; exact ⟨by decide, _, rfl⟩⟩
    | 2, leafEq =>
        cases leafEq
        exact ⟨by decide, rfl, by rintro next ⟨⟩, by rintro parent ⟨⟩; exact ⟨by decide, _, rfl⟩⟩
  branches page branch branchEq := by
    match page, branchEq with
    | 0, branchEq =>
        cases branchEq
        refine ⟨0, by decide, by decide, rfl, ?_, by rintro parent ⟨⟩⟩
        intro record mem child childEq
        rcases List.mem_pair.mp mem with rfl | rfl
        · cases childEq
          exact ⟨rfl, _, rfl⟩
        · cases childEq
          exact ⟨rfl, _, rfl⟩

/-- The first of two leaves under one page never comes back with the second. -/
theorem not_findsRight_sampleCache :
    ¬ FindsRight false sampleTree sampleLayer sampleCache 1 := by
  rintro ⟨fuel, cache', answer⟩
  have brother : HasBrother sampleTree sampleLayer 1 := ⟨0, by decide, 2, [], [], rfl⟩
  have unlinked : Unlinked sampleCache 1 := ⟨_, rfl, rfl, rfl, by decide⟩
  rw [getNextPage_stuck linked_sampleTree Nat.one_pos represents_sampleCache unlinked brother]
    at answer
  cases answer

/-- Two leaves under two branch pages. -/
def highTree : IndexTree where
  indexType := .primary
  pages
    | 0 => some (.branch { pageLevel := 2, records := [⟨[], 1⟩, ⟨[], 2⟩], parentPageId := none })
    | 1 => some (.branch { pageLevel := 1, records := [⟨[], 3⟩], parentPageId := some 0 })
    | 2 => some (.branch { pageLevel := 1, records := [⟨[], 4⟩], parentPageId := some 0 })
    | 3 => some (.leaf { parentPageId := some 1, nextPageId := some 4 })
    | 4 => some (.leaf { parentPageId := some 2 })
    | _ => none
  rootPageId := 0
  totalPageCount := 5

def highLayer : ℕ → List PageID
  | 0 => [3, 4]
  | 1 => [1, 2]
  | _ => [0]

/-- The second branch page has no pointer to its leaf, which is not in memory. -/
def highCache : PageCache where
  leafPages
    | 3 => some ⟨some 1, some 4, none, false, true⟩
    | _ => none
  branchPages
    | 0 => some ⟨none, true, [⟨1, some 1⟩, ⟨2, some 2⟩]⟩
    | 1 => some ⟨some 0, false, [⟨3, some 3⟩]⟩
    | 2 => some ⟨some 0, true, [⟨4, none⟩]⟩
    | _ => none

theorem linked_highTree : highTree.Linked 2 highLayer where
  top := rfl
  nodup := by decide
  apart := by decide
  children := by decide
  nonempty := by decide
  links := by decide

theorem represents_highCache : Represents highTree 2 highLayer highCache where
  leaves page leaf leafEq := by
    match page, leafEq with
    | 3, leafEq =>
        cases leafEq
        exact ⟨by decide, rfl, by rintro next ⟨⟩, by rintro parent ⟨⟩; exact ⟨by decide, _, rfl⟩⟩
  branches page branch branchEq := by
    match page, branchEq with
    | 0, branchEq =>
        cases branchEq
        refine ⟨1, by decide, by decide, rfl, ?_, by rintro parent ⟨⟩⟩
        intro record mem child childEq
        rcases List.mem_pair.mp mem with rfl | rfl
        · cases childEq
          exact ⟨rfl, _, rfl⟩
        · cases childEq
          exact ⟨rfl, _, rfl⟩
    | 1, branchEq =>
        cases branchEq
        refine ⟨0, by decide, by decide, rfl, ?_, by rintro parent ⟨⟩; exact ⟨by decide, _, rfl⟩⟩
        intro record mem child childEq
        cases List.mem_singleton.mp mem
        cases childEq
        exact ⟨rfl, _, rfl⟩
    | 2, branchEq =>
        cases branchEq
        refine ⟨0, by decide, by decide, rfl, ?_, by rintro parent ⟨⟩; exact ⟨by decide, _, rfl⟩⟩
        intro record mem child childEq
        cases List.mem_singleton.mp mem
        cases childEq

theorem hasWayRight_highCache : HasWayRight false highLayer highCache 3 := by
  refine ⟨_, rfl, .inr (.inr ⟨rfl, 1, _, [], _, rfl, rfl, rfl, rfl, ?_⟩)⟩
  apply @Turns.up _ _ 1 3 0 _ [] _ rfl (by rintro ⟨⟩) rfl rfl rfl
  exact @Turns.right _ _ 0 1 _ [] [] _ _ rfl (by rintro ⟨⟩) rfl rfl

/-- The cache after the second leaf has been fetched and linked. -/
def fetchedCache : PageCache :=
  ((highCache.getPage highTree 4 .leafPage 2).setChild 2 0 (some 4)).setNextPage 3 (some 4)

theorem getNextPage_highCache (fuel : ℕ) :
    getNextPage false highTree fuel highCache 3 true = none ∨
      getNextPage false highTree fuel highCache 3 true = some (some 4, fetchedCache) := by
  match fuel with
  | 0 => exact .inl rfl
  | 1 => exact .inl rfl
  | 2 => exact .inl rfl
  | _ + 3 => exact .inr rfl

/-- The only step of the walk goes to the leaf under the other branch page. -/
theorem walkStep_highCache {state : PageCache × PageID}
    (step : WalkStep false highTree (highCache, 3) state) : state.2 = 4 ∧
      HasWayRight false highLayer state.1 state.2 ∧
      ∀ target, ¬WalkStep false highTree state target := by
  rcases step with ⟨fuel, cache', answer, after⟩
  rcases getNextPage_highCache fuel with spent | found
  · rw [spent] at answer
    cases answer
  · rw [found] at answer
    rcases state with ⟨cache, page⟩
    cases answer
    obtain rfl : cache = fetchedCache.afterRead highTree 4 := after
    refine ⟨rfl, ⟨_, rfl, .inr (.inl (by decide))⟩, ?_⟩
    rintro target ⟨_ | fuel, cache'', answer', -⟩
    · cases answer'
    · cases answer'

theorem waysRight_highCache : WaysRight false highTree highLayer highCache 3 := by
  intro state reached
  rcases reached.cases_head with rfl | ⟨middle, step, later⟩
  · exact hasWayRight_highCache
  · rcases walkStep_highCache step with ⟨-, way, last⟩
    rcases later.cases_head with rfl | ⟨target, further, -⟩
    · exact way
    · exact absurd further (last target)

/-- The neighbour of the leaf stands behind another branch page, which fetches it. -/
theorem findsRight_highCache :
    FindsRight false highTree highLayer highCache 3 ∧
      (highLayer 0).Nodup ∧ Walk false highTree highCache 3 [3, 4] :=
  have findsRight := getNextPage_findsRight_iff false linked_highTree represents_highCache
    ⟨_, rfl, rfl⟩
  ⟨findsRight.1.mpr hasWayRight_highCache, findsRight.2 [4] rfl waysRight_highCache⟩

end SiblingLinks

end RapidDb
