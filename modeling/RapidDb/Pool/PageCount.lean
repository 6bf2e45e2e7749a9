import Mathlib.Data.List.Perm.Subperm
import RapidDb.Pool.PageEviction

/-!
# The number of cached pages

A tree counts its pages up when they come into the pool, and a page counts them down when it is
deleted. `PoolManage` counts them down once more, and a page that finds its place taken is counted
and not there.
-/

namespace RapidDb

open Transition

namespace CachePagePool

/-- The number of cached pages of a tree that exist. -/
def existing (pool : CachePagePool) (tree : ℕ) : ℕ :=
  pool.cached.countP fun page => (pool.pages page).indexTree = tree

def HadPage (pool : CachePagePool) (tree : ℕ) : Prop :=
  ∃ page < pool.pageNum, (pool.pages page).indexTree = tree

variable {pool pool' : CachePagePool} {page tree other pageId : ℕ}

/-! ## Places -/

/-- The pages of the pool have places of their own. -/
structure Placed (pool : CachePagePool) : Prop where
  hashes : (pool.cached.map fun page => (pool.pages page).hashCode).Nodup
  pageIds : ∀ page ∈ pool.cached, (pool.pages page).pageId < pageNullPointer
  trees : ∀ page ∈ pool.cached, (pool.pages page).indexTree < pool.treeNum ∧
    (pool.pages page).fileId = (pool.trees (pool.pages page).indexTree).fileId

/-- No page is in the place of a page that is added. -/
def Fresh (pool : CachePagePool) (tree pageId : ℕ) : Prop :=
  ∀ page ∈ pool.cached, (pool.pages page).hashCode ≠ (pool.newPage tree pageId .valid).hashCode

instance (pool : CachePagePool) (tree pageId : ℕ) : Decidable (pool.Fresh tree pageId) :=
  inferInstanceAs (Decidable (∀ page ∈ pool.cached, _))

def AllFresh (pool : CachePagePool) (tree : ℕ) : List ℕ → Prop
  | [] => True
  | pageId :: pageIds => pool.Fresh tree pageId ∧ (pool.addPage tree pageId).AllFresh tree pageIds

def decidableAllFresh (pool : CachePagePool) (tree : ℕ) :
    (pageIds : List ℕ) → Decidable (pool.AllFresh tree pageIds)
  | [] => isTrue trivial
  | pageId :: pageIds =>
      have := decidableAllFresh (pool.addPage tree pageId) tree pageIds
      inferInstanceAs (Decidable (_ ∧ _))

instance (pool : CachePagePool) (tree : ℕ) (pageIds : List ℕ) :
    Decidable (pool.AllFresh tree pageIds) :=
  decidableAllFresh pool tree pageIds

theorem Placed.existing_lt (placed : pool.Placed) (tree : ℕ) : pool.existing tree < 2 ^ 32 := by
  let pages := pool.cached.filter fun page => (pool.pages page).indexTree = tree
  have sub : pages.Sublist pool.cached := List.filter_sublist
  have each : ∀ page ∈ pages, page ∈ pool.cached ∧ (pool.pages page).indexTree = tree := by
    intro page mem
    rcases List.mem_filter.mp mem with ⟨inCached, same⟩
    exact ⟨inCached, by simpa using same⟩
  have nodup : (pages.map fun page => (pool.pages page).pageId).Nodup := by
    have hashes := placed.hashes.sublist (sub.map _)
    refine (List.nodup_map_iff_inj_on (hashes.of_map _)).mpr ?_
    intro first firstMem second secondMem same
    apply List.inj_on_of_nodup_map hashes firstMem secondMem
    rcases each first firstMem with ⟨firstCached, firstTree⟩
    rcases each second secondMem with ⟨secondCached, secondTree⟩
    have firstFile := (placed.trees first firstCached).2
    have secondFile := (placed.trees second secondCached).2
    rw [firstTree] at firstFile
    rw [secondTree] at secondFile
    unfold CachedPage.hashCode
    rw [firstFile, secondFile, same]
  have inRange : (pages.map fun page => (pool.pages page).pageId) ⊆ List.range pageNullPointer := by
    intro pageId mem
    rcases List.mem_map.mp mem with ⟨page, pageMem, rfl⟩
    exact List.mem_range.mpr (placed.pageIds page (each page pageMem).1)
  have le := (List.subperm_of_subset nodup inRange).length_le
  rw [List.length_map, List.length_range] at le
  unfold existing
  rw [List.countP_eq_length_filter]
  exact Nat.lt_of_le_of_lt le (by decide)

theorem Placed.sub (placed : pool.Placed) (sub : pool'.cached.Sublist pool.cached)
    (treeNum : pool.treeNum ≤ pool'.treeNum)
    (same : ∀ page ∈ pool'.cached, (pool.pages page).Same (pool'.pages page))
    (trees : ∀ tree < pool.treeNum, (pool'.trees tree).fileId = (pool.trees tree).fileId) :
    pool'.Placed := by
  refine ⟨?_, ?_, ?_⟩
  · rw [List.map_congr_left fun page mem => (same page mem).hashCode]
    exact placed.hashes.sublist (sub.map _)
  · intro page mem
    rw [(same page mem).pageId]
    exact placed.pageIds page (sub.subset mem)
  · intro page mem
    rcases placed.trees page (sub.subset mem) with ⟨less, file⟩
    rw [(same page mem).indexTree, (same page mem).fileId, trees _ less]
    exact ⟨Nat.lt_of_lt_of_le less treeNum, file⟩

theorem Placed.setPage (placed : pool.Placed) {new : CachedPage}
    (same : (pool.pages page).Same new) : (pool.setPage page new).Placed := by
  refine placed.sub (List.Sublist.refl _) (Nat.le_refl _) ?_ fun _ _ => rfl
  intro other _
  by_cases here : other = page
  · subst here
    simpa [CachePagePool.setPage] using same
  · simpa [CachePagePool.setPage, here] using CachedPage.Same.refl _

theorem Placed.setTree (placed : pool.Placed) {new : CachedTree}
    (file : new.fileId = (pool.trees tree).fileId) : (pool.setTree tree new).Placed := by
  refine placed.sub (List.Sublist.refl _) (Nat.le_refl _) (fun _ _ => CachedPage.Same.refl _) ?_
  intro other _
  by_cases here : other = tree
  · subst here
    simpa [CachePagePool.setTree] using file
  · simp [CachePagePool.setTree, here]

theorem Placed.insert (placed : pool.Placed) (sound : pool.Sound) {new : CachedPage}
    (perm : pool'.cached.Perm (pool.pageNum :: pool.cached))
    (absent : ∀ page ∈ pool.cached, (pool.pages page).hashCode ≠ new.hashCode)
    (less : new.pageId < pageNullPointer)
    (file : new.indexTree < pool.treeNum ∧ new.fileId = (pool.trees new.indexTree).fileId)
    (pages : pool'.pages = Function.update pool.pages pool.pageNum new)
    (treeNum : pool'.treeNum = pool.treeNum)
    (trees : ∀ tree, (pool'.trees tree).fileId = (pool.trees tree).fileId) : pool'.Placed := by
  have here : pool'.pages pool.pageNum = new := by rw [pages]; simp
  have old : ∀ page ∈ pool.cached, pool'.pages page = pool.pages page := by
    intro page mem
    rw [pages]
    exact Function.update_of_ne (Nat.ne_of_lt (sound.known page mem).1) _ _
  have each : ∀ page ∈ pool'.cached, page = pool.pageNum ∨ page ∈ pool.cached :=
    fun page mem => List.mem_cons.mp (perm.mem_iff.mp mem)
  refine ⟨?_, ?_, ?_⟩
  · refine (perm.map _).nodup_iff.mpr (List.nodup_cons.mpr ⟨?_, ?_⟩)
    · intro mem
      rcases List.mem_map.mp mem with ⟨page, inCached, same⟩
      simp only [old page inCached, here] at same
      exact absent page inCached same
    · rw [List.map_congr_left fun page mem => congrArg CachedPage.hashCode (old page mem)]
      exact placed.hashes
  · intro page mem
    rcases each page mem with rfl | mem
    · rw [here]
      exact less
    · rw [old page mem]
      exact placed.pageIds page mem
  · intro page mem
    rcases each page mem with rfl | mem
    · rw [here, treeNum, trees]
      exact file
    · rw [old page mem, treeNum, trees]
      exact placed.trees page mem

theorem Fresh.cached_addPage (fresh : pool.Fresh tree pageId) :
    (pool.addPage tree pageId).cached = pool.cached ++ [pool.pageNum] := by
  rw [CachePagePool.cached_addPage, if_pos ((find_eq_none _ _ _).mpr fun page mem =>
    fresh page (List.mem_append_right _ mem))]

theorem Fresh.incPages (fresh : pool.Fresh tree pageId) (num : ℕ) :
    (pool.incPages tree num).Fresh tree pageId := by
  have file : ((pool.incPages tree num).trees tree).fileId = (pool.trees tree).fileId := by
    simp [CachePagePool.incPages, setTree, CachedTree.incPages]
  intro page mem
  have differs := fresh page mem
  simp only [newPage, CachedPage.hashCode, file] at differs ⊢
  exact differs

theorem Placed.addPage (placed : pool.Placed) (sound : pool.Sound) (fresh : pool.Fresh tree pageId)
    (less : tree < pool.treeNum) (pageLess : pageId < pageNullPointer) :
    (pool.addPage tree pageId).Placed := by
  refine @Placed.insert _ _ placed sound (pool.newPage tree pageId .valid) ?_ fresh pageLess
    ⟨less, rfl⟩ rfl rfl fun _ => rfl
  rw [fresh.cached_addPage]
  exact List.perm_append_singleton _ _

theorem Placed.addPages (placed : pool.Placed) (sound : pool.Sound) {pageIds : List ℕ}
    (fresh : pool.AllFresh tree pageIds) (less : tree < pool.treeNum)
    (pagesLess : ∀ pageId ∈ pageIds, pageId < pageNullPointer) :
    (pool.addPages tree pageIds).Placed := by
  induction pageIds generalizing pool with
  | nil => exact placed
  | cons pageId pageIds ih =>
      exact ih (placed.addPage sound fresh.1 less (pagesLess pageId List.mem_cons_self))
        sound.addPage fresh.2 less fun other mem => pagesLess other (List.mem_cons_of_mem _ mem)

theorem Placed.getPage (placed : pool.Placed) (sound : pool.Sound) (less : tree < pool.treeNum)
    (pageLess : pageId < pageNullPointer) : (pool.getPage tree pageId).2.Placed := by
  cases result : pool.found tree pageId with
  | some page =>
      rw [getPage_of_found result]
      have referred := @Placed.setPage _ page placed { pool.pages page with bRefered := true }
        ⟨rfl, rfl, rfl, rfl⟩
      exact referred.sub (List.Sublist.refl _) (Nat.le_refl _) (fun _ _ => CachedPage.Same.refl _)
        fun _ _ => rfl
  | none =>
      rcases getPage_of_absent result with ⟨perm, pages, trees, -, -, treeNum, -, -, -, -⟩
      rcases Option.or_eq_none_iff.mp result with ⟨inMap, inTmp⟩
      refine placed.insert sound perm ?_ pageLess ⟨less, rfl⟩ pages treeNum ?_
      · intro page mem
        rcases List.mem_append.mp mem with mem | mem
        · exact (find_eq_none _ _ _).mp inMap page mem
        · exact (find_eq_none _ _ _).mp inTmp page mem
      · intro other
        rw [trees]
        by_cases here : other = tree
        · subst here
          simp [CachedTree.incPages]
        · simp [here]

/-- All new pages get into the map. -/
theorem Placed.moved_eq (placed : pool.Placed) : pool.moved = pool.tmpCache := by
  refine List.filter_eq_self.mpr fun page mem => ?_
  simp only [decide_eq_true_eq, find_eq_none]
  intro other inMap same
  have hashes := placed.hashes
  rw [cached, List.map_append] at hashes
  exact List.disjoint_of_nodup_append hashes
    (List.mem_map.mpr ⟨other, (List.diff_sublist _ _).subset inMap, same⟩)
    (List.mem_map.mpr ⟨page, mem, rfl⟩)

theorem Placed.remove (placed : pool.Placed) (sound : pool.Sound)
    (step : next pool .remove = some pool') : pool'.Placed := by
  rcases remove_spec step with ⟨treeNum, -, -, -, -, -, trees, -, pages⟩
  rcases sound.left step with ⟨sub, left⟩
  refine placed.sub sub (Nat.le_of_eq treeNum.symm) ?_ fun tree _ => (trees tree).1
  intro page mem
  rw [pages, List.count_eq_zero.mpr (left page mem)]
  exact CachedPage.Same.refl _

/-! ## Counting -/

structure Counts (pool : CachePagePool) (tree : ℕ) : Prop where
  sound : pool.Sound
  known : ∀ page < pool.pageNum, (pool.pages page).indexTree < pool.treeNum
  count : tree < pool.treeNum → (pool.trees tree).pagesInMem = pool.existing tree
  once : tree < pool.treeNum → (pool.trees tree).deleted ≤ 1
  deleted_iff : tree < pool.treeNum →
    ((pool.trees tree).deleted = 1 ↔ pool.HadPage tree ∧ pool.existing tree = 0)
  closed : tree < pool.treeNum → (pool.trees tree).deleted = 1 → (pool.trees tree).bClosed = true

/-- `PoolManage` evicts no page of the tree, pages are added to free places, and the pool is not
cleared before the tree is closed. -/
def Spares (tree : ℕ) (pool : CachePagePool) : PoolEvent → Prop
  | .applyIndexPages other pageIds => pool.AllFresh other pageIds
  | .loadIndexTree other rootId => pool.Fresh other rootId
  | .remove => ∀ page ∈ pool.lst, (pool.pages page).indexTree ≠ tree
  | .clearPool => ∀ page ∈ pool.cached, (pool.pages page).indexTree = tree →
      (pool.trees tree).bClosed = true
  | _ => True

instance (tree : ℕ) (pool : CachePagePool) (event : PoolEvent) :
    Decidable (Spares tree pool event) :=
  match event with
  | .applyIndexPages other pageIds => inferInstanceAs (Decidable (pool.AllFresh other pageIds))
  | .loadIndexTree other rootId => inferInstanceAs (Decidable (pool.Fresh other rootId))
  | .remove => inferInstanceAs (Decidable (∀ page ∈ pool.lst, _))
  | .clearPool => inferInstanceAs (Decidable (∀ page ∈ pool.cached, _ → _))
  | .newTree _ | .getPage .. | .setPageStatus .. | .link .. | .startClose _ | .releasePage _ |
    .close _ | .startManage | .scan .. => isTrue trivial

theorem placed_next (placed : pool.Placed) (sound : pool.Sound) {event : PoolEvent}
    (spares : Spares tree pool event) (step : next pool event = some pool') : pool'.Placed := by
  cases event with
  | newTree fileId =>
      cases step
      refine placed.sub (List.Sublist.refl _) (Nat.le_succ _) (fun _ _ => CachedPage.Same.refl _) ?_
      intro tree less
      simp [setTree, Nat.ne_of_lt less]
  | applyIndexPages other pageIds =>
      rcases Option.ite_none_right_eq_some.mp step with ⟨⟨there, less⟩, ⟨⟩⟩
      exact (placed.addPages sound spares there.1 less).setTree rfl
  | loadIndexTree other rootId =>
      rcases Option.ite_none_right_eq_some.mp step with ⟨⟨there, less⟩, ⟨⟩⟩
      have counted : (pool.incPages other 1).Placed := placed.setTree rfl
      exact counted.addPage sound.setTree (spares.incPages 1) there.1 less
  | getPage other pageId =>
      rcases Option.ite_none_right_eq_some.mp step with ⟨meets, ⟨⟩⟩
      exact placed.getPage sound meets.1.1 meets.2
  | setPageStatus page status =>
      rcases Option.ite_none_right_eq_some.mp step with ⟨-, ⟨⟩⟩
      exact placed.setPage ⟨rfl, rfl, rfl, rfl⟩
  | link page kind target =>
      rcases Option.ite_none_right_eq_some.mp step with ⟨-, ⟨⟩⟩
      exact placed.setPage (same_setLink _ kind target)
  | releasePage page =>
      rcases Option.ite_none_right_eq_some.mp step with ⟨-, ⟨⟩⟩
      exact placed.setPage ⟨rfl, rfl, rfl, rfl⟩
  | close other =>
      cases step
      exact placed.setTree rfl
  | startClose other =>
      cases step
      exact placed.sub (List.Sublist.refl _) (Nat.le_refl _) (fun _ _ => CachedPage.Same.refl _)
        fun _ _ => rfl
  | startManage =>
      rcases Option.ite_none_right_eq_some.mp step with ⟨-, ⟨⟩⟩
      exact placed.sub (List.Sublist.refl _) (Nat.le_refl _) (fun _ _ => CachedPage.Same.refl _)
        fun _ _ => rfl
  | scan page low =>
      simp only [next] at step
      split at step
      · rcases Option.ite_none_right_eq_some.mp step with ⟨-, step⟩
        split at step <;> cases step <;>
          exact placed.sub (List.Sublist.refl _) (Nat.le_refl _)
            (fun _ _ => CachedPage.Same.refl _) fun _ _ => rfl
      · cases step
  | remove => exact placed.remove sound step
  | clearPool =>
      rcases Option.ite_none_right_eq_some.mp step with ⟨-, ⟨⟩⟩
      exact ⟨List.nodup_nil, fun _ mem => absurd mem List.not_mem_nil,
        fun _ mem => absurd mem List.not_mem_nil⟩

theorem Counts.frame (counts : pool.Counts tree) (sound : pool'.Sound)
    (cached : pool'.cached = pool.cached) (pageNum : pool'.pageNum = pool.pageNum)
    (treeNum : pool'.treeNum = pool.treeNum)
    (pages : ∀ page < pool.pageNum,
      (pool'.pages page).indexTree = (pool.pages page).indexTree)
    (count : (pool'.trees tree).pagesInMem = (pool.trees tree).pagesInMem)
    (deleted : (pool'.trees tree).deleted = (pool.trees tree).deleted)
    (closed : (pool.trees tree).bClosed = true → (pool'.trees tree).bClosed = true) :
    pool'.Counts tree := by
  have existing : pool'.existing tree = pool.existing tree := by
    unfold CachePagePool.existing
    rw [cached]
    apply List.countP_congr
    intro page mem
    rw [pages page (counts.sound.known page mem).1]
  have had : pool'.HadPage tree ↔ pool.HadPage tree := by
    unfold HadPage
    rw [pageNum]
    constructor
    · rintro ⟨page, less, same⟩
      exact ⟨page, less, pages page less ▸ same⟩
    · rintro ⟨page, less, same⟩
      exact ⟨page, less, (pages page less).trans same⟩
  refine ⟨sound, ?_, ?_, ?_, ?_, ?_⟩
  · rw [pageNum, treeNum]
    intro page less
    rw [pages page less]
    exact counts.known page less
  · rw [treeNum, count, existing]
    exact counts.count
  · rw [treeNum, deleted]
    exact counts.once
  · rw [treeNum, deleted, existing, had]
    exact counts.deleted_iff
  · rw [treeNum, deleted]
    exact fun less one => closed (counts.closed less one)

theorem Counts.grow (counts : pool.Counts tree) (sound : pool'.Sound) (placed : pool'.Placed)
    {num : ℕ}
    (there : pool.HasTree other)
    (existing : ∀ tree, pool'.existing tree = pool.existing tree + if tree = other then num else 0)
    (treeNum : pool'.treeNum = pool.treeNum)
    (known : ∀ page < pool'.pageNum, (pool'.pages page).indexTree < pool.treeNum)
    (had : pool'.HadPage tree ↔ pool.HadPage tree ∨ tree = other ∧ 0 < num)
    (trees : pool'.trees = Function.update pool.trees other ((pool.trees other).incPages num)) :
    pool'.Counts tree := by
  have deleted : (pool'.trees tree).deleted = (pool.trees tree).deleted ∧
      (pool'.trees tree).bClosed = (pool.trees tree).bClosed := by
    rw [trees]
    by_cases here : tree = other
    · subst here
      simp [CachedTree.incPages]
    · simp [here]
  have bound := placed.existing_lt tree
  refine ⟨sound, treeNum ▸ known, ?_, ?_, ?_, ?_⟩
  · rw [treeNum]
    intro less
    have old := counts.count less
    have new := existing tree
    rw [trees]
    by_cases here : tree = other
    · subst here
      rw [if_pos rfl] at new
      simp only [Function.update_self, CachedTree.incPages]
      rw [old, ← new]
      exact Nat.mod_eq_of_lt bound
    · rw [if_neg here] at new
      simp only [Function.update_of_ne here]
      omega
  · rw [treeNum, deleted.1]
    exact counts.once
  · rw [treeNum, deleted.1, existing, had]
    intro less
    have old := counts.deleted_iff less
    by_cases here : tree = other
    · subst here
      rw [if_pos rfl, there.2] at *
      constructor
      · intro one
        cases one
      · rintro ⟨had | ⟨_, pos⟩, zero⟩
        · exact old.mpr ⟨had, by omega⟩
        · omega
    · simpa [here] using old
  · rw [treeNum, deleted.1, deleted.2]
    exact counts.closed

structure Grown (pool pool' : CachePagePool) (tree num : ℕ) : Prop where
  existing : ∀ other, pool'.existing other = pool.existing other + if other = tree then num else 0
  treeNum : pool'.treeNum = pool.treeNum
  known : (∀ page < pool.pageNum, (pool.pages page).indexTree < pool.treeNum) →
    ∀ page < pool'.pageNum, (pool'.pages page).indexTree < pool.treeNum
  had : ∀ other, pool'.HadPage other ↔ pool.HadPage other ∨ other = tree ∧ 0 < num

theorem grown_insert (sound : pool.Sound) {new : CachedPage}
    (perm : pool'.cached.Perm (pool.pageNum :: pool.cached))
    (pages : pool'.pages = Function.update pool.pages pool.pageNum new)
    (pageNum : pool'.pageNum = pool.pageNum + 1) (treeNum : pool'.treeNum = pool.treeNum)
    (less : new.indexTree < pool.treeNum) : pool.Grown pool' new.indexTree 1 := by
  have here : pool'.pages pool.pageNum = new := by rw [pages]; simp
  have old : ∀ page < pool.pageNum, pool'.pages page = pool.pages page := by
    intro page less
    rw [pages]
    exact Function.update_of_ne (Nat.ne_of_lt less) _ _
  refine ⟨fun other => ?_, treeNum, fun known page pageLess => ?_, fun other => ?_⟩
  · unfold existing
    have rest : pool.cached.countP (fun page => (pool'.pages page).indexTree = other) =
        pool.cached.countP fun page => (pool.pages page).indexTree = other := by
      apply List.countP_congr
      intro page mem
      rw [old page (sound.known page mem).1]
    rw [perm.countP_eq, List.countP_cons, rest, here]
    by_cases same : other = new.indexTree
    · simp [same]
    · simp [same, Ne.symm same]
  · rcases Nat.lt_succ_iff_lt_or_eq.mp (pageNum ▸ pageLess) with pageLess | rfl
    · rw [old page pageLess]
      exact known page pageLess
    · rw [here]
      exact less
  · unfold HadPage
    rw [pageNum]
    constructor
    · rintro ⟨page, pageLess, same⟩
      rcases Nat.lt_succ_iff_lt_or_eq.mp pageLess with pageLess | rfl
      · exact Or.inl ⟨page, pageLess, old page pageLess ▸ same⟩
      · exact Or.inr ⟨(here ▸ same).symm, Nat.one_pos⟩
    · rintro (⟨page, pageLess, same⟩ | ⟨same, _⟩)
      · exact ⟨page, Nat.lt_succ_of_lt pageLess, by rw [old page pageLess]; exact same⟩
      · exact ⟨pool.pageNum, Nat.lt_succ_self _, by rw [here]; exact same.symm⟩

theorem Grown.trans {middle : CachePagePool} {first second : ℕ}
    (grown : pool.Grown middle tree first) (grown' : middle.Grown pool' tree second) :
    pool.Grown pool' tree (first + second) := by
  refine ⟨fun other => ?_, grown'.treeNum.trans grown.treeNum, fun known => ?_, fun other => ?_⟩
  · rw [grown'.existing, grown.existing]
    split <;> omega
  · have known' := grown'.known
    rw [grown.treeNum] at known'
    exact known' (grown.known known)
  · rw [grown'.had, grown.had]
    constructor
    · rintro ((had | ⟨same, pos⟩) | ⟨same, pos⟩)
      · exact Or.inl had
      · exact Or.inr ⟨same, by omega⟩
      · exact Or.inr ⟨same, by omega⟩
    · rintro (had | ⟨same, pos⟩)
      · exact Or.inl (Or.inl had)
      · by_cases zero : 0 < second
        · exact Or.inr ⟨same, zero⟩
        · exact Or.inl (Or.inr ⟨same, by omega⟩)

theorem grown_addPage (sound : pool.Sound) (less : tree < pool.treeNum)
    (fresh : pool.Fresh tree pageId) : pool.Grown (pool.addPage tree pageId) tree 1 := by
  refine @grown_insert _ _ sound (pool.newPage tree pageId .valid) ?_ rfl rfl rfl less
  rw [fresh.cached_addPage]
  exact List.perm_append_singleton _ _

theorem grown_addPages (sound : pool.Sound) (less : tree < pool.treeNum) {pageIds : List ℕ}
    (fresh : pool.AllFresh tree pageIds) :
    pool.Grown (pool.addPages tree pageIds) tree pageIds.length ∧
      (pool.addPages tree pageIds).trees = pool.trees := by
  induction pageIds generalizing pool with
  | nil => exact ⟨⟨fun _ => by simp [addPages], rfl, fun known => known, by simp [addPages]⟩, rfl⟩
  | cons pageId pageIds ih =>
      have grown := grown_addPage sound less fresh.1
      rcases @ih (pool.addPage tree pageId) sound.addPage less fresh.2 with ⟨grown', trees⟩
      rw [List.length_cons, Nat.add_comm, addPages_cons]
      exact ⟨grown.trans grown', trees⟩

theorem Counts.grown (counts : pool.Counts tree) (sound : pool'.Sound) (placed : pool'.Placed)
    {num : ℕ} (there : pool.HasTree other) (grown : pool.Grown pool' other num)
    (trees : pool'.trees = Function.update pool.trees other ((pool.trees other).incPages num)) :
    pool'.Counts tree :=
  counts.grow sound placed there grown.existing grown.treeNum (grown.known counts.known)
    (grown.had tree) trees

theorem Counts.getPage (counts : pool.Counts tree) (placed : pool.Placed)
    (there : pool.HasTree other) (less : pageId < pageNullPointer) :
    (pool.getPage other pageId).2.Counts tree := by
  have sound : (pool.getPage other pageId).2.Sound := counts.sound.getPage
  have placed' := placed.getPage counts.sound there.1 less
  cases result : pool.found other pageId with
  | some page =>
      rw [getPage_of_found result] at sound ⊢
      refine counts.frame sound rfl rfl rfl ?_ rfl rfl fun closed => closed
      intro page' _
      by_cases here : page' = page
      · subst here
        simp [refer, setPage]
      · simp [refer, setPage, here]
  | none =>
      rcases getPage_of_absent result with ⟨perm, pages, trees, -, pageNum, treeNum, -, -, -, -⟩
      exact counts.grown sound placed' there
        (grown_insert counts.sound perm pages pageNum treeNum there.1) trees

/-! ## Deletion -/

theorem foldl_evict_trees (lst : List ℕ) (pool : CachePagePool)
    (others : ∀ page ∈ lst, (pool.pages page).indexTree ≠ tree) :
    (lst.foldl evict pool).trees tree = pool.trees tree := by
  induction lst generalizing pool with
  | nil => rfl
  | cons page lst ih =>
      have differ := others page List.mem_cons_self
      have step : (pool.evict page).trees tree = pool.trees tree := by
        simp [evict, deletePage, decPages, setPage, setTree, Ne.symm differ]
      rw [List.foldl_cons, ih, step]
      intro other mem
      rw [pages_evict]
      exact others other (List.mem_cons_of_mem _ mem)

theorem Counts.remove (counts : pool.Counts tree) (placed : pool.Placed)
    (spares : ∀ page ∈ pool.lst, (pool.pages page).indexTree ≠ tree)
    (step : next pool .remove = some pool') : pool'.Counts tree := by
  have sound' := counts.sound.remove step
  rcases remove_spec step with ⟨treeNum, pageNum, _, _, tmp, map, closed, trees, pages⟩
  rw [placed.moved_eq] at map
  have same : pool'.trees tree = pool.trees tree := by
    rw [trees]
    exact foldl_evict_trees pool.lst _ spares
  have indexTree : ∀ page, (pool'.pages page).indexTree = (pool.pages page).indexTree := by
    intro page
    rw [pages]
    rfl
  have nodup := counts.sound.nodup
  have perm : (pool'.cached.filter fun page => (pool.pages page).indexTree = tree).Perm
      (pool.cached.filter fun page => (pool.pages page).indexTree = tree) := by
    refine (List.perm_ext_iff_of_nodup (sound'.nodup.filter _) (nodup.filter _)).mpr ?_
    intro page
    unfold cached at nodup ⊢
    rw [map, tmp, List.append_nil]
    simp only [List.mem_filter, List.mem_append, nodup.of_append_left.mem_sdiff_iff]
    constructor
    · rintro ⟨⟨inMap, _⟩ | inTmp, here⟩
      · exact ⟨Or.inl inMap, here⟩
      · exact ⟨Or.inr inTmp, here⟩
    · rintro ⟨inMap | inTmp, here⟩
      · exact ⟨Or.inl ⟨inMap, fun mem => spares page mem (by simpa using here)⟩, here⟩
      · exact ⟨Or.inr inTmp, here⟩
  have existing : pool'.existing tree = pool.existing tree := by
    unfold CachePagePool.existing
    simp only [indexTree, List.countP_eq_length_filter]
    exact perm.length_eq
  have had : pool'.HadPage tree ↔ pool.HadPage tree := by
    unfold HadPage
    simp only [pageNum, indexTree]
  refine ⟨sound', ?_, ?_, ?_, ?_, ?_⟩
  · simp only [pageNum, indexTree, treeNum]
    exact counts.known
  · rw [treeNum, same, existing]
    exact counts.count
  · rw [treeNum, same]
    exact counts.once
  · rw [treeNum, same, existing, had]
    exact counts.deleted_iff
  · rw [treeNum, same]
    exact counts.closed

theorem foldl_deletePage_trees (pages : List ℕ) (pool : CachePagePool)
    (less : (pool.trees tree).pagesInMem < 2 ^ 32)
    (count : (pool.trees tree).pagesInMem =
      pages.countP fun page => (pool.pages page).indexTree = tree) :
    ((pages.foldl deletePage pool).trees tree).pagesInMem = 0 ∧
      ((pages.foldl deletePage pool).trees tree).deleted =
        (pool.trees tree).deleted + if (pool.trees tree).pagesInMem = 0 then 0 else 1 := by
  induction pages generalizing pool with
  | nil => simp [count]
  | cons page pages ih =>
      have rest :
        (pages.countP fun page' => ((pool.deletePage page).pages page').indexTree = tree) =
          pages.countP fun page' => (pool.pages page').indexTree = tree := by
        simp only [pages_deletePage, CachedPage.gone]
      rw [List.countP_cons] at count
      rw [List.foldl_cons]
      by_cases here : (pool.pages page).indexTree = tree
      · rw [if_pos (by simpa using here)] at count
        have step : (pool.deletePage page).trees tree = (pool.trees tree).decPages 1 := by
          simp [deletePage, decPages, setPage, setTree, here]
        have lower : ((pool.deletePage page).trees tree).pagesInMem =
            pages.countP fun page' => (pool.pages page').indexTree = tree := by
          rw [step]
          simp only [CachedTree.decPages]
          omega
        rcases ih (pool.deletePage page) (by omega) (by omega) with ⟨zero, deleted⟩
        refine ⟨zero, ?_⟩
        rw [deleted, lower, step]
        simp only [CachedTree.decPages]
        split <;> split <;> split <;> omega
      · rw [if_neg (by simpa using here)] at count
        have step : (pool.deletePage page).trees tree = pool.trees tree := by
          simp [deletePage, decPages, setPage, setTree, Ne.symm here]
        rcases ih (pool.deletePage page) (by rw [step]; exact less) (by rw [step]; omega) with
          ⟨zero, deleted⟩
        rw [step] at deleted
        exact ⟨zero, deleted⟩

theorem Counts.clearPool (counts : pool.Counts tree) (placed : pool.Placed)
    (spares : ∀ page ∈ pool.cached, (pool.pages page).indexTree = tree →
      (pool.trees tree).bClosed = true) (step : next pool .clearPool = some pool') :
    pool'.Counts tree := by
  have sound' := sound_next counts.sound step
  rcases Option.ite_none_right_eq_some.mp step with ⟨-, step⟩
  have result := (Option.some.inj step).symm
  rcases foldl_deletePage (pool.mapCache ++ pool.tmpCache) pool with ⟨frame, gone⟩
  have treeNum : pool'.treeNum = pool.treeNum := by rw [result]; exact frame.treeNum
  have pageNum : pool'.pageNum = pool.pageNum := by rw [result]; exact frame.pageNum
  have indexTree : ∀ page, (pool'.pages page).indexTree = (pool.pages page).indexTree := by
    intro page
    rw [result]
    simp only [gone]
    rfl
  have had : pool'.HadPage tree ↔ pool.HadPage tree := by
    simp only [HadPage, pageNum, indexTree]
  have zero : pool'.existing tree = 0 := by rw [result]; rfl
  have bClosed : (pool'.trees tree).bClosed = (pool.trees tree).bClosed := by
    rw [result]
    exact (frame.trees tree).2
  have counted : tree < pool.treeNum → (pool'.trees tree).pagesInMem = 0 ∧
      (pool'.trees tree).deleted =
        (pool.trees tree).deleted + if pool.existing tree = 0 then 0 else 1 := by
    intro less
    have count := counts.count less
    rw [← count, result]
    exact foldl_deletePage_trees _ _ (count ▸ placed.existing_lt tree) count
  refine ⟨sound', ?_, ?_, ?_, ?_, ?_⟩
  · simp only [pageNum, treeNum, indexTree]
    exact counts.known
  · rw [treeNum, zero]
    exact fun less => (counted less).1
  · rw [treeNum]
    intro less
    have once := counts.once less
    have old := counts.deleted_iff less
    rw [(counted less).2]
    split
    · exact once
    · rename_i some_
      have notYet : (pool.trees tree).deleted ≠ 1 := fun one => some_ (old.mp one).2
      omega
  · rw [treeNum, zero, had]
    intro less
    have once := counts.once less
    have old := counts.deleted_iff less
    rw [(counted less).2]
    split
    · rename_i none
      rw [Nat.add_zero, old, none]
    · rename_i some_
      have notYet : (pool.trees tree).deleted ≠ 1 := fun one => some_ (old.mp one).2
      refine ⟨fun _ => ⟨?_, rfl⟩, fun _ => by omega⟩
      have pos : 0 < pool.existing tree := Nat.pos_of_ne_zero some_
      rcases List.countP_pos_iff.mp pos with ⟨page, mem, here⟩
      exact ⟨page, (counts.sound.known page mem).1, by simpa using here⟩
  · rw [treeNum, bClosed]
    intro less one
    rw [(counted less).2] at one
    split at one
    · exact counts.closed less one
    · rename_i some_
      have pos : 0 < pool.existing tree := Nat.pos_of_ne_zero some_
      rcases List.countP_pos_iff.mp pos with ⟨page, mem, here⟩
      exact spares page mem (by simpa using here)

theorem Counts.newTree (counts : pool.Counts tree) (fileId : ℕ)
    (step : next pool (.newTree fileId) = some pool') : pool'.Counts tree := by
  have sound' := sound_next counts.sound step
  cases step
  have known : ∀ page < pool.pageNum, (pool.pages page).indexTree < pool.treeNum + 1 :=
    fun page less => Nat.lt_succ_of_lt (counts.known page less)
  by_cases here : tree = pool.treeNum
  · -- no page is there yet
    have none : ¬pool.HadPage tree := by
      rintro ⟨page, less, same⟩
      have old := counts.known page less
      omega
    have zero : pool.existing tree = 0 := by
      apply List.countP_eq_zero.mpr
      intro page mem same
      exact none ⟨page, (counts.sound.known page mem).1, by simpa using same⟩
    have tree' : (pool.setTree pool.treeNum { fileId := fileId }).trees tree =
        { fileId := fileId } := by simp [setTree, here]
    refine ⟨sound', known, fun _ => ?_, fun _ => ?_, fun _ => ?_, fun _ => ?_⟩
    · change ((pool.setTree pool.treeNum { fileId := fileId }).trees tree).pagesInMem =
        pool.existing tree
      rw [tree', zero]
    · change ((pool.setTree pool.treeNum { fileId := fileId }).trees tree).deleted ≤ 1
      rw [tree']
      exact Nat.zero_le _
    · change ((pool.setTree pool.treeNum { fileId := fileId }).trees tree).deleted = 1 ↔
        pool.HadPage tree ∧ _
      rw [tree']
      exact ⟨(by simp), fun both => absurd both.1 none⟩
    · change ((pool.setTree pool.treeNum { fileId := fileId }).trees tree).deleted = 1 → _
      rw [tree']
      simp
  · have tree' : (pool.setTree pool.treeNum { fileId := fileId }).trees tree =
        pool.trees tree := by simp [setTree, here]
    have less : tree < pool.treeNum + 1 → tree < pool.treeNum := by omega
    refine ⟨sound', known, fun more => ?_, fun more => ?_, fun more => ?_, fun more => ?_⟩
    · exact (congrArg CachedTree.pagesInMem tree').trans (counts.count (less more))
    · exact le_of_eq_of_le (congrArg CachedTree.deleted tree') (counts.once (less more))
    · change ((pool.setTree pool.treeNum { fileId := fileId }).trees tree).deleted = 1 ↔ _
      rw [tree']
      exact counts.deleted_iff (less more)
    · change ((pool.setTree pool.treeNum { fileId := fileId }).trees tree).deleted = 1 →
        ((pool.setTree pool.treeNum { fileId := fileId }).trees tree).bClosed = true
      rw [tree']
      exact counts.closed (less more)

theorem counts_next (counts : pool.Counts tree) (placed : pool.Placed) {event : PoolEvent}
    (spares : Spares tree pool event) (step : next pool event = some pool') :
    pool'.Counts tree := by
  have sound' := sound_next counts.sound step
  have placed' := placed_next placed counts.sound spares step
  cases event with
  | newTree fileId => exact counts.newTree fileId step
  | applyIndexPages other pageIds =>
      rcases Option.ite_none_right_eq_some.mp step with ⟨⟨there, -⟩, ⟨⟩⟩
      rcases grown_addPages counts.sound there.1 spares with ⟨grown, trees⟩
      refine counts.grown sound' placed' there
        { grown with } ?_
      simp only [incPages, setTree, trees]
  | loadIndexTree other rootId =>
      rcases Option.ite_none_right_eq_some.mp step with ⟨⟨there, -⟩, ⟨⟩⟩
      have counted : (pool.incPages other 1).Sound := counts.sound.setTree
      have grown := grown_addPage counted there.1 (spares.incPages 1)
      exact counts.grown sound' placed' there
        { grown with } rfl
  | getPage other pageId =>
      rcases Option.ite_none_right_eq_some.mp step with ⟨meets, ⟨⟩⟩
      exact counts.getPage placed meets.1 meets.2
  | setPageStatus page status =>
      rcases Option.ite_none_right_eq_some.mp step with ⟨-, ⟨⟩⟩
      refine counts.frame sound' rfl rfl rfl ?_ rfl rfl fun closed => closed
      intro other _
      by_cases here : other = page
      · subst here
        simp [setPage]
      · simp [setPage, here]
  | link page kind target =>
      rcases Option.ite_none_right_eq_some.mp step with ⟨-, ⟨⟩⟩
      refine counts.frame sound' rfl rfl rfl ?_ rfl rfl fun closed => closed
      intro other _
      by_cases here : other = page
      · subst here
        simp [setPage, (same_setLink _ kind target).indexTree]
      · simp [setPage, here]
  | startClose other =>
      cases step
      exact counts.frame sound' rfl rfl rfl (fun _ _ => rfl) rfl rfl fun closed => closed
  | releasePage page =>
      rcases Option.ite_none_right_eq_some.mp step with ⟨-, ⟨⟩⟩
      refine counts.frame sound' rfl rfl rfl ?_ rfl rfl fun closed => closed
      intro other _
      by_cases here : other = page
      · subst here
        simp [setPage, CachedPage.release]
      · simp [setPage, here]
  | close other =>
      cases step
      have tree' : ∀ new : CachedTree, new = { pool.trees other with bClosed := true } →
          ((pool.setTree other new).trees tree).pagesInMem = (pool.trees tree).pagesInMem ∧
          ((pool.setTree other new).trees tree).deleted = (pool.trees tree).deleted ∧
          ((pool.trees tree).bClosed = true →
            ((pool.setTree other new).trees tree).bClosed = true) := by
        rintro _ rfl
        by_cases here : tree = other
        · subst here
          simp [setTree]
        · simp [setTree, here]
      rcases tree' _ rfl with ⟨count, deleted, closed⟩
      exact counts.frame sound' rfl rfl rfl (fun _ _ => rfl) count deleted closed
  | startManage =>
      rcases Option.ite_none_right_eq_some.mp step with ⟨-, ⟨⟩⟩
      exact counts.frame sound' rfl rfl rfl (fun _ _ => rfl) rfl rfl fun closed => closed
  | scan page low =>
      simp only [next] at step
      split at step
      · rcases Option.ite_none_right_eq_some.mp step with ⟨-, step⟩
        split at step <;> cases step <;>
          exact counts.frame sound' rfl rfl rfl (fun _ _ => rfl) rfl rfl fun closed => closed
      · cases step
  | remove => exact counts.remove placed spares step
  | clearPool => exact counts.clearPool placed spares step

/-- The counter of a tree is right, and the tree is deleted with its last page. -/
structure Counted (pool : CachePagePool) (tree : ℕ) : Prop where
  count : (pool.trees tree).pagesInMem = pool.existing tree
  once : (pool.trees tree).deleted ≤ 1
  deleted_iff : (pool.trees tree).deleted = 1 ↔ pool.HadPage tree ∧ pool.existing tree = 0
  closed : (pool.trees tree).deleted = 1 → (pool.trees tree).bClosed = true

theorem counted_of_spares (run : Reaches next (Spares tree) new pool) (less : tree < pool.treeNum) :
    pool.Counted tree := by
  have placed : new.Placed := ⟨List.nodup_nil, nofun, nofun⟩
  have initially : new.Counts tree := ⟨sound_new, nofun, nofun, nofun, nofun, nofun⟩
  let invariant (pool : CachePagePool) : Prop := pool.Counts tree ∧ pool.Placed
  have both : invariant pool := by
    refine run.preserves ⟨initially, placed⟩ ?_
    rintro middle event middle' spares ⟨counts, placed⟩ step
    exact ⟨counts_next counts placed spares step, placed_next placed counts.sound spares step⟩
  have counts := both.1
  exact ⟨counts.count less, counts.once less, counts.deleted_iff less, counts.closed less⟩

/-- A tree is filled, closed and cleared, and another one filled. -/
theorem counted_of_spares_clear : ∃ pool, Reaches next (Spares 0) new pool ∧
    (pool.trees 0).deleted = 1 ∧ pool.existing 1 = 2 ∧ pool.Counted 0 := by
  let events : List PoolEvent :=
    [.newTree 5, .loadIndexTree 0 0, .applyIndexPages 0 [1, 2], .getPage 0 3,
      .setPageStatus 3 .valid, .getPage 0 3, .startClose 0, .releasePage 0, .releasePage 1,
      .releasePage 2, .releasePage 3, .close 0, .clearPool, .newTree 6, .loadIndexTree 1 0,
      .applyIndexPages 1 [1]]
  have executed : (execPermitted next (Spares 0) events new).map
      (fun pool => ((pool.trees 0).deleted, pool.existing 1, decide (0 < pool.treeNum))) =
        some (1, 2, true) := by
    decide +kernel
  rcases Option.map_eq_some_iff.mp executed with ⟨pool, run, state⟩
  rcases Prod.mk.inj state with ⟨deleted, state⟩
  rcases Prod.mk.inj state with ⟨existing, less⟩
  have reached := reaches_of_execPermitted events run
  exact ⟨pool, reached, deleted, existing, counted_of_spares reached (by simpa using less)⟩

/-- Each eviction takes two off the counter. -/
theorem pagesInMem_foldl_evict {lst : List ℕ}
    (ofTree : ∀ page ∈ lst, (pool.pages page).indexTree = tree) {rest : ℕ}
    (count : (pool.trees tree).pagesInMem = rest + 2 * lst.length)
    (less : rest + 2 * lst.length < 2 ^ 32) :
    ((lst.foldl evict pool).trees tree).pagesInMem = rest := by
  induction lst generalizing pool with
  | nil => simpa using count
  | cons page lst ih =>
      have here := ofTree page List.mem_cons_self
      rw [List.length_cons] at count less
      have twice : ((pool.evict page).trees tree).pagesInMem = rest + 2 * lst.length := by
        simp only [evict, deletePage, decPages, setPage, setTree, here, Function.update_self,
          CachedTree.decPages, count]
        omega
      rw [List.foldl_cons]
      refine ih ?_ twice (by omega)
      intro other mem
      rw [pages_evict]
      exact ofTree other (List.mem_cons_of_mem _ mem)

/-- A pass over a closed tree counts each page that it deletes twice. -/
theorem not_counted_evicted :
    ¬∀ pool tree, Reaches next anyInput new pool → tree < pool.treeNum → pool.Counted tree := by
  intro always
  rcases @reaches_selected 200001 (by decide) (by decide) with ⟨selecting, run, selected⟩
  have table := selected.free.table
  have list : selecting.lst = List.range' 1 100000 := by rw [lst, selected.stage]
  have behind : 200001 ∈ selecting.mapCache := by
    rw [table.mapCache]
    exact List.mem_range'_1.mpr (by decide)
  rcases remove_of_selected selected.stage behind (by decide) with ⟨pool, removed⟩
  rcases remove_spec removed with ⟨treeNum, -, -, -, tmp, map, -, trees, pages⟩
  have reached : Reaches next anyInput new pool := run.anyInput.tail .remove trivial removed
  have counted := (always pool 0 reached (by rw [treeNum, table.treeNum]; exact Nat.one_pos)).count
  have two : (pool.trees 0).pagesInMem = 2 := by
    have length : (List.range' 1 100000).length = 100000 := List.length_range'
    have count := table.pagesInMem
    rw [trees, list]
    refine pagesInMem_foldl_evict ?_ ?_ ?_
    · intro page mem
      have range := List.mem_range'_1.mp mem
      exact (table.pages page (by omega)).1
    · change (selecting.trees 0).pagesInMem = _
      omega
    · omega
  -- the pages behind those of the pass are all there
  have many : 100001 ≤ pool.existing 0 := by
    have inPool : List.range' 100001 100001 ⊆
        pool.cached.filter fun page => (pool.pages page).indexTree = 0 := by
      intro page mem
      have range := List.mem_range'_1.mp mem
      have nodup : selecting.mapCache.Nodup := table.mapCache ▸ List.nodup_range'
      have inMap : page ∈ pool.mapCache := by
        rw [map, list]
        refine List.mem_append_left _ (nodup.mem_sdiff_iff.mpr ⟨?_, ?_⟩)
        · rw [table.mapCache]
          exact List.mem_range'_1.mpr (by omega)
        · intro early
          have less := (List.mem_range'_1.mp early).2
          omega
      refine List.mem_filter.mpr ⟨List.mem_append_left _ inMap, ?_⟩
      rw [pages, CachedPage.gone, (table.pages page (by omega)).1]
      rfl
    have le := (List.subperm_of_subset List.nodup_range' inPool).length_le
    rwa [List.length_range', ← List.countP_eq_length_filter] at le
  omega

end CachePagePool

end RapidDb
