import Mathlib.Data.List.Perm.Basic
import Mathlib.Order.Nat
import RapidDb.Pool.PageEviction

/-!
# Calls of `PoolManage`

A call walks on from where the one before has stopped and stops when it has selected 100000 pages.
The test behind the walk is inverted: at the end of the map the key of the element is read, where
there is none, and in front of the end the place is forgotten. So every call begins at the first
page, and reads behind the end unless it stops before.

Nothing happens to the pool during a call here. In what order the map has its pages is arbitrary.
-/

namespace RapidDb

open Transition

inductive MemoryStatus where
  | ample
  | scare
  | critical
  | fatal
deriving DecidableEq, Repr

/-- The score with which a page may stay. -/
def MemoryStatus.minScore : MemoryStatus → ℕ
  | ample => 30
  | scare => 1000
  | critical => 30000
  | fatal => 65535

/-- `CalcScore`. -/
def calcScore (bRefered : Bool) (score : ℕ) : ℕ :=
  if bRefered then if score < 30000 then score * 3 / 2 else score
  else if score > 5 then score * 66 / 100
  else score

/-- The score that `InitParameters` sets. -/
def initialScore (isLeaf : Bool) : ℕ := if isLeaf then 100 else 10000

/-! ## The walk -/

/-- The pages that a walk has come to, those it has selected, and where it is. -/
structure Scan where
  visited : List ℕ
  lst : List ℕ
  rest : List ℕ

namespace Scan

/-- The loop, which stops behind a number of selected pages. -/
def run (chosen : ℕ → Bool) (limit : ℕ) (lst : List ℕ) : List ℕ → Scan
  | [] => ⟨[], lst, []⟩
  | page :: pages =>
      if lst.length < limit then
        let scan := run chosen limit (if chosen page then lst ++ [page] else lst) pages
        { scan with visited := page :: scan.visited }
      else ⟨[], lst, page :: pages⟩

variable {chosen : ℕ → Bool} {limit : ℕ}

theorem split (lst pages : List ℕ) :
    (run chosen limit lst pages).visited ++ (run chosen limit lst pages).rest = pages := by
  induction pages generalizing lst with
  | nil => rfl
  | cons page pages ih =>
      simp only [run]
      split
      · simp only [List.cons_append, ih]
      · rfl

theorem lst_eq (lst pages : List ℕ) :
    (run chosen limit lst pages).lst =
      lst ++ (run chosen limit lst pages).visited.filter chosen := by
  induction pages generalizing lst with
  | nil => simp [run]
  | cons page pages ih =>
      simp only [run]
      split
      · cases isChosen : chosen page <;> simp [ih, isChosen]
      · simp

/-- The first pages that may go, as many as there is room for. -/
theorem lst_take {lst : List ℕ} (few : lst.length ≤ limit) (pages : List ℕ) :
    (run chosen limit lst pages).lst =
      lst ++ (pages.filter chosen).take (limit - lst.length) := by
  induction pages generalizing lst with
  | nil => simp [run]
  | cons page pages ih =>
      simp only [run]
      split
      · rename_i less
        cases isChosen : chosen page with
        | false => simpa [isChosen] using ih few
        | true =>
            have room : limit - lst.length = limit - (lst ++ [page]).length + 1 := by
              rw [List.length_append, List.length_singleton]
              omega
            have fits : (lst ++ [page]).length ≤ limit := by
              rw [List.length_append, List.length_singleton]
              omega
            simp only [if_true, List.filter_cons_of_pos isChosen]
            rw [ih fits, room, List.take_succ_cons, List.append_assoc, List.singleton_append]
      · rename_i notLess
        have full : limit - lst.length = 0 := by omega
        rw [full, List.take_zero, List.append_nil]

theorem length_select {lst : List ℕ} (page : ℕ) (less : lst.length < limit) :
    (if chosen page then lst ++ [page] else lst).length ≤ limit := by
  split
  · simp only [List.length_append, List.length_singleton]
    omega
  · omega

theorem length_of_stops {lst pages : List ℕ} (few : lst.length ≤ limit)
    (stops : (run chosen limit lst pages).rest ≠ []) :
    (run chosen limit lst pages).lst.length = limit := by
  induction pages generalizing lst with
  | nil => exact absurd rfl stops
  | cons page pages ih =>
      simp only [run] at stops ⊢
      split at stops
      · rename_i less
        simp only [if_pos less]
        exact ih (length_select page less) stops
      · rename_i notLess
        simp only [if_neg notLess]
        omega

/-- The walk stops before the end exactly when there is another page behind the last one that it
selects. -/
theorem stops_iff {lst pages : List ℕ} (few : lst.length ≤ limit) :
    (run chosen limit lst pages).rest ≠ [] ↔
      pages ≠ [] ∧ limit ≤ lst.length + pages.dropLast.countP chosen := by
  induction pages generalizing lst with
  | nil => simp [run]
  | cons page pages ih =>
      simp only [run]
      split
      · rename_i less
        rw [ih (length_select page less)]
        cases pages with
        | nil =>
            simp
            omega
        | cons next pages =>
            cases isChosen : chosen page <;> simp [isChosen, Nat.add_assoc, Nat.add_comm 1]
      · rename_i notLess
        simp only [ne_eq, reduceCtorEq, not_false_eq_true, true_and, true_iff]
        omega

end Scan

namespace CachePagePool

/-- A page may go: nobody refers to it, and its tree is closed or its score is low. -/
def chosen (pool : CachePagePool) (score : ℕ → ℕ) (status : MemoryStatus) (page : ℕ) : Bool :=
  (pool.pages page).releaseable && ((pool.trees (pool.pages page).indexTree).bClosed ||
    decide (calcScore (pool.pages page).bRefered (score page) ≤ status.minScore))

/-- The pages of the map from the one on where a walk begins. -/
def walkFrom (pool : CachePagePool) : List ℕ :=
  match pool.midPage with
  | none => pool.mapCache
  | some midPage => pool.mapCache.dropWhile fun page => (pool.pages page).hashCode != midPage

def walk (pool : CachePagePool) (score : ℕ → ℕ) (status : MemoryStatus) : Scan :=
  Scan.run (pool.chosen score status) 100000 [] pool.walkFrom

/-- The selected pages are deleted and erased; none if one of them is not in the map. -/
def eraseAll : List ℕ → CachePagePool → Option CachePagePool
  | [], pool => some pool
  | page :: lst, pool => if page ∈ pool.mapCache then eraseAll lst (pool.evict page) else none

/-- `PoolManage`; none if there is no element where it reads one. -/
def poolManage (pool : CachePagePool) (score : ℕ → ℕ) (status : MemoryStatus) :
    Option CachePagePool :=
  let walk := pool.walk score status
  match walk.rest with
  | [] => none
  | _ :: _ =>
      let pool := { pool with midPage := none }
      if walk.lst = [] ∧ pool.tmpCache = [] then some pool
      else (eraseAll walk.lst pool).map moveTmp

/-- The pages that a call leaves in the map whose list gets full. -/
def leaves (pool : CachePagePool) (score : ℕ → ℕ) (status : MemoryStatus) : List ℕ :=
  pool.mapCache.diff ((pool.walkFrom.filter (pool.chosen score status)).take 100000)

/-- The pages that have come into the map. -/
def came (pool pool' : CachePagePool) : List ℕ := pool'.mapCache.filter fun page =>
  page ∉ pool.mapCache

/-- The pages that have been created for `_tmpCache`. -/
def created (pool pool' : CachePagePool) : List ℕ :=
  (List.range' pool.pageNum (pool'.pageNum - pool.pageNum)).filter fun page =>
    page ∉ pool'.mapCache

/-- New pages have places of their own in `_tmpCache`. -/
def Vacant (pool : CachePagePool) (tree : ℕ) (pageIds : List ℕ) : Prop :=
  pageIds.Nodup ∧ ∀ pageId ∈ pageIds,
    pool.find pool.tmpCache (pool.newPage tree pageId .valid).hashCode = none

/-- The pages that are added get into `_tmpCache`. -/
def Takes (pool : CachePagePool) : PoolEvent → Prop
  | .applyIndexPages tree pageIds => pool.Vacant tree pageIds
  | .loadIndexTree tree rootId => pool.Vacant tree [rootId]
  | _ => True

end CachePagePool

/-- The steps of the walk are those of a call. -/
def PoolEvent.ofManage : PoolEvent → Bool
  | .startManage | .scan _ _ | .remove => true
  | _ => false

/-- What happens between the calls, and the calls. -/
inductive ScanEvent where
  | change (event : PoolEvent)
  /-- A page has been read. -/
  | initParameters (page : ℕ) (isLeaf : Bool)
  /-- The map has its pages in another order. -/
  | order (mapCache : List ℕ)
  | poolManage (status : MemoryStatus)
deriving DecidableEq, Repr

/-- The pool, none after a fault, and what has been seen of it. -/
structure ScanRun where
  pool : Option CachePagePool
  score : ℕ → ℕ
  /-- The pages that have been added. -/
  added : List ℕ
  /-- How often a page has been moved into the map. -/
  moves : ℕ → ℕ
  /-- A call was the last that happened. -/
  managed : Bool
  /-- The calls since the page came into the map or a walk came to it. -/
  waits : ℕ → ℕ
  /-- The pages that have been in the map since then. -/
  company : ℕ → ℕ

namespace ScanRun

open CachePagePool

def new : ScanRun where
  pool := some .new
  score := fun _ => 100000
  added := []
  moves := fun _ => 0
  managed := false
  waits := fun _ => 0
  company := fun _ => 0

/-- The pool changes, by some calls or without one. -/
def record (run : ScanRun) (pool pool' : CachePagePool) (visited : List ℕ) (calls : ℕ) : ScanRun :=
  { run with
    pool := some pool'
    added := run.added ++ created pool pool'
    managed := decide (0 < calls)
    waits := fun page =>
      if page ∈ visited ∨ page ∈ came pool pool' then 0 else run.waits page + calls
    company := fun page =>
      if page ∈ visited ∨ page ∈ came pool pool' then pool'.mapCache.length
      else run.company page + (came pool pool').length }

def next (run : ScanRun) : ScanEvent → Option ScanRun
  | .change event => run.pool.bind fun pool =>
      if event.ofManage then none
      else (pool.next event).map fun pool' => run.record pool pool' [] 0
  | .initParameters page isLeaf =>
      some { run with score := Function.update run.score page (initialScore isLeaf) }
  | .order mapCache => run.pool.bind fun pool =>
      if mapCache.Perm pool.mapCache then
        some (run.record pool { pool with mapCache := mapCache } [] 0)
      else none
  | .poolManage status => run.pool.map fun pool =>
      let visited := (pool.walk run.score status).visited
      match pool.poolManage run.score status with
      | none => { run with pool := none }
      | some pool' =>
          { run.record pool pool' visited 1 with
            score := fun page =>
              if page ∈ visited then calcScore (pool.pages page).bRefered (run.score page)
              else run.score page
            moves := fun page => run.moves page +
              (pool.tmpCache.filter fun page => page ∈ pool'.mapCache).count page }

/-- New pages are moved into the map once, by the next call, and a walk comes to each page of the
map before there have been more calls than the pages that have been in the map allow. -/
structure Resumes (run : ScanRun) (pool : CachePagePool) : Prop where
  once : ∀ page ∈ run.added, run.moves page = 1 ∨
    run.moves page = 0 ∧ (page ∈ pool.tmpCache ∨ (pool.pages page).deleted ≠ 0)
  never : ∀ page, page ∉ run.added → run.moves page = 0
  present : ∀ page ∈ run.added, run.moves page = 1 →
    page ∈ pool.mapCache ∨ (pool.pages page).deleted ≠ 0
  moved : run.managed = true → pool.tmpCache = []
  examined : ∀ page ∈ pool.mapCache, run.waits page ≤ run.company page / 100000

def Resumed (run : ScanRun) : Prop := ∃ pool, run.pool = some pool ∧ run.Resumes pool

/-- A call finds enough pages to select in front of the last one of the map, and no place that a
new page is to take is taken. -/
def Stops (run : ScanRun) : ScanEvent → Prop
  | .change event => ∃ pool, run.pool = some pool ∧ pool.Takes event
  | .poolManage status => ∃ pool, run.pool = some pool ∧
      100000 ≤ pool.walkFrom.dropLast.countP (pool.chosen run.score status) ∧
      ∀ page ∈ pool.tmpCache,
        pool.find (pool.leaves run.score status) (pool.pages page).hashCode = none
  | _ => True

end ScanRun

/-! ## Changes between the calls -/

namespace CachePagePool

variable {pool pool' : CachePagePool} {score : ℕ → ℕ} {status : MemoryStatus}

structure Enlarged (pool pool' : CachePagePool) : Prop where
  midPage : pool'.midPage = pool.midPage
  stage : pool'.stage = pool.stage
  pageNum : pool.pageNum ≤ pool'.pageNum
  mapCache : ∃ new, pool'.mapCache = pool.mapCache ++ new ∧ ∀ page ∈ new, pool.pageNum ≤ page
  tmpCache : ∃ new, pool'.tmpCache = pool.tmpCache ++ new ∧
    ∀ page ∈ new, pool.pageNum ≤ page ∧ page < pool'.pageNum
  deleted : ∀ page < pool.pageNum, (pool'.pages page).deleted = (pool.pages page).deleted
  fresh : ∀ page, pool.pageNum ≤ page → page < pool'.pageNum → (pool'.pages page).deleted = 0

theorem Enlarged.of_same (midPage : pool'.midPage = pool.midPage) (stage : pool'.stage = pool.stage)
    (pageNum : pool'.pageNum = pool.pageNum) (mapCache : pool'.mapCache = pool.mapCache)
    (tmpCache : pool'.tmpCache = pool.tmpCache)
    (deleted : ∀ page, (pool'.pages page).deleted = (pool.pages page).deleted) :
    pool.Enlarged pool' := by
  refine ⟨midPage, stage, pageNum.ge, ⟨[], ?_, by simp⟩, ⟨[], ?_, by simp⟩,
    fun page _ => deleted page, fun page le less => absurd (pageNum ▸ less) (Nat.not_lt.mpr le)⟩
  · simpa using mapCache
  · simpa using tmpCache

theorem Enlarged.trans {middle : CachePagePool} (first : pool.Enlarged middle)
    (second : middle.Enlarged pool') : pool.Enlarged pool' := by
  rcases first.mapCache with ⟨came, map, inMap⟩
  rcases second.mapCache with ⟨came', map', inMap'⟩
  rcases first.tmpCache with ⟨new, tmp, inTmp⟩
  rcases second.tmpCache with ⟨new', tmp', inTmp'⟩
  have le := first.pageNum
  have le' := second.pageNum
  refine ⟨second.midPage.trans first.midPage, second.stage.trans first.stage, le.trans le',
    ⟨came ++ came', by rw [map', map, List.append_assoc], ?_⟩,
    ⟨new ++ new', by rw [tmp', tmp, List.append_assoc], ?_⟩, ?_, ?_⟩
  · intro page mem
    rcases List.mem_append.mp mem with mem | mem
    · exact inMap page mem
    · exact le.trans (inMap' page mem)
  · intro page mem
    rcases List.mem_append.mp mem with mem | mem
    · exact ⟨(inTmp page mem).1, (inTmp page mem).2.trans_le le'⟩
    · exact ⟨le.trans (inTmp' page mem).1, (inTmp' page mem).2⟩
  · intro page less
    rw [second.deleted page (less.trans_le le), first.deleted page less]
  · intro page old less
    rcases Nat.lt_or_ge page middle.pageNum with early | late
    · rw [second.deleted page early]
      exact first.fresh page old early
    · exact second.fresh page late less

theorem deleted_newPage (pool : CachePagePool) (new : CachedPage) {page : ℕ}
    (less : page < pool.pageNum) :
    ((pool.setPage pool.pageNum new).pages page).deleted = (pool.pages page).deleted := by
  simp [setPage, Nat.ne_of_lt less]

theorem fresh_setPage {new : CachedPage} (deleted : new.deleted = 0) {page : ℕ}
    (le : pool.pageNum ≤ page) (less : page < pool.pageNum + 1) :
    ((pool.setPage pool.pageNum new).pages page).deleted = 0 := by
  have here : page = pool.pageNum := Nat.le_antisymm (Nat.le_of_lt_succ less) le
  simp [setPage, here, deleted]

theorem enlarged_addPage (pool : CachePagePool) (tree pageId : ℕ) :
    pool.Enlarged (pool.addPage tree pageId) := by
  refine ⟨rfl, rfl, Nat.le_succ _, ⟨[], by simp [addPage, setPage], by simp⟩, ?_,
    fun page less => deleted_newPage pool _ less, fun page le less => fresh_setPage rfl le less⟩
  simp only [addPage]
  split
  · refine ⟨[pool.pageNum], rfl, fun page mem => ?_⟩
    rw [List.mem_singleton.mp mem]
    exact ⟨le_rfl, Nat.lt_succ_self _⟩
  · exact ⟨[], by simp, by simp⟩

theorem enlarged_addPages (pool : CachePagePool) (tree : ℕ) (pageIds : List ℕ) :
    pool.Enlarged (pool.addPages tree pageIds) := by
  induction pageIds generalizing pool with
  | nil => exact .of_same rfl rfl rfl rfl rfl fun _ => rfl
  | cons pageId pageIds ih =>
      rw [addPages_cons]
      exact (enlarged_addPage pool tree pageId).trans (ih _)

theorem Enlarged.setPage {new : CachedPage} {page : ℕ}
    (same : new.deleted = (pool.pages page).deleted) : pool.Enlarged (pool.setPage page new) := by
  refine .of_same rfl rfl rfl rfl rfl fun other => ?_
  by_cases here : other = page
  · simpa [CachePagePool.setPage, here] using same
  · simp [CachePagePool.setPage, here]

theorem enlarged_getPage (tree pageId : ℕ) : pool.Enlarged (pool.getPage tree pageId).2 := by
  simp only [getPage]
  split
  · rename_i page _
    have referred := @Enlarged.setPage pool { pool.pages page with bRefered := true } page rfl
    exact referred.trans (.of_same rfl rfl rfl rfl rfl fun _ => rfl)
  · refine ⟨rfl, rfl, Nat.le_succ _, ⟨[pool.pageNum], rfl, by simp⟩, ⟨[], ?_, by simp⟩,
      fun page less => deleted_newPage pool _ less, fun page le less => fresh_setPage rfl le less⟩
    simp [incPages, setTree, CachePagePool.setPage]

/-- The maps have been emptied, and all of their pages deleted. -/
structure Cleared (pool pool' : CachePagePool) : Prop where
  midPage : pool'.midPage = pool.midPage
  stage : pool'.stage = pool.stage
  pageNum : pool'.pageNum = pool.pageNum
  mapCache : pool'.mapCache = []
  tmpCache : pool'.tmpCache = []
  cached : ∀ page ∈ pool.cached, (pool'.pages page).deleted ≠ 0
  deleted : ∀ page, (pool.pages page).deleted ≠ 0 → (pool'.pages page).deleted ≠ 0

theorem midPage_foldl_deletePage (pages : List ℕ) (pool : CachePagePool) :
    (pages.foldl deletePage pool).midPage = pool.midPage := by
  induction pages generalizing pool with
  | nil => rfl
  | cons page pages ih => exact ih (pool.deletePage page)

theorem enlarged_or_cleared {event : PoolEvent} (between : event.ofManage = false)
    (step : next pool event = some pool') : pool.Enlarged pool' ∨ pool.Cleared pool' := by
  cases event with
  | startManage => cases between
  | scan page low => cases between
  | remove => cases between
  | newTree fileId | startClose tree | close tree =>
      cases step
      exact Or.inl (.of_same rfl rfl rfl rfl rfl fun _ => rfl)
  | applyIndexPages tree pageIds =>
      simp only [next, Option.ite_none_right_eq_some] at step
      cases step.2
      have same : (pool.addPages tree pageIds).Enlarged
          ((pool.addPages tree pageIds).incPages tree pageIds.length) :=
        .of_same rfl rfl rfl rfl rfl fun _ => rfl
      exact Or.inl ((enlarged_addPages pool tree pageIds).trans same)
  | loadIndexTree tree rootId =>
      simp only [next, Option.ite_none_right_eq_some] at step
      have counted : pool.Enlarged (pool.incPages tree 1) :=
        .of_same rfl rfl rfl rfl rfl fun _ => rfl
      cases step.2
      exact Or.inl (counted.trans (enlarged_addPage _ tree rootId))
  | getPage tree pageId =>
      simp only [next, Option.ite_none_right_eq_some] at step
      cases step.2
      exact Or.inl (enlarged_getPage tree pageId)
  | setPageStatus page status =>
      simp only [next, Option.ite_none_right_eq_some] at step
      cases step.2
      exact Or.inl (.setPage rfl)
  | link page kind target =>
      simp only [next, Option.ite_none_right_eq_some] at step
      cases step.2
      exact Or.inl (.setPage (by cases kind <;> rfl))
  | releasePage page =>
      simp only [next, Option.ite_none_right_eq_some] at step
      cases step.2
      exact Or.inl (.setPage rfl)
  | clearPool =>
      simp only [next, Option.ite_none_right_eq_some] at step
      rcases step with ⟨-, same⟩
      cases same
      rcases foldl_deletePage (pool.mapCache ++ pool.tmpCache) pool with ⟨frame, pages⟩
      refine Or.inr ⟨midPage_foldl_deletePage _ _, frame.stage, frame.pageNum, rfl, rfl, ?_, ?_⟩
      · intro page mem
        simp only [pages, CachedPage.gone]
        have counted := List.count_pos_iff.mpr mem
        simp only [cached] at counted
        omega
      · intro page isDeleted
        simp only [pages, CachedPage.gone]
        omega

/-! ## Pages that are added -/

/-- Each new page is in one of the maps. -/
def NoneLost (pool pool' : CachePagePool) : Prop :=
  ∀ page, pool.pageNum ≤ page → page < pool'.pageNum → page ∈ pool'.cached

section Added

variable {tree pageId : ℕ}

theorem tmpCache_addPage (free :
      pool.find pool.tmpCache (pool.newPage tree pageId .valid).hashCode = none) :
    (pool.addPage tree pageId).tmpCache = pool.tmpCache ++ [pool.pageNum] := if_pos free

/-- The next page sees the pages of before and the one that has been added. -/
theorem find_addPage (sound : pool.Sound)
    (free : pool.find pool.tmpCache (pool.newPage tree pageId .valid).hashCode = none)
    (other : ℕ) :
    (pool.addPage tree pageId).find (pool.addPage tree pageId).tmpCache
        ((pool.addPage tree pageId).newPage tree other .valid).hashCode = none ↔
      pool.find pool.tmpCache (pool.newPage tree other .valid).hashCode = none ∧
        other ≠ pageId := by
  have old : ∀ page ∈ pool.tmpCache,
      (pool.addPage tree pageId).pages page = pool.pages page := by
    intro page mem
    have less := (sound.known page (List.mem_append_right _ mem)).1
    simp [addPage, setPage, Nat.ne_of_lt less]
  have new : (pool.addPage tree pageId).pages pool.pageNum = pool.newPage tree pageId .valid := by
    simp [addPage, setPage]
  have differ : (pool.newPage tree pageId .valid).hashCode ≠
      (pool.newPage tree other .valid).hashCode ↔ other ≠ pageId := by
    simp only [CachedPage.hashCode, newPage]
    omega
  simp only [find_eq_none, tmpCache_addPage free]
  rw [← differ]
  constructor
  · intro absent
    refine ⟨fun page mem => ?_, ?_⟩
    · have away := absent page (List.mem_append_left _ mem)
      rwa [old page mem] at away
    · have away := absent pool.pageNum (List.mem_append_right _ List.mem_cons_self)
      rwa [new] at away
  · rintro ⟨absent, away⟩ page mem
    rcases List.mem_append.mp mem with mem | mem
    · rw [old page mem]
      exact absent page mem
    · rw [List.mem_singleton.mp mem, new]
      exact away

theorem vacant_cons (sound : pool.Sound) {pageIds : List ℕ} :
    pool.Vacant tree (pageId :: pageIds) ↔
      pool.find pool.tmpCache (pool.newPage tree pageId .valid).hashCode = none ∧
        (pool.addPage tree pageId).Vacant tree pageIds := by
  constructor
  · rintro ⟨nodup, absent⟩
    have free := absent pageId List.mem_cons_self
    rcases List.nodup_cons.mp nodup with ⟨notAgain, nodup⟩
    refine ⟨free, nodup, fun other mem => (find_addPage sound free other).mpr ⟨?_, ?_⟩⟩
    · exact absent other (List.mem_cons_of_mem _ mem)
    · rintro rfl
      exact notAgain mem
  · rintro ⟨free, nodup, absent⟩
    have each := fun other mem => (find_addPage sound free other).mp (absent other mem)
    refine ⟨List.nodup_cons.mpr ⟨fun again => (each pageId again).2 rfl, nodup⟩, ?_⟩
    intro other mem
    rcases List.mem_cons.mp mem with rfl | mem
    · exact free
    · exact (each other mem).1

/-- Pages get into `_tmpCache` exactly if their places are free and differ. -/
theorem placed_iff (sound : pool.Sound) (pageIds : List ℕ) :
    (∀ page, pool.pageNum ≤ page → page < (pool.addPages tree pageIds).pageNum →
        page ∈ (pool.addPages tree pageIds).tmpCache) ↔ pool.Vacant tree pageIds := by
  induction pageIds generalizing pool with
  | nil =>
      refine iff_of_true ?_ ⟨List.nodup_nil, nofun⟩
      intro page le less
      exact absurd less (Nat.not_lt.mpr le)
  | cons pageId pageIds ih =>
      have later := enlarged_addPages (pool.addPage tree pageId) tree pageIds
      rcases later.tmpCache with ⟨new, tmp, isNew⟩
      have first : pool.pageNum ∈ ((pool.addPage tree pageId).addPages tree pageIds).tmpCache ↔
          pool.find pool.tmpCache (pool.newPage tree pageId .valid).hashCode = none := by
        have notNew : pool.pageNum ∉ new := fun mem =>
          absurd (isNew _ mem).1 (Nat.not_succ_le_self _)
        have notOld : pool.pageNum ∉ pool.tmpCache := fun mem =>
          (sound.known _ (List.mem_append_right _ mem)).1.ne rfl
        rw [tmp, List.mem_append, or_iff_left notNew]
        simp only [addPage]
        split <;> simp_all
      have num : pool.pageNum + 1 ≤
          ((pool.addPage tree pageId).addPages tree pageIds).pageNum := later.pageNum
      rw [addPages_cons, vacant_cons sound, ← ih sound.addPage, ← first]
      constructor
      · intro placed
        exact ⟨placed _ le_rfl num, fun page le => placed page ((Nat.le_succ _).trans le)⟩
      · rintro ⟨here, placed⟩ page le less
        rcases le.eq_or_lt with rfl | beyond
        · exact here
        · exact placed page beyond less

theorem mapCache_addPages (pool : CachePagePool) (tree : ℕ) (pageIds : List ℕ) :
    (pool.addPages tree pageIds).mapCache = pool.mapCache := by
  induction pageIds generalizing pool with
  | nil => rfl
  | cons pageId pageIds ih =>
      rw [addPages_cons, ih]
      rfl

theorem noneLost_addPages (sound : pool.Sound) (pageIds : List ℕ) :
    pool.NoneLost (pool.addPages tree pageIds) ↔ pool.Vacant tree pageIds := by
  rw [← placed_iff sound]
  refine forall_congr' fun page => forall_congr' fun le => forall_congr' fun _ => ?_
  have notInMap : page ∉ (pool.addPages tree pageIds).mapCache := by
    intro mem
    rw [mapCache_addPages] at mem
    exact absurd (sound.known page (List.mem_append_left _ mem)).1 (Nat.not_lt.mpr le)
  rw [cached, List.mem_append, or_iff_right notInMap]

end Added

/-- No page is lost exactly if the pages that are added find their places free. -/
theorem noneLost_iff (sound : pool.Sound) {event : PoolEvent} (between : event.ofManage = false)
    (step : next pool event = some pool') : pool.NoneLost pool' ↔ pool.Takes event := by
  have same : ∀ {pool'' : CachePagePool}, pool''.pageNum = pool.pageNum →
      pool.NoneLost pool'' := by
    intro pool'' pageNum page le less
    omega
  cases event with
  | startManage => cases between
  | scan page low => cases between
  | remove => cases between
  | newTree fileId | startClose tree | close tree =>
      cases step
      exact iff_of_true (same rfl) trivial
  | applyIndexPages tree pageIds =>
      simp only [next, Option.ite_none_right_eq_some] at step
      cases step.2
      exact noneLost_addPages sound pageIds
  | loadIndexTree tree rootId =>
      simp only [next, Option.ite_none_right_eq_some] at step
      cases step.2
      have counted : (pool.incPages tree 1).Sound := sound.setTree
      refine (@noneLost_addPages _ tree counted [rootId]).trans ?_
      simp only [Takes, Vacant, newPage, incPages, setTree, Function.update_self,
        CachedTree.incPages]
      exact Iff.rfl
  | getPage tree pageId =>
      simp only [next, Option.ite_none_right_eq_some] at step
      cases step.2
      refine iff_of_true ?_ trivial
      cases found : pool.found tree pageId with
      | some page =>
          rw [getPage_of_found found]
          exact same rfl
      | none =>
          intro page le less
          rw [getPage, found] at less ⊢
          have here : page = pool.pageNum := Nat.le_antisymm (Nat.le_of_lt_succ less) le
          rw [here]
          exact List.mem_append_left _ (List.mem_append_right _ List.mem_cons_self)
  | setPageStatus page status =>
      simp only [next, Option.ite_none_right_eq_some] at step
      cases step.2
      exact iff_of_true (same rfl) trivial
  | link page kind target =>
      simp only [next, Option.ite_none_right_eq_some] at step
      cases step.2
      exact iff_of_true (same rfl) trivial
  | releasePage page =>
      simp only [next, Option.ite_none_right_eq_some] at step
      cases step.2
      exact iff_of_true (same rfl) trivial
  | clearPool =>
      simp only [next, Option.ite_none_right_eq_some] at step
      rcases step with ⟨-, cleared⟩
      cases cleared
      exact iff_of_true (same (foldl_deletePage _ pool).1.pageNum) trivial

/-! ## Calls -/

theorem eraseAll_eq {lst : List ℕ} (nodup : lst.Nodup)
    (inMap : ∀ page ∈ lst, page ∈ pool.mapCache) :
    eraseAll lst pool = some (lst.foldl evict pool) := by
  induction lst generalizing pool with
  | nil => rfl
  | cons page lst ih =>
      rcases List.nodup_cons.mp nodup with ⟨notAgain, nodup⟩
      simp only [eraseAll, if_pos (inMap page List.mem_cons_self), List.foldl_cons]
      apply ih nodup
      intro other mem
      have differ : other ≠ page := fun same => notAgain (same ▸ mem)
      exact (List.mem_erase_of_ne differ).mpr (inMap other (List.mem_cons_of_mem _ mem))

theorem next_walking (start : pool.midPage = none) {lst visited : List ℕ} {page : ℕ}
    (inMap : page ∈ pool.mapCache) (notSeen : page ∉ visited) (less : lst.length < 100000) :
    next (pool.walking visited lst) (.scan page
        (decide (calcScore (pool.pages page).bRefered (score page) ≤ status.minScore))) =
      some (pool.walking (page :: visited)
        (if pool.chosen score status page then lst ++ [page] else lst)) := by
  have walks : page ∈ pool.mapCache ∧ page ∉ visited ∧ lst.length < 100000 ∧
      (pool.walking visited lst).startsAt visited page :=
    ⟨inMap, notSeen, less, Or.inr (Or.inl start)⟩
  refine (if_pos walks).trans ?_
  by_cases isChosen : pool.chosen score status page = true
  · simp only [if_pos isChosen]
    refine if_pos ?_
    simpa [chosen, walking] using isChosen
  · simp only [if_neg isChosen]
    refine if_neg ?_
    simpa [chosen, walking] using isChosen

theorem reaches_run (start : pool.midPage = none) {lst pages visited : List ℕ}
    (inMap : ∀ page ∈ pages, page ∈ pool.mapCache) (nodup : pages.Nodup)
    (notSeen : ∀ page ∈ pages, page ∉ visited) :
    ∃ visited', Reaches next anyInput (pool.walking visited lst)
        (pool.walking visited' (Scan.run (pool.chosen score status) 100000 lst pages).lst) ∧
      ∀ page ∈ visited', page ∈ visited ∨
        page ∈ (Scan.run (pool.chosen score status) 100000 lst pages).visited := by
  induction pages generalizing lst visited with
  | nil => exact ⟨visited, .refl _, fun _ seen => Or.inl seen⟩
  | cons page pages ih =>
      rcases List.nodup_cons.mp nodup with ⟨notAgain, nodup⟩
      simp only [Scan.run]
      split
      · rename_i less
        have fresh : ∀ other ∈ pages, other ∉ page :: visited := by
          intro other mem seen
          rcases List.mem_cons.mp seen with same | seen
          · exact notAgain (same ▸ mem)
          · exact notSeen other (List.mem_cons_of_mem _ mem) seen
        rcases @ih (if pool.chosen score status page then lst ++ [page] else lst) (page :: visited)
          (fun other mem => inMap other (List.mem_cons_of_mem _ mem)) nodup fresh with
          ⟨visited', rest, each⟩
        have step := @next_walking _ score status start _ _ _ (inMap page List.mem_cons_self)
          (notSeen page List.mem_cons_self) less
        refine ⟨visited', Relation.ReflTransGen.head ⟨_, trivial, step⟩ rest, ?_⟩
        intro other seen
        rcases each other seen with seen | seen
        · rcases List.mem_cons.mp seen with rfl | seen
          · exact Or.inr List.mem_cons_self
          · exact Or.inl seen
        · exact Or.inr (List.mem_cons_of_mem _ seen)
      · exact ⟨visited, .refl _, fun _ seen => Or.inl seen⟩

/-- What a call does that stops before the end. -/
structure Managed (pool pool' : CachePagePool) (lst : List ℕ) : Prop where
  reached : Reaches next anyInput pool pool'
  midPage : pool'.midPage = none
  stage : pool'.stage = .idle
  pageNum : pool'.pageNum = pool.pageNum
  mapCache : pool'.mapCache = pool.mapCache.diff lst ++ pool.tmpCache.filter fun page =>
    pool.find (pool.mapCache.diff lst) (pool.pages page).hashCode = none
  tmpCache : pool'.tmpCache = []
  pages : ∀ page, pool'.pages page = (pool.pages page).gone (lst.count page)

theorem midPage_foldl_evict (lst : List ℕ) (pool : CachePagePool) :
    (lst.foldl evict pool).midPage = pool.midPage := by
  induction lst generalizing pool with
  | nil => rfl
  | cons page lst ih => exact ih (pool.evict page)

theorem walkFrom_eq (start : pool.midPage = none) : pool.walkFrom = pool.mapCache := by
  simp only [walkFrom, start]

theorem walk_split (start : pool.midPage = none) :
    (pool.walk score status).visited ++ (pool.walk score status).rest = pool.mapCache := by
  rw [← walkFrom_eq start]
  exact Scan.split [] pool.walkFrom

theorem visited_sublist (start : pool.midPage = none) :
    (pool.walk score status).visited.Sublist pool.mapCache := by
  rw [← walk_split start]
  exact List.sublist_append_left _ _

theorem lst_sublist (start : pool.midPage = none) :
    (pool.walk score status).lst.Sublist pool.mapCache := by
  have selected := @Scan.lst_eq (pool.chosen score status) 100000 [] pool.walkFrom
  simp only [List.nil_append] at selected
  rw [walk, selected]
  exact List.filter_sublist.trans (visited_sublist start)

theorem diff_walk : pool.mapCache.diff (pool.walk score status).lst =
    pool.leaves score status := by
  rw [walk, Scan.lst_take (Nat.zero_le _)]
  rfl

theorem poolManage_eq_none
    (runs : ¬100000 ≤ pool.walkFrom.dropLast.countP (pool.chosen score status)) :
    pool.poolManage score status = none := by
  have ends : (pool.walk score status).rest = [] := by
    by_contra stops
    have few := ((Scan.stops_iff (Nat.zero_le _)).mp stops).2
    exact runs (by simpa using few)
  simp only [poolManage, ends]

theorem Sound.managed (sound : pool.Sound) (start : pool.midPage = none)
    (idle : pool.stage = .idle)
    (stops : 100000 ≤ pool.walkFrom.dropLast.countP (pool.chosen score status)) :
    ∃ pool', pool.poolManage score status = some pool' ∧
      pool.Managed pool' (pool.walk score status).lst ∧
      (pool.walk score status).lst.length = 100000 := by
  have notEmpty : pool.walkFrom ≠ [] := by
    intro isEmpty
    simp [isEmpty] at stops
  have inFront : (pool.walk score status).rest ≠ [] :=
    (Scan.stops_iff (Nat.zero_le _)).mpr ⟨notEmpty, by simpa using stops⟩
  have length : (pool.walk score status).lst.length = 100000 :=
    Scan.length_of_stops (Nat.zero_le _) inFront
  have nodup : pool.mapCache.Nodup := sound.nodup.of_append_left
  rcases List.exists_cons_of_ne_nil inFront with ⟨page, rest, isRest⟩
  refine ⟨((pool.walk score status).lst.foldl evict { pool with midPage := none }).moveTmp, ?_, ?_,
    length⟩
  · have selected : (pool.walk score status).lst ≠ [] := by
      intro isEmpty
      simp [isEmpty] at length
    have sub : (pool.walk score status).lst.Sublist pool.mapCache := lst_sublist start
    have erased := @eraseAll_eq { pool with midPage := none } _ (sub.nodup nodup)
      fun _ mem => sub.subset mem
    simp only [poolManage, isRest, selected, false_and, if_false, erased, Option.map_some]
  · rcases @reaches_run pool score status start [] pool.mapCache [] (fun _ mem => mem) nodup
      (by simp) with ⟨visited, walked, seen⟩
    rw [← walkFrom_eq start] at walked seen
    have begun : next pool .startManage = some (pool.walking [] []) := if_pos idle
    have split := @walk_split pool score status start
    -- the page at which the walk stops has not been seen
    have unseen : ∃ page ∈ pool.mapCache, page ∉ visited := by
      rw [isRest] at split
      refine ⟨page, split ▸ List.mem_append_right _ List.mem_cons_self, fun again => ?_⟩
      have twice := (seen page again).resolve_left List.not_mem_nil
      exact List.disjoint_of_nodup_append (split ▸ nodup) twice List.mem_cons_self
    have removed : next (pool.walking visited (pool.walk score status).lst) .remove =
        some ((pool.walk score status).lst.foldl evict { pool with midPage := none }).moveTmp := by
      have same : { pool with midPage := none, stage := .idle } =
          { pool with midPage := none } := by
        rw [← idle]
      rw [← same]
      exact if_pos ⟨length, unseen⟩
    rcases remove_spec removed with ⟨-, pageNum, -, stage, tmp, map, -, -, pages⟩
    refine ⟨?_, midPage_foldl_evict _ _, stage, pageNum, map, tmp, pages⟩
    exact Relation.ReflTransGen.head ⟨_, trivial, begun⟩ (walked.tail _ trivial removed)

end CachePagePool

/-! ## Runs -/

namespace ScanRun

open CachePagePool

variable {run run' : ScanRun} {pool pool' : CachePagePool}

/-- What holds in every run without a fault. Each call has left fewer of the pages that were in the
map. -/
structure Sound (run : ScanRun) (pool : CachePagePool) : Prop where
  cached : pool.Sound
  midPage : pool.midPage = none
  stage : pool.stage = .idle
  known : ∀ page ∈ run.added, page < pool.pageNum
  waiting : ∀ page ∈ pool.tmpCache, page ∈ run.added ∧ run.moves page = 0
  once : ∀ page ∈ run.added, run.moves page = 1 ∨
    run.moves page = 0 ∧ (page ∈ pool.tmpCache ∨ (pool.pages page).deleted ≠ 0)
  never : ∀ page, page ∉ run.added → run.moves page = 0
  present : ∀ page ∈ run.added, run.moves page = 1 →
    page ∈ pool.mapCache ∨ (pool.pages page).deleted ≠ 0
  moved : run.managed = true → pool.tmpCache = []
  waits : ∀ page ∈ pool.mapCache,
    run.waits page * 100000 + pool.mapCache.length ≤ run.company page

/-- Pages that come are counted, and a call takes as many out of the map as its list has room
for. -/
theorem waits_next {waits calls limit stay length came company : ℕ}
    (before : waits * limit + length ≤ company) (deleted : calls * limit + stay = length) :
    (waits + calls) * limit + (stay + came) ≤ company + came := by
  rw [Nat.add_mul]
  omega

theorem Sound.resumes (sound : run.Sound pool) : run.Resumes pool := by
  refine { sound with examined := ?_ }
  intro page mem
  have waits := sound.waits page mem
  exact (Nat.le_div_iff_mul_le (by simp)).mpr ((Nat.le_add_right _ _).trans waits)

theorem sound_new : new.Sound .new := by
  have none : ∀ page : ℕ, page ∉ ([] : List ℕ) := fun _ => List.not_mem_nil
  exact ⟨CachePagePool.sound_new, rfl, rfl, fun page mem => absurd mem (none page),
    fun page mem => absurd mem (none page), fun page mem => absurd mem (none page), fun _ _ => rfl,
    fun page mem => absurd mem (none page), fun _ => rfl, fun page mem => absurd mem (none page)⟩

theorem came_eq {stay came' : List ℕ} (map : pool'.mapCache = stay ++ came')
    (inMap : ∀ page ∈ stay, page ∈ pool.mapCache) (fresh : ∀ page ∈ came', page ∉ pool.mapCache) :
    came pool pool' = came' := by
  have old : stay.filter (fun page => page ∉ pool.mapCache) = [] := by
    simpa using inMap
  have new : came'.filter (fun page => page ∉ pool.mapCache) = came' := by
    simpa using fresh
  rw [came, map, List.filter_append, old, new, List.nil_append]

theorem mem_created {page : ℕ} : page ∈ created pool pool' ↔
    (pool.pageNum ≤ page ∧ page < pool'.pageNum) ∧ page ∉ pool'.mapCache := by
  have range : pool.pageNum ≤ page ∧ page < pool.pageNum + (pool'.pageNum - pool.pageNum) ↔
      pool.pageNum ≤ page ∧ page < pool'.pageNum := by
    omega
  simp only [created, List.mem_filter, List.mem_range'_1, decide_eq_true_eq, range]

theorem created_eq_nil (pageNum : pool'.pageNum = pool.pageNum) : created pool pool' = [] := by
  simp [created, pageNum]

theorem Sound.enlarged (sound : run.Sound pool) (sound' : pool'.Sound)
    (enlarged : pool.Enlarged pool') (noneLost : pool.NoneLost pool') :
    (run.record pool pool' [] 0).Sound pool' := by
  rcases enlarged.mapCache with ⟨inMap, map, mapFresh⟩
  rcases enlarged.tmpCache with ⟨inTmp, tmp, tmpFresh⟩
  have less : ∀ page ∈ pool.cached, page < pool.pageNum := fun page mem =>
    (sound.cached.known page mem).1
  have le := enlarged.pageNum
  have cameEq : came pool pool' = inMap := came_eq map (fun _ mem => mem) fun page mem old => by
    have first := mapFresh page mem
    have second := less page (List.mem_append_left _ old)
    omega
  have isNew : ∀ page, page ∈ created pool pool' →
      (pool.pageNum ≤ page ∧ page < pool'.pageNum) ∧ page ∈ pool'.tmpCache := by
    intro page mem
    rcases mem_created.mp mem with ⟨range, notInMap⟩
    have placed := noneLost page range.1 range.2
    exact ⟨range, (List.mem_append.mp placed).resolve_left notInMap⟩
  have unmoved : ∀ page, pool.pageNum ≤ page → run.moves page = 0 := by
    intro page beyond
    apply sound.never
    intro mem
    have known := sound.known page mem
    omega
  refine ⟨sound', enlarged.midPage.trans sound.midPage, enlarged.stage.trans sound.stage, ?_, ?_,
    ?_, ?_, ?_, ?_, ?_⟩
  · intro page mem
    rcases List.mem_append.mp mem with mem | mem
    · exact (sound.known page mem).trans_le le
    · exact (isNew page mem).1.2
  · intro page mem
    by_cases old : page ∈ pool.tmpCache
    · exact ⟨List.mem_append_left _ (sound.waiting page old).1, (sound.waiting page old).2⟩
    · have range := tmpFresh page ((List.mem_append.mp (tmp ▸ mem)).resolve_left old)
      have notInMap : page ∉ pool'.mapCache := fun inMap =>
        List.disjoint_of_nodup_append sound'.nodup inMap mem
      have isAdded := mem_created.mpr ⟨range, notInMap⟩
      exact ⟨List.mem_append_right _ isAdded, unmoved page range.1⟩
  · intro page mem
    rcases List.mem_append.mp mem with mem | mem
    · refine (sound.once page mem).imp_right fun once => ⟨once.1, once.2.imp ?_ ?_⟩
      · intro waits
        rw [tmp]
        exact List.mem_append_left _ waits
      · rw [enlarged.deleted page (sound.known page mem)]
        exact id
    · exact Or.inr ⟨unmoved page (isNew page mem).1.1, Or.inl (isNew page mem).2⟩
  · intro page notAdded
    exact sound.never page fun mem => notAdded (List.mem_append_left _ mem)
  · intro page mem once
    rcases List.mem_append.mp mem with mem | mem
    · rw [enlarged.deleted page (sound.known page mem), map]
      exact (sound.present page mem once).imp_left (List.mem_append_left _)
    · have zero := unmoved page (isNew page mem).1.1
      simp only [record] at once
      omega
  · intro managed
    cases managed
  · intro page mem
    simp only [record, cameEq, List.not_mem_nil, false_or]
    split
    · omega
    · rename_i old
      have waits := sound.waits page ((List.mem_append.mp (map ▸ mem)).resolve_right old)
      rw [map, List.length_append]
      exact waits_next waits (by simp)

/-- Where new pages are not forgotten, none is lost. -/
theorem Resumes.noneLost (resumes : (run.record pool pool' [] 0).Resumes pool')
    (sound : run.Sound pool) (enlarged : pool.Enlarged pool') : pool.NoneLost pool' := by
  intro page le less
  by_contra lost
  have notInMap : page ∉ pool'.mapCache := fun mem => lost (List.mem_append_left _ mem)
  have unmoved : run.moves page = 0 := by
    apply sound.never
    intro mem
    have known := sound.known page mem
    omega
  have isAdded : page ∈ (run.record pool pool' [] 0).added :=
    List.mem_append_right _ (mem_created.mpr ⟨⟨le, less⟩, notInMap⟩)
  rcases resumes.once page isAdded with once | ⟨-, waits | isDeleted⟩
  · simp only [record] at once
    omega
  · exact lost (List.mem_append_right _ waits)
  · exact isDeleted (enlarged.fresh page le less)

theorem Sound.cleared (sound : run.Sound pool) (sound' : pool'.Sound)
    (cleared : pool.Cleared pool') : (run.record pool pool' [] 0).Sound pool' := by
  have added : (run.record pool pool' [] 0).added = run.added := by
    simp only [record, created_eq_nil cleared.pageNum, List.append_nil]
  refine ⟨sound', cleared.midPage.trans sound.midPage, cleared.stage.trans sound.stage, ?_, ?_, ?_,
    ?_, ?_, ?_, ?_⟩
  · rw [added, cleared.pageNum]
    exact sound.known
  · rw [cleared.tmpCache]
    intro page mem
    cases mem
  · rw [added]
    intro page mem
    refine (sound.once page mem).imp_right fun once => ⟨once.1, Or.inr ?_⟩
    rcases once.2 with waits | isDeleted
    · exact cleared.cached page (List.mem_append_right _ waits)
    · exact cleared.deleted page isDeleted
  · rw [added]
    exact sound.never
  · rw [added]
    intro page mem once
    rcases sound.present page mem once with inMap | isDeleted
    · exact Or.inr (cleared.cached page (List.mem_append_left _ inMap))
    · exact Or.inr (cleared.deleted page isDeleted)
  · intro managed
    cases managed
  · rw [cleared.mapCache]
    intro page mem
    cases mem

theorem Sound.order (sound : run.Sound pool) {mapCache : List ℕ}
    (perm : mapCache.Perm pool.mapCache) :
    (run.record pool { pool with mapCache := mapCache } [] 0).Sound
      { pool with mapCache := mapCache } := by
  have noneCame : came pool { pool with mapCache := mapCache } = [] := by
    simp only [came, List.filter_eq_nil_iff, decide_eq_true_eq, not_not]
    exact fun page mem => perm.mem_iff.mp mem
  have noneNew : created pool { pool with mapCache := mapCache } = [] := created_eq_nil rfl
  have added : (run.record pool { pool with mapCache := mapCache } [] 0).added = run.added := by
    simp only [record, noneNew, List.append_nil]
  refine ⟨?_, sound.midPage, sound.stage, ?_, ?_, ?_, ?_, ?_, ?_, ?_⟩
  · have cached : (mapCache ++ pool.tmpCache).Perm pool.cached := perm.append_right _
    refine ⟨fun page mem => sound.cached.known page (cached.mem_iff.mp mem),
      cached.nodup_iff.mpr sound.cached.nodup, sound.cached.lst_nodup, ?_,
      sound.cached.lst_visited⟩
    intro page mem
    exact perm.mem_iff.mpr (sound.cached.lst_subset page mem)
  · rw [added]
    exact sound.known
  · rw [added]
    exact sound.waiting
  · rw [added]
    exact sound.once
  · rw [added]
    exact sound.never
  · rw [added]
    intro page mem once
    exact (sound.present page mem once).imp_left perm.mem_iff.mpr
  · intro managed
    cases managed
  · intro page mem
    simp only [record, noneCame, List.not_mem_nil, or_self, if_false, perm.length_eq]
    exact sound.waits page (perm.mem_iff.mp mem)

theorem Sound.managed (sound : run.Sound pool) {status : MemoryStatus} {score : ℕ → ℕ}
    (managed : pool.Managed pool' (pool.walk run.score status).lst)
    (full : (pool.walk run.score status).lst.length = 100000)
    (free : ∀ page ∈ pool.tmpCache,
      pool.find (pool.leaves run.score status) (pool.pages page).hashCode = none) :
    { run.record pool pool' (pool.walk run.score status).visited 1 with
      score := score
      moves := fun page => run.moves page +
        (pool.tmpCache.filter fun page => page ∈ pool'.mapCache).count page }.Sound pool' := by
  have sound' : pool'.Sound := managed.reached.preserves sound.cached
    fun _ _ _ _ sound step => sound_next sound step
  have sub : (pool.walk run.score status).lst.Sublist pool.mapCache := lst_sublist sound.midPage
  have nodup : (pool.mapCache ++ pool.tmpCache).Nodup := sound.cached.nodup
  have stay : ∀ page ∈ pool.mapCache.diff (pool.walk run.score status).lst, page ∈ pool.mapCache :=
    (List.diff_sublist _ _).subset
  have fresh : ∀ page ∈ pool.tmpCache, page ∉ pool.mapCache := fun page mem inMap =>
    List.disjoint_of_nodup_append nodup inMap mem
  have allMoved : pool.tmpCache.filter (fun page =>
      pool.find (pool.mapCache.diff (pool.walk run.score status).lst)
        (pool.pages page).hashCode = none) = pool.tmpCache := by
    rw [diff_walk]
    exact List.filter_eq_self.mpr fun page mem => decide_eq_true (free page mem)
  have mapEq : pool'.mapCache =
      pool.mapCache.diff (pool.walk run.score status).lst ++ pool.tmpCache := by
    rw [managed.mapCache, allMoved]
  have inMap : pool.tmpCache.filter (fun page => page ∈ pool'.mapCache) = pool.tmpCache := by
    rw [mapEq]
    exact List.filter_eq_self.mpr fun page mem => decide_eq_true (List.mem_append_right _ mem)
  have cameEq : came pool pool' = pool.tmpCache := came_eq mapEq stay fresh
  have added :
      (run.record pool pool' (pool.walk run.score status).visited 1).added = run.added := by
    simp only [record, created_eq_nil managed.pageNum, List.append_nil]
  rw [inMap]
  have moves : ∀ page ∈ pool.tmpCache, run.moves page + pool.tmpCache.count page = 1 := by
    intro page mem
    rw [(sound.waiting page mem).2, List.count_eq_one_of_mem nodup.of_append_right mem]
  have deleted : ∀ page, (pool'.pages page).deleted = (pool.pages page).deleted +
      (pool.walk run.score status).lst.count page := by
    intro page
    rw [managed.pages]
    rfl
  refine ⟨sound', managed.midPage, managed.stage, ?_, ?_, ?_, ?_, ?_, fun _ => managed.tmpCache, ?_⟩
  · simp only [added, managed.pageNum]
    exact sound.known
  · rw [managed.tmpCache]
    intro page mem
    cases mem
  · simp only [added]
    intro page mem
    by_cases waits : page ∈ pool.tmpCache
    · exact Or.inl (moves page waits)
    · rw [List.count_eq_zero.mpr waits, deleted]
      refine (sound.once page mem).imp_right fun once => ⟨once.1, Or.inr ?_⟩
      have isDeleted := once.2.resolve_left waits
      omega
  · simp only [added]
    intro page notAdded
    have notWaiting : page ∉ pool.tmpCache := fun mem => notAdded (sound.waiting page mem).1
    rw [List.count_eq_zero.mpr notWaiting, sound.never page notAdded]
  · simp only [added, mapEq]
    intro page mem once
    by_cases waits : page ∈ pool.tmpCache
    · exact Or.inl (List.mem_append_right _ waits)
    · rw [List.count_eq_zero.mpr waits] at once
      rw [deleted]
      rcases sound.present page mem once with inMap | isDeleted
      · by_cases selected : page ∈ (pool.walk run.score status).lst
        · have counted := List.count_pos_iff.mpr selected
          exact Or.inr (by omega)
        · exact Or.inl (List.mem_append_left _
            (nodup.of_append_left.mem_sdiff_iff.mpr ⟨inMap, selected⟩))
      · exact Or.inr (by omega)
  · -- the call has deleted as many pages as it had room for in its list
    have split : ((pool.walk run.score status).lst ++
        pool.mapCache.diff (pool.walk run.score status).lst).Perm pool.mapCache :=
      List.subperm_append_diff_self_of_count_le fun page _ => sub.count_le page
    have lengths := split.length_eq
    have lengths' := congrArg List.length mapEq
    simp only [List.length_append, full] at lengths lengths'
    intro page mem
    simp only [record, cameEq, lengths']
    split
    · simp
    · rename_i unseen
      rw [not_or] at unseen
      have stays := (List.mem_append.mp (mapEq ▸ mem)).resolve_right unseen.2
      exact waits_next (sound.waits page (stay page stays)) ((Nat.one_mul _).symm ▸ lengths)

/-- Where new pages are not forgotten, a call finds their places free. -/
theorem Resumes.free {status : MemoryStatus} {score : ℕ → ℕ}
    (resumes : { run.record pool pool' (pool.walk run.score status).visited 1 with
      score := score
      moves := fun page => run.moves page +
        (pool.tmpCache.filter fun page => page ∈ pool'.mapCache).count page }.Resumes pool')
    (sound : run.Sound pool) (managed : pool.Managed pool' (pool.walk run.score status).lst) :
    ∀ page ∈ pool.tmpCache,
      pool.find (pool.leaves run.score status) (pool.pages page).hashCode = none := by
  intro page mem
  by_contra taken
  rw [← diff_walk] at taken
  have known := sound.cached.known page (List.mem_append_right _ mem)
  have notInMap : page ∉ pool.mapCache := fun inMap =>
    List.disjoint_of_nodup_append sound.cached.nodup inMap mem
  have notMoved : page ∉ pool'.mapCache := by
    rw [managed.mapCache]
    intro inMap
    rcases List.mem_append.mp inMap with stays | isMoved
    · exact notInMap ((List.diff_sublist _ _).subset stays)
    · exact taken (of_decide_eq_true (List.mem_filter.mp isMoved).2)
  have unmoved : (pool.tmpCache.filter fun page => page ∈ pool'.mapCache).count page = 0 := by
    rw [List.count_eq_zero, List.mem_filter]
    exact fun isMoved => notMoved (of_decide_eq_true isMoved.2)
  have notSelected : page ∉ (pool.walk run.score status).lst := fun selected =>
    notInMap ((lst_sublist sound.midPage).subset selected)
  rcases sound.waiting page mem with ⟨isAdded, zero⟩
  rcases resumes.once page (List.mem_append_left _ isAdded) with once | ⟨-, waits | isDeleted⟩
  · simp only [unmoved, zero] at once
    omega
  · rw [managed.tmpCache] at waits
    cases waits
  · rw [managed.pages, List.count_eq_zero.mpr notSelected] at isDeleted
    exact isDeleted known.2

theorem Sound.next (sound : run.Sound pool) (isPool : run.pool = some pool) {event : ScanEvent}
    (step : run.next event = some run') (stops : run.Stops event) :
    ∃ pool', run'.pool = some pool' ∧ run'.Sound pool' := by
  cases event with
  | change event =>
      simp only [ScanRun.next, isPool, Option.bind_some] at step
      rcases Option.ite_none_left_eq_some.mp step with ⟨between, step⟩
      rcases Option.map_eq_some_iff.mp step with ⟨pool', changed, rfl⟩
      have sound' := sound_next sound.cached changed
      refine ⟨pool', rfl, ?_⟩
      rcases stops with ⟨pool'', isPool'', takes⟩
      rw [isPool] at isPool''
      cases isPool''
      have between := Bool.eq_false_iff.mpr between
      rcases enlarged_or_cleared between changed with enlarged | cleared
      · exact sound.enlarged sound' enlarged ((noneLost_iff sound.cached between changed).mpr takes)
      · exact sound.cleared sound' cleared
  | initParameters page isLeaf =>
      cases step
      exact ⟨pool, isPool, sound.cached, sound.midPage, sound.stage, sound.known, sound.waiting,
        sound.once, sound.never, sound.present, sound.moved, sound.waits⟩
  | order mapCache =>
      simp only [ScanRun.next, isPool, Option.bind_some, Option.ite_none_right_eq_some] at step
      rcases step with ⟨perm, same⟩
      cases same
      exact ⟨_, rfl, sound.order perm⟩
  | poolManage status =>
      rcases stops with ⟨pool', isPool', stops, free⟩
      rw [isPool] at isPool'
      cases isPool'
      rcases sound.cached.managed sound.midPage sound.stage stops with
        ⟨pool', called, managed, full⟩
      simp only [ScanRun.next, isPool, Option.map_some, called, Option.some.injEq] at step
      cases step
      exact ⟨pool', rfl, sound.managed managed full free⟩

theorem stops_of_resumed (sound : run.Sound pool) (isPool : run.pool = some pool)
    {event : ScanEvent} (step : run.next event = some run') (resumed : run'.Resumed) :
      run.Stops event := by
  cases event with
  | poolManage status =>
      have stops : 100000 ≤ pool.walkFrom.dropLast.countP (pool.chosen run.score status) := by
        by_contra runs
        rcases resumed with ⟨pool', isPool', -⟩
        simp only [ScanRun.next, isPool, Option.map_some, poolManage_eq_none runs,
          Option.some.injEq] at step
        cases step
        cases isPool'
      rcases sound.cached.managed sound.midPage sound.stage stops with ⟨pool', called, managed, -⟩
      simp only [ScanRun.next, isPool, Option.map_some, called, Option.some.injEq] at step
      cases step
      rcases resumed with ⟨pool'', isPool'', resumes⟩
      cases isPool''
      exact ⟨pool, isPool, stops, resumes.free sound managed⟩
  | change event =>
      simp only [ScanRun.next, isPool, Option.bind_some] at step
      rcases Option.ite_none_left_eq_some.mp step with ⟨between, step⟩
      rcases Option.map_eq_some_iff.mp step with ⟨pool', changed, rfl⟩
      have between := Bool.eq_false_iff.mpr between
      refine ⟨pool, isPool, (noneLost_iff sound.cached between changed).mp ?_⟩
      rcases enlarged_or_cleared between changed with enlarged | cleared
      · rcases resumed with ⟨pool'', isPool'', resumes⟩
        cases isPool''
        exact resumes.noneLost sound enlarged
      · intro page le less
        rw [cleared.pageNum] at less
        omega
  | initParameters page isLeaf => trivial
  | order mapCache => trivial

/-- In every run there is no fault, new pages are moved once, and a walk comes to each page in time
exactly as long as each call finds 100000 pages to select in front of the last one of the map, and
new pages find their places free. -/
theorem resumed_iff (events : List ScanEvent) :
    Throughout ScanRun.next Resumed events new ↔ EachStep ScanRun.next Stops events new := by
  have shows : ∀ run : ScanRun, (∃ pool, run.pool = some pool ∧ run.Sound pool) → run.Resumed := by
    rintro run ⟨pool, isPool, sound⟩
    exact ⟨pool, isPool, sound.resumes⟩
  refine throughout_iff_of_sound shows ?_ ?_ events ⟨_, rfl, sound_new⟩
  · rintro run event run' ⟨pool, isPool, sound⟩ step stops
    exact sound.next isPool step stops
  · rintro run event run' ⟨pool, isPool, sound⟩ step resumed
    exact stops_of_resumed sound isPool step resumed

/-- A call with one page in the map reads behind the end. -/
theorem not_resumed : ¬∀ events, Throughout ScanRun.next Resumed events new := by
  intro always
  have run := always [.change (.newTree 5), .change (.getPage 0 0), .poolManage .ample]
  rcases ((run.2 _ rfl).2 _ rfl).2 _ rfl with ⟨pool, isPool, -⟩
  cases isPool

end ScanRun

end RapidDb
