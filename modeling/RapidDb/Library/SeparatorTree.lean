import Mathlib.Data.List.Flatten
import Mathlib.Data.List.Nodup
import Mathlib.Data.List.Perm.Basic
import Mathlib.Logic.Function.Basic
import Mathlib.Order.Lattice

/-!
# Search trees whose pages are linked by separators

A page of such a tree is a name. The leaves hold keys; a page above them holds entries, each a
separator and the page it leads to. The pages of one level, read from left to right, are a
layer, and the entries of a layer lead to the pages of the layer below, in the same order.

What makes search work is a condition between neighbouring layers only. A separator bounds the
keys of its page from above and those of all later pages from below, except that the last page
of a layer has no bound. Above the leaves the bound is exact: the page's last key is the
separator, so that no key can fall between two pages.

A page is split by replacing its entry by several ones. The new separators are the last keys of
the parts, and the last of them is the larger one of the old separator and the last key.
-/

namespace RapidDb

namespace SeparatorTree

variable {ι κ : Type*} [LinearOrder κ]

/-!
## Two neighbouring layers
-/

/-- The separators of a layer bound the contents of the pages they lead to. -/
def Covers (exact : Prop) (contents : ι → List κ) (layer : List (κ × ι)) : Prop :=
  layer.Pairwise fun entry later =>
    (∀ key ∈ contents entry.2, key ≤ entry.1) ∧
      (exact → (contents entry.2).getLast? = some entry.1) ∧
      ∀ key ∈ contents later.2, entry.1 < key

/-- The entry that a key belongs to: the first one whose separator is not smaller, or the last
one. -/
def Owns (key : κ) (layer : List (κ × ι)) (page : ι) : Prop :=
  ∃ left separator right, layer = left ++ (separator, page) :: right ∧
    (∀ entry ∈ left, entry.1 < key) ∧ (right ≠ [] → key ≤ separator)

section Covers

variable {exact : Prop} {contents contents' : ι → List κ} {layer left right : List (κ × ι)}
  {separator key : κ} {page : ι}

theorem covers_congr (same : ∀ entry ∈ layer, contents' entry.2 = contents entry.2) :
    Covers exact contents' layer ↔ Covers exact contents layer := by
  unfold Covers
  constructor <;> intro covers
  all_goals
    refine covers.imp_of_mem ?_
    intro entry later entryMem laterMem bounds
  · rwa [same entry entryMem, same later laterMem] at bounds
  · rwa [same entry entryMem, same later laterMem]

theorem sorted_of_covers (covers : Covers exact contents layer)
    (sorted : ∀ entry ∈ layer, (contents entry.2).Pairwise (· < ·)) :
    ((layer.map Prod.snd).flatMap contents).Pairwise (· < ·) := by
  rw [List.flatMap_map, List.pairwise_flatMap]
  refine ⟨sorted, covers.imp ?_⟩
  rintro entry later ⟨below, -, above⟩ key mem key' mem'
  exact lt_of_le_of_lt (below key mem) (above key' mem')

variable (covers : Covers exact contents (left ++ (separator, page) :: right))

include covers

theorem left_bounds {entry : κ × ι} (mem : entry ∈ left) :
    (∀ key ∈ contents entry.2, key ≤ entry.1) ∧
      (exact → (contents entry.2).getLast? = some entry.1) ∧
      ∀ key ∈ contents page, entry.1 < key :=
  (List.pairwise_append.mp covers).2.2 entry mem _ List.mem_cons_self

theorem right_bounds {entry : κ × ι} (mem : entry ∈ right) :
    (∀ key ∈ contents page, key ≤ separator) ∧
      (exact → (contents page).getLast? = some separator) ∧
      ∀ key ∈ contents entry.2, separator < key :=
  (List.pairwise_cons.mp (List.pairwise_append.mp covers).2.1).1 entry mem

theorem bounds_of_right (notLast : right ≠ []) :
    (∀ key ∈ contents page, key ≤ separator) ∧
      (exact → (contents page).getLast? = some separator) := by
  rcases List.exists_mem_of_ne_nil right notLast with ⟨entry, mem⟩
  exact ⟨(right_bounds covers mem).1, (right_bounds covers mem).2.1⟩

theorem Covers.replace (same : ∀ entry ∈ left ++ right, contents' entry.2 = contents entry.2)
    (above : ∀ entry ∈ left, ∀ key ∈ contents' page, entry.1 < key)
    (below : right ≠ [] → (∀ key ∈ contents' page, key ≤ separator) ∧
      (exact → (contents' page).getLast? = some separator)) :
    Covers exact contents' (left ++ (separator, page) :: right) := by
  have sameLeft : ∀ entry ∈ left, contents' entry.2 = contents entry.2 :=
    fun entry mem => same entry (List.mem_append_left _ mem)
  have sameRight : ∀ entry ∈ right, contents' entry.2 = contents entry.2 :=
    fun entry mem => same entry (List.mem_append_right _ mem)
  have parts := List.pairwise_append.mp covers
  have rest := List.pairwise_cons.mp parts.2.1
  refine List.pairwise_append.mpr ⟨(covers_congr sameLeft).mpr parts.1,
    List.pairwise_cons.mpr ⟨?_, (covers_congr sameRight).mpr rest.2⟩, ?_⟩
  · intro later mem
    rw [sameRight later mem]
    rcases below (List.ne_nil_of_mem mem) with ⟨bounded, last⟩
    exact ⟨bounded, last, (right_bounds covers mem).2.2⟩
  · intro entry entryMem later laterMem
    rw [sameLeft entry entryMem]
    rcases List.mem_cons.mp laterMem with rfl | laterMem
    · rcases left_bounds covers entryMem with ⟨bounded, last, -⟩
      exact ⟨bounded, last, above entry entryMem⟩
    · rw [sameRight later laterMem]
      exact parts.2.2 entry entryMem later (List.mem_cons_of_mem _ laterMem)

end Covers

omit [LinearOrder κ] in
theorem append_cons_cases {front rear before behind : List ι} {x : ι}
    (joined : front ++ rear = before ++ x :: behind) :
    (∃ rest, front = before ++ x :: rest ∧ behind = rest ++ rear) ∨
      ∃ rest, before = front ++ rest ∧ rear = rest ++ x :: behind := by
  rcases List.append_eq_append_iff.mp joined with ⟨rest, beforeEq, rearEq⟩ | ⟨rest, frontEq, restEq⟩
  · exact Or.inr ⟨rest, beforeEq, rearEq⟩
  · cases rest with
    | nil =>
        refine Or.inr ⟨[], ?_, restEq.symm⟩
        rw [List.append_nil, frontEq, List.append_nil]
    | cons y rest =>
        rcases List.cons.inj restEq with ⟨rfl, behindEq⟩
        exact Or.inl ⟨rest, frontEq, behindEq⟩

/-- A key belongs to one entry only. -/
theorem owns_unique {α : Type*} (separator : α → κ) {key : κ} {left right left' right' : List α}
    {entry entry' : α} (same : left ++ entry :: right = left' ++ entry' :: right')
    (smaller : ∀ other ∈ left, separator other < key) (bound : right ≠ [] → key ≤ separator entry)
    (smaller' : ∀ other ∈ left', separator other < key)
    (bound' : right' ≠ [] → key ≤ separator entry') :
    left = left' ∧ entry = entry' ∧ right = right' := by
  rcases append_cons_cases same with ⟨rest, leftEq, rightEq⟩ | ⟨rest, leftEq, rightEq⟩
  · have notLast : right' ≠ [] := by simp [rightEq]
    have entryMem : entry' ∈ left := by simp [leftEq]
    exact absurd (smaller entry' entryMem) (not_lt_of_ge (bound' notLast))
  · cases rest with
    | nil =>
        rcases List.cons.inj rightEq with ⟨entryEq, rightEq⟩
        exact ⟨by simp [leftEq], entryEq, rightEq⟩
    | cons first rest =>
        rcases List.cons.inj rightEq with ⟨rfl, tailEq⟩
        have notLast : right ≠ [] := by
          rw [tailEq]
          exact List.append_ne_nil_of_right_ne_nil rest (List.cons_ne_nil _ _)
        have entryMem : entry ∈ left' := by simp [leftEq]
        exact absurd (smaller' entry entryMem) (not_lt_of_ge (bound notLast))

/-!
## Splitting a page
-/

/-- The entries that take the place of one entry: they lead to the parts of the page's contents,
each under its last key, the last one under the old separator if that is larger. -/
structure SplitEntries (contents : List κ) (contents' : ι → List κ) (separator : κ)
    (entries : List (κ × ι)) : Prop where
  parts : entries.flatMap (fun entry => contents' entry.2) = contents
  separators : ∃ init final last, entries = init ++ [final] ∧
    (∀ entry ∈ init, (contents' entry.2).getLast? = some entry.1) ∧
    (contents' final.2).getLast? = some last ∧ final.1 = max separator last

theorem le_of_getLast? {keys : List κ} {last : κ} (sorted : keys.Pairwise (· < ·))
    (isLast : keys.getLast? = some last) {key : κ} (mem : key ∈ keys) : key ≤ last := by
  rcases List.getLast?_eq_some_iff.mp isLast with ⟨init, rfl⟩
  rcases List.mem_append.mp mem with mem | mem
  · exact le_of_lt ((List.pairwise_append.mp sorted).2.2 key mem last (List.mem_singleton_self _))
  · exact le_of_eq (List.mem_singleton.mp mem)

section SplitEntries

variable {contents : List κ} {contents' : ι → List κ} {separator : κ} {entries : List (κ × ι)}
  (split : SplitEntries contents contents' separator entries)

include split

theorem SplitEntries.mem {entry : κ × ι} (entryMem : entry ∈ entries) {key : κ}
    (mem : key ∈ contents' entry.2) : key ∈ contents := by
  rw [← split.parts]
  exact List.mem_flatMap.mpr ⟨entry, entryMem, mem⟩

theorem SplitEntries.sorted (sorted : contents.Pairwise (· < ·)) {entry : κ × ι}
    (mem : entry ∈ entries) : (contents' entry.2).Pairwise (· < ·) := by
  rw [← split.parts, List.pairwise_flatMap] at sorted
  exact sorted.1 entry mem

/-- The keys of a part are bounded by its separator, which is a bound for the old page as well. -/
theorem SplitEntries.le (sorted : contents.Pairwise (· < ·)) {entry : κ × ι} (mem : entry ∈ entries)
    :
    (∀ key ∈ contents' entry.2, key ≤ entry.1) ∧ ∃ key ∈ contents, key ≤ entry.1 := by
  have partSorted := split.sorted sorted mem
  rcases split.separators with ⟨init, final, last, rfl, initLast, finalLast, finalEq⟩
  have bounded : ∃ key ∈ contents' entry.2, key ≤ entry.1 ∧ ∀ key' ∈ contents' entry.2,
      key' ≤ key := by
    rcases List.mem_append.mp mem with initMem | finalMem
    · exact ⟨entry.1, List.mem_of_getLast? (initLast entry initMem), le_rfl,
        fun key' => le_of_getLast? partSorted (initLast entry initMem)⟩
    · rw [List.mem_singleton.mp finalMem] at partSorted ⊢
      refine ⟨last, List.mem_of_getLast? finalLast, ?_, fun key' =>
        le_of_getLast? partSorted finalLast⟩
      rw [finalEq]
      exact le_max_right separator last
  rcases bounded with ⟨key, keyMem, keyLe, isLast⟩
  exact ⟨fun key' mem' => le_trans (isLast key' mem') keyLe, key, split.mem mem keyMem, keyLe⟩

theorem SplitEntries.nonempty {entry : κ × ι} (mem : entry ∈ entries) : contents' entry.2 ≠ [] := by
  rcases split.separators with ⟨init, final, last, rfl, initLast, finalLast, -⟩
  rcases List.mem_append.mp mem with initMem | finalMem
  · exact List.ne_nil_of_mem (List.mem_of_getLast? (initLast entry initMem))
  · rw [List.mem_singleton.mp finalMem]
    exact List.ne_nil_of_mem (List.mem_of_getLast? finalLast)

/-- The parts come in order: an earlier separator is a key below all later ones. -/
theorem SplitEntries.pairwise (sorted : contents.Pairwise (· < ·)) :
    entries.Pairwise fun entry later =>
      (contents' entry.2).getLast? = some entry.1 ∧ ∀ key ∈ contents' later.2, entry.1 < key := by
  rcases split.separators with ⟨init, final, last, rfl, initLast, finalLast, finalEq⟩
  rw [← split.parts, List.pairwise_flatMap, List.pairwise_append] at sorted
  rcases sorted with ⟨-, initPairs, -, finalPairs⟩
  refine List.pairwise_append.mpr ⟨?_, List.pairwise_singleton _ _, ?_⟩
  · refine initPairs.imp_of_mem fun {entry later} entryMem laterMem apart => ?_
    have isLast := initLast entry entryMem
    exact ⟨isLast, fun key mem => apart _ (List.mem_of_getLast? isLast) key mem⟩
  · intro entry entryMem later laterMem
    have isLast := initLast entry entryMem
    exact ⟨isLast, fun key mem =>
      finalPairs entry entryMem later laterMem _ (List.mem_of_getLast? isLast) key mem⟩

theorem SplitEntries.sorted_separators (sorted : contents.Pairwise (· < ·)) :
    (entries.map Prod.fst).Pairwise (· < ·) := by
  rw [List.pairwise_map]
  refine (split.pairwise sorted).imp_of_mem fun {entry later} entryMem laterMem apart => ?_
  rcases split.separators with ⟨init, final, last, rfl, initLast, finalLast, finalEq⟩
  rcases List.mem_append.mp laterMem with initMem | finalMem
  · exact apart.2 _ (List.mem_of_getLast? (initLast later initMem))
  · rw [List.mem_singleton.mp finalMem] at apart ⊢
    rw [finalEq]
    exact lt_of_lt_of_le (apart.2 _ (List.mem_of_getLast? finalLast)) (le_max_right _ _)

/-- Where the old separator was a bound, it is kept for the last part. -/
theorem SplitEntries.bounded (below : ∀ key ∈ contents, key ≤ separator) :
    (∀ entry ∈ entries, entry.1 ≤ separator) ∧
      (entries.map Prod.fst).getLast? = some separator := by
  have parts := split.parts
  rcases split.separators with ⟨init, final, last, rfl, initLast, finalLast, finalEq⟩
  have lastMem : last ∈ contents := split.mem (by simp) (List.mem_of_getLast? finalLast)
  have finalSep : final.1 = separator := by
    rw [finalEq]
    exact max_eq_left (below last lastMem)
  constructor
  · intro entry mem
    rcases List.mem_append.mp mem with initMem | finalMem
    · exact below _ (split.mem mem (List.mem_of_getLast? (initLast entry initMem)))
    · rw [List.mem_singleton.mp finalMem, finalSep]
  · simp [finalSep]

end SplitEntries

theorem Covers.split {exact : Prop} {contents contents' : ι → List κ}
    {left right entries : List (κ × ι)} {separator : κ} {page : ι}
    (covers : Covers exact contents (left ++ (separator, page) :: right))
    (sorted : (contents page).Pairwise (· < ·))
    (same : ∀ entry ∈ left ++ right, contents' entry.2 = contents entry.2)
    (split : SplitEntries (contents page) contents' separator entries) :
    Covers exact contents' (left ++ (entries ++ right)) := by
  have sameLeft : ∀ entry ∈ left, contents' entry.2 = contents entry.2 :=
    fun entry mem => same entry (List.mem_append_left _ mem)
  have sameRight : ∀ entry ∈ right, contents' entry.2 = contents entry.2 :=
    fun entry mem => same entry (List.mem_append_right _ mem)
  have old := List.pairwise_append.mp covers
  have rest := List.pairwise_cons.mp old.2.1
  refine List.pairwise_append.mpr ⟨(covers_congr sameLeft).mpr old.1,
    List.pairwise_append.mpr ⟨?_, (covers_congr sameRight).mpr rest.2, ?_⟩, ?_⟩
  · refine (split.pairwise sorted).imp_of_mem fun {entry later} entryMem _ apart => ?_
    exact ⟨(split.le sorted entryMem).1, fun _ => apart.1, apart.2⟩
  · intro entry entryMem later laterMem
    rcases right_bounds covers laterMem with ⟨below, last, above⟩
    rw [sameRight later laterMem]
    have sepLe := (split.bounded below).1 entry entryMem
    refine ⟨(split.le sorted entryMem).1, fun isExact => ?_, fun key mem =>
      lt_of_le_of_lt sepLe (above key mem)⟩
    rcases split.separators with ⟨init, final, finalKey, rfl, initLast, finalLast, finalEq⟩
    rcases List.mem_append.mp entryMem with initMem | finalMem
    · exact initLast entry initMem
    · rw [List.mem_singleton.mp finalMem]
      have sameLast : (contents page).getLast? = some finalKey := by
        rw [← split.parts]
        simp [finalLast]
      have keyEq : finalKey = separator := Option.some.inj (sameLast.symm.trans (last isExact))
      rw [finalLast, finalEq, keyEq, max_self]
  · intro entry entryMem later laterMem
    rcases left_bounds covers entryMem with ⟨below, last, above⟩
    rw [sameLeft entry entryMem]
    refine ⟨below, last, fun key mem => ?_⟩
    rcases List.mem_append.mp laterMem with newMem | rightMem
    · exact above key (split.mem newMem mem)
    · rw [sameRight later rightMem] at mem
      exact (old.2.2 entry entryMem later (List.mem_cons_of_mem _ rightMem)).2.2 key mem

/-!
## All layers
-/

/-- The keys of the leaves and the entries of the pages above them. -/
structure Shape (ι κ : Type*) where
  leafKeys : ι → List κ
  entries : ι → List (κ × ι)

namespace Shape

omit [LinearOrder κ]

/-- What is stored in a page of a level, the keys of a leaf or the separators of a page above. -/
def contents (shape : Shape ι κ) (level : ℕ) (page : ι) : List κ :=
  if level = 0 then shape.leafKeys page else (shape.entries page).map Prod.fst

def layerEntries (shape : Shape ι κ) (layer : List ι) : List (κ × ι) :=
  layer.flatMap shape.entries

@[simp]
theorem contents_zero (shape : Shape ι κ) (page : ι) :
    shape.contents 0 page = shape.leafKeys page :=
  rfl

@[simp]
theorem contents_succ (shape : Shape ι κ) (level : ℕ) (page : ι) :
    shape.contents (level + 1) page = (shape.entries page).map Prod.fst :=
  rfl

end Shape

/-- The layers of a tree, from the leaves at level `0` up to the root. -/
structure Layered (shape : Shape ι κ) (root : ι) (height : ℕ) (layer : ℕ → List ι) : Prop where
  top : layer height = [root]
  nodup : ∀ level ≤ height, (layer level).Nodup
  apart : ∀ level ≤ height, ∀ other ≤ height, ∀ page ∈ layer level, page ∈ layer other →
    level = other
  children : ∀ level < height,
    layer level = (shape.layerEntries (layer (level + 1))).map Prod.snd
  nonempty : ∀ level ≤ height, 0 < level → ∀ page ∈ layer level, shape.entries page ≠ []
  sorted : ∀ level ≤ height, ∀ page ∈ layer level, (shape.contents level page).Pairwise (· < ·)
  covers : ∀ level < height,
    Covers (level ≠ 0) (shape.contents level) (shape.layerEntries (layer (level + 1)))

theorem Layered.layer_nonempty {shape : Shape ι κ} {root : ι} {height : ℕ} {layer : ℕ → List ι}
    (layered : Layered shape root height layer) {level : ℕ} (levelLe : level ≤ height) :
    layer level ≠ [] := by
  induction levelLe using Nat.decreasingInduction with
  | self =>
      rw [layered.top]
      exact List.cons_ne_nil _ _
  | of_succ level below ih =>
      rcases List.exists_mem_of_ne_nil _ ih with ⟨page, mem⟩
      have entries := layered.nonempty (level + 1) below (Nat.succ_pos level) page mem
      rcases List.exists_mem_of_ne_nil _ entries with ⟨entry, entryMem⟩
      rw [layered.children level below]
      exact List.ne_nil_of_mem (List.mem_map_of_mem (List.mem_flatMap.mpr ⟨page, mem, entryMem⟩))

section Search

variable {shape : Shape ι κ} {root page : ι} {height level : ℕ} {layer : ℕ → List ι} {key : κ}

/-- The page of a level that a key belongs to. -/
def Owner (shape : Shape ι κ) (root : ι) (height : ℕ) (layer : ℕ → List ι) (key : κ)
    (level : ℕ) (page : ι) : Prop :=
  if level < height then Owns key (shape.layerEntries (layer (level + 1))) page
  else level = height ∧ page = root

theorem owns_eq {entries : List (κ × ι)} {other : ι} (owns : Owns key entries page)
    (owns' : Owns key entries other) : page = other := by
  rcases owns with ⟨left, separator, right, entriesEq, smaller, bound⟩
  rcases owns' with ⟨left', separator', right', entriesEq', smaller', bound'⟩
  rcases List.append_eq_append_iff.mp (entriesEq.symm.trans entriesEq') with
    ⟨between, leftEq, rightEq⟩ | ⟨between, leftEq, rightEq⟩
  · cases between with
    | nil => simp_all
    | cons entry between =>
        rcases List.cons.inj rightEq with ⟨rfl, rest⟩
        have below := smaller' (separator, page) (by simp [leftEq])
        exact absurd (bound (by simp [rest])) (not_le_of_gt below)
  · cases between with
    | nil => simp_all
    | cons entry between =>
        rcases List.cons.inj rightEq with ⟨rfl, rest⟩
        have below := smaller (separator', other) (by simp [leftEq])
        exact absurd (bound' (by simp [rest])) (not_le_of_gt below)

theorem owner_eq {other : ι} (owner : Owner shape root height layer key level page)
    (owner' : Owner shape root height layer key level other) : page = other := by
  unfold Owner at owner owner'
  split at owner
  · next below =>
      rw [if_pos below] at owner'
      exact owns_eq owner owner'
  · next notBelow =>
      rw [if_neg notBelow] at owner'
      exact owner.2.trans owner'.2.symm

theorem owner_root (shape : Shape ι κ) (root : ι) (height : ℕ) (layer : ℕ → List ι) (key : κ) :
    Owner shape root height layer key height root := by
  rw [Owner, if_neg (lt_irrefl height)]
  exact ⟨rfl, rfl⟩

variable (layered : Layered shape root height layer)

include layered

theorem owner_mem (owner : Owner shape root height layer key level page) :
    level ≤ height ∧ page ∈ layer level := by
  unfold Owner at owner
  split at owner
  · next below =>
      rcases owner with ⟨left, separator, right, entriesEq, -, -⟩
      refine ⟨le_of_lt below, ?_⟩
      rw [layered.children level below, entriesEq]
      simp
  · rcases owner with ⟨rfl, rfl⟩
    refine ⟨le_rfl, ?_⟩
    rw [layered.top]
    exact List.mem_singleton_self _

/-- All keys left of the owner are smaller, and the owner itself has a key that is not smaller
unless it is the last page of its level. -/
theorem owner_apart (owner : Owner shape root height layer key (level + 1) page) :
    ∃ before behind, layer (level + 1) = before ++ page :: behind ∧
      (∀ other ∈ before, ∀ entry ∈ shape.entries other, entry.1 < key) ∧
      (behind ≠ [] → ∃ entry ∈ shape.entries page, key ≤ entry.1) := by
  unfold Owner at owner
  split at owner
  · next below =>
      rcases owner with ⟨left, separator, right, entriesEq, smaller, bound⟩
      have covers := layered.covers (level + 1) below
      have children := layered.children (level + 1) below
      rw [entriesEq] at covers children
      refine ⟨left.map Prod.snd, right.map Prod.snd, by simpa using children, ?_, ?_⟩
      · intro other mem entry entryMem
        rcases List.mem_map.mp mem with ⟨upper, upperMem, rfl⟩
        have keyMem : entry.1 ∈ shape.contents (level + 1) upper.2 := List.mem_map_of_mem entryMem
        exact lt_of_le_of_lt ((left_bounds covers upperMem).1 _ keyMem) (smaller upper upperMem)
      · intro notLast
        have rightNonempty : right ≠ [] := by
          rintro rfl
          exact notLast rfl
        have last := (bounds_of_right covers rightNonempty).2 (Nat.succ_ne_zero level)
        rcases List.mem_map.mp (List.mem_of_getLast? last) with ⟨entry, mem, entryEq⟩
        exact ⟨entry, mem, entryEq ▸ bound rightNonempty⟩
  · rcases owner with ⟨levelEq, rfl⟩
    refine ⟨[], [], ?_, by simp, by simp⟩
    rw [levelEq, layered.top]
    rfl

/-- The entry that a key belongs to within its page leads to the owner one level below. -/
theorem owner_child (owner : Owner shape root height layer key (level + 1) page) {child : ι}
    (owns : Owns key (shape.entries page) child) :
    Owner shape root height layer key level child := by
  rcases owner_apart layered owner with ⟨before, behind, layerEq, smaller, bound⟩
  have below : level < height := (owner_mem layered owner).1
  rcases owns with ⟨left, separator, right, entriesEq, leftSmaller, rightBound⟩
  unfold Owner
  rw [if_pos below]
  refine ⟨shape.layerEntries before ++ left, separator, right ++ shape.layerEntries behind,
    ?_, ?_, ?_⟩
  · rw [layerEq]
    simp [Shape.layerEntries, entriesEq]
  · intro entry mem
    rcases List.mem_append.mp mem with mem | mem
    · rcases List.mem_flatMap.mp mem with ⟨other, otherMem, entryMem⟩
      exact smaller other otherMem entry entryMem
    · exact leftSmaller entry mem
  · intro notLast
    by_cases rightNonempty : right = []
    · have behindNonempty : behind ≠ [] := by
        rintro rfl
        exact notLast (by simp [rightNonempty, Shape.layerEntries])
      rcases bound behindNonempty with ⟨entry, entryMem, keyLe⟩
      rw [entriesEq, rightNonempty, List.mem_append, List.mem_singleton] at entryMem
      rcases entryMem with leftMem | rfl
      · exact absurd (leftSmaller entry leftMem) (not_lt_of_ge keyLe)
      · exact keyLe
    · exact rightBound rightNonempty

/-- A key that is stored in a leaf is stored in the leaf it belongs to. -/
theorem owner_unique (owner : Owner shape root height layer key 0 page) {leaf : ι}
    (mem : leaf ∈ layer 0) (stored : key ∈ shape.leafKeys leaf) : leaf = page := by
  unfold Owner at owner
  split at owner
  · next below =>
      rcases owner with ⟨left, separator, right, entriesEq, smaller, bound⟩
      have covers := layered.covers 0 below
      have children := layered.children 0 below
      rw [entriesEq] at covers children
      rw [children, List.map_append, List.mem_append, List.map_cons, List.mem_cons] at mem
      rcases mem with mem | rfl | mem
      · rcases List.mem_map.mp mem with ⟨entry, entryMem, rfl⟩
        exact absurd (smaller entry entryMem)
          (not_lt_of_ge ((left_bounds covers entryMem).1 key stored))
      · rfl
      · rcases List.mem_map.mp mem with ⟨entry, entryMem, rfl⟩
        exact absurd ((right_bounds covers entryMem).2.2 key stored)
          (not_lt_of_ge (bound (List.ne_nil_of_mem entryMem)))
  · rcases owner with ⟨levelEq, rfl⟩
    rw [levelEq, layered.top, List.mem_singleton] at mem
    exact mem

/-- What the pages of a layer contain, in their order. -/
theorem Layered.sorted_contents (levelLe : level ≤ height) :
    ((layer level).flatMap (shape.contents level)).Pairwise (· < ·) := by
  rcases Nat.lt_or_eq_of_le levelLe with below | rfl
  · have children := layered.children level below
    rw [children]
    refine sorted_of_covers (layered.covers level below) ?_
    intro entry mem
    refine layered.sorted level levelLe entry.2 ?_
    rw [children]
    exact List.mem_map_of_mem mem
  · have sorted := layered.sorted level le_rfl
    rw [layered.top] at sorted ⊢
    simpa using sorted root (List.mem_singleton_self root)

theorem sorted_leaves : ((layer 0).flatMap shape.leafKeys).Pairwise (· < ·) :=
  layered.sorted_contents (Nat.zero_le height)

end Search

/-!
## Changing the tree
-/

section Insert

variable {shape shape' : Shape ι κ} {root page : ι} {height : ℕ} {layer : ℕ → List ι} {key : κ}

/-- A key is inserted into the leaf it belongs to. -/
theorem Layered.insert (layered : Layered shape root height layer)
    (owner : Owner shape root height layer key 0 page) {before behind : List κ}
    (keysEq : shape.leafKeys page = before ++ behind)
    (above : ∀ other ∈ before, other < key) (below : ∀ other ∈ behind, key < other)
    (inserted : shape'.leafKeys page = before ++ key :: behind)
    (others : ∀ other, other ≠ page → shape'.leafKeys other = shape.leafKeys other)
    (sameEntries : shape'.entries = shape.entries) :
    Layered shape' root height layer := by
  have sameLayer : ∀ pages, shape'.layerEntries pages = shape.layerEntries pages := by
    intro pages
    simp only [Shape.layerEntries, sameEntries]
  have pageMem := (owner_mem layered owner).2
  refine ⟨layered.top, layered.nodup, layered.apart, ?_, ?_, ?_, ?_⟩
  · intro level levelLt
    rw [sameLayer]
    exact layered.children level levelLt
  · rw [sameEntries]
    exact layered.nonempty
  · intro level levelLe other mem
    have sorted := layered.sorted level levelLe other mem
    cases level with
    | succ level => simpa only [Shape.contents_succ, sameEntries] using sorted
    | zero =>
        rw [Shape.contents_zero] at sorted ⊢
        by_cases same : other = page
        · subst same
          rw [keysEq, List.pairwise_append] at sorted
          rw [inserted, List.pairwise_append, List.pairwise_cons]
          refine ⟨sorted.1, ⟨below, sorted.2.1⟩, fun left leftMem right rightMem => ?_⟩
          rcases List.mem_cons.mp rightMem with rfl | rightMem
          · exact above left leftMem
          · exact sorted.2.2 left leftMem right rightMem
        · rwa [others other same]
  · intro level levelLt
    have covers := layered.covers level levelLt
    rw [sameLayer]
    cases level with
    | succ level =>
        refine (covers_congr ?_).mpr covers
        intro entry _
        simp only [Shape.contents_succ, sameEntries]
    | zero =>
        unfold Owner at owner
        rw [if_pos levelLt] at owner
        rcases owner with ⟨left, separator, right, entriesEq, smaller, bound⟩
        have nodup := layered.nodup 0 (Nat.zero_le _)
        rw [layered.children 0 levelLt, entriesEq] at nodup
        rw [entriesEq] at covers ⊢
        have notSame : ∀ entry ∈ left ++ right, entry.2 ≠ page := by
          intro entry mem same
          have split := List.nodup_middle.mp (by simpa using nodup)
          apply (List.nodup_cons.mp split).1
          rw [← List.map_append, ← same]
          exact List.mem_map_of_mem mem
        have keyMem : ∀ other ∈ before ++ key :: behind,
            other = key ∨ other ∈ shape.leafKeys page := by
          intro other mem
          rw [keysEq]
          simp only [List.mem_append, List.mem_cons] at mem ⊢
          tauto
        refine covers.replace ?_ ?_ ?_
        · intro entry mem
          exact others entry.2 (notSame entry mem)
        · intro entry mem other otherMem
          rw [Shape.contents_zero, inserted] at otherMem
          rcases keyMem other otherMem with rfl | otherMem
          · exact smaller entry mem
          · exact (left_bounds covers mem).2.2 other otherMem
        · intro notLast
          refine ⟨fun other otherMem => ?_, fun exact => absurd rfl exact⟩
          rw [Shape.contents_zero, inserted] at otherMem
          rcases keyMem other otherMem with rfl | otherMem
          · exact bound notLast
          · exact (bounds_of_right covers notLast).1 other otherMem

end Insert

/-- A page of a level is split: its entry in its parent is replaced, the parts go to the page
itself and to fresh pages, and everything else stays as it is. -/
structure PageSplit (shape shape' : Shape ι κ) (height : ℕ) (layer : ℕ → List ι) (level : ℕ)
    (parent page : ι) (fresh : List ι) (separator : κ) (left right entries : List (κ × ι)) :
    Prop where
  below : level < height
  parentMem : parent ∈ layer (level + 1)
  parentOld : shape.entries parent = left ++ (separator, page) :: right
  parentNew : shape'.entries parent = left ++ (entries ++ right)
  pages : entries.map Prod.snd = page :: fresh
  freshNodup : fresh.Nodup
  freshNew : ∀ new ∈ fresh, ∀ other ≤ height, new ∉ layer other
  split : SplitEntries (shape.contents level page) (shape'.contents level) separator entries
  children : 0 < level → shape'.layerEntries (page :: fresh) = shape.entries page
  leafFrame : ∀ other, other ≠ page → other ∉ fresh → shape'.leafKeys other = shape.leafKeys other
  frame : ∀ other, other ≠ page → other ≠ parent → other ∉ fresh →
    shape'.entries other = shape.entries other

section Split

variable {shape shape' : Shape ι κ} {root : ι} {height level : ℕ} {layer : ℕ → List ι}
  {parent page : ι} {fresh : List ι} {separator : κ} {left right entries : List (κ × ι)}

def splitLayer (layer : ℕ → List ι) (level : ℕ) (before : List ι) (page : ι)
    (fresh behind : List ι) : ℕ → List ι :=
  Function.update layer level (before ++ page :: (fresh ++ behind))

theorem PageSplit.mem_splitLayer {before behind : List ι}
    (layerEq : layer level = before ++ page :: behind) {other : ℕ} {x : ι}
    (mem : x ∈ splitLayer layer level before page fresh behind other) :
    x ∈ layer other ∨ other = level ∧ x ∈ fresh := by
  by_cases same : other = level
  · subst same
    rw [splitLayer, Function.update_self] at mem
    rw [layerEq]
    simp only [List.mem_append, List.mem_cons] at mem ⊢
    tauto
  · rw [splitLayer, Function.update_of_ne same] at mem
    exact Or.inl mem

section

variable (layered : Layered shape root height layer)
  (split : PageSplit shape shape' height layer level parent page fresh separator left right entries)

include split

/-- Pages of the layer that is split other than the page itself keep their entries. -/
theorem PageSplit.entries_of_mem {other : ι} {level' : ℕ} (levelLe : level' ≤ height)
    (mem : other ∈ layer level') (notPage : other ≠ page) (notParent : other ≠ parent) :
    shape'.entries other = shape.entries other :=
  split.frame other notPage notParent fun isFresh => split.freshNew other isFresh level' levelLe mem

theorem PageSplit.contents_of_mem {other : ι} {level' : ℕ} (levelLe : level' ≤ height)
    (mem : other ∈ layer level') (notPage : other ≠ page) (notParent : other ≠ parent) :
    shape'.contents level' other = shape.contents level' other := by
  have notFresh : other ∉ fresh := fun isFresh => split.freshNew other isFresh level' levelLe mem
  cases level' with
  | zero => exact split.leafFrame other notPage notFresh
  | succ level' => simp only [Shape.contents_succ, split.frame other notPage notParent notFresh]

include layered

theorem PageSplit.pageMem : page ∈ layer level := by
  rw [layered.children level split.below]
  refine List.mem_map.mpr ⟨(separator, page), List.mem_flatMap.mpr ⟨parent, split.parentMem, ?_⟩,
    rfl⟩
  rw [split.parentOld]
  exact List.mem_append_right _ List.mem_cons_self

theorem PageSplit.ne_page {other : ι} {level' : ℕ} (levelLe : level' ≤ height)
    (mem : other ∈ layer level') (different : level' ≠ level) : other ≠ page := by
  rintro rfl
  exact different
    (layered.apart level' levelLe level (le_of_lt split.below) other mem (split.pageMem layered))

theorem PageSplit.ne_parent {other : ι} {level' : ℕ} (levelLe : level' ≤ height)
    (mem : other ∈ layer level') (different : level' ≠ level + 1) : other ≠ parent := by
  rintro rfl
  exact different
    (layered.apart level' levelLe (level + 1) split.below other mem split.parentMem)

theorem PageSplit.layerEntries_of_ne {level' : ℕ} (levelLe : level' ≤ height)
    (notLevel : level' ≠ level) (notParent : level' ≠ level + 1) :
    shape'.layerEntries (layer level') = shape.layerEntries (layer level') :=
  List.flatMap_congr fun _ mem => split.entries_of_mem levelLe mem
    (split.ne_page layered levelLe mem notLevel) (split.ne_parent layered levelLe mem notParent)

/-- The entries of the parent's layer around the one that is replaced. -/
theorem PageSplit.layerEntries_parent {pagesLeft pagesRight : List ι}
    (layerEq : layer (level + 1) = pagesLeft ++ parent :: pagesRight) :
    shape.layerEntries (layer (level + 1)) =
        (shape.layerEntries pagesLeft ++ left) ++
          (separator, page) :: (right ++ shape.layerEntries pagesRight) ∧
      shape'.layerEntries (layer (level + 1)) =
        (shape.layerEntries pagesLeft ++ left) ++
          (entries ++ (right ++ shape.layerEntries pagesRight)) := by
  have nodup := layered.nodup (level + 1) split.below
  rw [layerEq] at nodup
  have sameEntries : ∀ other ∈ pagesLeft ++ pagesRight,
      shape'.entries other = shape.entries other := by
    intro other mem
    have otherMem : other ∈ layer (level + 1) := by
      rw [layerEq]
      simp only [List.mem_append, List.mem_cons] at mem ⊢
      tauto
    refine split.entries_of_mem split.below otherMem
      (split.ne_page layered split.below otherMem (Nat.succ_ne_self level)) ?_
    rintro rfl
    exact (List.nodup_cons.mp (List.nodup_middle.mp nodup)).1 mem
  have sameLeft : shape'.layerEntries pagesLeft = shape.layerEntries pagesLeft :=
    List.flatMap_congr fun other mem => sameEntries other (List.mem_append_left _ mem)
  have sameRight : shape'.layerEntries pagesRight = shape.layerEntries pagesRight :=
    List.flatMap_congr fun other mem => sameEntries other (List.mem_append_right _ mem)
  constructor
  · rw [layerEq]
    simp [Shape.layerEntries, split.parentOld]
  · rw [layerEq, ← sameLeft, ← sameRight]
    simp [Shape.layerEntries, split.parentNew]

theorem PageSplit.layerEntries_split {before behind : List ι}
    (layerEq : layer level = before ++ page :: behind) (positive : 0 < level) :
    shape'.layerEntries (before ++ page :: (fresh ++ behind)) =
      shape.layerEntries (layer level) := by
  have levelLe := le_of_lt split.below
  have nodup := layered.nodup level levelLe
  rw [layerEq] at nodup
  have sameEntries : ∀ other ∈ before ++ behind, shape'.entries other = shape.entries other := by
    intro other mem
    have otherMem : other ∈ layer level := by
      rw [layerEq]
      simp only [List.mem_append, List.mem_cons] at mem ⊢
      tauto
    refine split.entries_of_mem levelLe otherMem ?_
      (split.ne_parent layered levelLe otherMem (Nat.ne_of_lt (Nat.lt_succ_self level)))
    rintro rfl
    exact (List.nodup_cons.mp (List.nodup_middle.mp nodup)).1 mem
  have sameLeft : shape'.layerEntries before = shape.layerEntries before :=
    List.flatMap_congr fun other mem => sameEntries other (List.mem_append_left _ mem)
  have sameRight : shape'.layerEntries behind = shape.layerEntries behind :=
    List.flatMap_congr fun other mem => sameEntries other (List.mem_append_right _ mem)
  have middle := split.children positive
  simp only [Shape.layerEntries, List.flatMap_cons] at middle sameLeft sameRight
  rw [layerEq]
  simp [Shape.layerEntries, sameLeft, sameRight, ← middle]

/-- A new separator lies above all that was left of the old one, and below all that was right of
it. -/
theorem PageSplit.between {before behind : List (κ × ι)}
    (entriesEq : shape.layerEntries (layer (level + 1)) = before ++ (separator, page) :: behind)
    {entry : κ × ι} (mem : entry ∈ entries) :
    (∀ other ∈ before, other.1 < entry.1) ∧
      (behind ≠ [] → (∀ key ∈ shape.contents level page, key ≤ separator) ∧
        entry.1 ≤ separator) := by
  have covers := layered.covers level split.below
  have sorted := layered.sorted level (le_of_lt split.below) page (split.pageMem layered)
  rw [entriesEq] at covers
  constructor
  · intro other otherMem
    rcases (split.split.le sorted mem).2 with ⟨key, keyMem, keyLe⟩
    exact lt_of_lt_of_le ((left_bounds covers otherMem).2.2 key keyMem) keyLe
  · intro notLast
    have below := (bounds_of_right covers notLast).1
    exact ⟨below, (split.split.bounded below).1 entry mem⟩

theorem PageSplit.sorted_parent : ((shape'.entries parent).map Prod.fst).Pairwise (· < ·) := by
  rcases List.append_of_mem split.parentMem with ⟨pagesLeft, pagesRight, layerEq⟩
  have entriesEq := (split.layerEntries_parent layered layerEq).1
  have old := layered.sorted (level + 1) split.below parent split.parentMem
  have pageSorted := layered.sorted level (le_of_lt split.below) page (split.pageMem layered)
  rw [Shape.contents_succ, split.parentOld, List.pairwise_map, List.pairwise_append,
    List.pairwise_cons] at old
  rcases old with ⟨leftSorted, ⟨rightAbove, rightSorted⟩, leftBelow⟩
  have newSorted := split.split.sorted_separators pageSorted
  rw [List.pairwise_map] at newSorted
  rw [split.parentNew, List.pairwise_map, List.pairwise_append, List.pairwise_append]
  refine ⟨leftSorted, ⟨newSorted, rightSorted, fun entry mem other otherMem => ?_⟩,
    fun other otherMem entry mem => ?_⟩
  · have between := (split.between layered entriesEq mem).2
    refine lt_of_le_of_lt (between ?_).2 (rightAbove other otherMem)
    exact List.ne_nil_of_mem (List.mem_append_left _ otherMem)
  · rcases List.mem_append.mp mem with mem | mem
    · exact (split.between layered entriesEq mem).1 other (List.mem_append_right _ otherMem)
    · exact leftBelow other otherMem entry (List.mem_cons_of_mem _ mem)

theorem PageSplit.covers_parent (below : level + 1 < height) :
    Covers (level + 1 ≠ 0) (shape'.contents (level + 1))
      (shape.layerEntries (layer (level + 2))) := by
  have covers := layered.covers (level + 1) below
  have children := layered.children (level + 1) below
  have nodup := layered.nodup (level + 1) split.below
  have parentMem := split.parentMem
  rw [children] at parentMem nodup
  rcases List.mem_map.mp parentMem with ⟨⟨upper, parent'⟩, upperMem, rfl⟩
  rcases List.append_of_mem upperMem with ⟨uppersLeft, uppersRight, upperEq⟩
  rw [upperEq] at covers children nodup ⊢
  rw [List.map_append, List.map_cons] at children nodup
  rcases split.layerEntries_parent layered children with ⟨entriesEq, -⟩
  have notParent := (List.nodup_cons.mp (List.nodup_middle.mp nodup)).1
  have exact := Nat.succ_ne_zero level
  refine covers.replace ?_ ?_ ?_
  · intro entry mem
    have entryMem : entry.2 ∈ uppersLeft.map Prod.snd ++ uppersRight.map Prod.snd := by
      rw [← List.map_append]
      exact List.mem_map_of_mem mem
    have layerMem : entry.2 ∈ layer (level + 1) := by
      rw [children]
      simp only [List.mem_append, List.mem_cons] at entryMem ⊢
      tauto
    refine split.contents_of_mem split.below layerMem
      (split.ne_page layered split.below layerMem (Nat.succ_ne_self level)) ?_
    rintro same
    exact notParent (same ▸ entryMem)
  · intro entry mem key keyMem
    rcases left_bounds covers mem with ⟨-, last, above⟩
    rw [Shape.contents_succ, split.parentNew] at keyMem
    rcases List.mem_map.mp keyMem with ⟨new, newMem, rfl⟩
    have isOld : new ∈ shape.entries parent' → entry.1 < new.1 := fun oldMem =>
      above new.1 (List.mem_map_of_mem oldMem)
    rw [split.parentOld] at isOld
    simp only [List.mem_append, List.mem_cons] at newMem isOld
    rcases newMem with leftMem | newMem | rightMem
    · exact isOld (Or.inl leftMem)
    · rcases List.mem_map.mp (List.mem_of_getLast? (last exact)) with ⟨lower, lowerMem, lowerEq⟩
      rw [← lowerEq]
      refine (split.between layered entriesEq newMem).1 lower (List.mem_append_left _ ?_)
      exact List.mem_flatMap.mpr ⟨entry.2, List.mem_map_of_mem mem, lowerMem⟩
    · exact isOld (Or.inr (Or.inr rightMem))
  · intro notLast
    rcases bounds_of_right covers notLast with ⟨bounded, last⟩
    have oldLast := last exact
    have behind : right ++ shape.layerEntries (uppersRight.map Prod.snd) ≠ [] := by
      rcases List.exists_mem_of_ne_nil _ notLast with ⟨entry, entryMem⟩
      have layerMem : entry.2 ∈ layer (level + 1) := by
        rw [children]
        exact List.mem_append_right _ (List.mem_cons_of_mem _ (List.mem_map_of_mem entryMem))
      have nonempty := layered.nonempty (level + 1) split.below (Nat.succ_pos _) entry.2 layerMem
      rcases List.exists_mem_of_ne_nil _ nonempty with ⟨lower, lowerMem⟩
      have lowerIn : lower ∈ shape.layerEntries (uppersRight.map Prod.snd) :=
        List.mem_flatMap.mpr ⟨entry.2, List.mem_map_of_mem entryMem, lowerMem⟩
      exact List.ne_nil_of_mem (List.mem_append_right _ lowerIn)
    rw [Shape.contents_succ, split.parentOld] at bounded oldLast
    have separatorLe : separator ≤ upper := bounded separator (by simp)
    rw [Shape.contents_succ, split.parentNew]
    constructor
    · intro key keyMem
      rcases List.mem_map.mp keyMem with ⟨new, newMem, rfl⟩
      simp only [List.mem_append] at newMem
      rcases newMem with leftMem | newMem | rightMem
      · refine bounded new.1 (List.mem_map_of_mem ?_)
        exact List.mem_append_left _ leftMem
      · exact le_trans ((split.between layered entriesEq newMem).2 behind).2 separatorLe
      · refine bounded new.1 (List.mem_map_of_mem ?_)
        exact List.mem_append_right _ (List.mem_cons_of_mem _ rightMem)
    · intro _
      rcases List.eq_nil_or_concat right with rfl | ⟨init, final, rfl⟩
      · have below : ∀ key ∈ shape.contents level page, key ≤ separator := by
          have lowerCovers := layered.covers level split.below
          rw [entriesEq] at lowerCovers
          exact (bounds_of_right lowerCovers behind).1
        have newLast := (split.split.bounded below).2
        simp only [List.map_append, List.map_cons, List.map_nil, List.getLast?_append,
          List.getLast?_singleton, List.append_nil] at oldLast ⊢
        rw [newLast]
        simpa using oldLast
      · simpa [List.getLast?_append, List.getLast?_cons] using oldLast

theorem PageSplit.nodup_splitLayer {before behind : List ι}
    (layerEq : layer level = before ++ page :: behind) {other : ℕ} (otherLe : other ≤ height) :
    (splitLayer layer level before page fresh behind other).Nodup := by
  have nodup := layered.nodup other otherLe
  by_cases same : other = level
  · subst same
    have disjoint : ∀ x ∈ fresh, x ∉ before ++ page :: behind := by
      intro x isFresh mem
      exact split.freshNew x isFresh other otherLe (layerEq ▸ mem)
    have reorder : (before ++ page :: (fresh ++ behind)).Perm
        (fresh ++ (before ++ page :: behind)) := by
      have inner : (page :: (fresh ++ behind)).Perm (fresh ++ page :: behind) :=
        List.perm_middle.symm
      refine (inner.append_left before).trans ?_
      rw [← List.append_assoc, ← List.append_assoc]
      exact List.perm_append_comm.append_right _
    rw [splitLayer, Function.update_self, reorder.nodup_iff, List.nodup_append]
    refine ⟨split.freshNodup, layerEq ▸ nodup, ?_⟩
    rintro x isFresh _ mem rfl
    exact disjoint x isFresh mem
  · rw [splitLayer, Function.update_of_ne same]
    exact nodup

theorem PageSplit.layerEntries_splitLayer {before behind : List ι}
    (layerEq : layer level = before ++ page :: behind) {lower : ℕ} (lowerLt : lower < height)
    (notLevel : lower ≠ level) :
    shape'.layerEntries (splitLayer layer level before page fresh behind (lower + 1)) =
      shape.layerEntries (layer (lower + 1)) := by
  by_cases same : lower + 1 = level
  · rw [same, splitLayer, Function.update_self]
    exact split.layerEntries_split layered layerEq (by omega)
  · rw [splitLayer, Function.update_of_ne same]
    exact split.layerEntries_of_ne layered lowerLt same (by omega)

/-- The entries of the parent's layer: one is replaced, and the last new separator is the old one
unless it is the last of the layer. -/
theorem PageSplit.entries_replaced (before behind : List ι) :
    ∃ front rear, shape.layerEntries (layer (level + 1)) = front ++ (separator, page) :: rear ∧
      shape'.layerEntries (splitLayer layer level before page fresh behind (level + 1)) =
        front ++ (entries ++ rear) ∧
      (rear ≠ [] → (entries.map Prod.fst).getLast? = some separator) := by
  rcases List.append_of_mem split.parentMem with ⟨pagesLeft, pagesRight, upperEq⟩
  rcases split.layerEntries_parent layered upperEq with ⟨oldEntries, newEntries⟩
  refine ⟨_, _, oldEntries, ?_, ?_⟩
  · rw [splitLayer, Function.update_of_ne (Nat.succ_ne_self level)]
    exact newEntries
  · intro notLast
    have covers := layered.covers level split.below
    rw [oldEntries] at covers
    exact (split.split.bounded (bounds_of_right covers notLast).1).2

theorem PageSplit.nonempty {other : ℕ} {x : ι} (positive : 0 < other) (otherLe : other ≤ height)
    (mem : x ∈ layer other ∨ other = level ∧ x ∈ fresh) : shape'.entries x ≠ [] := by
  by_cases part : other = level ∧ x ∈ page :: fresh
  · rcases part with ⟨rfl, isPart⟩
    rw [← split.pages] at isPart
    rcases List.mem_map.mp isPart with ⟨entry, entryMem, rfl⟩
    have nonempty := split.split.nonempty entryMem
    rcases other with _ | other
    · omega
    · intro empty
      rw [Shape.contents_succ, empty] at nonempty
      exact nonempty rfl
  · have notFresh : ¬(other = level ∧ x ∈ fresh) := fun fresh =>
      part ⟨fresh.1, List.mem_cons_of_mem _ fresh.2⟩
    have old := mem.resolve_right notFresh
    by_cases isParent : x = parent
    · rw [isParent, split.parentNew]
      rcases split.split.separators with ⟨init, final, last, rfl, -⟩
      simp
    · have notPage : x ≠ page := by
        rintro rfl
        refine part ⟨?_, List.mem_cons_self⟩
        exact layered.apart other otherLe level (le_of_lt split.below) x old
          (split.pageMem layered)
      rw [split.entries_of_mem otherLe old notPage isParent]
      exact layered.nonempty other otherLe positive x old

theorem PageSplit.sorted {other : ℕ} {x : ι} (otherLe : other ≤ height)
    (mem : x ∈ layer other ∨ other = level ∧ x ∈ fresh) :
    (shape'.contents other x).Pairwise (· < ·) := by
  by_cases part : other = level ∧ x ∈ page :: fresh
  · rcases part with ⟨rfl, isPart⟩
    rw [← split.pages] at isPart
    rcases List.mem_map.mp isPart with ⟨entry, entryMem, rfl⟩
    exact split.split.sorted (layered.sorted other otherLe page (split.pageMem layered)) entryMem
  · have notFresh : ¬(other = level ∧ x ∈ fresh) := fun fresh =>
      part ⟨fresh.1, List.mem_cons_of_mem _ fresh.2⟩
    have old := mem.resolve_right notFresh
    by_cases isParent : x = parent
    · subst isParent
      have levelEq := layered.apart other otherLe (level + 1) split.below x old split.parentMem
      subst levelEq
      exact split.sorted_parent layered
    · have notPage : x ≠ page := by
        rintro rfl
        refine part ⟨?_, List.mem_cons_self⟩
        exact layered.apart other otherLe level (le_of_lt split.below) x old
          (split.pageMem layered)
      rw [split.contents_of_mem otherLe old notPage isParent]
      exact layered.sorted other otherLe x old

theorem PageSplit.covers_of_ne {lower : ℕ} (lowerLt : lower < height) (notLevel : lower ≠ level) :
    Covers (lower ≠ 0) (shape'.contents lower) (shape.layerEntries (layer (lower + 1))) := by
  by_cases isParent : lower = level + 1
  · subst isParent
    exact split.covers_parent layered lowerLt
  · refine (covers_congr ?_).mpr (layered.covers lower lowerLt)
    intro entry mem
    have lowerLe := le_of_lt lowerLt
    have layerMem : entry.2 ∈ layer lower := by
      rw [layered.children lower lowerLt]
      exact List.mem_map_of_mem mem
    exact split.contents_of_mem lowerLe layerMem (split.ne_page layered lowerLe layerMem notLevel)
      (split.ne_parent layered lowerLe layerMem isParent)

end

/-- A split keeps the tree layered: the split layer gets the fresh pages behind the page. -/
theorem Layered.split (layered : Layered shape root height layer)
    (split : PageSplit shape shape' height layer level parent page fresh separator left right
      entries) :
    ∃ before behind, layer level = before ++ page :: behind ∧
      Layered shape' root height (splitLayer layer level before page fresh behind) := by
  have levelLe := le_of_lt split.below
  have pageSorted := layered.sorted level levelLe page (split.pageMem layered)
  rcases List.append_of_mem split.parentMem with ⟨pagesLeft, pagesRight, upperEq⟩
  rcases split.layerEntries_parent layered upperEq with ⟨oldEntries, newEntries⟩
  generalize shape.layerEntries pagesLeft ++ left = before at oldEntries newEntries
  generalize right ++ shape.layerEntries pagesRight = behind at oldEntries newEntries
  have layerEq : layer level = before.map Prod.snd ++ page :: behind.map Prod.snd := by
    rw [layered.children level split.below, oldEntries]
    simp
  have upperKept : splitLayer layer level (before.map Prod.snd) page fresh
      (behind.map Prod.snd) (level + 1) = layer (level + 1) :=
    Function.update_of_ne (Nat.succ_ne_self level) _ _
  refine ⟨before.map Prod.snd, behind.map Prod.snd, layerEq, ?_, ?_, ?_, ?_, ?_, ?_, ?_⟩
  · rw [splitLayer, Function.update_of_ne (Nat.ne_of_gt split.below)]
    exact layered.top
  · exact fun other otherLe => split.nodup_splitLayer layered layerEq otherLe
  · intro one oneLe other otherLe x oneMem otherMem
    rcases PageSplit.mem_splitLayer layerEq oneMem with oneOld | ⟨rfl, isFresh⟩
    · rcases PageSplit.mem_splitLayer layerEq otherMem with otherOld | ⟨rfl, isFresh⟩
      · exact layered.apart one oneLe other otherLe x oneOld otherOld
      · exact absurd oneOld (split.freshNew x isFresh one oneLe)
    · rcases PageSplit.mem_splitLayer layerEq otherMem with otherOld | ⟨rfl, -⟩
      · exact absurd otherOld (split.freshNew x isFresh other otherLe)
      · rfl
  · intro lower lowerLt
    by_cases same : lower = level
    · subst same
      rw [upperKept, newEntries, splitLayer, Function.update_self]
      simp [split.pages]
    · rw [split.layerEntries_splitLayer layered layerEq lowerLt same, splitLayer,
        Function.update_of_ne same]
      exact layered.children lower lowerLt
  · intro other otherLe positive x mem
    exact split.nonempty layered positive otherLe (PageSplit.mem_splitLayer layerEq mem)
  · intro other otherLe x mem
    exact split.sorted layered otherLe (PageSplit.mem_splitLayer layerEq mem)
  · intro lower lowerLt
    by_cases same : lower = level
    · subst same
      rw [upperKept, newEntries]
      have covers := layered.covers lower lowerLt
      have nodup := layered.nodup lower levelLe
      rw [oldEntries] at covers
      rw [layerEq] at nodup
      refine covers.split pageSorted ?_ split.split
      intro entry mem
      have entryMem : entry.2 ∈ before.map Prod.snd ++ behind.map Prod.snd := by
        rw [← List.map_append]
        exact List.mem_map_of_mem mem
      have layerMem : entry.2 ∈ layer lower := by
        rw [layerEq]
        simp only [List.mem_append, List.mem_cons] at entryMem ⊢
        tauto
      refine split.contents_of_mem levelLe layerMem ?_
        (split.ne_parent layered levelLe layerMem (Nat.ne_of_lt (Nat.lt_succ_self lower)))
      intro same
      exact (List.nodup_cons.mp (List.nodup_middle.mp nodup)).1 (same ▸ entryMem)
    · rw [split.layerEntries_splitLayer layered layerEq lowerLt same]
      exact split.covers_of_ne layered lowerLt same

theorem Layered.grow (layered : Layered shape root height layer) {root' : ι} {separator : κ}
    (new : ∀ level ≤ height, root' ∉ layer level)
    (rootEntries : shape'.entries root' = [(separator, root)])
    (frame : ∀ level ≤ height, ∀ page ∈ layer level,
      shape'.leafKeys page = shape.leafKeys page ∧ shape'.entries page = shape.entries page) :
    Layered shape' root' (height + 1) (Function.update layer (height + 1) [root']) := by
  have topLayer : Function.update layer (height + 1) [root'] (height + 1) = [root'] :=
    Function.update_self ..
  have kept : ∀ level ≤ height, Function.update layer (height + 1) [root'] level = layer level :=
    fun level levelLe => Function.update_of_ne (by omega) _ _
  have cases_level : ∀ level ≤ height + 1, level ≤ height ∨ level = height + 1 := by
    intro level levelLe
    omega
  have sameContents : ∀ level ≤ height, ∀ page ∈ layer level,
      shape'.contents level page = shape.contents level page := by
    intro level levelLe page mem
    rcases frame level levelLe page mem with ⟨sameKeys, sameEntries⟩
    cases level with
    | zero => exact sameKeys
    | succ level => simp only [Shape.contents_succ, sameEntries]
  have sameLayer : ∀ level ≤ height,
      shape'.layerEntries (layer level) = shape.layerEntries (layer level) :=
    fun level levelLe => List.flatMap_congr fun page mem => (frame level levelLe page mem).2
  have rootLayer : shape'.layerEntries [root'] = [(separator, root)] := by
    simp [Shape.layerEntries, rootEntries]
  refine ⟨topLayer, ?_, ?_, ?_, ?_, ?_, ?_⟩
  · intro level levelLe
    rcases cases_level level levelLe with old | rfl
    · rw [kept level old]
      exact layered.nodup level old
    · rw [topLayer]
      exact List.nodup_singleton _
  · intro one oneLe other otherLe page oneMem otherMem
    rcases cases_level one oneLe with oneOld | rfl
    · rw [kept one oneOld] at oneMem
      rcases cases_level other otherLe with otherOld | rfl
      · rw [kept other otherOld] at otherMem
        exact layered.apart one oneOld other otherOld page oneMem otherMem
      · rw [topLayer, List.mem_singleton] at otherMem
        exact absurd (otherMem ▸ oneMem) (new one oneOld)
    · rw [topLayer, List.mem_singleton] at oneMem
      rcases cases_level other otherLe with otherOld | rfl
      · rw [kept other otherOld] at otherMem
        exact absurd (oneMem ▸ otherMem) (new other otherOld)
      · rfl
  · intro level levelLt
    rcases Nat.lt_succ_iff_lt_or_eq.mp levelLt with below | rfl
    · rw [kept level (le_of_lt below), kept (level + 1) below, sameLayer (level + 1) below]
      exact layered.children level below
    · rw [kept level le_rfl, topLayer, rootLayer, layered.top]
      rfl
  · intro level levelLe positive page mem
    rcases cases_level level levelLe with old | rfl
    · rw [kept level old] at mem
      rw [(frame level old page mem).2]
      exact layered.nonempty level old positive page mem
    · rw [topLayer, List.mem_singleton] at mem
      rw [mem, rootEntries]
      exact List.cons_ne_nil _ _
  · intro level levelLe page mem
    rcases cases_level level levelLe with old | rfl
    · rw [kept level old] at mem
      rw [sameContents level old page mem]
      exact layered.sorted level old page mem
    · rw [topLayer, List.mem_singleton] at mem
      rw [mem, Shape.contents_succ, rootEntries]
      exact List.pairwise_singleton _ _
  · intro level levelLt
    rcases Nat.lt_succ_iff_lt_or_eq.mp levelLt with below | rfl
    · rw [kept (level + 1) below, sameLayer (level + 1) below]
      refine (covers_congr fun entry mem => ?_).mpr (layered.covers level below)
      refine sameContents level (le_of_lt below) entry.2 ?_
      rw [layered.children level below]
      exact List.mem_map_of_mem mem
    · rw [topLayer, rootLayer]
      exact List.pairwise_singleton _ _

end Split

end SeparatorTree

end RapidDb
