import Mathlib.Data.Int.Order.Basic
import Mathlib.Data.List.Basic
import Mathlib.Order.Basic
import Mathlib.Order.Compare
import Mathlib.Order.Lattice

/-!
# Binary search over a comparison function

A comparison of two values returns a negative number, zero or a positive number. The search
keeps the part of the positions that can still hold the value, from `start` up to but
excluding `stop`, and looks at the middle of it. On a sorted list it either finds the
position of the value, or the position where the value would have to be inserted. Where values
repeat, the search for the first one goes on to the left of a position that holds the value.
-/

namespace RapidDb

/-- The result of comparing two values, by its sign. -/
structure Compares {κ : Type*} [LinearOrder κ] (result : ℤ) (left right : κ) : Prop where
  neg : result < 0 ↔ left < right
  pos : 0 < result ↔ right < left

theorem Compares.zero {κ : Type*} [LinearOrder κ] {result : ℤ} {left right : κ}
    (compares : Compares result left right) : result = 0 ↔ left = right := by
  constructor
  · intro isZero
    apply le_antisymm
    · apply le_of_not_gt
      intro less
      have positive := compares.pos.mpr less
      omega
    · apply le_of_not_gt
      intro less
      have negative := compares.neg.mpr less
      omega
  · intro same
    have notNeg : ¬result < 0 := fun negative => absurd (compares.neg.mp negative) (by simp [same])
    have notPos : ¬0 < result := fun positive => absurd (compares.pos.mp positive) (by simp [same])
    omega

theorem Compares.sign {κ : Type*} [LinearOrder κ] {result : ℤ} {left right : κ}
    (compares : Compares result left right) : (compare result 0).Compares left right := by
  rcases lt_trichotomy result 0 with negative | isZero | positive
  · rw [compare_lt_iff_lt.mpr negative]
    exact compares.neg.mp negative
  · rw [compare_eq_iff_eq.mpr isZero]
    exact compares.zero.mp isZero
  · rw [compare_gt_iff_gt.mpr positive]
    exact compares.pos.mp positive

namespace BinarySearch

/-- The loop of a search; `compare` compares the value at a position with the one searched. The
first number bounds the iterations. -/
def search (compare : ℕ → ℤ) : ℕ → ℕ → ℕ → Bool × ℕ
  | 0, start, _ => (false, start)
  | fuel + 1, start, stop =>
      if start < stop then
        let middle := (start + (stop - 1)) / 2
        if compare middle < 0 then search compare fuel (middle + 1) stop
        else if compare middle > 0 then search compare fuel start middle
        else (true, middle)
      else
        (false, start)

/-- The loop of a search that looks for the first position of a value unless the values are
unique. -/
def searchFirst (unique : Bool) (compare : ℕ → ℤ) : ℕ → ℕ → ℕ → Bool × ℕ
  | 0, start, _ => (false, start)
  | fuel + 1, start, stop =>
      if start < stop then
        let middle := (start + (stop - 1)) / 2
        if compare middle < 0 then searchFirst unique compare fuel (middle + 1) stop
        else if compare middle > 0 then searchFirst unique compare fuel start middle
        else if unique then (true, middle)
        else if middle > start ∧ compare (middle - 1) = 0 then
          searchFirst unique compare fuel start middle
        else (true, middle)
      else
        (false, start)

theorem forall_mem_take_iff {α : Type*} {values : List α} {count : ℕ} {P : α → Prop} :
    (∀ value ∈ values.take count, P value) ↔
      ∀ (position : ℕ) (inside : position < values.length), position < count →
        P values[position] := by
  simp only [List.mem_take_iff_getElem]
  constructor
  · intro holds position inside lt
    exact holds _ ⟨position, by omega, rfl⟩
  · rintro holds value ⟨position, lt, rfl⟩
    exact holds position (by omega) (by omega)

theorem forall_mem_drop_iff {α : Type*} {values : List α} {count : ℕ} {P : α → Prop} :
    (∀ value ∈ values.drop count, P value) ↔
      ∀ (position : ℕ) (inside : position < values.length), count ≤ position →
        P values[position] := by
  simp only [List.mem_drop_iff_getElem]
  constructor
  · intro holds position inside le
    exact holds _ ⟨position - count, by omega, by congr 1; omega⟩
  · rintro holds value ⟨position, lt, rfl⟩
    exact holds (count + position) (by omega) (by omega)

variable {κ : Type*} [LinearOrder κ] {compare : ℕ → ℤ} {keys : List κ} {key : κ}

/-- What a search has to return: the position of the key, or where it belongs. -/
def Found (keys : List κ) (key : κ) (result : Bool × ℕ) : Prop :=
  if result.1 then keys[result.2]? = some key
  else (∀ other ∈ keys.take result.2, other < key) ∧ ∀ other ∈ keys.drop result.2, key < other

/-- A position that is found lies between the bounds. -/
theorem search_inside {fuel start stop pos : ℕ}
    (found : search compare fuel start stop = (true, pos)) : pos < stop := by
  induction fuel generalizing start stop with
  | zero => cases found
  | succ fuel ih =>
      simp only [search] at found
      split at found
      · split at found
        · exact ih found
        · split at found
          · have inside := ih found
            omega
          · cases found
            omega
      · cases found

/-- A search ends at the first position whose key is not smaller. -/
theorem Found.first {result : Bool × ℕ} (found : Found keys key result)
    (sorted : keys.Pairwise (· < ·)) :
    (∀ other ∈ keys.take result.2, other < key) ∧ ∀ other ∈ keys.drop result.2, key ≤ other := by
  unfold Found at found
  split at found
  · rcases List.getElem?_eq_some_iff.mp found with ⟨inside, keyEq⟩
    have splitKeys : keys = keys.take result.2 ++ keys[result.2] :: keys.drop (result.2 + 1) := by
      rw [List.getElem_cons_drop, List.take_append_drop]
    rw [splitKeys, List.pairwise_append, List.pairwise_cons] at sorted
    rw [keyEq] at sorted
    constructor
    · exact fun other mem => sorted.2.2 other mem key List.mem_cons_self
    · intro other mem
      rw [← List.getElem_cons_drop inside, keyEq, List.mem_cons] at mem
      rcases mem with rfl | mem
      · exact le_rfl
      · exact le_of_lt (sorted.2.1.1 other mem)
  · exact ⟨found.1, fun other mem => le_of_lt (found.2 other mem)⟩

/-- What the loop of `searchFirst` knows about the positions it has left out: if the key was seen
behind them, it is still between them. -/
structure Narrowed (keys : List κ) (key : κ) (start stop : ℕ) : Prop where
  before : ∀ (position : ℕ) (inside : position < keys.length), position < start →
    keys[position] < key
  behind : (∀ (position : ℕ) (inside : position < keys.length), stop ≤ position →
      key < keys[position]) ∨
    ∃ (position : ℕ) (inside : position < keys.length), start ≤ position ∧ position < stop ∧
      keys[position] = key

namespace Narrowed

variable {start stop middle : ℕ}

theorem whole (keys : List κ) (key : κ) : Narrowed keys key 0 keys.length where
  before := fun _ _ lt => absurd lt (Nat.not_lt_zero _)
  behind := Or.inl fun _ inside le => absurd inside (by omega)

theorem right (narrowed : Narrowed keys key start stop) (sorted : keys.Pairwise (· ≤ ·))
    (inside : middle < keys.length) (less : keys[middle] < key) :
    Narrowed keys key (middle + 1) stop where
  before := by
    intro position positionIn lt
    rcases Nat.lt_succ_iff_lt_or_eq.mp lt with lt | rfl
    · exact lt_of_le_of_lt (List.pairwise_iff_getElem.mp sorted _ _ _ _ lt) less
    · exact less
  behind := by
    refine narrowed.behind.imp id ?_
    rintro ⟨position, positionIn, -, lt, same⟩
    refine ⟨position, positionIn, ?_, lt, same⟩
    by_contra notBehind
    rcases Nat.lt_or_eq_of_le (Nat.not_lt.mp notBehind) with lt | rfl
    · have le := List.pairwise_iff_getElem.mp sorted _ _ positionIn inside lt
      exact absurd (same ▸ le) (not_le_of_gt less)
    · exact absurd same less.ne

theorem left (narrowed : Narrowed keys key start stop) (sorted : keys.Pairwise (· ≤ ·))
    (inside : middle < keys.length) (greater : key < keys[middle]) :
    Narrowed keys key start middle where
  before := narrowed.before
  behind := by
    left
    intro position positionIn le
    rcases Nat.lt_or_eq_of_le le with lt | rfl
    · exact lt_of_lt_of_le greater (List.pairwise_iff_getElem.mp sorted _ _ _ _ lt)
    · exact greater

theorem prev (narrowed : Narrowed keys key start stop) (inside : middle - 1 < keys.length)
    (behindStart : start < middle) (same : keys[middle - 1] = key) :
    Narrowed keys key start middle where
  before := narrowed.before
  behind := Or.inr ⟨middle - 1, inside, by omega, by omega, same⟩

/-- The middle holds the key and the position before it, if it counts, does not. -/
theorem first (narrowed : Narrowed keys key start stop) (sorted : keys.Pairwise (· ≤ ·))
    (inside : middle < keys.length) (same : keys[middle] = key)
    (apart : ∀ inside' : middle - 1 < keys.length, start < middle → keys[middle - 1] ≠ key) :
    ∀ (position : ℕ) (inside' : position < keys.length), position < middle →
      keys[position] < key := by
  intro position positionIn lt
  by_cases early : position < start
  · exact narrowed.before position positionIn early
  · have prevIn : middle - 1 < keys.length := by omega
    have less : keys[middle - 1] < key := by
      apply lt_of_le_of_ne _ (apart prevIn (by omega))
      rw [← same]
      exact List.pairwise_iff_getElem.mp sorted _ _ prevIn inside (by omega)
    rcases Nat.lt_or_eq_of_le (Nat.le_sub_one_of_lt lt) with lt | rfl
    · exact lt_of_le_of_lt (List.pairwise_iff_getElem.mp sorted _ _ _ _ lt) less
    · exact less

end Narrowed

/-- Every iteration leaves out a position, so that the loop ends by itself. -/
theorem searchFirst_fuel {unique : Bool} {fuel fuel' start stop : ℕ}
    (enough : stop - start ≤ fuel) (enough' : stop - start ≤ fuel') :
    searchFirst unique compare fuel start stop = searchFirst unique compare fuel' start stop := by
  induction fuel generalizing fuel' start stop with
  | zero =>
      cases fuel' with
      | zero => rfl
      | succ fuel' => rw [searchFirst, searchFirst, if_neg (by omega)]
  | succ fuel ih =>
      cases fuel' with
      | zero => rw [searchFirst, searchFirst, if_neg (by omega)]
      | succ fuel' =>
          simp only [searchFirst]
          split
          · rw [@ih fuel' ((start + (stop - 1)) / 2 + 1) stop (by omega) (by omega),
              @ih fuel' start ((start + (stop - 1)) / 2) (by omega) (by omega)]
          · rfl

theorem searchFirst_le {unique : Bool} {fuel start stop : ℕ} (ordered : start ≤ stop) :
    (searchFirst unique compare fuel start stop).2 ≤ stop := by
  induction fuel generalizing start stop with
  | zero => exact ordered
  | succ fuel ih =>
      have left := @ih start ((start + (stop - 1)) / 2)
      have right := @ih ((start + (stop - 1)) / 2 + 1) stop
      simp only [searchFirst]
      repeat' split
      all_goals grind

/-- The first position whose key is not smaller; the length of the list if there is none. -/
def firstNotLess (keys : List κ) (key : κ) : ℕ :=
  keys.findIdx fun other => decide (key ≤ other)

theorem eq_firstNotLess {pos : ℕ} (inside : pos ≤ keys.length)
    (before : ∀ other ∈ keys.take pos, other < key)
    (behind : ∀ other ∈ keys.drop pos, key ≤ other) : pos = firstNotLess keys key := by
  rw [forall_mem_take_iff] at before
  rw [forall_mem_drop_iff] at behind
  symm
  rcases Nat.lt_or_eq_of_le inside with lt | rfl
  · rw [firstNotLess, List.findIdx_eq lt]
    simp only [decide_eq_true_eq, decide_eq_false_iff_not, not_le]
    exact ⟨behind pos lt (Nat.le_refl _), fun position less => before position _ less⟩
  · rw [firstNotLess, List.findIdx_eq_length]
    intro other mem
    rcases List.mem_iff_getElem.mp mem with ⟨position, lt, rfl⟩
    simpa using before position lt lt

/-- What a search has to tell: whether the key is there, and where the keys begin that are not
smaller. -/
structure Located (keys : List κ) (key : κ) (result : Bool × ℕ) : Prop where
  found : result.1 = true ↔ key ∈ keys
  position : result.2 = firstNotLess keys key

section SearchFirst

variable {unique : Bool} (sorted : keys.Pairwise (· ≤ ·))
  (strict : unique = true → keys.Pairwise (· < ·))
  (compares : ∀ (position : ℕ) (inside : position < keys.length),
    Compares (compare position) keys[position] key)

include sorted strict compares

/-- The search finds the key, or where it belongs, and what comes before is smaller. -/
theorem found_searchFirst {fuel start stop : ℕ} (enough : stop - start ≤ fuel)
    (ordered : start ≤ stop)
    (bounded : stop ≤ keys.length) (narrowed : Narrowed keys key start stop) :
    Found keys key (searchFirst unique compare fuel start stop) ∧
      ∀ other ∈ keys.take (searchFirst unique compare fuel start stop).2, other < key := by
  have notFound : ∀ {start}, Narrowed keys key start start →
      Found keys key (false, start) ∧ ∀ other ∈ keys.take start, other < key := by
    intro start narrowed
    have before : ∀ other ∈ keys.take start, other < key :=
      forall_mem_take_iff.mpr narrowed.before
    refine ⟨⟨before, ?_⟩, before⟩
    rcases narrowed.behind with behind | ⟨position, -, le, lt, -⟩
    · exact forall_mem_drop_iff.mpr behind
    · omega
  induction fuel generalizing start stop with
  | zero =>
      have same : start = stop := by omega
      subst same
      exact notFound narrowed
  | succ fuel ih =>
      simp only [searchFirst]
      split
      · next inside =>
          have middleLt : (start + (stop - 1)) / 2 < stop := by omega
          have startLe : start ≤ (start + (stop - 1)) / 2 := by omega
          generalize (start + (stop - 1)) / 2 = middle at middleLt startLe
          have middleIn : middle < keys.length := by omega
          have compared := compares middle middleIn
          split
          · next negative =>
              exact ih (by omega) (by omega) bounded
                (narrowed.right sorted middleIn (compared.neg.mp negative))
          · split
            · next positive =>
                exact ih (by omega) (by omega) (by omega)
                  (narrowed.left sorted middleIn (compared.pos.mp positive))
            · next notNegative notPositive =>
                have same := compared.zero.mp (by omega)
                have atMiddle : Found keys key (true, middle) := by simp [Found, ← same]
                split
                · next isUnique =>
                    refine ⟨atMiddle, forall_mem_take_iff.mpr ?_⟩
                    intro position positionIn lt
                    rw [← same]
                    exact List.pairwise_iff_getElem.mp (strict isUnique) _ _ _ _ lt
                · split
                  · next prevSame =>
                      have prevIn : middle - 1 < keys.length := by omega
                      have prev := (compares _ prevIn).zero.mp prevSame.2
                      exact ih (by omega) (by omega) (by omega)
                        (narrowed.prev prevIn prevSame.1 prev)
                  · next apart =>
                      refine ⟨atMiddle, forall_mem_take_iff.mpr ?_⟩
                      apply narrowed.first sorted middleIn same
                      intro prevIn behindStart prevSame
                      exact apart ⟨behindStart, (compares _ prevIn).zero.mpr prevSame⟩
      · next outside =>
          have same : start = stop := by omega
          subst same
          exact notFound narrowed

theorem found_searchFirst_all :
    Found keys key (searchFirst unique compare keys.length 0 keys.length) ∧
      ∀ other ∈ keys.take (searchFirst unique compare keys.length 0 keys.length).2, other < key :=
  found_searchFirst sorted strict compares (by omega) (by omega) (Nat.le_refl _)
    (Narrowed.whole keys key)

variable (unique) in
/-- The search for the first position ends at the first key that is not smaller. -/
theorem searchFirst_spec :
    (∀ other ∈ keys.take (searchFirst unique compare keys.length 0 keys.length).2, other < key) ∧
      ∀ other ∈ keys.drop (searchFirst unique compare keys.length 0 keys.length).2,
        key ≤ other := by
  rcases found_searchFirst_all sorted strict compares with ⟨found, before⟩
  refine ⟨before, ?_⟩
  generalize searchFirst unique compare keys.length 0 keys.length = result at found before
  unfold Found at found
  split at found
  · rcases List.getElem?_eq_some_iff.mp found with ⟨inside, keyEq⟩
    intro other mem
    rw [← List.getElem_cons_drop inside, keyEq, List.mem_cons] at mem
    rcases mem with rfl | mem
    · exact le_rfl
    · have splitKeys : keys = keys.take result.2 ++ keys[result.2] :: keys.drop (result.2 + 1) := by
        rw [List.getElem_cons_drop, List.take_append_drop]
      rw [splitKeys, List.pairwise_append, List.pairwise_cons, keyEq] at sorted
      exact sorted.2.1.1 other mem
  · exact fun other mem => le_of_lt (found.2 other mem)

theorem located_searchFirst :
    Located keys key (searchFirst unique compare keys.length 0 keys.length) := by
  have inside := @searchFirst_le compare unique keys.length 0 keys.length (Nat.zero_le _)
  have first := searchFirst_spec unique sorted strict compares
  have found := (found_searchFirst_all sorted strict compares).1
  generalize searchFirst unique compare keys.length 0 keys.length = result at inside first found
  refine ⟨?_, eq_firstNotLess inside first.1 first.2⟩
  rcases result with ⟨_ | _, pos⟩
  · have notThere : key ∉ keys.take pos ++ keys.drop pos := by
      rw [List.mem_append, not_or]
      exact ⟨fun mem => lt_irrefl _ (found.1 _ mem), fun mem => lt_irrefl _ (found.2 _ mem)⟩
    rw [List.take_append_drop] at notThere
    simp [notThere]
  · simp [List.mem_of_getElem? found]

end SearchFirst

theorem searchFirst_true (fuel start stop : ℕ) :
    searchFirst true compare fuel start stop = search compare fuel start stop := by
  induction fuel generalizing start stop with
  | zero => rfl
  | succ fuel ih => simp only [searchFirst, search, ih, if_true]

theorem found_search_all (sorted : keys.Pairwise (· < ·))
    (compares : ∀ (position : ℕ) (inside : position < keys.length),
      Compares (compare position) keys[position] key) :
    Found keys key (search compare keys.length 0 keys.length) := by
  rw [← searchFirst_true]
  exact (found_searchFirst_all (sorted.imp le_of_lt) (fun _ => sorted) compares).1

/-- The last position in place of one behind the end. -/
def clamp (num pos : ℕ) : ℕ := if num ≤ pos then num - 1 else pos

theorem clamp_lt {num : ℕ} (positive : 0 < num) (pos : ℕ) : clamp num pos < num := by
  unfold clamp
  split <;> omega

theorem clamp_eq_min (num pos : ℕ) : clamp num pos = min pos (num - 1) := by
  unfold clamp
  split <;> omega

/-- A search among the keys of items that does not go beyond the last one. -/
theorem clamp_spec {α : Type*} {items : List α} {keyOf : α → κ} {pos : ℕ} (nonempty : items ≠ [])
    (first : (∀ other ∈ (items.map keyOf).take pos, other < key) ∧
      ∀ other ∈ (items.map keyOf).drop pos, key ≤ other) :
    ∃ left item right, items = left ++ item :: right ∧ left.length = clamp items.length pos ∧
      (∀ other ∈ left, keyOf other < key) ∧ (right ≠ [] → key ≤ keyOf item) := by
  have itemsPos : 0 < items.length := List.length_pos_iff.mpr nonempty
  have splitAt : ∀ (position : ℕ) (inside : position < items.length),
      items = items.take position ++ items[position] :: items.drop (position + 1) := by
    intro position inside
    rw [List.getElem_cons_drop, List.take_append_drop]
  have smaller : ∀ other ∈ items.take pos, keyOf other < key := by
    intro other mem
    apply first.1
    rw [← List.map_take]
    exact List.mem_map_of_mem mem
  unfold clamp
  split
  · next outside =>
      refine ⟨_, _, _, splitAt (items.length - 1) (by omega), ?_, ?_, ?_⟩
      · exact List.length_take_of_le (by omega)
      · intro other mem
        apply smaller other
        rw [List.take_of_length_le outside]
        exact List.mem_of_mem_take mem
      · intro notLast
        exact absurd (List.drop_of_length_le (by omega)) notLast
  · next notOutside =>
      have inside := Nat.lt_of_not_le notOutside
      refine ⟨_, _, _, splitAt pos inside, ?_, smaller, fun _ => ?_⟩
      · exact List.length_take_of_le (Nat.le_of_lt inside)
      · apply first.2
        rw [← List.map_drop, ← List.getElem_cons_drop inside]
        exact List.mem_map_of_mem List.mem_cons_self

end BinarySearch

end RapidDb
