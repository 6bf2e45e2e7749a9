import Mathlib.Algebra.BigOperators.Group.List.Basic
import Mathlib.Algebra.GroupWithZero.Nat
import Mathlib.Data.List.Basic

/-!
# Cutting a list into parts by length

Items are collected until their lengths add up to more than a limit. The part then ends with
the item that passed the limit, or before it if the part would not fit any more. In that case
the item is looked at again, as the first one of the next part.
-/

namespace RapidDb

namespace Segments

variable {α : Type*}

/-- The loop; `part` and `len` are what has been collected. The first number bounds the
iterations. -/
def cut (size : α → ℕ) (limit maxLen : ℕ) : ℕ → List α → ℕ → List α → Option (List (List α × ℕ))
  | 0, _, _, _ => none
  | _ + 1, part, len, [] => some (if 0 < len then [(part, len)] else [])
  | fuel + 1, part, len, item :: items =>
      if limit < len + size item then
        if maxLen < len + size item then
          (cut size limit maxLen fuel [] 0 (item :: items)).map ((part, len) :: ·)
        else
          (cut size limit maxLen fuel [] 0 items).map ((part ++ [item], len + size item) :: ·)
      else
        cut size limit maxLen fuel (part ++ [item]) (len + size item) items

def total (size : α → ℕ) (items : List α) : ℕ :=
  (items.map size).sum

section Total

variable {size : α → ℕ} {items items' : List α}

@[simp]
theorem total_nil : total size [] = 0 :=
  rfl

@[simp]
theorem total_cons (item : α) : total size (item :: items) = size item + total size items := by
  simp [total]

@[simp]
theorem total_append : total size (items ++ items') = total size items + total size items' := by
  simp [total]

theorem total_eraseIdx {index : ℕ} {item : α} (found : items[index]? = some item) :
    total size items = size item + total size (items.eraseIdx index) := by
  induction items generalizing index with
  | nil => simp at found
  | cons first items ih =>
      cases index with
      | zero =>
          have same : first = item := by simpa using found
          rw [same, List.eraseIdx_cons_zero, total_cons]
      | succ index =>
          rw [List.eraseIdx_cons_succ, total_cons, total_cons, ih (by simpa using found)]
          omega

theorem total_dropLast_le : total size items.dropLast ≤ total size items := by
  rcases List.eq_nil_or_concat items with rfl | ⟨init, last, rfl⟩
  · simp
  · simp

end Total

/-- A part has items, fits, and has passed the limit with its last item at most. -/
structure Part (size : α → ℕ) (limit maxLen : ℕ) (part : List α × ℕ) : Prop where
  nonempty : part.1 ≠ []
  length : part.2 = total size part.1
  fits : part.2 ≤ maxLen
  filled : total size part.1.dropLast ≤ limit

variable {size : α → ℕ} {limit maxLen : ℕ}

/-- Items that fit are cut into parts that fit, and none is lost. -/
theorem cut_spec (limitLe : limit ≤ maxLen) {fuel : ℕ} (part items : List α) (len : ℕ)
    (fits : ∀ item ∈ items, 0 < size item ∧ size item ≤ maxLen) (lenEq : len = total size part)
    (lenLe : len ≤ limit) (partFits : part = [] ↔ len = 0)
    (enough : 2 * items.length + (if part = [] then 0 else 1) < fuel) :
    ∃ parts, cut size limit maxLen fuel part len items = some parts ∧
      parts.flatMap Prod.fst = part ++ items ∧ ∀ one ∈ parts, Part size limit maxLen one := by
  induction fuel generalizing part len items with
  | zero => omega
  | succ fuel ih =>
      cases items with
      | nil =>
          by_cases empty : part = []
          · have lenZero := partFits.mp empty
            exact ⟨[], by simp [cut, lenZero], by simp [empty], by simp⟩
          · have positive : 0 < len := Nat.pos_of_ne_zero (fun zero => empty (partFits.mpr zero))
            refine ⟨[(part, len)], by simp [cut, positive], by simp, ?_⟩
            intro one mem
            rw [List.mem_singleton.mp mem]
            exact ⟨empty, lenEq, Nat.le_trans lenLe limitLe,
              Nat.le_trans total_dropLast_le (lenEq ▸ lenLe)⟩
      | cons item items =>
          have itemFits := fits item List.mem_cons_self
          have itemsFit : ∀ other ∈ items, 0 < size other ∧ size other ≤ maxLen :=
            fun other mem => fits other (List.mem_cons_of_mem _ mem)
          simp only [List.length_cons] at enough
          by_cases passes : limit < len + size item
          · by_cases tooLong : maxLen < len + size item
            · have notEmpty : part ≠ [] := by
                intro empty
                have lenZero := partFits.mp empty
                omega
              rw [if_neg notEmpty] at enough
              rcases ih [] (item :: items) 0 fits rfl (Nat.zero_le _) (by simp)
                (by simp only [List.length_cons, if_true]; omega) with ⟨parts, cutEq, joined, all⟩
              refine ⟨(part, len) :: parts, by simp [cut, passes, tooLong, cutEq],
                by simp [joined], ?_⟩
              intro one mem
              rcases List.mem_cons.mp mem with rfl | mem
              · exact ⟨notEmpty, lenEq, Nat.le_trans lenLe limitLe,
                  Nat.le_trans total_dropLast_le (lenEq ▸ lenLe)⟩
              · exact all one mem
            · rcases ih [] items 0 itemsFit rfl (Nat.zero_le _) (by simp)
                (by simp only [if_true]; omega) with ⟨parts, cutEq, joined, all⟩
              refine ⟨(part ++ [item], len + size item) :: parts,
                by simp [cut, passes, tooLong, cutEq], by simp [joined], ?_⟩
              intro one mem
              rcases List.mem_cons.mp mem with rfl | mem
              · refine ⟨by simp, by simp [lenEq], by simpa using tooLong, ?_⟩
                simpa [← lenEq] using lenLe
              · exact all one mem
          · rcases ih (part ++ [item]) items (len + size item) itemsFit (by simp [lenEq])
              (by omega) (by simp; omega) (by simp; omega) with ⟨parts, cutEq, joined, all⟩
            exact ⟨parts, by simp [cut, passes, cutEq], by simp [joined], all⟩

theorem cut_all (limitLe : limit ≤ maxLen) {items : List α}
    (fits : ∀ item ∈ items, 0 < size item ∧ size item ≤ maxLen) :
    ∃ parts, cut size limit maxLen (2 * items.length + 1) [] 0 items = some parts ∧
      parts.flatMap Prod.fst = items ∧ ∀ one ∈ parts, Part size limit maxLen one := by
  simpa using cut_spec limitLe [] items 0 fits rfl (Nat.zero_le _) (by simp) (by simp)

/-!
## Where the parts end
-/

/-- The length of the part that an item comes to, with that item. -/
def fills (size : α → ℕ) (limit maxLen : ℕ) : ℕ → List α → List ℕ
  | _, [] => []
  | len, item :: items =>
      let filled := if limit < len ∨ maxLen < len + size item then size item else len + size item
      filled :: fills size limit maxLen filled items

def beyond (size : α → ℕ) (limit maxLen : ℕ) : ℕ → List α → List α
  | _, [] => []
  | len, item :: items =>
      if limit < len ∨ maxLen < len + size item then item :: items
      else beyond size limit maxLen (len + size item) items

/-- A part that has passed the limit is over, as if nothing had been collected. -/
theorem fills_of_limit_lt {len : ℕ} (passed : limit < len) {items : List α}
    (fits : ∀ item ∈ items, size item ≤ maxLen) :
    fills size limit maxLen len items = fills size limit maxLen 0 items := by
  cases items with
  | nil => rfl
  | cons item items =>
      have itemFits := fits item List.mem_cons_self
      have notAlone : ¬ (limit < 0 ∨ maxLen < 0 + size item) := by omega
      rw [fills, fills, if_pos (Or.inl passed), if_neg notAlone, Nat.zero_add]

theorem fills_eq_map (len : ℕ) (items : List α) :
    fills size limit maxLen len items =
      fills (fun length => length) limit maxLen len (items.map size) := by
  induction items generalizing len with
  | nil => rfl
  | cons item items ih => rw [List.map_cons, fills, fills, ih]

theorem beyond_of_limit_lt {len : ℕ} (passed : limit < len) (items : List α) :
    beyond size limit maxLen len items = items := by
  cases items with
  | nil => rfl
  | cons item items => rw [beyond, if_pos (Or.inl passed)]

theorem beyond_suffix (len : ℕ) (items : List α) :
    beyond size limit maxLen len items <:+ items := by
  induction items generalizing len with
  | nil => exact List.suffix_rfl
  | cons item items ih =>
      rw [beyond]
      split
      · exact List.suffix_rfl
      · exact (ih _).trans (List.suffix_cons item items)

variable {fuel len : ℕ} {part items : List α}

/-- An item that is too long for a part of its own is looked at again for ever. -/
theorem cut_eq_none (limitLe : limit ≤ maxLen) {item : α}
    (mem : item ∈ items) (tooLong : maxLen < size item) :
    cut size limit maxLen fuel part len items = none := by
  induction fuel generalizing part len items with
  | zero => rfl
  | succ fuel ih =>
      cases items with
      | nil => cases mem
      | cons first items =>
          rw [cut]
          split
          · split
            · rw [ih mem, Option.map_none]
            · next fits =>
                rcases List.mem_cons.mp mem with rfl | mem
                · omega
                · rw [ih mem, Option.map_none]
          · rcases List.mem_cons.mp mem with rfl | mem
            · omega
            · exact ih mem

variable {parts : List (List α × ℕ)}

/-- Above the limit, the lengths of the parts are the lengths that the items come to. -/
theorem cut_lengths (limitLe : limit ≤ maxLen) (fits : ∀ item ∈ items, size item ≤ maxLen)
    (lenLe : len ≤ limit)
    (result : cut size limit maxLen fuel part len items = some parts) {value : ℕ}
    (above : limit < value) :
    value ∈ parts.map Prod.snd ↔ value ∈ fills size limit maxLen len items := by
  induction fuel generalizing part len items parts with
  | zero => cases result
  | succ fuel ih =>
      cases items with
      | nil =>
          rw [cut, Option.some.injEq] at result
          subst result
          split
          · simp [fills]
            omega
          · simp [fills]
      | cons item items =>
          have itemFits := fits item List.mem_cons_self
          have itemsFit : ∀ other ∈ items, size other ≤ maxLen :=
            fun other mem => fits other (List.mem_cons_of_mem _ mem)
          have notAlone : ¬ (limit < 0 ∨ maxLen < 0 + size item) := by omega
          rw [cut] at result
          split at result
          · next passes =>
              split at result
              · next tooLong =>
                  rcases Option.map_eq_some_iff.mp result with ⟨rest, restEq, rfl⟩
                  have fillsEq : fills size limit maxLen len (item :: items) =
                      fills size limit maxLen 0 (item :: items) := by
                    rw [fills, fills, if_pos (Or.inr tooLong), if_neg notAlone, Nat.zero_add]
                  have notLen : value ≠ len := by omega
                  rw [fillsEq, List.map_cons, List.mem_cons, ← ih fits (Nat.zero_le _) restEq]
                  simp [notLen]
              · next fitsIn =>
                  rcases Option.map_eq_some_iff.mp result with ⟨rest, restEq, rfl⟩
                  have goesOn : ¬ (limit < len ∨ maxLen < len + size item) := by omega
                  rw [fills, if_neg goesOn, fills_of_limit_lt passes itemsFit, List.map_cons,
                    List.mem_cons, List.mem_cons, ih itemsFit (Nat.zero_le _) restEq]
          · next below =>
              have goesOn : ¬ (limit < len ∨ maxLen < len + size item) := by omega
              have notFilled : value ≠ len + size item := by omega
              rw [fills, if_neg goesOn, List.mem_cons, ih itemsFit (by omega) result]
              simp [notFilled]

theorem cut_joined (empty : len = 0 → part = []) (positive : ∀ item ∈ items, 0 < size item)
    (result : cut size limit maxLen fuel part len items = some parts) :
    parts.flatMap Prod.fst = part ++ items := by
  induction fuel generalizing part len items parts with
  | zero => cases result
  | succ fuel ih =>
      cases items with
      | nil =>
          rw [cut, Option.some.injEq] at result
          subst result
          split
          · simp
          · next isZero => simp [empty (Nat.eq_zero_of_not_pos isZero)]
      | cons item items =>
          have itemPositive := positive item List.mem_cons_self
          have itemsPositive : ∀ other ∈ items, 0 < size other :=
            fun other mem => positive other (List.mem_cons_of_mem _ mem)
          rw [cut] at result
          split at result
          · split at result
            · rcases Option.map_eq_some_iff.mp result with ⟨rest, restEq, rfl⟩
              simp [ih (fun _ => rfl) positive restEq]
            · rcases Option.map_eq_some_iff.mp result with ⟨rest, restEq, rfl⟩
              simp [ih (fun _ => rfl) itemsPositive restEq]
          · rw [ih (by omega) itemsPositive result]
            simp

theorem cut_totals (lenEq : len = total size part)
    (result : cut size limit maxLen fuel part len items = some parts) :
    ∀ one ∈ parts, one.2 = total size one.1 := by
  induction fuel generalizing part len items parts with
  | zero => cases result
  | succ fuel ih =>
      cases items with
      | nil =>
          rw [cut, Option.some.injEq] at result
          subst result
          split
          · simpa using lenEq
          · simp
      | cons item items =>
          rw [cut] at result
          split at result
          · split at result
            · rcases Option.map_eq_some_iff.mp result with ⟨rest, restEq, rfl⟩
              exact List.forall_mem_cons.mpr ⟨lenEq, ih rfl restEq⟩
            · rcases Option.map_eq_some_iff.mp result with ⟨rest, restEq, rfl⟩
              exact List.forall_mem_cons.mpr ⟨by simp [lenEq], ih rfl restEq⟩
          · exact ih (by simp [lenEq]) result

theorem cut_beyond (limitLe : limit ≤ maxLen) (lenLe : len ≤ limit)
    (positive : ∀ item ∈ items, 0 < size item)
    (result : cut size limit maxLen fuel part len items = some parts) :
    parts.tail.flatMap Prod.fst = beyond size limit maxLen len items := by
  induction fuel generalizing part len items parts with
  | zero => cases result
  | succ fuel ih =>
      cases items with
      | nil =>
          rw [cut, Option.some.injEq] at result
          subst result
          split <;> rfl
      | cons item items =>
          have itemsPositive : ∀ other ∈ items, 0 < size other :=
            fun other mem => positive other (List.mem_cons_of_mem _ mem)
          rw [cut] at result
          split at result
          · next passes =>
              split at result
              · next tooLong =>
                  rcases Option.map_eq_some_iff.mp result with ⟨rest, restEq, rfl⟩
                  rw [beyond, if_pos (Or.inr tooLong), List.tail_cons,
                    cut_joined (fun _ => rfl) positive restEq, List.nil_append]
              · next fitsIn =>
                  rcases Option.map_eq_some_iff.mp result with ⟨rest, restEq, rfl⟩
                  have goesOn : ¬ (limit < len ∨ maxLen < len + size item) := by omega
                  rw [beyond, if_neg goesOn, beyond_of_limit_lt passes, List.tail_cons,
                    cut_joined (fun _ => rfl) itemsPositive restEq, List.nil_append]
          · next below =>
              have goesOn : ¬ (limit < len ∨ maxLen < len + size item) := by omega
              rw [beyond, if_neg goesOn, ih (by omega) itemsPositive result]

end Segments

end RapidDb
