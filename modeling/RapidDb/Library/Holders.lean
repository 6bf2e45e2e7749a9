import Mathlib.Algebra.GroupWithZero.Nat
import Mathlib.Data.List.Perm.Basic

/-!
# Items that are held

A list of holders, each of which holds a list of items. When one holder is replaced, what all of
them hold together changes by what that holder gets and gives away.
-/

namespace RapidDb

universe u v

namespace Holders

variable {σ : Type u} {α : Type v} [DecidableEq α] {held : σ → List α} {holders : List σ}
  {i : ℕ} {old : σ}

/-- How often all holders together hold an item. -/
def total (held : σ → List α) (holders : List σ) (item : α) : ℕ :=
  (holders.flatMap held).count item

@[simp]
theorem total_nil (item : α) : total held [] item = 0 := rfl

@[simp]
theorem total_cons (holder : σ) (item : α) :
    total held (holder :: holders) item = (held holder).count item + total held holders item := by
  unfold total
  rw [List.flatMap_cons, List.count_append]

@[simp]
theorem total_append (others : List σ) (item : α) :
    total held (holders ++ others) item = total held holders item + total held others item := by
  unfold total
  rw [List.flatMap_append, List.count_append]

theorem total_set (held : σ → List α) (new : σ) (found : holders[i]? = some old) (item : α) :
    total held (holders.set i new) item + (held old).count item =
      total held holders item + (held new).count item := by
  induction holders generalizing i with
  | nil => cases found
  | cons holder holders ih =>
      cases i with
      | zero =>
          cases found
          simp only [List.set_cons_zero, total_cons]
          omega
      | succ i =>
          have step := ih found
          simp only [List.set_cons_succ, total_cons]
          omega

theorem count_eraseIdx {list : List α} {item : α} (found : list[i]? = some item) (other : α) :
    (list.eraseIdx i).count other + [item].count other = list.count other := by
  rcases List.getElem?_eq_some_iff.mp found with ⟨less, rfl⟩
  have split := (List.getElem_cons_eraseIdx_perm less).count_eq other
  rw [← List.singleton_append, List.count_append] at split
  omega

theorem total_eraseIdx (held : σ → List α) (found : holders[i]? = some old) (item : α) :
    total held (holders.eraseIdx i) item + (held old).count item = total held holders item := by
  induction holders generalizing i with
  | nil => cases found
  | cons holder holders ih =>
      cases i with
      | zero =>
          cases found
          simp only [List.eraseIdx_cons_zero, total_cons]
          omega
      | succ i =>
          have step := ih found
          simp only [List.eraseIdx_cons_succ, total_cons]
          omega

theorem total_eq_zero (empty : ∀ holder ∈ holders, held holder = []) (item : α) :
    total held holders item = 0 := by
  have none : holders.flatMap held = [] := List.flatMap_eq_nil_iff.mpr empty
  unfold total
  rw [none]
  rfl

end Holders

end RapidDb
