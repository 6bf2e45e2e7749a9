import Mathlib.Data.List.Basic
import Mathlib.Logic.Function.Basic

/-!
# Numbers that are given out for keys

Every key has a counter of its own. A call for a key gets the number of its counter, and the
counter goes on.
-/

namespace RapidDb

universe u

namespace Numbering

variable {κ : Type u} [DecidableEq κ]

/-- The numbers of some calls, where `start` has the number of the next call for a key. -/
def issued (start : κ → ℕ) : List κ → List (κ × ℕ)
  | [] => []
  | key :: keys => (key, start key) :: issued (Function.update start key (start key + 1)) keys

theorem mem_issued {start : κ → ℕ} {keys : List κ} {key : κ} {number : ℕ} :
    (key, number) ∈ issued start keys ↔
      start key ≤ number ∧ number < start key + keys.count key := by
  induction keys generalizing start with
  | nil =>
      simp only [issued, List.not_mem_nil, List.count_nil, false_iff]
      omega
  | cons first keys ih =>
      simp only [issued, List.mem_cons, Prod.mk.injEq, ih]
      by_cases same : key = first
      · subst same
        simp only [true_and, Function.update_self, List.count_cons_self]
        omega
      · simp only [same, false_and, false_or, ne_eq, not_false_eq_true, Function.update_of_ne,
          List.count_cons_of_ne (Ne.symm same)]

theorem nodup_issued (start : κ → ℕ) (keys : List κ) : (issued start keys).Nodup := by
  induction keys generalizing start with
  | nil => exact List.nodup_nil
  | cons key keys ih =>
      refine List.nodup_cons.mpr ⟨?_, ih _⟩
      intro again
      have later := (mem_issued.mp again).1
      simp only [Function.update_self] at later
      omega

end Numbering

end RapidDb
