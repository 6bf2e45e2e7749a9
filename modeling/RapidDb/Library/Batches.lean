import Mathlib.Data.List.Nodup

/-!
# Numbers that are handed out in batches

A counter hands out numbers directly, or reserves batches of them from which numbers are taken one
by one. A batch may be left before it is used up, but no number may be reserved or handed out twice.
-/

namespace RapidDb

/-- A counter, the first number and the end of each batch, and what has been handed out. -/
structure Dispenser where
  counter : ℕ
  batches : List (ℕ × ℕ)
  given : List ℕ

namespace Dispenser

def Reserved (dispenser : Dispenser) (i number : ℕ) : Prop :=
  ∃ batch, dispenser.batches[i]? = some batch ∧ batch.1 ≤ number ∧ number < batch.2

structure Safe (dispenser : Dispenser) : Prop where
  nodup : dispenser.given.Nodup
  given_lt : ∀ number ∈ dispenser.given, number < dispenser.counter
  reserved_lt : ∀ i number, dispenser.Reserved i number → number < dispenser.counter
  reserved_new : ∀ i number, dispenser.Reserved i number → number ∉ dispenser.given
  separate : ∀ i j number, dispenser.Reserved i number → dispenser.Reserved j number → i = j

variable {dispenser : Dispenser} {i j number : ℕ}

theorem reserved_set {counter : ℕ} {batches : List (ℕ × ℕ)} {given given' : List ℕ} {counter' : ℕ}
    {batch : ℕ × ℕ} (reserved : Reserved ⟨counter', batches.set i batch, given'⟩ j number) :
    j = i ∧ batch.1 ≤ number ∧ number < batch.2 ∨
      j ≠ i ∧ Reserved ⟨counter, batches, given⟩ j number := by
  rcases reserved with ⟨found, foundEq, inside⟩
  by_cases same : j = i
  · subst same
    rw [List.getElem?_set_self'] at foundEq
    rcases Option.map_eq_some_iff.mp foundEq with ⟨_, _, rfl⟩
    exact Or.inl ⟨rfl, inside⟩
  · rw [List.getElem?_set_ne (Ne.symm same)] at foundEq
    exact Or.inr ⟨same, found, foundEq, inside⟩

theorem Safe.shrink (safe : dispenser.Safe) {batches : List (ℕ × ℕ)}
    (fewer : ∀ i number, Reserved { dispenser with batches } i number →
      dispenser.Reserved i number) :
    Safe { dispenser with batches } :=
  ⟨safe.nodup, safe.given_lt, fun i number reserved => safe.reserved_lt i number
    (fewer i number reserved),
    fun i number reserved => safe.reserved_new i number (fewer i number reserved),
    fun i j number reserved reserved' =>
      safe.separate i j number (fewer i number reserved) (fewer j number reserved')⟩

theorem Safe.set_same {batch : ℕ × ℕ} (safe : dispenser.Safe)
    (found : dispenser.batches[i]? = some batch) :
    Safe { dispenser with batches := dispenser.batches.set i batch } := by
  rcases List.getElem?_eq_some_iff.mp found with ⟨inside, rfl⟩
  rw [List.set_getElem_self]
  exact safe

theorem Safe.leave (safe : dispenser.Safe) (i : ℕ) {batch : ℕ × ℕ} (empty : batch.2 ≤ batch.1) :
    Safe { dispenser with batches := dispenser.batches.set i batch } := by
  apply safe.shrink
  intro j number reserved
  rcases reserved_set reserved with ⟨-, first, stop⟩ | ⟨-, reserved⟩
  · omega
  · exact reserved

theorem Safe.refill (safe : dispenser.Safe) (i num : ℕ) :
    Safe ⟨dispenser.counter + num,
      dispenser.batches.set i (dispenser.counter, dispenser.counter + num), dispenser.given⟩ := by
  refine ⟨safe.nodup, ?_, ?_, ?_, ?_⟩
  · intro number mem
    exact Nat.lt_of_lt_of_le (safe.given_lt number mem) (Nat.le_add_right _ _)
  · intro j number reserved
    rcases reserved_set reserved with ⟨-, -, stop⟩ | ⟨-, reserved⟩
    · exact stop
    · exact Nat.lt_of_lt_of_le (safe.reserved_lt j number reserved) (Nat.le_add_right _ _)
  · intro j number reserved
    rcases reserved_set reserved with ⟨-, first, -⟩ | ⟨-, reserved⟩
    · exact fun mem => absurd (safe.given_lt number mem) (Nat.not_lt_of_le first)
    · exact safe.reserved_new j number reserved
  · intro j k number reserved reserved'
    rcases reserved_set reserved with ⟨rfl, first, -⟩ | ⟨-, reserved⟩
    · rcases reserved_set reserved' with ⟨rfl, -⟩ | ⟨-, reserved'⟩
      · rfl
      · exact absurd (safe.reserved_lt k number reserved') (Nat.not_lt_of_le first)
    · rcases reserved_set reserved' with ⟨rfl, first, -⟩ | ⟨-, reserved'⟩
      · exact absurd (safe.reserved_lt j number reserved) (Nat.not_lt_of_le first)
      · exact safe.separate j k number reserved reserved'

/-- The first number of a batch is handed out. The next one is any number behind it. -/
theorem Safe.take (safe : dispenser.Safe) {first stop step : ℕ}
    (batch : dispenser.batches[i]? = some (first, stop)) (some : first < stop) (pos : 0 < step) :
    Safe ⟨dispenser.counter, dispenser.batches.set i (first + step, stop),
      first :: dispenser.given⟩ := by
  have taken : dispenser.Reserved i first := ⟨_, batch, Nat.le_refl first, some⟩
  have fewer : ∀ j number,
      Reserved ⟨dispenser.counter, dispenser.batches.set i (first + step, stop),
        first :: dispenser.given⟩ j number → dispenser.Reserved j number ∧ number ≠ first := by
    intro j number reserved
    rcases reserved_set reserved with ⟨rfl, next, less⟩ | ⟨other, before⟩
    · have next : first + step ≤ number := next
      exact ⟨⟨_, batch, by omega, less⟩, by omega⟩
    · refine ⟨before, fun same => ?_⟩
      exact other (safe.separate j i number before (same ▸ taken))
  refine ⟨List.nodup_cons.mpr ⟨safe.reserved_new i first taken, safe.nodup⟩, ?_, ?_, ?_, ?_⟩
  · exact List.forall_mem_cons.mpr ⟨safe.reserved_lt i first taken, safe.given_lt⟩
  · exact fun j number reserved => safe.reserved_lt j number (fewer j number reserved).1
  · intro j number reserved mem
    rcases fewer j number reserved with ⟨reserved, different⟩
    rcases List.mem_cons.mp mem with same | mem
    · exact different same
    · exact safe.reserved_new j number reserved mem
  · exact fun j k number reserved reserved' =>
      safe.separate j k number (fewer j number reserved).1 (fewer k number reserved').1

theorem Safe.draw (safe : dispenser.Safe) {step : ℕ} (pos : 0 < step) :
    Safe ⟨dispenser.counter + step, dispenser.batches,
      dispenser.counter :: dispenser.given⟩ := by
  have new : dispenser.counter ∉ dispenser.given :=
    fun mem => Nat.lt_irrefl _ (safe.given_lt _ mem)
  refine ⟨List.nodup_cons.mpr ⟨new, safe.nodup⟩, ?_, ?_, ?_, safe.separate⟩
  · intro number mem
    rcases List.mem_cons.mp mem with rfl | mem
    · exact Nat.lt_add_of_pos_right pos
    · exact Nat.lt_of_lt_of_le (safe.given_lt number mem) (Nat.le_add_right _ _)
  · intro i number reserved
    exact Nat.lt_of_lt_of_le (safe.reserved_lt i number reserved) (Nat.le_add_right _ _)
  · intro i number reserved mem
    rcases List.mem_cons.mp mem with rfl | mem
    · exact Nat.lt_irrefl _ (safe.reserved_lt i _ reserved)
    · exact safe.reserved_new i number reserved mem

theorem not_reserved (empty : ∀ batch ∈ dispenser.batches, batch.2 ≤ batch.1) :
    ¬dispenser.Reserved i number := by
  rintro ⟨batch, found, first, stop⟩
  have empty := empty batch (List.mem_of_getElem? found)
  omega

theorem Safe.clear (safe : dispenser.Safe) {batches : List (ℕ × ℕ)}
    (empty : ∀ batch ∈ batches, batch.2 ≤ batch.1) : Safe { dispenser with batches } := by
  apply safe.shrink
  intro i number reserved
  exact absurd reserved (not_reserved empty)

theorem Safe.new (counter : ℕ) {batches : List (ℕ × ℕ)}
    (empty : ∀ batch ∈ batches, batch.2 ≤ batch.1) : Safe ⟨counter, batches, []⟩ := by
  refine ⟨List.nodup_nil, nofun, ?_, ?_, ?_⟩
  · exact fun i number reserved => absurd reserved (not_reserved empty)
  · exact fun i number reserved => absurd reserved (not_reserved empty)
  · exact fun i j number reserved => absurd reserved (not_reserved empty)

end Dispenser

end RapidDb
