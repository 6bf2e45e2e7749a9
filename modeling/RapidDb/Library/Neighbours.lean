import Mathlib.Data.List.Nodup
import Mathlib.Data.List.Pairwise

/-!
# Neighbours in a list

The item behind an item of a list without repetitions. When the items of a list are taken apart
into their own lists, the neighbour of an item is found in the list it is in, or, behind the
last item there, at the front of the neighbouring list.
-/

namespace RapidDb

namespace Neighbours

variable {α β : Type*}

def Follows (items : List α) (item next : α) : Prop :=
  ∃ before behind, items = before ++ item :: next :: behind

def IsLast (items : List α) (item : α) : Prop := ∃ before, items = before ++ [item]

/-- The item behind the first occurrence of an item. -/
def following [DecidableEq α] : List α → α → Option α
  | [], _ => none
  | first :: rest, item => if first = item then rest.head? else following rest item

theorem Follows.mem {items : List α} {item next : α} (follows : Follows items item next) :
    item ∈ items ∧ next ∈ items := by
  rcases follows with ⟨before, behind, rfl⟩
  simp

theorem follows_of_getElem? {items : List α} {item next : α} {pos : ℕ}
    (atPos : items[pos]? = some item) (behind : items[pos + 1]? = some next) :
    Follows items item next := by
  have posLt : pos < items.length := (List.getElem?_eq_some_iff.mp atPos).1
  have nextLt : pos + 1 < items.length := (List.getElem?_eq_some_iff.mp behind).1
  refine ⟨items.take pos, items.drop (pos + 2), ?_⟩
  have itemEq : items[pos] = item := (List.getElem?_eq_some_iff.mp atPos).2
  have nextEq : items[pos + 1] = next := (List.getElem?_eq_some_iff.mp behind).2
  rw [← itemEq, ← nextEq, List.getElem_cons_drop, List.getElem_cons_drop, List.take_append_drop]

theorem Follows.exists_index {items : List α} {item next : α} (follows : Follows items item next) :
    ∃ pos, pos + 1 < items.length ∧ items[pos]? = some item := by
  rcases follows with ⟨before, behind, rfl⟩
  exact ⟨before.length, by simp, by simp⟩

theorem isLast_of_getLast? {items : List α} {item : α} (last : items.getLast? = some item) :
    IsLast items item := by
  rcases List.getLast?_eq_some_iff.mp last with ⟨before, rfl⟩
  exact ⟨before, rfl⟩

section Following

variable [DecidableEq α] {before behind items : List α} {item next : α}

theorem following_append (notBefore : item ∉ before) :
    following (before ++ item :: behind) item = behind.head? := by
  induction before with
  | nil => simp [following]
  | cons first rest ih =>
      have apart : first ≠ item := fun same => notBefore (same ▸ List.mem_cons_self)
      rw [List.cons_append, following, if_neg apart]
      exact ih fun mem => notBefore (List.mem_cons_of_mem _ mem)

theorem following_of_nodup (nodup : (before ++ item :: behind).Nodup) :
    following (before ++ item :: behind) item = behind.head? := by
  apply following_append
  intro mem
  exact (List.nodup_append.mp nodup).2.2 item mem item List.mem_cons_self rfl

theorem Follows.following_eq (follows : Follows items item next) (nodup : items.Nodup) :
    following items item = some next := by
  rcases follows with ⟨before, behind, rfl⟩
  exact following_of_nodup nodup

theorem IsLast.following_eq (last : IsLast items item) (nodup : items.Nodup) :
    following items item = none := by
  rcases last with ⟨before, rfl⟩
  exact following_of_nodup nodup

theorem IsLast.not_follows (last : IsLast items item) (nodup : items.Nodup) :
    ¬ Follows items item next := by
  intro follows
  have found := last.following_eq nodup
  rw [follows.following_eq nodup] at found
  cases found

end Following

section FlatMap

variable {items : List α} {parts : α → List β} {owner neighbour : α} {item next : β}

theorem Follows.flatMap (follows : Follows (parts owner) item next) (mem : owner ∈ items) :
    Follows (items.flatMap parts) item next := by
  rcases follows with ⟨before, behind, partEq⟩
  rcases List.append_of_mem mem with ⟨left, right, rfl⟩
  refine ⟨left.flatMap parts ++ before, behind ++ right.flatMap parts, ?_⟩
  simp [partEq]

/-- Behind the last item of a part stands the first item of the next part. -/
theorem Follows.flatMap_border (follows : Follows items owner neighbour)
    (last : IsLast (parts owner) item) (first : (parts neighbour).head? = some next) :
    Follows (items.flatMap parts) item next := by
  rcases follows with ⟨left, right, rfl⟩
  rcases last with ⟨before, partEq⟩
  rcases List.head?_eq_some_iff.mp first with ⟨behind, neighbourEq⟩
  refine ⟨left.flatMap parts ++ before, behind ++ right.flatMap parts, ?_⟩
  simp [partEq, neighbourEq]

/-- An item is in one part only when the whole has no repetitions. -/
theorem owner_unique (nodup : (items.flatMap parts).Nodup) (mem : owner ∈ items)
    (neighbourMem : neighbour ∈ items) (itemMem : item ∈ parts owner)
    (itemMem' : item ∈ parts neighbour) : owner = neighbour := by
  by_contra apart
  have disjoint := (List.nodup_flatMap.mp nodup).2
  have symm : Std.Symm (Function.onFun List.Disjoint parts) := 
    ⟨fun _ _ apart value left right => apart right left⟩
  exact disjoint.forall mem neighbourMem apart itemMem itemMem'

end FlatMap

end Neighbours

end RapidDb
