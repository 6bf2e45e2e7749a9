import Mathlib.Data.List.Basic
import Mathlib.Order.Defs.Unbundled

/-!
# Ordered sets with a comparator

An ordered set is kept as the list of its elements in the order of iteration. A value goes in
front of the first element that comes after it, and a value equivalent to an element is not
inserted. The comparator has to be a strict weak order on the values and the elements; nothing
is known about a set whose comparator is not.
-/

namespace RapidDb

namespace OrderedSet

variable {α : Type*}

/-- The comparator is a strict weak order on the values. -/
structure StrictWeak (comp : α → α → Bool) (values : List α) : Prop where
  irrefl : ∀ a ∈ values, comp a a = false
  trans : ∀ a ∈ values, ∀ b ∈ values, ∀ c ∈ values,
    comp a b = true → comp b c = true → comp a c = true
  incomparable : ∀ a ∈ values, ∀ b ∈ values, ∀ c ∈ values,
    comp a b = false ∧ comp b a = false → comp b c = false ∧ comp c b = false →
      comp a c = false ∧ comp c a = false

instance (comp : α → α → Bool) (values : List α) : Decidable (StrictWeak comp values) :=
  decidable_of_iff (_ ∧ _ ∧ _)
    ⟨fun laws => ⟨laws.1, laws.2.1, laws.2.2⟩,
      fun weak => ⟨weak.irrefl, weak.trans, weak.incomparable⟩⟩

/-- Puts a value in its place unless an equivalent element is there. -/
def place (comp : α → α → Bool) (value : α) : List α → List α
  | [] => [value]
  | element :: elements =>
      if comp value element then value :: element :: elements
      else if comp element value then element :: place comp value elements
      else element :: elements

/-- Inserts a value, none when the comparator breaks its contract. -/
def insert (comp : α → α → Bool) (value : α) (elements : List α) : Option (List α) :=
  if StrictWeak comp (value :: elements) then some (place comp value elements) else none

theorem StrictWeak.asymm {comp : α → α → Bool} {values : List α} (weak : StrictWeak comp values)
    {a b : α} (aMem : a ∈ values) (bMem : b ∈ values) (before : comp a b = true) :
    comp b a = false := by
  rw [← Bool.not_eq_true]
  intro after
  have self := weak.trans a aMem b bMem a aMem before after
  rw [weak.irrefl a aMem] at self
  cases self

section

variable {K : Type*} [DecidableEq K] {key : α → K} {comp : α → α → Bool}

/-- A comparator that only tells whether two keys differ orders no two different keys. -/
theorem strictWeak_differs (differs : ∀ a b, comp a b = decide (key a ≠ key b)) (values : List α) :
    StrictWeak comp values ↔ ∀ a ∈ values, ∀ b ∈ values, key a = key b := by
  constructor
  · intro weak a aMem b bMem
    by_contra different
    have before : comp a b = true := by simp [differs, different]
    have after := weak.asymm aMem bMem before
    simp [differs, Ne.symm different] at after
  · intro same
    have never (a) (aMem : a ∈ values) (b) (bMem : b ∈ values) : comp a b = false := by
      simp [differs, same a aMem b bMem]
    constructor
    · intro a aMem
      exact never a aMem a aMem
    · intro a aMem b bMem c cMem before
      rw [never a aMem b bMem] at before
      cases before
    · intro a aMem b bMem c cMem _ _
      exact ⟨never a aMem c cMem, never c cMem a aMem⟩

/-- With such a comparator only values of one key can be inserted, and the first one stays. -/
theorem foldlM_insert_differs (differs : ∀ a b, comp a b = decide (key a ≠ key b)) (first : α)
    (values : List α) (set : List α) :
    values.foldlM (fun elements value => insert comp value elements) [first] = some set ↔
      (∀ value ∈ values, key value = key first) ∧ set = [first] := by
  induction values with
  | nil => simp [eq_comm]
  | cons value values ih =>
      rw [List.foldlM_cons, insert]
      by_cases same : key value = key first
      · have weak : StrictWeak comp [value, first] := by
          simp [strictWeak_differs differs, same]
        have placed : place comp value [first] = [first] := by simp [place, differs, same]
        rw [if_pos weak, placed, Option.bind_eq_bind, Option.bind_some, ih]
        simp [same]
      · have broken : ¬StrictWeak comp [value, first] := by
          simp [strictWeak_differs differs, same]
        rw [if_neg broken]
        simp [same]

theorem foldlM_insert_head (differs : ∀ a b, comp a b = decide (key a ≠ key b))
    (values : List α) (set : List α) :
    values.foldlM (fun elements value => insert comp value elements) [] = some set ↔
      (∀ a ∈ values, ∀ b ∈ values, key a = key b) ∧ set = values.head?.toList := by
  cases values with
  | nil => simp [eq_comm]
  | cons first values =>
      have weak : StrictWeak comp [first] := by simp [strictWeak_differs differs]
      rw [List.foldlM_cons, insert, if_pos weak, Option.bind_eq_bind, Option.bind_some, place,
        foldlM_insert_differs differs]
      simp only [List.head?_cons, Option.toList_some, and_congr_left_iff]
      intro _
      constructor
      · intro same
        have toFirst (a) (aMem : a ∈ first :: values) : key a = key first := by
          rcases List.mem_cons.mp aMem with rfl | tail
          · rfl
          · exact same a tail
        intro a aMem b bMem
        rw [toFirst a aMem, toFirst b bMem]
      · intro same value valueMem
        exact same value (List.mem_cons_of_mem first valueMem) first List.mem_cons_self

end

end OrderedSet

end RapidDb
