import Mathlib.Data.Set.Basic
import Mathlib.Order.RelClasses

/-!
# Comparison operators

A program compares values with six operators, of which three are written out and the other
three are their complements. A call may stop the program, so an operator returns an optional
truth value. On a set of values the operators describe one total preorder when they always
return, exactly one of less, equal and greater holds, and equality and less compose. It is
enough that they compare a rank in a linear order.
-/

namespace RapidDb

/-- The six comparison operators of a type. -/
structure Comparison (V : Type*) where
  eq : V → V → Option Bool
  ne : V → V → Option Bool
  lt : V → V → Option Bool
  le : V → V → Option Bool
  gt : V → V → Option Bool
  ge : V → V → Option Bool

namespace Comparison

/-- The operators given by three of them. -/
def complete {V : Type*} (eq gt ge : V → V → Option Bool) : Comparison V where
  eq := eq
  ne value1 value2 := (eq value1 value2).map not
  lt value1 value2 := (ge value1 value2).map not
  le value1 value2 := (gt value1 value2).map not
  gt := gt
  ge := ge

variable {V : Type*} {operators : Comparison V} {values : Set V}

/-- All three answers are given, and exactly one of them is yes. -/
def ExactlyOne (less same greater : Option Bool) : Prop :=
  (less = some true ∧ same = some false ∧ greater = some false) ∨
    (less = some false ∧ same = some true ∧ greater = some false) ∨
    (less = some false ∧ same = some false ∧ greater = some true)

/-- The operators describe one total preorder on a set of values. -/
structure TotalPreorder (operators : Comparison V) (values : Set V) : Prop where
  exactlyOne : ∀ a ∈ values, ∀ b ∈ values,
    ExactlyOne (operators.lt a b) (operators.eq a b) (operators.gt a b)
  swap : ∀ a ∈ values, ∀ b ∈ values, operators.gt a b = operators.lt b a
  refl : ∀ a ∈ values, operators.eq a a = some true
  symm : ∀ a ∈ values, ∀ b ∈ values, operators.eq a b = some true → operators.eq b a = some true
  trans : ∀ a ∈ values, ∀ b ∈ values, ∀ c ∈ values, operators.eq a b = some true →
    operators.eq b c = some true → operators.eq a c = some true
  lt_trans : ∀ a ∈ values, ∀ b ∈ values, ∀ c ∈ values, operators.lt a b = some true →
    operators.lt b c = some true → operators.lt a c = some true
  lt_of_lt_of_eq : ∀ a ∈ values, ∀ b ∈ values, ∀ c ∈ values, operators.lt a b = some true →
    operators.eq b c = some true → operators.lt a c = some true
  lt_of_eq_of_lt : ∀ a ∈ values, ∀ b ∈ values, ∀ c ∈ values, operators.eq a b = some true →
    operators.lt b c = some true → operators.lt a c = some true
  ne_eq : ∀ a ∈ values, ∀ b ∈ values, operators.ne a b = (operators.eq a b).map not
  le_eq : ∀ a ∈ values, ∀ b ∈ values, operators.le a b = (operators.gt a b).map not
  ge_eq : ∀ a ∈ values, ∀ b ∈ values, operators.ge a b = (operators.lt a b).map not

/-- The answers of `==`, `>` and `>=` compare two ranks. -/
def Answers {R : Type*} [LinearOrder R] (rank1 rank2 : R) (same greater atLeast : Option Bool) :
    Prop :=
  same = some (decide (rank1 = rank2)) ∧ greater = some (decide (rank2 < rank1)) ∧
    atLeast = some (decide (rank2 ≤ rank1))

/-- Answers about a converted rank are answers about the rank when the conversion keeps the
order of the two. -/
theorem Answers.of_converted {R R' : Type*} [LinearOrder R] [LinearOrder R'] {rank1 rank2 : R}
    {converted1 converted2 : R'}
    (keeps : (converted1 < converted2 ↔ rank1 < rank2) ∧
      (converted2 < converted1 ↔ rank2 < rank1)) :
    Answers rank1 rank2 (some (decide (converted1 = converted2)))
      (some (decide (converted2 < converted1))) (some (decide (converted2 ≤ converted1))) := by
  rcases keeps with ⟨less, greater⟩
  have same : converted1 = converted2 ↔ rank1 = rank2 := by
    rw [eq_iff_le_not_lt, eq_iff_le_not_lt, ← not_lt, ← not_lt, less, greater]
  have atLeast : converted2 ≤ converted1 ↔ rank2 ≤ rank1 := by rw [← not_lt, ← not_lt, less]
  simp only [Answers, same, greater, atLeast, and_self]

/-- Operators that compare a rank describe a total preorder. -/
theorem TotalPreorder.of_rank {R : Type*} [LinearOrder R] (rank : V → R)
    {eq gt ge : V → V → Option Bool}
    (answers : ∀ a ∈ values, ∀ b ∈ values, Answers (rank a) (rank b) (eq a b) (gt a b) (ge a b)) :
    (complete eq gt ge).TotalPreorder values := by
  have eqRank (a) (aMem : a ∈ values) (b) (bMem : b ∈ values) := (answers a aMem b bMem).1
  have gtRank (a) (aMem : a ∈ values) (b) (bMem : b ∈ values) := (answers a aMem b bMem).2.1
  have geRank (a) (aMem : a ∈ values) (b) (bMem : b ∈ values) := (answers a aMem b bMem).2.2
  have eqIff (a) (aMem : a ∈ values) (b) (bMem : b ∈ values) :
      eq a b = some true ↔ rank a = rank b := by simp [eqRank a aMem b bMem]
  have ltIff (a) (aMem : a ∈ values) (b) (bMem : b ∈ values) :
      (ge a b).map not = some true ↔ rank a < rank b := by simp [geRank a aMem b bMem]
  constructor
  · intro a aMem b bMem
    simp only [complete, eqRank a aMem b bMem, gtRank a aMem b bMem, geRank a aMem b bMem]
    rcases lt_trichotomy (rank a) (rank b) with less | same | greater
    · simp [ExactlyOne, less, less.ne, less.le]
    · simp [ExactlyOne, same]
    · simp [ExactlyOne, greater, greater.ne', greater.le]
  · intro a aMem b bMem
    simp only [complete, gtRank a aMem b bMem, geRank b bMem a aMem, Option.map_some,
      ← decide_not, not_le]
  · intro a aMem
    simp [complete, eqRank a aMem a aMem]
  · intro a aMem b bMem same
    exact (eqIff b bMem a aMem).mpr ((eqIff a aMem b bMem).mp same).symm
  · intro a aMem b bMem c cMem same1 same2
    exact (eqIff a aMem c cMem).mpr
      (((eqIff a aMem b bMem).mp same1).trans ((eqIff b bMem c cMem).mp same2))
  · intro a aMem b bMem c cMem less1 less2
    exact (ltIff a aMem c cMem).mpr
      (((ltIff a aMem b bMem).mp less1).trans ((ltIff b bMem c cMem).mp less2))
  · intro a aMem b bMem c cMem less same
    exact (ltIff a aMem c cMem).mpr
      (((ltIff a aMem b bMem).mp less).trans_eq ((eqIff b bMem c cMem).mp same))
  · intro a aMem b bMem c cMem same less
    exact (ltIff a aMem c cMem).mpr
      (((eqIff a aMem b bMem).mp same).trans_lt ((ltIff b bMem c cMem).mp less))
  · intro a aMem b bMem
    rfl
  · intro a aMem b bMem
    rfl
  · intro a aMem b bMem
    simp [complete, geRank a aMem b bMem]

namespace TotalPreorder

theorem not_lt_self (laws : operators.TotalPreorder values) {a : V} (aMem : a ∈ values) :
    operators.lt a a ≠ some true := by
  intro less
  have one := laws.exactlyOne a aMem a aMem
  simp [ExactlyOne, less, laws.refl a aMem] at one

theorem eq_of_incomparable (laws : operators.TotalPreorder values) {a b : V}
    (aMem : a ∈ values) (bMem : b ∈ values) (notLess : operators.lt a b ≠ some true)
    (notGreater : operators.lt b a ≠ some true) : operators.eq a b = some true := by
  have one := laws.exactlyOne a aMem b bMem
  rw [← laws.swap a aMem b bMem] at notGreater
  rcases one with ⟨less, -, -⟩ | ⟨-, same, -⟩ | ⟨-, -, greater⟩
  · exact absurd less notLess
  · exact same
  · exact absurd greater notGreater

/-- The operator `<` is a strict weak order, as an ordered set demands of its comparator. -/
theorem strictWeakOrder (laws : operators.TotalPreorder values) :
    IsStrictWeakOrder values fun a b => operators.lt a b = some true where
  irrefl a := laws.not_lt_self a.property
  trans a b c := laws.lt_trans a a.property b b.property c c.property
  incomp_trans a b c := by
    rintro ⟨notLess1, notGreater1⟩ ⟨notLess2, notGreater2⟩
    have same1 := laws.eq_of_incomparable a.property b.property notLess1 notGreater1
    have same2 := laws.eq_of_incomparable b.property c.property notLess2 notGreater2
    have same := laws.trans a a.property b b.property c c.property same1 same2
    have back := laws.symm a a.property c c.property same
    constructor
    · intro less
      exact laws.not_lt_self a.property
        (laws.lt_of_lt_of_eq a a.property c c.property a a.property less back)
    · intro less
      exact laws.not_lt_self c.property
        (laws.lt_of_lt_of_eq c c.property a a.property c c.property less same)

/-- The operator `==` is an equivalence. -/
theorem equivalence (laws : operators.TotalPreorder values) :
    Equivalence fun a b : values => operators.eq a b = some true where
  refl a := laws.refl a a.property
  symm := laws.symm _ (Subtype.property _) _ (Subtype.property _)
  trans := laws.trans _ (Subtype.property _) _ (Subtype.property _) _ (Subtype.property _)

end TotalPreorder

end Comparison

end RapidDb
