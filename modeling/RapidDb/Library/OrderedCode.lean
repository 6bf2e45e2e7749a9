import Mathlib.Data.List.Lex
import Mathlib.Data.Prod.Lex

/-!
# Codes that keep the order

A code writes each value as a string. It keeps the order when the strings of two values part
at a symbol that is smaller for the smaller value: then no string is the beginning of another
one, and whatever is appended to the strings, their order is that of the values. Such codes
can be put one behind the other.
-/

namespace RapidDb

variable {β : Type*} [LinearOrder β]

/-- Two strings part at a symbol that is smaller in the first one. -/
def Precedes (u v : List β) : Prop :=
  ∃ front x y rest rest', u = front ++ x :: rest ∧ v = front ++ y :: rest' ∧ x < y

namespace Precedes

variable {u v : List β}

theorem append (precedes : Precedes u v) (s t : List β) : Precedes (u ++ s) (v ++ t) := by
  obtain ⟨front, x, y, rest, rest', rfl, rfl, lt⟩ := precedes
  exact ⟨front, x, y, rest ++ s, rest' ++ t, by simp, by simp, lt⟩

theorem append_left (precedes : Precedes u v) (s : List β) : Precedes (s ++ u) (s ++ v) := by
  obtain ⟨front, x, y, rest, rest', rfl, rfl, lt⟩ := precedes
  exact ⟨s ++ front, x, y, rest, rest', by simp, by simp, lt⟩

theorem cons (precedes : Precedes u v) (x : β) : Precedes (x :: u) (x :: v) :=
  precedes.append_left [x]

theorem lt (precedes : Precedes u v) : u < v := by
  obtain ⟨front, x, y, rest, rest', rfl, rfl, lt⟩ := precedes
  exact List.Lex.append_left (· < ·) (List.Lex.rel lt) front

end Precedes

/-- The smaller one of two strings precedes the other one unless it is its beginning. -/
theorem precedes_of_not_prefix {u v : List β} (lt : u < v) (apart : ¬u <+: v) : Precedes u v := by
  induction u generalizing v with
  | nil => exact absurd (List.nil_prefix) apart
  | cons x u ih =>
      cases v with
      | nil => exact absurd lt (List.not_lt_nil _)
      | cons y v =>
          rcases List.cons_lt_cons_iff.mp lt with smaller | ⟨rfl, restLt⟩
          · exact ⟨[], x, y, u, v, rfl, rfl, smaller⟩
          · apply (ih restLt _).cons x
            intro isPrefix
            exact apart (List.prefix_cons_inj x |>.mpr isPrefix)

theorem precedes_of_lt {u v : List β} (lt : u < v) (sameLength : u.length = v.length) :
    Precedes u v := by
  apply precedes_of_not_prefix lt
  intro isPrefix
  rw [isPrefix.eq_of_length sameLength] at lt
  exact lt_irrefl _ lt

/-- Strings that end with their only terminator are no beginnings of each other. -/
theorem precedes_of_terminated {z : β} {u v : List β} (lt : u ++ [z] < v ++ [z]) (once : z ∉ v) :
    Precedes (u ++ [z]) (v ++ [z]) := by
  apply precedes_of_not_prefix lt
  rintro ⟨t, eq⟩
  rcases List.eq_nil_or_concat t with rfl | ⟨t, y, rfl⟩
  · rw [List.append_nil] at eq
    rw [eq] at lt
    exact lt_irrefl _ lt
  · rw [List.concat_eq_append, ← List.append_assoc] at eq
    have front := (List.append_inj' eq rfl).1
    apply once
    rw [← front]
    simp

/-- The string of the smaller value precedes the string of the other one. -/
def OrderedCode {α : Type*} [LinearOrder α] (code : α → List β) : Prop :=
  ∀ ⦃a b⦄, a < b → Precedes (code a) (code b)

namespace OrderedCode

variable {α γ : Type*} [LinearOrder α] [LinearOrder γ] {code : α → List β} {code' : γ → List β}

theorem strictMono (ordered : OrderedCode code) : StrictMono code :=
  fun _ _ lt => (ordered lt).lt

/-- The strings are ordered like the values, and equal for equal values only. -/
theorem lt_iff_lt (ordered : OrderedCode code) {a b : α} : code a < code b ↔ a < b :=
  ordered.strictMono.lt_iff_lt

theorem injective (ordered : OrderedCode code) : Function.Injective code :=
  ordered.strictMono.injective

theorem of_strictMono (mono : StrictMono code) (length : ∀ a b, (code a).length = (code b).length) :
    OrderedCode code :=
  fun a b lt => precedes_of_lt (mono lt) (length a b)

theorem prod (ordered : OrderedCode code) (ordered' : OrderedCode code') :
    OrderedCode fun pair : α ×ₗ γ => code (ofLex pair).1 ++ code' (ofLex pair).2 := by
  rintro ⟨a, c⟩ ⟨b, d⟩ lt
  rcases Prod.Lex.toLex_lt_toLex.mp lt with lt | ⟨rfl, lt⟩
  · exact (ordered lt).append _ _
  · exact (ordered' lt).append_left _

end OrderedCode

end RapidDb
