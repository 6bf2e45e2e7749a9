import Mathlib.Tactic.Common

/-!
# Rules of a generated lexer

A rule says in which start conditions it is active and which words it matches. A generated lexer
takes the longest word that begins the input and is matched by an active rule, and of several rules
for it the first.
-/

namespace RapidDb

universe u v w

/-- A rule, with what is done when it is taken. -/
structure LexRule (σ : Type u) (α : Type v) (τ : Type w) where
  active : σ → Bool
  accepts : List α → Bool
  action : τ

namespace LexRule

variable {σ : Type u} {α : Type v} {τ : Type w}

/-- The length of the longest beginning that is accepted, among those of at most a length. -/
def longest (accepts : List α → Bool) (input : List α) : ℕ → Option ℕ
  | 0 => if accepts [] then some 0 else none
  | bound + 1 =>
      if accepts (input.take (bound + 1)) then some (bound + 1)
      else longest accepts input bound

/-- The length of the word that is taken, and the action of its rule. -/
def choose (state : σ) (input : List α) : List (LexRule σ α τ) → Option (ℕ × τ)
  | [] => none
  | rule :: rules =>
      match if rule.active state then longest rule.accepts input input.length else none with
      | none => choose state input rules
      | some length =>
          match choose state input rules with
          | none => some (length, rule.action)
          | some (other, action) =>
              if other ≤ length then some (length, rule.action) else some (other, action)

/-- A rule matches the beginning of a length. -/
def Matches (state : σ) (input : List α) (rule : LexRule σ α τ) (length : ℕ) : Prop :=
  rule.active state = true ∧ rule.accepts (input.take length) = true

theorem longest_eq_some_iff {accepts : List α → Bool} {input : List α} {bound length : ℕ} :
    longest accepts input bound = some length ↔
      length ≤ bound ∧ accepts (input.take length) = true ∧
        ∀ other, length < other → other ≤ bound → accepts (input.take other) = false := by
  induction bound with
  | zero =>
      by_cases empty : accepts [] = true
      · simp only [longest, empty, if_true, Option.some.injEq]
        constructor
        · rintro rfl
          exact ⟨Nat.le_refl _, by simpa using empty, fun other less atMost => by omega⟩
        · rintro ⟨atMost, -, -⟩
          omega
      · simp only [longest, empty]
        constructor
        · intro impossible
          simp at impossible
        · rintro ⟨atMost, accepted, -⟩
          obtain rfl : length = 0 := by omega
          exact absurd (by simpa using accepted) empty
  | succ bound ih =>
      by_cases whole : accepts (input.take (bound + 1)) = true
      · simp only [longest, whole, if_true, Option.some.injEq]
        constructor
        · rintro rfl
          exact ⟨Nat.le_refl _, whole, fun other less atMost => by omega⟩
        · rintro ⟨atMost, -, none_longer⟩
          by_contra different
          have rejected := none_longer (bound + 1) (by omega) (Nat.le_refl _)
          simp [whole] at rejected
      · simp only [longest, whole, if_false, ih, Bool.false_eq_true]
        constructor
        · rintro ⟨atMost, accepted, none_longer⟩
          refine ⟨by omega, accepted, fun other less atMost' => ?_⟩
          rcases Nat.lt_or_ge bound other with last | before
          · obtain rfl : other = bound + 1 := by omega
            simpa using whole
          · exact none_longer other less before
        · rintro ⟨atMost, accepted, none_longer⟩
          have notLast : length ≠ bound + 1 := by
            rintro rfl
            exact whole accepted
          exact ⟨by omega, accepted, fun other less atMost' => none_longer other less (by omega)⟩

theorem own_eq_some_iff {state : σ} {input : List α} {rule : LexRule σ α τ} {length : ℕ} :
    (if rule.active state then longest rule.accepts input input.length else none) = some length ↔
      length ≤ input.length ∧ rule.Matches state input length ∧
        ∀ other, length < other → other ≤ input.length → ¬rule.Matches state input other := by
  by_cases active : rule.active state = true
  · simp [active, longest_eq_some_iff, Matches]
  · simp [active, Matches]

theorem matches_of_choose {state : σ} {input : List α} {rules : List (LexRule σ α τ)} {length : ℕ}
    {action : τ} (chosen : choose state input rules = some (length, action)) :
    length ≤ input.length ∧ ∃ rule ∈ rules, rule.Matches state input length := by
  induction rules generalizing length action with
  | nil => cases chosen
  | cons rule rules ih =>
      have later : ∀ {length : ℕ} {action : τ}, choose state input rules = some (length, action) →
          length ≤ input.length ∧ ∃ other ∈ rule :: rules, other.Matches state input length := by
        intro length action chosen
        rcases ih chosen with ⟨atMost, other, mem, found⟩
        exact ⟨atMost, other, List.mem_cons_of_mem rule mem, found⟩
      rw [choose] at chosen
      split at chosen
      · exact later chosen
      · rename_i own ownFound
        rcases own_eq_some_iff.mp ownFound with ⟨atMost, found, -⟩
        have here : own ≤ input.length ∧ ∃ other ∈ rule :: rules, other.Matches state input own :=
          ⟨atMost, rule, by simp, found⟩
        split at chosen
        · cases chosen
          exact here
        · split at chosen
          · cases chosen
            exact here
          · cases chosen
            exact later ‹_›

/-- A word that a rule matches is taken by it when no rule matches a longer one and no rule before
it matches the word. -/
theorem choose_eq_some {state : σ} {input : List α} {before after : List (LexRule σ α τ)}
    {rule : LexRule σ α τ} {length : ℕ} (atMost : length ≤ input.length)
    (found : rule.Matches state input length)
    (none_longer : ∀ other ∈ before ++ rule :: after, ∀ longer, length < longer →
      longer ≤ input.length → ¬other.Matches state input longer)
    (first : ∀ other ∈ before, ¬other.Matches state input length) :
    choose state input (before ++ rule :: after) = some (length, rule.action) := by
  induction before with
  | nil =>
      have own := own_eq_some_iff.mpr ⟨atMost, found, none_longer rule (by simp)⟩
      rw [List.nil_append, choose, own]
      cases chosen : choose state input after with
      | none => rfl
      | some other =>
          rcases other with ⟨other, action⟩
          rcases matches_of_choose chosen with ⟨inInput, later, mem, laterFound⟩
          have notLonger : other ≤ length := by
            by_contra longer
            exact none_longer later (by simp [mem]) other (by omega) inInput laterFound
          simp [notLonger]
  | cons earlier before ih =>
      have chosen := ih (fun other mem => none_longer other (by simp_all))
        fun other mem => first other (List.mem_cons_of_mem earlier mem)
      rw [List.cons_append, choose, chosen]
      split
      · rfl
      · rename_i own ownFound
        rcases own_eq_some_iff.mp ownFound with ⟨inInput, earlierFound, -⟩
        have shorter : own < length := by
          by_contra notShorter
          rcases Nat.lt_or_ge length own with longer | atMost'
          · exact none_longer earlier (by simp) own longer inInput earlierFound
          · obtain rfl : own = length := by omega
            exact first earlier (by simp) earlierFound
        simp [Nat.not_le.mpr shorter]

end LexRule

end RapidDb
