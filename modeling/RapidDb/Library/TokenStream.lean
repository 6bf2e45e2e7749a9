import Mathlib.Data.List.Basic

/-!
# Streams of tokens

A writer turns a list of tokens into a string; what it writes for a token may depend on what it has
written before. If tokens of one kind are prefix-free, two lists of tokens can have one string only
if tokens of different kinds stand at the first place where they differ, and one of the two begins
like the other.
-/

namespace RapidDb

universe u v w x

structure TokenFormat (σ : Type u) (τ : Type v) (β : Type w) where
  step : σ → τ → σ
  bytes : σ → τ → List β

namespace TokenFormat

variable {σ : Type u} {τ : Type v} {β : Type w} {κ : Type x} (format : TokenFormat σ τ β)

def run (state : σ) (tokens : List τ) : σ := tokens.foldl format.step state

def render : σ → List τ → List β
  | _, [] => []
  | state, token :: tokens => format.bytes state token ++ render (format.step state token) tokens

theorem render_append (state : σ) (tokens others : List τ) :
    format.render state (tokens ++ others) =
      format.render state tokens ++ format.render (format.run state tokens) others := by
  induction tokens generalizing state with
  | nil => rfl
  | cons token tokens ih =>
      rw [List.cons_append, render, render, ih, List.append_assoc]
      rfl

theorem run_append (state : σ) (tokens others : List τ) :
    format.run state (tokens ++ others) = format.run (format.run state tokens) others :=
  List.foldl_append

/-- One of two strings begins with the other. -/
def Alike (left right : List β) : Prop := left <+: right ∨ right <+: left

instance [DecidableEq β] (left right : List β) : Decidable (Alike left right) :=
  inferInstanceAs (Decidable (_ ∨ _))

/-- At the first place where the lists differ, tokens of different kinds are not alike. -/
def Apart [DecidableEq τ] (kind : τ → κ) : σ → List τ → List τ → Prop
  | state, left :: lefts, right :: rights =>
      if left = right then Apart kind (format.step state left) lefts rights
      else kind left = kind right ∨ ¬Alike (format.bytes state left) (format.bytes state right)
  | _, _, _ => True

instance decidableApart [DecidableEq τ] [DecidableEq κ] [DecidableEq β] (kind : τ → κ) :
    ∀ (state : σ) (lefts rights : List τ), Decidable (format.Apart kind state lefts rights)
  | state, left :: lefts, right :: rights =>
      if same : left = right then
        have := decidableApart kind (format.step state left) lefts rights
        decidable_of_iff (format.Apart kind (format.step state left) lefts rights)
          (by rw [Apart, if_pos same])
      else
        decidable_of_iff
          (kind left = kind right ∨ ¬Alike (format.bytes state left) (format.bytes state right))
          (by rw [Apart, if_neg same])
  | _, [], _ => isTrue trivial
  | _, _ :: _, [] => isTrue trivial

/-- Tokens of one kind tell where they end. -/
def PrefixFree (kind : τ → κ) (valid : τ → Prop) : Prop :=
  ∀ state left right rest others, valid left → valid right → kind left = kind right →
    format.bytes state left ++ rest = format.bytes state right ++ others → left = right

variable {format} {kind : τ → κ} {valid : τ → Prop} {last : τ}

/-- A list that is empty or ends with a token that is. -/
def Closed (last : τ) (tokens : List τ) : Prop := tokens = [] ∨ tokens.getLast? = some last

theorem Closed.tail {token : τ} {tokens : List τ} (closed : Closed last (token :: tokens)) :
    Closed last tokens := by
  cases tokens with
  | nil => exact Or.inl rfl
  | cons next tokens =>
      rcases closed with empty | closed
      · cases empty
      · right
        rw [← closed, List.getLast?_cons_cons]

theorem Closed.eq_nil {tokens : List τ} (closed : Closed last tokens)
    (nonempty : ∀ state, format.bytes state last ≠ []) {state : σ}
    (empty : format.render state tokens = []) : tokens = [] := by
  rcases closed with none | ends
  · exact none
  · exfalso
    rcases List.getLast?_eq_some_iff.mp ends with ⟨front, rfl⟩
    rw [render_append, List.append_eq_nil_iff] at empty
    apply nonempty (format.run state front)
    simpa [render] using empty.2

theorem eq_of_render_eq [DecidableEq τ] (prefixFree : format.PrefixFree kind valid)
    (nonempty : ∀ state, format.bytes state last ≠ []) {lefts rights : List τ} {state : σ}
    (leftValid : ∀ token ∈ lefts, valid token) (rightValid : ∀ token ∈ rights, valid token)
    (leftClosed : Closed last lefts) (rightClosed : Closed last rights)
    (apart : format.Apart kind state lefts rights)
    (same : format.render state lefts = format.render state rights) : lefts = rights := by
  induction lefts generalizing state rights with
  | nil => exact (rightClosed.eq_nil nonempty same.symm).symm
  | cons left lefts ih =>
      cases rights with
      | nil => exact leftClosed.eq_nil nonempty same
      | cons right rights =>
          rw [render, render] at same
          by_cases equal : left = right
          · subst equal
            rw [Apart, if_pos rfl] at apart
            rw [List.append_cancel_left_eq] at same
            rw [ih (fun token mem => leftValid token (List.mem_cons_of_mem _ mem))
              (fun token mem => rightValid token (List.mem_cons_of_mem _ mem))
              leftClosed.tail rightClosed.tail apart same]
          · exfalso
            rw [Apart, if_neg equal] at apart
            rcases apart with sameKind | unlike
            · exact equal (prefixFree state left right _ _ (leftValid left (by simp))
                (rightValid right (by simp)) sameKind same)
            · apply unlike
              have begins : format.bytes state left <+:
                  format.bytes state right ++ format.render (format.step state right) rights := by
                rw [← same]
                exact List.prefix_append _ _
              have begins' : format.bytes state right <+:
                  format.bytes state right ++ format.render (format.step state right) rights :=
                List.prefix_append _ _
              rcases Nat.le_total (format.bytes state left).length
                (format.bytes state right).length with shorter | shorter
              · exact Or.inl (List.prefix_of_prefix_length_le begins begins' shorter)
              · exact Or.inr (List.prefix_of_prefix_length_le begins' begins shorter)

end TokenFormat

end RapidDb
