import Mathlib.Logic.Relation

/-!
# Runs of a partial step function

A system is a step function that may refuse an input. Its runs are taken under a
condition on the state and the input before each step, so that a result can be
stated for all runs (the condition is `True`) and for those whose steps all meet a
condition.
-/

namespace RapidDb

universe u v

namespace Transition

variable {σ : Type u} {ι : Type v} {next : σ → ι → Option σ} {permitted : σ → ι → Prop}

/-- One step on an input that meets the condition. -/
def Step (next : σ → ι → Option σ) (permitted : σ → ι → Prop) (source target : σ) : Prop :=
  ∃ input, permitted source input ∧ next source input = some target

def Reaches (next : σ → ι → Option σ) (permitted : σ → ι → Prop) : σ → σ → Prop :=
  Relation.ReflTransGen (Step next permitted)

def anyInput (_ : σ) (_ : ι) : Prop := True

def exec (next : σ → ι → Option σ) : List ι → σ → Option σ
  | [], source => some source
  | input :: inputs, source => (next source input).bind (exec next inputs)

/-- The state after a list of inputs that all meet a condition. -/
def execPermitted (next : σ → ι → Option σ) (permitted : σ → ι → Prop)
    [∀ source input, Decidable (permitted source input)] : List ι → σ → Option σ :=
  exec fun source input => if permitted source input then next source input else none

theorem Reaches.refl (source : σ) : Reaches next permitted source source :=
  Relation.ReflTransGen.refl

theorem Reaches.tail {source middle target : σ}
    (run : Reaches next permitted source middle) (input : ι) (meets : permitted middle input)
    (step : next middle input = some target) : Reaches next permitted source target :=
  Relation.ReflTransGen.tail run ⟨input, meets, step⟩

/-- What every permitted step preserves holds at the end of every run. -/
theorem Reaches.preserves {invariant : σ → Prop} {source target : σ}
    (run : Reaches next permitted source target) (initially : invariant source)
    (preserved : ∀ state input state', permitted state input → invariant state →
      next state input = some state' → invariant state') :
    invariant target := by
  induction run with
  | refl => exact initially
  | tail _ step ih =>
      rcases step with ⟨input, meets, stepEq⟩
      exact preserved _ input _ meets ih stepEq

/-- A run under a condition is a run. -/
theorem Reaches.anyInput {source target : σ} (run : Reaches next permitted source target) :
    Reaches next anyInput source target :=
  run.preserves (Reaches.refl source) fun _ input _ _ reached step =>
    reached.tail input trivial step

/-- An execution whose inputs meet the condition in every state is a run. -/
theorem reaches_of_forall (inputs : List ι) {source target : σ}
    (meets : ∀ input ∈ inputs, ∀ state, permitted state input)
    (executed : exec next inputs source = some target) :
    Reaches next permitted source target := by
  induction inputs generalizing source with
  | nil =>
      have same : source = target := by simpa [exec] using executed
      exact same ▸ Reaches.refl source
  | cons input inputs ih =>
      simp only [exec] at executed
      rcases Option.bind_eq_some_iff.mp executed with ⟨middle, step, rest⟩
      rcases List.forall_mem_cons.mp meets with ⟨first, others⟩
      exact Relation.ReflTransGen.head ⟨input, first source, step⟩ (ih others rest)

/-- An execution is a run. -/
theorem reaches_of_exec (inputs : List ι) {source target : σ}
    (executed : exec next inputs source = some target) :
    Reaches next anyInput source target :=
  reaches_of_forall inputs (fun _ _ _ => trivial) executed

theorem reaches_of_execPermitted [∀ source input, Decidable (permitted source input)]
    (inputs : List ι) {source target : σ}
    (executed : execPermitted next permitted inputs source = some target) :
    Reaches next permitted source target := by
  refine (reaches_of_exec inputs executed).preserves (Reaches.refl source) ?_
  intro state input state' _ reached step
  by_cases meets : permitted state input
  · rw [if_pos meets] at step
    exact reached.tail input meets step
  · rw [if_neg meets] at step
    cases step

/-- A list of inputs never leaves a condition on the states. -/
def Throughout (next : σ → ι → Option σ) (invariant : σ → Prop) : List ι → σ → Prop
  | [], state => invariant state
  | input :: inputs, state =>
      invariant state ∧ ∀ state', next state input = some state' →
        Throughout next invariant inputs state'

/-- Every step that a list of inputs makes meets a condition. -/
def EachStep (next : σ → ι → Option σ) (permitted : σ → ι → Prop) : List ι → σ → Prop
  | [], _ => True
  | input :: inputs, state =>
      ∀ state', next state input = some state' →
        permitted state input ∧ EachStep next permitted inputs state'

theorem Throughout.first {invariant : σ → Prop} {inputs : List ι} {state : σ}
    (always : Throughout next invariant inputs state) : invariant state := by
  cases inputs with
  | nil => exact always
  | cons input inputs => exact always.1

/-- Where an invariant shows the property, and is kept by a step exactly when this meets the
condition, a run has the property exactly when all of its steps meet the condition. -/
theorem throughout_iff_of_sound {property sound : σ → Prop}
    (shows : ∀ state, sound state → property state)
    (keeps : ∀ state input state', sound state → next state input = some state' →
      permitted state input → sound state')
    (meets : ∀ state input state', sound state → next state input = some state' →
      property state' → permitted state input)
    (inputs : List ι) {state : σ} (initially : sound state) :
    Throughout next property inputs state ↔ EachStep next permitted inputs state := by
  induction inputs generalizing state with
  | nil => exact iff_of_true (shows state initially) trivial
  | cons input inputs ih =>
      constructor
      · rintro ⟨-, always⟩ state' step
        have condition := meets state input state' initially step (always state' step).first
        have sound' := keeps state input state' initially step condition
        exact ⟨condition, (ih sound').mp (always state' step)⟩
      · intro each
        refine ⟨shows state initially, ?_⟩
        intro state' step
        rcases each state' step with ⟨condition, rest⟩
        exact (ih (keeps state input state' initially step condition)).mpr rest

/-- Where a step keeps the invariant exactly when it meets the condition, a run keeps it exactly
when all of its steps do. -/
theorem throughout_iff_eachStep {invariant : σ → Prop}
    (keeps : ∀ state input state', invariant state → next state input = some state' →
      (invariant state' ↔ permitted state input))
    (inputs : List ι) {state : σ} (initially : invariant state) :
    Throughout next invariant inputs state ↔ EachStep next permitted inputs state :=
  throughout_iff_of_sound (fun _ sound => sound)
    (fun state input state' sound step => (keeps state input state' sound step).mpr)
    (fun state input state' sound step => (keeps state input state' sound step).mp)
    inputs initially

end Transition

end RapidDb
