import Mathlib.Order.Basic

/-!
Two actions on a state, side by side. They are related when they end alike from related
states: both with related values in related states, or both with related failures.
-/

namespace Related

variable {ε σ α β γ δ : Type}

/-- How two actions may end: `R` relates the states, `E` failures with the states they leave
behind, `V` values. -/
inductive Outcomes (R : σ → σ → Prop) (E : ε → σ → ε → σ → Prop) (V : α → β → Prop) :
    EStateM.Result ε σ α → EStateM.Result ε σ β → Prop where
  | ok (a : α) (b : β) (s t : σ) (values : V a b) (states : R s t) :
      Outcomes R E V (.ok a s) (.ok b t)
  | error (e f : ε) (s t : σ) (failures : E e s f t) : Outcomes R E V (.error e s) (.error f t)

def Acts (R : σ → σ → Prop) (E : ε → σ → ε → σ → Prop) (V : α → β → Prop)
    (first : EStateM ε σ α) (second : EStateM ε σ β) : Prop :=
  ∀ s t, R s t → Outcomes R E V (first s) (second t)

variable {R : σ → σ → Prop} {E : ε → σ → ε → σ → Prop}

theorem acts_pure {V : α → β → Prop} (a : α) (b : β) (values : V a b) :
    Acts R E V (pure a) (pure b) := by
  intro s t states
  exact .ok a b s t values states

theorem acts_get : Acts R E R get get := by
  intro s t states
  exact .ok s t s t states states

theorem acts_bind {V : α → β → Prop} {W : γ → δ → Prop} {first : EStateM ε σ α}
    {second : EStateM ε σ β} {next : α → EStateM ε σ γ} {after : β → EStateM ε σ δ}
    (begins : Acts R E V first second) (goes : ∀ a b, V a b → Acts R E W (next a) (after b)) :
    Acts R E W (first >>= next) (second >>= after) := by
  intro s t states
  change Outcomes R E W (EStateM.bind first next s) (EStateM.bind second after t)
  unfold EStateM.bind
  have both := begins s t states
  generalize first s = one at both ⊢
  generalize second t = other at both ⊢
  cases both with
  | ok a b s t values states => exact goes a b values s t states
  | error e f s t failures => exact .error e f s t failures

theorem acts_ite {V : α → β → Prop} (condition : Prop) [Decidable condition]
    {first third : EStateM ε σ α} {second fourth : EStateM ε σ β}
    (yes : Acts R E V first second) (no : Acts R E V third fourth) :
    Acts R E V (if condition then first else third) (if condition then second else fourth) := by
  split
  · exact yes
  · exact no

theorem acts_then {W : γ → γ → Prop} {first second : EStateM ε σ α} {next : α → EStateM ε σ γ}
    (begins : Acts R E Eq first second) (goes : ∀ a, Acts R E W (next a) (next a)) :
    Acts R E W (first >>= next) (second >>= next) := by
  apply acts_bind begins
  rintro a _ rfl
  exact goes a

theorem acts_of_eq {V : α → β → Prop} {first : EStateM ε σ α} {second third : EStateM ε σ β}
    (same : third = second) (acts : Acts R E V first second) : Acts R E V first third :=
  same ▸ acts

end Related
