import Mathlib.Data.List.Induction

set_option autoImplicit false

namespace Kido.Shared

universe u v

variable {σ : Type u} {α : Type v} (step : σ → α → σ) (start : σ)

def run (inputs : List α) : σ := inputs.foldl step start

@[simp]
theorem run_nil : run step start [] = start := rfl

theorem run_append (first second : List α) :
    run step start (first ++ second) = run step (run step start first) second :=
  List.foldl_append

theorem run_snoc (inputs : List α) (input : α) :
    run step start (inputs ++ [input]) = step (run step start inputs) input := by
  rw [run_append]
  rfl

variable {step start}

theorem run_invariant {P : σ → Prop} (initial : P start)
    (keeps : ∀ state input, P state → P (step state input)) (inputs : List α) : P (run step start inputs) := by
  induction inputs using List.reverseRecOn with
  | nil => exact initial
  | append_singleton inputs input ih =>
    rw [run_snoc]
    exact keeps _ input ih

section Allowed

variable (step) (allowed : σ → α → Prop)

def AllAllowed : σ → List α → Prop
  | _, [] => True
  | state, input :: rest => allowed state input ∧ AllAllowed (step state input) rest

instance allAllowed_decidable [∀ state input, Decidable (allowed state input)] :
    (state : σ) → (inputs : List α) → Decidable (AllAllowed step allowed state inputs)
  | _, [] => .isTrue trivial
  | state, input :: rest =>
    haveI := allAllowed_decidable (step state input) rest
    inferInstanceAs (Decidable (_ ∧ _))

end Allowed

theorem allAllowed_append {allowed : σ → α → Prop} {first second : List α} :
    AllAllowed step allowed start (first ++ second) ↔
      AllAllowed step allowed start first ∧ AllAllowed step allowed (run step start first) second := by
  induction first generalizing start with
  | nil => simp [AllAllowed]
  | cons input rest ih => simp only [List.cons_append, AllAllowed, ih, and_assoc, run, List.foldl_cons]

theorem run_allowed {P : σ → Prop} {allowed : σ → α → Prop} (keeps : ∀ state input, P state → allowed state input → P (step state input))
    {inputs : List α} (initial : P start) (met : AllAllowed step allowed start inputs) : P (run step start inputs) := by
  induction inputs generalizing start with
  | nil => exact initial
  | cons input rest ih => exact ih (keeps start input initial met.1) met.2

end Kido.Shared
