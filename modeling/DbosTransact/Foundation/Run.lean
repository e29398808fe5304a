import Mathlib.Logic.Basic
import Mathlib.Data.Option.Basic

/-!
# Runs of a transition system

A transition system is an executable partial step function `σ → ℓ → Option σ`. `Run step ok s₀ s`
says that `s` is reached from `s₀` by steps each of which satisfies the condition `ok` in the state
it is taken from. The induction that turns a step lemma into a statement about every reachable state
is done once, in `Run.invariant`; `exec` computes the state a list of labels leads to, and
`Run.of_exec` turns such a computation into a run.
-/

/-- `s` is reached from `s₀` by steps that satisfy `ok`. -/
inductive Run {σ ℓ : Type*} (step : σ → ℓ → Option σ) (ok : σ → ℓ → Prop) (s₀ : σ) : σ → Prop
  | refl : Run step ok s₀ s₀
  | tail {s s' : σ} {l : ℓ} : Run step ok s₀ s → ok s l → step s l = some s' →
      Run step ok s₀ s'

namespace Run

variable {σ ℓ : Type*} {step : σ → ℓ → Option σ} {ok ok' : σ → ℓ → Prop} {s₀ s₁ s : σ}

/-- What holds at the start and is kept by every admissible step holds of every reachable state. -/
theorem invariant {P : σ → Prop} (h : Run step ok s₀ s) (h₀ : P s₀)
    (hstep : ∀ s l s', P s → ok s l → step s l = some s' → P s') : P s := by
  induction h with
  | refl => exact h₀
  | tail _ hok hs ih => exact hstep _ _ _ ih hok hs

theorem mono (h : Run step ok s₀ s) (hok : ∀ s l, ok s l → ok' s l) : Run step ok' s₀ s := by
  induction h with
  | refl => exact .refl
  | tail _ hl hs ih => exact .tail ih (hok _ _ hl) hs

theorem trans (h : Run step ok s₀ s₁) (h' : Run step ok s₁ s) : Run step ok s₀ s := by
  induction h' with
  | refl => exact h
  | tail _ hl hs ih => exact .tail ih hl hs

end Run

/-- The state a list of labels leads to. -/
def exec {σ ℓ : Type*} (step : σ → ℓ → Option σ) : σ → List ℓ → Option σ
  | s, [] => some s
  | s, l :: ls => (step s l).bind fun s' ↦ exec step s' ls

/-- A computed run, when every label is admissible wherever it is taken. -/
theorem Run.of_exec {σ ℓ : Type*} {step : σ → ℓ → Option σ} {ok : σ → ℓ → Prop} {s₀ s : σ}
    {ls : List ℓ} (h : exec step s₀ ls = some s) (hok : ∀ s, ∀ l ∈ ls, ok s l) :
    Run step ok s₀ s := by
  induction ls generalizing s₀ with
  | nil => cases h; exact .refl
  | cons l ls ih =>
    obtain ⟨s', hs', hrest⟩ := Option.bind_eq_some_iff.1 h
    have hfirst : Run step ok s₀ s' := Run.refl.tail (hok s₀ l List.mem_cons_self) hs'
    exact hfirst.trans (ih hrest fun s l hl ↦ hok s l (List.mem_cons_of_mem _ hl))

/-- A computed run, when every step passes a check where it is taken. -/
theorem Run.of_exec_checked {σ ℓ : Type*} {step : σ → ℓ → Option σ} {ok : σ → ℓ → Prop}
    {check : σ → ℓ → Bool} {s₀ s : σ} {ls : List ℓ}
    (h : exec (fun s l ↦ if check s l then step s l else none) s₀ ls = some s)
    (hok : ∀ s, ∀ l ∈ ls, check s l = true → ok s l) : Run step ok s₀ s := by
  induction ls generalizing s₀ with
  | nil => cases h; exact .refl
  | cons l ls ih =>
    obtain ⟨s', hs', hrest⟩ := Option.bind_eq_some_iff.1 h
    obtain ⟨hcheck, hs'⟩ := Option.ite_none_right_eq_some.1 hs'
    have hfirst : Run step ok s₀ s' := Run.refl.tail (hok s₀ l List.mem_cons_self hcheck) hs'
    exact hfirst.trans (ih hrest fun s l hl ↦ hok s l (List.mem_cons_of_mem _ hl))

/-- What is computed with checks is computed without them. -/
theorem exec_of_checked {σ ℓ : Type*} {step : σ → ℓ → Option σ} {check : σ → ℓ → Bool} {s₀ s : σ}
    {ls : List ℓ} (h : exec (fun s l ↦ if check s l then step s l else none) s₀ ls = some s) :
    exec step s₀ ls = some s := by
  induction ls generalizing s₀ with
  | nil => exact h
  | cons l ls ih =>
    obtain ⟨s', hs', hrest⟩ := Option.bind_eq_some_iff.1 h
    exact Option.bind_eq_some_iff.2 ⟨s', (Option.ite_none_right_eq_some.1 hs').2, ih hrest⟩
