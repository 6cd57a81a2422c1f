import Mathlib.Tactic.Common

/-!
# Runs under a condition

A machine steps from state to state by inputs.  `Reaches step ok s₀` are the
states it comes to from `s₀` when every input meets `ok` in the state it comes
in; `Reaches.invariant` is induction along such a run.
-/

namespace OnionRelay.Lib

variable {σ α : Type}

inductive Reaches (step : σ → α → σ) (ok : σ → α → Prop) (s₀ : σ) : σ → Prop
  | start : Reaches step ok s₀ s₀
  | next {s : σ} {a : α} : Reaches step ok s₀ s → ok s a → Reaches step ok s₀ (step s a)

namespace Reaches

variable {step : σ → α → σ} {ok : σ → α → Prop} {s₀ s : σ}

/-- **Induction along a run.** -/
theorem invariant {I : σ → Prop} (h : Reaches step ok s₀ s) (h₀ : I s₀)
    (hstep : ∀ s a, I s → ok s a → I (step s a)) : I s := by
  induction h with
  | start => exact h₀
  | next _ hok ih => exact hstep _ _ ih hok

/-- Without a condition, a run is a list of inputs. -/
theorem of_foldl (inputs : List α) (hok : ∀ s, ∀ a ∈ inputs, ok s a)
    (h : Reaches step ok s₀ s) : Reaches step ok s₀ (inputs.foldl step s) := by
  induction inputs generalizing s with
  | nil => exact h
  | cons a inputs ih =>
    refine ih (fun s b hb => hok s b (List.mem_cons_of_mem a hb)) (h.next ?_)
    exact hok s a List.mem_cons_self

/-- Each of a list of inputs meets the condition in the state it comes in. -/
def Along (step : σ → α → σ) (ok : σ → α → Prop) : σ → List α → Prop
  | _, [] => True
  | s, a :: inputs => ok s a ∧ Along step ok (step s a) inputs

instance decidableAlong [∀ s a, Decidable (ok s a)] :
    ∀ s inputs, Decidable (Along step ok s inputs)
  | _, [] => isTrue trivial
  | s, a :: inputs =>
    have := decidableAlong (step s a) inputs
    inferInstanceAs (Decidable (_ ∧ _))

theorem of_along (h : Reaches step ok s₀ s) {inputs : List α} (hok : Along step ok s inputs) :
    Reaches step ok s₀ (inputs.foldl step s) := by
  induction inputs generalizing s with
  | nil => exact h
  | cons a inputs ih => exact ih (h.next hok.1) hok.2

end Reaches

end OnionRelay.Lib
