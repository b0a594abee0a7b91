import Mathlib.Tactic

/-! Labelled runs of a transition relation.
A run lists the labels of its steps in order, so a statement about every run is
a statement about every interleaving the labels can express, and a statement
about every run's final state holds of every state any run passes through. -/
namespace Transition

variable {σ α : Type*}

/-- Finite runs, with the labels of their steps in order. -/
inductive Run (step : σ → α → σ → Prop) : σ → List α → σ → Prop
  | nil (s) : Run step s [] s
  | cons {s a t as u} : step s a t → Run step t as u → Run step s (a::as) u

namespace Run

variable {step : σ → α → σ → Prop} {s t u : σ} {as bs : List α}

theorem single {a : α} (h : step s a t) : Run step s [a] t := .cons h (.nil t)

/-- Every split of the label list splits the run at an intermediate state. -/
theorem split (h : Run step s (as++bs) u) : ∃ t, Run step s as t ∧ Run step t bs u := by
  induction as generalizing s with
  | nil => exact ⟨s,.nil s,h⟩
  | cons a as ih =>
    cases h with
    | cons hstep htail =>
      obtain ⟨t,hst,htu⟩ := ih htail
      exact ⟨t,.cons hstep hst,htu⟩

/-- The invariant rule: what every step preserves holds after every run. -/
theorem invariant (I : σ → Prop) (hstep : ∀ s a t, I s → step s a t → I t)
    (h : Run step s as t) (hs : I s) : I t := by
  induction h with
  | nil => exact hs
  | cons hst _ ih => exact ih (hstep _ _ _ hs hst)

/-- The invariant rule for what also depends on the labels so far. -/
theorem history (I : List α → σ → Prop) (hstart : I [] s)
    (hstep : ∀ as s a t, I as s → step s a t → I (as++[a]) t) (h : Run step s as t) : I as t := by
  suffices hrest : ∀ done, I done s → I (done++as) t from hrest [] hstart
  clear hstart
  induction h with
  | nil s =>
    intro done hdone
    rwa [List.append_nil]
  | @cons s a t as u hst _ ih =>
    intro done hdone
    have hnext := ih (done++[a]) (hstep done s a t hdone hst)
    rwa [List.append_assoc] at hnext

/-- Where steps are computed, a list of labels has the run that folds over it. -/
theorem foldl (f : σ → α → σ) (s : σ) (as : List α) :
    Run (fun s a t => f s a = t) s as (as.foldl f s) := by
  induction as generalizing s with
  | nil => exact .nil s
  | cons a as ih => exact .cons rfl (ih (f s a))

/-- It has no other. -/
theorem eq_foldl {f : σ → α → σ} (h : Run (fun s a t => f s a = t) s as t) :
    t = as.foldl f s := by
  induction h with
  | nil => rfl
  | cons hstep _ ih =>
    subst hstep
    exact ih

/-- Runs of a relation are runs of every relation that contains it. -/
theorem mono {step' : σ → α → σ → Prop} (hsub : ∀ s a t, step s a t → step' s a t)
    (h : Run step s as t) : Run step' s as t := by
  induction h with
  | nil s => exact .nil s
  | cons hst _ ih => exact .cons (hsub _ _ _ hst) ih

end Run
end Transition
