import Mathlib.Data.List.Basic

/-! A machine that answers its inputs one after the other. Inputs that never move the state can be
left out of a run: the answers to the others, and the state at the end, stay what they were. -/
namespace Answers

variable {σ ι ρ : Type*}

/-- The answers of a run, each with its input, and the state it ends in. -/
def run (step : ι → σ → ρ × σ) : List ι → σ → List (ι × ρ) × σ
  | [], s => ([],s)
  | i::is, s => ((i,(step i s).1)::(run step is (step i s).2).1,(run step is (step i s).2).2)

/-- Inputs outside `p` leave every state as it is. -/
def Still (step : ι → σ → ρ × σ) (p : ι → Bool) : Prop := ∀ i s, p i = false → (step i s).2 = s

theorem run_filter {step : ι → σ → ρ × σ} {p : ι → Bool} (h : Still step p) (is : List ι) (s : σ) :
    run step (is.filter p) s = ((run step is s).1.filter fun answer => p answer.1,(run step is s).2) := by
  induction is generalizing s with
  | nil => rfl
  | cons i is ih =>
    cases hi : p i with
    | true => simp [run,hi,ih]
    | false => simp [run,hi,ih,h i s hi]

/-- What holds of every answer holds of the answers of a run. -/
theorem forall_answers {step : ι → σ → ρ × σ} {q : ι → ρ → Prop} (h : ∀ i s, q i (step i s).1)
    (is : List ι) (s : σ) : ∀ answer ∈ (run step is s).1, q answer.1 answer.2 := by
  induction is generalizing s with
  | nil => simp [run]
  | cons i is ih => simpa [run] using ⟨h i s,fun a b hab => ih _ (a,b) hab⟩

theorem answered (step : ι → σ → ρ × σ) (is : List ι) (s : σ) :
    (run step is s).1.map Prod.fst = is := by
  induction is generalizing s with
  | nil => rfl
  | cons i is ih => simp [run,ih]

end Answers
