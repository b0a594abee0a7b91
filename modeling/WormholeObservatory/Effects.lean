import Mathlib.Tactic

/-! Programs that keep what they have done when they raise: what they end in, by their parts. -/
namespace Effects

universe u

variable {ε σ α β : Type u}

/-- Whatever the program ends in, the result and the state satisfy `Q`. -/
def Ends (x : EStateM ε σ α) (s : σ) (Q : Except ε α → σ → Prop) : Prop :=
  match x s with
  | .ok a s' => Q (.ok a) s'
  | .error e s' => Q (.error e) s'

/-- The state a program leaves. -/
def leaves (x : EStateM ε σ α) (s : σ) : σ :=
  match x s with
  | .ok _ s' => s'
  | .error _ s' => s'

/-- What a program returns or raises. -/
def result (x : EStateM ε σ α) (s : σ) : Except ε α :=
  match x s with
  | .ok a _ => .ok a
  | .error e _ => .error e

variable {x : EStateM ε σ α} {f : α → EStateM ε σ β} {s : σ} {Q Q' : Except ε α → σ → Prop}
  {P : Except ε β → σ → Prop}

theorem ends_iff : Ends x s Q ↔ Q (result x s) (leaves x s) := by
  rw [Ends,result,leaves]
  cases x s <;> exact Iff.rfl

theorem Ends.mono (h : Ends x s Q) (hsub : ∀ r s', Q r s' → Q' r s') : Ends x s Q' := by
  rw [ends_iff] at h ⊢
  exact hsub _ _ h

theorem Ends.of_eq {y : EStateM ε σ α} {t : σ} (h : Ends y t Q) (heq : x s = y t) :
    Ends x s Q := by
  rwa [Ends,heq]

theorem Ends.and (h : Ends x s Q) (h' : Ends x s Q') : Ends x s fun r s' => Q r s' ∧ Q' r s' := by
  rw [ends_iff] at h h' ⊢
  exact ⟨h,h'⟩

theorem Ends.ok {a : α} (hx : x s = .ok a s) (h : Q (.ok a) s) : Ends x s Q := by
  rwa [Ends,hx]

theorem Ends.error {e : ε} (hx : x s = .error e s) (h : Q (.error e) s) : Ends x s Q := by
  rwa [Ends,hx]

/-- The sequence rule: what raises is not gone on with. -/
theorem Ends.bind (hx : Ends x s Q) (hraise : ∀ e s', Q (.error e) s' → P (.error e) s')
    (hf : ∀ a s', Q (.ok a) s' → Ends (f a) s' P) : Ends (x >>= f) s P := by
  change Ends (EStateM.bind x f) s P
  rw [Ends] at hx ⊢
  rw [EStateM.bind]
  cases hrun : x s with
  | ok a s' =>
    rw [hrun] at hx
    exact hf a s' hx
  | error e s' =>
    rw [hrun] at hx
    exact hraise e s' hx

end Effects
