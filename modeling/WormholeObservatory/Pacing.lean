import Mathlib.Tactic

/-! Gates that open at a time.
Somebody passes at a time and keeps the gate shut for an interval, somebody else holds it shut
until a deadline, and nothing opens it earlier. -/
namespace Pacing

/-- A state machine with a gate in it. `passes` gives the time and the interval of a step that
passes, `holds` the deadline of a step that holds. -/
structure Gate (σ ε α : Type*) where
  step : σ → ε → σ
  opensAt : σ → α
  passes : σ → ε → Option (α × α)
  holds : σ → ε → Option α

namespace Gate

variable {σ ε α : Type*} (g : Gate σ ε α)

def run (s : σ) (es : List ε) : σ := es.foldl g.step s

@[simp]
theorem run_nil (s : σ) : g.run s [] = s := rfl

@[simp]
theorem run_cons (s : σ) (e : ε) (es : List ε) : g.run s (e::es) = g.run (g.step s e) es := rfl

theorem run_append (s : σ) (es es' : List ε) : g.run s (es++es') = g.run (g.run s es) es' :=
  List.foldl_append

variable [LinearOrder α] [Add α]

/-- What one step owes to the gate. -/
structure Lawful : Prop where
  keeps : ∀ s e, g.opensAt s ≤ g.opensAt (g.step s e)
  waits : ∀ s e t d, g.passes s e = some (t,d) → g.opensAt s ≤ t
  shuts : ∀ s e t d, g.passes s e = some (t,d) → t+d ≤ g.opensAt (g.step s e)
  holdsUntil : ∀ s e t, g.holds s e = some t → t ≤ g.opensAt (g.step s e)

/-- What a run owes: of any two steps of it, the later one finds what the earlier one left. -/
structure Paced (s : σ) : Prop where
  keeps : ∀ before between, g.opensAt (g.run s before) ≤ g.opensAt (g.run s (before++between))
  spaced : ∀ before e between e' t d t' d', g.passes (g.run s before) e = some (t,d) →
    g.passes (g.run s (before++e::between)) e' = some (t',d') → t+d ≤ t'
  held : ∀ before e between e' t t' d', g.holds (g.run s before) e = some t →
    g.passes (g.run s (before++e::between)) e' = some (t',d') → t ≤ t'

variable {g}

theorem Lawful.run_keeps (h : g.Lawful) (s : σ) (es : List ε) :
    g.opensAt s ≤ g.opensAt (g.run s es) := by
  induction es generalizing s with
  | nil => exact le_rfl
  | cons e es ih =>
    rw [run_cons]
    exact (h.keeps s e).trans (ih _)

/-- What a step leaves is there for every later step. -/
theorem Lawful.later (h : g.Lawful) {s : σ} {before between : List ε} {e : ε} {t : α}
    (ht : t ≤ g.opensAt (g.step (g.run s before) e)) :
    t ≤ g.opensAt (g.run s (before++e::between)) := by
  rw [run_append,run_cons]
  exact ht.trans (h.run_keeps _ between)

theorem Lawful.paced (h : g.Lawful) (s : σ) : g.Paced s where
  keeps before between := by
    rw [run_append]
    exact h.run_keeps _ between
  spaced before e between e' t d t' d' hfirst hsecond := by
    exact (h.later (h.shuts _ e t d hfirst)).trans (h.waits _ e' t' d' hsecond)
  held before e between e' t t' d' hhold hpass := by
    exact (h.later (h.holdsUntil _ e t hhold)).trans (h.waits _ e' t' d' hpass)

end Gate
end Pacing
