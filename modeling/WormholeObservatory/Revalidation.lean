import Mathlib.Tactic

/-! Copies of what a source shows over time. A copy is kept with a validator of the source, and the
source can be asked whether that validator still stands for what it shows. -/
namespace Revalidation

variable {κ ν : Type*}

/-- What a source shows at each time, the validator it gives with it, and the validators that it lets
stand. -/
structure Source (κ ν : Type*) where
  content : ℚ → κ
  validator : ℚ → ν
  stands : ν → ℚ → Prop

namespace Source

/-- A validator that stands is one of what is shown. -/
def Strong (o : Source κ ν) : Prop :=
  ∀ e q, e ≤ q → o.stands (o.validator e) q → o.content e = o.content q

/-- A validator that stands has not been replaced since it was given. -/
def Lasting (o : Source κ ν) : Prop :=
  ∀ e q, e ≤ q → o.stands (o.validator e) q → ∀ p, e ≤ p → p ≤ q → o.content p = o.content q

theorem Lasting.strong {o : Source κ ν} (h : o.Lasting) : o.Strong :=
  fun e q he hstands => h e q he hstands e le_rfl he

/-- The content was shown at some time after `since` and not after `now`. -/
def Shown (o : Source κ ν) (since now : ℚ) (c : κ) : Prop := ∃ p, since < p ∧ p ≤ now ∧ c = o.content p

end Source

/-- A copy of what was shown at `p`, with the validator of `e` and a date that is at most `lag` late.
The two times differ only where the copy was replaced without its validator. -/
structure Copy (o : Source κ ν) (lag now : ℚ) (c : κ) (v : ν) (fetched e p : ℚ) : Prop where
  content : c = o.content p
  validator : v = o.validator e
  order : e ≤ p
  past : p ≤ now
  dated : fetched ≤ p+lag

namespace Copy

variable {o : Source κ ν} {lag now fetched e p q : ℚ} {c : κ} {v : ν}

theorem later (h : Copy o lag now c v fetched e p) (hnow : now ≤ q) : Copy o lag q c v fetched e p :=
  ⟨h.content,h.validator,h.order,h.past.trans hnow,h.dated⟩

/-- A copy whose date is young was shown not much longer ago. -/
theorem shown (h : Copy o lag now c v fetched e p) {age check : ℚ} (hyoung : check-fetched < age) :
    o.Shown (check-(age+lag)) now c := by
  have hdated := h.dated
  have hsince : check-(age+lag) < p := by linarith
  exact ⟨p,hsince,h.past,h.content⟩

/-- A copy whose validator stands is what is shown, if no validator comes back, or if the validator was
given with the content of the copy. -/
theorem confirmed (h : Copy o lag now c v fetched e p)
    (hsure : o.Lasting ∨ o.Strong ∧ c = o.content e) (hnow : now ≤ q) (hstands : o.stands v q) :
    c = o.content q := by
  have hpast := h.past.trans hnow
  rw [h.validator] at hstands
  rcases hsure with hlasting | ⟨hstrong,hgiven⟩
  · rw [h.content]
    exact hlasting e q (h.order.trans hpast) hstands p h.order hpast
  · rw [hgiven]
    exact hstrong e q (h.order.trans hpast) hstands

/-- A confirmed copy is dated anew. -/
theorem redated (h : Copy o lag now c v fetched e p) (hsame : c = o.content q) (hnow : now ≤ q)
    {later fetched' : ℚ} (hdated : fetched' ≤ q+lag) (hlater : q ≤ later) :
    Copy o lag later c v fetched' e q :=
  ⟨hsame,h.validator,h.order.trans (h.past.trans hnow),hlater,hdated⟩

/-- What is taken whole is a copy that came with its validator. -/
theorem taken (hdated : fetched ≤ q+lag) (hnow : q ≤ now) :
    Copy o lag now (o.content q) (o.validator q) fetched q q :=
  ⟨rfl,rfl,le_rfl,hnow,hdated⟩

/-- What is taken without its validator keeps the old one. -/
theorem replaced (h : Copy o lag now c v fetched e p) (hq : now ≤ q) :
    Copy o lag q (o.content q) v fetched e q := by
  have hpast := h.past.trans hq
  have hdated : fetched ≤ q+lag := h.dated.trans (by linarith)
  exact ⟨rfl,h.validator,h.order.trans hpast,le_rfl,hdated⟩

end Copy
end Revalidation
