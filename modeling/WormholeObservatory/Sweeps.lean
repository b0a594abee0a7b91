import Mathlib.Tactic

/-! Sweeps of a log from its newest entry down, a page at a time. A page has the newest entries
of a window, and the next window ends a little below the oldest of them, so what a sweep passes
over lies close below the oldest entry of a page. -/
namespace Sweeping

variable {ρ K : Type*} [AddGroup K] [LinearOrder K]

/-- The newest entries of the window from `low` to `high`; all of them if there are fewer than
`length`. -/
structure PageOf (log : List ρ) (time : ρ → K) (length : ℕ) (low high : K) (page : List ρ) :
    Prop where
  listed : ∀ x ∈ page, x ∈ log
  low_le : ∀ x ∈ page, low ≤ time x
  le_high : ∀ x ∈ page, time x ≤ high
  newest : ∀ x ∈ log, low ≤ time x → time x ≤ high → x ∉ page → ∀ y ∈ page, time x ≤ time y
  all : page.length < length → ∀ x ∈ log, low ≤ time x → time x ≤ high → x ∈ page

/-- The entries that are at most `gap` below an edge. -/
def InGap (gap : K) (edges : List K) (t : K) : Prop := ∃ edge ∈ edges, edge-gap < t ∧ t ≤ edge

/-- Between `low` and `top` everything has been seen, but for the gaps. -/
def Swept (log : List ρ) (time : ρ → K) (seen : ρ → Prop) (gap : K) (edges : List K)
    (low top : K) : Prop :=
  ∀ x ∈ log, low < time x → time x ≤ top → seen x ∨ InGap gap edges (time x)

theorem InGap.cons {gap edge t : K} {edges : List K} (h : InGap gap edges t) :
    InGap gap (edge::edges) t := by
  obtain ⟨edge',hedge,hgap⟩ := h
  exact ⟨edge',List.mem_cons_of_mem _ hedge,hgap⟩

variable {log log' rows : List ρ} {time : ρ → K} {seen seen' : ρ → Prop} {gap low low' top : K}
  {edges : List K}

/-- A sweep that has not begun. -/
theorem Swept.nil : Swept log time seen gap edges top top :=
  fun _ _ hlow htop => absurd htop hlow.not_ge

theorem Swept.raise (h : Swept log time seen gap edges low top) (hlow : low ≤ low') :
    Swept log time seen gap edges low' top :=
  fun x hx hlt htop => h x hx (hlow.trans_lt hlt) htop

theorem Swept.cons (h : Swept log time seen gap edges low top) (edge : K) :
    Swept log time seen gap (edge::edges) low top :=
  fun x hx hlow htop => (h x hx hlow htop).imp_right InGap.cons

/-- More may be seen, entries may go, and entries may come that are later than the sweep. -/
theorem Swept.mono (h : Swept log time seen gap edges low top)
    (hlog : ∀ x ∈ log', x ∈ log ∨ top < time x) (hseen : ∀ x, seen x → seen' x) :
    Swept log' time seen' gap edges low top := by
  intro x hx hlow htop
  have hold := (hlog x hx).resolve_right htop.not_gt
  exact (h x hold hlow htop).imp_left (hseen x)

/-- A page moves the sweep on to below any entry of it, if no further than the gap. -/
theorem Swept.next {length : ℕ} {start cursor next : K} {y : ρ}
    (h : Swept log time seen gap edges cursor top)
    (hpage : PageOf log time length start cursor rows) (hseen : ∀ x ∈ rows, seen x)
    (hy : y ∈ rows) (hnext : time y-gap ≤ next) :
    Swept log time seen gap (time y::edges) next top := by
  intro x hx hlow htop
  by_cases hcursor : cursor < time x
  · exact (h x hx hcursor htop).imp_right InGap.cons
  have hcursor := not_lt.mp hcursor
  by_cases hedge : time x ≤ time y
  · exact .inr ⟨time y,List.mem_cons_self,hnext.trans_lt hlow,hedge⟩
  · have hlate := not_le.mp hedge
    have hstart := (hpage.low_le y hy).trans hlate.le
    left
    apply hseen
    by_contra hmissed
    have hle := hpage.newest x hx hstart hcursor hmissed y hy
    exact hedge hle

/-- A page that is not full ends the sweep. -/
theorem Swept.short {length : ℕ} {start cursor : K} (h : Swept log time seen gap edges cursor top)
    (hpage : PageOf log time length start cursor rows) (hseen : ∀ x ∈ rows, seen x)
    (hshort : rows.length < length) : Swept log time seen gap edges start top := by
  intro x hx hlow htop
  by_cases hcursor : cursor < time x
  · exact h x hx hcursor htop
  · have hmem := hpage.all hshort x hx hlow.le (not_lt.mp hcursor)
    exact .inl (hseen x hmem)

end Sweeping
