import WormholeObservatory.Runs
import WormholeObservatory.Tables

/-! Payments along a run. Where every step pays for what it takes out of a potential and is charged
for what it puts in, a run cannot take out more than there was at first and was put in. -/
namespace Charges

open Transition

section Runs

variable {σ α : Type*}

/-- What the steps of a run come to, each in the state it is taken in. -/
def total (exec : σ → α → σ) (f : σ → α → ℕ) : σ → List α → ℕ
  | _,[] => 0
  | s,a::as => f s a+total exec f (exec s a) as

variable {exec : σ → α → σ} {step : σ → α → σ → Prop} {s t : σ} {as : List α}

/-- The rule of the potential. -/
theorem run_charged {φ : σ → ℕ} {paid charged : σ → α → ℕ} (I : σ → Prop)
    (hstep : ∀ s a t, I s → step s a t →
      t = exec s a ∧ I t ∧ φ t+paid s a ≤ φ s+charged s a)
    (h : Run step s as t) (hs : I s) :
    φ t+total exec paid s as ≤ φ s+total exec charged s as := by
  induction h with
  | nil s => exact le_refl _
  | @cons s a t as u hst _ ih =>
    obtain ⟨rfl,ht,hle⟩ := hstep s a t hs hst
    have hrest := ih ht
    simp only [total]
    omega

theorem total_mul_add (k : ℕ) (f g : σ → α → ℕ) (s : σ) (as : List α) :
    total exec (fun s a => k*f s a+g s a) s as = k*total exec f s as+total exec g s as := by
  induction as generalizing s with
  | nil => rfl
  | cons a as ih =>
    simp only [total,ih,mul_add]
    omega

theorem total_ite (p : α → Bool) (n : ℕ) (s : σ) (as : List α) :
    total exec (fun _ a => if p a = true then n else 0) s as = n*as.countP p := by
  induction as generalizing s with
  | nil => rfl
  | cons a as ih =>
    rw [total,ih,List.countP_cons,mul_add,add_comm]
    split <;> simp

end Runs

section Sums

variable {κ ρ : Type*} [DecidableEq κ]

/-- The weight of a table, row by row. -/
def weigh (f : κ → Option ρ → ℕ) (t : Table κ ρ) : ℕ := ∑ k ∈ t.keys.toFinset, f k (t.lookup k)

theorem weigh_eq_sum {f : κ → Option ρ → ℕ} (hf : ∀ k, f k none = 0) {t : Table κ ρ}
    {S : Finset κ} (hS : t.keys.toFinset ⊆ S) : weigh f t = ∑ k ∈ S, f k (t.lookup k) := by
  refine Finset.sum_subset hS ?_
  intro k _ hk
  rw [List.mem_toFinset,← AList.mem_keys,← AList.lookup_eq_none] at hk
  rw [hk,hf]

/-- Tables are weighed against each other row by row. -/
theorem weigh_add_le {f : κ → Option ρ → ℕ} (hf : ∀ k, f k none = 0) {t u : Table κ ρ} {m : ℕ}
    {A B C : Finset κ} (hA : A ⊆ t.keys.toFinset)
    (h : ∀ k, f k (u.lookup k)+(if k ∈ A then 1 else 0) ≤
      f k (t.lookup k)+((if k ∈ B then m else 0)+if k ∈ C then 1 else 0)) :
    weigh f u+A.card ≤ weigh f t+(m*B.card+C.card) := by
  set S := t.keys.toFinset ∪ u.keys.toFinset ∪ (B ∪ C) with hS
  have hleft : t.keys.toFinset ⊆ S := by
    rw [hS,Finset.union_assoc]
    exact Finset.subset_union_left
  have hright : u.keys.toFinset ⊆ S :=
    Finset.subset_union_right.trans Finset.subset_union_left
  have hcount : ∀ T ⊆ S, ∀ n, (∑ k ∈ S, if k ∈ T then n else 0) = n*T.card := by
    intro T hT n
    rw [Finset.sum_ite_mem,Finset.inter_eq_right.mpr hT,Finset.sum_const,smul_eq_mul,mul_comm]
  have hB : B ⊆ S := Finset.subset_union_left.trans Finset.subset_union_right
  have hC : C ⊆ S := Finset.subset_union_right.trans Finset.subset_union_right
  have hsum := Finset.sum_le_sum fun k (_ : k ∈ S) => h k
  rw [Finset.sum_add_distrib,Finset.sum_add_distrib,Finset.sum_add_distrib,
    hcount A (hA.trans hleft),hcount B hB,hcount C hC,← weigh_eq_sum hf hleft,
    ← weigh_eq_sum hf hright,one_mul,one_mul] at hsum
  exact hsum

end Sums

end Charges
