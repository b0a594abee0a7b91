import Mathlib.Data.List.Forall2
import Mathlib.Tactic

/-! Passes over a list with a call that may fail: the first failure is that of the pass, and without
one the pass returns the values of all members in order. -/
namespace Traversals

variable {α γ ε : Type} {f : α → Except ε γ} {l : List α} {ys : List γ}

/-- A pass that succeeds has a value for each member. -/
theorem mapM_eq_ok_iff : l.mapM f = .ok ys ↔ List.Forall₂ (fun x y => f x = .ok y) l ys := by
  induction l generalizing ys with
  | nil =>
    rw [List.mapM_nil,List.forall₂_nil_left_iff]
    exact ⟨fun h => (Except.ok.inj h).symm,fun h => h ▸ rfl⟩
  | cons x l ih =>
    rw [List.mapM_cons,List.forall₂_cons_left_iff]
    cases hx : f x with
    | error e => exact iff_of_false (fun h => by cases h) fun ⟨y,_,h,_⟩ => by cases h
    | ok y =>
      cases hl : l.mapM f with
      | error e =>
        refine iff_of_false (fun h => by cases h) fun ⟨_,zs,_,hzs,_⟩ => ?_
        rw [ih.mpr hzs] at hl
        cases hl
      | ok zs =>
        constructor
        · intro h
          exact ⟨y,zs,rfl,ih.mp hl,(Except.ok.inj h).symm⟩
        · rintro ⟨y',zs',hy,hzs,rfl⟩
          rw [ih.mpr hzs] at hl
          rw [Except.ok.inj hy,Except.ok.inj hl]
          rfl

theorem exists_mapM_iff : (∃ ys, l.mapM f = .ok ys) ↔ ∀ x ∈ l, ∃ y, f x = .ok y := by
  constructor
  · rintro ⟨ys,h⟩ x hx
    have hall := mapM_eq_ok_iff.mp h
    clear h
    induction hall with
    | nil => exact absurd hx List.not_mem_nil
    | cons hy _ ih =>
      rcases List.mem_cons.mp hx with rfl | hx
      · exact ⟨_,hy⟩
      · exact ih hx
  · intro h
    induction l with
    | nil => exact ⟨[],rfl⟩
    | cons x l ih =>
      obtain ⟨⟨y,hy⟩,hl⟩ := List.forall_mem_cons.mp h
      obtain ⟨ys,hys⟩ := ih hl
      exact ⟨y::ys,mapM_eq_ok_iff.mpr (.cons hy (mapM_eq_ok_iff.mp hys))⟩

theorem mapM_eq_map {g : α → γ} (h : ∀ x ∈ l, f x = .ok (g x)) : l.mapM f = .ok (l.map g) :=
  mapM_eq_ok_iff.mpr (List.forall₂_map_right_iff.mpr (List.forall₂_same.mpr h))

/-- A value that a pass returns is that of a member. -/
theorem exists_of_mem_values (h : l.mapM f = .ok ys) {y : γ} (hy : y ∈ ys) : ∃ x ∈ l, f x = .ok y := by
  have hall := mapM_eq_ok_iff.mp h
  clear h
  induction hall with
  | nil => exact absurd hy List.not_mem_nil
  | cons hx _ ih =>
    rcases List.mem_cons.mp hy with rfl | hy
    · exact ⟨_,List.mem_cons_self,hx⟩
    · obtain ⟨x,hmem,hx⟩ := ih hy
      exact ⟨x,List.mem_cons_of_mem _ hmem,hx⟩

/-- The value of a member is among those that a pass returns. -/
theorem mem_values_of_mem (h : l.mapM f = .ok ys) {x : α} {y : γ} (hx : x ∈ l) (hy : f x = .ok y) :
    y ∈ ys := by
  have hall := mapM_eq_ok_iff.mp h
  clear h
  induction hall with
  | nil => exact absurd hx List.not_mem_nil
  | cons hfirst _ ih =>
    rcases List.mem_cons.mp hx with rfl | hx
    · rw [hy] at hfirst
      rw [Except.ok.inj hfirst]
      exact List.mem_cons_self
    · exact List.mem_cons_of_mem _ (ih hx)

end Traversals
