import Mathlib.Tactic

/-! The members of a list that are the first with their key. -/
namespace Firsts

variable {α κ : Type*} [DecidableEq κ] (key : α → κ)

/-- The members whose key was not seen, each key where it occurs first. -/
def firsts : List κ → List α → List α
  | _,[] => []
  | seen,item::items =>
    if key item ∈ seen then firsts seen items else item::firsts (key item::seen) items

variable {key}

theorem firsts_congr {seen seen' : List κ} (h : ∀ m, m ∈ seen ↔ m ∈ seen') (items : List α) :
    firsts key seen items = firsts key seen' items := by
  induction items generalizing seen seen' with
  | nil => rfl
  | cons item items ih =>
    have hnext : ∀ m, m ∈ key item::seen ↔ m ∈ key item::seen' := fun m => by simp [h]
    simp only [firsts,h,ih h,ih hnext]

theorem firsts_append (seen : List κ) (a b : List α) :
    firsts key seen (a++b) = firsts key seen a++firsts key (a.map key++seen) b := by
  induction a generalizing seen with
  | nil => rfl
  | cons item a ih =>
    rw [List.cons_append,firsts,firsts]
    split
    · rename_i hseen
      have hsame : ∀ m, m ∈ a.map key++seen ↔ m ∈ (item::a).map key++seen := by
        intro m
        simp only [List.map_cons,List.cons_append,List.mem_cons,List.mem_append]
        constructor
        · exact Or.inr
        · rintro (rfl | h)
          · exact Or.inr hseen
          · exact h
      rw [ih,firsts_congr hsame]
    · have hsame : ∀ m, m ∈ a.map key++key item::seen ↔ m ∈ (item::a).map key++seen := by
        intro m
        simp only [List.map_cons,List.cons_append,List.mem_cons,List.mem_append]
        tauto
      rw [ih,firsts_congr hsame,List.cons_append]

theorem firsts_subset (seen : List κ) (items : List α) :
    ∀ item ∈ firsts key seen items, key item ∉ seen ∧ item ∈ items := by
  induction items generalizing seen with
  | nil => simp [firsts]
  | cons first items ih =>
    intro item hitem
    rw [firsts] at hitem
    split at hitem
    · exact ⟨(ih seen item hitem).1,List.mem_cons_of_mem _ (ih seen item hitem).2⟩
    · rename_i hnew
      rcases List.mem_cons.mp hitem with rfl | hitem
      · exact ⟨hnew,List.mem_cons_self⟩
      · obtain ⟨hseen,hmem⟩ := ih _ item hitem
        exact ⟨fun h => hseen (List.mem_cons_of_mem _ h),List.mem_cons_of_mem _ hmem⟩

theorem firsts_sublist (seen : List κ) (items : List α) : (firsts key seen items).Sublist items := by
  induction items generalizing seen with
  | nil => exact List.Sublist.slnil
  | cons item items ih =>
    rw [firsts]
    split
    · exact (ih seen).cons item
    · exact (ih _).cons_cons item

/-- No key occurs twice, and every key that was not seen occurs. -/
theorem nodup_firsts (seen : List κ) (items : List α) :
    ((firsts key seen items).map key).Nodup := by
  induction items generalizing seen with
  | nil => exact List.nodup_nil
  | cons item items ih =>
    rw [firsts]
    split
    · exact ih seen
    · rw [List.map_cons,List.nodup_cons]
      refine ⟨fun hmem => ?_,ih _⟩
      obtain ⟨other,hother,heq⟩ := List.mem_map.mp hmem
      exact (firsts_subset _ _ other hother).1 (heq ▸ List.mem_cons_self)

theorem mem_keys_firsts (seen : List κ) (items : List α) (m : κ) :
    m ∈ (firsts key seen items).map key ↔ m ∈ items.map key ∧ m ∉ seen := by
  induction items generalizing seen with
  | nil => simp [firsts]
  | cons item items ih =>
    rw [firsts]
    split
    · rename_i hseen
      rw [ih,List.map_cons,List.mem_cons]
      constructor
      · exact fun h => ⟨Or.inr h.1,h.2⟩
      · rintro ⟨rfl | h,hnew⟩
        · exact absurd hseen hnew
        · exact ⟨h,hnew⟩
    · rename_i hnew
      rw [List.map_cons,List.map_cons,List.mem_cons,List.mem_cons,ih,List.mem_cons]
      constructor
      · rintro (rfl | ⟨h,hm⟩)
        · exact ⟨Or.inl rfl,hnew⟩
        · exact ⟨Or.inr h,fun hs => hm (Or.inr hs)⟩
      · rintro ⟨rfl | h,hm⟩
        · exact Or.inl rfl
        · by_cases heq : m = key item
          · exact Or.inl heq
          · exact Or.inr ⟨h,not_or.mpr ⟨heq,hm⟩⟩

/-- Seeing more leaves out the items of the keys that were seen. -/
theorem firsts_seen (seen more : List κ) (items : List α) :
    firsts key (more++seen) items = (firsts key seen items).filter fun i => key i ∉ more := by
  induction items generalizing seen with
  | nil => rfl
  | cons item items ih =>
    rw [firsts,firsts]
    by_cases hseen : key item ∈ seen
    · rw [if_pos (List.mem_append_right _ hseen),if_pos hseen,ih]
    rw [if_neg hseen]
    by_cases hmore : key item ∈ more
    · have hsame : ∀ m, m ∈ more++seen ↔ m ∈ more++key item::seen := by
        intro m
        simp only [List.mem_append,List.mem_cons]
        constructor
        · rintro (h | h)
          · exact Or.inl h
          · exact Or.inr (Or.inr h)
        · rintro (h | rfl | h)
          · exact Or.inl h
          · exact Or.inl hmore
          · exact Or.inr h
      rw [if_pos (List.mem_append_left _ hmore),List.filter_cons_of_neg (by simpa using hmore),
        firsts_congr hsame,ih]
    · have hsame : ∀ m, m ∈ key item::(more++seen) ↔ m ∈ more++key item::seen := by
        intro m
        simp only [List.mem_append,List.mem_cons]
        tauto
      rw [if_neg (by simp [hmore,hseen]),List.filter_cons_of_pos (by simpa using hmore),
        firsts_congr hsame,ih]

/-- What comes first adds nothing exactly when it is what the rest begins with. -/
theorem firsts_append_eq_iff (a b : List α) :
    firsts key [] b = firsts key [] (a++b) ↔ firsts key [] a <+: firsts key [] b := by
  have hsplit : firsts key [] (a++b) =
      firsts key [] a++(firsts key [] b).filter fun i => key i ∉ a.map key := by
    rw [firsts_append,← firsts_seen]
  constructor
  · intro h
    rw [h,hsplit]
    exact List.prefix_append _ _
  · rintro ⟨rest,hrest⟩
    have hfront : (firsts key [] a).filter (fun i => key i ∉ a.map key) = [] := by
      refine List.filter_eq_nil_iff.mpr fun i hi => ?_
      simpa using ⟨i,(firsts_subset [] a i hi).2,rfl⟩
    have hback : rest.filter (fun i => key i ∉ a.map key) = rest := by
      refine List.filter_eq_self.mpr fun i hi => decide_eq_true fun hmem => ?_
      have hnodup : ((firsts key [] b).map key).Nodup := nodup_firsts [] b
      rw [← hrest,List.map_append] at hnodup
      have hfirst : key i ∈ (firsts key [] a).map key :=
        (mem_keys_firsts [] a (key i)).mpr ⟨hmem,List.not_mem_nil⟩
      exact (List.nodup_append.mp hnodup).2.2 _ hfirst _ (List.mem_map_of_mem hi) rfl
    rw [hsplit]
    conv_rhs => rw [← hrest,List.filter_append,hfront,hback,List.nil_append]
    exact hrest.symm

theorem firsts_eq_nil_iff {items : List α} :
    firsts key [] items = [] ↔ items = [] := by
  cases items with
  | nil => simp [firsts]
  | cons item items => simp [firsts]

end Firsts
