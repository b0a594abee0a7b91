import WormholeObservatory.OrderedDict

/-! Dictionaries that keep the best value offered for a key. A later offer replaces an earlier one only
if it is better, so of equally good offers the first one stays. -/
namespace Offers

variable {α κ β : Type*} [DecidableEq κ] [LinearOrder β] (key : α → κ) (rank : α → β)

/-- The value that stays at a key when another one is offered. -/
def better (best : Option α) (x : α) : Option α :=
  match best with
  | none => some x
  | some old => if rank old < rank x then some x else some old

/-- One offer. -/
def put (d : OrderedDict κ α) (x : α) : OrderedDict κ α :=
  match d.get? (key x) with
  | none => d.set (key x) x
  | some old => if rank old < rank x then d.set (key x) x else d

/-- All offers, one after another. -/
def collect (xs : List α) : OrderedDict κ α := xs.foldl (put key rank) .empty

variable {key rank}

theorem get?_put (d : OrderedDict κ α) (x : α) (k : κ) :
    (put key rank d x).get? k = if key x = k then better rank (d.get? k) x else d.get? k := by
  rw [put]
  by_cases hk : key x = k
  · subst hk
    rw [if_pos rfl]
    cases hget : d.get? (key x) with
    | none => simp only [better,OrderedDict.get?_set,if_true]
    | some old =>
      simp only [better]
      split
      · rw [OrderedDict.get?_set,if_pos rfl]
      · exact hget
  · rw [if_neg hk]
    split
    · rw [OrderedDict.get?_set,if_neg hk]
    · split
      · rw [OrderedDict.get?_set,if_neg hk]
      · rfl

theorem get?_foldl_put (xs : List α) (d : OrderedDict κ α) (k : κ) :
    (xs.foldl (put key rank) d).get? k =
      (xs.filter fun x => key x = k).foldl (better rank) (d.get? k) := by
  induction xs generalizing d with
  | nil => rfl
  | cons x xs ih =>
    rw [List.foldl_cons,ih,get?_put]
    by_cases hk : key x = k
    · rw [List.filter_cons_of_pos (by simpa using hk),List.foldl_cons,if_pos hk]
    · rw [List.filter_cons_of_neg (by simpa using hk),if_neg hk]

/-- An offer that is not beaten is still there in the end, and one that is beaten is not. -/
theorem foldl_better_eq_self_iff (x : α) (xs : List α) :
    xs.foldl (better rank) (some x) = some x ↔ ∀ y ∈ xs, rank y ≤ rank x := by
  have hgrow : ∀ (ys : List α) (z v : α), ys.foldl (better rank) (some z) = some v → rank z ≤ rank v := by
    intro ys
    induction ys with
    | nil => exact fun z v h => (Option.some.inj h) ▸ le_refl _
    | cons y ys ih =>
      intro z v h
      rw [List.foldl_cons,better] at h
      split at h
      · exact (le_of_lt ‹_›).trans (ih y v h)
      · exact ih z v h
  induction xs with
  | nil => simp
  | cons y xs ih =>
    rw [List.foldl_cons,better,List.forall_mem_cons]
    split
    · rename_i hlt
      exact iff_of_false (fun h => (hgrow xs y x h).not_gt hlt) fun h => h.1.not_gt hlt
    · rename_i hle
      exact ih.trans (and_iff_right (not_lt.mp hle)).symm

theorem foldl_better_spec {x v : α} {xs : List α} (h : xs.foldl (better rank) (some x) = some v) :
    v ∈ x::xs ∧ ∀ y ∈ x::xs, rank y ≤ rank v := by
  induction xs generalizing x with
  | nil =>
    rw [← Option.some.inj h]
    exact ⟨List.mem_cons_self,by simp⟩
  | cons y xs ih =>
    rw [List.foldl_cons,better] at h
    split at h
    · rename_i hlt
      obtain ⟨hmem,hbest⟩ := ih h
      refine ⟨List.mem_cons_of_mem _ hmem,List.forall_mem_cons.mpr ⟨?_,hbest⟩⟩
      exact hlt.le.trans (hbest y List.mem_cons_self)
    · rename_i hle
      obtain ⟨hmem,hbest⟩ := ih h
      obtain ⟨hx,hxs⟩ := List.forall_mem_cons.mp hbest
      refine ⟨?_,List.forall_mem_cons.mpr ⟨hx,List.forall_mem_cons.mpr ⟨(not_lt.mp hle).trans hx,hxs⟩⟩⟩
      rcases List.mem_cons.mp hmem with rfl | hmem
      · exact List.mem_cons_self
      · exact List.mem_cons_of_mem _ (List.mem_cons_of_mem _ hmem)

/-- What stands at a key was offered for it, and nothing better was. -/
theorem get?_collect {xs : List α} {k : κ} {v : α} (h : (collect key rank xs).get? k = some v) :
    v ∈ xs ∧ key v = k ∧ ∀ x ∈ xs, key x = k → rank x ≤ rank v := by
  rw [collect,get?_foldl_put] at h
  have hempty : (OrderedDict.empty : OrderedDict κ α).get? k = none := rfl
  rw [hempty] at h
  cases hoffers : xs.filter fun x => key x = k with
  | nil =>
    rw [hoffers] at h
    cases h
  | cons first rest =>
    rw [hoffers] at h
    obtain ⟨hmem,hbest⟩ := foldl_better_spec h
    rw [← hoffers] at hmem hbest
    obtain ⟨hv,hkey⟩ := List.mem_filter.mp hmem
    exact ⟨hv,of_decide_eq_true hkey,fun x hx hk =>
      hbest x (List.mem_filter.mpr ⟨hx,decide_eq_true hk⟩)⟩

/-- Every key for which something was offered has a value. -/
theorem exists_collect {xs : List α} {x : α} (hx : x ∈ xs) :
    ∃ v, (collect key rank xs).get? (key x) = some v := by
  have hsome : ∀ (ys : List α) (best : Option α), ys ≠ [] ∨ best ≠ none →
      ys.foldl (better rank) best ≠ none := by
    intro ys
    induction ys with
    | nil => exact fun best h => h.resolve_left fun h => h rfl
    | cons y ys ih =>
      intro best _
      rw [List.foldl_cons]
      refine ih _ (.inr ?_)
      cases best with
      | none => simp [better]
      | some old =>
        simp only [better]
        split <;> simp
  refine Option.ne_none_iff_exists'.mp ?_
  rw [collect,get?_foldl_put]
  exact hsome _ _ (.inl fun hnil => List.not_mem_nil (hnil ▸
    List.mem_filter.mpr ⟨hx,decide_eq_true rfl⟩))

theorem mem_values_collect {xs : List α} {v : α} (h : v ∈ (collect key rank xs).values) :
    v ∈ xs ∧ ∀ x ∈ xs, key x = key v → rank x ≤ rank v := by
  obtain ⟨k,hk⟩ := OrderedDict.mem_values_iff.mp h
  obtain ⟨hmem,rfl,hbest⟩ := get?_collect hk
  exact ⟨hmem,hbest⟩

/-- No two values have the same key. -/
theorem nodup_keys_collect (xs : List α) : ((collect key rank xs).values.map key).Nodup := by
  have hkeys : (collect key rank xs).values.map key = (collect key rank xs).keys := by
    rw [OrderedDict.values,OrderedDict.keys,List.map_map]
    refine List.map_congr_left fun e he => ?_
    exact (get?_collect (OrderedDict.get?_of_mem he)).2.1
  rw [hkeys]
  exact (collect key rank xs).nodup

/-- The first offer stands exactly if no offer for its key is better. -/
theorem first_kept_iff (x : α) (xs : List α) :
    (collect key rank (x::xs)).get? (key x) = some x ↔ ∀ y ∈ xs, key y = key x → rank y ≤ rank x := by
  rw [collect,get?_foldl_put,List.filter_cons_of_pos (by simp),List.foldl_cons]
  change (xs.filter _).foldl (better rank) (some x) = some x ↔ _
  rw [foldl_better_eq_self_iff]
  simp only [List.mem_filter,decide_eq_true_eq,and_imp]

end Offers
