import Mathlib.Tactic

/-! Histories of leases. Owners are granted items, give them back one at a time, and
lose everything they hold when they restart. A history is a list with its newest
event first; it is sound when nothing is granted that somebody still holds. -/
namespace Lease

variable {ι κ : Type*} [DecidableEq ι] [DecidableEq κ]

inductive Event (ι κ : Type*)
  | granted (owner : ι) (item : κ)
  | released (owner : ι) (item : κ)
  | restarted (owner : ι)
  deriving DecidableEq

/-- The owner of the grant of an item that is still open. -/
def holder : List (Event ι κ) → κ → Option ι
  | [], _ => none
  | .granted i k::log, k' => if k' = k then some i else holder log k'
  | .released i k::log, k' => if k' = k ∧ holder log k' = some i then none else holder log k'
  | .restarted i::log, k' => if holder log k' = some i then none else holder log k'

/-- The owner an item was granted to last. -/
def lastGrantee : List (Event ι κ) → κ → Option ι
  | [], _ => none
  | .granted i k::log, k' => if k' = k then some i else lastGrantee log k'
  | _::log, k' => lastGrantee log k'

/-- No grant of an item that was held. -/
def Sound : List (Event ι κ) → Prop
  | [] => True
  | .granted _ k::log => holder log k = none ∧ Sound log
  | _::log => Sound log

section Basic

variable {log : List (Event ι κ)} {i : ι} {k : κ}

theorem Sound.tail {e : Event ι κ} (h : Sound (e::log)) : Sound log := by
  cases e with
  | granted => exact h.2
  | released => exact h
  | restarted => exact h

theorem Sound.suffix {later : List (Event ι κ)} (h : Sound (later++log)) : Sound log := by
  induction later with
  | nil => exact h
  | cons e later ih => exact ih h.tail

theorem lastGrantee_of_holder (h : holder log k = some i) : lastGrantee log k = some i := by
  induction log with
  | nil => cases h
  | cons e log ih =>
    cases e with
    | granted j k' =>
      simp only [holder,lastGrantee] at h ⊢
      split
      · rename_i hk
        rwa [if_pos hk] at h
      · rename_i hk
        exact ih (by rwa [if_neg hk] at h)
    | released j k' =>
      simp only [holder] at h
      split at h
      · cases h
      · exact ih h
    | restarted j =>
      simp only [holder] at h
      split at h
      · cases h
      · exact ih h

/-- While its owner neither releases it nor restarts, an item stays with its owner. -/
theorem holder_of_quiet {earlier between : List (Event ι κ)}
    (h : Sound (between++.granted i k::earlier))
    (hquiet : ∀ e ∈ between, e ≠ .released i k ∧ e ≠ .restarted i) :
    holder (between++.granted i k::earlier) k = some i := by
  induction between with
  | nil => simp [holder]
  | cons e between ih =>
    have hheld := ih h.tail fun e he => hquiet e (List.mem_cons_of_mem _ he)
    obtain ⟨hnotReleased,hnotRestarted⟩ := hquiet e List.mem_cons_self
    cases e with
    | granted j k' =>
      have hfree := h.1
      have hne : k ≠ k' := by
        rintro rfl
        simp [hheld] at hfree
      simpa [holder,hne] using hheld
    | released j k' =>
      have hne : ¬ (k = k' ∧ holder (between++.granted i k::earlier) k = some j) := by
        rintro ⟨rfl,hj⟩
        obtain rfl : i = j := Option.some.inj (hheld.symm.trans hj)
        exact hnotReleased rfl
      rw [List.cons_append,holder,if_neg hne,hheld]
    | restarted j =>
      have hne : holder (between++.granted i k::earlier) k ≠ some j := by
        intro hj
        obtain rfl : i = j := Option.some.inj (hheld.symm.trans hj)
        exact hnotRestarted rfl
      rw [List.cons_append,holder,if_neg hne,hheld]

/-- Between two grants of one item its first owner released it or restarted. -/
theorem Sound.between_grants {later between earlier : List (Event ι κ)} {j : ι}
    (h : Sound (later++.granted j k::(between++.granted i k::earlier))) :
    ∃ e ∈ between, e = .released i k ∨ e = .restarted i := by
  by_contra hnone
  have hsound : Sound (.granted j k::(between++.granted i k::earlier)) := h.suffix
  have hheld := holder_of_quiet hsound.2 fun e he =>
    ⟨fun heq => hnone ⟨e,he,.inl heq⟩,fun heq => hnone ⟨e,he,.inr heq⟩⟩
  have hfree : holder (between++.granted i k::earlier) k = none := hsound.1
  rw [hheld] at hfree
  cases hfree

end Basic

section Batch

variable {log : List (Event ι κ)} (i : ι)

/-- Granting a batch of items at once. -/
def grantAll (items : List κ) (log : List (Event ι κ)) : List (Event ι κ) :=
  items.map (.granted i)++log

theorem holder_grantAll (items : List κ) (k : κ) :
    holder (grantAll i items log) k = if k ∈ items then some i else holder log k := by
  induction items with
  | nil => simp [grantAll]
  | cons item items ih =>
    have hcons : grantAll i (item::items) log = .granted i item::grantAll i items log := rfl
    rw [hcons,holder,ih]
    by_cases hk : k = item
    · simp [hk]
    · simp [hk]

theorem sound_grantAll {items : List κ} (hnodup : items.Nodup)
    (hfree : ∀ k ∈ items, holder log k = none) (h : Sound log) : Sound (grantAll i items log) := by
  induction items with
  | nil => exact h
  | cons item items ih =>
    obtain ⟨hnot,hnodup⟩ := List.nodup_cons.mp hnodup
    refine ⟨?_,ih hnodup fun k hk => hfree k (List.mem_cons_of_mem _ hk)⟩
    change holder (grantAll i items log) item = none
    rw [holder_grantAll,if_neg hnot]
    exact hfree item List.mem_cons_self

end Batch
end Lease
