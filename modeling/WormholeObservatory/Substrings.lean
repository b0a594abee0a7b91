import Mathlib.Tactic

/-! Replacing one word in a text by another, from the left and without overlaps. What is put in
its place neither completes a word nor leaves one behind. -/
namespace Substrings

variable {α : Type*} [DecidableEq α]

/-- The rest of a text with a word replaced, where so many letters still belong to the last
occurrence. -/
def replaceFrom (old new : List α) : ℕ → List α → List α
  | _,[] => []
  | skip+1,_::l => replaceFrom old new skip l
  | 0,a::l =>
    if old <+: a::l then new++replaceFrom old new (old.length-1) l else a::replaceFrom old new 0 l

/-- A text with every occurrence of a word that is not empty replaced. -/
def replace (old new l : List α) : List α := replaceFrom old new 0 l

/-- A text with one word after another replaced. -/
def replaceAll (new : List α) (olds : List (List α)) (l : List α) : List α :=
  olds.foldl (fun l old => replace old new l) l

omit [DecidableEq α] in
/-- A word without a letter of the beginning lies in what follows it. -/
theorem infix_of_infix_append {w new l : List α} (hfree : ∀ a ∈ new, a ∉ w) (h : w <:+: new++l) :
    w <:+: l := by
  induction new with
  | nil => exact h
  | cons b new ih =>
    obtain ⟨hb,hnew⟩ := List.forall_mem_cons.mp hfree
    rw [List.cons_append,List.infix_cons_iff] at h
    rcases h with h | h
    · cases w with
      | nil => exact List.nil_infix
      | cons a w =>
        rw [List.cons_prefix_cons] at h
        exact absurd (h.1 ▸ List.mem_cons_self) hb
    · exact ih hnew h

/-- A word without a letter of the replacement begins the result only where it begins the text. -/
theorem prefix_of_prefix_replaceFrom {w old new : List α} (hnew : new ≠ []) (hfree : ∀ a ∈ new, a ∉ w)
    {skip : ℕ} {l : List α} (h : w <+: replaceFrom old new skip l) : w <+: l.drop skip := by
  induction l generalizing w skip with
  | nil =>
    rw [replaceFrom] at h
    rw [List.prefix_nil.mp h]
    exact List.nil_prefix
  | cons a l ih =>
    cases skip with
    | succ skip => exact ih hfree h
    | zero =>
      cases w with
      | nil => exact List.nil_prefix
      | cons b w =>
        rw [replaceFrom] at h
        split at h
        · obtain ⟨c,new,rfl⟩ := List.exists_cons_of_ne_nil hnew
          rw [List.cons_append,List.cons_prefix_cons] at h
          exact absurd (h.1 ▸ List.mem_cons_self) (hfree c List.mem_cons_self)
        · rw [List.cons_prefix_cons] at h
          have hrest := ih (fun x hx hmem => hfree x hx (List.mem_cons_of_mem _ hmem)) h.2
          rw [List.drop_zero] at hrest ⊢
          exact List.cons_prefix_cons.mpr ⟨h.1,hrest⟩

/-- No word without a letter of the replacement is put together. -/
theorem infix_of_infix_replaceFrom {w old new : List α} (hnew : new ≠ []) (hfree : ∀ a ∈ new, a ∉ w)
    {skip : ℕ} {l : List α} (h : w <:+: replaceFrom old new skip l) : w <:+: l.drop skip := by
  induction l generalizing skip with
  | nil =>
    rw [replaceFrom] at h
    rw [List.infix_nil.mp h]
    exact List.nil_infix
  | cons a l ih =>
    cases skip with
    | succ skip => exact ih h
    | zero =>
      have hwhole := h
      rw [replaceFrom] at h
      split at h
      · have hrest := ih (infix_of_infix_append hfree h)
        exact hrest.trans ((List.drop_suffix _ l).isInfix.trans (List.infix_cons List.infix_rfl))
      · rcases List.infix_cons_iff.mp h with hbegin | hrest
        · have hfront : w <+: replaceFrom old new 0 (a::l) := by
            rw [replaceFrom,if_neg ‹_›]
            exact hbegin
          exact (prefix_of_prefix_replaceFrom hnew hfree hfront).isInfix
        · exact List.infix_cons (ih hrest)

/-- No occurrence of the word is left. -/
theorem not_infix_replaceFrom {old new : List α} (hold : old ≠ []) (hnew : new ≠ [])
    (hfree : ∀ a ∈ new, a ∉ old) (skip : ℕ) (l : List α) : ¬old <:+: replaceFrom old new skip l := by
  induction l generalizing skip with
  | nil =>
    rw [replaceFrom]
    exact fun h => hold (List.infix_nil.mp h)
  | cons a l ih =>
    cases skip with
    | succ skip => exact ih skip
    | zero =>
      rw [replaceFrom]
      split
      · exact fun h => ih _ (infix_of_infix_append hfree h)
      · rename_i hother
        intro h
        rcases List.infix_cons_iff.mp h with hbegin | hrest
        · have hfront : old <+: replaceFrom old new 0 (a::l) := by
            rw [replaceFrom,if_neg hother]
            exact hbegin
          exact hother (prefix_of_prefix_replaceFrom hnew hfree hfront)
        · exact ih 0 hrest

theorem infix_of_infix_replaceAll {w new : List α} (hnew : new ≠ []) (hfree : ∀ a ∈ new, a ∉ w)
    {olds : List (List α)} {l : List α} (h : w <:+: replaceAll new olds l) : w <:+: l := by
  induction olds generalizing l with
  | nil => exact h
  | cons old olds ih => exact infix_of_infix_replaceFrom hnew hfree (ih h)

/-- Whatever the order of the words, none of them is left once all have been replaced. -/
theorem not_infix_replaceAll {new : List α} (hnew : new ≠ []) {olds : List (List α)}
    (holds : ∀ old ∈ olds, old ≠ [] ∧ ∀ a ∈ new, a ∉ old) (l : List α) :
    ∀ old ∈ olds, ¬old <:+: replaceAll new olds l := by
  induction olds generalizing l with
  | nil => simp
  | cons first olds ih =>
    obtain ⟨⟨hne,hfree⟩,hrest⟩ := List.forall_mem_cons.mp holds
    refine List.forall_mem_cons.mpr ⟨fun h => ?_,ih hrest _⟩
    exact not_infix_replaceFrom hne hnew hfree 0 l (infix_of_infix_replaceAll hnew hfree h)

end Substrings
