import Mathlib.Data.List.Sort
import Mathlib.Tactic

/-! The first entries of a list that keep a test. A page cut before the test is made shows all of
them only if no entry that fails the test takes a place of one that passes; where the list is
sorted by a key, the places are counted by the keys. -/
namespace Pages

variable {α : Type*} {n : ℕ}

section Plain

variable {p : α → Bool} {l : List α}

/-- Cutting first and testing then is testing first and cutting then exactly if the cut leaves out
no passing entry, or the first entries all pass. -/
theorem filter_take_eq_iff : (l.take n).filter p = (l.filter p).take n ↔
    (∀ x ∈ l.take n, p x = true) ∨ ∀ x ∈ l.drop n, p x = false := by
  have hsplit : (l.take n).filter p++(l.drop n).filter p = l.filter p := by
    rw [← List.filter_append,List.take_append_drop]
  constructor
  · intro heq
    by_cases hfull : ((l.take n).filter p).length = (l.take n).length
    · exact .inl (List.length_filter_eq_length_iff.mp hfull)
    · right
      have hshort : ((l.take n).filter p).length < n :=
        (lt_of_le_of_ne (List.length_filter_le _ _) hfull).trans_le (List.length_take_le _ _)
      have hall : (l.filter p).length ≤ n := by
        rw [heq,List.length_take] at hshort
        omega
      rw [List.take_of_length_le hall,← hsplit,List.self_eq_append_right] at heq
      intro x hx
      rw [← Bool.not_eq_true]
      exact List.filter_eq_nil_iff.mp heq x hx
  · rintro (hpass | hrest)
    · rw [← hsplit,List.filter_eq_self.mpr hpass]
      rcases le_total n l.length with hle | hle
      · rw [List.take_append_of_le_length (by rw [List.length_take_of_le hle]),
          List.take_of_length_le (List.length_take_le _ _)]
      · rw [List.drop_eq_nil_of_le hle,List.filter_nil,List.append_nil,List.take_take,min_self]
    · have hnone : (l.drop n).filter p = [] := List.filter_eq_nil_iff.mpr fun x hx => by simp [hrest x hx]
      rw [← hsplit,hnone,List.append_nil]
      exact (List.take_of_length_le ((List.length_filter_le _ _).trans (List.length_take_le _ _))).symm

end Plain

section Sorted

variable {κ : Type*} [LinearOrder κ] {key : α → κ} {l : List α}

/-- In a sorted list the entries with a smaller key are those before. -/
theorem mem_take_iff (hl : l.Pairwise fun a b => key a < key b) {x : α} :
    x ∈ l.take n ↔ x ∈ l ∧ (l.filter fun y => key y < key x).length < n := by
  induction l generalizing n with
  | nil => simp
  | cons a l ih =>
    obtain ⟨hfirst,hrest⟩ := List.pairwise_cons.mp hl
    cases n with
    | zero => simp
    | succ n =>
      rw [List.take_succ_cons,List.mem_cons,List.mem_cons]
      by_cases hx : x = a
      · have hnone : (a::l).filter (fun y => key y < key x) = [] := by
          subst hx
          refine List.filter_eq_nil_iff.mpr fun y hy => ?_
          rw [decide_eq_true_eq,not_lt]
          rcases List.mem_cons.mp hy with rfl | hy
          · exact le_refl _
          · exact (hfirst y hy).le
        simp [hx ▸ hnone,hx]
      · rw [or_iff_right hx,or_iff_right hx,ih hrest]
        refine and_congr_right fun hmem => ?_
        rw [List.filter_cons_of_pos (by simpa using hfirst x hmem),List.length_cons]
        omega

/-- The entries that come before an entry. -/
def ahead (key : α → κ) (x : α) (l : List α) : List α := l.filter fun y => key y < key x

/-- A page of the entries of a page that pass. -/
theorem mem_take_filter_take_iff (hl : l.Pairwise fun a b => key a < key b) {p : α → Bool} {m : ℕ} {x : α} :
    x ∈ ((l.take m).filter p).take n ↔ x ∈ l ∧ p x = true ∧
      (ahead key x l).length < m ∧ ((ahead key x l).filter p).length < n := by
  have hpage : ((l.take m).filter p).Pairwise fun a b => key a < key b :=
    (hl.sublist (List.take_sublist m l)).filter p
  rw [mem_take_iff hpage,List.mem_filter,mem_take_iff hl]
  have hcount : x ∈ l.take m → ((l.take m).filter p).filter (fun y => key y < key x) =
      (ahead key x l).filter p := by
    intro hx
    have hafter : ∀ y ∈ l.drop m, key x < key y := by
      rw [← List.take_append_drop m l,List.pairwise_append] at hl
      exact fun y hy => hl.2.2 x hx y hy
    have hrest : (l.drop m).filter (fun y => key y < key x) = [] := by
      refine List.filter_eq_nil_iff.mpr fun y hy hbefore => ?_
      rw [decide_eq_true_eq] at hbefore
      exact absurd hbefore (hafter y hy).not_gt
    conv_rhs => rw [← List.take_append_drop m l]
    rw [ahead,List.filter_append,hrest,List.append_nil,List.filter_filter,List.filter_filter]
    refine List.filter_congr fun y _ => ?_
    rw [Bool.and_comm]
  constructor
  · rintro ⟨⟨⟨hmem,hplace⟩,hpass⟩,hfew⟩
    exact ⟨hmem,hpass,hplace,hcount ((mem_take_iff hl).mpr ⟨hmem,hplace⟩) ▸ hfew⟩
  · rintro ⟨hmem,hpass,hplace,hfew⟩
    exact ⟨⟨⟨hmem,hplace⟩,hpass⟩,(hcount ((mem_take_iff hl).mpr ⟨hmem,hplace⟩)).symm ▸ hfew⟩

/-- Of a sorted list cut at `n`, the entries that pass are a given list, sorted by another key and
no shorter, exactly if each of that list has a place and the two keys order them alike. -/
theorem filter_take_eq_sorted_iff {κ' : Type*} [LinearOrder κ'] {key' : α → κ'} {p : α → Bool}
    {wanted : List α} (hl : l.Pairwise fun a b => key a < key b)
    (hwanted : wanted.Pairwise fun a b => key' a < key' b) (hpass : ∀ x ∈ wanted, p x = true)
    (hlength : ((l.take n).filter p).length ≤ wanted.length) :
    (l.take n).filter p = wanted ↔
      (∀ x ∈ wanted, x ∈ l ∧ (l.filter fun y => key y < key x).length < n) ∧
        ∀ x ∈ wanted, ∀ y ∈ wanted, key' x < key' y → key x < key y := by
  have hpage : ((l.take n).filter p).Pairwise fun a b => key a < key b :=
    (hl.sublist (List.take_sublist n l)).filter p
  constructor
  · rintro rfl
    refine ⟨fun x hx => (mem_take_iff hl).mp (List.mem_filter.mp hx).1,fun x hx y hy hlt => ?_⟩
    obtain ⟨i,hi,rfl⟩ := List.getElem_of_mem hx
    obtain ⟨j,hj,rfl⟩ := List.getElem_of_mem hy
    rcases lt_trichotomy i j with hij | rfl | hij
    · exact List.pairwise_iff_getElem.mp hpage i j hi hj hij
    · exact absurd hlt (lt_irrefl _)
    · exact absurd (List.pairwise_iff_getElem.mp hwanted j i hj hi hij) (not_lt.mpr hlt.le)
  · rintro ⟨hplace,horder⟩
    have hsorted : wanted.Pairwise fun a b => key a < key b :=
      hwanted.imp_of_mem fun ha hb hlt => horder _ ha _ hb hlt
    have hsub : wanted ⊆ (l.take n).filter p := fun x hx =>
      List.mem_filter.mpr ⟨(mem_take_iff hl).mpr (hplace x hx),hpass x hx⟩
    have hnodup : wanted.Nodup := hsorted.imp fun hlt heq => absurd (heq ▸ hlt) (lt_irrefl _)
    have hperm : wanted.Perm ((l.take n).filter p) :=
      (List.subperm_of_subset hnodup hsub).perm_of_length_le hlength
    exact (hperm.eq_of_pairwise (fun a b _ _ hab hba => absurd hab (not_lt.mpr hba.le)) hsorted hpage).symm

/-- The first entry of a sorted list that passes comes before all others that do. -/
theorem find?_eq_some_iff_sorted {p : α → Bool} (hl : l.Pairwise fun a b => key a < key b) {x : α} :
    l.find? p = some x ↔ x ∈ l ∧ p x = true ∧ ∀ y ∈ l, key y < key x → p y = false := by
  induction l with
  | nil => simp
  | cons a l ih =>
    obtain ⟨hfirst,hrest⟩ := List.pairwise_cons.mp hl
    by_cases ha : p a = true
    · rw [List.find?_cons_of_pos ha,Option.some_inj]
      constructor
      · rintro rfl
        refine ⟨List.mem_cons_self,ha,List.forall_mem_cons.mpr ⟨fun h => absurd h (lt_irrefl _),?_⟩⟩
        exact fun y hy h => absurd h (not_lt.mpr (hfirst y hy).le)
      · rintro ⟨hx,-,hbefore⟩
        rcases List.mem_cons.mp hx with rfl | hx
        · rfl
        · have hfail := hbefore a List.mem_cons_self (hfirst x hx)
          rw [ha] at hfail
          cases hfail
    · rw [List.find?_cons_of_neg ha,ih hrest,List.mem_cons,List.forall_mem_cons]
      have hne : p x = true → x ≠ a := fun hx heq => ha (heq ▸ hx)
      constructor
      · rintro ⟨hx,hpass,hbefore⟩
        exact ⟨.inr hx,hpass,fun _ => by simpa using ha,hbefore⟩
      · rintro ⟨hx,hpass,-,hbefore⟩
        exact ⟨hx.resolve_left (hne hpass),hpass,hbefore⟩

/-- The places before a place of the page are on the page. -/
theorem length_before_lt {x y : α} (h : (l.filter fun z => key z < key x).length < n)
    (hlt : key y < key x) : (l.filter fun z => key z < key y).length < n := by
  refine lt_of_le_of_lt (List.Sublist.length_le ?_) h
  refine List.monotone_filter_right l fun z hz => ?_
  rw [decide_eq_true_eq] at hz ⊢
  exact hz.trans hlt

end Sorted

end Pages
