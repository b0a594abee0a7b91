import Mathlib.Data.List.DropRight
import Mathlib.Tactic

/-! Texts of several lines: what splitting gives back of joined lines, and what trimming the ends of a
text leaves of a part that does not end in what is trimmed. -/
namespace TextLines

variable {α : Type*} {p : α → Bool}

section Split

variable [DecidableEq α] {x : α}

/-- Lines that follow a text are found behind its own lines. -/
theorem splitOn_section (a : List α) {ls : List (List α)} (hls : ls ≠ []) (hx : ∀ l ∈ ls, x ∉ l) :
    (a++x::[x].intercalate ls).splitOn x = a.splitOn x++ls := by
  rw [List.splitOn_append_cons_self,List.splitOn_intercalate x hx hls]

end Split

theorem not_of_mem_splitOnP {l part : List α} (hpart : part ∈ l.splitOnP p) : ∀ a ∈ part, p a = false := by
  induction l generalizing part with
  | nil =>
    rw [List.splitOnP_nil,List.mem_singleton] at hpart
    rw [hpart]
    exact fun _ h => absurd h List.not_mem_nil
  | cons b l ih =>
    rw [List.splitOnP_cons_eq_if_modifyHead] at hpart
    split at hpart
    · rcases List.mem_cons.mp hpart with rfl | hpart
      · exact fun _ h => absurd h List.not_mem_nil
      · exact ih hpart
    · rename_i hb
      obtain ⟨first,rest,hsplit⟩ := List.exists_cons_of_ne_nil (List.splitOnP_ne_nil p l)
      rw [hsplit,List.modifyHead_cons] at hpart
      rcases List.mem_cons.mp hpart with rfl | hpart
      · exact List.forall_mem_cons.mpr
          ⟨Bool.eq_false_iff.mpr hb,ih (by rw [hsplit]; exact List.mem_cons_self)⟩
      · exact ih (by rw [hsplit]; exact List.mem_cons_of_mem _ hpart)

theorem mem_intercalate {separator : List α} {ls : List (List α)} {a : α}
    (h : a ∈ separator.intercalate ls) : a ∈ separator ∨ ∃ l ∈ ls, a ∈ l := by
  induction ls with
  | nil => exact absurd h List.not_mem_nil
  | cons l ls ih =>
    cases ls with
    | nil =>
      rw [List.intercalate_singleton] at h
      exact .inr ⟨l,List.mem_cons_self,h⟩
    | cons m ls =>
      rw [List.intercalate_cons_cons,List.mem_append,List.mem_append] at h
      rcases h with (h | h) | h
      · exact .inr ⟨l,List.mem_cons_self,h⟩
      · exact .inl h
      · rcases ih h with h | ⟨k,hk,h⟩
        · exact .inl h
        · exact .inr ⟨k,List.mem_cons_of_mem _ hk,h⟩

/-! Trimming. -/

theorem rdropWhile_append_cons (l : List α) {a : α} (ha : p a = false) (r : List α) :
    (l++a::r).rdropWhile p = l++a::r.rdropWhile p := by
  induction r using List.reverseRecOn with
  | nil => rw [List.rdropWhile_concat_neg _ _ _ (by simpa using ha),List.rdropWhile_nil]
  | append_singleton r b ih =>
    have hassoc : l++a::(r++[b]) = (l++a::r)++[b] := by simp
    rw [hassoc,List.rdropWhile_concat,List.rdropWhile_concat,ih]
    split
    · rfl
    · rw [hassoc]

/-- Of joined lines the last one is trimmed. -/
theorem rdropWhile_intercalate {separator : List α} (ls : List (List α)) {a : α} (ha : p a = false)
    (l r : List α) : (l++separator.intercalate (ls++[a::r])).rdropWhile p =
      l++separator.intercalate (ls++[a::r.rdropWhile p]) := by
  induction ls generalizing l with
  | nil =>
    rw [List.nil_append,List.nil_append,List.intercalate_singleton,List.intercalate_singleton,
      rdropWhile_append_cons l ha]
  | cons m ls ih =>
    have hrest : ∀ k, separator.intercalate (m::ls++[k]) = m++separator++separator.intercalate (ls++[k]) := by
      intro k
      rw [List.cons_append,List.intercalate_cons_of_ne_nil (by simp)]
    rw [hrest,hrest,← List.append_assoc,ih,List.append_assoc]

/-- A part whose ends are kept is still there when the ends of the text are trimmed. -/
theorem infix_trim {w l : List α} (hhead : w.head?.any p = false) (hlast : w.getLast?.any p = false)
    (h : w <:+: l) : w <:+: (l.dropWhile p).rdropWhile p := by
  have hfront : w <:+: l.dropWhile p := by
    obtain ⟨before,after,rfl⟩ := h
    rw [List.append_assoc,List.dropWhile_append]
    split
    · cases w with
      | nil => exact List.nil_infix
      | cons a w =>
        have ha : p a = false := by simpa using hhead
        rw [List.cons_append,List.dropWhile_cons_of_neg (by simpa using ha),← List.cons_append]
        exact (List.prefix_append _ _).isInfix
    · exact ⟨before.dropWhile p,after,by rw [List.append_assoc]⟩
  obtain ⟨before,after,hsplit⟩ := hfront
  cases w using List.reverseRecOn with
  | nil => exact List.nil_infix
  | append_singleton w a =>
    have ha : p a = false := by simpa using hlast
    have hassoc : before++(w++[a])++after = (before++w)++a::after := by simp
    rw [← hsplit,hassoc,rdropWhile_append_cons _ ha]
    exact ⟨before,after.rdropWhile p,by simp⟩

end TextLines
