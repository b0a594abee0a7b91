import Mathlib.Tactic

/-! `LIKE` as SQLite has it, without an escape character: letters are compared without regard to
case where they are ASCII, `%` stands for any text and `_` for any character. -/
namespace SqlLike

def like : List Char → List Char → Bool
  | [],text => text.isEmpty
  | c::pattern,text =>
    if c = '%' then text.tails.any (like pattern)
    else
      match text with
      | [] => false
      | x::rest => (decide (c = '_') || decide (c.toLower = x.toLower)) && like pattern rest

theorem like_cons (c : Char) (pattern text : List Char) : like (c::pattern) text =
    if c = '%' then text.tails.any (like pattern)
    else
      match text with
      | [] => false
      | x::rest => (decide (c = '_') || decide (c.toLower = x.toLower)) && like pattern rest := by
  cases text <;> rfl

/-- Patterns in a row match texts in a row. -/
theorem like_append {p q t u : List Char} (hp : like p t = true) (hq : like q u = true) :
    like (p++q) (t++u) = true := by
  induction p generalizing t with
  | nil =>
    obtain rfl : t = [] := by simpa [like] using hp
    exact hq
  | cons c p ih =>
    rw [like_cons] at hp
    rw [List.cons_append,like_cons]
    split at hp
    · rename_i hany
      obtain ⟨rest,hrest,hmatch⟩ := List.any_eq_true.mp hp
      rw [if_pos hany]
      refine List.any_eq_true.mpr ⟨rest++u,?_,ih hmatch⟩
      obtain ⟨front,hfront⟩ := (List.mem_tails _ _).mp hrest
      exact (List.mem_tails _ _).mpr ⟨front,by rw [← hfront,List.append_assoc]⟩
    · rename_i hone
      rw [if_neg hone]
      cases t with
      | nil => cases hp
      | cons x t =>
        obtain ⟨hx,hrest⟩ := (Bool.and_eq_true _ _).mp hp
        exact (Bool.and_eq_true _ _).mpr ⟨hx,ih hrest⟩

theorem like_any (t : List Char) : like ['%'] t = true := by
  rw [like_cons,if_pos rfl]
  exact List.any_eq_true.mpr ⟨[],(List.mem_tails _ _).mpr (List.nil_suffix),rfl⟩

/-- A text is its own pattern, whatever signs it has. -/
theorem like_self {p t : List Char} (h : p.map Char.toLower = t.map Char.toLower) :
    like p t = true := by
  induction p generalizing t with
  | nil =>
    obtain rfl : t = [] := by simpa using h.symm
    rfl
  | cons c p ih =>
    cases t with
    | nil => simp at h
    | cons x t =>
      obtain ⟨hx,hrest⟩ := List.cons_eq_cons.mp h
      rw [like_cons]
      split
      · exact List.any_eq_true.mpr ⟨t,(List.mem_tails _ _).mpr (List.suffix_cons x t),ih hrest⟩
      · simp [hx,ih hrest]

/-- The text between `%` signs is found where it stands. -/
theorem like_inside {s t : List Char} (h : s.map Char.toLower = t.map Char.toLower) :
    like ('%'::(s++['%'])) t = true := by
  have hself := like_append (like_self h) (like_any [])
  have hall := like_append (like_any []) hself
  rwa [List.append_nil,List.nil_append] at hall

/-- A sign that is no wildcard and no letter stands in the text as often as in the pattern. -/
theorem count_le_of_like {d : Char} (hany : d ≠ '%') (hone : d ≠ '_')
    (hsign : ∀ x : Char, d.toLower = x.toLower → x = d) {p t : List Char} (h : like p t = true) :
    p.count d ≤ t.count d := by
  induction p generalizing t with
  | nil => simp
  | cons c p ih =>
    rw [like_cons] at h
    split at h
    · rename_i hc
      obtain ⟨rest,hrest,hmatch⟩ := List.any_eq_true.mp h
      have hne : c ≠ d := fun heq => hany (heq.symm.trans hc)
      rw [List.count_cons_of_ne hne]
      exact (ih hmatch).trans (((List.mem_tails _ _).mp hrest).sublist.count_le d)
    · cases t with
      | nil => cases h
      | cons x t =>
        obtain ⟨hx,hrest⟩ := (Bool.and_eq_true _ _).mp h
        by_cases hc : c = d
        · subst hc
          have hfold : c.toLower = x.toLower := by simpa [hone] using hx
          obtain rfl := hsign x hfold
          rw [List.count_cons_self,List.count_cons_self]
          exact Nat.succ_le_succ (ih hrest)
        · rw [List.count_cons_of_ne hc]
          exact (ih hrest).trans (List.count_le_count_cons)

end SqlLike
