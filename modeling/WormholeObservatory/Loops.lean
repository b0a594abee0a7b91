import Mathlib.Tactic

/-! Loops over a list that may be left before its end, and lists that are worked off a piece at a
time. -/
namespace Loops

section Early

variable {σ α : Type*} {ε : Type*} {f : σ → α → Except ε σ} {l : List α} {s : σ}

/-- What holds at the end of a loop, or of what it is left with. -/
def Ends (x : Except ε σ) (P : σ → Prop) (E : ε → Prop) : Prop :=
  match x with
  | .ok s => P s
  | .error e => E e

theorem Ends.mono {x : Except ε σ} {P P' : σ → Prop} {E E' : ε → Prop} (h : Ends x P E)
    (hP : ∀ s, P s → P' s) (hE : ∀ e, E e → E' e) : Ends x P' E' := by
  cases x with
  | ok s => exact hP s h
  | error e => exact hE e h

/-- The rule of such a loop: what the turns so far have come to is taken on by each turn, or it is
what the loop is left with. -/
theorem foldlM_ends {I : List α → σ → Prop} {E : ε → Prop} (hstart : I [] s)
    (hturn : ∀ done a rest s, l = done++a::rest → I done s → Ends (f s a) (I (done++[a])) E) :
    Ends (l.foldlM f s) (I l) E := by
  suffices hrest : ∀ done rest s, l = done++rest → I done s → Ends (rest.foldlM f s) (I l) E from
    hrest [] l s rfl hstart
  intro done rest
  induction rest generalizing done with
  | nil =>
    intro s has hs
    rw [List.append_nil] at has
    subst has
    exact hs
  | cons a rest ih =>
    intro s has hs
    have hone := hturn done a rest s has hs
    rw [List.foldlM_cons]
    cases hrun : f s a with
    | error e =>
      rw [hrun] at hone
      exact hone
    | ok s' =>
      rw [hrun] at hone
      exact ih (done++[a]) s' (by simp [has]) hone

end Early

section Pieces

variable {α : Type*} {size : ℕ}

/-- The slices of a list from every multiple of `size`. -/
def pieces (size : ℕ) (l : List α) : List (List α) :=
  (List.range ((l.length+size-1)/size)).map fun i => (l.drop (i*size)).take size

theorem pieces_nil (hsize : 0 < size) : pieces size ([] : List α) = [] := by
  have hnone : ([] : List α).length+size-1 < size := by
    rw [List.length_nil]
    omega
  rw [pieces,Nat.div_eq_of_lt hnone,List.range_zero,List.map_nil]

theorem pieces_cons (hsize : 0 < size) {l : List α} (hl : l ≠ []) :
    pieces size l = l.take size::pieces size (l.drop size) := by
  have hlength := List.length_pos_iff.mpr hl
  have hcount : (l.length+size-1)/size = ((l.drop size).length+size-1)/size+1 := by
    rw [List.length_drop]
    rcases le_total size l.length with h | h
    · rw [← Nat.add_div_right _ hsize]
      congr 1
      omega
    · have hone : (l.length+size-1)/size = 1 := by
        apply Nat.div_eq_of_lt_le <;> omega
      have hnone : l.length-size+size-1 < size := by omega
      rw [hone,Nat.div_eq_of_lt hnone]
  rw [pieces,hcount,List.range_succ_eq_map,List.map_cons,List.map_map,pieces]
  congr 1
  · simp
  · refine List.map_congr_left fun i _ => ?_
    rw [Function.comp_apply,List.drop_drop,Nat.succ_mul,add_comm]

/-- The pieces are the list. -/
theorem flatten_pieces (hsize : 0 < size) (l : List α) : (pieces size l).flatten = l := by
  induction hn : l.length using Nat.strong_induction_on generalizing l with
  | _ n ih =>
    by_cases hl : l = []
    · rw [hl,pieces_nil hsize,List.flatten_nil]
    · have hlength := List.length_pos_iff.mpr hl
      have hshort : (l.drop size).length < n := by
        rw [List.length_drop]
        omega
      rw [pieces_cons hsize hl,List.flatten_cons,ih _ hshort _ rfl,List.take_append_drop]

/-- Every piece has an entry, and none has too many. -/
theorem length_pieces (hsize : 0 < size) {l piece : List α} (h : piece ∈ pieces size l) :
    1 ≤ piece.length ∧ piece.length ≤ size := by
  simp only [pieces,List.mem_map,List.mem_range] at h
  obtain ⟨i,hi,rfl⟩ := h
  have hinside : i*size < l.length := by
    have hle := Nat.mul_le_of_le_div _ _ _ (Nat.succ_le_of_lt hi)
    rw [Nat.succ_mul] at hle
    omega
  rw [List.length_take,List.length_drop]
  omega

end Pieces

end Loops
