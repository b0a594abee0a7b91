import Mathlib.Data.List.Nodup
import Mathlib.Tactic

/-! Values kept under keys inside a larger record, visited one after the other while a state is
carried along. Where a visit touches nothing of the state but what belongs to its own key, and no
key comes twice, what the whole round does to a key is what the one visit of that key does. -/
namespace Slots

variable {α κ V S W : Type*}

/-- A round over slots; `f n s k v` visits the slot at place `n` and gives its new value. -/
def visit (f : ℕ → S → κ → V → V × S) : ℕ → S → List (κ × V) → List (κ × V) × S
  | _,s,[] => ([],s)
  | n,s,(k,v)::rest =>
    ((k,(f n s k v).1)::(visit f (n+1) (f n s k v).2 rest).1,(visit f (n+1) (f n s k v).2 rest).2)

theorem visit_append (f : ℕ → S → κ → V → V × S) (n : ℕ) (s : S) (l l' : List (κ × V)) :
    visit f n s (l++l') =
      ((visit f n s l).1++(visit f (n+l.length) (visit f n s l).2 l').1,
        (visit f (n+l.length) (visit f n s l).2 l').2) := by
  induction l generalizing n s with
  | nil => rfl
  | cons e l ih =>
    have hplace : n+1+l.length = n+(e::l).length := by simp [add_comm,add_left_comm]
    simp only [List.cons_append,visit,ih,hplace]

theorem keys_visit (f : ℕ → S → κ → V → V × S) (n : ℕ) (s : S) (l : List (κ × V)) :
    (visit f n s l).1.map Prod.fst = l.map Prod.fst := by
  induction l generalizing n s with
  | nil => rfl
  | cons e l ih => simp only [visit,List.map_cons,ih]

section Local

variable {f : ℕ → S → κ → V → V × S} {view : S → κ → W}

/-- A visit leaves what belongs to the other keys alone. -/
def Framed (f : ℕ → S → κ → V → V × S) (view : S → κ → W) : Prop :=
  ∀ n s k v k', k' ≠ k → view (f n s k v).2 k' = view s k'

theorem visit_other (hframe : Framed f view) {n : ℕ} {s : S} {l : List (κ × V)} {k : κ}
    (hk : k ∉ l.map Prod.fst) : view (visit f n s l).2 k = view s k := by
  induction l generalizing n s with
  | nil => rfl
  | cons e l ih =>
    rw [List.map_cons,List.mem_cons,not_or] at hk
    rw [visit,ih hk.2]
    exact hframe n s e.1 e.2 k hk.1

/-- What holds of each visit holds of the round at each key. -/
theorem visit_local (hframe : Framed f view) {R : ℕ → κ → V → W → V → W → Prop}
    (hvisit : ∀ n s k v, R n k v (view s k) (f n s k v).1 (view (f n s k v).2 k))
    {n : ℕ} {s : S} {l : List (κ × V)} (hnodup : (l.map Prod.fst).Nodup) {i : ℕ} {k : κ} {v : V}
    (hi : l[i]? = some (k,v)) :
    ∃ v', (visit f n s l).1[i]? = some (k,v') ∧ R (n+i) k v (view s k) v' (view (visit f n s l).2 k) := by
  induction l generalizing n s i with
  | nil => simp at hi
  | cons e l ih =>
    obtain ⟨hnot,hrest⟩ := List.nodup_cons.mp hnodup
    cases i with
    | zero =>
      obtain rfl : e = (k,v) := by simpa using hi
      refine ⟨(f n s k v).1,rfl,?_⟩
      have hkept : view (visit f n s ((k,v)::l)).2 k = view (f n s k v).2 k := visit_other hframe hnot
      rw [hkept]
      exact hvisit n s k v
    | succ i =>
      have hi : l[i]? = some (k,v) := by simpa using hi
      have hmem : k ∈ l.map Prod.fst := List.mem_map_of_mem (List.mem_of_getElem? hi)
      have hne : k ≠ e.1 := fun heq => hnot (heq ▸ hmem)
      obtain ⟨v',hv',hR⟩ := ih (n := n+1) (s := (f n s e.1 e.2).2) hrest hi
      rw [hframe n s e.1 e.2 k hne] at hR
      refine ⟨v',by simpa [visit] using hv',?_⟩
      have hplace : n+1+i = n+(i+1) := by omega
      rwa [hplace] at hR

end Local

section Records

variable (key : α → Option κ) (get : α → V) (put : α → V → α)

/-- The slots of a list of records; a record without a key has none. -/
def slotsOf (l : List α) : List (κ × V) := l.filterMap fun p => (key p).map fun k => (k,get p)

theorem keys_slotsOf (l : List α) : (slotsOf key get l).map Prod.fst = l.filterMap key := by
  rw [slotsOf,List.map_filterMap]
  refine List.filterMap_congr fun p _ => ?_
  cases key p with
  | none => rfl
  | some k => rfl

/-- A round over the records of a list. -/
def visitList (f : ℕ → S → κ → V → V × S) : ℕ → S → List α → List α × S
  | _,s,[] => ([],s)
  | n,s,p::ps =>
    match key p with
    | none => (p::(visitList f n s ps).1,(visitList f n s ps).2)
    | some k =>
      (put p (f n s k (get p)).1::(visitList f (n+1) (f n s k (get p)).2 ps).1,
        (visitList f (n+1) (f n s k (get p)).2 ps).2)

/-- A round over records is the round over their slots. -/
theorem visitList_slots (hkey : ∀ p v, key (put p v) = key p) (hget : ∀ p v, get (put p v) = v)
    (f : ℕ → S → κ → V → V × S) (n : ℕ) (s : S) (l : List α) :
    slotsOf key get (visitList key get put f n s l).1 = (visit f n s (slotsOf key get l)).1 ∧
    (visitList key get put f n s l).2 = (visit f n s (slotsOf key get l)).2 := by
  induction l generalizing n s with
  | nil => exact ⟨rfl,rfl⟩
  | cons p ps ih =>
    cases hk : key p with
    | none =>
      obtain ⟨hslots,hstate⟩ := ih n s
      simp only [visitList,hk,slotsOf,List.filterMap_cons,Option.map_none] at hslots hstate ⊢
      exact ⟨hslots,hstate⟩
    | some k =>
      obtain ⟨hslots,hstate⟩ := ih (n+1) (f n s k (get p)).2
      simp only [visitList,hk,slotsOf,List.filterMap_cons,hkey,hget,Option.map_some,visit] at hslots hstate ⊢
      exact ⟨congrArg _ hslots,hstate⟩

/-- A round changes a record at most by what it puts into its slot. -/
theorem visitList_forget {β : Type*} {g : α → β} (hg : ∀ p v, g (put p v) = g p)
    (f : ℕ → S → κ → V → V × S) (n : ℕ) (s : S) (l : List α) :
    (visitList key get put f n s l).1.map g = l.map g := by
  induction l generalizing n s with
  | nil => rfl
  | cons p ps ih =>
    simp only [visitList]
    split
    · simp only [List.map_cons,ih]
    · simp only [List.map_cons,hg,ih]

/-- Records that agree in everything else and in their slots are the same. -/
theorem eq_of_slotsOf {v : V} (hkey : ∀ p v, key (put p v) = key p)
    (hput : ∀ p q, put p v = put q v → get p = get q → p = q) {l l' : List α}
    (hkeyed : ∀ p ∈ l, (key p).isSome = true)
    (hrest : l.map (fun p => put p v) = l'.map (fun p => put p v))
    (hslots : slotsOf key get l = slotsOf key get l') : l = l' := by
  induction l generalizing l' with
  | nil =>
    have hnil : l' = [] := by simpa using hrest.symm
    rw [hnil]
  | cons p l ih =>
    cases l' with
    | nil => simp at hrest
    | cons q l' =>
      obtain ⟨hp,hkeyed⟩ := List.forall_mem_cons.mp hkeyed
      rw [List.map_cons,List.map_cons] at hrest
      obtain ⟨hhead,htail⟩ := List.cons_eq_cons.mp hrest
      obtain ⟨k,hk⟩ := Option.isSome_iff_exists.mp hp
      have hq : key q = some k := by rw [← hkey q v,← hhead,hkey,hk]
      simp only [slotsOf,List.filterMap_cons,hk,hq,Option.map_some,List.cons_eq_cons,Prod.mk.injEq,
        true_and] at hslots
      rw [hput p q hhead hslots.1,ih hkeyed htail hslots.2]

theorem length_slotsOf (hkey : ∀ p v, key (put p v) = key p) {v : V} {l l' : List α}
    (hrest : l.map (fun p => put p v) = l'.map (fun p => put p v)) :
    (slotsOf key get l).length = (slotsOf key get l').length := by
  have hkeys : ∀ l : List α, (slotsOf key get l).length = ((l.map fun p => put p v).filterMap key).length := by
    intro l
    rw [List.filterMap_map]
    induction l with
    | nil => rfl
    | cons p l ih =>
      cases hk : key p with
      | none => simpa [slotsOf,hk,hkey,Function.comp_def] using ih
      | some k => simpa [slotsOf,hk,hkey,Function.comp_def] using ih
  rw [hkeys l,hkeys l',hrest]

theorem mem_slotsOf {e : κ × V} {l : List α} :
    e ∈ slotsOf key get l ↔ ∃ p ∈ l, key p = some e.1 ∧ get p = e.2 := by
  rw [slotsOf,List.mem_filterMap]
  refine exists_congr fun p => and_congr_right fun _ => ?_
  cases key p with
  | none => simp
  | some k => simp [Prod.ext_iff]

/-- Records that keep their keys, with values that depend on these. -/
theorem slotsOf_map {g : α → α} {form : κ → V → V} (hkey : ∀ p, key (g p) = key p)
    (hget : ∀ p k, key p = some k → get (g p) = form k (get p)) (l : List α) :
    slotsOf key get (l.map g) = (slotsOf key get l).map fun e => (e.1,form e.1 e.2) := by
  simp only [slotsOf,List.filterMap_map,List.map_filterMap]
  refine List.filterMap_congr fun p _ => ?_
  rw [Function.comp_apply,hkey,Option.map_map]
  refine Option.map_congr fun k hk => ?_
  rw [Function.comp_apply,hget p k hk]

theorem slotsOf_map_put (hkey : ∀ p v, key (put p v) = key p) (hget : ∀ p v, get (put p v) = v) (v : V)
    (l : List α) :
    slotsOf key get (l.map fun p => put p v) = (slotsOf key get l).map fun e => (e.1,v) :=
  @slotsOf_map _ _ _ key get _ (fun _ _ => v) (fun p => hkey p v) (fun p _ _ => hget p v) l

end Records

/-- Slots with one key have one value. -/
def Agree (l : List (κ × V)) : Prop := ∀ e ∈ l, ∀ e' ∈ l, e.1 = e'.1 → e.2 = e'.2

theorem agree_append {l l' : List (κ × V)} (h : ∀ e ∈ l, ∀ e' ∈ l', e.1 ≠ e'.1) :
    Agree (l++l') ↔ Agree l ∧ Agree l' := by
  constructor
  · intro hall
    exact ⟨fun e he e' he' => hall e (List.mem_append_left _ he) e' (List.mem_append_left _ he'),
      fun e he e' he' => hall e (List.mem_append_right _ he) e' (List.mem_append_right _ he')⟩
  · rintro ⟨hl,hl'⟩ e he e' he' hkey
    rcases List.mem_append.mp he with he | he <;> rcases List.mem_append.mp he' with he' | he'
    · exact hl e he e' he' hkey
    · exact absurd hkey (h e he e' he')
    · exact absurd hkey.symm (h e' he' e he)
    · exact hl' e he e' he' hkey

end Slots
