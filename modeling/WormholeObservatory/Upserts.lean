import Mathlib.Algebra.BigOperators.Group.Multiset.Basic
import Mathlib.Algebra.Order.Group.Multiset
import Mathlib.Order.Bounds.Basic
import WormholeObservatory.Tables

/-! Values that are collected under a key. An upsert adds to what is there; done to a
dictionary, which keeps the order in which its keys came, or to a table, it adds up the same
way whatever the order. The values collected here are multisets of times and what is kept of
them: how many there are, the first and the last. -/
namespace Aggregation

variable {κ V W : Type*} [DecidableEq κ]

/-- A dictionary that iterates over its keys in the order they were first inserted. -/
abbrev Dict (κ V : Type*) := List (κ × V)

namespace Dict

def upsert [Add V] (k : κ) (v : V) : Dict κ V → Dict κ V
  | [] => [(k,v)]
  | (k',v')::rest => if k' = k then (k',v'+v)::rest else (k',v')::upsert k v rest

/-- What is collected under the keys in `p`. -/
def total [AddCommMonoid V] (p : κ → Bool) (d : Dict κ V) : V :=
  ((d.filter fun e => p e.1).map Prod.snd).sum

omit [DecidableEq κ] in
theorem total_cons [AddCommMonoid V] (p : κ → Bool) (e : κ × V) (d : Dict κ V) :
    Dict.total p (e::d) = (if p e.1 then e.2 else 0)+Dict.total p d := by
  by_cases h : p e.1 <;> simp [total,h]

omit [DecidableEq κ] in
theorem mem_total {α : Type*} {p : κ → Bool} {d : Dict κ (Multiset α)} {a : α} :
    a ∈ d.total p ↔ ∃ e ∈ d, p e.1 = true ∧ a ∈ e.2 := by
  induction d with
  | nil => simp [total]
  | cons e d ih =>
    rw [total_cons,Multiset.mem_add,ih,List.exists_mem_cons_iff]
    by_cases h : p e.1 <;> simp [h]

theorem total_upsert [AddCommMonoid V] (p : κ → Bool) (k : κ) (v : V) (d : Dict κ V) :
    (d.upsert k v).total p = d.total p+if p k then v else 0 := by
  induction d with
  | nil =>
    simp only [upsert]
    rw [total_cons]
    simp [total]
  | cons e d ih =>
    obtain ⟨k',v'⟩ := e
    simp only [upsert]
    split
    · rename_i heq
      subst heq
      simp only [total_cons]
      split <;> abel
    · rw [total_cons,total_cons,ih,add_assoc]

theorem mem_keys_upsert [Add V] (k k' : κ) (v : V) (d : Dict κ V) :
    k' ∈ (d.upsert k v).map Prod.fst ↔ k' = k ∨ k' ∈ d.map Prod.fst := by
  induction d with
  | nil => simp [upsert]
  | cons e d ih =>
    simp only [upsert]
    split
    · rename_i heq
      subst heq
      simp
    · simp only [List.map_cons,List.mem_cons,ih]
      tauto

theorem nodup_upsert [Add V] (k : κ) (v : V) {d : Dict κ V} (h : (d.map Prod.fst).Nodup) :
    ((d.upsert k v).map Prod.fst).Nodup := by
  induction d with
  | nil => simp [upsert]
  | cons e d ih =>
    obtain ⟨hnot,hnodup⟩ := List.nodup_cons.mp h
    simp only [upsert]
    split
    · exact h
    · rename_i hne
      refine List.nodup_cons.mpr ⟨fun hmem => ?_,ih hnodup⟩
      rcases (mem_keys_upsert k e.1 v d).mp hmem with heq | hmem
      · exact hne heq
      · exact hnot hmem

theorem forall_mem_upsert [Add V] {P : κ → V → Prop} {k : κ} {v : V} (hv : P k v)
    (hadd : ∀ w, P k w → P k (w+v)) {d : Dict κ V} (h : ∀ e ∈ d, P e.1 e.2) :
    ∀ e ∈ d.upsert k v, P e.1 e.2 := by
  induction d with
  | nil =>
    intro e he
    obtain rfl := List.mem_singleton.mp he
    exact hv
  | cons e₀ d ih =>
    obtain ⟨k₀,v₀⟩ := e₀
    have hrest : ∀ e ∈ d, P e.1 e.2 := fun e he => h e (List.mem_cons_of_mem _ he)
    intro e he
    simp only [upsert] at he
    split at he
    · rename_i heq
      subst heq
      rcases List.mem_cons.mp he with rfl | he
      · exact hadd v₀ (h (k₀,v₀) List.mem_cons_self)
      · exact hrest e he
    · rcases List.mem_cons.mp he with rfl | he
      · exact h (k₀,v₀) List.mem_cons_self
      · exact ih hrest e he

/-- A part of the values that adds up can be collected on its own. -/
theorem map_upsert [Add V] [Add W] {f : V → W} (hf : ∀ v v', f (v+v') = f v+f v') (k : κ) (v : V)
    (d : Dict κ V) : (d.upsert k v).map (fun e => (e.1,f e.2)) =
      Dict.upsert k (f v) (d.map fun e => (e.1,f e.2)) := by
  induction d with
  | nil => rfl
  | cons e d ih =>
    simp only [upsert,List.map_cons]
    split
    · rw [List.map_cons,hf]
    · rw [List.map_cons,ih]

/-- Where every key has one entry, that entry is all that is collected under it. -/
theorem total_of_mem [AddCommMonoid V] {d : Dict κ V} (h : (d.map Prod.fst).Nodup) {k : κ} {v : V}
    (hmem : (k,v) ∈ d) : d.total (fun k' => decide (k' = k)) = v := by
  induction d with
  | nil => cases hmem
  | cons e d ih =>
    obtain ⟨hnot,hnodup⟩ := List.nodup_cons.mp h
    rw [total_cons]
    rcases List.mem_cons.mp hmem with rfl | hmem
    · have hnone : d.filter (fun e => decide (e.1 = k)) = [] := by
        refine List.filter_eq_nil_iff.mpr fun e he => ?_
        simp only [decide_eq_true_eq]
        intro heq
        exact hnot (List.mem_map.mpr ⟨e,he,heq⟩)
      simp [total,hnone]
    · have hne : e.1 ≠ k := fun heq => hnot (List.mem_map.mpr ⟨(k,v),hmem,heq.symm⟩)
      simp [hne,ih hnodup hmem]

/-- Two dictionaries filled alike keep what relates their values. -/
theorem upsert_forall₂ [Add V] [Add W] {R : V → W → Prop}
    (hadd : ∀ v v' w w', R v w → R v' w' → R (v+v') (w+w')) {d : Dict κ V} {d' : Dict κ W}
    (h : List.Forall₂ (fun e e' => e.1 = e'.1 ∧ R e.2 e'.2) d d') (k : κ) {v : V} {w : W}
    (hvw : R v w) :
    List.Forall₂ (fun e e' => e.1 = e'.1 ∧ R e.2 e'.2) (d.upsert k v) (d'.upsert k w) := by
  induction h with
  | nil => exact .cons ⟨rfl,hvw⟩ .nil
  | @cons e e' d d' he hrest ih =>
    obtain ⟨k₁,v₁⟩ := e
    obtain ⟨k₂,w₁⟩ := e'
    obtain ⟨rfl,hold⟩ := he
    simp only [upsert]
    split
    · exact .cons ⟨rfl,hadd _ _ _ _ hold hvw⟩ hrest
    · exact .cons ⟨rfl,hold⟩ ih

omit [DecidableEq κ] in
theorem exists_left {R : V → W → Prop} {d : Dict κ V} {d' : Dict κ W}
    (h : List.Forall₂ (fun e e' => e.1 = e'.1 ∧ R e.2 e'.2) d d') {k : κ} {v : V}
    (hmem : (k,v) ∈ d) : ∃ w, (k,w) ∈ d' ∧ R v w := by
  induction h with
  | nil => cases hmem
  | @cons e e' d d' he _ ih =>
    rcases List.mem_cons.mp hmem with rfl | hmem
    · obtain ⟨k',w⟩ := e'
      obtain ⟨rfl,hvw⟩ := he
      exact ⟨w,List.mem_cons_self,hvw⟩
    · obtain ⟨w,hw,hvw⟩ := ih hmem
      exact ⟨w,List.mem_cons_of_mem _ hw,hvw⟩

omit [DecidableEq κ] in
/-- Dictionaries filled alike have the same keys. -/
theorem keys_eq {R : V → W → Prop} {d : Dict κ V} {d' : Dict κ W}
    (h : List.Forall₂ (fun e e' => e.1 = e'.1 ∧ R e.2 e'.2) d d') :
    d.map Prod.fst = d'.map Prod.fst := by
  induction h with
  | nil => rfl
  | cons he _ ih => rw [List.map_cons,List.map_cons,he.1,ih]

end Dict

end Aggregation

namespace Table

variable {κ V M : Type*} [DecidableEq κ]

/-- `INSERT .. ON CONFLICT DO UPDATE`, where the new row is added to the old one. -/
def upsert [Add V] (k : κ) (v : V) (t : Table κ V) : Table κ V :=
  t.insert k (((t.lookup k).map (·+v)).getD v)

theorem lookup_upsert_self [Add V] (k : κ) (v : V) (t : Table κ V) :
    (t.upsert k v).lookup k = (t.lookup k).merge (·+·) (some v) := by
  rw [upsert,AList.lookup_insert]
  cases t.lookup k <;> rfl

theorem lookup_upsert_ne [Add V] {k k' : κ} (h : k' ≠ k) (v : V) (t : Table κ V) :
    (t.upsert k v).lookup k' = t.lookup k' :=
  AList.lookup_insert_ne h

/-- `SELECT SUM(f) FROM t`. -/
def sumOf [AddCommMonoid M] (f : κ → V → M) (t : Table κ V) : M :=
  (t.entries.map fun e => f e.1 e.2).sum

theorem sum_kerase [AddCommMonoid M] (f : κ → V → M) (k : κ)
    (entries : List (Sigma fun _ : κ => V)) :
    (entries.map fun e => f e.1 e.2).sum =
      ((entries.dlookup k).map (f k)).getD 0+((entries.kerase k).map fun e => f e.1 e.2).sum := by
  induction entries with
  | nil => simp
  | cons e entries ih =>
    obtain ⟨k',v⟩ := e
    by_cases h : k = k'
    · subst h
      have herase : List.kerase k (⟨k,v⟩::entries) = entries := List.kerase_cons_eq rfl
      rw [List.dlookup_cons_eq,herase]
      simp
    · rw [List.dlookup_cons_ne _ _ h,List.kerase_cons_ne h,List.map_cons,List.sum_cons,ih,
        List.map_cons,List.sum_cons]
      abel

theorem sumOf_upsert [Add V] [AddCommMonoid M] {f : κ → V → M}
    (hf : ∀ k v w, f k (v+w) = f k v+f k w) (k : κ) (v : V) (t : Table κ V) :
    (t.upsert k v).sumOf f = t.sumOf f+f k v := by
  have hold := sum_kerase f k t.entries
  simp only [sumOf,upsert,AList.entries_insert,List.map_cons,List.sum_cons]
  rw [hold]
  change f k (((t.lookup k).map (·+v)).getD v)+_ = ((t.lookup k).map (f k)).getD 0+_+_
  cases t.lookup k with
  | none =>
    simp only [Option.map_none,Option.getD_none]
    abel
  | some old =>
    simp only [Option.map_some,Option.getD_some,hf]
    abel

end Table

namespace Aggregation

/-- How often something was seen, first and last. -/
structure Span (τ : Type*) where
  count : ℤ
  first : τ
  last : τ
  deriving DecidableEq

namespace Span

variable {τ : Type*} [LinearOrder τ]

instance : Add (Span τ) := ⟨fun a b => ⟨a.count+b.count,min a.first b.first,max a.last b.last⟩⟩

omit [LinearOrder τ] in
/-- Seen once. -/
def single (t : τ) : Span τ := ⟨1,t,t⟩

/-- Seen at the times `lasts`, counting from the earliest of `firsts`. -/
structure Covers (firsts lasts : Multiset τ) (span : Span τ) : Prop where
  count : span.count = lasts.card
  first : IsLeast {t | t ∈ firsts} span.first
  last : IsGreatest {t | t ∈ lasts} span.last

theorem covers_single (t : τ) : (single t).Covers {t} {t} :=
  ⟨by simp [single],by simp [single],by simp [single]⟩

theorem Covers.add {firsts lasts firsts' lasts' : Multiset τ} {a b : Span τ}
    (ha : a.Covers firsts lasts) (hb : b.Covers firsts' lasts') :
    (a+b).Covers (firsts+firsts') (lasts+lasts') := by
  have hunion : ∀ s t : Multiset τ, {x | x ∈ s+t} = {x | x ∈ s} ∪ {x | x ∈ t} := by
    intro s t
    ext x
    simp
  refine ⟨?_,?_,?_⟩
  · change a.count+b.count = _
    rw [ha.count,hb.count,Multiset.card_add,Nat.cast_add]
  · rw [hunion]
    exact ha.first.union hb.first
  · rw [hunion]
    exact ha.last.union hb.last

/-- What is seen at the same times is seen alike. -/
theorem Covers.unique {firsts lasts : Multiset τ} {a b : Span τ} (ha : a.Covers firsts lasts)
    (hb : b.Covers firsts lasts) : a = b := by
  obtain ⟨count,first,last⟩ := a
  obtain ⟨count',first',last'⟩ := b
  obtain rfl : count = count' := ha.count.trans hb.count.symm
  obtain rfl : first = first' := ha.first.unique hb.first
  obtain rfl : last = last' := ha.last.unique hb.last
  rfl

/-- A row, or that there is none. -/
def Summarises (firsts lasts : Multiset τ) : Option (Span τ) → Prop
  | none => firsts = 0 ∧ lasts = 0
  | some span => span.Covers firsts lasts

theorem Summarises.add {firsts lasts firsts' lasts' : Multiset τ} {row : Option (Span τ)}
    {span : Span τ} (hrow : Summarises firsts lasts row) (hspan : span.Covers firsts' lasts') :
    Summarises (firsts+firsts') (lasts+lasts') (row.merge (·+·) (some span)) := by
  cases row with
  | none =>
    obtain ⟨rfl,rfl⟩ := hrow
    rw [zero_add,zero_add]
    exact hspan
  | some old => exact Covers.add hrow hspan

/-- Counting from some of the times is exact when the earliest of all is among them. -/
theorem Summarises.exact_iff {firsts times : Multiset τ} {row : Option (Span τ)}
    (h : Summarises firsts times row) (hsub : ∀ t ∈ firsts, t ∈ times) :
    Summarises times times row ↔ ∀ t ∈ times, ∃ f ∈ firsts, ∀ t' ∈ times, f ≤ t' := by
  cases row with
  | none =>
    obtain ⟨rfl,rfl⟩ := h
    exact ⟨fun _ t ht => absurd ht (Multiset.notMem_zero t),fun _ => ⟨rfl,rfl⟩⟩
  | some span =>
    constructor
    · intro hexact t _
      exact ⟨span.first,h.first.1,fun t' ht' => hexact.first.2 ht'⟩
    · intro hfirst
      obtain ⟨f,hf,hle⟩ := hfirst span.last h.last.1
      exact ⟨h.count,⟨hsub _ h.first.1,fun t ht => (h.first.2 hf).trans (hle t ht)⟩,h.last⟩

theorem Summarises.unique {firsts lasts : Multiset τ} {a b : Option (Span τ)}
    (ha : Summarises firsts lasts a) (hb : Summarises firsts lasts b) : a = b := by
  cases a with
  | none =>
    cases b with
    | none => rfl
    | some span =>
      obtain ⟨rfl,rfl⟩ := ha
      have hmem := hb.first.1
      cases Multiset.notMem_zero _ hmem
  | some span =>
    cases b with
    | none =>
      obtain ⟨rfl,rfl⟩ := hb
      have hmem := ha.first.1
      cases Multiset.notMem_zero _ hmem
    | some span' => exact congrArg some (Covers.unique ha hb)

end Span

end Aggregation
