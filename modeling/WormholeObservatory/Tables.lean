import Mathlib.Data.List.AList
import Mathlib.Data.List.Sort
import Mathlib.Tactic

/-! Tables with a primary key, on top of Mathlib's association lists.
A table is a finite list of entries whose keys are pairwise different. The
statements a program issues against it are reads by key, `INSERT OR REPLACE`,
`UPDATE .. WHERE`, `DELETE .. WHERE` and `SELECT .. WHERE`; every one of them is
characterised by what it does to `lookup`. -/

abbrev Table (κ ρ : Type*) := AList (fun _ : κ => ρ)

namespace Table

variable {κ ρ : Type*}

/-- `UPDATE t SET row = f row WHERE p key row`. -/
def updateWhere (p : κ → ρ → Bool) (f : ρ → ρ) (t : Table κ ρ) : Table κ ρ where
  entries := t.entries.map fun e => ⟨e.1,if p e.1 e.2 then f e.2 else e.2⟩
  nodupKeys := by
    have h := t.nodupKeys
    simpa [List.NodupKeys,List.keys,List.map_map,Function.comp_def] using h

/-- `DELETE FROM t WHERE p key row`. -/
def deleteWhere (p : κ → ρ → Bool) (t : Table κ ρ) : Table κ ρ where
  entries := t.entries.filter fun e => !p e.1 e.2
  nodupKeys := t.nodupKeys.sublist List.filter_sublist

/-- `SELECT key, row FROM t WHERE p key row`. -/
def select (p : κ → ρ → Bool) (t : Table κ ρ) : List (κ × ρ) :=
  (t.entries.filter fun e => p e.1 e.2).map fun e => (e.1,e.2)

theorem nodup_select (p : κ → ρ → Bool) (t : Table κ ρ) : ((t.select p).map Prod.fst).Nodup := by
  have h := (t.nodupKeys.sublist (List.filter_sublist (p := fun e => p e.1 e.2)))
  simpa [select,List.NodupKeys,List.keys,List.map_map,Function.comp_def] using h

variable [DecidableEq κ]

/-- `UPDATE t SET row = f row WHERE key = k`. -/
def update (k : κ) (f : ρ → ρ) (t : Table κ ρ) : Table κ ρ :=
  t.updateWhere (fun k' _ => decide (k' = k)) f

theorem lookup_eq_some {t : Table κ ρ} {k : κ} {r : ρ} :
    t.lookup k = some r ↔ (⟨k,r⟩ : Sigma fun _ : κ => ρ) ∈ t.entries :=
  AList.mem_lookup_iff

@[simp] theorem lookup_updateWhere (p : κ → ρ → Bool) (f : ρ → ρ) (t : Table κ ρ) (k : κ) :
    (t.updateWhere p f).lookup k = (t.lookup k).map fun r => if p k r then f r else r := by
  apply Option.ext
  intro r
  simp only [Option.map_eq_some_iff,lookup_eq_some,updateWhere,List.mem_map,Sigma.mk.injEq,
    heq_eq_eq]
  constructor
  · rintro ⟨⟨k',r'⟩,he,rfl,hr⟩
    exact ⟨r',he,hr⟩
  · rintro ⟨r',he,hr⟩
    exact ⟨⟨k,r'⟩,he,rfl,hr⟩

@[simp] theorem lookup_deleteWhere (p : κ → ρ → Bool) (t : Table κ ρ) (k : κ) :
    (t.deleteWhere p).lookup k = (t.lookup k).filter fun r => !p k r := by
  apply Option.ext
  intro r
  simp [Option.filter_eq_some_iff,lookup_eq_some,deleteWhere]

@[simp] theorem lookup_update_self (k : κ) (f : ρ → ρ) (t : Table κ ρ) :
    (t.update k f).lookup k = (t.lookup k).map f := by
  simp [update]

theorem lookup_update_ne {k k' : κ} (h : k' ≠ k) (f : ρ → ρ) (t : Table κ ρ) :
    (t.update k f).lookup k' = t.lookup k' := by
  simp [update,h]

theorem mem_select {p : κ → ρ → Bool} {t : Table κ ρ} {k : κ} {r : ρ} :
    (k,r) ∈ t.select p ↔ t.lookup k = some r ∧ p k r = true := by
  simp only [select,List.mem_map,List.mem_filter,Prod.mk.injEq,lookup_eq_some]
  constructor
  · rintro ⟨⟨k',r'⟩,⟨he,hp⟩,rfl,rfl⟩
    exact ⟨he,hp⟩
  · rintro ⟨he,hp⟩
    exact ⟨⟨k,r⟩,⟨he,hp⟩,rfl,rfl⟩

end Table
