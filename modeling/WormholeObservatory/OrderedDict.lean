import Mathlib.Data.List.Nodup
import Mathlib.Tactic

/-! Dictionaries that iterate over their keys in the order the keys came. Setting a
key that is there keeps its place, so a pass over a dictionary that finds every item as
it would leave it changes nothing, its order included. -/

/-- No two items have the same key. -/
@[ext] structure OrderedDict (κ V : Type*) where
  items : List (κ × V)
  nodup : (items.map Prod.fst).Nodup

namespace OrderedDict

section Lists

variable {α : Type*} [BEq α] [LawfulBEq α]

theorem nodup_eraseDups (l : List α) : l.eraseDups.Nodup := by
  induction hlength : l.length using Nat.strong_induction_on generalizing l with
  | _ n ih =>
    cases l with
    | nil => simp
    | cons a l =>
      rw [List.eraseDups_cons,List.nodup_cons]
      have hshorter : (l.filter fun b => !b == a).length < n := by
        rw [← hlength,List.length_cons]
        exact Nat.lt_succ_of_le (List.length_filter_le _ _)
      exact ⟨by simp,ih _ hshorter _ rfl⟩

theorem eraseDups_concat [DecidableEq α] (l : List α) (x : α) :
    (l++[x]).eraseDups = if x ∈ l then l.eraseDups else l.eraseDups++[x] := by
  rw [List.eraseDups_append]
  split
  · rename_i h
    have hnone : [x].removeAll l = [] := by simp [List.removeAll,h]
    rw [hnone,List.eraseDups_nil,List.append_nil]
  · rename_i h
    have hone : [x].removeAll l = [x] := by simp [List.removeAll,h]
    rw [hone,List.eraseDups_cons]
    simp

theorem eraseDups_of_nodup {l : List α} (h : l.Nodup) : l.eraseDups = l := by
  induction l with
  | nil => rfl
  | cons a l ih =>
    obtain ⟨hnot,hnodup⟩ := List.nodup_cons.mp h
    have hfilter : (l.filter fun b => !b == a) = l := by
      refine List.filter_eq_self.mpr fun b hb => ?_
      have hne : b ≠ a := fun heq => hnot (heq ▸ hb)
      simp [hne]
    rw [List.eraseDups_cons,hfilter,ih hnodup]

end Lists

variable {κ V : Type*}

/-- `list(d)`. -/
def keys (d : OrderedDict κ V) : List κ := d.items.map Prod.fst

def empty : OrderedDict κ V := ⟨[],List.nodup_nil⟩

/-- `{k: f(k, v) for k, v in d.items()}`. -/
def mapValues {W : Type*} (f : κ → V → W) (d : OrderedDict κ V) : OrderedDict κ W where
  items := d.items.map fun e => (e.1,f e.1 e.2)
  nodup := by simpa [List.map_map,Function.comp_def] using d.nodup

theorem mem_keys {d : OrderedDict κ V} {e : κ × V} (he : e ∈ d.items) : e.1 ∈ d.keys :=
  List.mem_map_of_mem he

variable [DecidableEq κ]

def setItem (k : κ) (v : V) : List (κ × V) → List (κ × V)
  | [] => [(k,v)]
  | (k',v')::rest => if k' = k then (k',v)::rest else (k',v')::setItem k v rest

theorem mem_keys_setItem {k k' : κ} {v : V} {items : List (κ × V)} :
    k' ∈ (setItem k v items).map Prod.fst ↔ k' = k ∨ k' ∈ items.map Prod.fst := by
  induction items with
  | nil => simp [setItem]
  | cons e items ih =>
    simp only [setItem]
    split
    · rename_i heq
      subst heq
      simp
    · simp only [List.map_cons,List.mem_cons,ih]
      tauto

theorem nodup_setItem {items : List (κ × V)} (k : κ) (v : V) (h : (items.map Prod.fst).Nodup) :
    ((setItem k v items).map Prod.fst).Nodup := by
  induction items with
  | nil => simp [setItem]
  | cons e items ih =>
    obtain ⟨hnot,hnodup⟩ := List.nodup_cons.mp h
    simp only [setItem]
    split
    · exact h
    · rename_i hne
      refine List.nodup_cons.mpr ⟨fun hmem => ?_,ih hnodup⟩
      rcases mem_keys_setItem.mp hmem with heq | hmem
      · exact hne heq
      · exact hnot hmem

/-- `d[k] = v`. -/
def set (k : κ) (v : V) (d : OrderedDict κ V) : OrderedDict κ V where
  items := setItem k v d.items
  nodup := nodup_setItem k v d.nodup

def getItem (k : κ) : List (κ × V) → Option V
  | [] => none
  | (k',v)::rest => if k' = k then some v else getItem k rest

/-- `d.get(k)`. -/
def get? (k : κ) (d : OrderedDict κ V) : Option V := getItem k d.items

theorem mem_items_of_get? {k : κ} {v : V} {d : OrderedDict κ V} (h : d.get? k = some v) :
    (k,v) ∈ d.items := by
  have hitems : ∀ items : List (κ × V), getItem k items = some v → (k,v) ∈ items := by
    intro items
    induction items with
    | nil => exact fun h => absurd h (by simp [getItem])
    | cons e items ih =>
      intro h
      simp only [getItem] at h
      split at h
      · rename_i heq
        obtain rfl := Option.some.inj h
        exact List.mem_cons.mpr (Or.inl (by rw [← heq]))
      · exact List.mem_cons_of_mem _ (ih h)
  exact hitems d.items h

theorem get?_of_mem {d : OrderedDict κ V} {e : κ × V} (he : e ∈ d.items) : d.get? e.1 = some e.2 := by
  have hitems : ∀ items : List (κ × V), (items.map Prod.fst).Nodup → e ∈ items →
      getItem e.1 items = some e.2 := by
    intro items
    induction items with
    | nil => exact fun _ h => absurd h List.not_mem_nil
    | cons e₀ items ih =>
      intro hnodup h
      obtain ⟨hnot,hrest⟩ := List.nodup_cons.mp hnodup
      simp only [getItem]
      rcases List.mem_cons.mp h with rfl | h
      · rw [if_pos rfl]
      · have hne : e₀.1 ≠ e.1 := fun heq => hnot (heq ▸ List.mem_map_of_mem h)
        rw [if_neg hne,ih hrest h]
  exact hitems d.items d.nodup he

theorem get?_mapValues {W : Type*} (f : κ → V → W) (d : OrderedDict κ V) (k : κ) :
    (d.mapValues f).get? k = (d.get? k).map (f k) := by
  have hitems : ∀ items : List (κ × V),
      getItem k (items.map fun e => (e.1,f e.1 e.2)) = (getItem k items).map (f k) := by
    intro items
    induction items with
    | nil => rfl
    | cons e items ih =>
      simp only [List.map_cons,getItem]
      split
      · rename_i heq
        rw [heq,Option.map_some]
      · exact ih
  exact hitems d.items

omit [DecidableEq κ] in
theorem mapValues_congr {W : Type*} {f g : κ → V → W} {d : OrderedDict κ V}
    (h : ∀ e ∈ d.items, f e.1 e.2 = g e.1 e.2) : d.mapValues f = d.mapValues g :=
  OrderedDict.ext (List.map_congr_left fun e he => by rw [h e he])

/-- `d.setdefault(k, v)`. -/
def setDefault (k : κ) (v : V) (d : OrderedDict κ V) : OrderedDict κ V :=
  if k ∈ d.keys then d else d.set k v

/-- The dictionary a comprehension builds: of two items with one key the later value counts,
in the earlier place. -/
def ofItems (items : List (κ × V)) : OrderedDict κ V := items.foldl (fun d e => d.set e.1 e.2) empty

theorem mem_keys_set {k k' : κ} {v : V} {d : OrderedDict κ V} :
    k' ∈ (d.set k v).keys ↔ k' = k ∨ k' ∈ d.keys :=
  mem_keys_setItem

theorem forall_setItem {P : κ × V → Prop} {k : κ} {v : V} (hv : P (k,v)) {items : List (κ × V)}
    (h : ∀ e ∈ items, P e) : ∀ e ∈ setItem k v items, P e := by
  induction items with
  | nil => simpa [setItem] using hv
  | cons e₀ items ih =>
    obtain ⟨h₀,hrest⟩ := List.forall_mem_cons.mp h
    simp only [setItem]
    split
    · rename_i heq
      exact List.forall_mem_cons.mpr ⟨heq ▸ hv,hrest⟩
    · exact List.forall_mem_cons.mpr ⟨h₀,ih hrest⟩

theorem setItem_getItem {k : κ} {v : V} {items : List (κ × V)} (h : getItem k items = some v) :
    setItem k v items = items := by
  induction items with
  | nil => cases h
  | cons e items ih =>
    obtain ⟨k',v'⟩ := e
    simp only [getItem] at h
    simp only [setItem]
    split at h
    · rename_i heq
      rw [if_pos heq]
      cases h
      rfl
    · rename_i hne
      rw [if_neg hne,ih h]

/-- Setting a key to the value it has. -/
theorem set_of_get? {k : κ} {v : V} {d : OrderedDict κ V} (h : d.get? k = some v) :
    d.set k v = d :=
  OrderedDict.ext (setItem_getItem h)

theorem getItem_setItem (k k' : κ) (v : V) (items : List (κ × V)) :
    getItem k' (setItem k v items) = if k = k' then some v else getItem k' items := by
  induction items with
  | nil => simp [setItem,getItem]
  | cons e items ih =>
    obtain ⟨k₀,v₀⟩ := e
    simp only [setItem]
    split
    · rename_i heq
      subst heq
      simp only [getItem]
      split <;> rfl
    · rename_i hne
      simp only [getItem,ih]
      by_cases h₀ : k₀ = k'
      · subst h₀
        simp [Ne.symm hne]
      · simp [h₀]

theorem get?_set (k k' : κ) (v : V) (d : OrderedDict κ V) :
    (d.set k v).get? k' = if k = k' then some v else d.get? k' :=
  getItem_setItem k k' v d.items

theorem setItem_setItem (k : κ) (v w : V) (items : List (κ × V)) :
    setItem k w (setItem k v items) = setItem k w items := by
  induction items with
  | nil => simp [setItem]
  | cons e items ih =>
    by_cases he : e.1 = k
    · simp [setItem,he]
    · simp [setItem,he,ih]

/-- The last value a key is set to. -/
theorem set_set (k : κ) (v w : V) (d : OrderedDict κ V) : (d.set k v).set k w = d.set k w :=
  OrderedDict.ext (setItem_setItem k v w d.items)

theorem setItem_append {k : κ} {v : V} {items : List (κ × V)} (h : k ∉ items.map Prod.fst) :
    setItem k v items = items++[(k,v)] := by
  induction items with
  | nil => rfl
  | cons e items ih =>
    simp only [List.map_cons,List.mem_cons,not_or] at h
    simp only [setItem,List.cons_append]
    rw [if_neg (Ne.symm h.1),ih h.2]

/-- A comprehension over the items of a dictionary builds it again. -/
theorem ofItems_items (d : OrderedDict κ V) : ofItems d.items = d := by
  have hrun : ∀ items : List (κ × V), ∀ d₀ : OrderedDict κ V,
      ((d₀.items++items).map Prod.fst).Nodup →
      (items.foldl (fun d e => d.set e.1 e.2) d₀).items = d₀.items++items := by
    intro items
    induction items with
    | nil =>
      intro d₀ _
      simp
    | cons e items ih =>
      intro d₀ hnodup
      have hnew : e.1 ∉ d₀.items.map Prod.fst := by
        rw [List.map_append,List.map_cons] at hnodup
        intro hmem
        exact (List.disjoint_of_nodup_append hnodup) hmem List.mem_cons_self
      have hset : (d₀.set e.1 e.2).items = d₀.items++[e] := setItem_append hnew
      rw [List.foldl_cons,ih (d₀.set e.1 e.2) (by rw [hset]; simpa using hnodup),hset]
      simp
  exact OrderedDict.ext (hrun d.items empty d.nodup)

/-- Of several items with a key the last one counts. -/
theorem get?_ofItems (items : List (κ × V)) (k : κ) :
    (ofItems items).get? k = ((items.filter fun e => e.1 = k).getLast?).map Prod.snd := by
  have hrun : ∀ d₀ : OrderedDict κ V, (items.foldl (fun d e => d.set e.1 e.2) d₀).get? k =
      (((items.filter fun e => e.1 = k).getLast?).map Prod.snd).or (d₀.get? k) := by
    induction items with
    | nil => simp
    | cons e items ih =>
      intro d₀
      rw [List.foldl_cons,ih,get?_set]
      by_cases hk : e.1 = k
      · rw [List.filter_cons_of_pos (by simpa using hk),List.getLast?_cons,if_pos hk]
        cases (items.filter fun e => e.1 = k).getLast? <;> rfl
      · rw [List.filter_cons_of_neg (by simpa using hk),if_neg hk]
  rw [ofItems,hrun]
  exact Option.or_none

/-- A dictionary of the values of a function. -/
theorem get?_ofItems_map (f : κ → V) (ks : List κ) (k : κ) :
    (ofItems (ks.map fun k => (k,f k))).get? k = if k ∈ ks then some (f k) else none := by
  have hkey : (ks.map fun k => (k,f k)).filter (fun e => e.1 = k) = List.replicate (ks.count k) (k,f k) := by
    rw [List.filter_map]
    change (ks.filter fun k' => k' = k).map _ = _
    rw [List.filter_eq,List.map_replicate]
  rw [get?_ofItems,hkey,List.getLast?_replicate]
  by_cases hk : k ∈ ks
  · rw [if_neg (List.count_pos_iff.mpr hk).ne',if_pos hk]
    rfl
  · rw [if_pos (List.count_eq_zero.mpr hk),if_neg hk]
    rfl
/-- What a loop leaves at a key that sets one key a turn, from the value found there. -/
theorem get?_foldl_set {α : Type*} (key : α → κ) (f : α → Option V → V) (xs : List α)
    (d : OrderedDict κ V) (k : κ) :
    (xs.foldl (fun d x => d.set (key x) (f x (d.get? (key x)))) d).get? k =
      (xs.filter fun x => key x = k).foldl (fun v x => some (f x v)) (d.get? k) := by
  induction xs generalizing d with
  | nil => rfl
  | cons x xs ih =>
    rw [List.foldl_cons,ih,get?_set]
    by_cases hk : key x = k
    · rw [List.filter_cons_of_pos (by simpa using hk),List.foldl_cons,if_pos hk,hk]
    · rw [List.filter_cons_of_neg (by simpa using hk),if_neg hk]

/-- `d.values()`. -/
def values (d : OrderedDict κ V) : List V := d.items.map Prod.snd

theorem mem_values_iff {d : OrderedDict κ V} {v : V} : v ∈ d.values ↔ ∃ k, d.get? k = some v := by
  rw [values,List.mem_map]
  constructor
  · rintro ⟨e,he,rfl⟩
    exact ⟨e.1,get?_of_mem he⟩
  · rintro ⟨k,hk⟩
    exact ⟨(k,v),mem_items_of_get? hk,rfl⟩

theorem forall_ofItems {P : κ × V → Prop} {items : List (κ × V)} (h : ∀ e ∈ items, P e) :
    ∀ e ∈ (ofItems items).items, P e := by
  have hrun : ∀ d₀ : OrderedDict κ V, (∀ e ∈ d₀.items, P e) →
      ∀ e ∈ (items.foldl (fun d e => d.set e.1 e.2) d₀).items, P e := by
    induction items with
    | nil => exact fun d₀ h₀ => h₀
    | cons e items ih =>
      obtain ⟨he,hitems⟩ := List.forall_mem_cons.mp h
      exact fun d₀ h₀ => ih hitems (d₀.set e.1 e.2) (forall_setItem he h₀)
  exact hrun empty (fun e he => absurd he List.not_mem_nil)

/-- `{f k v for k, v in d.items() if ..}`. -/
def comprehension (f : κ × V → Option (κ × V)) (d : OrderedDict κ V) : OrderedDict κ V :=
  ofItems (d.items.filterMap f)

theorem forall_comprehension {P : κ × V → Prop} {f : κ × V → Option (κ × V)}
    (h : ∀ e e', f e = some e' → P e') (d : OrderedDict κ V) :
    ∀ e ∈ (d.comprehension f).items, P e := by
  refine forall_ofItems fun e' he' => ?_
  obtain ⟨e,-,he⟩ := List.mem_filterMap.mp he'
  exact h e e' he

theorem comprehension_eq_self {f : κ × V → Option (κ × V)} {d : OrderedDict κ V}
    (h : ∀ e ∈ d.items, f e = some e) : d.comprehension f = d := by
  have hsame : d.items.filterMap f = d.items := by
    rw [List.filterMap_congr h,List.filterMap_some]
  rw [comprehension,hsame,ofItems_items]

/-- A `setdefault` for each of `ks`. -/
def setDefaults (value : κ → V) (ks : List κ) (d : OrderedDict κ V) : OrderedDict κ V :=
  ks.foldl (fun d k => d.setDefault k (value k)) d

theorem mem_keys_setDefault {k k' : κ} {v : V} {d : OrderedDict κ V} :
    k' ∈ (d.setDefault k v).keys ↔ k' = k ∨ k' ∈ d.keys := by
  simp only [setDefault]
  split
  · rename_i hmem
    exact ⟨Or.inr,fun h => h.elim (fun heq => heq ▸ hmem) id⟩
  · exact mem_keys_set

theorem mem_keys_setDefaults {value : κ → V} {ks : List κ} {d : OrderedDict κ V} {k : κ} :
    k ∈ (d.setDefaults value ks).keys ↔ k ∈ ks ∨ k ∈ d.keys := by
  induction ks generalizing d with
  | nil => simp [setDefaults]
  | cons k' ks ih =>
    have h := ih (d := d.setDefault k' (value k'))
    simp only [setDefaults,List.foldl_cons] at h ⊢
    rw [h,mem_keys_setDefault,List.mem_cons]
    tauto

theorem forall_setDefaults {P : κ × V → Prop} {value : κ → V} {ks : List κ}
    (hks : ∀ k ∈ ks, P (k,value k)) {d : OrderedDict κ V} (h : ∀ e ∈ d.items, P e) :
    ∀ e ∈ (d.setDefaults value ks).items, P e := by
  induction ks generalizing d with
  | nil => exact h
  | cons k ks ih =>
    obtain ⟨hk,hrest⟩ := List.forall_mem_cons.mp hks
    refine ih hrest ?_
    simp only [setDefault]
    split
    · exact h
    · exact forall_setItem hk h

theorem setDefaults_eq_self {value : κ → V} {ks : List κ} {d : OrderedDict κ V}
    (h : ∀ k ∈ ks, k ∈ d.keys) : d.setDefaults value ks = d := by
  induction ks with
  | nil => rfl
  | cons k ks ih =>
    obtain ⟨hk,hrest⟩ := List.forall_mem_cons.mp h
    have hone : d.setDefault k (value k) = d := if_pos hk
    rw [setDefaults,List.foldl_cons,hone]
    exact ih hrest

/-- `d[k] = f(d.get(k))` for each of `ks`. -/
def setEach (f : κ → Option V → V) (ks : List κ) (d : OrderedDict κ V) : OrderedDict κ V :=
  ks.foldl (fun d k => d.set k (f k (d.get? k))) d

theorem get?_setEach {f : κ → Option V → V} {ks : List κ} (hks : ks.Nodup) (d : OrderedDict κ V)
    (k : κ) : (d.setEach f ks).get? k = if k ∈ ks then some (f k (d.get? k)) else d.get? k := by
  induction ks generalizing d with
  | nil => rfl
  | cons k' ks ih =>
    obtain ⟨hnot,hnodup⟩ := List.nodup_cons.mp hks
    have h := ih hnodup (d.set k' (f k' (d.get? k')))
    simp only [setEach,List.foldl_cons] at h ⊢
    rw [h,get?_set]
    by_cases heq : k' = k
    · subst heq
      simp [hnot]
    · simp [heq,Ne.symm heq]

theorem setEach_eq_self {f : κ → Option V → V} {ks : List κ} {d : OrderedDict κ V}
    (h : ∀ k ∈ ks, d.get? k = some (f k (d.get? k))) : d.setEach f ks = d := by
  induction ks with
  | nil => rfl
  | cons k ks ih =>
    obtain ⟨hk,hrest⟩ := List.forall_mem_cons.mp h
    rw [setEach,List.foldl_cons,set_of_get? hk]
    exact ih hrest

/-- A pass whose values are settled after one round is over after one round. -/
theorem setEach_setEach {f : κ → Option V → V} {ks : List κ} (hks : ks.Nodup)
    (hf : ∀ k ∈ ks, ∀ v, f k (some (f k v)) = f k v) (d : OrderedDict κ V) :
    (d.setEach f ks).setEach f ks = d.setEach f ks := by
  refine setEach_eq_self fun k hk => ?_
  rw [get?_setEach hks,if_pos hk,hf k hk]

end OrderedDict
