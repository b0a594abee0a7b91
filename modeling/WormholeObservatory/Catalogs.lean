import WormholeObservatory.Firsts
import WormholeObservatory.ListRuleNames
import WormholeObservatory.OrderedDict

/-! Catalogues that are looked up by a name and its parents, as the lists of repositories are. -/
namespace WormholeObservatory
namespace Lists

open Firsts

abbrev Index (Item : Type) := OrderedDict String (List Item)

namespace Index

variable {Item : Type}

/-- `index.get(name, [])`. -/
def items (index : Index Item) (name : String) : List Item := (index.get? name).getD []

/-- `index[name].append(item)` on a `defaultdict(list)`. -/
def append (index : Index Item) (name : String) (item : Item) : Index Item :=
  index.set name (index.items name++[item])

theorem items_append (index : Index Item) (name name' : String) (item : Item) :
    (index.append name item).items name' =
      if name = name' then index.items name'++[item] else index.items name' := by
  rw [append,items,OrderedDict.get?_set]
  split
  · rename_i h
    rw [h,Option.getD_some]
  · rfl

end Index

/-- `".".join(labels)`. -/
def joinDots (labels : List (List Char)) : String := String.ofList (['.'].intercalate labels)

section Lookup

variable {Item Marker : Type} [DecidableEq Marker] (marker : Item → Marker)

/-- The inner loop: the markers it has seen, and the output. -/
def collect : List Marker → List Item → List Item → List Marker × List Item
  | seen,output,[] => (seen,output)
  | seen,output,item::items =>
    if marker item ∈ seen then collect seen output items
    else collect (marker item::seen) (output++[item]) items

/-- The loop over the positions of `_lookup_suffixes`. -/
def collectFrom (index : Index Item) (labels : List (List Char)) :
    List Marker → List Item → List ℕ → List Item
  | _,output,[] => output
  | seen,output,position::positions =>
    let state := collect marker seen output (index.items (joinDots (labels.drop position)))
    collectFrom index labels state.1 state.2 positions

/-- `_lookup_suffixes`, with `json.dumps(item, sort_keys=True)` as the marker. -/
def lookupSuffixes [CaseTables] (domain : String) (index : Index Item) : List Item :=
  let labels := dotted (normalizeDomain domain)
  collectFrom marker index labels [] []
    (List.range' (labels.length-6) (labels.length-1-(labels.length-6)))

/-- `research_common.domain_candidates`. -/
def domainCandidates [CaseTables] (domain : String) : List String :=
  let normalized := normalizeDomain domain
  let labels := dotted normalized
  if labels.length < 2 then if normalized = "" then [] else [normalized]
  else (List.range (labels.length-1)).map fun index => joinDots (labels.drop index)

/-- What is stored under names, one name after the other. -/
def stored (index : Index Item) (names : List String) : List Item := names.flatMap index.items

/-- Each distinct item under the name and its parents, the most specific name first. -/
def Complete [CaseTables] (index : Index Item) (domain : String) : Prop :=
  lookupSuffixes marker domain index = firsts marker [] (stored index (domainCandidates domain))

variable {marker}

theorem collect_output (seen : List Marker) (output items : List Item) :
    (collect marker seen output items).2 = output++firsts marker seen items := by
  induction items generalizing seen output with
  | nil => simp [collect,firsts]
  | cons item items ih =>
    rw [collect,firsts]
    split
    · exact ih seen output
    · rw [ih]
      simp

theorem collect_seen (seen : List Marker) (output items : List Item) (m : Marker) :
    m ∈ (collect marker seen output items).1 ↔ m ∈ seen ∨ m ∈ items.map marker := by
  induction items generalizing seen output with
  | nil => simp [collect]
  | cons item items ih =>
    rw [collect]
    split
    · rename_i hseen
      rw [ih,List.map_cons,List.mem_cons]
      constructor
      · rintro (h | h)
        · exact Or.inl h
        · exact Or.inr (Or.inr h)
      · rintro (h | rfl | h)
        · exact Or.inl h
        · exact Or.inl hseen
        · exact Or.inr h
    · rw [ih,List.mem_cons,List.map_cons,List.mem_cons]
      tauto

theorem collectFrom_eq (index : Index Item) (labels : List (List Char)) (seen : List Marker)
    (output : List Item) (positions : List ℕ) :
    collectFrom marker index labels seen output positions = output++firsts marker seen
      (stored index (positions.map fun position => joinDots (labels.drop position))) := by
  induction positions generalizing seen output with
  | nil => simp [collectFrom,stored,firsts]
  | cons position positions ih =>
    have hseen : ∀ m, m ∈ (collect marker seen output
        (index.items (joinDots (labels.drop position)))).1 ↔
        m ∈ (index.items (joinDots (labels.drop position))).map marker++seen := by
      intro m
      rw [collect_seen,List.mem_append,or_comm]
    rw [collectFrom,ih,collect_output,firsts_congr hseen]
    simp only [stored,List.map_cons,List.flatMap_cons,firsts_append,List.append_assoc]

section Candidates

variable [CaseTables]

/-- The candidates of more than six labels. -/
def deepNames (domain : String) : List String :=
  (domainCandidates domain).take ((dotted (normalizeDomain domain)).length-6)

/-- The candidates of two to six labels. -/
def nearNames (domain : String) : List String :=
  (domainCandidates domain).drop ((dotted (normalizeDomain domain)).length-6)

theorem lookupSuffixes_eq (index : Index Item) {domain : String}
    (h : 2 ≤ (dotted (normalizeDomain domain)).length) :
    lookupSuffixes marker domain index = firsts marker [] (stored index (nearNames domain)) := by
  have hnear : nearNames domain = (List.range' ((dotted (normalizeDomain domain)).length-6)
      ((dotted (normalizeDomain domain)).length-1-((dotted (normalizeDomain domain)).length-6))).map
      fun position => joinDots ((dotted (normalizeDomain domain)).drop position) := by
    rw [nearNames,domainCandidates]
    simp only [if_neg (not_lt.mpr h)]
    rw [← List.map_drop,List.range_eq_range',List.drop_range']
    simp
  rw [lookupSuffixes,collectFrom_eq,hnear,List.nil_append]

/-- The lookup is complete exactly when what the longest candidates store is what the others begin
with. -/
theorem suffix_lookup_iff (index : Index Item) {domain : String}
    (h : 2 ≤ (dotted (normalizeDomain domain)).length) :
    Complete marker index domain ↔ firsts marker [] (stored index (deepNames domain)) <+:
      firsts marker [] (stored index (nearNames domain)) := by
  have hall : stored index (domainCandidates domain) =
      stored index (deepNames domain)++stored index (nearNames domain) := by
    conv_lhs => rw [← List.take_append_drop ((dotted (normalizeDomain domain)).length-6)
      (domainCandidates domain)]
    exact List.flatMap_append
  rw [Complete,lookupSuffixes_eq index h,hall]
  exact firsts_append_eq_iff _ _

theorem suffix_lookup_of_few (index : Index Item) {domain : String}
    (h : 2 ≤ (dotted (normalizeDomain domain)).length)
    (hfew : (dotted (normalizeDomain domain)).length ≤ 6) : Complete marker index domain := by
  refine (suffix_lookup_iff index h).mpr ?_
  have hnone : deepNames domain = [] := by rw [deepNames,Nat.sub_eq_zero_of_le hfew,List.take_zero]
  rw [hnone]
  exact List.nil_prefix

end Candidates

end Lookup

/-! The lists of repositories. -/

/-- An entry of `_build_repository_list_index`. -/
structure RuleEntry where
  matchedDomain : String
  rule : String
  lineNumber : ℕ
  deriving DecidableEq

section Repositories

variable [CaseTables] [IdnaCodec]

open RepositoryLists

/-- The loop of `_build_repository_list_index`, with the number of the next line. -/
def indexLines : ℕ → Index RuleEntry → List String → Index RuleEntry
  | _,index,[] => index
  | number,index,line::lines =>
    let rule := strip line
    let domain := domainFromRepositoryRule rule
    if domain = "" then indexLines (number+1) index lines
    else indexLines (number+1)
      (index.append domain ⟨domain,String.ofList (rule.toList.take 500),number⟩) lines

/-- `_build_repository_list_index` on the lines of a payload. -/
def buildRepositoryListIndex (lines : List String) : Index RuleEntry :=
  indexLines 1 OrderedDict.empty lines

/-- A line lists a name when that is what its rule is for. -/
def IsListed (name : String) (line : String) : Prop :=
  domainFromRepositoryRule (strip line) = name ∧ name ≠ ""

theorem items_indexLines_eq_nil_iff (number : ℕ) (index : Index RuleEntry) (lines : List String)
    (name : String) :
    (indexLines number index lines).items name = [] ↔
      index.items name = [] ∧ ∀ line ∈ lines, ¬IsListed name line := by
  induction lines generalizing number index with
  | nil => simp [indexLines]
  | cons line lines ih =>
    rw [indexLines]
    simp only [List.forall_mem_cons]
    split
    · rename_i hnone
      have hline : ¬IsListed name line := fun h => h.2 (h.1.symm.trans hnone)
      rw [ih]
      simp [hline]
    · rename_i hsome
      rw [ih,Index.items_append]
      by_cases hname : domainFromRepositoryRule (strip line) = name
      · have hline : IsListed name line := ⟨hname,hname ▸ hsome⟩
        rw [if_pos hname]
        simp [hline]
      · have hline : ¬IsListed name line := fun h => hname h.1
        rw [if_neg hname]
        simp [hline]

/-- A name is reported as not listed exactly when none of its candidates of at most six labels is
listed, whatever is listed under the longer ones. -/
theorem not_listed_iff (lines : List String) {domain : String}
    (h : 2 ≤ (dotted (normalizeDomain domain)).length) :
    lookupSuffixes id domain (buildRepositoryListIndex lines) = [] ↔
      ∀ name ∈ nearNames domain, ∀ line ∈ lines, ¬IsListed name line := by
  rw [lookupSuffixes_eq _ h,firsts_eq_nil_iff,stored,List.flatMap_eq_nil_iff]
  refine forall₂_congr fun name _ => ?_
  rw [buildRepositoryListIndex,items_indexLines_eq_nil_iff]
  exact and_iff_right rfl

end Repositories

theorem suffix_lookup_iff_two :
    2 ≤ (dotted (normalizeDomain "A.com.")).length ∧
      Complete id (buildRepositoryListIndex ["||a.com^"]) "A.com." := by
  have htwo : 2 ≤ (dotted (normalizeDomain "A.com.")).length := by decide
  exact ⟨htwo,(suffix_lookup_iff _ htwo).mpr (by decide)⟩

/-- A name of seven labels that a list has is not found. -/
theorem deep_name_not_found :
    HostName "a.b.c.d.e.f.g" ∧
      (buildRepositoryListIndex ["||a.b.c.d.e.f.g^"]).items "a.b.c.d.e.f.g" =
        [⟨"a.b.c.d.e.f.g","||a.b.c.d.e.f.g^",1⟩] ∧
      lookupSuffixes id "a.b.c.d.e.f.g" (buildRepositoryListIndex ["||a.b.c.d.e.f.g^"]) = [] ∧
      ¬Complete id (buildRepositoryListIndex ["||a.b.c.d.e.f.g^"]) "a.b.c.d.e.f.g" := by
  have hlabels : ∀ l ∈ dotted "a.b.c.d.e.f.g", HostLabel l := fun l hl =>
    (labelFails_iff l).mp ((by decide : ∀ l ∈ dotted "a.b.c.d.e.f.g", labelFails l = false) l hl)
  have htwo : 2 ≤ (dotted (normalizeDomain "a.b.c.d.e.f.g")).length := by decide
  have hnone : lookupSuffixes id "a.b.c.d.e.f.g" (buildRepositoryListIndex ["||a.b.c.d.e.f.g^"]) = [] := by
    decide +kernel
  have hall : firsts id [] (stored (buildRepositoryListIndex ["||a.b.c.d.e.f.g^"])
      (domainCandidates "a.b.c.d.e.f.g")) ≠ [] := by
    decide +kernel
  refine ⟨⟨by decide,by decide,by decide,hlabels,by decide⟩,by decide +kernel,hnone,fun h => ?_⟩
  exact hall (h.symm.trans hnone)

end Lists
end WormholeObservatory
