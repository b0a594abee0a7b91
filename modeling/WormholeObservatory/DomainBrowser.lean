import WormholeObservatory.Letters
import WormholeObservatory.Pages
import WormholeObservatory.SqlLike
import WormholeObservatory.StagingQueue

/-! The search of the domain browser and the lookup of one name that is built on it. The search
looks for a part of five texts and gives a page of what it finds, latest update first. -/
namespace WormholeObservatory
namespace Browser

open Queue (DomainRow)

/-- The columns of `review` that the search reads. -/
structure ReviewColumns where
  categories : String
  service : String
  short : String
  details : String
  updatedAt : ℤ
  deriving DecidableEq

/-- The columns of `classification_runs` that the search reads. -/
structure RunColumns where
  id : ℤ
  domain : String
  isPrimary : Bool
  createdAt : ℤ
  tagsJson : String
  service : String
  short : String
  details : String
  deriving DecidableEq

structure TagRow where
  domain : String
  tag : String
  source : String
  deriving DecidableEq

structure Database where
  domains : Table String DomainRow
  review : Table String ReviewColumns
  runs : List RunColumns
  domainTags : List TagRow

/-- A row of the join; the columns of the result are taken from it. -/
structure JoinedRow where
  domain : String
  run : Option RunColumns
  review : Option ReviewColumns
  manualTags : Option String
  deriving DecidableEq

/-- `(SELECT .. WHERE c2.is_primary = 1 ORDER BY c2.created_at DESC, c2.id DESC LIMIT 1)`. -/
def latestPrimary (db : Database) (domain : String) : Option RunColumns :=
  ((db.runs.filter fun run => run.domain = domain && run.isPrimary).insertionSort fun a b =>
    toLex (-a.createdAt,-a.id) ≤ toLex (-b.createdAt,-b.id)).head?

/-- `GROUP_CONCAT(mt.tag, ',')`, which is no text where there is no row. -/
def manualTags (db : Database) (domain : String) : Option String :=
  let tags := (db.domainTags.filter fun row => row.domain = domain && row.source = "manual").map TagRow.tag
  if tags = [] then none else some (joinWith "," tags)

def joinedRow (db : Database) (domain : String) : JoinedRow where
  domain := domain
  run := latestPrimary db domain
  review := db.review.lookup domain
  manualTags := manualTags db domain

namespace JoinedRow

/-- `COALESCE(manual, NULLIF(r.categories, ''), c.tags_json)`. -/
def tags (row : JoinedRow) : Option String :=
  row.manualTags <|> ((row.review.map ReviewColumns.categories).filter (· ≠ "")) <|>
    row.run.map RunColumns.tagsJson

/-- `COALESCE(r.service, c.service)`, and so on. -/
def service (row : JoinedRow) : Option String :=
  row.review.map ReviewColumns.service <|> row.run.map RunColumns.service

def short (row : JoinedRow) : Option String :=
  row.review.map ReviewColumns.short <|> row.run.map RunColumns.short

def details (row : JoinedRow) : Option String :=
  row.review.map ReviewColumns.details <|> row.run.map RunColumns.details

def updatedAt (row : JoinedRow) : Option ℤ :=
  row.review.map ReviewColumns.updatedAt <|> row.run.map RunColumns.createdAt

/-- `(c.id IS NOT NULL OR r.domain IS NOT NULL)`. -/
def listed (row : JoinedRow) : Bool := row.run.isSome || row.review.isSome

/-- `ORDER BY updated_at DESC, d.domain`. -/
def sortKey (row : JoinedRow) : List ℤ := -row.updatedAt.getD 0::codes row.domain

end JoinedRow

/-- `LOWER(text) LIKE '%search%'`. -/
def like (search text : String) : Bool :=
  SqlLike.like ('%'::(search.toList++['%'])) (asciiLower text).toList

/-- The texts besides the name that the search looks into. -/
def textsHit (search : String) (row : JoinedRow) : Bool :=
  [row.tags,row.service,row.short,row.details].any fun text => text.any (like search)

/-- The clause of the search; without a text there is none. -/
def hits (search : String) (row : JoinedRow) : Bool :=
  decide (search = "") || like search row.domain || textsHit search row

section Search

variable [CaseTables]

/-- The rows that a search finds. -/
def matching (db : Database) (search : String) : List JoinedRow :=
  ((db.domains.select fun _ _ => true).map fun e => joinedRow db e.1).filter fun row =>
    row.listed && hits (CaseTables.lower (strip search)) row

/-- `domain_browser_search` without its other filters: the page and the number of all rows found. -/
def domainBrowserSearch (db : Database) (search : String) (limit offset : ℤ) : List JoinedRow × ℕ :=
  let found := (matching db search).insertionSort fun a b => a.sortKey ≤ b.sortKey
  ((found.drop (max 0 offset).toNat).take (min 5000 (max 1 limit)).toNat,found.length)

/-- `_lookup_review`. -/
def lookupReview (db : Database) (domain : String) : Option JoinedRow :=
  (domainBrowserSearch db domain 25 0).1.find? fun row =>
    rstripDots (CaseTables.lower row.domain) = normalizeDomain domain

/-! When the lookup is right. -/

/-- The lookup gives the row of the name where it has a run or a review, and nothing where not. -/
def Complete (db : Database) (domain : String) : Prop :=
  lookupReview db domain =
    if (joinedRow db (normalizeDomain domain)).listed = true
    then some (joinedRow db (normalizeDomain domain)) else none

/-- The rows found that come before a row. -/
def ahead (db : Database) (search : String) (row : JoinedRow) : List JoinedRow :=
  (matching db search).filter fun other => other.sortKey < row.sortKey

/-- What the lookup needs. `own`: the row of the name, if it is listed, is among the names, found
by its name or by another text, and on the page. `others`: no other name that is compared as equal
comes before it on the page. -/
structure Reached (db : Database) (domain : String) : Prop where
  own : (joinedRow db (normalizeDomain domain)).listed = true →
    (db.domains.lookup (normalizeDomain domain)).isSome = true ∧
      (CaseTables.lower (strip domain) = normalizeDomain domain ∨
        textsHit (CaseTables.lower (strip domain)) (joinedRow db (normalizeDomain domain)) = true) ∧
      rstripDots (CaseTables.lower (normalizeDomain domain)) = normalizeDomain domain ∧
      (ahead db domain (joinedRow db (normalizeDomain domain))).length < 25
  others : ∀ row ∈ matching db domain, row.domain ≠ normalizeDomain domain →
    rstripDots (CaseTables.lower row.domain) = normalizeDomain domain →
      25 ≤ (ahead db domain row).length ∨ (joinedRow db (normalizeDomain domain)).listed = true ∧
        (joinedRow db (normalizeDomain domain)).sortKey < row.sortKey

end Search

/-! What the name itself finds. -/

theorem toLower_dot {x : Char} (h : ('.' : Char).toLower = x.toLower) : x = '.' := by
  have hcode := congrArg Char.toNat h
  rw [toNat_toLower x,show ('.' : Char).toLower.toNat = 46 by decide] at hcode
  refine Char.toNat_inj.mp (Eq.trans ?_ (show 46 = ('.' : Char).toNat by decide))
  split at hcode <;> omega

/-- Where dots are dropped there are fewer of them. -/
theorem rdropDots_of_count {l : List Char}
    (h : l.count '.' ≤ (l.rdropWhile (· == '.')).count '.') : l.rdropWhile (· == '.') = l := by
  induction l using List.reverseRecOn with
  | nil => rfl
  | append_singleton l c ih =>
    by_cases hc : c = '.'
    · subst hc
      rw [List.rdropWhile_concat_pos _ _ _ (by simp)] at h
      have hle := (List.rdropWhile_prefix (· == '.') l).sublist.count_le '.'
      simp at h
      omega
    · exact List.rdropWhile_concat_neg _ _ _ (by simpa using hc)

theorem count_lower (l : List Char) : (l.map Char.toLower).count '.' = l.count '.' := by
  induction l with
  | nil => rfl
  | cons c l ih =>
    by_cases hc : c = '.'
    · subst hc
      simp [ih]
    · have hlower : c.toLower ≠ '.' := fun h => hc (toLower_dot (h.symm ▸ rfl))
      rw [List.map_cons,List.count_cons_of_ne hlower,List.count_cons_of_ne hc,ih]

/-- A search finds the name it is for exactly if it has no dots at its end. -/
theorem like_own_iff (s : String) : like s (rstripDots s) = true ↔ s = rstripDots s := by
  constructor
  · intro h
    have hcount := SqlLike.count_le_of_like (d := '.') (by decide) (by decide) (fun x => toLower_dot) h
    rw [asciiLower,String.toList_ofList,count_lower] at hcount
    have hlist : s.toList.rdropWhile (· == '.') = s.toList := by
      refine rdropDots_of_count ?_
      have hpattern : s.toList.count '.' ≤ ('%'::(s.toList++['%'])).count '.' := by
        simp
      refine hpattern.trans (hcount.trans (le_of_eq ?_))
      rw [rstripDots,String.toList_ofList]
    rw [rstripDots,hlist,String.ofList_toList]
  · intro h
    rw [← h]
    refine SqlLike.like_inside ?_
    rw [asciiLower,String.toList_ofList,List.map_map]
    exact List.map_congr_left fun c _ => (toLower_toLower c).symm

section Proofs

variable [CaseTables] {db : Database} {x : String}

theorem hits_own_iff : hits (CaseTables.lower (strip x)) (joinedRow db (normalizeDomain x)) = true ↔
    CaseTables.lower (strip x) = normalizeDomain x ∨
      textsHit (CaseTables.lower (strip x)) (joinedRow db (normalizeDomain x)) = true := by
  have hown : like (CaseTables.lower (strip x)) (joinedRow db (normalizeDomain x)).domain = true ↔
      CaseTables.lower (strip x) = normalizeDomain x := like_own_iff _
  have hempty : CaseTables.lower (strip x) = "" → CaseTables.lower (strip x) = normalizeDomain x := by
    intro h
    rw [normalizeDomain,h]
    rfl
  rw [hits,Bool.or_eq_true,Bool.or_eq_true,hown,decide_eq_true_eq,or_iff_right_of_imp hempty]

omit [CaseTables] in
theorem mem_names {row : JoinedRow} :
    row ∈ (db.domains.select fun _ _ => true).map (fun e => joinedRow db e.1) ↔
      (db.domains.lookup row.domain).isSome = true ∧ joinedRow db row.domain = row := by
  rw [List.mem_map]
  constructor
  · rintro ⟨⟨d,r⟩,hd,rfl⟩
    exact ⟨Option.isSome_iff_exists.mpr ⟨r,(Table.mem_select.mp hd).1⟩,rfl⟩
  · rintro ⟨hsome,hrow⟩
    obtain ⟨r,hr⟩ := Option.isSome_iff_exists.mp hsome
    exact ⟨(row.domain,r),Table.mem_select.mpr ⟨hr,rfl⟩,hrow⟩

theorem mem_matching {row : JoinedRow} : row ∈ matching db x ↔
    ((db.domains.lookup row.domain).isSome = true ∧ joinedRow db row.domain = row) ∧
      row.listed = true ∧ hits (CaseTables.lower (strip x)) row = true := by
  rw [matching,List.mem_filter,mem_names,Bool.and_eq_true]

theorem nodup_matching : ((matching db x).map JoinedRow.domain).Nodup := by
  have hnames : (((db.domains.select fun _ _ => true).map fun e => joinedRow db e.1).map
      JoinedRow.domain).Nodup := by
    rw [List.map_map]
    exact Table.nodup_select _ _
  exact hnames.sublist (List.filter_sublist.map _)

/-- The rows found, in the order of the result. -/
def found (db : Database) (x : String) : List JoinedRow :=
  (matching db x).insertionSort fun a b => a.sortKey ≤ b.sortKey

omit [CaseTables] in
theorem sortKey_inj {a b : JoinedRow} (h : a.sortKey = b.sortKey) : a.domain = b.domain := by
  simp only [JoinedRow.sortKey,List.cons.injEq] at h
  exact codes_inj h.2

theorem found_pairwise : (found db x).Pairwise fun a b => a.sortKey < b.sortKey := by
  have hperm : (found db x).Perm (matching db x) := List.perm_insertionSort _ _
  have hnodup : (found db x).Pairwise fun a b => a.domain ≠ b.domain :=
    List.pairwise_map.mp ((hperm.map JoinedRow.domain).nodup_iff.mpr nodup_matching)
  refine ((List.pairwise_insertionSort _ _).and hnodup).imp fun {a b} hab => ?_
  exact lt_of_le_of_ne hab.1 fun heq => hab.2 (sortKey_inj heq)

theorem lookupReview_eq : lookupReview db x = ((found db x).take 25).find? fun row =>
    rstripDots (CaseTables.lower row.domain) = normalizeDomain x := rfl

theorem mem_page_iff {row : JoinedRow} : row ∈ (found db x).take 25 ↔
    row ∈ matching db x ∧ (ahead db x row).length < 25 := by
  have hperm : (found db x).Perm (matching db x) := List.perm_insertionSort _ _
  rw [Pages.mem_take_iff found_pairwise,hperm.mem_iff,(hperm.filter _).length_eq,ahead]
  congr!

/-- The lookup is right exactly if it reaches the row of the name. -/
theorem lookup_complete_iff (db : Database) (x : String) : Complete db x ↔ Reached db x := by
  set w := joinedRow db (normalizeDomain x) with hw
  have hpage : ((found db x).take 25).Pairwise fun a b => a.sortKey < b.sortKey :=
    found_pairwise.sublist (List.take_sublist _ _)
  rw [Complete,lookupReview_eq]
  by_cases hlisted : w.listed = true
  · rw [if_pos hlisted,Pages.find?_eq_some_iff_sorted hpage,mem_page_iff,mem_matching]
    constructor
    · rintro ⟨⟨⟨⟨hname,-⟩,-,hhits⟩,hplace⟩,hfold,hbefore⟩
      refine ⟨fun _ => ⟨hname,hits_own_iff.mp hhits,of_decide_eq_true hfold,hplace⟩,
        fun row hrow hne hequal => or_iff_not_imp_left.mpr fun hshort => ⟨hlisted,?_⟩⟩
      rcases lt_trichotomy w.sortKey row.sortKey with hlater | heq | hearlier
      · exact hlater
      · exact absurd (sortKey_inj heq).symm hne
      · have hfail := hbefore row (mem_page_iff.mpr ⟨hrow,not_le.mp hshort⟩) hearlier
        simp [hequal] at hfail
    · intro h
      obtain ⟨hname,hown,hfold,hplace⟩ := h.own hlisted
      refine ⟨⟨⟨⟨hname,rfl⟩,hlisted,hits_own_iff.mpr hown⟩,hplace⟩,decide_eq_true hfold,
        fun row hrow hearlier => ?_⟩
      obtain ⟨hmem,hshort⟩ := mem_page_iff.mp hrow
      have hne : row.domain ≠ normalizeDomain x := by
        intro heq
        have hrow' := (mem_matching.mp hmem).1.2
        rw [heq] at hrow'
        exact absurd hearlier (hrow' ▸ lt_irrefl _)
      by_contra hequal
      rcases h.others row hmem hne (by simpa using hequal) with hfar | ⟨-,hlater⟩
      · exact absurd hshort (not_lt.mpr hfar)
      · exact lt_asymm hlater hearlier
  · rw [if_neg hlisted,List.find?_eq_none]
    constructor
    · intro h
      refine ⟨fun hlisted' => absurd hlisted' hlisted,fun row hrow _ hequal => .inl ?_⟩
      by_contra hshort
      exact h row (mem_page_iff.mpr ⟨hrow,not_le.mp hshort⟩) (by simpa using hequal)
    · intro h row hrow hequal
      obtain ⟨hmem,hshort⟩ := mem_page_iff.mp hrow
      obtain ⟨⟨-,hrow'⟩,hlisted',-⟩ := mem_matching.mp hmem
      have hne : row.domain ≠ normalizeDomain x := by
        intro heq
        rw [heq] at hrow'
        rw [← hrow'] at hlisted'
        exact hlisted hlisted'
      rcases h.others row hmem hne (by simpa using hequal) with hfar | ⟨hlisted'',-⟩
      · exact absurd hshort (not_lt.mpr hfar)
      · exact hlisted hlisted''

end Proofs

/-- One reviewed name. -/
def reviewed : Database where
  domains := AList.insert "a.com" ⟨1,1,1,none,none⟩ ∅
  review := AList.insert "a.com" ⟨"ads","","An ad server.","",5⟩ ∅
  runs := []
  domainTags := []

/-- Spelled with its dot the name is not found. -/
theorem dotted_name_not_found :
    lookupReview reviewed "a.com" = some (joinedRow reviewed "a.com") ∧
      lookupReview reviewed "a.com." = none ∧ ¬ Complete reviewed "a.com." := by
  have hnone : lookupReview reviewed "a.com." = none := by decide
  have hlisted : (joinedRow reviewed (normalizeDomain "a.com.")).listed = true := by decide
  refine ⟨by decide,hnone,fun h => ?_⟩
  rw [Complete,hnone,if_pos hlisted] at h
  cases h

end Browser
end WormholeObservatory
