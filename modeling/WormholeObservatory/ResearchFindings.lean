import WormholeObservatory.EvidenceFreshness
import WormholeObservatory.Pages

/-! The table of findings: what a save replaces and what a read of the fresh rows returns. The text
of `raw_json` stands for the dictionary it is read back as. -/
namespace WormholeObservatory
namespace Evidence

open Floats JsonValues

/-- A row of `research_findings`. -/
structure FindingRow where
  id : ℤ
  domain : String
  provider : String
  kind : String
  title : String
  summary : String
  sourceUrl : String
  confidence : PyFloat
  signalType : String
  verdict : String
  decisionRelevant : Bool
  rawData : OrderedDict String Value
  retrievedAt : ℤ
  expiresAt : ℤ

/-- The rows in the order of their ids, with the last id that was given out. -/
structure FindingTable where
  rows : List FindingRow
  lastId : ℤ
  ids : rows.Pairwise fun a b => a.id < b.id
  given : ∀ row ∈ rows, row.id ≤ lastId

namespace FindingTable

def empty : FindingTable := ⟨[],0,List.Pairwise.nil,by simp⟩

/-- `INSERT INTO research_findings`: the row gets the next id. -/
def insert (row : FindingRow) (t : FindingTable) : FindingTable where
  rows := t.rows++[{ row with id := t.lastId+1 }]
  lastId := t.lastId+1
  ids := by
    refine List.pairwise_append.mpr ⟨t.ids,List.pairwise_singleton _ _,fun a ha b hb => ?_⟩
    rw [List.mem_singleton.mp hb]
    exact Int.lt_add_one_of_le (t.given a ha)
  given row hrow := by
    rcases List.mem_append.mp hrow with hold | hnew
    · exact (t.given row hold).trans (by omega)
    · rw [List.mem_singleton.mp hnew]

/-- `DELETE FROM research_findings WHERE p`. -/
def delete (p : FindingRow → Bool) (t : FindingTable) : FindingTable where
  rows := t.rows.filter fun row => !p row
  lastId := t.lastId
  ids := t.ids.filter _
  given row hrow := t.given row (List.mem_filter.mp hrow).1

def insertAll (rows : List FindingRow) (t : FindingTable) : FindingTable :=
  rows.foldl (fun t row => t.insert row) t

end FindingTable

section Store

variable [LetterTables]

/-- The columns of a finding, whose id is given when it is inserted. -/
def savedRow (now defaultMaxAgeDays : ℤ) (finding : ResearchFinding) : FindingRow :=
  let retrievedAt := if finding.retrievedAt = 0 then now else finding.retrievedAt
  { id := 0
    domain := normalizeDomain finding.domain
    provider := finding.provider
    kind := finding.kind
    title := finding.title
    summary := finding.summary
    sourceUrl := finding.sourceUrl
    confidence := PyFloat.min (.finite 1) (PyFloat.max (.finite 0) finding.confidence)
    signalType := orElse (strip finding.signalType) "context"
    verdict := orElse (strip finding.verdict) "unknown"
    decisionRelevant := finding.decisionRelevant
    rawData := finding.rawData
    retrievedAt
    expiresAt := if finding.expiresAt = 0 then retrievedAt+max 1 defaultMaxAgeDays*86400
      else finding.expiresAt }

/-- `database_features.save_research_findings`: all rows of the saved pairs of domain and provider
make room for the new ones. -/
def insertResearchFindings (now defaultMaxAgeDays : ℤ) (findings : List ResearchFinding)
    (t : FindingTable) : Except Queue.QueueError (ℕ × FindingTable) :=
  if findings.any fun finding => normalizeDomain finding.domain = "" then .error .emptyDomain
  else
    let providerKeys := findings.map fun finding => (normalizeDomain finding.domain,finding.provider)
    .ok (findings.length,(t.delete fun row => (row.domain,row.provider) ∈ providerKeys).insertAll
      (findings.map (savedRow now defaultMaxAgeDays)))

/-- `ORDER BY retrieved_at DESC, id DESC`. -/
def rowKey (row : FindingRow) : List ℤ := [-row.retrievedAt,-row.id]

/-- `database_features.research_findings_get`. -/
def storedFindings (domain : String) (limit : ℤ) (t : FindingTable) : List FindingRow :=
  ((t.rows.filter fun row => row.domain = normalizeDomain domain).insertionSort fun a b =>
    rowKey a ≤ rowKey b).take (max 1 limit).toNat

/-- The finding `row_is_fresh` makes of a row. -/
def FindingRow.finding (row : FindingRow) (context : FreshnessContext) : ResearchFinding where
  domain := orElse row.domain context.domain
  provider := row.provider
  kind := orElse row.kind "context"
  title := row.title
  summary := row.summary
  sourceUrl := row.sourceUrl
  confidence := row.confidence
  signalType := orElse row.signalType "context"
  verdict := orElse row.verdict "unknown"
  decisionRelevant := row.decisionRelevant
  retrievedAt := row.retrievedAt
  expiresAt := row.expiresAt
  rawData := row.rawData

variable [ValueTexts]

/-- `row_is_fresh`. -/
def rowIsFresh (now : ℤ) (row : FindingRow) (context : FreshnessContext) : Bool :=
  now < (freshnessDecisionForFinding now (row.finding context) context).effectiveExpiresAt

/-- `database.save_research_findings`. -/
def saveResearchFindings (settings : Settings) (now defaultMaxAgeDays : ℤ)
    (findings : List ResearchFinding) (t : FindingTable) : Except Queue.QueueError (ℕ × FindingTable) :=
  insertResearchFindings now defaultMaxAgeDays
    (applyFreshnessPolicies settings now defaultMaxAgeDays findings) t

/-- `database.research_findings_get`. -/
def researchFindingsGet (settings : Settings) (now : ℤ) (domain : String) (freshOnly : Bool) (limit : ℤ)
    (t : FindingTable) : List FindingRow :=
  let safeLimit := max 1 limit
  if !freshOnly then storedFindings domain safeLimit t
  else
    let context := buildFreshnessContext settings 30 domain
    ((storedFindings domain (max 500 safeLimit) t).filter fun row =>
      rowIsFresh now row context).take safeLimit.toNat

end Store

/-! What a save leaves. -/

namespace FindingTable

theorem rows_insertAll (rows : List FindingRow) (t : FindingTable) : (t.insertAll rows).rows =
    t.rows++rows.mapIdx fun i row => { row with id := t.lastId+1+i } := by
  induction rows generalizing t with
  | nil => simp [insertAll]
  | cons row rows ih =>
    rw [insertAll,List.foldl_cons,← insertAll,ih,List.mapIdx_cons]
    simp only [insert,List.append_assoc,List.singleton_append,Nat.cast_zero,add_zero,Nat.cast_add,
      Nat.cast_one,add_assoc,add_comm (1 : ℤ)]

end FindingTable

section Saved

variable [LetterTables] [ValueTexts] {settings : Settings} {now days : ℤ}
  {findings : List ResearchFinding} {t t' : FindingTable} {count : ℕ}

/-- The finding that a save writes for a finding. -/
def adjusted (settings : Settings) (now days : ℤ) (f : ResearchFinding) : ResearchFinding :=
  applyFreshnessPolicy now f (buildFreshnessContext settings days (normalizeDomain f.domain))

/-- The rows after a save: those of other pairs, then one row for each finding. -/
theorem saved_rows (h : saveResearchFindings settings now days findings t = .ok (count,t')) :
    (∀ f ∈ findings, normalizeDomain f.domain ≠ "") ∧ t'.rows =
      (t.rows.filter fun row => (row.domain,row.provider) ∉
        findings.map fun f => (normalizeDomain f.domain,f.provider))++
      (findings.map fun f => savedRow now days (adjusted settings now days f)).mapIdx
        fun i row => { row with id := t.lastId+1+i } := by
  rw [saveResearchFindings,insertResearchFindings] at h
  split at h
  · cases h
  · rename_i hnamed
    have hkeys : (applyFreshnessPolicies settings now days findings).map (fun f =>
        (normalizeDomain f.domain,f.provider)) =
        findings.map fun f => (normalizeDomain f.domain,f.provider) := by
      rw [applyFreshnessPolicies,List.map_map]
      rfl
    have hrows : (applyFreshnessPolicies settings now days findings).map (savedRow now days) =
        findings.map fun f => savedRow now days (adjusted settings now days f) := by
      rw [applyFreshnessPolicies,List.map_map]
      rfl
    rw [hkeys,hrows] at h
    obtain ⟨-,rfl⟩ := Prod.mk.inj (Except.ok.inj h)
    refine ⟨fun f hf hempty => hnamed ?_,?_⟩
    · rw [applyFreshnessPolicies,List.any_map,List.any_eq_true]
      exact ⟨f,hf,decide_eq_true hempty⟩
    · rw [FindingTable.rows_insertAll]
      simp only [FindingTable.delete,decide_not]

end Saved

/-! What a read returns. -/

/-- The rows of a domain that a listing has before a row. -/
def newer [CaseTables] (domain : String) (row : FindingRow) (t : FindingTable) : List FindingRow :=
  Pages.ahead rowKey row (t.rows.filter fun other => other.domain = normalizeDomain domain)

section Read

variable [LetterTables] {domain : String} {limit : ℤ} {t : FindingTable} {row : FindingRow}

omit [LetterTables] in
theorem rowKey_inj {rows : List FindingRow} (hids : rows.Pairwise fun a b => a.id < b.id) :
    rows.Pairwise fun a b => rowKey a ≠ rowKey b := by
  refine hids.imp fun hlt heq => ?_
  simp only [rowKey,List.cons.injEq,neg_inj] at heq
  exact hlt.ne heq.2.1

theorem sorted_rows (domain : String) (t : FindingTable) :
    ((t.rows.filter fun row => row.domain = normalizeDomain domain).insertionSort fun a b =>
      rowKey a ≤ rowKey b).Pairwise fun a b => rowKey a < rowKey b := by
  have hperm := List.perm_insertionSort (fun a b => rowKey a ≤ rowKey b)
    (t.rows.filter fun row => row.domain = normalizeDomain domain)
  have hdistinct : (t.rows.filter fun row => row.domain = normalizeDomain domain).Pairwise
      fun a b => rowKey a ≠ rowKey b := rowKey_inj (t.ids.filter _)
  have hsorted := hperm.symm.pairwise hdistinct fun h => h.symm
  exact ((List.pairwise_insertionSort _ _).and hsorted).imp fun h => lt_of_le_of_ne h.1 h.2

variable [ValueTexts]

/-- Room for a row among all rows of its domain and among the fresh ones. -/
structure HasRoom (settings : Settings) (now : ℤ) (domain : String) (limit : ℤ) (t : FindingTable)
    (row : FindingRow) : Prop where
  stored : ((newer domain row t).length : ℤ) < max 500 limit
  fresh : (((newer domain row t).filter fun other =>
    rowIsFresh now other (buildFreshnessContext settings 30 domain)).length : ℤ) < max 1 limit

theorem mem_researchFindingsGet_iff {settings : Settings} {now : ℤ} :
    row ∈ researchFindingsGet settings now domain true limit t ↔
      row ∈ t.rows ∧ row.domain = normalizeDomain domain ∧
        rowIsFresh now row (buildFreshnessContext settings 30 domain) = true ∧
          HasRoom settings now domain limit t row := by
  have hperm := List.perm_insertionSort (fun a b => rowKey a ≤ rowKey b)
    (t.rows.filter fun row => row.domain = normalizeDomain domain)
  have hcount : ∀ p : FindingRow → Bool, ((Pages.ahead rowKey row ((t.rows.filter fun row =>
      row.domain = normalizeDomain domain).insertionSort fun a b => rowKey a ≤ rowKey b)).filter p).length =
        ((newer domain row t).filter p).length := fun p => ((hperm.filter _).filter p).length_eq
  have hall : (Pages.ahead rowKey row ((t.rows.filter fun row =>
      row.domain = normalizeDomain domain).insertionSort fun a b => rowKey a ≤ rowKey b)).length =
        (newer domain row t).length := (hperm.filter _).length_eq
  simp only [researchFindingsGet,Bool.not_true,Bool.false_eq_true,if_false,storedFindings]
  rw [Pages.mem_take_filter_take_iff (sorted_rows domain t),hcount,hall,hperm.mem_iff,List.mem_filter,
    decide_eq_true_eq]
  constructor
  · rintro ⟨⟨hmem,hdomain⟩,hfresh,hstored,hfew⟩
    exact ⟨hmem,hdomain,hfresh,⟨by omega,by omega⟩⟩
  · rintro ⟨hmem,hdomain,hfresh,⟨hstored,hfew⟩⟩
    exact ⟨⟨hmem,hdomain⟩,hfresh,by omega,by omega⟩

end Read

/-! A finding over a save and a later read. -/

section Kept

variable [LetterTables] [ValueTexts] {f : ResearchFinding} {row : FindingRow} {context : FreshnessContext}

/-- The row that a save writes for a finding, apart from its id. -/
def Records (settings : Settings) (now days : ℤ) (f : ResearchFinding) (row : FindingRow) : Prop :=
  row = { savedRow now days (adjusted settings now days f) with id := row.id }

/-- What the policy makes of a finding in a context. -/
structure Tightens (now : ℤ) (f : ResearchFinding) (context : FreshnessContext) : Prop where
  stable : ∀ now', (applyFreshnessPolicy now' (applyFreshnessPolicy now f context) context).expiresAt =
    (applyFreshnessPolicy now f context).expiresAt
  provider : 0 < f.expiresAt → (applyFreshnessPolicy now f context).expiresAt ≤ f.expiresAt
  source : (applyFreshnessPolicy now f context).expiresAt ≤ f.retrievedAt+f.hoursIn context*3600
  tags : f.kindIn context ∉ tagInsensitiveSources → ∀ tag ∈ context.tags, ∀ hours,
    context.tagMaxAgeHours.get? tag = some hours →
      (applyFreshnessPolicy now f context).expiresAt ≤ f.retrievedAt+hours*3600
  moreTags : ∀ tags, context.tags ⊆ tags → (applyFreshnessPolicy now f { context with tags }).expiresAt ≤
    (applyFreshnessPolicy now f context).expiresAt

/-- When a read returns a row that a save wrote for a finding. -/
structure ReadBack (settings : Settings) (now days : ℤ) (f : ResearchFinding) (row : FindingRow) : Prop where
  expiry : row.expiresAt = (adjusted settings now days f).expiresAt
  returned : ∀ settings' now' domain limit t, row ∈ t.rows → row.domain = normalizeDomain domain →
    (row ∈ researchFindingsGet settings' now' domain true limit t ↔
      now' < row.expiresAt ∧ f.Within (buildFreshnessContext settings' 30 domain) now' ∧
        HasRoom settings' now' domain limit t row)

/-- The freshness policy only tightens, is stable, and is what decides over the rows that are read. -/
structure FreshnessKept (f : ResearchFinding) : Prop where
  tightens : ∀ now context, Tightens now f context
  written : ∀ settings now days findings t count t', f ∈ findings →
    saveResearchFindings settings now days findings t = .ok (count,t') →
      ∃ row ∈ t'.rows, t.lastId < row.id ∧ Records settings now days f row
  read : ∀ settings now days row, Records settings now days f row → ReadBack settings now days f row

theorem tightens (hf : 0 < f.retrievedAt) (now : ℤ) (context : FreshnessContext) : Tightens now f context where
  stable := applied_twice hf
  provider := applied_le_provider hf
  source := applied_le_source hf
  tags hkind _ htag _ hhours := applied_le_tag hf hkind htag hhours
  moreTags _ htags := applied_more_tags hf htags

theorem written_of_saved {settings : Settings} {now days : ℤ} {findings : List ResearchFinding}
    {t t' : FindingTable} {count : ℕ} (hf : f ∈ findings)
    (h : saveResearchFindings settings now days findings t = .ok (count,t')) :
    ∃ row ∈ t'.rows, t.lastId < row.id ∧ Records settings now days f row := by
  obtain ⟨i,hi,rfl⟩ := List.getElem_of_mem hf
  rw [(saved_rows h).2]
  refine ⟨{ savedRow now days (adjusted settings now days findings[i]) with id := t.lastId+1+i },
    List.mem_append_right _ (List.mem_mapIdx.mpr ⟨i,by rwa [List.length_map],?_⟩),?_,rfl⟩
  · rw [List.getElem_map]
  · change t.lastId < t.lastId+1+i
    omega

/-- Neither of the two kinds that stand for none has a ceiling of its own. -/
theorem finding_hours (context : FreshnessContext) (hprovider : row.provider = f.provider) (hkind : row.kind = f.kind)
    (hraw : row.rawData.get? "wormhole_source_kind" = f.rawData.get? "wormhole_source_kind") :
    (row.finding context).hoursIn context = f.hoursIn context ∧
      ((row.finding context).kindIn context ∈ tagInsensitiveSources ↔
        f.kindIn context ∈ tagInsensitiveSources) := by
  have hcontext : lowered "context" = "context" := lowered_of_plain (by decide) (by decide)
  have hunknown : lowered "unknown" = "unknown" := lowered_of_plain (by decide) (by decide)
  have hkinds : (row.finding context).kindIn context = f.kindIn context ∨
      ((row.finding context).kindIn context = "context" ∧ f.kindIn context = "unknown") := by
    simp only [ResearchFinding.kindIn,sourceKind,FindingRow.finding,hprovider,hkind,hraw]
    split
    · exact .inl rfl
    · split
      · exact .inl rfl
      · by_cases hnone : f.kind = ""
        · rw [hnone]
          exact .inr ⟨hcontext,hunknown⟩
        · simp [orElse,hnone]
  have hsource : ∀ kind, sourceHours (row.finding context).provider kind context =
      sourceHours f.provider kind context := by
    intro kind
    rw [show (row.finding context).provider = f.provider from hprovider]
  rw [ResearchFinding.hoursIn,ResearchFinding.hoursIn,hsource]
  rcases hkinds with heq | ⟨hrow,hf⟩
  · rw [heq]
    exact ⟨rfl,Iff.rfl⟩
  · rw [hrow,hf]
    exact ⟨rfl,by decide⟩

theorem finding_within (hprovider : row.provider = f.provider) (hkind : row.kind = f.kind)
    (hraw : row.rawData.get? "wormhole_source_kind" = f.rawData.get? "wormhole_source_kind")
    (hretrieved : row.retrievedAt = f.retrievedAt) {t : ℤ} :
    (row.finding context).Within context t ↔ f.Within context t := by
  obtain ⟨hhours,hinsensitive⟩ := finding_hours context hprovider hkind hraw
  have hstart : (row.finding context).retrievedAt = f.retrievedAt := hretrieved
  constructor
  · rintro ⟨hsource,htags⟩
    rw [hstart] at hsource htags
    exact ⟨hhours ▸ hsource,fun h => htags fun hmem => h (hinsensitive.mp hmem)⟩
  · rintro ⟨hsource,htags⟩
    refine ⟨?_,fun h => ?_⟩
    · rwa [hstart,hhours]
    · rw [hstart]
      exact htags fun hmem => h (hinsensitive.mpr hmem)

/-- A stored row is fresh until its own expiry and all ceilings of the time it is read at. -/
theorem rowIsFresh_iff {now : ℤ} (hretrieved : 0 < row.retrievedAt) (hexpires : 0 < row.expiresAt) :
    rowIsFresh now row context = true ↔
      now < row.expiresAt ∧ (row.finding context).Within context now := by
  have hstart : 0 < (row.finding context).retrievedAt := hretrieved
  rw [rowIsFresh,decide_eq_true_eq,lt_effectiveExpiresAt_iff hstart]
  exact and_congr_left fun _ => imp_iff_right hexpires

theorem readBack (hf : 0 < f.retrievedAt) {settings : Settings} {now days : ℤ}
    (h : Records settings now days f row) : ReadBack settings now days f row := by
  have hretrieved : row.retrievedAt = f.retrievedAt := by
    rw [h]
    simp [savedRow,adjusted,hf,hf.ne']
  have hexpiry : row.expiresAt = (adjusted settings now days f).expiresAt := by
    rw [h]
    exact if_neg (applied_pos hf settings days _).ne'
  have hpos : 0 < row.expiresAt := hexpiry ▸ applied_pos hf settings days _
  have hprovider : row.provider = f.provider := by rw [h]; rfl
  have hkind : row.kind = f.kind := by rw [h]; rfl
  have hraw : row.rawData.get? "wormhole_source_kind" = f.rawData.get? "wormhole_source_kind" := by
    rw [h]
    exact (OrderedDict.get?_set _ _ _ _).trans (if_neg (by decide))
  refine ⟨hexpiry,fun settings' now' domain limit t hrow hdomain => ?_⟩
  rw [mem_researchFindingsGet_iff,rowIsFresh_iff (hretrieved ▸ hf) hpos,
    finding_within hprovider hkind hraw hretrieved]
  constructor
  · rintro ⟨-,-,⟨hbefore,hwithin⟩,hroom⟩
    exact ⟨hbefore,hwithin,hroom⟩
  · rintro ⟨hbefore,hwithin,hroom⟩
    exact ⟨hrow,hdomain,⟨hbefore,hwithin⟩,hroom⟩

/-- A finding with a time of retrieval expires at the earliest bound, and its row is returned until
then. -/
theorem freshness_policy_tightens (hf : 0 < f.retrievedAt) : FreshnessKept f where
  tightens := tightens hf
  written _ _ _ _ _ _ _ hmem hsave := written_of_saved hmem hsave
  read _ _ _ _ hrow := readBack hf hrow

end Kept

/-- A registration that is looked up. -/
def registration : ResearchFinding where
  domain := "example.com"
  provider := "RDAP registration data"
  kind := "registration"
  title := "Registered"
  summary := "Registered since 1995"
  retrievedAt := 1700000000

theorem freshness_policy_tightens_registration : FreshnessKept registration :=
  freshness_policy_tightens (by decide)

end Evidence
end WormholeObservatory
