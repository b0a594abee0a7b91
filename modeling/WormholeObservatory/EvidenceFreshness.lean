import WormholeObservatory.AutomationGate
import WormholeObservatory.ConfigOptions
import WormholeObservatory.JsonValues
import WormholeObservatory.Letters

/-! How long a finding of evidence counts. A finding is stale at the earliest of the expiry its
provider named, the maximum age of its source and the ceilings of the tags of its domain. -/
namespace WormholeObservatory
namespace Evidence

open Floats JsonValues

structure ResearchFinding where
  domain : String
  provider : String
  kind : String
  title : String
  summary : String
  sourceUrl : String := ""
  confidence : PyFloat := .finite 0
  signalType : String := "context"
  verdict : String := "unknown"
  decisionRelevant : Bool := false
  retrievedAt : ℤ := 0
  expiresAt : ℤ := 0
  rawData : OrderedDict String Value := .empty

def policyVersion : ℤ := 1

/-- `_DEFAULT_TAG_MAX_AGE_HOURS`. -/
def defaultTagMaxAgeHours : OrderedDict String ℤ := OrderedDict.ofItems
  [("advertising",72),("cross_site_tracking",72),("analytics",72),("telemetry",72),
    ("crash_reporting",168),("authentication",72),("payments",48),("api_backend",72),
    ("content_media",168),("cdn_shared_infrastructure",168),("software_updates",24),
    ("notifications_messaging",72),("security_antifraud",12),("iot_cloud",72),("malware",6),
    ("phishing",6),("command_and_control",6),("unknown",24)]

/-- `_FALLBACK_SOURCE_MAX_AGE_HOURS`. -/
def fallbackSourceMaxAgeHours : List (String × ℤ) :=
  [("adguard_services",24),("dns_records",6),("disconnect_tracking",24),("rdap",168),("ripestat",24),
    ("netcraft",168),("virustotal",24),("threatfox",6),("phishtank",1),("urlscan",12),
    ("cloudflare_radar",168),("repository_lists",12),("urlhaus",6),("crtsh",24),
    ("google_safe_browsing",6),("compatibility_profile",8760)]

/-- `_TAG_INSENSITIVE_SOURCES`. -/
def tagInsensitiveSources : List String := ["compatibility_profile"]

structure FreshnessContext where
  domain : String
  tags : List String
  globalMaxAgeHours : ℤ
  providerHours : OrderedDict String ℤ
  providerKinds : OrderedDict String String
  tagMaxAgeHours : OrderedDict String ℤ

structure FreshnessDecision where
  sourceKind : String
  sourceMaxAgeHours : ℤ
  tagMaxAgeHours : Option ℤ
  matchedTags : List String
  effectiveMaxAgeSeconds : ℤ
  effectiveExpiresAt : ℤ
  originalExpiresAt : ℤ

/-- `EvidenceFreshnessDecision.as_dict`. -/
def FreshnessDecision.asDict (d : FreshnessDecision) : Value := .dict
  [("policy_version",.int policyVersion),("source_kind",.str d.sourceKind),
    ("source_max_age_hours",.int d.sourceMaxAgeHours),
    ("tag_max_age_hours",d.tagMaxAgeHours.elim .null .int),
    ("matched_tags",.list (d.matchedTags.map .str)),
    ("effective_max_age_seconds",.int d.effectiveMaxAgeSeconds),
    ("effective_expires_at",.int d.effectiveExpiresAt),
    ("original_expires_at",.int d.originalExpiresAt),
    ("rule",.str "minimum of provider expiry, source refresh interval, and tag ceiling")]

section Policy

variable [LetterTables]

/-- `_provider_key`. -/
def providerKey (value : String) : String := joinWith " " (words (CaseTables.casefold (strip value)))

/-! The context of a domain. -/

/-- `CASE source WHEN 'manual' THEN 0 WHEN 'llm' THEN 1 ELSE 2 END`. -/
def sourceRank (source : String) : ℤ := if source = "manual" then 0 else if source = "llm" then 1 else 2

/-- One row in the loop over the rows of `domain_tags`. -/
def collectTag (bySource : OrderedDict String (List String)) (row : Automation.TagRow) :
    OrderedDict String (List String) :=
  let source := lowered row.source
  let tag := normalizeTag row.tag
  if tag = "" then bySource else bySource.set source ((bySource.get? source).getD []++[tag])

/-- `_effective_domain_tags`. -/
def effectiveDomainTags (table : List Automation.TagRow) (domain : String) : List String :=
  let normalized := normalizeDomain domain
  if normalized = "" then []
  else
    let rows := (table.filter fun row => row.domain = normalized).insertionSort fun a b =>
      sourceRank a.source::codes a.tag ≤ sourceRank b.source::codes b.tag
    let bySource := rows.foldl collectTag .empty
    match ["manual","llm","current"].findSome? fun source => (bySource.get? source).filter (· ≠ []) with
    | some selected => selected.eraseDups
    | none => bySource.values.flatten.eraseDups

/-- `provider_hours` and `provider_kinds` after the loop over the configured providers. -/
def configuredHours (providers : List Config.ResearchProviderOptions) : OrderedDict String ℤ :=
  providers.foldl (fun hours provider =>
    let name := providerKey provider.name
    if name = "" then hours else hours.set name (max 1 provider.refreshIntervalHours)) .empty

def configuredKinds (providers : List Config.ResearchProviderOptions) : OrderedDict String String :=
  providers.foldl (fun kinds provider =>
    let name := providerKey provider.name
    if name = "" then kinds else kinds.set name (lowered provider.kind)) .empty

/-- The settings and the tags a context is built from. -/
structure Settings where
  researchProviders : List Config.ResearchProviderOptions
  domainTags : List Automation.TagRow

/-- `build_freshness_context`. -/
def buildFreshnessContext (settings : Settings) (defaultMaxAgeDays : ℤ) (domain : String) :
    FreshnessContext where
  domain := normalizeDomain domain
  tags := effectiveDomainTags settings.domainTags domain
  globalMaxAgeHours := max 1 defaultMaxAgeDays*24
  providerHours := configuredHours settings.researchProviders
  providerKinds := configuredKinds settings.researchProviders
  tagMaxAgeHours := defaultTagMaxAgeHours

/-! The decision. -/

section Decide

variable [ValueTexts]

/-- `_source_kind`. -/
def sourceKind (provider kind : String) (rawData : OrderedDict String Value) (context : FreshnessContext) :
    String :=
  let explicit := lowered (((rawData.get? "wormhole_source_kind").getD .null).textOr "")
  if explicit ≠ "" then explicit
  else
    let configured := (context.providerKinds.get? (providerKey provider)).getD ""
    if configured ≠ "" then configured else lowered (orElse kind "unknown")

end Decide

/-- `_source_hours`. -/
def sourceHours (provider kind : String) (context : FreshnessContext) : ℤ :=
  match context.providerHours.get? (providerKey provider) with
  | some configured => max 1 configured
  | none =>
    match fallbackSourceMaxAgeHours.lookup kind with
    | some fallback => max 1 fallback
    | none => max 1 context.globalMaxAgeHours

/-- `_tag_ceiling`. -/
def tagCeiling (kind : String) (context : FreshnessContext) : Option ℤ × List String :=
  if kind ∈ tagInsensitiveSources then (none,[])
  else
    let matched := context.tags.filter fun tag => (context.tagMaxAgeHours.get? tag).isSome
    ((matched.filterMap context.tagMaxAgeHours.get?).min?,matched)

variable [ValueTexts]

/-- `freshness_decision_for_finding`. -/
def freshnessDecisionForFinding (now : ℤ) (finding : ResearchFinding) (context : FreshnessContext) :
    FreshnessDecision :=
  let retrievedAt := max 0 (if finding.retrievedAt = 0 then now else finding.retrievedAt)
  let kind := sourceKind finding.provider finding.kind finding.rawData context
  let hours := sourceHours finding.provider kind context
  let (tagHours,matchedTags) := tagCeiling kind context
  let effectiveHours := min hours (tagHours.getD hours)
  let policyExpiresAt := retrievedAt+effectiveHours*3600
  let originalExpiresAt := max 0 finding.expiresAt
  { sourceKind := kind
    sourceMaxAgeHours := hours
    tagMaxAgeHours := tagHours
    matchedTags
    effectiveMaxAgeSeconds := effectiveHours*3600
    effectiveExpiresAt :=
      if 0 < originalExpiresAt then min originalExpiresAt policyExpiresAt else policyExpiresAt
    originalExpiresAt }

/-- `apply_freshness_policy`. -/
def applyFreshnessPolicy (now : ℤ) (finding : ResearchFinding) (context : FreshnessContext) :
    ResearchFinding :=
  let decision := freshnessDecisionForFinding now finding context
  { finding with
    retrievedAt := if finding.retrievedAt = 0 then now else finding.retrievedAt
    expiresAt := decision.effectiveExpiresAt
    rawData := finding.rawData.set "freshness_policy" decision.asDict }

/-- `apply_freshness_policies`. The contexts it keeps are those it would build again. -/
def applyFreshnessPolicies (settings : Settings) (now defaultMaxAgeDays : ℤ)
    (findings : List ResearchFinding) : List ResearchFinding :=
  findings.map fun finding => applyFreshnessPolicy now finding
    (buildFreshnessContext settings defaultMaxAgeDays (normalizeDomain finding.domain))

/-! What bounds the expiry. -/

/-- The ceilings of the tags of the domain, for a finding of this kind. -/
def tagCeilings (kind : String) (context : FreshnessContext) : List ℤ :=
  if kind ∈ tagInsensitiveSources then [] else context.tags.filterMap context.tagMaxAgeHours.get?

/-- The kind of the source a finding counts as. -/
def ResearchFinding.kindIn (finding : ResearchFinding) (context : FreshnessContext) : String :=
  sourceKind finding.provider finding.kind finding.rawData context

/-- The maximum age of the source of a finding. -/
def ResearchFinding.hoursIn (finding : ResearchFinding) (context : FreshnessContext) : ℤ :=
  sourceHours finding.provider (finding.kindIn context) context

/-- A time before all ceilings of a finding. -/
structure ResearchFinding.Within (finding : ResearchFinding) (context : FreshnessContext) (t : ℤ) :
    Prop where
  source : t < finding.retrievedAt+finding.hoursIn context*3600
  tags : finding.kindIn context ∉ tagInsensitiveSources → ∀ tag ∈ context.tags, ∀ hours,
    context.tagMaxAgeHours.get? tag = some hours → t < finding.retrievedAt+hours*3600

variable {now : ℤ} {f : ResearchFinding} {context : FreshnessContext}

omit [LetterTables] [ValueTexts] in
theorem tagCeiling_eq (kind : String) : (tagCeiling kind context).1 = (tagCeilings kind context).min? := by
  rw [tagCeiling,tagCeilings]
  split
  · rfl
  · have hall : (context.tags.filter fun tag => (context.tagMaxAgeHours.get? tag).isSome).filterMap
        context.tagMaxAgeHours.get? = context.tags.filterMap context.tagMaxAgeHours.get? := by
      rw [List.filterMap_filter]
      refine List.filterMap_congr fun tag _ => ?_
      cases context.tagMaxAgeHours.get? tag <;> rfl
    simp only [hall]

omit [LetterTables] [ValueTexts] in
theorem mem_tagCeilings_iff {kind : String} {hours : ℤ} : hours ∈ tagCeilings kind context ↔
    kind ∉ tagInsensitiveSources ∧ ∃ tag ∈ context.tags, context.tagMaxAgeHours.get? tag = some hours := by
  rw [tagCeilings]
  split
  · rename_i hkind
    exact iff_of_false List.not_mem_nil fun h => h.1 hkind
  · rename_i hkind
    rw [List.mem_filterMap,and_iff_right hkind]

omit [LetterTables] [ValueTexts] in
/-- Before the least of some ages is before each of them. -/
theorem lt_min_ages_iff {t start hours : ℤ} {ages : List ℤ} :
    t < start+min hours (ages.min?.getD hours)*3600 ↔
      t < start+hours*3600 ∧ ∀ age ∈ ages, t < start+age*3600 := by
  cases hmin : ages.min? with
  | none =>
    rw [List.min?_eq_none_iff.mp hmin]
    simp
  | some least =>
    obtain ⟨hmem,hle⟩ := List.min?_eq_some_iff.mp hmin
    rw [Option.getD_some]
    constructor
    · intro h
      refine ⟨by omega,fun age hage => ?_⟩
      have := hle age hage
      omega
    · rintro ⟨hsource,htags⟩
      have := htags least hmem
      omega

/-- A finding is fresh until the expiry of its provider and all ceilings. -/
theorem lt_effectiveExpiresAt_iff (hf : 0 < f.retrievedAt) {t : ℤ} :
    t < (freshnessDecisionForFinding now f context).effectiveExpiresAt ↔
      (0 < f.expiresAt → t < f.expiresAt) ∧ f.Within context t := by
  have hstart : max 0 (if f.retrievedAt = 0 then now else f.retrievedAt) = f.retrievedAt := by
    rw [if_neg hf.ne',max_eq_right hf.le]
  have hpolicy : t < f.retrievedAt+min (f.hoursIn context)
      ((tagCeiling (f.kindIn context) context).1.getD (f.hoursIn context))*3600 ↔ f.Within context t := by
    rw [tagCeiling_eq,lt_min_ages_iff]
    constructor
    · rintro ⟨hsource,htags⟩
      exact ⟨hsource,fun hkind tag htag hours hhours =>
        htags hours (mem_tagCeilings_iff.mpr ⟨hkind,tag,htag,hhours⟩)⟩
    · rintro ⟨hsource,htags⟩
      refine ⟨hsource,fun hours hmem => ?_⟩
      obtain ⟨hkind,tag,htag,hhours⟩ := mem_tagCeilings_iff.mp hmem
      exact htags hkind tag htag hours hhours
  rw [← hpolicy]
  simp only [freshnessDecisionForFinding,hstart]
  change t < (if 0 < max 0 f.expiresAt then min (max 0 f.expiresAt) _ else _) ↔ _
  rcases lt_or_ge 0 f.expiresAt with hpositive | hnone
  · rw [max_eq_right hpositive.le,if_pos hpositive,lt_min_iff]
    exact and_congr_left fun _ => (imp_iff_right hpositive).symm
  · rw [max_eq_left hnone,if_neg (lt_irrefl 0)]
    exact (and_iff_right fun h => absurd h (not_lt.mpr hnone)).symm

theorem lt_applied_iff (hf : 0 < f.retrievedAt) {t : ℤ} :
    t < (applyFreshnessPolicy now f context).expiresAt ↔
      (0 < f.expiresAt → t < f.expiresAt) ∧ f.Within context t :=
  lt_effectiveExpiresAt_iff hf

/-! What the policy keeps of a finding. -/

@[simp] theorem applied_retrievedAt (hf : 0 < f.retrievedAt) :
    (applyFreshnessPolicy now f context).retrievedAt = f.retrievedAt :=
  if_neg hf.ne'

@[simp] theorem applied_kindIn (context' : FreshnessContext) :
    (applyFreshnessPolicy now f context).kindIn context' = f.kindIn context' := by
  have hkey : (f.rawData.set "freshness_policy" (freshnessDecisionForFinding now f context).asDict).get?
      "wormhole_source_kind" = f.rawData.get? "wormhole_source_kind" := by
    rw [OrderedDict.get?_set,if_neg (by decide)]
  rw [ResearchFinding.kindIn,sourceKind]
  simp only [applyFreshnessPolicy,hkey]
  rfl

@[simp] theorem applied_within (hf : 0 < f.retrievedAt) {context' : FreshnessContext} {t : ℤ} :
    (applyFreshnessPolicy now f context).Within context' t ↔ f.Within context' t := by
  have hhours : (applyFreshnessPolicy now f context).hoursIn context' = f.hoursIn context' := by
    rw [ResearchFinding.hoursIn,applied_kindIn]
    rfl
  constructor
  · rintro ⟨hsource,htags⟩
    rw [applied_retrievedAt hf] at hsource htags
    rw [hhours] at hsource
    rw [applied_kindIn] at htags
    exact ⟨hsource,htags⟩
  · rintro ⟨hsource,htags⟩
    refine ⟨?_,?_⟩
    · rwa [applied_retrievedAt hf,hhours]
    · rwa [applied_retrievedAt hf,applied_kindIn]

/-! The laws of the policy. -/

theorem within_before {t t' : ℤ} (h : f.Within context t) (hle : t' ≤ t) : f.Within context t' :=
  ⟨lt_of_le_of_lt hle h.source,fun hkind tag htag hours hhours =>
    lt_of_le_of_lt hle (h.tags hkind tag htag hours hhours)⟩

/-- Applied again, the policy has nothing left to do. -/
theorem applied_twice (hf : 0 < f.retrievedAt) (now' : ℤ) :
    (applyFreshnessPolicy now' (applyFreshnessPolicy now f context) context).expiresAt =
      (applyFreshnessPolicy now f context).expiresAt := by
  have hagain : 0 < (applyFreshnessPolicy now f context).retrievedAt := by rwa [applied_retrievedAt hf]
  refine eq_of_forall_lt_iff fun t => ?_
  rw [lt_applied_iff hagain,applied_within hf]
  constructor
  · rintro ⟨hown,hwithin⟩
    by_cases hpositive : 0 < (applyFreshnessPolicy now f context).expiresAt
    · exact hown hpositive
    · -- The provider's expiry is positive, so it cannot be what made the first one not so.
      refine (lt_applied_iff hf).mpr ⟨fun hexpires => ?_,hwithin⟩
      by_contra hlate
      have hbefore : f.expiresAt-1 < (applyFreshnessPolicy now f context).expiresAt :=
        (lt_applied_iff hf).mpr ⟨fun _ => sub_one_lt f.expiresAt,within_before hwithin (by omega)⟩
      omega
  · intro ht
    exact ⟨fun _ => ht,((lt_applied_iff hf).mp ht).2⟩

theorem applied_le_provider (hf : 0 < f.retrievedAt) (hexpires : 0 < f.expiresAt) :
    (applyFreshnessPolicy now f context).expiresAt ≤ f.expiresAt :=
  le_of_forall_lt fun _ ht => ((lt_applied_iff hf).mp ht).1 hexpires

theorem applied_le_source (hf : 0 < f.retrievedAt) :
    (applyFreshnessPolicy now f context).expiresAt ≤ f.retrievedAt+f.hoursIn context*3600 :=
  le_of_forall_lt fun _ ht => ((lt_applied_iff hf).mp ht).2.source

theorem applied_le_tag (hf : 0 < f.retrievedAt) (hkind : f.kindIn context ∉ tagInsensitiveSources)
    {tag : String} (htag : tag ∈ context.tags) {hours : ℤ}
    (hhours : context.tagMaxAgeHours.get? tag = some hours) :
    (applyFreshnessPolicy now f context).expiresAt ≤ f.retrievedAt+hours*3600 :=
  le_of_forall_lt fun _ ht => ((lt_applied_iff hf).mp ht).2.tags hkind tag htag hours hhours

/-- More tags never make a finding last longer. -/
theorem applied_more_tags (hf : 0 < f.retrievedAt) {tags : List String} (htags : context.tags ⊆ tags) :
    (applyFreshnessPolicy now f { context with tags }).expiresAt ≤
      (applyFreshnessPolicy now f context).expiresAt := by
  refine le_of_forall_lt fun t ht => ?_
  obtain ⟨hown,hwithin⟩ := (lt_applied_iff hf).mp ht
  exact (lt_applied_iff hf).mpr ⟨hown,hwithin.source,fun hkind tag htag =>
    hwithin.tags hkind tag (htags htag)⟩

/-! What contexts that are built from settings have. -/

omit [ValueTexts] in
theorem sourceHours_pos (provider kind : String) (context : FreshnessContext) : 0 < sourceHours provider kind context := by
  rw [sourceHours]
  split
  · exact lt_max_of_lt_left one_pos
  · split
    · exact lt_max_of_lt_left one_pos
    · exact lt_max_of_lt_left one_pos

omit [LetterTables] [ValueTexts] in
theorem defaultTagMaxAgeHours_pos {tag : String} {hours : ℤ}
    (h : defaultTagMaxAgeHours.get? tag = some hours) : 0 < hours := by
  have hall : ∀ e ∈ defaultTagMaxAgeHours.items, 0 < e.2 := OrderedDict.forall_ofItems (by decide)
  exact hall (tag,hours) (OrderedDict.mem_items_of_get? h)

/-- A finding of the past that is saved has a time at which it expires. -/
theorem applied_pos (hf : 0 < f.retrievedAt) (settings : Settings) (days : ℤ) (domain : String) :
    0 < (applyFreshnessPolicy now f (buildFreshnessContext settings days domain)).expiresAt := by
  refine (lt_applied_iff hf).mpr ⟨id,?_,fun _ _ _ hours hhours => ?_⟩
  · have := sourceHours_pos f.provider (f.kindIn (buildFreshnessContext settings days domain))
      (buildFreshnessContext settings days domain)
    rw [ResearchFinding.hoursIn]
    omega
  · have := defaultTagMaxAgeHours_pos hhours
    omega

end Policy

end Evidence
end WormholeObservatory
