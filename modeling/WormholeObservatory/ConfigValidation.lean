import WormholeObservatory.ConfigOptions
import WormholeObservatory.Letters

/-! `_validate`, section by section. On a field that has its declared type the converters
`_as_int`, `_as_float`, `_as_bool` and `str` return the value as it is. -/
namespace WormholeObservatory
namespace Config

variable [LetterTables]

/-- A value of a closed list of names, or else the default. -/
def oneOf (allowed : List String) (default s : String) : String :=
  if s ∈ allowed then s else default

/-- `min(hi, max(lo, x))`. -/
def within {α : Type*} [LinearOrder α] (lo hi x : α) : α := min hi (max lo x)

/-- `str(value or default).strip()`. -/
def stripOr (default s : String) : String := strip (orElse s default)

def validateLogging (o : LoggingOptions) : LoggingOptions :=
  let defaults : LoggingOptions := {}
  { enabled := o.enabled
    level := oneOf ["DEBUG","INFO","WARNING","ERROR","CRITICAL"] "INFO" (LetterTables.upper o.level)
    filename := orElse o.filename defaults.filename
    rotateBytes := max 100000 o.rotateBytes
    backupCount := max 1 o.backupCount }

def validateNotify (o : NotifyOptions) : NotifyOptions :=
  let defaults : NotifyOptions := {}
  { o with
    rateLimitSec := max 0 o.rateLimitSec
    toastTitle := orElse o.toastTitle defaults.toastTitle }

def validateExternalTrigger (o : ExternalTriggerOptions) : ExternalTriggerOptions :=
  let defaults : ExternalTriggerOptions := {}
  { o with
    bindHost := stripOr defaults.bindHost o.bindHost
    port := within 1 65535 o.port
    maxDomainsPerRequest := within 1 5000 o.maxDomainsPerRequest }

def dropStar (suffix : String) : String :=
  if startsWith suffix "*" then String.ofList (suffix.toList.drop 1) else suffix

/-- The form of an excluded suffix: blanks and trailing dots go, in this order, then a leading
star, and a dot is put in front. -/
def normalizeSuffix (value : String) : String :=
  let suffix := dropStar (rstripDots (lowered value))
  if suffix ≠ "" ∧ startsWith suffix "." = false then "."++suffix else suffix

def normalizeSuffixes (values : List String) : List String :=
  ((values.map normalizeSuffix).filter (· ≠ "")).eraseDups

def validateScans (o : ScanOptions) : ScanOptions :=
  { o with
    intervalSec := max 1 o.intervalSec
    batchSize := max 1 o.batchSize
    initialLookbackSec := max 1 o.initialLookbackSec
    queueTriggerSize := max 1 o.queueTriggerSize
    maxQueueWaitSec := max 1 o.maxQueueWaitSec
    historyIdleAfterSec := max 30 o.historyIdleAfterSec
    historyLookbackDays := max 1 o.historyLookbackDays
    historyBatchSize := max 10 o.historyBatchSize
    excludedDomainSuffixes := normalizeSuffixes o.excludedDomainSuffixes }

def validatePihole (o : PiHoleOptions) : PiHoleOptions :=
  let defaults : PiHoleOptions := {}
  { o with
    baseUrl := orElse o.baseUrl defaults.baseUrl
    caBundlePath := strip o.caBundlePath
    timeoutSec := max 1 o.timeoutSec }

/-- `_normalize_tags`. -/
def normalizeTags (values : List String) : List String :=
  ((values.filter fun value => strip value ≠ "").map normalizeTag).eraseDups

/-- An item of `tag_policies` in its form; an item with a blank key goes. -/
def normalizePolicyItem (e : String × String) : Option (String × String) :=
  if strip e.1 = "" then none else some (normalizeTag e.1,lowered e.2)

/-- An item of `tag_recheck_days` in its form. -/
def normalizeRecheckItem (e : String × ℤ) : Option (String × ℤ) :=
  if normalizeTag e.1 = "" then none else some (normalizeTag e.1,max 1 e.2)

def validateTags (values : List String) : List String :=
  if normalizeTags values = [] then ["unknown"] else normalizeTags values

def validateTagPolicies (tags : List String) (policies : OrderedDict String String) :
    OrderedDict String String :=
  (policies.comprehension normalizePolicyItem).setDefaults (fun _ => Policy.manualReview.value) tags

def validateTagRecheckDays (defaultDays : ℤ) (tags : List String) (days : OrderedDict String ℤ) :
    OrderedDict String ℤ :=
  (days.comprehension normalizeRecheckItem).setDefaults
    (fun tag => (defaultTagRecheckDays.get? tag).getD defaultDays) tags

/-- The `llm` section; the two indices are kept below the numbers of providers and of profiles. -/
def validateLLM (providers profiles : ℕ) (o : LLMOptions) : LLMOptions :=
  let batch := max 1 o.workerBatchSize
  let minConfidence := within 0 1 o.autoActionMinConfidence
  let threshold := within 0 1 o.reviewConfidenceThreshold
  let recheck := max 1 o.defaultRecheckDays
  let tags := validateTags o.tags
  { o with
    intervalSec := max 1 o.intervalSec
    workerBatchSize := batch
    domainsPerRequest := within 1 batch o.domainsPerRequest
    minRequestIntervalSec := max 0 o.minRequestIntervalSec
    maxRetries := max 0 o.maxRetries
    realtimeQuotaReservePercent := within 0 90 o.realtimeQuotaReservePercent
    quotaWaitTimeoutSec := max 0 o.quotaWaitTimeoutSec
    unknownRemoteRequestsPerMinute := max 1 o.unknownRemoteRequestsPerMinute
    unknownRemoteMaxDomainsPerRequest := max 1 o.unknownRemoteMaxDomainsPerRequest
    activeProviderIndex := within 0 ((providers : ℤ)-1) o.activeProviderIndex
    activeProfileIndex := within 0 ((profiles : ℤ)-1) o.activeProfileIndex
    automationMode := oneOf ["manual","hybrid","auto"] "hybrid" o.automationMode
    defaultRecheckDays := recheck
    reviewConfidenceThreshold := if threshold > minConfidence then minConfidence else threshold
    autoActionMinConfidence := minConfidence
    tags := tags
    tagPolicies := validateTagPolicies tags o.tagPolicies
    tagRecheckDays := validateTagRecheckDays recheck tags o.tagRecheckDays }

def validateResearch (o : ResearchOptions) : ResearchOptions where
  maxAgeDays := max 1 o.maxAgeDays

def normalizeChannel (value : String) : String :=
  let channel := lowered value
  if channel = "development" then "prerelease" else oneOf ["stable","prerelease"] "stable" channel

def validateUpdates (o : UpdateOptions) : UpdateOptions :=
  { o with
    channel := normalizeChannel o.channel
    checkIntervalHours := max 1 o.checkIntervalHours
    lastCheckAt := max 0 o.lastCheckAt }

def validateProviderRegistry (o : ProviderRegistryOptions) : ProviderRegistryOptions :=
  let defaults : ProviderRegistryOptions := {}
  { o with
    refreshIntervalHours := max 1 o.refreshIntervalHours
    lastCheckedAt := max 0 o.lastCheckedAt
    registryUrl := stripOr defaults.registryUrl o.registryUrl
    signatureUrl := stripOr defaults.signatureUrl o.signatureUrl }

/-! The tables of the user interface. -/

def tableKeys : List String := ["queries","history","lists","review","domains"]

def tableWidths (table : String) : OrderedDict String ℤ :=
  (defaultColumnWidths.get? table).getD OrderedDict.empty

def validateVisible (table : String) (configured : Option (List String)) : List String :=
  let default := (defaultVisibleColumns.get? table).getD []
  let known := (configured.getD default).filter (· ∈ (tableWidths table).keys)
  if known = [] then default else known

def validateWidths (table : String) (configured : Option (OrderedDict String ℤ)) :
    OrderedDict String ℤ :=
  (tableWidths table).mapValues fun column width =>
    max 20 (((configured.getD OrderedDict.empty).get? column).getD width)

def validateOrder (table : String) (configured : Option (List String)) : List String :=
  let default := (defaultColumnOrder.get? table).getD []
  let normalized := ((configured.getD default).filter (· ∈ default)).eraseDups
  normalized++default.filter (· ∉ normalized)

def validateUI (o : UIOptions) : UIOptions :=
  let defaults : UIOptions := {}
  let widths := o.tableColumnWidths.setEach validateWidths tableKeys
  { o with
    theme := oneOf ["system","light","dark"] defaults.theme (lowered o.theme)
    windowWidth := max 800 o.windowWidth
    windowHeight := max 600 o.windowHeight
    queryRefreshMs := max 500 o.queryRefreshMs
    queriesColwidths := (widths.get? "queries").getD OrderedDict.empty
    tableVisibleColumns := o.tableVisibleColumns.setEach validateVisible tableKeys
    tableColumnOrder := o.tableColumnOrder.setEach validateOrder tableKeys
    tableColumnWidths := widths }

/-! Providers, profiles and pools. -/

def validateLimits (o : ProviderLimitOptions) : ProviderLimitOptions :=
  { mode := oneOf ["auto","auto_cap","manual"] "auto" (lowered o.mode)
    quotaGroup := strip o.quotaGroup
    requestsPerMinute := max 0 o.requestsPerMinute
    requestsPerHour := max 0 o.requestsPerHour
    requestsPerDay := max 0 o.requestsPerDay
    inputTokensPerMinute := max 0 o.inputTokensPerMinute
    outputTokensPerMinute := max 0 o.outputTokensPerMinute
    tokensPerMinute := max 0 o.tokensPerMinute
    tokensPerHour := max 0 o.tokensPerHour
    tokensPerDay := max 0 o.tokensPerDay
    unitsPerDay := max 0 o.unitsPerDay
    contextTokens := max 0 o.contextTokens
    maxDomainsPerRequest := max 0 o.maxDomainsPerRequest
    safetyMarginPercent := within 0 50 o.safetyMarginPercent }

def structuredOutputs : List String := ["auto","json_schema","json_object","prompt_only"]

/-- The body of the loop over the providers, the id apart. -/
def validateLLMProvider (o : LLMProviderOptions) : LLMProviderOptions :=
  let apiStyle := oneOf ["openai_compatible","anthropic_messages"] "openai_compatible" (lowered o.apiStyle)
  { o with
    name := orElse o.name "Unnamed provider"
    presetId := orElse (lowered o.presetId) "custom"
    apiStyle := apiStyle
    baseUrl := rstripSlashes (strip o.baseUrl)
    apiKey := strip o.apiKey
    model := strip o.model
    timeoutSec := max 1 o.timeoutSec
    maxOutputTokens := max 1 o.maxOutputTokens
    maxTokensParameter :=
      oneOf ["max_tokens","max_completion_tokens","none"] "max_tokens" (lowered o.maxTokensParameter)
    structuredOutput :=
      if apiStyle = "anthropic_messages" then "prompt_only"
      else oneOf structuredOutputs "auto" (lowered o.structuredOutput)
    limits := validateLimits o.limits }

/-- The loop over the providers. `draws n` is the id drawn for the provider at position `n`. -/
def validateLLMProviders (draws : ℕ → String) :
    ℕ → List String → List LLMProviderOptions → List LLMProviderOptions
  | _,_,[] => []
  | n,used,p::ps =>
    let configured := strip p.providerId
    let providerId := if configured = "" ∨ configured ∈ used then draws n else configured
    { validateLLMProvider p with providerId := providerId }::
      validateLLMProviders draws (n+1) (providerId::used) ps

def validateProfile (o : PromptProfileOptions) : PromptProfileOptions :=
  { o with name := orElse o.name "Unnamed profile" }

def supportedResearchKinds : List String :=
  ["adguard_services","dns_records","disconnect_tracking","rdap","ripestat","netcraft","virustotal",
   "threatfox","phishtank","urlscan","cloudflare_radar","repository_lists","urlhaus"]

def validateResearchProvider (o : ResearchProviderOptions) : ResearchProviderOptions :=
  let kind := lowered o.kind
  { name := orElse o.name "Unnamed source"
    kind := kind
    enabled := o.enabled
    baseUrl :=
      if kind = "rdap" ∧ strip o.baseUrl = "" then "https://data.iana.org/rdap/dns.json"
      else strip o.baseUrl
    apiKey := strip o.apiKey
    timeoutSec := max 1 o.timeoutSec
    minIntervalSec := max 0 o.minIntervalSec
    refreshIntervalHours := max 1 o.refreshIntervalHours
    maxResults := max 1 o.maxResults
    testDomain := lowered o.testDomain }

/-- Providers of unknown kinds go, and every kind that is not there comes with its default. -/
def validateResearchProviders (providers : List ResearchProviderOptions) :
    List ResearchProviderOptions :=
  let kept := providers.filter fun p => lowered p.kind ∈ supportedResearchKinds
  let missing := defaultResearchProviders.filter fun p => p.kind ∉ kept.map fun q => lowered q.kind
  (kept++missing).map validateResearchProvider

def validateMembership (o : ProviderPoolMembershipOptions) : ProviderPoolMembershipOptions :=
  { providerId := strip o.providerId
    enabled := o.enabled
    role := oneOf ["primary","fallback","verifier"] "primary" (lowered o.role)
    priority := within 0 10000 o.priority
    weight := within 1 100 o.weight }

/-- The loop over the memberships of a pool: one membership for each provider there is. -/
def validateMemberships (ids : List String) :
    List String → List ProviderPoolMembershipOptions → List ProviderPoolMembershipOptions
  | _,[] => []
  | seen,m::ms =>
    let providerId := strip m.providerId
    if providerId ∉ ids ∨ providerId ∈ seen then validateMemberships ids seen ms
    else validateMembership m::validateMemberships ids (providerId::seen) ms

/-- The provider the memberships and pools that are missing are given to. -/
structure PoolDefaults where
  ids : List String
  activeProviderId : String
  activeProfileIndex : ℤ
  profiles : ℕ

/-- `_default_analysis_pool`. -/
def defaultAnalysisPool (poolId providerId : String) (profileIndex : ℤ) : AnalysisPoolOptions where
  poolId := poolId
  name := if poolId = "realtime" then "Realtime analysis" else "Background analysis"
  enabled := true
  mode := if poolId = "realtime" then "fallback" else "distribute"
  profileIndex := profileIndex
  maxParallelRequests := 2
  verificationSamplePercent := 10
  verifyAutomaticActions := true
  verifySecurityRiskAtLeast := 80
  verifyBreakageRiskAtLeast := 50
  memberships := [{ providerId := providerId }]

/-- The memberships of a pool; without any, the active provider is its member. -/
def poolMemberships (d : PoolDefaults) (configured : List ProviderPoolMembershipOptions) :
    List ProviderPoolMembershipOptions :=
  let memberships := validateMemberships d.ids [] configured
  if memberships.isEmpty then [{ providerId := d.activeProviderId }] else memberships

def validatePool (d : PoolDefaults) (o : AnalysisPoolOptions) : AnalysisPoolOptions :=
  let poolId := lowered o.poolId
  { poolId := poolId
    name := orElse o.name (if poolId = "realtime" then "Realtime analysis" else "Background analysis")
    enabled := o.enabled
    mode := oneOf ["distribute","fallback","compare","verify"]
      (if poolId = "realtime" then "fallback" else "distribute") (lowered o.mode)
    profileIndex := within 0 ((d.profiles : ℤ)-1) o.profileIndex
    maxParallelRequests := within 1 16 o.maxParallelRequests
    verificationSamplePercent := within 0 100 o.verificationSamplePercent
    verifyAutomaticActions := o.verifyAutomaticActions
    verifySecurityRiskAtLeast := within 0 100 o.verifySecurityRiskAtLeast
    verifyBreakageRiskAtLeast := within 0 100 o.verifyBreakageRiskAtLeast
    memberships := poolMemberships d o.memberships }

/-- The pool of an id: the first that is configured, or else the default one. -/
def poolFor (d : PoolDefaults) (pools : List AnalysisPoolOptions) (poolId : String) :
    AnalysisPoolOptions :=
  match pools.find? fun p => lowered p.poolId = poolId with
  | some pool => validatePool d pool
  | none => defaultAnalysisPool poolId d.activeProviderId d.activeProfileIndex

def poolDefaults (providers : List LLMProviderOptions) (profiles : ℕ) (llm : LLMOptions) :
    PoolDefaults where
  ids := providers.map LLMProviderOptions.providerId
  activeProviderId :=
    ((providers[llm.activeProviderIndex.toNat]?).map LLMProviderOptions.providerId).getD ""
  activeProfileIndex := llm.activeProfileIndex
  profiles := profiles

/-- `options.llm_providers or [LLMProviderOptions()]`. -/
def providersOr (draws : ℕ → String) (providers : List LLMProviderOptions) : List LLMProviderOptions :=
  if providers.isEmpty then [{ providerId := draws 0 }] else providers

/-- `options.prompt_profiles or [PromptProfileOptions()]`. -/
def profilesOr (profiles : List PromptProfileOptions) : List PromptProfileOptions :=
  if profiles.isEmpty then [{}] else profiles

/-- `_validate`. The ids it draws are those of `draws`, by the position of the provider. -/
def validate (draws : ℕ → String) (o : Options) : Options :=
  let providers := validateLLMProviders draws 0 [] (providersOr draws o.llmProviders)
  let profiles := (profilesOr o.promptProfiles).map validateProfile
  let llm := validateLLM providers.length profiles.length o.llm
  let pools := poolDefaults providers profiles.length llm
  { schemaVersion := currentSchemaVersion
    logging := validateLogging o.logging
    notify := validateNotify o.notify
    scans := validateScans o.scans
    pihole := validatePihole o.pihole
    llm := llm
    research := validateResearch o.research
    updates := validateUpdates o.updates
    providerRegistry := validateProviderRegistry o.providerRegistry
    externalTrigger := validateExternalTrigger o.externalTrigger
    llmProviders := providers
    analysisPools := [poolFor pools o.analysisPools "realtime",poolFor pools o.analysisPools "background"]
    promptProfiles := profiles
    researchProviders := validateResearchProviders o.researchProviders
    ui := validateUI o.ui }

end Config
end WormholeObservatory
