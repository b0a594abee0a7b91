import WormholeObservatory.ConfigValidation
import WormholeObservatory.Credentials

/-! Loading and saving `options.json`. A file that `save_options` wrote has every key of the
present schema, so of `_migrate` the branches for older files are left out: names of fields that
are gone and defaults of fields that are missing. The accesses to the store that a call makes
are answered one by one. -/
namespace WormholeObservatory
namespace Config

/-- `known_default_systems`: the `system` texts that earlier versions had as their default. -/
def knownDefaultSystems : List String :=
  ["You classify DNS domains for a Pi-hole v6 administrator. Use the supplied evidence, distinguish facts from inference, and prefer manual review when evidence is weak or blocking may break an important service.",
   "You classify DNS domains for a Pi-hole v6 administrator. Start with the supplied domain dossier and distinguish verified facts from inference. If the selected model and API perform live web search without an additional tool request, independently verify the exact domain using official vendor documentation, GitHub code, issues and discussions, Pi-hole community reports, reputable blocklist repositories, and credible user reports. Never claim to have searched the web when browsing is not available. Include useful source URLs in details when known, and prefer manual review when evidence is weak or blocking may break an important service."]

variable [LetterTables]

/-! `_migrate`, section by section. -/

def migratePihole (o : PiHoleOptions) : PiHoleOptions :=
  { o with
    baseUrl := orElse o.baseUrl "http://pi.hole"
    caBundlePath := strip o.caBundlePath }

def migrateLogging (o : LoggingOptions) : LoggingOptions :=
  { o with filename := orElse o.filename "pihole_manager.log" }

def insertColumn (column : String) (position : ℕ) (columns : List String) : List String :=
  if column ∈ columns then columns else columns.insertIdx (min position columns.length) column

def migrateColumns (columns : List String) : List String :=
  insertColumn "queued" 2 (insertColumn "order" 1 columns)

/-- The columns of the review table; every load puts the two newer ones in. -/
def migrateReview (tables : OrderedDict String (List String)) : OrderedDict String (List String) :=
  let columns := (tables.get? "review").getD []
  if columns = [] then tables else tables.set "review" (migrateColumns columns)

def migrateUI (o : UIOptions) : UIOptions :=
  { o with
    tableVisibleColumns := migrateReview o.tableVisibleColumns
    tableColumnOrder := migrateReview o.tableColumnOrder }

def migrateProfile (o : PromptProfileOptions) : PromptProfileOptions :=
  if lowered o.name = "balanced" ∧ strip o.system ∈ knownDefaultSystems then
    { o with system := defaultSystem }
  else o

def migrateResearchProviders (providers : List ResearchProviderOptions) : List ResearchProviderOptions :=
  let kept := (providers.filter fun p => lowered p.kind ∈ supportedResearchKinds).map fun p =>
    { p with kind := lowered p.kind }
  kept++defaultResearchProviders.filter fun p => p.kind ∉ kept.map ResearchProviderOptions.kind

/-- The suffixes that make an id free; each makes it longer, so the ids in use bound their number. -/
def freeId (used : List String) : ℕ → ℕ → String → String
  | 0,_,candidate => candidate
  | fuel+1,suffix,candidate =>
    if candidate ∈ used then freeId used fuel (suffix+1) (candidate++"-"++toString suffix) else candidate

/-- `_migrated_provider_id`; `digest` stands for the first twenty digits of the SHA-256 hash. -/
def migratedProviderId (digest : String → String) (index : ℕ) (used : List String)
    (p : LLMProviderOptions) : String :=
  let configured := strip p.providerId
  if configured ≠ "" ∧ configured ∉ used then configured
  else
    let identity := joinWith "\x00" [toString index,p.name,p.baseUrl,p.model]
    freeId used used.length 2 ("provider-"++digest identity)

def migrateLLMProviders (digest : String → String) :
    ℕ → List String → List LLMProviderOptions → List LLMProviderOptions
  | _,_,[] => []
  | index,used,p::ps =>
    let providerId := migratedProviderId digest index used p
    { p with providerId := providerId }::migrateLLMProviders digest (index+1) (providerId::used) ps

/-- The pools: memberships of providers that are gone go, and pools that are missing come. -/
def migratePools (providers : List LLMProviderOptions) (llm : LLMOptions)
    (pools : List AnalysisPoolOptions) : List AnalysisPoolOptions :=
  let ids := providers.map LLMProviderOptions.providerId
  let activeIndex := within 0 ((providers.length : ℤ)-1) llm.activeProviderIndex
  let activeProviderId := ((providers[activeIndex.toNat]?).map LLMProviderOptions.providerId).getD ""
  let kept := pools.map fun pool =>
    { pool with memberships := pool.memberships.filter fun m => strip m.providerId ∈ ids }
  kept++(["realtime","background"].filter fun poolId => poolId ∉ kept.map fun p => lowered p.poolId).map
    fun poolId => defaultAnalysisPool poolId activeProviderId (max 0 llm.activeProfileIndex)

structure UnsupportedConfigVersionError where
  sourceVersion : ℤ

/-- `_migrate`, on a file that has every key. -/
def migrate (digest : String → String) (draws : ℕ → String) (o : Options) :
    Except UnsupportedConfigVersionError Options :=
  if o.schemaVersion > currentSchemaVersion then .error ⟨o.schemaVersion⟩
  else
    let migrated := migrateLLMProviders digest 0 [] o.llmProviders
    let providers :=
      if migrated.isEmpty then migrateLLMProviders digest 0 [] [{ providerId := draws 0 }] else migrated
    .ok
      { o with
        schemaVersion := currentSchemaVersion
        logging := migrateLogging o.logging
        pihole := migratePihole o.pihole
        llmProviders := providers
        analysisPools := migratePools providers o.llm o.analysisPools
        promptProfiles := o.promptProfiles.map migrateProfile
        researchProviders := migrateResearchProviders o.researchProviders
        ui := migrateUI o.ui }

/-- `options.json`: not there, not to be read as options, or with options in it. -/
inductive OptionsFile
  | missing
  | unreadable
  | stored (payload : Options)

/-- What the store answers to the accesses of a call: the reads and the copies of
`hydrate_credentials` and the accesses of `secure_options_payload`, by the place of the slot. -/
structure Accesses where
  reads : ℕ → Bool
  writes : ℕ → Bool
  answers : ℕ → Bool

/-- What a call leaves behind: the options in hand, the file and the store. -/
structure Outcome where
  options : Options
  file : OptionsFile
  vault : Vault

/-- `save_options`. The options in hand are the validated ones, since `_validate` works in place. -/
def saveOptions (draws : ℕ → String) (answers : ℕ → Bool) (o : Options) (vault : Vault) : Outcome :=
  let validated := validate draws o
  let secured := secureOptionsPayload answers validated vault
  { options := validated
    file := .stored secured.1
    vault := secured.2 }

/-- `load_options`. An empty list of profiles gets its default from `_validate`, if not before. -/
def loadOptions (digest : String → String) (draws : ℕ → String) (accesses : Accesses)
    (file : OptionsFile) (vault : Vault) : Except UnsupportedConfigVersionError Outcome :=
  match file with
  | .missing =>
    let hydrated := hydrateCredentials accesses.reads accesses.writes
      (validate draws (defaultOptions (draws 0))) vault
    .ok (saveOptions draws accesses.answers hydrated.1 hydrated.2.1)
  | .unreadable =>
    .ok { options := validate draws (defaultOptions (draws 0)), file := file, vault := vault }
  | .stored payload =>
    match migrate digest draws payload with
    | .error e => .error e
    | .ok raw =>
      let hydrated := hydrateCredentials accesses.reads accesses.writes (validate draws raw) vault
      if hydrated.2.2 then .ok (saveOptions draws accesses.answers hydrated.1 hydrated.2.1)
      else .ok { options := hydrated.1, file := file, vault := hydrated.2.1 }

end Config
end WormholeObservatory
