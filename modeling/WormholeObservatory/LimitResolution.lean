import WormholeObservatory.ConfigOptions
import WormholeObservatory.Floats
import WormholeObservatory.OrderedDict
import WormholeObservatory.RegistryFormat

/-! From a registry entry to the limits of the quota check: the entry that matches a provider, the
caps of the user, and the limits that live headers report. Here amounts are floats as the program
has them, which need not be finite. -/
namespace WormholeObservatory
namespace Limits

open Config (LLMProviderOptions ProviderLimitOptions)
open Floats (PyFloat)
open Registry (Json Host ConversionError RegistryError ProviderRegistry DigitTables field)

/-- The host of the registry, with the conversions themselves and what is made of names. -/
structure Reader (β : Type) extends Host β where
  toFloat : Json → Except ConversionError PyFloat
  toInt : Json → Except ConversionError ℤ
  /-- `dict(x)`, unless that raises. -/
  dictOf : Json → Option (List (String × Json))
  /-- `urlparse(url).hostname or ""`, unless that raises. -/
  hostname : String → Option String
  fnmatchcase : String → String → Bool
  toFloat_zero : toFloat (.number (some 0) "0") = .ok (.finite 0)
  toInt_zero : toInt (.number (some 0) "0") = .ok 0
  floatAtMostZero_eq : ∀ x, floatAtMostZero x = (toFloat x).map fun f => PyFloat.le f (.finite 0)
  intAtMostZero_eq : ∀ x, intAtMostZero x = (toInt x).map fun n => decide (n ≤ 0)

structure ProviderCapability where
  contextTokens : ℤ := 0
  maxOutputTokens : ℤ := 0
  structuredOutput : String := "auto"
  nativeBrowsing : Bool := false
  isLocal : Bool := false
  deprecated : Bool := false

structure ProviderLimit where
  metric : String
  amount : PyFloat
  windowSeconds : ℤ
  scope : String := "provider_model"
  source : String := "bundled_registry"
  userCap : PyFloat := .finite 0
  resetPolicy : String := "rolling"
  deriving DecidableEq

structure ProviderLimitProfile where
  entryId : String := ""
  source : String := "unknown"
  freeTier : String := "unknown"
  freeTierNote : String := ""
  sourceUrl : String := ""
  capability : ProviderCapability := {}
  limits : List ProviderLimit := []
  inputUnitsPerMillionTokens : PyFloat := .finite 0
  outputUnitsPerMillionTokens : PyFloat := .finite 0
  maxDomainsPerRequest : ℤ := 0
  safetyMarginPercent : ℚ := 10
  quotaGroup : String := ""

/-- A row of `runtime_quota_state`. A column that is `REAL NOT NULL` holds no NaN. -/
structure LiveRow where
  scopeKey : String
  metric : String
  windowSeconds : ℤ
  limitAmount : PyFloat
  resetAt : PyFloat
  isNumber : limitAmount ≠ .nan

abbrev LimitKey := String × ℤ

def limitKey (limit : ProviderLimit) : LimitKey := (limit.metric,limit.windowSeconds)

def rowKey (row : LiveRow) : LimitKey := (row.metric,row.windowSeconds)

/-- What raises has no value. -/
def present {α : Type} : Option α → Except RegistryError α
  | some x => .ok x
  | none => .error .other

def converted {α : Type} : Except ConversionError α → Except RegistryError α
  | .ok x => .ok x
  | .error _ => .error .other

/-- `x or 0`. -/
def orZero (x : Json) : Json := if x.truthy then x else .number (some 0) "0"

section Resolution

variable [CaseTables] [DigitTables] {β : Type} (reader : Reader β)

/-- `_is_local_provider`. -/
def isLocalProvider (provider : LLMProviderOptions) : Except RegistryError Bool := do
  let host ← present (reader.hostname provider.baseUrl)
  return decide (CaseTables.lower host ∈ ["localhost","127.0.0.1","::1"])

/-- One turn of the loop over the model patterns. -/
def patternScore (model : String) (score : ℕ) (patternValue : Json) : ℕ :=
  let pattern := CaseTables.lower (strip patternValue.display)
  if pattern = "" then score
  else if pattern = model then max score 4
  else if model ≠ "" ∧ reader.fnmatchcase model pattern then max score 1
  else score

/-- `_entry_match_score`. -/
def entryMatchScore (entry : List (String × Json)) (provider : LLMProviderOptions) :
    Except RegistryError ℕ := do
  let presetIds ← present (field entry "preset_ids").items
  let hosts ← present (field entry "base_url_hosts").items
  let providerHost ← present (reader.hostname provider.baseUrl)
  let folded := fun (item : Json) => CaseTables.lower (strip item.display)
  let identityScore :=
    if CaseTables.lower (strip provider.presetId) ∈ presetIds.map folded then 4
    else if CaseTables.lower providerHost ≠ "" ∧ CaseTables.lower providerHost ∈ hosts.map folded then 2
    else 0
  if identityScore = 0 then return 0
  else do
    let models ← present (field entry "models").items
    let modelScore :=
      models.foldl (patternScore reader (CaseTables.lower (strip provider.model))) 0
    return if modelScore = 0 then 0 else identityScore+modelScore

/-- The entry with the highest score, the first of several, if any has one. -/
def matchedEntry (registry : ProviderRegistry) (provider : LLMProviderOptions) :
    Except RegistryError (Option (List (String × Json))) := do
  let scores ← registry.entries.mapM fun entry => entryMatchScore reader entry provider
  let found := (registry.entries.zip scores).filter fun pair => 0 < pair.2
  return (found.argmax Prod.snd).map Prod.fst

/-- A limit of the entry. -/
def parsedLimit (source : String) : Json → Except RegistryError ProviderLimit
  | .object item _ => do
    let metric ← present (item.lookup "metric")
    let amount ← present (item.lookup "amount")
    let amount ← converted (reader.toFloat amount)
    let window ← present (item.lookup "window_seconds")
    let window ← converted (reader.toInt window)
    return {
      metric := metric.display
      amount := amount
      windowSeconds := window
      scope := (field item "scope").textOr "provider_model"
      source := source
      resetPolicy := (field item "reset_policy").textOr "rolling" }
  | _ => .error .other

def entryLimits (source : String) (entry : List (String × Json)) :
    Except RegistryError (List ProviderLimit) := do
  let items ← present (field entry "limits").items
  items.mapM (parsedLimit reader source)

def entryCapability (entry : List (String × Json)) : Except RegistryError ProviderCapability := do
  let value := field entry "capabilities"
  let capabilities ← if value.truthy then present (reader.dictOf value) else .ok []
  let contextTokens ← converted (reader.toInt (orZero (field capabilities "context_tokens")))
  let maxOutputTokens ← converted (reader.toInt (orZero (field capabilities "max_output_tokens")))
  return {
    contextTokens := max 0 contextTokens
    maxOutputTokens := max 0 maxOutputTokens
    structuredOutput := (field capabilities "structured_output").textOr "auto"
    nativeBrowsing := (field capabilities "native_browsing").truthy
    isLocal := (field capabilities "local").truthy
    deprecated := (field capabilities "deprecated").truthy }

/-- The prices of the entry for input and output. -/
def entryUnitCosts (entry : List (String × Json)) : Except RegistryError (PyFloat × PyFloat) := do
  let value := field entry "unit_costs"
  let unitCosts ← if value.truthy then present (reader.dictOf value) else .ok []
  let input ← converted (reader.toFloat (orZero (field unitCosts "input_tokens_per_million")))
  let output ← converted (reader.toFloat (orZero (field unitCosts "output_tokens_per_million")))
  return (PyFloat.max (.finite 0) input,PyFloat.max (.finite 0) output)

/-- The profile of an entry, the last part of `_profile_from_registry`. -/
def profileOfEntry (provider : LLMProviderOptions) (source : String) (entry : List (String × Json)) :
    Except RegistryError ProviderLimitProfile := do
  let capability ← entryCapability reader entry
  let limits ← entryLimits reader source entry
  let costs ← entryUnitCosts reader entry
  return {
    entryId := (field entry "entry_id").textOr ""
    source := source
    freeTier := (field entry "free_tier").textOr "unknown"
    freeTierNote := (field entry "free_tier_note").textOr ""
    sourceUrl := (field entry "source_url").textOr ""
    capability := capability
    limits := limits
    inputUnitsPerMillionTokens := costs.1
    outputUnitsPerMillionTokens := costs.2
    maxDomainsPerRequest := max 0 provider.limits.maxDomainsPerRequest
    safetyMarginPercent := provider.limits.safetyMarginPercent
    quotaGroup := orElse provider.limits.quotaGroup (strip ((field entry "quota_group").textOr "")) }

/-- The capability of a provider that no entry describes. -/
def ownCapability (provider : LLMProviderOptions) (isLocal : Bool) : ProviderCapability where
  contextTokens := max 0 provider.limits.contextTokens
  maxOutputTokens := max 1 provider.maxOutputTokens
  structuredOutput := provider.structuredOutput
  isLocal := isLocal

/-- The profile of a provider that is local or unknown. -/
def profileWithoutEntry (provider : LLMProviderOptions) (source : String) (isLocal : Bool) :
    ProviderLimitProfile where
  source := source
  capability := ownCapability provider isLocal
  maxDomainsPerRequest := max 0 provider.limits.maxDomainsPerRequest
  safetyMarginPercent := provider.limits.safetyMarginPercent
  quotaGroup := provider.limits.quotaGroup

/-- `_profile_from_registry`. -/
def profileFromRegistry (provider : LLMProviderOptions) (registry : ProviderRegistry) :
    Except RegistryError ProviderLimitProfile := do
  if ← isLocalProvider reader provider then return profileWithoutEntry provider "local" true
  else
    match ← matchedEntry reader registry provider with
    | none => return profileWithoutEntry provider "unknown" false
    | some entry => profileOfEntry reader provider registry.source entry

/-! Caps of the user. -/

/-- The fields of `_configured_limits`, with the amount as a float unless it is too large for one. -/
def configuredFields (configured : ProviderLimitOptions) : List (LimitKey × Option PyFloat) :=
  [(("requests",60),Floats.ofInt configured.requestsPerMinute),
    (("requests",3600),Floats.ofInt configured.requestsPerHour),
    (("requests",86400),Floats.ofInt configured.requestsPerDay),
    (("input_tokens",60),Floats.ofInt configured.inputTokensPerMinute),
    (("output_tokens",60),Floats.ofInt configured.outputTokensPerMinute),
    (("total_tokens",60),Floats.ofInt configured.tokensPerMinute),
    (("total_tokens",3600),Floats.ofInt configured.tokensPerHour),
    (("total_tokens",86400),Floats.ofInt configured.tokensPerDay),
    (("units",86400),some (.finite configured.unitsPerDay))]

def configuredLimit (source : String) (entry : LimitKey × PyFloat) : ProviderLimit where
  metric := entry.1.1
  amount := entry.2
  windowSeconds := entry.1.2
  scope := "configured"
  source := source

/-- `_configured_limits`. -/
def configuredLimits (configured : ProviderLimitOptions) (source : String) :
    Except RegistryError (List ProviderLimit) := do
  let amounts ← (configuredFields configured).mapM fun entry =>
    (present entry.2).map fun amount => (entry.1,amount)
  return (amounts.filter fun entry => PyFloat.lt (.finite 0) entry.2).map (configuredLimit source)

/-- `_manual_profile`. -/
def manualProfile (provider : LLMProviderOptions) (source : String) :
    Except RegistryError ProviderLimitProfile := do
  let isLocal ← isLocalProvider reader provider
  let limits ← configuredLimits provider.limits source
  return { profileWithoutEntry provider source isLocal with limits := limits }

/-- The limit that a cap leaves, beside the one known so far. -/
def cappedLimit (cap : ProviderLimit) : Option ProviderLimit → ProviderLimit
  | none => { cap with source := "user_cap", userCap := cap.amount }
  | some existing =>
    { existing with amount := PyFloat.min existing.amount cap.amount, userCap := cap.amount }

/-- One turn of the loop of `_apply_user_caps`. -/
def applyCap (combined : OrderedDict LimitKey ProviderLimit) (cap : ProviderLimit) :
    OrderedDict LimitKey ProviderLimit :=
  combined.set (limitKey cap) (cappedLimit cap (combined.get? (limitKey cap)))

/-- `{(limit.metric, limit.window_seconds): limit for limit in limits}`. -/
def byKey (limits : List ProviderLimit) : OrderedDict LimitKey ProviderLimit :=
  OrderedDict.ofItems (limits.map fun limit => (limitKey limit,limit))

/-- `sorted(combined.values(), key=..)`. -/
def sortedLimits (combined : OrderedDict LimitKey ProviderLimit) : List ProviderLimit :=
  combined.values.insertionSort fun a b =>
    toLex (codes a.metric,a.windowSeconds) ≤ toLex (codes b.metric,b.windowSeconds)

/-- `_minimum_positive`. -/
def minimumPositive (first second : ℤ) : ℤ := (([first,second].filter (0 < ·)).min?).getD 0

/-- The profile that `_apply_user_caps` builds from the caps. -/
def cappedProfile (base : ProviderLimitProfile) (provider : LLMProviderOptions)
    (caps : List ProviderLimit) : ProviderLimitProfile where
  entryId := base.entryId
  source := "user_cap+"++base.source
  freeTier := base.freeTier
  freeTierNote := base.freeTierNote
  sourceUrl := base.sourceUrl
  capability := { base.capability with
    contextTokens := minimumPositive base.capability.contextTokens provider.limits.contextTokens }
  limits := sortedLimits (caps.foldl applyCap (byKey base.limits))
  inputUnitsPerMillionTokens := base.inputUnitsPerMillionTokens
  outputUnitsPerMillionTokens := base.outputUnitsPerMillionTokens
  maxDomainsPerRequest :=
    minimumPositive base.maxDomainsPerRequest provider.limits.maxDomainsPerRequest
  safetyMarginPercent := provider.limits.safetyMarginPercent
  quotaGroup := orElse provider.limits.quotaGroup base.quotaGroup

/-- `_apply_user_caps`. -/
def applyUserCaps (base : ProviderLimitProfile) (provider : LLMProviderOptions) :
    Except RegistryError ProviderLimitProfile := do
  let manual ← manualProfile reader provider "user"
  return cappedProfile base provider manual.limits

/-- `resolve_provider_limit_profile`. -/
def resolveProviderLimitProfile (provider : LLMProviderOptions) (registry : ProviderRegistry) :
    Except RegistryError ProviderLimitProfile := do
  let profile ← profileFromRegistry reader provider registry
  if provider.limits.mode = "manual" then manualProfile reader provider "user"
  else if provider.limits.mode = "auto_cap" then applyUserCaps reader profile provider
  else return { profile with
    safetyMarginPercent := provider.limits.safetyMarginPercent
    quotaGroup := orElse provider.limits.quotaGroup profile.quotaGroup }

end Resolution

/-! The limits of the quota check. -/

/-- `_effective_limits`. -/
def effectiveLimits (profile : ProviderLimitProfile) (unknownRemoteRequestsPerMinute : ℤ) :
    List ProviderLimit :=
  if profile.limits ≠ [] ∨ profile.capability.isLocal ∨ profile.source = "user" then profile.limits
  else [{ metric := "requests", amount := .finite (max 1 unknownRemoteRequestsPerMinute),
          windowSeconds := 60, scope := "provider_model", source := "conservative_unknown" }]

/-- The rows of one scope that have not reset yet. -/
def liveRows (rows : List LiveRow) (scopeKey : String) (now : PyFloat) : List LiveRow :=
  rows.filter fun row => row.scopeKey = scopeKey && PyFloat.lt now row.resetAt

/-- The limit that a row stands for, beside the one known so far. -/
def liveLimit (row : LiveRow) : Option ProviderLimit → ProviderLimit
  | none =>
    { metric := row.metric, amount := row.limitAmount, windowSeconds := row.windowSeconds
      scope := "live", source := "live_header" }
  | some existing =>
    { metric := row.metric
      amount := if PyFloat.lt (.finite 0) existing.userCap then
        PyFloat.min row.limitAmount existing.userCap else row.limitAmount
      windowSeconds := row.windowSeconds
      scope := existing.scope
      source := "live_header"
      userCap := existing.userCap
      resetPolicy := existing.resetPolicy }

/-- One turn of the loop of `_limits_with_live_state`. -/
def applyLiveRow (combined : OrderedDict LimitKey ProviderLimit) (row : LiveRow) :
    OrderedDict LimitKey ProviderLimit :=
  combined.set (rowKey row) (liveLimit row (combined.get? (rowKey row)))

/-- `_limits_with_live_state`. -/
def limitsWithLiveState (rows : List LiveRow) (scopeKey : String) (now : PyFloat)
    (limits : List ProviderLimit) (profile : ProviderLimitProfile) : List ProviderLimit :=
  if profile.source = "user" then limits
  else sortedLimits ((liveRows rows scopeKey now).foldl applyLiveRow (byKey limits))

end Limits
end WormholeObservatory
