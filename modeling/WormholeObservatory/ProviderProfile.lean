import WormholeObservatory.Letters
import Mathlib.Data.NNRat.Defs

/-! Provider limit profiles and the option fields that the quota ledger and the
batch planner read. Amounts, percentages and times are exact rationals. -/
namespace WormholeObservatory

/-- The metrics of `_METRIC_COLUMNS`; a limit may carry any other name. -/
inductive Metric
  | requests | inputTokens | outputTokens | totalTokens | units | other (name : String)
  deriving DecidableEq, Repr

def Metric.name : Metric → String
  | .requests => "requests"
  | .inputTokens => "input_tokens"
  | .outputTokens => "output_tokens"
  | .totalTokens => "total_tokens"
  | .units => "units"
  | .other name => name

/-- `reset_policy`; every text but `utc_day` is treated as a rolling window. -/
inductive ResetPolicy
  | rolling | utcDay
  deriving DecidableEq, Repr

structure ProviderLimit where
  metric : Metric
  amount : ℚ
  windowSeconds : ℤ
  scope : String := "provider_model"
  source : String := "bundled_registry"
  userCap : ℚ := 0
  resetPolicy : ResetPolicy := .rolling
  deriving DecidableEq

structure ProviderCapability where
  contextTokens : ℤ := 0
  isLocal : Bool := false

/-- Every builder of a profile clamps the unit prices at zero. -/
structure ProviderLimitProfile where
  source : String := "unknown"
  capability : ProviderCapability := {}
  limits : List ProviderLimit := []
  inputUnitsPerMillionTokens : ℚ≥0 := 0
  outputUnitsPerMillionTokens : ℚ≥0 := 0
  maxDomainsPerRequest : ℤ := 0
  safetyMarginPercent : ℚ := 10

structure LLMOptions where
  realtimeQuotaReservePercent : ℚ := 20
  unknownRemoteRequestsPerMinute : ℤ := 2
  unknownRemoteMaxDomainsPerRequest : ℤ := 1
  domainsPerRequest : ℤ := 10

structure ProviderUsage where
  inputTokens : ℤ := 0
  outputTokens : ℤ := 0
  totalTokens : ℤ := 0
  units : ℚ := 0
  deriving DecidableEq

structure QuotaEstimate where
  domainCount : ℤ := 1
  requestCount : ℤ := 1
  inputTokens : ℤ := 0
  outputTokens : ℤ := 0
  units : ℚ := 0

def QuotaEstimate.totalTokens (e : QuotaEstimate) : ℤ := e.inputTokens+e.outputTokens

end WormholeObservatory
