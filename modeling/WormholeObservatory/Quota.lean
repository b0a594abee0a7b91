import WormholeObservatory.ProviderProfile
import WormholeObservatory.Tables
import Mathlib.Data.Rat.Floor

/-! The quota ledger: `reserve_quota`, `complete_quota` and `cancel_quota` over
the tables `quota_reservations` and `runtime_quota_state`.
Each operation is one `BEGIN IMMEDIATE` transaction, so it is a function from
ledger to ledger; a raised error rolls every change of the call back. -/
namespace WormholeObservatory
namespace Quota

inductive ReservationState
  | reserved | completed | cancelled
  deriving DecidableEq, Repr

structure QuotaRow where
  id : String
  scopeKey : String
  providerId : String
  poolId : String
  state : ReservationState
  domainCount : ℤ
  requestCount : ℤ
  inputTokens : ℤ
  outputTokens : ℤ
  units : ℚ
  createdAt : ℚ
  expiresAt : ℚ
  completedAt : Option ℚ
  deriving DecidableEq

structure QuotaReservation where
  reservationId : String
  scopeKey : String
  providerId : String
  poolId : String
  estimate : QuotaEstimate
  createdAt : ℚ
  expiresAt : ℚ

structure RuntimeQuotaState where
  scopeKey : String
  metric : Metric
  windowSeconds : ℤ
  limitAmount : ℚ
  remainingAmount : ℚ
  resetAt : ℚ
  observedAt : ℚ
  source : String := "live_header"

structure QuotaLedger where
  reservations : List QuotaRow
  runtime : Table (String × Metric × ℤ) RuntimeQuotaState

def QuotaLedger.empty : QuotaLedger := ⟨[],∅⟩

/-- What `reserve_quota` reads of its provider, profile and options. The scope
key is `quota_scope_key`: one text per account and model. -/
structure QuotaCaller where
  providerId : String
  scopeKey : String
  profile : ProviderLimitProfile
  options : LLMOptions

inductive QuotaError
  | unavailable (retryAt : ℚ)
  | duplicateId
  deriving DecidableEq

/-- `_metric_value`. -/
def metricValue (e : QuotaEstimate) : Metric → ℚ
  | .requests => e.requestCount
  | .inputTokens => e.inputTokens
  | .outputTokens => e.outputTokens
  | .totalTokens => e.totalTokens
  | .units => e.units
  | .other _ => 0

/-- `_row_metric_value`. -/
def rowMetricValue (r : QuotaRow) : Metric → ℚ
  | .requests => r.requestCount
  | .inputTokens => r.inputTokens
  | .outputTokens => r.outputTokens
  | .totalTokens => (r.inputTokens : ℚ)+r.outputTokens
  | .units => r.units
  | .other _ => 0

/-- `_effective_limits`: a remote provider nothing is known about gets one
conservative request limit. -/
def effectiveLimits (profile : ProviderLimitProfile) (options : LLMOptions) : List ProviderLimit :=
  if profile.limits ≠ [] ∨ profile.capability.isLocal ∨ profile.source = "user" then profile.limits
  else [{ metric := .requests, amount := max 1 options.unknownRemoteRequestsPerMinute,
          windowSeconds := 60, scope := "provider_model", source := "conservative_unknown" }]

def limitKey (limit : ProviderLimit) : Metric × ℤ := (limit.metric,limit.windowSeconds)

/-- The rows of `runtime_quota_state` for one scope that have not reset yet. -/
def liveStates (runtime : Table (String × Metric × ℤ) RuntimeQuotaState) (scopeKey : String)
    (now : ℚ) : List RuntimeQuotaState :=
  (runtime.select fun _ s => decide (s.scopeKey = scopeKey ∧ s.resetAt > now)).map Prod.snd

/-- Replace or add the limit a live header reported, keeping the user's cap. -/
def applyLiveState (combined : Table (Metric × ℤ) ProviderLimit) (state : RuntimeQuotaState) :
    Table (Metric × ℤ) ProviderLimit :=
  let key := (state.metric,state.windowSeconds)
  let existing := combined.lookup key
  let amount := match existing with
    | some limit => if limit.userCap > 0 then min state.limitAmount limit.userCap
        else state.limitAmount
    | none => state.limitAmount
  combined.insert key
    { metric := key.1, amount, windowSeconds := key.2, source := "live_header"
      scope := (existing.map (·.scope)).getD "live"
      userCap := (existing.map (·.userCap)).getD 0
      resetPolicy := (existing.map (·.resetPolicy)).getD .rolling }

/-- `_limits_with_live_state`. -/
def limitsWithLiveState (states : List RuntimeQuotaState) (limits : List ProviderLimit)
    (profile : ProviderLimitProfile) : List ProviderLimit :=
  if profile.source = "user" then limits
  else
    let combined : Table (Metric × ℤ) ProviderLimit :=
      limits.foldl (fun t limit => t.insert (limitKey limit) limit) ∅
    ((states.foldl applyLiveState combined).entries.map Sigma.snd).insertionSort fun a b =>
      a.metric.name < b.metric.name ∨
        (a.metric.name = b.metric.name ∧ a.windowSeconds ≤ b.windowSeconds)

/-- The amount a limit leaves after the safety margin. -/
def safeCap (limit : ProviderLimit) (safetyMarginPercent : ℚ) : ℚ :=
  limit.amount*(1-min 50 (max 0 safetyMarginPercent)/100)

/-- Background callers leave the realtime share of every cap alone. -/
def poolCap (limit : ProviderLimit) (poolId : String)
    (realtimeReservePercent safetyMarginPercent : ℚ) : ℚ :=
  if poolId = "background" then
    safeCap limit safetyMarginPercent*(1-min 90 (max 0 realtimeReservePercent)/100)
  else safeCap limit safetyMarginPercent

def utcDayStart (now : ℚ) : ℚ := ⌊now/86400⌋*86400

/-- The rows a limit counts at time `now`. -/
def inWindow (limit : ProviderLimit) (now createdAt : ℚ) : Bool :=
  match limit.resetPolicy with
  | .utcDay => utcDayStart now ≤ createdAt
  | .rolling => now-limit.windowSeconds < createdAt

def metricSum (rows : List QuotaRow) (metric : Metric) : ℚ :=
  (rows.map (rowMetricValue · metric)).sum

/-- The loop of `_retry_at_for_limit`: release the oldest rows until the request fits. -/
def drainUntil (metric : Metric) (candidate cap : ℚ) (windowSeconds : ℤ) :
    List QuotaRow → ℚ → ℚ → ℚ
  | [], _, retryAt => retryAt
  | row::rows, reduced, _ =>
    let reduced := reduced-rowMetricValue row metric
    let retryAt := row.createdAt+windowSeconds
    if reduced+candidate ≤ cap then retryAt
    else drainUntil metric candidate cap windowSeconds rows reduced retryAt

/-- `_retry_at_for_limit`. -/
def retryAtForLimit (rows : List QuotaRow) (metric : Metric) (candidate cap : ℚ)
    (windowSeconds : ℤ) (now : ℚ) : ℚ :=
  let current := metricSum rows metric
  if candidate > cap then now+max 1 windowSeconds
  else if current+candidate ≤ cap then 0
  else max now (drainUntil metric candidate cap windowSeconds rows current
    (now+max 1 windowSeconds))

/-- One turn of the loop of `_limit_retry_at`. -/
def retryAtOfLimit (rows : List QuotaRow) (estimate : QuotaEstimate) (poolId : String)
    (realtimeReservePercent safetyMarginPercent now retryAt : ℚ) (limit : ProviderLimit) : ℚ :=
  let candidate := metricValue estimate limit.metric
  if candidate ≤ 0 then retryAt
  else
    let cap := poolCap limit poolId realtimeReservePercent safetyMarginPercent
    let relevant := rows.filter fun row => inWindow limit now row.createdAt
    match limit.resetPolicy with
    | .utcDay =>
      if metricSum relevant limit.metric+candidate > cap then
        max retryAt (utcDayStart now+86400)
      else retryAt
    | .rolling =>
      max retryAt (retryAtForLimit relevant limit.metric candidate cap limit.windowSeconds now)

/-- `_limit_retry_at`. -/
def limitRetryAt (rows : List QuotaRow) (limits : List ProviderLimit) (estimate : QuotaEstimate)
    (poolId : String) (realtimeReservePercent safetyMarginPercent now : ℚ) : ℚ :=
  limits.foldl (retryAtOfLimit rows estimate poolId realtimeReservePercent safetyMarginPercent now) 0

/-- `_live_limit_retry_at`. -/
def liveLimitRetryAt (states : List RuntimeQuotaState) (rows : List QuotaRow)
    (estimate : QuotaEstimate) : ℚ :=
  states.foldl (fun retryAt state =>
    let used := metricSum (rows.filter fun row => row.createdAt > state.observedAt) state.metric
    if metricValue estimate state.metric+used > state.remainingAmount then
      max retryAt state.resetAt
    else retryAt) 0

/-- The first statement of a reservation: every overdue reservation is dropped,
whatever its scope. -/
def expireReservations (now : ℚ) (rows : List QuotaRow) : List QuotaRow :=
  rows.map fun r =>
    if r.state = .reserved ∧ r.expiresAt ≤ now then
      { r with state := .cancelled, completedAt := some now }
    else r

def counts (scopeKey : String) (r : QuotaRow) : Bool :=
  r.scopeKey = scopeKey && r.state ≠ .cancelled

/-- The rows of the scope that count, `ORDER BY created_at, id`. -/
def activeRows (scopeKey : String) (rows : List QuotaRow) : List QuotaRow :=
  (rows.filter (counts scopeKey)).insertionSort fun a b =>
    a.createdAt < b.createdAt ∨ (a.createdAt = b.createdAt ∧ a.id ≤ b.id)

def normalizedPool [CaseTables] (poolId : String) : String :=
  let folded := CaseTables.lower (strip poolId)
  if folded = "" then "background" else folded

/-- `reserve_quota`; `id` is the fresh identifier the call draws. -/
def reserveQuota [CaseTables] (caller : QuotaCaller) (estimate : QuotaEstimate) (poolId : String)
    (now : ℚ) (id : String) (ledger : QuotaLedger) :
    Except QuotaError (QuotaReservation × QuotaLedger) :=
  let pool := normalizedPool poolId
  let limits := effectiveLimits caller.profile caller.options
  let maximumWindow : ℤ := ((limits.map (·.windowSeconds)).max?).getD 300
  let expiresAt := now+max 300 maximumWindow
  let expired := expireReservations now ledger.reservations
  let rows := activeRows caller.scopeKey expired
  let states := liveStates ledger.runtime caller.scopeKey now
  let limitRetry := limitRetryAt rows (limitsWithLiveState states limits caller.profile) estimate
    pool caller.options.realtimeQuotaReservePercent caller.profile.safetyMarginPercent now
  let retryAt := max limitRetry (liveLimitRetryAt states rows estimate)
  if retryAt > now then .error (.unavailable (max 0 retryAt))
  else if expired.any (·.id = id) then .error .duplicateId
  else .ok
    (⟨id,caller.scopeKey,caller.providerId,pool,estimate,now,expiresAt⟩,
      { ledger with
        reservations := expired ++ [
          { id, scopeKey := caller.scopeKey, providerId := caller.providerId, poolId := pool
            state := .reserved, domainCount := max 1 estimate.domainCount
            requestCount := max 0 estimate.requestCount
            inputTokens := max 0 estimate.inputTokens
            outputTokens := max 0 estimate.outputTokens, units := max 0 estimate.units
            createdAt := now, expiresAt, completedAt := none }] })

/-- `_units_for_usage`. -/
def unitsForUsage (inputTokens outputTokens : ℤ) (profile : ProviderLimitProfile) : ℚ :=
  (max 0 inputTokens*profile.inputUnitsPerMillionTokens
    +max 0 outputTokens*profile.outputUnitsPerMillionTokens)/1000000

/-- `_normalized_usage`: a provider that reports nothing is charged its estimate. -/
def normalizedUsage (usage : Option ProviderUsage) (estimate : QuotaEstimate)
    (profile : Option ProviderLimitProfile) : ProviderUsage :=
  match usage with
  | none => ⟨estimate.inputTokens,estimate.outputTokens,estimate.totalTokens,estimate.units⟩
  | some u =>
    let silent := max 0 u.inputTokens = 0 ∧ max 0 u.outputTokens = 0
    let inputTokens := if silent then estimate.inputTokens else max 0 u.inputTokens
    let outputTokens := if silent then estimate.outputTokens else max 0 u.outputTokens
    let units := match profile with
      | some p => if max 0 u.units = 0 then unitsForUsage inputTokens outputTokens p else max 0 u.units
      | none => max 0 u.units
    ⟨inputTokens,outputTokens,max u.totalTokens (inputTokens+outputTokens),units⟩

def completeRow (selected : ProviderUsage) (now : ℚ) (r : QuotaRow) : QuotaRow :=
  { r with state := .completed, inputTokens := selected.inputTokens
           outputTokens := selected.outputTokens, units := selected.units
           completedAt := some now }

/-- `_save_runtime_state`. -/
def saveRuntimeState (runtime : Table (String × Metric × ℤ) RuntimeQuotaState)
    (state : RuntimeQuotaState) : Table (String × Metric × ℤ) RuntimeQuotaState :=
  runtime.insert (state.scopeKey,state.metric,state.windowSeconds) state

/-- `complete_quota`; `states` are the quota states read from the response headers. -/
def completeQuota (reservation : QuotaReservation) (usage : Option ProviderUsage)
    (profile : Option ProviderLimitProfile) (states : List RuntimeQuotaState) (now : ℚ)
    (ledger : QuotaLedger) : QuotaLedger :=
  let selected := normalizedUsage usage reservation.estimate profile
  { reservations := ledger.reservations.map fun r =>
      if r.id = reservation.reservationId ∧ r.state = .reserved then completeRow selected now r else r
    runtime := if profile.isSome then states.foldl saveRuntimeState ledger.runtime
      else ledger.runtime }

/-- `cancel_quota`. -/
def cancelQuota (reservation : QuotaReservation) (now : ℚ) (ledger : QuotaLedger) : QuotaLedger :=
  { ledger with
    reservations := ledger.reservations.map fun r =>
      if r.id = reservation.reservationId ∧ r.state = .reserved then
        { r with state := .cancelled, completedAt := some now }
      else r }

end Quota
end WormholeObservatory
