import WormholeObservatory.Models
import WormholeObservatory.Letters

/-! `behavior_change`: a classification is compared with the latest primary one of its
domain, and a change that is large enough sends it to review. -/
namespace WormholeObservatory
namespace Behavior

def historyLimit : ℕ := 6

def reviewScore : ℤ := 35

def highScore : ℤ := 50

def criticalScore : ℤ := 75

/-- What is compared of a classification, stored or current. -/
structure Snapshot where
  policy : String
  primaryTag : String
  tags : List String
  service : String
  serviceRole : String
  privacyRisk : ℤ
  securityRisk : ℤ
  breakageRisk : ℤ

/-- A row of `classification_runs`, with its `tags_json` decoded. -/
structure RunRow where
  id : ℤ
  domain : String
  isPrimary : Bool
  createdAt : ℤ
  snapshot : Snapshot
  provider : String := ""
  model : String := ""
  profile : String := ""

inductive SignalValue
  | text (value : String)
  | number (value : ℤ)
  | texts (values : List String)

/-- `int(value)` of a signal that holds a number. -/
def SignalValue.number? : SignalValue → Option ℤ
  | .number value => some value
  | _ => none

inductive Severity
  | none
  | low
  | medium
  | high
  | critical
  deriving DecidableEq

def Severity.name : Severity → String
  | .none => "none"
  | .low => "low"
  | .medium => "medium"
  | .high => "high"
  | .critical => "critical"

structure BehaviorChangeSignal where
  field : String
  previous : SignalValue
  current : SignalValue
  score : ℤ
  severity : Severity
  summary : String

structure BehaviorChangeReport where
  domain : String
  hasHistory : Bool
  score : ℤ := 0
  severity : Severity := .none
  requiresReview : Bool := false
  previousRunId : ℤ := 0
  previousCreatedAt : ℤ := 0
  previousProvider : String := ""
  previousModel : String := ""
  previousProfile : String := ""
  baselineConsistency : ℚ := 0
  signals : List BehaviorChangeSignal := []

section Compare

variable [CaseTables]

/-- `_primary_history`. -/
def primaryHistory (runs : List RunRow) (domain : String) (limit : ℕ) : List RunRow :=
  if domain = "" then []
  else
    let rows := runs.filter fun row => row.domain = domain && row.isPrimary
    (rows.insertionSort fun a b => [-a.createdAt,-a.id] ≤ [-b.createdAt,-b.id]).take (max 1 limit)

/-- `_classification_snapshot`. -/
def classificationSnapshot (c : Classification) : Snapshot where
  policy := c.policy.value
  primaryTag := c.category
  tags := (if c.tags = [] then [c.category] else c.tags).eraseDups
  service := c.service
  serviceRole := c.serviceRole.value
  privacyRisk := c.privacyRisk
  securityRisk := c.securityRisk
  breakageRisk := c.breakageRisk

/-- `_service_name`. -/
def serviceName (service : String) : String :=
  joinWith " " (words (CaseTables.casefold (strip service)))

/-- `_tags`. -/
def snapshotTags (s : Snapshot) : List String :=
  ((s.tags.filter fun tag => strip tag ≠ "").map fun tag =>
    replaceChar ' ' '_' (CaseTables.lower (strip tag))).eraseDups

/-- `_role_class`. -/
def roleClass (role : String) : String :=
  if role = "core" ∨ role = "shared" then "protected" else "non_protected"

/-- `_severity`. -/
def severityOf (score : ℤ) : Severity :=
  if score ≥ criticalScore then .critical
  else if score ≥ highScore then .high
  else if score ≥ reviewScore then .medium
  else if score > 0 then .low
  else .none

def policySignal (previous current : Snapshot) : List BehaviorChangeSignal :=
  let before := CaseTables.lower (orElse previous.policy "unknown")
  let after := CaseTables.lower (orElse current.policy "unknown")
  if before ≠ after then
    let decisive := decide ([before,after] ⊆ ["allow","deny"])
    [⟨"policy",.text before,.text after,if decisive then 45 else 22,
      if decisive then .high else .medium,"policy changed from "++before++" to "++after⟩]
  else []

def serviceSignal (previous current : Snapshot) : List BehaviorChangeSignal :=
  let before := serviceName previous.service
  let after := serviceName current.service
  if before ≠ "" ∧ after ≠ "" ∧ before ≠ after then
    [⟨"service",.text previous.service,.text current.service,25,.high,
      "classified service identity changed"⟩]
  else []

def roleSignal (previous current : Snapshot) : List BehaviorChangeSignal :=
  let before := CaseTables.lower (orElse previous.serviceRole "unknown")
  let after := CaseTables.lower (orElse current.serviceRole "unknown")
  if before ≠ after then
    let boundary := decide (roleClass before ≠ roleClass after)
    [⟨"service_role",.text before,.text after,if boundary then 30 else 12,
      if boundary then .high else .medium,"service role changed from "++before++" to "++after⟩]
  else []

/-- `_risk_signal`. -/
def riskSignal (field : String) (before after highDelta mediumDelta : ℤ) :
    List BehaviorChangeSignal :=
  let delta := |after-before|
  if delta < mediumDelta then []
  else
    let high := decide (delta ≥ highDelta)
    let direction := if after > before then "increased" else "decreased"
    [⟨field,.number before,.number after,if high then 22 else 10,if high then .high else .medium,
      replaceChar '_' ' ' field++" "++direction++" from "++toString before++" to "++toString after⟩]

def primaryTagSignal (previous current : Snapshot) : List BehaviorChangeSignal :=
  let before := orElse previous.primaryTag "unknown"
  let after := orElse current.primaryTag "unknown"
  if before ≠ after then
    [⟨"primary_tag",.text before,.text after,10,.medium,
      "primary tag changed from "++before++" to "++after⟩]
  else []

def tagsSignal (previous current : Snapshot) : List BehaviorChangeSignal :=
  let before := snapshotTags previous
  let after := snapshotTags current
  let shared := (before.filter (· ∈ after)).length
  let either := before.length+after.length-shared
  if before ≠ [] ∧ after ≠ [] ∧ shared ≠ either then
    let overlap : ℚ := shared/either
    if overlap < 1/4 then
      [⟨"tags",.texts (sortTexts before),.texts (sortTexts after),18,.high,
        "tag set changed substantially"⟩]
    else if overlap < 3/5 then
      [⟨"tags",.texts (sortTexts before),.texts (sortTexts after),8,.medium,
        "tag set changed materially"⟩]
    else []
  else []

/-- `_stable_signature`. -/
def stableSignature (s : Snapshot) : String × String × String × List String :=
  (CaseTables.lower (orElse s.policy "unknown"),serviceName s.service,
    CaseTables.lower (orElse s.serviceRole "unknown"),sortTexts (snapshotTags s))

/-- `_baseline_consistency`. -/
def baselineConsistency (baseline : Snapshot) (history : List RunRow) : ℚ :=
  let selected := history.take 5
  if selected = [] then 0
  else
    let signature := stableSignature baseline
    (selected.countP fun row => stableSignature row.snapshot = signature : ℕ)/selected.length

/-- A signal that calls for review whatever the score. -/
def BehaviorChangeSignal.hard (s : BehaviorChangeSignal) : Bool :=
  s.field = "policy" && s.severity = .high || s.field = "service_role" && s.severity = .high ||
    s.field = "security_risk" &&
      (s.current.number?.getD 0-s.previous.number?.getD 0 ≥ 25)

/-- The signals of `_compare_snapshots`, in the order they are found. -/
def changeSignals (previous current : Snapshot) : List BehaviorChangeSignal :=
  policySignal previous current++serviceSignal previous current++roleSignal previous current++
    riskSignal "security_risk" previous.securityRisk current.securityRisk 25 12++
    riskSignal "privacy_risk" previous.privacyRisk current.privacyRisk 30 15++
    riskSignal "breakage_risk" previous.breakageRisk current.breakageRisk 30 15++
    primaryTagSignal previous current++tagsSignal previous current

/-- `_compare_snapshots`. -/
def compareSnapshots (domain : String) (previous : RunRow) (current : Snapshot)
    (history : List RunRow) : BehaviorChangeReport :=
  let signals := changeSignals previous.snapshot current
  let score := min 100 (signals.map BehaviorChangeSignal.score).sum
  { domain := domain
    hasHistory := true
    score := score
    severity := severityOf score
    requiresReview := signals.any BehaviorChangeSignal.hard || decide (score ≥ reviewScore)
    previousRunId := previous.id
    previousCreatedAt := previous.createdAt
    previousProvider := previous.provider
    previousModel := previous.model
    previousProfile := previous.profile
    baselineConsistency := baselineConsistency previous.snapshot history
    signals := signals.insertionSort fun a b => -a.score::codes a.field ≤ -b.score::codes b.field }

/-- `behavior_change_for_classification`. -/
def behaviorChangeForClassification (runs : List RunRow) (c : Classification) :
    BehaviorChangeReport :=
  let domain := normalizeDomain c.domain
  match primaryHistory runs domain historyLimit with
  | [] => { domain := domain, hasHistory := false }
  | previous::rest => compareSnapshots domain previous (classificationSnapshot c) (previous::rest)

/-- `BehaviorChangeReport.review_reason`. -/
def BehaviorChangeReport.reviewReason (r : BehaviorChangeReport) : String :=
  if r.requiresReview then
    let summaries := joinWith "; " ((r.signals.take 3).map BehaviorChangeSignal.summary)
    let suffix := if summaries = "" then "" else " Key changes: "++summaries++"."
    "Historical behavior-change signal ("++r.severity.name++", score "++toString r.score++"/100)."++
      suffix++" Review before applying an automatic Pi-hole change."
  else ""

/-- A reason joined to an earlier one, unless it is already part of it. -/
def joinReason (earlier reason : String) : String :=
  if earlier = "" then reason
  else if contains earlier reason then earlier
  else earlier++" "++reason

/-- `apply_behavior_change_guard`. -/
def applyBehaviorChangeGuard (runs : List RunRow) (c : Classification) : Classification :=
  let report := behaviorChangeForClassification runs c
  if report.requiresReview then
    { c with needsReview := true, reviewReason := joinReason c.reviewReason report.reviewReason }
  else c

/-- The guard only ever adds a call for review. -/
structure OnlyReview (c c' : Classification) : Prop where
  domain : c'.domain = c.domain
  policy : c'.policy = c.policy
  short : c'.short = c.short
  tags : c'.tags = c.tags
  category : c'.category = c.category
  confidence : c'.confidence = c.confidence
  serviceRole : c'.serviceRole = c.serviceRole
  breakageRisk : c'.breakageRisk = c.breakageRisk
  needsReview : c.needsReview = true → c'.needsReview = true

theorem applyBehaviorChangeGuard_onlyReview (runs : List RunRow) (c : Classification) :
    OnlyReview c (applyBehaviorChangeGuard runs c) := by
  unfold applyBehaviorChangeGuard
  simp only
  split
  · exact ⟨rfl,rfl,rfl,rfl,rfl,rfl,rfl,rfl,fun _ => rfl⟩
  · exact ⟨rfl,rfl,rfl,rfl,rfl,rfl,rfl,rfl,id⟩

end Compare
end Behavior
end WormholeObservatory
