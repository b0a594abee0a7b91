import WormholeObservatory.Floats
import WormholeObservatory.Firsts
import WormholeObservatory.Letters

/-! The quality of a finding, and the findings that contradict each other. Arithmetic is that of
floats: the result of every operation is the nearest one. -/
namespace WormholeObservatory
namespace Quality

open Floats

/-- What is read of a finding. A text that is missing is empty, a confidence that is no number is 0. -/
structure Finding where
  provider : String := ""
  verdict : String := ""
  signalType : String := ""
  kind : String := ""
  /-- `raw_data["wormhole_source_kind"]`. -/
  sourceKind : String := ""
  confidence : PyFloat := .finite 0
  expiresAt : ℤ := 0

/-- `_SOURCE_BASE_SCORES`. -/
def sourceBaseScores : List (String × ℚ) :=
  [("phishtank",99/100),("threatfox",97/100),("virustotal",93/100),("disconnect_tracking",92/100),
    ("adguard_services",90/100),("rdap",89/100),("dns_records",87/100),("ripestat",85/100),
    ("cloudflare_radar",84/100),("urlscan",80/100),("netcraft",70/100),("hagezi_tif_mini",92/100),
    ("easyprivacy_trackingservers",91/100),("urlhaus",99/100),("crtsh",94/100),
    ("google_safe_browsing",99/100),("compatibility_profile",98/100)]

/-- `_EVIDENCE_KIND_TO_SOURCE_KIND`. -/
def evidenceKindToSourceKind : List (String × String) :=
  [("phishing_database","phishtank"),("ioc_database","threatfox"),("threat_intelligence","virustotal"),
    ("tracker_catalog","disconnect_tracking"),("service_catalog","adguard_services"),
    ("registration","rdap"),("dns_records","dns_records"),("network_routing","ripestat"),
    ("domain_popularity","cloudflare_radar"),("archived_web_scan","urlscan"),
    ("site_infrastructure","netcraft"),("malware_url_host","urlhaus")]

inductive Dimension
  | security
  | privacy
  deriving DecidableEq

def Dimension.text : Dimension → String
  | .security => "security"
  | .privacy => "privacy"

inductive Side
  | harmful
  | safe
  | tracking
  | nonTracking
  deriving DecidableEq

structure Stance where
  dimension : Dimension
  side : Side
  strength : ℚ

/-- `_VERDICT_STANCES`. -/
def verdictStances : List (String × Stance) :=
  [("malicious",⟨.security,.harmful,1⟩),("phishing",⟨.security,.harmful,1⟩),
    ("malware",⟨.security,.harmful,1⟩),("command_and_control",⟨.security,.harmful,1⟩),
    ("malicious_scan",⟨.security,.harmful,nearest (85/100)⟩),
    ("suspicious",⟨.security,.harmful,nearest (65/100)⟩),
    ("benign",⟨.security,.safe,1⟩),("safe",⟨.security,.safe,1⟩),
    ("clean",⟨.security,.safe,nearest (9/10)⟩),("trusted",⟨.security,.safe,nearest (9/10)⟩),
    ("advertising",⟨.privacy,.tracking,nearest (9/10)⟩),
    ("analytics",⟨.privacy,.tracking,nearest (85/100)⟩),
    ("cross_site_tracking",⟨.privacy,.tracking,1⟩),
    ("email_tracking",⟨.privacy,.tracking,nearest (9/10)⟩),
    ("social_tracking",⟨.privacy,.tracking,nearest (8/10)⟩),
    ("tracker",⟨.privacy,.tracking,nearest (85/100)⟩),
    ("non_tracking",⟨.privacy,.nonTracking,nearest (9/10)⟩),
    ("privacy_safe",⟨.privacy,.nonTracking,1⟩)]

/-- `_OPPOSING_STANCES`. -/
def opposing : Side → Side → Bool
  | .harmful,.safe => true
  | .safe,.harmful => true
  | .tracking,.nonTracking => true
  | .nonTracking,.tracking => true
  | _,_ => false

/-- `_clamp`. What is no number becomes 1. -/
def clamp : PyFloat → ℚ
  | .finite q => max 0 (min 1 q)
  | .posInf => 1
  | .negInf => 0
  | .nan => 1

theorem clamp_eq (x : PyFloat) :
    PyFloat.max (.finite 0) (PyFloat.min (.finite 1) x) = .finite (clamp x) := by
  cases x with
  | finite q => rw [PyFloat.min_finite,PyFloat.max_finite,clamp]
  | posInf => rfl
  | negInf => rfl
  | nan => rfl

inductive Severity
  | high
  | medium
  | low
  deriving DecidableEq

/-- `order`. -/
def Severity.rank : Severity → ℕ
  | .high => 0
  | .medium => 1
  | .low => 2

/-- `_contradiction_severity`. -/
def contradictionSeverity (confidence : ℚ) : Severity :=
  if nearest (8/10) ≤ confidence then .high
  else if nearest (6/10) ≤ confidence then .medium
  else .low

structure EvidenceContradiction where
  dimension : Dimension
  leftProvider : String
  leftVerdict : String
  rightProvider : String
  rightVerdict : String
  severity : Severity
  confidence : ℚ
  reason : String
  deriving DecidableEq

section Scores

variable [CaseTables]

/-- `source_kind_for`. -/
def sourceKindFor (f : Finding) : String :=
  let explicit := CaseTables.lower (strip f.sourceKind)
  let kind := CaseTables.lower (strip f.kind)
  if explicit ≠ "" then explicit
  else (evidenceKindToSourceKind.lookup kind).getD (orElse kind "unknown")

/-- `score_finding(finding).evidence_score`, where the clock shows `now`. -/
def evidenceScore (now : ℤ) (f : Finding) : ℚ :=
  let source := nearest ((sourceBaseScores.lookup (sourceKindFor f)).getD (65/100))
  let confidence := clamp f.confidence
  let score := nearest (nearest (source*nearest (65/100))+nearest (confidence*nearest (35/100)))
  let score := if 0 < f.expiresAt ∧ f.expiresAt < now then nearest (score*(75/100)) else score
  clamp (.finite score)

/-! Contradictions. -/

/-- `str(finding.verdict or "unknown").strip().lower()`. -/
def verdictOf (f : Finding) : String := CaseTables.lower (strip (orElse f.verdict "unknown"))

/-- `str(finding.provider or "Unknown source")`. -/
def providerOf (f : Finding) : String := orElse f.provider "Unknown source"

structure Candidate where
  finding : Finding
  stance : Stance

/-- A finding that takes a stance in the dimension of its signals. -/
def candidate (f : Finding) : Option Candidate := do
  let stance ← verdictStances.lookup (CaseTables.lower (strip f.verdict))
  let signalType := CaseTables.lower (strip f.signalType)
  if signalType ≠ "" ∧ signalType ≠ stance.dimension.text ∧ signalType ≠ "behavior" then none
  else some ⟨f,stance⟩

/-- Every member with each one after it. -/
def pairs {α : Type} : List α → List (α × α)
  | [] => []
  | x::xs => xs.map (x,·)++pairs xs

/-- Two stances in one dimension that oppose each other. -/
def opposed (l r : Candidate) : Bool :=
  decide (l.stance.dimension = r.stance.dimension) && opposing l.stance.side r.stance.side

/-- `f"{provider.casefold()}\0{verdict}"`. -/
def keyText (f : Finding) : String :=
  CaseTables.casefold (providerOf f) ++ String.ofList ['\x00'] ++ verdictOf f

/-- `sorted((left, right))`. -/
def sortedPair (a b : String) : String × String := if codes b < codes a then (b,a) else (a,b)

/-- The key a contradiction is reported once for. -/
def pairKey (pair : Candidate × Candidate) : Dimension × (String × String) :=
  (pair.1.stance.dimension,sortedPair (keyText pair.1.finding) (keyText pair.2.finding))

/-- `min(left_quality, right_quality, left_strength, right_strength)`. -/
def pairConfidence (now : ℤ) (l r : Candidate) : ℚ :=
  min (min (min (evidenceScore now l.finding) (evidenceScore now r.finding)) l.stance.strength)
    r.stance.strength

def contradiction (now : ℤ) (pair : Candidate × Candidate) : EvidenceContradiction :=
  let left := pair.1.finding
  let right := pair.2.finding
  let confidence := pairConfidence now pair.1 pair.2
  { dimension := pair.1.stance.dimension
    leftProvider := providerOf left
    leftVerdict := verdictOf left
    rightProvider := providerOf right
    rightVerdict := verdictOf right
    severity := contradictionSeverity confidence
    confidence
    reason := providerOf left ++ " reports " ++ verdictOf left ++ ", while " ++ providerOf right ++
      " reports " ++ verdictOf right ++ "." }

/-- `contradictions.sort(key=...)`. -/
def reportedBefore (a b : EvidenceContradiction) : Bool :=
  if a.severity.rank ≠ b.severity.rank then a.severity.rank < b.severity.rank
  else if a.confidence ≠ b.confidence then b.confidence < a.confidence
  else
    let names := fun c : EvidenceContradiction =>
      [codes c.dimension.text,codes (CaseTables.casefold c.leftProvider),
        codes (CaseTables.casefold c.rightProvider)]
    names a ≤ names b

/-- `detect_contradictions`, where the clock shows `now`. -/
def detectContradictions (now : ℤ) (findings : List Finding) : List EvidenceContradiction :=
  let found := (pairs (findings.filterMap candidate)).filter fun pair => opposed pair.1 pair.2
  ((Firsts.firsts pairKey [] found).map (contradiction now)).insertionSort fun a b =>
    reportedBefore a b = true

end Scores

end Quality
end WormholeObservatory
