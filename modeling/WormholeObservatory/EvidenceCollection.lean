import WormholeObservatory.Runs
import WormholeObservatory.ServiceGraph

/-! The collection of evidence for many domains. What is not cached is looked up in parallel, one worker
a provider; the lookups end in any order and any of them may fail. What they found is saved at once. -/
namespace WormholeObservatory
namespace Evidence

open Compatibility (CompatibilityProfile compatibilityMatchForDomain)
open Config (ResearchProviderOptions)
open Floats JsonValues

/-- `COMPATIBILITY_PROVIDER_NAME`. -/
def compatibilityProviderName : String := "Wormhole compatibility profiles"

/-- A lookup that is submitted: a domain and a provider. -/
abbrev Job := String × ResearchProviderOptions

/-- What one call finds: the settings, the tables and the times at which it reads and writes them, and
what each lookup returns, none where it raises. -/
structure World where
  settings : Settings
  maxAgeDays : ℤ
  profiles : List CompatibilityProfile
  profileUrl : String → String
  locks : Table String Queue.LockRow
  findings : FindingTable
  readAt : String → ℤ
  localAt : String → ℤ
  savedLocalAt : ℤ
  savedAt : ℤ
  lookup : String → ResearchProviderOptions → Option (List ResearchFinding)

/-- `xs[:n]`. -/
def sliceTo {α : Type} (n : ℤ) (xs : List α) : List α :=
  if 0 ≤ n then xs.take n.toNat else xs.take (xs.length-n.natAbs)

/-- The state of the loop over the futures, with the lookups that have ended. -/
structure Progress where
  remaining : List Job
  output : OrderedDict String (List ResearchFinding)
  collected : List ResearchFinding
  ended : List Job

section Collection

variable [LetterTables] [ValueTexts]

/-- `annotate_source_kind`. -/
def annotateSourceKind (finding : ResearchFinding) (kind : String) : ResearchFinding :=
  let normalized := lowered kind
  if normalized = "" then finding
  else { finding with rawData := finding.rawData.setDefault "wormhole_source_kind" (.str normalized) }

/-- `_finding_from_row`. -/
def findingFromRow (row : FindingRow) : ResearchFinding where
  domain := row.domain
  provider := row.provider
  kind := row.kind
  title := row.title
  summary := row.summary
  sourceUrl := row.sourceUrl
  confidence := row.confidence
  signalType := orElse row.signalType "context"
  verdict := orElse row.verdict "unknown"
  decisionRelevant := row.decisionRelevant
  retrievedAt := row.retrievedAt
  expiresAt := row.expiresAt
  rawData := row.rawData

/-- `compatibility_finding`. -/
def compatibilityFinding (profiles : List CompatibilityProfile) (profileUrl : String → String) (now : ℤ)
    (domain : String) : Option ResearchFinding :=
  let normalized := normalizeDomain domain
  (compatibilityMatchForDomain normalized profiles).map fun m =>
    { domain := normalized
      provider := compatibilityProviderName
      kind := "compatibility_profile"
      title := "Protected service: "++m.profile.name
      summary := m.profile.reason
      sourceUrl := profileUrl m.profile.profileId
      confidence := .finite 1
      signalType := "function"
      verdict := "protected_"++m.profile.serviceRole.value++"_service"
      decisionRelevant := true
      retrievedAt := now
      expiresAt := now+365*86400
      rawData := OrderedDict.ofItems
        [("wormhole_source_kind",.str "compatibility_profile"),("profile_id",.str m.profile.profileId),
          ("service_role",.str m.profile.serviceRole.value),
          ("min_breakage_risk",.int m.profile.minBreakageRisk),("protection",.str m.profile.protection),
          ("matched_pattern",.str m.matchedPattern),
          ("match_type",.str (ServiceGraph.matchTypeText m.matchType))] }

/-! The first loop: what is cached. -/

/-- `normalized_domains`. -/
def normalizedDomains (domains : List String) : List String :=
  ((domains.map normalizeDomain).filter (· ≠ "")).eraseDups

namespace World

/-- The fresh findings of remote providers that are stored. -/
def cachedFindings (w : World) (domain : String) : List ResearchFinding :=
  ((researchFindingsGet w.settings (w.readAt domain) domain true 500 w.findings).map findingFromRow).filter
    fun finding => finding.provider ≠ compatibilityProviderName

def localFinding (w : World) (domain : String) : Option ResearchFinding :=
  compatibilityFinding w.profiles w.profileUrl (w.localAt domain) domain

/-- `cached_by_domain[domain]`. -/
def cached (w : World) (domain : String) : List ResearchFinding :=
  w.cachedFindings domain++(w.localFinding domain).toList

/-- `get_domain_lock(domain) is not None`. -/
def locked (w : World) (domain : String) : Bool := (w.locks.lookup (normalizeDomain domain)).isSome

def providers (w : World) : List ResearchProviderOptions :=
  w.settings.researchProviders.filter (·.enabled)

/-- `pending`. -/
def pending (w : World) (domains : List String) : List Job :=
  (normalizedDomains domains).flatMap fun domain =>
    if w.locked domain then []
    else
      (w.providers.filter fun provider =>
        provider.name ∉ (w.cached domain).map ResearchFinding.provider).map (domain,·)

/-- The table once the local findings are saved. -/
def savedLocal (w : World) (domains : List String) : Except Queue.QueueError FindingTable :=
  let localFindings := (normalizedDomains domains).filterMap w.localFinding
  if localFindings = [] then .ok w.findings
  else (saveResearchFindings w.settings w.savedLocalAt 365 localFindings w.findings).map Prod.snd

/-! The second loop: what is looked up. -/

/-- The findings of a lookup that are taken, none where it raises. -/
def selected (w : World) (job : Job) : Option (List ResearchFinding) :=
  (w.lookup job.1 job.2).map fun findings =>
    (sliceTo job.2.maxResults findings).map fun finding => annotateSourceKind finding job.2.kind

/-- What the loop makes of a future that has ended. -/
def complete (w : World) (s : Progress) (job : Job) : Progress :=
  match w.selected job with
  | none => { s with ended := s.ended++[job] }
  | some findings =>
    { s with
      output := s.output.set job.1 ((s.output.get? job.1).getD []++findings)
      collected := s.collected++findings
      ended := s.ended++[job] }

/-- One turn of the loop: some futures have ended, in any order, perhaps none. -/
def Turn (w : World) (s : Progress) (done : List Job) (t : Progress) : Prop :=
  ∃ rest, (done++rest).Perm s.remaining ∧ t = { done.foldl w.complete s with remaining := rest }

/-- Before the first turn. -/
def started (w : World) (domains : List String) : Progress where
  remaining := w.pending domains
  output := OrderedDict.ofItems ((normalizedDomains domains).map fun domain => (domain,w.cached domain))
  collected := []
  ended := []

/-- A run of the loop to its end. -/
def Finished (w : World) (domains : List String) (t : Progress) : Prop :=
  (∃ turns, Transition.Run w.Turn (w.started domains) turns t) ∧ t.remaining = []

/-- `research_many` once the loop has ended: the result and the table. -/
def researchMany (w : World) (domains : List String) (t : Progress) :
    Except Queue.QueueError (OrderedDict String (List ResearchFinding) × FindingTable) := do
  let table ← w.savedLocal domains
  if t.collected = [] then .ok (t.output,table)
  else
    let saved ← saveResearchFindings w.settings w.savedAt w.maxAgeDays t.collected table
    .ok (t.output,saved.2)

end World

end Collection

end Evidence
end WormholeObservatory
