import WormholeObservatory.Runs
import WormholeObservatory.Tables
import WormholeObservatory.Text
import WormholeObservatory.OrderedDict
import WormholeObservatory.ProviderProfile
import WormholeObservatory.Quota
import WormholeObservatory.QuotaWindows
import WormholeObservatory.QuotaRetry
import WormholeObservatory.SchemaScripts
import WormholeObservatory.SchemaInit
import WormholeObservatory.SchemaProcesses
import WormholeObservatory.StagingQueue
import WormholeObservatory.StagingRows
import WormholeObservatory.QueueRuns
import WormholeObservatory.Leases
import WormholeObservatory.QueueWorkers
import WormholeObservatory.ManualRequests
import WormholeObservatory.Models
import WormholeObservatory.ProviderExecution
import WormholeObservatory.VerifyDispatch
import WormholeObservatory.DispatchModes
import WormholeObservatory.DispatchCoverage
import WormholeObservatory.DispatchNames
import WormholeObservatory.FallbackResults
import WormholeObservatory.BehaviorChange
import WormholeObservatory.Compatibility
import WormholeObservatory.AutomationGate
import WormholeObservatory.PiHoleAudit
import WormholeObservatory.PiHoleService
import WormholeObservatory.RuleKeeping
import WormholeObservatory.LockProtection
import WormholeObservatory.ReviewStore
import WormholeObservatory.WorkerHandling
import WormholeObservatory.ReviewListing
import WormholeObservatory.WorkerCycle
import WormholeObservatory.RejectedDomains
import WormholeObservatory.Cadence
import WormholeObservatory.DecisionSteps
import WormholeObservatory.DecisionRace
import WormholeObservatory.Upserts
import WormholeObservatory.Observations
import WormholeObservatory.ObservationTotals
import WormholeObservatory.Scanner
import WormholeObservatory.ScannerCounts
import WormholeObservatory.ScannerCoverage
import WormholeObservatory.Sweeps
import WormholeObservatory.HistoryBackfill
import WormholeObservatory.DecisionConvergence
import WormholeObservatory.RollbackGuard
import WormholeObservatory.ManagedRules
import WormholeObservatory.AuditUndo
import WormholeObservatory.Pacing
import WormholeObservatory.RateLimits
import WormholeObservatory.RequestRetries
import WormholeObservatory.ProviderHealth
import WormholeObservatory.RegistryFormat
import WormholeObservatory.RegistryCache
import WormholeObservatory.Installer
import WormholeObservatory.Letters
import WormholeObservatory.ConfigOptions
import WormholeObservatory.ConfigValidation
import WormholeObservatory.ConfigStability
import WormholeObservatory.ConfigFixpoint
import WormholeObservatory.Slots
import WormholeObservatory.Credentials
import WormholeObservatory.ConfigFile
import WormholeObservatory.ConfigRoundTrip
import WormholeObservatory.BehaviorHistory
import WormholeObservatory.CompatibilityProfiles
import WormholeObservatory.ReviewPages
import WormholeObservatory.EnqueueAccounts
import WormholeObservatory.Floats
import WormholeObservatory.JsonValues
import WormholeObservatory.PiHoleInstances
import WormholeObservatory.InstanceRoundTrip
import WormholeObservatory.SqlLike
import WormholeObservatory.DomainBrowser
import WormholeObservatory.LlmResponses
import WormholeObservatory.ResponseChecks
import WormholeObservatory.Verdicts
import WormholeObservatory.ResponseParsing
import WormholeObservatory.LimitResolution
import WormholeObservatory.LimitCaps
import WormholeObservatory.IpAddresses
import WormholeObservatory.ListRules
import WormholeObservatory.ListRuleNames
import WormholeObservatory.ListExtraction
import WormholeObservatory.Firsts
import WormholeObservatory.Catalogs
import WormholeObservatory.SemVer
import WormholeObservatory.UpdateVersions
import WormholeObservatory.VersionOrder
import WormholeObservatory.RetryHeaders
import WormholeObservatory.RetryDurations
import WormholeObservatory.RetryDelays
import WormholeObservatory.Contradictions
import WormholeObservatory.ContradictionOrder
import WormholeObservatory.Substrings
import WormholeObservatory.Redaction
import WormholeObservatory.TextLines
import WormholeObservatory.Offers
import WormholeObservatory.EvidenceFreshness
import WormholeObservatory.ResearchFindings
import WormholeObservatory.EvidenceCitations
import WormholeObservatory.ServiceGraph
import WormholeObservatory.Traversals
import WormholeObservatory.ServiceGraphForm
import WormholeObservatory.EvidenceCollection
import WormholeObservatory.EvidenceCoverage
import WormholeObservatory.CredentialSlots
import WormholeObservatory.CredentialRuns
import WormholeObservatory.Effects
import WormholeObservatory.Connection
import WormholeObservatory.ConnectionSessions
import WormholeObservatory.Urls
import WormholeObservatory.PiHoleClients
import WormholeObservatory.ReviewLinks
import WormholeObservatory.ApiDecisions
import WormholeObservatory.EvidenceCache
import WormholeObservatory.Charges
import WormholeObservatory.QueueFairness
import WormholeObservatory.Loops
import WormholeObservatory.ListAudit
import WormholeObservatory.ListAuditRecord
import WormholeObservatory.ListAuditCoverage
import WormholeObservatory.InstallerTexts
