import WormholeObservatory.Models
import WormholeObservatory.OrderedDict

/-! The options of the program with their defaults. Numbers that are floats in the program are
rationals here: an option is only ever compared and clamped, so no rounding takes place. -/
namespace WormholeObservatory
namespace Config

def currentSchemaVersion : ℤ := 18

structure LoggingOptions where
  enabled : Bool := true
  level : String := "INFO"
  filename : String := "pihole_manager.log"
  rotateBytes : ℤ := 2000000
  backupCount : ℤ := 3

structure NotifyOptions where
  enableDesktop : Bool := false
  enableSound : Bool := false
  rateLimitSec : ℤ := 5
  toastTitle : String := "Pi-hole Manager"

structure ScanOptions where
  enabled : Bool := false
  intervalSec : ℤ := 5
  batchSize : ℤ := 200
  initialLookbackSec : ℤ := 300
  queueTriggerSize : ℤ := 20
  maxQueueWaitSec : ℤ := 300
  historyBackfillEnabled : Bool := false
  historyIdleAfterSec : ℤ := 300
  historyLookbackDays : ℤ := 30
  historyBatchSize : ℤ := 500
  excludedDomainSuffixes : List String := [".arpa"]

structure PiHoleOptions where
  baseUrl : String := "http://pi.hole"
  password : String := ""
  caBundlePath : String := ""
  timeoutSec : ℚ := 10

structure ProviderLimitOptions where
  mode : String := "auto"
  quotaGroup : String := ""
  requestsPerMinute : ℤ := 0
  requestsPerHour : ℤ := 0
  requestsPerDay : ℤ := 0
  inputTokensPerMinute : ℤ := 0
  outputTokensPerMinute : ℤ := 0
  tokensPerMinute : ℤ := 0
  tokensPerHour : ℤ := 0
  tokensPerDay : ℤ := 0
  unitsPerDay : ℚ := 0
  contextTokens : ℤ := 0
  maxDomainsPerRequest : ℤ := 0
  safetyMarginPercent : ℚ := 10

/-- The id is the one default that is drawn afresh, so whoever builds a provider passes it. -/
structure LLMProviderOptions where
  providerId : String
  name : String := "Custom OpenAI-compatible"
  presetId : String := "custom"
  apiStyle : String := "openai_compatible"
  baseUrl : String := ""
  apiKey : String := ""
  model : String := ""
  temperature : ℚ := 0
  timeoutSec : ℚ := 30
  maxOutputTokens : ℤ := 4096
  maxTokensParameter : String := "max_tokens"
  sendTemperature : Bool := true
  structuredOutput : String := "auto"
  limits : ProviderLimitOptions := {}

structure ProviderPoolMembershipOptions where
  providerId : String := ""
  enabled : Bool := true
  role : String := "primary"
  priority : ℤ := 100
  weight : ℤ := 1

structure AnalysisPoolOptions where
  poolId : String := "background"
  name : String := "Background analysis"
  enabled : Bool := true
  mode : String := "distribute"
  profileIndex : ℤ := 0
  maxParallelRequests : ℤ := 2
  verificationSamplePercent : ℤ := 10
  verifyAutomaticActions : Bool := true
  verifySecurityRiskAtLeast : ℤ := 80
  verifyBreakageRiskAtLeast : ℤ := 50
  memberships : List ProviderPoolMembershipOptions := []

structure ProviderRegistryOptions where
  autoUpdate : Bool := false
  refreshIntervalHours : ℤ := 168
  lastCheckedAt : ℤ := 0
  registryUrl : String :=
    "https://github.com/HyperCriSiS/Pi-Hole-Manager/releases/latest/download/provider-registry.json"
  signatureUrl : String :=
    "https://github.com/HyperCriSiS/Pi-Hole-Manager/releases/latest/download/provider-registry.json.sig"

/-- The `system` text of a new profile. -/
def defaultSystem : String :=
  "You classify DNS domains for a Pi-hole v6 administrator. Start with the supplied domain dossier and distinguish verified facts from inference. If the selected model and API perform live web search without an additional tool request, independently verify the exact domain using official vendor documentation, GitHub code, issues and discussions, Pi-hole community reports, reputable blocklist repositories such as AdGuardTeam/HostlistsRegistry, hagezi/dns-blocklists, easylist/easylist, disconnectme/disconnect-tracking-protection, and credible user reports. Pi-hole Manager does not currently invoke provider-specific web-search tools. Never claim to have searched the web when browsing is not available. Include useful source URLs in details when known, and prefer manual review when evidence is weak or blocking may break an important service."

structure PromptProfileOptions where
  name : String := "Balanced"
  system : String := defaultSystem
  userTemplate : String :=
    "Analyse the following domain dossiers. Return only the required structured "++
      "result.\n\x7bdomain_dossiers\x7d"

def defaultTags : List String :=
  ["advertising","cross_site_tracking","analytics","telemetry","crash_reporting","authentication",
   "payments","api_backend","content_media","cdn_shared_infrastructure","software_updates",
   "notifications_messaging","security_antifraud","iot_cloud","malware","phishing",
   "command_and_control","unknown"]

def defaultTagPolicies : OrderedDict String String := OrderedDict.ofItems
  [("advertising",Policy.deny.value),("cross_site_tracking",Policy.deny.value),
   ("analytics",Policy.manualReview.value),("telemetry",Policy.manualReview.value),
   ("crash_reporting",Policy.manualReview.value),("authentication",Policy.manualReview.value),
   ("payments",Policy.manualReview.value),("api_backend",Policy.manualReview.value),
   ("content_media",Policy.manualReview.value),
   ("cdn_shared_infrastructure",Policy.manualReview.value),
   ("software_updates",Policy.manualReview.value),
   ("notifications_messaging",Policy.manualReview.value),
   ("security_antifraud",Policy.manualReview.value),("iot_cloud",Policy.manualReview.value),
   ("malware",Policy.deny.value),("phishing",Policy.deny.value),
   ("command_and_control",Policy.deny.value),("unknown",Policy.manualReview.value)]

def defaultTagRecheckDays : OrderedDict String ℤ := OrderedDict.ofItems
  [("advertising",30),("cross_site_tracking",30),("analytics",30),("telemetry",30),
   ("crash_reporting",30),("authentication",90),("payments",90),("api_backend",60),
   ("content_media",60),("cdn_shared_infrastructure",90),("software_updates",60),
   ("notifications_messaging",60),("security_antifraud",60),("iot_cloud",45),("malware",7),
   ("phishing",7),("command_and_control",7),("unknown",3)]

structure LLMOptions where
  enabled : Bool := false
  intervalSec : ℤ := 10
  workerBatchSize : ℤ := 25
  domainsPerRequest : ℤ := 10
  minRequestIntervalSec : ℚ := 1
  maxRetries : ℤ := 2
  realtimeQuotaReservePercent : ℚ := 20
  quotaWaitTimeoutSec : ℚ := 30
  unknownRemoteRequestsPerMinute : ℤ := 2
  unknownRemoteMaxDomainsPerRequest : ℤ := 1
  activeProviderIndex : ℤ := 0
  activeProfileIndex : ℤ := 0
  automationMode : String := "hybrid"
  simulationMode : Bool := true
  defaultRecheckDays : ℤ := 30
  reviewConfidenceThreshold : ℚ := 3/4
  autoActionMinConfidence : ℚ := 19/20
  requireResearchForAutoAction : Bool := true
  tags : List String := defaultTags
  tagPolicies : OrderedDict String String := defaultTagPolicies
  tagRecheckDays : OrderedDict String ℤ := defaultTagRecheckDays

structure ResearchOptions where
  maxAgeDays : ℤ := 30

structure UpdateOptions where
  checkAutomatically : Bool := false
  channel : String := "stable"
  checkIntervalHours : ℤ := 24
  lastCheckAt : ℤ := 0

structure ExternalTriggerOptions where
  enabled : Bool := false
  bindHost : String := "127.0.0.1"
  port : ℤ := 8765
  token : String := ""
  allowRemote : Bool := false
  maxDomainsPerRequest : ℤ := 500

structure ResearchProviderOptions where
  name : String := "RDAP registration data"
  kind : String := "rdap"
  enabled : Bool := false
  baseUrl : String := ""
  apiKey : String := ""
  timeoutSec : ℚ := 15
  minIntervalSec : ℚ := 1
  refreshIntervalHours : ℤ := 24
  maxResults : ℤ := 5
  testDomain : String := ""

def defaultVisibleColumns : OrderedDict String (List String) := OrderedDict.ofItems
  [("queries",
    ["selected","time","client","domain","type","status"]),
   ("history",
    ["selected","time","client","domain","type","status","classified"]),
   ("lists",
    ["selected","locked","domain","enabled","tags","details"]),
   ("review",
    ["selected","order","queued","lock","domain","tags","service","role","policy","planned",
     "confidence","breakage","short","status"]),
   ("domains",
    ["domain","tags","service","role","policy","planned","confidence","breakage","queries",
     "last_seen","review","short"])]

def defaultColumnOrder : OrderedDict String (List String) := OrderedDict.ofItems
  [("queries",
    ["selected","time","client","domain","type","status"]),
   ("history",
    ["selected","time","client","domain","type","status","classified"]),
   ("lists",
    ["selected","locked","domain","enabled","comment","tags","details"]),
   ("review",
    ["selected","order","queued","lock","domain","tags","service","role","policy","planned",
     "confidence","privacy","security","breakage","short","status"]),
   ("domains",
    ["domain","tags","service","role","policy","planned","confidence","privacy","security",
     "breakage","queries","last_seen","classified","recheck","review","lock","provider","short"])]

def defaultColumnWidths : OrderedDict String (OrderedDict String ℤ) := OrderedDict.ofItems
  [("queries",OrderedDict.ofItems
    [("selected",38),("time",90),("client",170),("domain",360),("type",80),("status",140)]),
   ("history",OrderedDict.ofItems
    [("selected",38),("time",150),("client",180),("domain",390),("type",80),("status",150),
     ("classified",90)]),
   ("lists",OrderedDict.ofItems
    [("selected",38),("locked",58),("domain",290),("enabled",70),("comment",260),("tags",230),
     ("details",430)]),
   ("review",OrderedDict.ofItems
    [("selected",38),("order",48),("queued",115),("lock",48),("domain",250),("tags",230),
     ("service",180),("role",80),("policy",105),("planned",95),("confidence",65),("privacy",65),
     ("security",65),("breakage",90),("short",300),("status",120)]),
   ("domains",OrderedDict.ofItems
    [("domain",280),("tags",240),("service",180),("role",80),("policy",105),("planned",95),
     ("confidence",65),("privacy",65),("security",65),("breakage",70),("queries",80),
     ("last_seen",135),("classified",135),("recheck",135),("review",65),("lock",70),
     ("provider",150),("short",340)])]

structure UIOptions where
  theme : String := "system"
  showTooltips : Bool := true
  windowWidth : ℤ := 1280
  windowHeight : ℤ := 820
  autoUpdateQueries : Bool := false
  queryRefreshMs : ℤ := 2000
  autoScrollQueries : Bool := true
  historyDeduplicateDomains : Bool := true
  evidenceTestSkipApiKeySources : Bool := false
  evidenceTestSkipMissingApiKeys : Bool := true
  listsQueueOnlyUnreviewed : Bool := true
  queriesColwidths : OrderedDict String ℤ := OrderedDict.ofItems
    [("selected",38),("time",90),("client",170),("domain",360),("type",80),("status",140)]
  tableVisibleColumns : OrderedDict String (List String) := defaultVisibleColumns
  tableColumnOrder : OrderedDict String (List String) := defaultColumnOrder
  tableColumnWidths : OrderedDict String (OrderedDict String ℤ) := defaultColumnWidths

/-- `Options().research_providers`. -/
def defaultResearchProviders : List ResearchProviderOptions :=
  [{ name := "AdGuard service catalog"
     kind := "adguard_services"
     enabled := true
     baseUrl := "https://adguardteam.github.io/HostlistsRegistry/assets/services.json"
     refreshIntervalHours := 24 },
   { name := "Local DNS records"
     kind := "dns_records"
     enabled := true
     minIntervalSec := 0
     refreshIntervalHours := 6 },
   { name := "Disconnect tracker catalog"
     kind := "disconnect_tracking"
     enabled := false
     baseUrl := "https://raw.githubusercontent.com/disconnectme/"++
       "disconnect-tracking-protection/master/services.json"
     refreshIntervalHours := 24 },
   { name := "RDAP registration data"
     kind := "rdap"
     enabled := false
     baseUrl := "https://data.iana.org/rdap/dns.json"
     refreshIntervalHours := 168 },
   { name := "RIPEstat network information"
     kind := "ripestat"
     enabled := false
     baseUrl := "https://stat.ripe.net/data"
     refreshIntervalHours := 24 },
   { name := "Netcraft Site Report"
     kind := "netcraft"
     enabled := false
     baseUrl := "https://sitereport.netcraft.com/"
     minIntervalSec := 10
     refreshIntervalHours := 168 },
   { name := "VirusTotal domain report"
     kind := "virustotal"
     enabled := false
     baseUrl := "https://www.virustotal.com/api/v3"
     minIntervalSec := 31/2
     refreshIntervalHours := 24 },
   { name := "ThreatFox IOC lookup"
     kind := "threatfox"
     enabled := false
     baseUrl := "https://threatfox-api.abuse.ch/api/v1/"
     minIntervalSec := 2
     refreshIntervalHours := 6 },
   { name := "PhishTank verified phishing database"
     kind := "phishtank"
     enabled := false
     baseUrl := "https://data.phishtank.com/data/\x7bapi_key\x7d/online-valid.json.bz2"
     refreshIntervalHours := 1 },
   { name := "urlscan.io archived scans"
     kind := "urlscan"
     enabled := false
     baseUrl := "https://urlscan.io/api/v1"
     minIntervalSec := 2
     refreshIntervalHours := 12
     maxResults := 3 },
   { name := "Cloudflare Radar domain ranking"
     kind := "cloudflare_radar"
     enabled := false
     baseUrl := "https://api.cloudflare.com/client/v4/radar"
     minIntervalSec := 1
     refreshIntervalHours := 168 },
   { name := "Curated repository blocklists"
     kind := "repository_lists"
     enabled := false
     minIntervalSec := 0
     refreshIntervalHours := 12
     maxResults := 5
     testDomain := "example.com" },
   { name := "URLhaus host lookup"
     kind := "urlhaus"
     enabled := false
     baseUrl := "https://urlhaus-api.abuse.ch/v1"
     minIntervalSec := 1
     refreshIntervalHours := 6
     maxResults := 5
     testDomain := "example.com" }]

@[ext] structure Options where
  schemaVersion : ℤ := currentSchemaVersion
  logging : LoggingOptions := {}
  notify : NotifyOptions := {}
  scans : ScanOptions := {}
  pihole : PiHoleOptions := {}
  llm : LLMOptions := {}
  research : ResearchOptions := {}
  updates : UpdateOptions := {}
  providerRegistry : ProviderRegistryOptions := {}
  externalTrigger : ExternalTriggerOptions := {}
  llmProviders : List LLMProviderOptions
  analysisPools : List AnalysisPoolOptions := []
  promptProfiles : List PromptProfileOptions := [{}]
  researchProviders : List ResearchProviderOptions := defaultResearchProviders
  ui : UIOptions := {}

/-- `Options()`, with the id its provider draws. -/
def defaultOptions (providerId : String) : Options where
  llmProviders := [{ providerId := providerId }]

end Config
end WormholeObservatory
