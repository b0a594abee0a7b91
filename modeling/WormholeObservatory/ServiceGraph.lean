import WormholeObservatory.CompatibilityProfiles
import WormholeObservatory.EvidenceCitations
import WormholeObservatory.Offers
import WormholeObservatory.Traversals

/-! The services a domain depends on, as a graph. Nodes and edges are offered by the classification,
the other domains of its service, the compatibility profiles and the relationships that findings name;
of the offers with one key the strongest one stays. -/
namespace WormholeObservatory
namespace ServiceGraph

open Compatibility (CompatibilityProfile CompatibilityMatch MatchType compatibilityMatchForDomain)
open Evidence (FindingTable storedFindings)
open Floats JsonValues
open Responses (Fields)

structure Node where
  nodeId : String
  nodeType : String
  label : String
  serviceRole : String := "unknown"
  metadata : Fields := []

structure Edge where
  source : String
  target : String
  relation : String
  confidence : ℚ
  provenance : String
  evidenceProvider : String := ""
  evidenceUrl : String := ""
  metadata : Fields := []

structure Graph where
  rootDomain : String
  nodes : List Node
  edges : List Edge
  peerDomainsTruncated : Bool

/-- `str.isalnum` for one character: letters and digits, as ASCII has them. -/
class AlnumTable where
  isAlnum : Char → Bool
  isAlnum_ascii : ∀ c, c.toNat < 128 → isAlnum c = c.isAlphanum

instance asciiAlnum : AlnumTable where
  isAlnum := Char.isAlphanum
  isAlnum_ascii _ _ := rfl

/-! The database. -/

/-- The columns of `domains` that are read, without the key. -/
structure DomainColumns where
  currentService : String
  currentServiceRole : String

/-- The columns of `classification_runs` that are read. -/
structure RunColumns where
  id : ℤ
  domain : String
  isPrimary : Bool
  createdAt : ℤ
  confidence : PyFloat

structure Database where
  domains : Table String DomainColumns
  runs : List RunColumns

/-- What the queries of one call find, none where one raises an `OperationalError`. Other connections
may write between them. -/
structure Reads where
  service : Option Database
  peers : Option Database
  findings : Option FindingTable

/-- A row of the join. -/
structure ServiceRecord where
  domain : String
  service : String
  serviceRole : String
  confidence : Value

/-- The subquery for the confidence of the latest primary run, `COALESCE`d to 0. -/
def latestConfidence (db : Database) (domain : String) : Value :=
  let runs := (db.runs.filter fun run => run.domain = domain && run.isPrimary).insertionSort fun a b =>
    [-a.createdAt,-a.id] ≤ [-b.createdAt,-b.id]
  match runs.head? with
  | some run => .float run.confidence
  | none => .int 0

def serviceRecord (db : Database) (domain : String) (row : DomainColumns) : ServiceRecord :=
  ⟨domain,row.currentService,row.currentServiceRole,latestConfidence db domain⟩

/-- `_current_service_record`. -/
def currentServiceRecord (db : Option Database) (domain : String) : Option ServiceRecord :=
  db.bind fun db => (db.domains.lookup domain).map (serviceRecord db domain)

/-- `_service_peers`. -/
def servicePeers (db : Option Database) (service : String) (maxPeerDomains : ℤ) :
    List ServiceRecord × Bool :=
  let safeLimit := (max 0 (min 250 maxPeerDomains)).toNat
  if safeLimit = 0 then ([],false)
  else
    match db with
    | none => ([],false)
    | some db =>
      let found := (db.domains.select fun _ row =>
        asciiLower row.currentService = asciiLower service).insertionSort fun a b => codes a.1 ≤ codes b.1
      let rows := (found.map fun e => serviceRecord db e.1 e.2).take (safeLimit+1)
      (rows.take safeLimit,decide (safeLimit < rows.length))

/-! The dictionaries. -/

/-- `role_order.get(role, 0)`. -/
def roleRank (role : String) : ℕ :=
  if role = "core" then 3 else if role = "shared" then 2 else if role = "optional" then 1 else 0

def Node.rank (n : Node) : ℕ := roleRank n.serviceRole

def Edge.key (e : Edge) : String × String × String × String := (e.source,e.target,e.relation,e.provenance)

/-- `_put_node`. -/
def putNode : OrderedDict String Node → Node → OrderedDict String Node := Offers.put Node.nodeId Node.rank

/-- `_put_edge`. -/
def putEdge : OrderedDict (String × String × String × String) Edge → Edge →
    OrderedDict (String × String × String × String) Edge := Offers.put Edge.key Edge.confidence

/-- A call of `_put_node` or `_put_edge`. -/
inductive Put
  | node (n : Node)
  | edge (e : Edge)

def Put.node? : Put → Option Node
  | .node n => some n
  | .edge _ => none

def Put.edge? : Put → Option Edge
  | .node _ => none
  | .edge e => some e

/-- `max(0.0, min(1.0, x))`. -/
def unitConfidence : PyFloat → ℚ
  | .finite q => max 0 (min 1 q)
  | .negInf => 0
  | .nan => 1
  | .posInf => 1

section Build

variable [LetterTables] [ValueTexts] [AlnumTable]

/-- `_confidence`. The overflow of an integer is not caught. -/
def confidence (value : Value) : Except ConversionError ℚ :=
  match value.toFloat with
  | .ok x => .ok (unitConfidence x)
  | .error .overflow => .error .overflow
  | .error _ => .ok 0

/-- `_domain_node_id`. -/
def domainNodeId (domain : String) : String := "domain:"++normalizeDomain domain

/-- `_service_node_id`. -/
def serviceNodeId (service : String) : String :=
  "service:"++joinWith " " (words (CaseTables.casefold (strip service)))

/-! Relationships of findings. -/

structure Relationship where
  targetType : String
  target : String
  relation : String

/-- A finding as it is given: a mapping or an object with attributes. -/
inductive Finding
  | mapping (fields : Fields)
  | object (provider kind sourceUrl confidence rawData : Value)

/-- `_finding_mapping`. -/
def findingMapping : Finding → Fields
  | .mapping fields => fields
  | .object provider kind sourceUrl confidence rawData =>
    [("provider",provider),("kind",kind),("source_url",sourceUrl),("confidence",confidence),
      ("raw_data",match rawData with
        | .dict fields => Value.dict fields
        | _ => Value.dict [])]

/-- `_normalize_relation`. -/
def normalizeRelation (value : Value) : String :=
  let relation := replaceChar ' ' '_' (replaceChar '-' '_' (lowered (value.textOr "")))
  let letters := relation.toList.filter (· ≠ '_')
  if relation = "" ∨ 64 < relation.toList.length then ""
  else if letters = [] ∨ letters.all AlnumTable.isAlnum = false then ""
  else relation

/-- The loop body of `_relationships_from_finding`. -/
def relationshipOf : Value → Option Relationship
  | .dict candidate =>
    let targetType := lowered ((field candidate "target_type").textOr "")
    let target := strip ((field candidate "target").textOr "")
    let relation := normalizeRelation (field candidate "relation")
    if targetType ∉ ["domain","service"] ∨ target = "" ∨ relation = "" then none
    else some ⟨targetType,target,relation⟩
  | _ => none

/-- `_relationships_from_finding`. -/
def relationshipsFromFinding (finding : Fields) : List Relationship :=
  match field finding "raw_data" with
  | .dict rawData =>
    let candidates := match field rawData "service_relationships" with
      | .dict fields => [Value.dict fields]
      | .list items => items
      | _ =>
        match field rawData "service_relationship" with
        | .dict fields => [Value.dict fields]
        | _ => []
    candidates.filterMap relationshipOf
  | _ => []

/-! What is put in. -/

def rootNode (root : String) : Node :=
  { nodeId := domainNodeId root
    nodeType := "domain"
    label := root
    metadata := [("root",.bool true)] }

def serviceNode (service role : String) : Node := ⟨serviceNodeId service,"service",service,role,[]⟩

def domainNode (domain role : String) : Node := ⟨domainNodeId domain,"domain",domain,role,[]⟩

def peerNode (peer : ServiceRecord) : Node := domainNode peer.domain (orElse peer.serviceRole "unknown")

/-- The node and the edge of a peer. -/
def peerPuts (serviceId : String) (peer : ServiceRecord) : Except ConversionError (List Put) := do
  let confidence ← confidence peer.confidence
  .ok [.node (peerNode peer),.edge ⟨domainNodeId peer.domain,serviceId,"member_of",confidence,
    "classification","","",[]⟩]

/-- The peers of the current service, none where there is no service. -/
def currentPeers (reads : Reads) (root : String) (maxPeerDomains : ℤ) : List ServiceRecord × Bool :=
  match currentServiceRecord reads.service root with
  | some current =>
    if current.service = "" then ([],false) else servicePeers reads.peers current.service maxPeerDomains
  | none => ([],false)

/-- What the classification puts in. -/
def classificationPuts (reads : Reads) (root : String) (maxPeerDomains : ℤ) :
    Except ConversionError (List Put) :=
  match currentServiceRecord reads.service root with
  | some current =>
    if current.service = "" then .ok []
    else do
      let confidence ← confidence current.confidence
      let serviceId := serviceNodeId current.service
      let peers ← (currentPeers reads root maxPeerDomains).1.mapM (peerPuts serviceId)
      .ok (.node (serviceNode current.service (orElse current.serviceRole "unknown"))::
        .edge ⟨domainNodeId root,serviceId,"member_of",confidence,"classification","","",[]⟩::peers.flatten)
  | none => .ok []

def matchTypeText : MatchType → String
  | .exact => "exact"
  | .suffix => "suffix"

/-- What the compatibility profiles put in. The url of a profile is looked up by its id. -/
def compatibilityPuts (profiles : List CompatibilityProfile) (sourceUrl : String → String) (root : String) :
    List Put :=
  match compatibilityMatchForDomain root profiles with
  | none => []
  | some m =>
    [.node { serviceNode m.profile.name m.profile.serviceRole.value with
        metadata := [("compatibility_profile_id",.str m.profile.profileId)] },
      .edge ⟨domainNodeId root,serviceNodeId m.profile.name,"requires",1,"compatibility_profile",
        "Wormhole compatibility profiles",sourceUrl m.profile.profileId,
        [("profile_id",.str m.profile.profileId),("matched_pattern",.str m.matchedPattern),
          ("match_type",.str (matchTypeText m.matchType))]⟩]

/-- The label of a target, empty if the relationship is skipped. -/
def Relationship.label (r : Relationship) : String :=
  if r.targetType = "domain" then normalizeDomain r.target else strip r.target

def Relationship.node (r : Relationship) : Node :=
  if r.targetType = "domain" then domainNode r.label "unknown" else serviceNode r.label "unknown"

/-- What one relationship of a finding puts in. -/
def relationshipPuts (root : String) (finding : Fields) (r : Relationship) :
    Except ConversionError (List Put) :=
  if r.label = "" then .ok []
  else do
    let confidence ← confidence (field finding "confidence")
    .ok [.node r.node,.edge ⟨domainNodeId root,r.node.nodeId,r.relation,confidence,"evidence",
      (field finding "provider").textOr "",(field finding "source_url").textOr "",
      [("finding_kind",.str ((field finding "kind").textOr ""))]⟩]

/-- What the findings put in. -/
def evidencePuts (root : String) (findings : List Fields) : Except ConversionError (List Put) := do
  let puts ← findings.mapM fun finding => (relationshipsFromFinding finding).mapM (relationshipPuts root finding)
  .ok (puts.flatten.flatten)

/-- `selected_findings`, as mappings. -/
def selectedFindings (reads : Reads) (root : String) (findings : Option (List Finding)) : List Fields :=
  match findings with
  | some findings => findings.map findingMapping
  | none => ((reads.findings.map (storedFindings root 500)).getD []).map Evidence.FindingRow.asDict

/-- All that is put in, in order. -/
def graphPuts (reads : Reads) (profiles : List CompatibilityProfile) (sourceUrl : String → String)
    (root : String) (findings : Option (List Finding)) (maxPeerDomains : ℤ) :
    Except ConversionError (List Put) := do
  let classification ← classificationPuts reads root maxPeerDomains
  let evidence ← evidencePuts root (selectedFindings reads root findings)
  .ok (.node (rootNode root)::(classification++compatibilityPuts profiles sourceUrl root++evidence))

def nodeSortKey (rootId : String) (n : Node) : List (List ℤ) :=
  [[if n.nodeId = rootId then 0 else 1],[if n.nodeType = "service" then 0 else 1],
    codes (CaseTables.casefold n.label)]

def edgeSortKey (e : Edge) : List (List ℤ) :=
  [codes (CaseTables.casefold e.source),codes e.relation,codes (CaseTables.casefold e.target),
    codes e.provenance]

inductive GraphError
  | emptyDomain
  | conversion (error : ConversionError)

/-- The graph of what was put in, its nodes and edges sorted. -/
def graphOfPuts (root : String) (truncated : Bool) (puts : List Put) : Graph :=
  let nodes := (puts.filterMap Put.node?).foldl putNode .empty
  let edges := (puts.filterMap Put.edge?).foldl putEdge .empty
  { rootDomain := root
    nodes := nodes.values.insertionSort fun a b =>
      nodeSortKey (domainNodeId root) a ≤ nodeSortKey (domainNodeId root) b
    edges := edges.values.insertionSort fun a b => edgeSortKey a ≤ edgeSortKey b
    peerDomainsTruncated := truncated }

/-- `service_dependency_graph`. -/
def serviceDependencyGraph (reads : Reads) (profiles : List CompatibilityProfile)
    (sourceUrl : String → String) (domain : String) (findings : Option (List Finding))
    (maxPeerDomains : ℤ) : Except GraphError Graph :=
  let root := normalizeDomain domain
  if root = "" then .error .emptyDomain
  else
    match graphPuts reads profiles sourceUrl root findings maxPeerDomains with
    | .error error => .error (.conversion error)
    | .ok puts => .ok (graphOfPuts root (currentPeers reads root maxPeerDomains).2 puts)

end Build

end ServiceGraph
end WormholeObservatory
