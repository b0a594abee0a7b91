import WormholeObservatory.JsonValues
import WormholeObservatory.Models
import WormholeObservatory.Tables
import WormholeObservatory.Letters

/-! Reading the answer of a model: candidates for its object, the checks on it, and the
classifications made of its results. -/
namespace WormholeObservatory
namespace Responses

open Floats (PyFloat)
open JsonValues (Value ValueTexts ConversionError field)

abbrev Fields := List (String × Value)

/-- What leaves the parser: an `LLMResponseError`, or an exception of another kind. -/
inductive Failure
  | response (message : String)
  | escape (error : ConversionError)
  | undecodable
  deriving DecidableEq

/-- What `json.loads` does with a text: a value, a `JSONDecodeError`, or another exception (for an
integer with too many digits, or for brackets nested too deeply). -/
inductive Loaded
  | value (v : Value)
  | decodeError
  | raises

def stringFieldNames : List String :=
  ["domain","policy","category","service","service_role","review_reason","short","details"]

/-- The host: `json.loads`, and the order in which the set of field names is gone through. -/
structure Host where
  loads : String → Loaded
  stringFields : List String
  stringFields_perm : stringFields.Perm stringFieldNames

/-- `_RESULT_FIELDS`. -/
def resultFields : List String :=
  ["domain","policy","category","tags","service","service_role","privacy_risk","security_risk",
    "breakage_risk","confidence","needs_review","review_reason","recheck_after_days","short","details"]

/-- The settings that the parser reads. -/
structure ReviewOptions where
  reviewConfidenceThreshold : PyFloat := .finite (3/4)
  defaultRecheckDays : ℤ := 30

/-! Candidates. -/

def fence : List Char := "```".toList

/-- `(?:json)?` without regard to case, where the long s counts as an s. -/
def dropJson : List Char → List Char
  | j::s::o::n::rest =>
    if j ∈ ['j','J'] ∧ s ∈ ['s','S','ſ'] ∧ o ∈ ['o','O'] ∧ n ∈ ['n','N'] then rest else j::s::o::n::rest
  | text => text

/-- The text up to the first closing brace that a fence follows. -/
def untilFence : List Char → Option (List Char)
  | [] => none
  | c::rest =>
    if c = '\x7d' ∧ fence.isPrefixOf (rest.dropWhile isSpace) then some [c]
    else (untilFence rest).map (c::·)

/-- The group of the pattern for a fenced object, if it matches at the beginning. -/
def fencedHere (text : List Char) : Option (List Char) :=
  if fence.isPrefixOf text then
    match (dropJson (text.drop 3)).dropWhile isSpace with
    | [] => none
    | c::rest => if c = '\x7b' then (untilFence rest).map (c::·) else none
  else none

/-- `re.search` with that pattern. -/
def fenced (text : List Char) : Option (List Char) := text.tails.findSome? fencedHere

/-- From the first opening brace to the last closing one. -/
def braced (text : List Char) : List Char :=
  (text.dropWhile (· != '\x7b')).rdropWhile (· != '\x7d')

def candidates (text : String) : List String :=
  (fenced text.toList).toList.map String.ofList++[text]++
    if braced text.toList = [] then [] else [String.ofList (braced text.toList)]

/-- `_parse_json_object` over its candidates. -/
def firstObject (host : Host) : List String → Except Failure (Option Fields)
  | [] => .ok none
  | candidate::rest =>
    match host.loads candidate with
    | .raises => .error .undecodable
    | .value (.dict fields) => .ok (some fields)
    | _ => firstObject host rest

def parseJsonObject (host : Host) (text : String) : Except Failure (Option Fields) :=
  firstObject host (candidates text)

/-! Values of one kind. -/

def textOf : Value → Option String
  | .str s => some s
  | _ => none

/-- The text of a field that is known to have one. -/
def text (item : Fields) (name : String) : String := (textOf (field item name)).getD ""

/-- The entries of a value that is an array. -/
def entries : Value → List Value
  | .list items => items
  | _ => []

def isBool : Value → Bool
  | .bool _ => true
  | _ => false

def intWithin (minimum maximum : ℤ) : Value → Bool
  | .int n => decide (minimum ≤ n ∧ n ≤ maximum)
  | _ => false

/-- `not isinstance(x, bool) and x == 1`. -/
def isVersion : Value → Bool
  | .int n => decide (n = 1)
  | .float x => PyFloat.eq x (.finite 1)
  | _ => false

/-- `0 <= float(x) <= 1` for a number that is not a Boolean. -/
def unitNumber : Value → Except ConversionError Bool
  | .int n =>
    match Floats.ofInt n with
    | some x => .ok (PyFloat.le (.finite 0) x && PyFloat.le x (.finite 1))
    | none => .error .overflow
  | .float x => .ok (PyFloat.le (.finite 0) x && PyFloat.le x (.finite 1))
  | _ => .ok false

def hasField (item : Fields) (name : String) : Bool := item.any fun entry => entry.1 = name

/-- `sorted(expected.difference(item))`. -/
def missingFields (expected : List String) (item : Fields) : List String :=
  sortTexts (expected.filter fun name => !hasField item name)

/-- `sorted(set(item).difference(expected))`. -/
def extraFields (expected : List String) (item : Fields) : List String :=
  sortTexts ((item.map Prod.fst).eraseDups.filter fun name => name ∉ expected)

section Parser

variable [CaseTables]

/-- The tags that a result may have, as a set. -/
def allowedTags (tags : List String) : List String :=
  ((tags.filter fun tag => strip tag ≠ "").map fun tag => CaseTables.lower (strip tag))++["unknown"]

/-- The checks of `_validate_result_types` from the confidence on. -/
def validateJudgement (item : Fields) (index : ℕ) : Except Failure Unit :=
  let result := "Result "++toString index
  match unitNumber (field item "confidence") with
  | .error e => .error (.escape e)
  | .ok within =>
  if ¬ within then .error (.response (result++" confidence must be a number from 0 to 1"))
  else if ¬ isBool (field item "needs_review") then
    .error (.response (result++" needs_review must be a boolean"))
  else if ¬ intWithin 1 3650 (field item "recheck_after_days") then
    .error (.response (result++" recheck_after_days must be an integer from 1 to 3650"))
  else .ok ()

/-- `_validate_result_types`. -/
def validateResultTypes (host : Host) (item : Fields) (index : ℕ) (allowed : List String) :
    Except Failure Unit :=
  let result := "Result "++toString index
  let resultTags := entries (field item "tags")
  match host.stringFields.find? fun name => (textOf (field item name)).isNone with
  | some name => .error (.response (result++" field "++name++" must be a string"))
  | none =>
  if strip (text item "domain") = "" then .error (.response (result++" domain must not be empty"))
  else if text item "policy" ∉ ["allow","deny","manual_review"] then
    .error (.response (result++" policy is invalid"))
  else if text item "category" ∉ allowed then
    .error (.response (result++" category is not configured"))
  else if text item "service_role" ∉ ["core","optional","shared","unknown"] then
    .error (.response (result++" service_role is invalid"))
  else if resultTags.isEmpty then .error (.response (result++" tags must be a non-empty array"))
  else if resultTags.any fun tag => !(textOf tag).any (· ∈ allowed) then
    .error (.response (result++" contains an invalid tag"))
  else if ¬ (resultTags.filterMap textOf).Nodup then
    .error (.response (result++" contains duplicate tags"))
  else if text item "category" ∉ resultTags.filterMap textOf then
    .error (.response (result++" category must also appear in tags"))
  else
  match ["privacy_risk","security_risk","breakage_risk"].find? fun name =>
      !intWithin 0 100 (field item name) with
  | some name => .error (.response (result++" field "++name++" must be an integer from 0 to 100"))
  | none => validateJudgement item index

/-- The loop of `_validate_batch_payload`. -/
def validateResults (host : Host) (allowed : List String) : ℕ → List Value → Except Failure Unit
  | _,[] => .ok ()
  | index,.dict item::rest =>
    if missingFields resultFields item ≠ [] then
      .error (.response ("Result "++toString index++" is missing fields: "++
        joinWith ", " (missingFields resultFields item)))
    else if extraFields resultFields item ≠ [] then
      .error (.response ("Result "++toString index++" contains unsupported fields: "++
        joinWith ", " (extraFields resultFields item)))
    else
    match validateResultTypes host item index allowed with
    | .error e => .error e
    | .ok () => validateResults host allowed (index+1) rest
  | index,_::_ => .error (.response ("Result "++toString index++" must be an object"))

/-- `_validate_batch_payload`. -/
def validateBatchPayload (host : Host) (payload : Fields) (tags : List String) : Except Failure Unit :=
  let topLevelFields := ["schema_version","results"]
  if missingFields topLevelFields payload ≠ [] then
    .error (.response ("LLM response is missing top-level fields: "++
      joinWith ", " (missingFields topLevelFields payload)))
  else if extraFields topLevelFields payload ≠ [] then
    .error (.response ("LLM response contains unsupported top-level fields: "++
      joinWith ", " (extraFields topLevelFields payload)))
  else if ¬ isVersion (field payload "schema_version") then
    .error (.response "LLM response schema_version must be the integer 1")
  else
  match field payload "results" with
  | .list results => validateResults host (allowedTags tags) 0 results
  | _ => .error (.response "LLM response results must be an array")

/-! From a result to a classification. -/

/-- `_normalize_policy`. -/
def normalizePolicy (value : String) : Policy :=
  let normalized := replaceChar ' ' '_' (CaseTables.lower (strip value))
  if normalized ∈ ["allow","allowed","permit","permitted","whitelist"] then .allow
  else if normalized ∈ ["deny","denied","block","blocked","blacklist"] then .deny
  else if normalized ∈ ["manual","review","manual_review","needs_review"] then .manualReview
  else .unknown

variable [ValueTexts]

/-- `_normalize_tag`. -/
def normalizeTagValue (value : Value) (allowed : List String) : String :=
  let normalized := replaceChar ' ' '_' (CaseTables.lower (strip (value.textOr "unknown")))
  if normalized ∈ allowed then normalized else "unknown"

/-- `_normalize_service_role`. -/
def normalizeServiceRole (value : Value) : ServiceRole :=
  let normalized := CaseTables.lower (strip (value.textOr "unknown"))
  if normalized = "core" then .core
  else if normalized = "optional" then .optional
  else if normalized = "shared" then .shared
  else .unknown

/-- `_bounded_int`. -/
def boundedInt (value : Value) (minimum maximum default : ℤ) : Except ConversionError ℤ :=
  match value.toFloat >>= fun x => (Value.float x).toInt with
  | .ok n => .ok (min maximum (max minimum n))
  | .error .overflow => .error .overflow
  | .error _ => .ok default

/-- `_bounded_float`. -/
def boundedFloat (value : Value) (minimum maximum : ℚ) : Except ConversionError ℚ :=
  match value.toFloat with
  | .ok x => .ok (PyFloat.clamp minimum maximum x)
  | .error .overflow => .error .overflow
  | .error _ => .ok minimum

/-- `_as_bool`. -/
def asBool (value : Value) (default : Bool) : Bool :=
  match value with
  | .bool b => b
  | .int n => (Value.int n).truthy
  | .float x => (Value.float x).truthy
  | value =>
    let normalized := CaseTables.lower (strip (value.textOr ""))
    if normalized ∈ ["true","yes","1","on"] then true
    else if normalized ∈ ["false","no","0","off"] then false
    else default

/-- `raw_tags` as a list. -/
def tagValues : Value → List Value
  | .str s => ((replaceChar ';' ',' s).toList.splitOn ',').map fun part => .str (String.ofList part)
  | .list items => items
  | _ => []

/-- The tags of a classification: `unknown` is no tag unless it is the category or the only one. -/
def classificationTags (item : Fields) (allowed : List String) : List String :=
  let category := normalizeTagValue (field item "category") allowed
  let tags := (((tagValues (field item "tags")).map fun value => normalizeTagValue value allowed).filter
    (· ≠ "unknown")).eraseDups
  if category ∈ tags then tags else category::tags

/-- `s[:n]`. -/
def cut (n : ℕ) (s : String) : String := String.ofList (s.toList.take n)

/-- `_classification_from_payload`. -/
def classificationFromPayload (item : Fields) (tags : List String) (domain provider rawText : String)
    (options : ReviewOptions) : Except ConversionError Classification := do
  let allowed := allowedTags tags
  let shortText := cut 500 (strip ((field item "short").textOr ""))
  let detailsText := strip ((field item "details").textOr "")
  let short := orElse shortText (orElse (cut 180 detailsText) (cut 180 rawText))
  let confidence ← boundedFloat (field item "confidence") 0 1
  let breakageRisk ← boundedInt (field item "breakage_risk") 0 100 50
  let privacyRisk ← boundedInt (field item "privacy_risk") 0 100 0
  let securityRisk ← boundedInt (field item "security_risk") 0 100 0
  let recheckAfterDays ← boundedInt (field item "recheck_after_days") 1 3650 options.defaultRecheckDays
  let serviceRole := normalizeServiceRole (field item "service_role")
  let doubtful := PyFloat.lt (.finite confidence) options.reviewConfidenceThreshold
  let exposed := decide ((serviceRole = .core ∨ serviceRole = .shared) ∧ 50 ≤ breakageRisk)
  let reason := strip ((field item "review_reason").textOr "")
  let reason := if doubtful then
    orElse reason "Classification confidence is below the configured threshold." else reason
  let reason := if exposed then
    orElse reason "Blocking may affect a core or shared service." else reason
  return {
    domain := normalizeDomain domain
    policy := normalizePolicy ((field item "policy").textOr "")
    category := normalizeTagValue (field item "category") allowed
    tags := classificationTags item allowed
    service := strip ((field item "service").textOr "")
    serviceRole := serviceRole
    privacyRisk := privacyRisk
    securityRisk := securityRisk
    breakageRisk := breakageRisk
    confidence := confidence
    needsReview := asBool (field item "needs_review") true || doubtful || exposed
    reviewReason := reason
    recheckAfterDays := recheckAfterDays
    short := short
    details := orElse detailsText (orElse short rawText)
    provider := provider
    rawText := rawText }

/-! The batch. -/

/-- What one call of the parser is given besides the text. -/
structure Request where
  expectedDomains : List String
  tags : List String
  provider : String := ""
  options : ReviewOptions := {}

def Request.expected (request : Request) : List String := request.expectedDomains.map normalizeDomain

/-- The domain a result says it is for. -/
def ownDomain (item : Fields) : String := normalizeDomain ((field item "domain").textOr "")

/-- The domain a result is taken for. -/
def takenDomain (expected : List String) (item : Fields) : String :=
  if expected.length = 1 ∧ ownDomain item = "" then expected.headD "" else ownDomain item

/-- The loop of `parse_batch_classifications`. -/
def collect (request : Request) (raw : String) :
    Table String Classification → List Value → Except Failure (Table String Classification)
  | parsed,[] => .ok parsed
  | parsed,.dict item::rest =>
    let domain := takenDomain request.expected item
    if domain ∉ request.expected then
      .error (.response ("Unexpected domain in LLM response: "++orElse domain "<empty>"))
    else if (parsed.lookup domain).isSome then
      .error (.response ("Duplicate domain in LLM response: "++domain))
    else
    match classificationFromPayload item request.tags domain request.provider raw request.options with
    | .error e => .error (.escape e)
    | .ok c => collect request raw (parsed.insert domain c) rest
  | _,_::_ => .error (.response "A classification result is not an object")

/-- `parse_batch_classifications`. -/
def parseBatchClassifications (host : Host) (text : String) (request : Request) :
    Except Failure (List Classification) :=
  let raw := strip text
  if raw = "" then .error (.response "LLM returned an empty response")
  else
  match parseJsonObject host raw with
  | .error e => .error e
  | .ok none => .error (.response "LLM response is not valid JSON")
  | .ok (some payload) =>
  match validateBatchPayload host payload request.tags with
  | .error e => .error e
  | .ok () =>
  match collect request raw ∅ (entries (field payload "results")) with
  | .error e => .error e
  | .ok parsed =>
    let missing := request.expected.filter fun domain => (parsed.lookup domain).isNone
    if missing ≠ [] then
      .error (.response ("LLM response omitted domains: "++joinWith ", " missing))
    else .ok (request.expected.filterMap parsed.lookup)

end Parser

end Responses
end WormholeObservatory
