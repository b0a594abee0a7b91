import WormholeObservatory.ConfigOptions
import WormholeObservatory.IpNetworks
import WormholeObservatory.LlmResponses
import WormholeObservatory.ReviewLinks

/-! The HTTP interface of `external_trigger` and `network_access`: which clients it hears, how a
request is read, and which call it comes to. What a request comes to is settled before the call, so
that it stands apart from what the call does. -/
namespace WormholeObservatory
namespace Api

open Urls
open IpAddresses
open JsonValues
open ReviewLinks (TextDecoding unquote unquotePlus)
open Responses (Loaded)

/-! Networks. -/

/-- `ACCESS_MODES`. -/
def accessModes : List String := ["local","lan","tailscale","lan_tailscale","any"]

/-- `_LAN_NETWORKS`. -/
def lanNetworks : List IpNetwork :=
  [⟨.v4 0x0a000000,8⟩,⟨.v4 0xac100000,12⟩,⟨.v4 0xc0a80000,16⟩,⟨.v6 (0xfc00*2^112),7⟩,
    ⟨.v6 (0xfe80*2^112),10⟩]

/-- `_TAILSCALE_NETWORKS`. -/
def tailscaleNetworks : List IpNetwork := [⟨.v4 0x64400000,10⟩,⟨.v6 (0xfd7a115ca1e0*2^80),48⟩]

/-- What there is of `review_access.json`: no file, one that cannot be read, or its value. -/
inductive AccessFile
  | missing
  | unreadable
  | read (value : Value)

section Network

variable [CaseTables]

/-- `normalize_access_mode`. -/
def normalizeAccessMode (value : String) (legacyRemote : Bool) : String :=
  let mode := CaseTables.lower (strip value)
  if mode ∈ accessModes then mode else if legacyRemote then "any" else "local"

/-- `load_review_access_options`. -/
def loadReviewAccessOptions [ValueTexts] (file : AccessFile) (allowRemote : Bool) : String :=
  match file with
  | .read (.dict fields) => normalizeAccessMode ((field fields "mode").textOr "") allowRemote
  | _ => if allowRemote then "any" else "local"

/-- `client_access_allowed`. -/
def clientAccessAllowed (address mode : String) : Bool :=
  match ipAddress (String.ofList (cut '%' address.toList).1) with
  | none => false
  | some ip =>
    let mode := normalizeAccessMode mode false
    ip.isLoopback || mode == "any" ||
      (["lan","lan_tailscale"].contains mode && lanNetworks.any (ip.inNetwork ·)) ||
      (["tailscale","lan_tailscale"].contains mode && tailscaleNetworks.any (ip.inNetwork ·))

/-- `_is_loopback_host`. -/
def isLoopbackHost (host : String) : Bool :=
  let normalized := CaseTables.lower (strip host)
  normalized == "localhost" || (ipAddress normalized).any IpAddress.isLoopback

end Network

/-! The server. -/

/-- What a handler holds. -/
structure Server where
  token : String
  maxDomains : ℤ
  accessMode : String

/-- `ScopedExternalTriggerServer.start` with `_handler_factory`: the handler of a server that starts,
none if it is not enabled, or its complaint. -/
def start [CaseTables] [ValueTexts] (options : Config.ExternalTriggerOptions) (file : AccessFile) :
    Except String (Option Server) :=
  let allowRemote := loadReviewAccessOptions file options.allowRemote != "local"
  if options.enabled = false then .ok none
  else
    let token := strip options.token
    if token = "" then .error "External trigger requires an authentication token"
    else
      let host := orElse (strip options.bindHost) "127.0.0.1"
      if isLoopbackHost host = false ∧ allowRemote = false then
        .error ("External trigger may bind to a non-loopback address only when "++
          "remote access is explicitly enabled")
      else .ok (some ⟨token,max 1 options.maxDomainsPerRequest,loadReviewAccessOptions file allowRemote⟩)

inductive Method
  | get
  | post
  deriving DecidableEq

structure Request where
  method : Method
  /-- `self.path`. -/
  target : String
  authorization : Option String
  contentLength : Option String
  body : List UInt8
  /-- `self.client_address[0]`. -/
  client : String

structure WebAsset where
  content : List UInt8
  contentType : String
  cacheControl : String

/-- What is sent back; nothing if the handler raises. -/
inductive Reply
  | json (status : ℕ) (payload : Value)
  | asset (asset : WebAsset)
  | redirect (location : String)
  | dropped

def errorPayload (error : String) : Value := .dict [("error",.str error)]

/-- The call that a request comes to. -/
inductive Operation
  | reviewQueue (limit : ℤ)
  | reviewLookup (domain : String)
  | decide (domain decision : String) (postponeUntil : Option ℤ)
  | review (domains : List String)
  | recheckDue (limit : ℤ)
  | cancel

inductive Plan
  | reply (sent : Reply)
  | call (operation : Operation)

/-- What a handler finds around it: the files of the page, and `json.loads`. -/
structure Host where
  pageFile : String → Option (List UInt8)
  loads : String → Loaded

/-- `_ROUTES` of `webapp`. -/
def routes : List (String × String × String × String) :=
  [("/app/","index.html","text/html; charset=utf-8","no-cache"),
    ("/app/app.css","app.css","text/css; charset=utf-8","public, max-age=3600"),
    ("/app/app.js","app.js","text/javascript; charset=utf-8","public, max-age=3600"),
    ("/app/icon.svg","icon.svg","image/svg+xml","public, max-age=86400"),
    ("/manifest.webmanifest","manifest.webmanifest","application/manifest+json; charset=utf-8",
      "public, max-age=3600"),
    ("/sw.js","sw.js","text/javascript; charset=utf-8","no-cache")]

/-- `get_web_asset`. -/
def getWebAsset (host : Host) (path : String) : Option WebAsset :=
  match routes.lookup path with
  | none => none
  | some (filename,contentType,cacheControl) =>
    (host.pageFile filename).map fun content => ⟨content,contentType,cacheControl⟩

/-- `hmac.compare_digest` of two texts, unless one of them is not within ASCII. -/
def compareDigest (a b : String) : Option Bool :=
  if a.toList.all ReviewLinks.isAscii && b.toList.all ReviewLinks.isAscii then some (a == b) else none

/-- `_authorized`. -/
def Server.authorized (server : Server) (request : Request) : Option Bool :=
  compareDigest (request.authorization.getD "") ("Bearer "++server.token)

/-- `_require_auth`. -/
def Server.requireAuth (server : Server) (request : Request) (plan : Plan) : Plan :=
  match server.authorized request with
  | none => .reply .dropped
  | some true => plan
  | some false => .reply (.json 401 (errorPayload "unauthorized"))

/-- `_MAX_BODY_BYTES`. -/
def maxBodyBytes : ℤ := 64*1024

section Reading

variable [ValueTexts]

/-- `_read_json`, and what is done with the payload. -/
def readJson (host : Host) (request : Request) (next : List (String × Value) → Plan) : Plan :=
  let length := (ValueTexts.intOfText (request.contentLength.getD "0")).getD 0
  if length ≤ 0 ∨ length > maxBodyBytes then
    .reply (.json 400 (errorPayload "invalid_request_body"))
  else
    match (request.body.take length.toNat).toByteArray.utf8Decode? with
    | none => .reply (.json 400 (errorPayload "invalid_json"))
    | some text =>
      match host.loads (String.ofList text.toList) with
      | .decodeError => .reply (.json 400 (errorPayload "invalid_json"))
      | .raises => .reply .dropped
      | .value (.dict fields) => next fields
      | .value _ => .reply (.json 400 (errorPayload "invalid_json"))

variable [TextDecoding]

/-- `parse_qs(query).get(name, [default])[0]`. -/
def queryValue (query : List Char) (name default : String) : String :=
  let items := ((query.splitOn '&').filter fun item => (cut '=' item).2 ≠ []).map fun item =>
    (unquotePlus (cut '=' item).1,unquotePlus (cut '=' item).2)
  (items.lookup name).getD default

/-- The limit of a listing: what the query asks for, between one and the server's bound. -/
def Server.limit (server : Server) (query : List Char) (default : String) (fallback : ℤ) : ℤ :=
  min server.maxDomains (max 1 ((ValueTexts.intOfText (queryValue query "limit" default)).getD fallback))

variable [CaseTables]

/-- The domain in a path. -/
def pathDomain (encoded : List Char) : String := normalizeDomain (String.ofList (unquote encoded))

def reviewsPath : List Char := "/v1/reviews/".toList

def decisionSuffix : List Char := "/decision".toList

variable [NetlocTables]

/-- `do_GET`. -/
def Server.doGet (server : Server) (host : Host) (request : Request) : Plan :=
  match urlsplit request.target.toList with
  | none => .reply .dropped
  | some parsed =>
    let path := String.ofList parsed.path
    if path = "/" ∨ path = "/app" then .reply (.redirect "/app/")
    else
      match getWebAsset host path with
      | some asset => .reply (.asset asset)
      | none => server.requireAuth request
        (if path = "/health" then .reply (.json 200 (.dict [("status",.str "ok")]))
        else if path = "/v1/status" then
          .reply (.json 200 (.dict [("status",.str "ok"),("api_version",.int 1),
            ("service",.str "wormhole-observatory"),
            ("capabilities",.list (["review_queue","review_lookup","queue_review","queue_rechecks",
              "cancel_jobs","review_pwa","review_decisions"].map Value.str))]))
        else if path = "/v1/reviews" then .call (.reviewQueue (server.limit parsed.query "200" 200))
        else if reviewsPath <+: parsed.path then
          let domain := pathDomain (parsed.path.drop reviewsPath.length)
          if domain = "" ∨ '/' ∈ domain.toList then
            .reply (.json 400 (errorPayload "invalid_domain"))
          else .call (.reviewLookup domain)
        else .reply (.json 404 (errorPayload "not_found")))

/-- The decision that a payload asks for. -/
def decisionPlan (domain : String) (fields : List (String × Value)) : Plan :=
  let decision := CaseTables.lower (strip ((field fields "decision").textOr ""))
  match field fields "postpone_until" with
  | .null => .call (.decide domain decision none)
  | raw =>
    match raw.toInt with
    | .ok postponeUntil => .call (.decide domain decision (some postponeUntil))
    | .error .overflow => .reply .dropped
    | .error _ => .reply (.json 400 (errorPayload "invalid_postpone_until"))

/-- The domains of a payload, first occurrences in order. -/
def payloadDomains (values : List Value) : List String :=
  ((values.filterMap fun value =>
    match value with
    | .str text => some (normalizeDomain text)
    | _ => none).filter (· ≠ "")).eraseDups

/-- The review that a payload asks for. -/
def Server.reviewPlan (server : Server) (fields : List (String × Value)) : Plan :=
  match field fields "domains" with
  | .list values =>
    let domains := payloadDomains values
    if domains = [] then .reply (.json 400 (errorPayload "no_valid_domains"))
    else if (domains.length : ℤ) > server.maxDomains then
      .reply (.json 413 (.dict [("error",.str "too_many_domains"),("limit",.int server.maxDomains)]))
    else .call (.review domains)
  | _ => .reply (.json 400 (errorPayload "domains_must_be_a_list"))

/-- `do_POST`. -/
def Server.doPost (server : Server) (host : Host) (request : Request) : Plan :=
  server.requireAuth request
    (match urlsplit request.target.toList with
    | none => .reply .dropped
    | some parsed =>
      let path := String.ofList parsed.path
      if reviewsPath <+: parsed.path ∧ decisionSuffix <:+ parsed.path then
        let encoded := (parsed.path.take (parsed.path.length-decisionSuffix.length)).drop
          reviewsPath.length
        let domain := pathDomain encoded
        if domain = "" ∨ '/' ∈ domain.toList then
          .reply (.json 400 (errorPayload "invalid_domain"))
        else readJson host request (decisionPlan domain)
      else if path = "/v1/review" then readJson host request server.reviewPlan
      else if path = "/v1/recheck-due" then
        .call (.recheckDue (server.limit parsed.query (toString server.maxDomains) server.maxDomains))
      else if path = "/v1/cancel" then .call .cancel
      else .reply (.json 404 (errorPayload "not_found")))

/-- A request that reaches the server, with the methods of `ScopedExternalTriggerServer`. -/
def Server.plan (server : Server) (host : Host) (request : Request) : Plan :=
  if clientAccessAllowed request.client server.accessMode then
    match request.method with
    | .get => server.doGet host request
    | .post => server.doPost host request
  else .reply (.json 403 (errorPayload "client_network_not_allowed"))

end Reading

/-! Calls. -/

/-- A row of a listing, or of another dictionary that is sent back. -/
abbrev Row := List (String × Value)

/-- `_REVIEW_API_FIELDS`. -/
def reviewApiFields : List String :=
  ["domain","tags","categories","policy","short","details","provider","status","service",
    "service_role","privacy_risk","security_risk","breakage_risk","confidence","needs_review",
    "review_reason","planned_action","action_status","locked","queue_source","queue_state",
    "queue_error","queue_priority","queue_created_at","updated_at"]

/-- `_serialize_review`. -/
def serializeReview (row : Row) : Row :=
  let payload := reviewApiFields.filterMap fun name => (row.lookup name).map fun value => (name,value)
  let payload :=
    match payload.lookup "tags",payload.lookup "categories" with
    | none,some (.list items) => payload++[("tags",Value.list items)]
    | none,some _ => payload++[("tags",Value.list [])]
    | _,_ => payload
  payload.filter fun item => item.1 ≠ "categories"

/-- What a callback comes to: a result, or the exception it raises. -/
inductive Outcome (α : Type)
  | returned (a : α)
  | valueError (message : String)
  | runtimeError (message : String)
  | raised

/-- What a server calls. Listings only read. -/
structure Callbacks (σ : Type) where
  queue : List String → σ → Outcome Row × σ
  cancel : σ → ℕ × σ
  recheck : ℤ → σ → Outcome ℕ × σ
  reviewQueue : ℤ → σ → List Row
  reviewLookup : String → σ → Option Row
  decision : String → String → Option ℤ → σ → Outcome Row × σ

section Calls

variable {σ : Type}

/-- The reply to a decision. -/
def decisionReply : Outcome Row → Reply
  | .returned result => .json 200 (.dict [("result",.dict result)])
  | .valueError message =>
    .json 400 (.dict [("error",.str "invalid_decision"),("message",.str message)])
  | .runtimeError message =>
    .json 409 (.dict [("error",.str "decision_conflict"),("message",.str message)])
  | .raised => .dropped

def reviewReply (domains : List String) : Outcome Row → Reply
  | .returned result => .json 202 (.dict [("status",.str "queued"),
      ("domains",.list (domains.map Value.str)),("result",.dict result)])
  | _ => .dropped

def recheckReply (limit : ℤ) : Outcome ℕ → Reply
  | .returned queued => .json 202 (.dict [("status",.str "queued"),("queued",.int queued),
      ("limit",.int limit)])
  | _ => .dropped

/-- What the handler does with the call that it comes to. -/
def Operation.perform (callbacks : Callbacks σ) (operation : Operation) (s : σ) : Reply × σ :=
  match operation with
  | .reviewQueue limit =>
    let items := ((callbacks.reviewQueue limit s).take limit.toNat).map fun row =>
      Value.dict (serializeReview row)
    (.json 200 (.dict [("items",.list items),("count",.int items.length),("limit",.int limit)]),s)
  | .reviewLookup domain =>
    match callbacks.reviewLookup domain s with
    | none => (.json 404 (errorPayload "review_not_found"),s)
    | some row => (.json 200 (.dict [("item",.dict (serializeReview row))]),s)
  | .decide domain decision postponeUntil =>
    (decisionReply (callbacks.decision domain decision postponeUntil s).1,
      (callbacks.decision domain decision postponeUntil s).2)
  | .review domains =>
    (reviewReply domains (callbacks.queue domains s).1,(callbacks.queue domains s).2)
  | .recheckDue limit => (recheckReply limit (callbacks.recheck limit s).1,(callbacks.recheck limit s).2)
  | .cancel =>
    (.json 200 (.dict [("status",.str "cancelled"),("jobs",.int (callbacks.cancel s).1)]),
      (callbacks.cancel s).2)

def Plan.perform (callbacks : Callbacks σ) (plan : Plan) (s : σ) : Reply × σ :=
  match plan with
  | .reply sent => (sent,s)
  | .call operation => operation.perform callbacks s

/-- A request, with what the callbacks do when it arrives. -/
structure Arrival (σ : Type) where
  request : Request
  callbacks : Callbacks σ

variable [ValueTexts] [TextDecoding] [CaseTables] [NetlocTables]

def Server.answer (server : Server) (host : Host) (arrival : Arrival σ) (s : σ) : Reply × σ :=
  (server.plan host arrival.request).perform arrival.callbacks s

end Calls

end Api
end WormholeObservatory
