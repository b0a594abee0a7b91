import WormholeObservatory.Effects
import WormholeObservatory.JsonValues
import WormholeObservatory.Runs
import WormholeObservatory.Text

/-! The connection to the API of a Pi-hole: a session that is opened when a request needs it,
carried by every request, and opened once more when the other side no longer knows it. What is
sent is kept with what came back. -/
namespace WormholeObservatory
namespace Connections

open JsonValues

inductive ConnectionState
  | unknown
  | online
  | degraded
  | authError
  | apiError
  | invalidConfig
  | tlsError
  | offline
  | closed
  deriving DecidableEq

structure ConnectionHealth where
  state : ConnectionState
  lastCheckedAt : ℚ
  lastSuccessAt : ℚ
  latencyMs : ℤ
  consecutiveFailures : ℕ
  statusCode : ℤ
  lastError : String

def ConnectionHealth.fresh : ConnectionHealth := ⟨.unknown,0,0,0,0,0,""⟩

inductive Method
  | get
  | post
  | put
  | patch
  | delete
  deriving DecidableEq

/-- What goes over the wire. The two tokens are the headers `X-FTL-SID` and `X-FTL-CSRF`. -/
structure Message where
  method : Method
  url : String
  params : Option Value
  json : Option Value
  files : Option String
  form : Option Value
  sid : Option String
  csrf : Option String

/-- A response; `json` is what `response.json()` gives, unless that raises. -/
structure Response where
  statusCode : ℤ
  reason : String
  content : String
  json : Option Value

/-- What `requests` raises, by the handlers of `_send_raw`. -/
inductive SendFailure
  | ssl
  | timeout
  | connection
  | invalidUrl
  | other

/-- What comes of a message, when, and how long it took. -/
structure Answer where
  time : ℚ
  latencyMs : ℤ
  outcome : SendFailure × String ⊕ Response

abbrev Log := List (Message × Answer)

/-- The other side and the clock: what a message is answered after what was sent before. -/
structure Peer where
  answer : Log → Message → Answer
  now : Log → ℚ

inductive Fault
  | connection (message : String)
  | authentication (message : String)
  | http (statusCode : ℤ) (message : String) (payload : Value)
  | conversion (e : ConversionError)

structure Link where
  baseUrl : String
  password : String
  sessionId : Option String
  csrfToken : Option String
  validity : Option ℤ
  closed : Bool
  health : ConnectionHealth
  log : Log

/-- `PiHole6Connection.__init__` on an address that is normalised. -/
def Link.fresh (baseUrl password : String) : Link :=
  ⟨baseUrl,password,none,none,none,false,.fresh,[]⟩

abbrev Api := EStateM Fault Link

/-! Health. -/

def Response.ok (r : Response) : Bool := decide (200 ≤ r.statusCode) && decide (r.statusCode < 300)

/-- `_record_response`. -/
def ConnectionHealth.recordResponse (previous : ConnectionHealth) (r : Response) (now : ℚ)
    (latencyMs : ℤ) : ConnectionHealth :=
  let state : ConnectionState :=
    if r.ok then .online
    else if r.statusCode = 401 ∨ r.statusCode = 403 then .authError
    else if r.statusCode = 429 ∨ 500 ≤ r.statusCode then .degraded
    else .apiError
  let status := "HTTP "++toString r.statusCode
  { state
    lastCheckedAt := now
    lastSuccessAt := if r.ok then now else previous.lastSuccessAt
    latencyMs := max 0 latencyMs
    consecutiveFailures := if r.ok then 0 else previous.consecutiveFailures+1
    statusCode := r.statusCode
    lastError :=
      if r.ok then ""
      else orElse r.reason (if state = .authError then "Authentication failed" else status) }

/-- `_record_failure`. -/
def ConnectionHealth.recordFailure (previous : ConnectionHealth) (state : ConnectionState)
    (error : String) (now : ℚ) : ConnectionHealth :=
  ⟨state,now,previous.lastSuccessAt,0,previous.consecutiveFailures+1,0,error⟩

def SendFailure.state : SendFailure → ConnectionState
  | .ssl => .tlsError
  | .timeout => .offline
  | .connection => .offline
  | .invalidUrl => .invalidConfig
  | .other => .apiError

def SendFailure.message (url text : String) : SendFailure → String
  | .ssl => "TLS verification failed for "++url++". Check the certificate or configured CA bundle."
  | .timeout => "Request timed out: "++url
  | .connection => "Could not connect to "++url++
      ". Check the Pi-hole address, protocol, and port."
  | .invalidUrl => "Invalid Pi-hole URL: "++url
  | .other => "Request failed for "++url++": "++text

/-! Responses. -/

/-- `_try_json`. -/
def Response.tryJson (r : Response) : Value := r.json.getD .null

section Texts

variable [ValueTexts]

/-- `_error_message`. -/
def errorMessage (payload : Value) (fallback : String) : String :=
  match payload with
  | .dict payload =>
    match field payload "error" with
    | .dict error =>
      if (field error "message").truthy then (field error "message").display
      else (field error "key").textOr fallback
    | _ =>
      match field payload "session" with
      | .dict session => (field session "message").textOr fallback
      | _ => fallback
  | _ => fallback

/-- What a response that is no success raises. -/
def Response.fault (r : Response) : Fault :=
  let message := errorMessage r.tryJson (orElse r.reason "Request failed")
  if r.statusCode = 401 then .authentication message else .http r.statusCode message r.tryJson

/-- `_decode_json`. -/
def decodeJson (r : Response) : Except Fault (List (String × Value)) :=
  if r.ok then
    match r.tryJson with
    | .dict payload => .ok payload
    | payload => .error (.http r.statusCode "Expected a JSON object" payload)
  else .error r.fault

/-- `str(x or "") or None`. -/
def token (x : Value) : Option String := if x.textOr "" = "" then none else some (x.textOr "")

/-- A session as the answer to a login describes it. -/
structure Session where
  sid : Option String
  csrf : Option String
  validity : Except ConversionError (Option ℤ)

inductive Login
  | failed (fault : Fault)
  | refused (message : String)
  | granted (session : Session)

/-- What `_authenticate` makes of the answer. -/
def readLogin (r : Response) : Login :=
  match decodeJson r with
  | .error fault => .failed fault
  | .ok data =>
    let refused := Login.refused (errorMessage (.dict data) "Authentication failed")
    match field data "session" with
    | .dict session =>
      if (field session "valid").truthy then
        .granted ⟨token (field session "sid"),token (field session "csrf"),
          match field session "validity" with
          | .null => .ok none
          | validity => validity.toInt.map some⟩
      else refused
    | _ => refused

/-! Requests. -/

/-- `_url`. -/
def Link.url (s : Link) (endpoint : String) : String :=
  s.baseUrl++String.ofList (endpoint.toList.dropWhile (· == '/'))

def Link.loginMessage (s : Link) : Message :=
  ⟨.post,s.url "auth",none,some (.dict [("password",.str s.password)]),none,none,none,none⟩

def Link.forget (s : Link) : Link := { s with sessionId := none, csrfToken := none }

/-- The `try` of `_send_raw`. -/
def transmit (peer : Peer) (m : Message) : Api Response := fun s =>
  let answer := peer.answer s.log m
  let log := s.log++[(m,answer)]
  match answer.outcome with
  | .inl (failure,text) => .error (.connection (failure.message m.url text)) { s with
      log, health := s.health.recordFailure failure.state text (peer.now log) }
  | .inr r => .ok r { s with
      log, health := s.health.recordResponse r (peer.now log) answer.latencyMs }

/-- `_record_auth_error`, and the exception after it. -/
def rejectLogin (peer : Peer) (message : String) : Api Unit := fun s =>
  .error (.authentication message)
    { s with health := s.health.recordFailure .authError message (peer.now s.log) }

/-- The second half of `_authenticate`. -/
def openSession (peer : Peer) (r : Response) : Api Unit := fun s =>
  match readLogin r with
  | .failed fault => .error fault s
  | .refused message => rejectLogin peer message s
  | .granted session =>
    let s := { s with sessionId := session.sid, csrfToken := session.csrf }
    match session.validity with
    | .error e => .error (.conversion e) s
    | .ok validity =>
      if session.sid = none then
        rejectLogin peer "Authentication returned no session ID" { s with validity }
      else .ok () { s with validity }

def closedFault : Fault := .connection "Connection is already closed"

/-- `_authenticate`. -/
def authenticate (peer : Peer) : Api Unit := fun s =>
  if s.password = "" ∨ s.sessionId.isSome then .ok () s
  else if s.closed then .error closedFault s
  else (transmit peer s.loginMessage >>= openSession peer) s

/-- The arguments of `request`. -/
structure Call where
  method : Method
  endpoint : String
  params : Option Value
  data : Option Value
  files : Option String
  binary : Bool

/-- The message of a call, with the headers of `_headers`. -/
def Call.message (call : Call) (s : Link) : Message where
  method := call.method
  url := s.url call.endpoint
  params := call.params
  json := if call.files.isSome then none else call.data
  files := call.files
  form := if call.files.isSome then call.data else none
  sid := s.sessionId
  csrf := s.csrfToken

/-- `_send_raw` for a call. -/
def sendRaw (peer : Peer) (call : Call) : Api Response := fun s =>
  if s.closed then .error closedFault s
  else (authenticate peer >>= fun _ => fun s => transmit peer (call.message s) s) s

inductive Payload
  | bytes (content : String)
  | json (value : Value)
  | text (content : String)

def Response.payload (r : Response) (binary : Bool) : Payload :=
  if binary then .bytes r.content
  else if r.statusCode = 204 ∨ strip r.content = "" then .json (.dict [])
  else
    match r.tryJson with
    | .null => .text r.content
    | value => .json value

/-- The second attempt of `request`, if the first was refused. -/
def retryRefused (peer : Peer) (call : Call) (response : Response) : Api Response := fun s =>
  if response.statusCode = 401 ∧ s.password ≠ "" then sendRaw peer call s.forget
  else .ok response s

/-- What `request` makes of the last response. -/
def conclude (call : Call) (response : Response) : Api Payload := fun s =>
  if response.ok then .ok (response.payload call.binary) s else .error response.fault s

/-- `request`. -/
def request (peer : Peer) (call : Call) : Api Payload := do
  let response ← sendRaw peer call
  let response ← retryRefused peer call response
  conclude call response

def logout : Call := ⟨.delete,"auth",none,none,none,false⟩

/-- `close_session`. -/
def closeSession (peer : Peer) : Api Unit := fun s =>
  if s.sessionId.isSome then
    match request peer logout s with
    | .ok _ s => .ok () { s.forget with validity := none }
    | .error e s => .error e { s.forget with validity := none }
  else .ok () s

/-- `close`, which does not raise. -/
def Link.close (peer : Peer) (s : Link) : Link :=
  if s.closed then s
  else
    let s := Effects.leaves (closeSession peer) s
    { s with
      closed := true
      health := { s.health with state := .closed, lastCheckedAt := peer.now s.log } }

/-- What a user of a connection can do with it. -/
inductive LinkOp
  | request (call : Call)
  | closeSession
  | close

def LinkOp.exec (peer : Peer) (s : Link) : LinkOp → Link
  | .request call => Effects.leaves (Connections.request peer call) s
  | .closeSession => Effects.leaves (Connections.closeSession peer) s
  | .close => s.close peer

def Link.Step (peer : Peer) (s : Link) (op : LinkOp) (s' : Link) : Prop := op.exec peer s = s'

end Texts

end Connections
end WormholeObservatory
