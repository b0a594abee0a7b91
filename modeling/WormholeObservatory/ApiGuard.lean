import WormholeObservatory.Answers
import WormholeObservatory.ApiServer

/-! Who can move the store over HTTP. Only a request to change something that comes from an allowed
network with the token does; all others can be left out of any run of the server. -/
namespace WormholeObservatory
namespace Api

open Urls
open IpAddresses
open JsonValues
open ReviewLinks (TextDecoding)

/-- The request comes from an allowed network and carries the token. -/
def Server.trusts [CaseTables] (server : Server) (request : Request) : Bool :=
  clientAccessAllowed request.client server.accessMode &&
    decide (request.authorization = some ("Bearer "++server.token))

/-- The request is to change something, and is trusted. -/
def Server.admits [CaseTables] (server : Server) (request : Request) : Bool :=
  server.trusts request && decide (request.method = .post)

/-- The calls that only read. -/
def Operation.reads : Operation → Bool
  | .reviewQueue _ => true
  | .reviewLookup _ => true
  | _ => false

theorem authorization_of_authorized {server : Server} {request : Request}
    (h : server.authorized request = some true) :
    request.authorization = some ("Bearer "++server.token) := by
  rw [Server.authorized,compareDigest] at h
  split at h
  · have hsame : request.authorization.getD "" = "Bearer "++server.token := by simpa using h
    cases hheader : request.authorization with
    | none =>
      rw [hheader] at hsame
      have hempty := congrArg String.toList hsame
      simp at hempty
    | some supplied =>
      rw [hheader] at hsame
      exact congrArg some hsame
  · cases h

/-- Behind the check, a call takes the token. -/
theorem requireAuth_call {server : Server} {request : Request} {plan : Plan} {operation : Operation}
    (h : server.requireAuth request plan = .call operation) :
    server.authorized request = some true ∧ plan = .call operation := by
  rw [Server.requireAuth] at h
  cases hauthorized : server.authorized request with
  | none =>
    rw [hauthorized] at h
    cases h
  | some right =>
    rw [hauthorized] at h
    cases right with
    | true => exact ⟨rfl,h⟩
    | false => cases h

section Plans

variable [ValueTexts] [TextDecoding] [CaseTables] [NetlocTables]
variable {server : Server} {host : Host} {request : Request} {operation : Operation}

theorem doGet_call (h : server.doGet host request = .call operation) :
    server.authorized request = some true ∧ operation.reads = true := by
  rw [Server.doGet] at h
  cases hsplit : urlsplit request.target.toList with
  | none =>
    rw [hsplit] at h
    cases h
  | some parsed =>
    rw [hsplit] at h
    dsimp only at h
    split at h
    · cases h
    split at h
    · cases h
    obtain ⟨hauthorized,hplan⟩ := requireAuth_call h
    refine ⟨hauthorized,?_⟩
    split at hplan
    · cases hplan
    split at hplan
    · cases hplan
    split at hplan
    · cases hplan
      rfl
    split at hplan
    · split at hplan
      · cases hplan
      · cases hplan
        rfl
    · cases hplan

theorem doPost_call (h : server.doPost host request = .call operation) :
    server.authorized request = some true := (requireAuth_call h).1

/-- A call takes a trusted request, and one that writes takes an admitted one. -/
theorem plan_call (h : server.plan host request = .call operation) :
    server.trusts request = true ∧ (operation.reads = true ∨ server.admits request = true) := by
  rw [Server.plan] at h
  split at h
  · rename_i hallowed
    cases hmethod : request.method with
    | get =>
      rw [hmethod] at h
      obtain ⟨hauthorized,hreads⟩ := doGet_call h
      refine ⟨?_,.inl hreads⟩
      simp [Server.trusts,hallowed,authorization_of_authorized hauthorized]
    | post =>
      rw [hmethod] at h
      have htrusts : server.trusts request = true := by
        simp [Server.trusts,hallowed,authorization_of_authorized (doPost_call h)]
      exact ⟨htrusts,.inr (by simp [Server.admits,htrusts,hmethod])⟩
  · cases h

variable {σ : Type}

omit [ValueTexts] [TextDecoding] [CaseTables] [NetlocTables] in
theorem perform_reads {callbacks : Callbacks σ} (h : operation.reads = true) (s : σ) :
    (operation.perform callbacks s).2 = s := by
  cases operation with
  | reviewQueue limit => rfl
  | reviewLookup domain =>
    rw [Operation.perform]
    split <;> rfl
  | decide domain decision postponeUntil => cases h
  | review domains => cases h
  | recheckDue limit => cases h
  | cancel => cases h

/-- A request that is not admitted leaves the store as it is. -/
theorem answer_still (server : Server) (host : Host) :
    Answers.Still (server.answer host (σ := σ)) fun arrival => server.admits arrival.request := by
  intro arrival s hadmits
  rw [Server.answer]
  cases hplan : server.plan host arrival.request with
  | reply sent => rfl
  | call operation =>
    rcases (plan_call hplan).2 with hreads | hadmitted
    · exact perform_reads hreads s
    · cases hadmits.symm.trans hadmitted

/-- What is sent says nothing of the store, unless the request is trusted. -/
def Server.Blind (server : Server) (host : Host) (arrival : Arrival σ) (sent : Reply) : Prop :=
  server.trusts arrival.request = false → ∀ (callbacks : Callbacks σ) (s : σ),
    sent = (server.answer host ⟨arrival.request,callbacks⟩ s).1

theorem answer_blind (server : Server) (host : Host) (arrival : Arrival σ) (s : σ) :
    server.Blind host arrival (server.answer host arrival s).1 := by
  intro h callbacks s'
  rw [Server.answer,Server.answer]
  cases hplan : server.plan host arrival.request with
  | reply sent => rfl
  | call operation =>
    have htrusts := (plan_call hplan).1
    rw [h] at htrusts
    cases htrusts

end Plans

section Starting

variable [CaseTables]

theorem normalizeAccessMode_local (legacyRemote : Bool) :
    normalizeAccessMode "local" legacyRemote = "local" := by
  have hstrip : strip "local" = "local" := by decide
  have hascii : ("local".toList.all fun c => decide (c.toNat < 128)) = true := by decide
  have hlower : CaseTables.lower "local" = "local" := by
    rw [CaseTables.lower_ascii _ fun c hc => of_decide_eq_true (List.all_eq_true.mp hascii c hc)]
    decide
  rw [normalizeAccessMode,hstrip,hlower]
  exact if_pos (by decide)

/-- With local access, a client is on the machine itself. -/
theorem loopback_of_allowed {address : String} (h : clientAccessAllowed address "local" = true) :
    (ipAddress (String.ofList (cut '%' address.toList).1)).any IpAddress.isLoopback = true := by
  rw [clientAccessAllowed,normalizeAccessMode_local] at h
  cases hip : ipAddress (String.ofList (cut '%' address.toList).1) with
  | none =>
    rw [hip] at h
    cases h
  | some ip =>
    rw [hip] at h
    simpa using h

/-- The mode stays what it is when it decides about remote access itself. -/
theorem normalizeAccessMode_again (value : String) (legacyRemote : Bool) :
    normalizeAccessMode value (normalizeAccessMode value legacyRemote != "local") =
      normalizeAccessMode value legacyRemote := by
  by_cases hmode : CaseTables.lower (strip value) ∈ accessModes
  · simp only [normalizeAccessMode,hmode,if_true]
  · cases legacyRemote <;> simp [normalizeAccessMode,hmode]

variable [ValueTexts]

theorem loadReviewAccessOptions_again (file : AccessFile) (allowRemote : Bool) :
    loadReviewAccessOptions file (loadReviewAccessOptions file allowRemote != "local") =
      loadReviewAccessOptions file allowRemote := by
  have hdefault : ∀ remote : Bool, (if ((if remote then "any" else "local") != "local") = true then "any"
      else "local") = if remote then "any" else "local" := by decide
  cases file with
  | missing => exact hdefault allowRemote
  | unreadable => exact hdefault allowRemote
  | read value =>
    cases value with
    | dict fields => exact normalizeAccessMode_again _ _
    | _ => exact hdefault allowRemote

/-- A server that starts has a token, and hears others than the machine itself only where remote
access was chosen. -/
theorem start_guarded {options : Config.ExternalTriggerOptions} {file : AccessFile} {server : Server}
    (h : start options file = .ok (some server)) :
    server.token ≠ "" ∧ (server.accessMode = "local" →
      isLoopbackHost (orElse (strip options.bindHost) "127.0.0.1") = true) := by
  simp only [start] at h
  split at h
  · cases h
  split at h
  · cases h
  split at h
  · cases h
  rename_i htoken hremote
  obtain rfl := Option.some.inj (Except.ok.inj h)
  refine ⟨htoken,fun hmode => ?_⟩
  by_contra hhost
  refine hremote ⟨by simpa using hhost,?_⟩
  dsimp only at hmode
  rw [loadReviewAccessOptions_again] at hmode
  simp [hmode]

variable [TextDecoding] [NetlocTables] {σ : Type}

/-- Whatever comes in, in whatever order, a started server ends in the store, and gives the answers to
the requests it admits, that it would have without all others. Those others, where they come from
elsewhere or lack the token, are answered the same whatever the store. The token is not empty; with
local access, only the machine itself is trusted, and the server is bound to it. -/
theorem unadmitted_requests_erased {options : Config.ExternalTriggerOptions} {file : AccessFile}
    {server : Server} (hstart : start options file = .ok (some server)) (host : Host)
    (arrivals : List (Arrival σ)) (s : σ) :
    Answers.run (server.answer host) (arrivals.filter fun arrival => server.admits arrival.request) s =
        ((Answers.run (server.answer host) arrivals s).1.filter
          fun answer => server.admits answer.1.request,
          (Answers.run (server.answer host) arrivals s).2) ∧
      (∀ answer ∈ (Answers.run (server.answer host) arrivals s).1, server.Blind host answer.1 answer.2) ∧
      (∀ request, server.trusts request = true → server.token ≠ "" ∧
        request.authorization = some ("Bearer "++server.token)) ∧
      (server.accessMode = "local" →
        isLoopbackHost (orElse (strip options.bindHost) "127.0.0.1") = true ∧
        ∀ request, server.trusts request = true →
          (ipAddress (String.ofList (cut '%' request.client.toList).1)).any IpAddress.isLoopback) := by
  obtain ⟨htoken,hlocal⟩ := start_guarded hstart
  have htrusts : ∀ request, server.trusts request = true →
      clientAccessAllowed request.client server.accessMode = true ∧
        request.authorization = some ("Bearer "++server.token) := fun request h => by
    simpa [Server.trusts] using h
  refine ⟨Answers.run_filter (answer_still server host) arrivals s,?_,?_,fun hmode => ?_⟩
  · exact Answers.forall_answers (answer_blind server host) arrivals s
  · exact fun request h => ⟨htoken,(htrusts request h).2⟩
  · refine ⟨hlocal hmode,fun request h => ?_⟩
    have hallowed := (htrusts request h).1
    rw [hmode] at hallowed
    exact loopback_of_allowed hallowed

end Starting

/-- A count of the cancellations. -/
def countingCallbacks : Callbacks ℕ where
  queue _ n := (.raised,n)
  cancel n := (1,n+1)
  recheck _ n := (.raised,n)
  reviewQueue _ _ := []
  reviewLookup _ _ := none
  decision _ _ _ n := (.raised,n)

def sampleOptions : Config.ExternalTriggerOptions := { enabled := true, token := "secret" }

def sampleServer : Server := ⟨"secret",500,"local"⟩

def sampleHost : Host := ⟨fun _ => none,fun _ => .decodeError⟩

/-- A cancellation with the header. -/
def cancelArrival (authorization : Option String) : Arrival ℕ :=
  ⟨⟨.post,"/v1/cancel",authorization,none,[],"127.0.0.1"⟩,countingCallbacks⟩

theorem unadmitted_requests_sample :
    (Answers.run (sampleServer.answer sampleHost)
      [cancelArrival none,cancelArrival (some "Bearer secret")] 0).2 = 1 ∧
    (Answers.run (sampleServer.answer sampleHost)
      ([cancelArrival none,cancelArrival (some "Bearer secret")].filter
        fun arrival => sampleServer.admits arrival.request) 0).2 = 1 := by
  have hstart : start sampleOptions .missing = .ok (some sampleServer) := by rfl
  have herased := (unadmitted_requests_erased hstart sampleHost
    [cancelArrival none,cancelArrival (some "Bearer secret")] 0).1
  have hcount : (Answers.run (sampleServer.answer sampleHost)
      [cancelArrival none,cancelArrival (some "Bearer secret")] 0).2 = 1 := by decide
  exact ⟨hcount,(congrArg Prod.snd herased).trans hcount⟩

end Api
end WormholeObservatory
