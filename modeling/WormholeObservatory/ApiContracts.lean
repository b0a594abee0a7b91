import WormholeObservatory.ApiGuard
import WormholeObservatory.EnqueueAccounts
import WormholeObservatory.ManualRequests
import WormholeObservatory.ReviewStore

/-! The server over the tables, and what a client may conclude from the answer to a review: where its
names are, and that nothing else was touched. -/
namespace WormholeObservatory
namespace Api

open JsonValues
open ReviewLinks (TextDecoding)
open PiHole (World Fault)
open Review (Store)
open Queue (StagingRow)
open Urls (NetlocTables)

/-! The callbacks. -/

/-- What the callbacks find when they are called. What the listings show of the tables and how many
jobs a cancellation ends is left open. -/
structure Moment where
  call : PiHole.Call
  excludedSuffixes : List String
  listed : ℤ → Store → List Row
  found : String → Store → Option Row
  cancelled : ℕ

def Moment.context (m : Moment) : Queue.Context := ⟨m.call.now,m.excludedSuffixes⟩

/-- `asdict` of the result of an enqueue. -/
def enqueueRow (result : Queue.EnqueueResult) : Row :=
  [("requested",.int result.requested),("queued",.int result.queued),
    ("requeued",.int result.requeued),("already_pending",.int result.alreadyPending),
    ("skipped_locked",.int result.skippedLocked),("skipped_filtered",.int result.skippedFiltered)]

/-- `review_preference_get`. -/
def preferenceRow (domain : String) (s : Store) : Value :=
  match s.preferences.lookup domain with
  | none => .null
  | some p => .dict [("domain",.str domain),("never_ask",.bool p.neverAsk),
      ("postponed_until",(p.postponedUntil.map Value.int).getD .null),
      ("last_decision",.str p.lastDecision),("updated_at",.int p.updatedAt)]

section Callbacks

variable [CaseTables]

/-- `ReviewDecisionResult.to_dict`. -/
def decisionRow (domain decision : String) (postponeUntil : Option ℤ) (s : Store) : Row :=
  let selected := CaseTables.lower (strip decision)
  [("domain",.str (normalizeDomain domain)),("decision",.str selected),("applied",.bool true),
    ("preference",preferenceRow (normalizeDomain (normalizeDomain domain)) s)]++
    (match postponeUntil with
    | some postponed => if selected = "postpone" then [("postpone_until",.int postponed)] else []
    | none => [])

/-- The exceptions that `do_POST` tells apart. -/
def faultOutcome {α : Type} : Fault → Outcome α
  | .valueError message => .valueError message
  | .invalidReviewDecision message => .valueError message
  | .runtimeError message => .runtimeError message
  | .reviewDecisionConflict message => .runtimeError message

/-- The callbacks that `configure_external_trigger` gives a server. -/
def Moment.callbacks (m : Moment) : Callbacks Store where
  queue domains s :=
    match Queue.queueDomainsForReview m.context domains "manual_external_trigger" s.queue with
    | .error _ => (.valueError "domain must not be empty",s)
    | .ok (result,queue) => (.returned (enqueueRow result),s.setQueue queue)
  cancel s := (m.cancelled,s)
  recheck limit s :=
    match Queue.queueDueRechecks m.context limit s.queue with
    | .error _ => (.valueError "domain must not be empty",s)
    | .ok (queued,queue) => (.returned queued,s.setQueue queue)
  reviewQueue := m.listed
  reviewLookup := m.found
  decision domain decision postponeUntil s :=
    match Review.executeDecision m.call ⟨domain,decision,postponeUntil,""⟩ s with
    | .ok _ s => (.returned (decisionRow domain decision postponeUntil s),s)
    | .error fault s => (faultOutcome fault,s)

end Callbacks

/-! What a request comes to. -/

section Plans

variable [ValueTexts]

theorem readJson_call {host : Host} {request : Request} {next : List (String × Value) → Plan}
    {operation : Operation} (h : readJson host request next = .call operation) :
    ∃ fields, next fields = .call operation := by
  simp only [readJson] at h
  split at h
  · cases h
  cases hdecoded : (request.body.take ((ValueTexts.intOfText (request.contentLength.getD "0")).getD
      0).toNat).toByteArray.utf8Decode? with
  | none =>
    rw [hdecoded] at h
    cases h
  | some text =>
    rw [hdecoded] at h
    dsimp only at h
    split at h
    · cases h
    · cases h
    · exact ⟨_,h⟩
    · cases h

/-- A body that is the encoding of a text, and is sent with its length, is read as that text. -/
theorem readJson_encoded {host : Host} {request : Request} {next : List (String × Value) → Plan}
    {text : String} {fields : List (String × Value)}
    (hbody : request.body = text.toList.flatMap String.utf8EncodeChar)
    (hlength : ValueTexts.intOfText (request.contentLength.getD "0") = some (request.body.length : ℤ))
    (hsome : 0 < request.body.length) (hfits : request.body.length ≤ 64*1024)
    (hloads : host.loads text = .value (.dict fields)) : readJson host request next = next fields := by
  have hdecoded : (text.toList.flatMap String.utf8EncodeChar).toByteArray.utf8Decode? =
      some text.toList.toArray := by
    have hdecode := List.utf8Decode?_utf8Encode (l := text.toList)
    rwa [List.utf8Encode] at hdecode
  have hbounds : ¬((request.body.length : ℤ) ≤ 0 ∨ (request.body.length : ℤ) > maxBodyBytes) := by
    rw [maxBodyBytes]
    omega
  simp only [readJson,hlength,Option.getD_some]
  rw [if_neg hbounds,Int.toNat_natCast,List.take_length,hbody,hdecoded]
  simp [hloads]

variable [CaseTables]

theorem decisionPlan_call {domain : String} {fields : List (String × Value)} {operation : Operation}
    (h : decisionPlan domain fields = .call operation) :
    ∃ decision postponeUntil, operation = .decide domain decision postponeUntil := by
  simp only [decisionPlan] at h
  split at h
  · cases h
    exact ⟨_,_,rfl⟩
  · split at h
    · cases h
      exact ⟨_,_,rfl⟩
    · cases h
    · cases h

omit [ValueTexts] in
theorem reviewPlan_call {server : Server} {fields : List (String × Value)} {operation : Operation}
    (h : server.reviewPlan fields = .call operation) :
    ∃ values, operation = .review (payloadDomains values) ∧
      (payloadDomains values).length ≤ server.maxDomains := by
  simp only [Server.reviewPlan] at h
  split at h
  · split at h
    · cases h
    · split at h
      · cases h
      · rename_i hfits
        cases h
        exact ⟨_,rfl,not_lt.mp hfits⟩
  · cases h

variable [TextDecoding] [NetlocTables] {server : Server} {host : Host} {request : Request}

theorem doPost_decision {parsed : Urls.SplitResult} {domain : String}
    (hauthorized : server.authorized request = some true)
    (hsplit : Urls.urlsplit request.target.toList = some parsed)
    (hpath : reviewsPath <+: parsed.path ∧ decisionSuffix <:+ parsed.path)
    (hdomain : pathDomain ((parsed.path.take (parsed.path.length-decisionSuffix.length)).drop
      reviewsPath.length) = domain) (hnamed : ¬(domain = "" ∨ '/' ∈ domain.toList)) :
    server.doPost host request = readJson host request (decisionPlan domain) := by
  simp only [Server.doPost,Server.requireAuth,hauthorized,hsplit]
  rw [if_pos hpath,hdomain,if_neg hnamed]

theorem doPost_review {parsed : Urls.SplitResult} (hauthorized : server.authorized request = some true)
    (hsplit : Urls.urlsplit request.target.toList = some parsed)
    (hpath : parsed.path = "/v1/review".toList) :
    server.doPost host request = readJson host request server.reviewPlan := by
  simp only [Server.doPost,Server.requireAuth,hauthorized,hsplit,hpath]
  rw [if_neg (by decide),if_pos (by decide)]

/-- The calls that write, with what was checked before them. -/
theorem doPost_cases {operation : Operation} (h : server.doPost host request = .call operation) :
    (∃ domain decision postponeUntil, operation = .decide domain decision postponeUntil ∧ domain ≠ "") ∨
    (∃ values, operation = .review (payloadDomains values) ∧
      (payloadDomains values).length ≤ server.maxDomains) ∨
    (∃ limit, operation = .recheckDue limit) ∨ operation = .cancel := by
  obtain ⟨-,h⟩ := requireAuth_call h
  cases hsplit : Urls.urlsplit request.target.toList with
  | none =>
    rw [hsplit] at h
    cases h
  | some parsed =>
    rw [hsplit] at h
    dsimp only at h
    split at h
    · split at h
      · cases h
      · rename_i hdomain
        obtain ⟨fields,hfields⟩ := readJson_call h
        obtain ⟨decision,postponeUntil,rfl⟩ := decisionPlan_call hfields
        exact .inl ⟨_,_,_,rfl,fun hempty => hdomain (.inl hempty)⟩
    split at h
    · obtain ⟨fields,hfields⟩ := readJson_call h
      exact .inr (.inl (reviewPlan_call hfields))
    split at h
    · cases h
      exact .inr (.inr (.inl ⟨_,rfl⟩))
    split at h
    · cases h
      exact .inr (.inr (.inr rfl))
    · cases h

theorem plan_writes {operation : Operation} (hwrites : operation.reads = false)
    (h : server.plan host request = .call operation) : server.doPost host request = .call operation := by
  rw [Server.plan] at h
  split at h
  · cases hmethod : request.method with
    | get =>
      rw [hmethod] at h
      have hreads := (doGet_call h).2
      rw [hwrites] at hreads
      cases hreads
    | post =>
      rw [hmethod] at h
      exact h
  · cases h

end Plans

/-! Reviews. -/

section Reviews

variable [CaseTables]

/-- Where a name is once its review is accepted: it was nothing but a spelling of no name, it is
excluded or locked, a worker has it, or it waits for one in front of what was not asked for by hand. -/
def Placed (c : Queue.Context) (s s' : Store) (d : String) : Prop :=
  normalizeDomain d = "" ∨ domainMatchesSuffix (normalizeDomain d) c.excludedSuffixes = true ∨
  (s.queue.locks.lookup (normalizeDomain (normalizeDomain d))).isSome = true ∨
  ∃ row, s'.queue.staging.lookup (normalizeDomain (normalizeDomain d)) = some row ∧
    (row.state = .processing ∨ row.state = .queued ∧ 100 ≤ row.priority ∧ row.availableAt = 0 ∧
      (row.poolId = .realtime ∨ 100 < row.priority))

omit [CaseTables] in
theorem stage_waits {r : Queue.Request} (hpriority : r.priority = 100) (hpool : r.pool = .realtime)
    (hrequeue : r.requeueExisting = true) (row : Option StagingRow) :
    (r.stage row).2.state = .processing ∨ (r.stage row).2.state = .queued ∧
      100 ≤ (r.stage row).2.priority ∧ (r.stage row).2.availableAt = 0 ∧
      ((r.stage row).2.poolId = .realtime ∨ 100 < (r.stage row).2.priority) := by
  cases row with
  | none => exact .inr ⟨rfl,hpriority.ge,rfl,.inl hpool⟩
  | some row =>
    simp only [Queue.Request.stage,hpriority,hpool,hrequeue]
    by_cases hprocessing : row.state = .processing
    · simp [hprocessing]
    by_cases hqueued : row.state = .queued
    · rcases le_or_gt row.priority 100 with hle | hlt
      · simp [hqueued,hle]
      · simp [hqueued,not_le.mpr hlt,hlt,hlt.le]
    · simp [hprocessing,hqueued]

theorem mem_payloadDomains {values : List Value} {d : String} (h : d ∈ payloadDomains values) :
    d ≠ "" := by
  have hmem := List.mem_eraseDups.mp h
  simpa using (List.mem_filter.mp hmem).2

theorem mem_admitted {c : Queue.Context} {values : List String} {d : String} :
    d ∈ c.admitted values ↔ d ≠ "" ∧ domainMatchesSuffix d c.excludedSuffixes = false ∧
      ∃ e ∈ values, normalizeDomain e = d := by
  simp only [Queue.Context.admitted,Queue.uniqueDomains,List.mem_filter,List.mem_eraseDups,
    List.mem_map,Bool.not_eq_true',decide_eq_true_eq]
  tauto

/-- What the queue makes of a review: its names are placed and no others are touched, unless one of
them is a spelling of no name, which ends the call. -/
theorem queueDomainsForReview_places (c : Queue.Context) (domains : List String) (source : String)
    (s : Store) :
    (∃ result queue, Queue.queueDomainsForReview c domains source s.queue = .ok (result,queue) ∧
      result.requested = result.queued+result.requeued+result.alreadyPending+
        result.skippedLocked+result.skippedFiltered ∧
      (∀ d ∈ domains, Placed c s (s.setQueue queue) d) ∧
      ∀ key, (∀ d ∈ domains, normalizeDomain (normalizeDomain d) ≠ key) →
        queue.staging.lookup key = s.queue.staging.lookup key) ∨
    (∃ e, Queue.queueDomainsForReview c domains source s.queue = .error e) ∧
      ∃ d ∈ domains, normalizeDomain d ≠ "" ∧ normalizeDomain (normalizeDomain d) = "" := by
  by_cases hnamed : ∀ d ∈ c.admitted domains, normalizeDomain d ≠ ""
  · obtain ⟨result,queue,hruns,-,hcounted,hrows⟩ :=
      Queue.stagingEnqueueDetailed_runs 100 source "realtime" true s.queue hnamed
    refine .inl ⟨result,queue,hruns,hcounted,fun d hd => ?_,fun key hkey => ?_⟩
    · by_cases hempty : normalizeDomain d = ""
      · exact .inl hempty
      cases hsuffix : domainMatchesSuffix (normalizeDomain d) c.excludedSuffixes with
      | true => exact .inr (.inl hsuffix)
      | false =>
        cases hlock : s.queue.locks.lookup (normalizeDomain (normalizeDomain d)) with
        | some lock => exact .inr (.inr (.inl (by rw [hlock]; rfl)))
        | none =>
          have hstores : Queue.Stores s.queue (c.admitted domains)
              (normalizeDomain (normalizeDomain d)) :=
            ⟨List.mem_map_of_mem (mem_admitted.mpr ⟨hempty,hsuffix,d,hd,rfl⟩),hlock⟩
          refine .inr (.inr (.inr ⟨_,(hrows _).trans (if_pos hstores),stage_waits rfl ?_ rfl _⟩))
          simp [Queue.Context.request,Queue.queuePoolId,Queue.parsePool_realtime]
    · rw [hrows key,if_neg]
      rintro ⟨hmem,-⟩
      obtain ⟨n,hn,rfl⟩ := List.mem_map.mp hmem
      obtain ⟨-,-,d,hd,rfl⟩ := mem_admitted.mp hn
      exact hkey d hd rfl
  · obtain ⟨n,hn,hempty⟩ : ∃ n ∈ c.admitted domains, normalizeDomain n = "" := by
      simpa using hnamed
    obtain ⟨hne,-,d,hd,rfl⟩ := mem_admitted.mp hn
    refine .inr ⟨?_,d,hd,hne,hempty⟩
    rw [Queue.queueDomainsForReview,Queue.stagingEnqueueDetailed]
    cases hall : (c.request 100 source "realtime" true).enqueueAll (c.admitted domains) s.queue with
    | error e => exact ⟨e,rfl⟩
    | ok ended => exact absurd hempty (Queue.enqueueAll_named hall _ hn)

variable [ValueTexts] [TextDecoding] [NetlocTables] {server : Server} {host : Host} {request : Request}

end Reviews

/-! A review of two names, one of them twice. -/

section Samples

/-- `int` of a text of digits. -/
@[reducible] def digitTexts : ValueTexts where
  repr _ := ""
  floatOfText _ := none
  intOfText s := if s.toList.all Char.isDigit then
    some (s.toList.foldl (fun n c => 10*n+(c.toNat-48)) 0 : ℕ) else none

attribute [local instance] digitTexts

def sampleMoment : Moment where
  call := ⟨7,fun _ => ⟨.answered,""⟩,none⟩
  excludedSuffixes := []
  listed _ _ := []
  found _ _ := none
  cancelled := 0

/-- A store in which the name waits to be analysed. -/
def waitingStore : Store := Review.Store.empty.setQueue { Queue.Database.empty with
  staging := (∅ : Table String StagingRow).insert "ads.example"
    ⟨.queued,0,1,1,"",0,"live_query",.background,0⟩ }

def reviewText : String := "\x7b\"domains\":[\"Ads.example\",\"ads.example.\"]\x7d"

def reviewHost : Host where
  pageFile _ := none
  loads text := if text = reviewText then
      .value (.dict [("domains",.list [.str "Ads.example",.str "ads.example."])])
    else .decodeError

def reviewRequest : Request :=
  ⟨.post,"/v1/review",some "Bearer secret",some "42",
    reviewText.toList.flatMap String.utf8EncodeChar,"127.0.0.1"⟩

theorem reviewRequest_plan : sampleServer.plan reviewHost reviewRequest =
    .call (.review ["ads.example"]) := by
  have hallowed : clientAccessAllowed reviewRequest.client sampleServer.accessMode = true := by decide
  have hauthorized : sampleServer.authorized reviewRequest = some true := by decide
  have hsplit : Urls.urlsplit reviewRequest.target.toList =
      some ⟨[],[],"/v1/review".toList,[],[]⟩ := by decide
  have hread : readJson reviewHost reviewRequest sampleServer.reviewPlan = sampleServer.reviewPlan
      [("domains",.list [.str "Ads.example",.str "ads.example."])] :=
    readJson_encoded rfl (by decide) (by decide) (by decide) (by simp [reviewHost])
  have hdomains : payloadDomains [.str "Ads.example",.str "ads.example."] = ["ads.example"] := by
    decide +kernel
  have hfield : field [("domains",Value.list [.str "Ads.example",.str "ads.example."])] "domains" =
      .list [.str "Ads.example",.str "ads.example."] := rfl
  rw [Server.plan,if_pos hallowed]
  refine (doPost_review hauthorized hsplit rfl).trans (hread.trans ?_)
  simp only [Server.reviewPlan,hfield,hdomains]
  rw [if_neg (by simp),if_neg (by decide)]

end Samples

end Api
end WormholeObservatory
