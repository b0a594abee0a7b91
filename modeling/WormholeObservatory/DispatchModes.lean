import WormholeObservatory.Letters
import WormholeObservatory.VerifyDispatch

/-! `dispatch_analysis` and the modes of an analysis pool. Provider calls that run
side by side are numbered in the order they are submitted in; which of them a wait
reports, and when, is up to the `Progress` of the dispatch. -/
namespace WormholeObservatory
namespace Dispatch

inductive AnalysisPoolMode
  | distribute
  | fallback
  | compare
  | verify
  deriving DecidableEq, Repr

/-- The domains of `_freeze_dossiers`; `dict.fromkeys` keeps the first of equal names. -/
def freezeDomains [CaseTables] (domains : List String) : List String :=
  ((domains.filter (strip · ≠ "")).map normalizeDomain).eraseDups

/-- The dossiers of `_freeze_dossiers`, by domain. A domain without one gets a dossier
that holds nothing but its name, here `none`. -/
def freezeDossiers {δ : Type*} [CaseTables] (domains : List String) (dossiers : List (String × δ)) :
    List (String × Option δ) :=
  (freezeDomains domains).map fun domain =>
    (domain,(dossiers.reverse.find? (normalizeDomain ·.1 = domain)).map Prod.snd)

/-- A provider call: the candidate and the domains it is asked about. -/
abbrev Call := Candidate × List String

/-- What a dispatch returns. -/
abbrev Outcome := List ProviderAnalysisResult × List ProviderAnalysisError

/-- One `wait` of `_iter_completed`: the positions of the calls it reports, and the
cancellation token before and after it. -/
structure Poll where
  cancelledBefore : Bool := false
  done : List ℕ
  cancelledAfter : Bool := false

/-- What the dispatcher meets while calls are under way. `cancelledAt` is the token at its
own checks, one for each provider it turns to. -/
structure Progress where
  cancelledAt : ℕ → Bool := fun _ => false
  polls : List Poll := []

/-- Every one of `n` calls is reported, once. -/
def Progress.Completes (progress : Progress) (n : ℕ) : Prop :=
  (progress.polls.flatMap Poll.done).Perm (List.range n)

/-- The token stays clear. -/
structure Progress.Undisturbed (progress : Progress) : Prop where
  cancelledAt : ∀ i, progress.cancelledAt i = false
  before : ∀ poll ∈ progress.polls, poll.cancelledBefore = false
  after : ∀ poll ∈ progress.polls, poll.cancelledAfter = false

/-- What the body of the loop over completed calls makes of one of them. -/
def settleCall (cooldownUntil : String → ℚ) (execute : Executor) (isPrimary : Bool) (call : Call) :
    Except DispatchError Outcome :=
  match execute call.1 call.2 isPrimary with
  | .returned result => .ok ([result],[])
  | .partialAnalysis result _ cause => .ok ([result],[providerError cooldownUntil call.1 cause])
  | .raised .cancelled _ => .error (.execution .cancelled)
  | .raised e _ => .ok ([],[providerError cooldownUntil call.1 e])

/-- What two stretches of the loop append, one after the other. -/
def joinOutcomes : Except DispatchError Outcome → Except DispatchError Outcome →
    Except DispatchError Outcome
  | .error e, _ => .error e
  | .ok _, .error e => .error e
  | .ok (results,errors), .ok (results',errors') => .ok (results++results',errors++errors')

def collectCalls (cooldownUntil : String → ℚ) (execute : Executor) (isPrimary : Bool) :
    List Call → Except DispatchError Outcome
  | [] => .ok ([],[])
  | call::calls => joinOutcomes (settleCall cooldownUntil execute isPrimary call)
      (collectCalls cooldownUntil execute isPrimary calls)

/-- The loop over `_iter_completed`. -/
def collectPolls (cooldownUntil : String → ℚ) (execute : Executor) (isPrimary : Bool)
    (calls : List Call) : List Poll → Except DispatchError Outcome
  | [] => .ok ([],[])
  | poll::polls =>
    if poll.cancelledBefore || poll.cancelledAfter then .error (.execution .cancelled)
    else joinOutcomes
      (collectCalls cooldownUntil execute isPrimary (poll.done.filterMap (calls[·]?)))
      (collectPolls cooldownUntil execute isPrimary calls polls)

/-- `order.get(provider_id, math.inf)`, where a later candidate of the same id replaces an
earlier one. -/
def resultOrder (candidates : List Candidate) (providerId : String) : WithTop ℕ :=
  match candidates.zipIdx.reverse.find? (·.1.provider.providerId = providerId) with
  | none => ⊤
  | some (_,index) => (index : WithTop ℕ)

/-- `_sort_results`. -/
def sortResults (candidates : List Candidate) (results : List ProviderAnalysisResult) :
    List ProviderAnalysisResult :=
  results.insertionSort fun a b =>
    resultOrder candidates a.providerId ≤ resultOrder candidates b.providerId

/-! Distribution. -/

/-- Every candidate as often as its weight says, and at least once. -/
def weightedCandidates (candidates : List Candidate) : List Candidate :=
  candidates.flatMap fun c => List.replicate (max 1 c.membership.weight).toNat c

/-- The candidate a domain is assigned to; `hash` is the number the first eight bytes of the
SHA-256 of a domain stand for. -/
def assignedCandidate (hash : String → ℕ) (candidates : List Candidate) (domain : String) :
    Option Candidate :=
  let weighted := weightedCandidates candidates
  weighted[hash domain%weighted.length]?

/-- `assignments[provider_id].append(domain)`. -/
def appendAssignment (providerId domain : String) :
    List (String × List String) → List (String × List String)
  | [] => [(providerId,[domain])]
  | (key,assigned)::rest =>
    if key = providerId then (key,assigned++[domain])::rest
    else (key,assigned)::appendAssignment providerId domain rest

/-- The loop that fills `assignments`. -/
def assignDomains (hash : String → ℕ) (candidates : List Candidate) :
    List (String × List String) → List String → Except DispatchError (List (String × List String))
  | assignments, [] => .ok assignments
  | assignments, domain::domains =>
    match assignedCandidate hash candidates domain with
    | none => .error .noCandidate
    | some candidate =>
      assignDomains hash candidates
        (appendAssignment candidate.provider.providerId domain assignments) domains

/-- `candidate_by_id.get`. -/
def candidateById (candidates : List Candidate) (providerId : String) : Option Candidate :=
  candidates.reverse.find? (·.provider.providerId = providerId)

/-- The loop that submits one call for each entry of `assignments`. Both lookups of its body
raise a `KeyError`. -/
def submitAssignments {δ : Type*} (cancelledAt : ℕ → Bool) (candidates : List Candidate)
    (dossiers : List (String × δ)) : ℕ → List (String × List String) →
      Except DispatchError (List Call)
  | _, [] => .ok []
  | i, (providerId,assigned)::rest =>
    if cancelledAt i then .error (.execution .cancelled)
    else
      match candidateById candidates providerId with
      | none => .error (.execution (.missingDossier providerId))
      | some candidate =>
        match selectDossiers dossiers assigned with
        | .error e => .error (.execution e)
        | .ok _ =>
          match submitAssignments cancelledAt candidates dossiers (i+1) rest with
          | .error e => .error e
          | .ok calls => .ok ((candidate,assigned)::calls)

/-- The calls `_dispatch_distribute` submits. -/
def distributeCalls {δ : Type*} (hash : String → ℕ) (cancelledAt : ℕ → Bool)
    (candidates : List Candidate) (domains : List String) (dossiers : List (String × δ)) :
    Except DispatchError (List Call) :=
  match assignDomains hash candidates [] domains with
  | .error e => .error e
  | .ok assignments => submitAssignments cancelledAt candidates dossiers 0 assignments

/-- `_sort_results(results, candidates), errors`, once the calls are in. -/
def collectSorted (cooldownUntil : String → ℚ) (execute : Executor) (isPrimary : Bool)
    (candidates : List Candidate) (calls : List Call) (polls : List Poll) :
    Except DispatchError Outcome :=
  match collectPolls cooldownUntil execute isPrimary calls polls with
  | .error e => .error e
  | .ok (results,errors) => .ok (sortResults candidates results,errors)

/-- `_dispatch_distribute`. -/
def dispatchDistribute {δ : Type*} (hash : String → ℕ) (cooldownUntil : String → ℚ)
    (execute : Executor) (candidates : List Candidate) (domains : List String)
    (dossiers : List (String × δ)) (progress : Progress) : Except DispatchError Outcome :=
  match distributeCalls hash progress.cancelledAt candidates domains dossiers with
  | .error e => .error e
  | .ok calls => collectSorted cooldownUntil execute true candidates calls progress.polls

/-! Comparison. -/

/-- The calls `_dispatch_compare` submits. -/
def compareCalls (candidates : List Candidate) (domains : List String) : List Call :=
  candidates.map fun candidate => (candidate,domains)

/-- `_dispatch_compare`. -/
def dispatchCompare (cooldownUntil : String → ℚ) (execute : Executor) (candidates : List Candidate)
    (domains : List String) (progress : Progress) : Except DispatchError Outcome :=
  collectSorted cooldownUntil execute false candidates (compareCalls candidates domains)
    progress.polls

/-! Fallback. -/

/-- The variables of the loop of `_dispatch_fallback`. `contacted` lists the calls made so
far. -/
structure FallbackState where
  remainingDomains : List String
  results : List ProviderAnalysisResult := []
  errors : List ProviderAnalysisError := []
  contacted : List Call := []

inductive FallbackTurn
  | next (st : FallbackState)
  | stop (st : FallbackState)
  | raised (st : FallbackState) (error : DispatchError)

def FallbackState.contact (st : FallbackState) (candidate : Candidate) : FallbackState :=
  { st with contacted := st.contacted++[(candidate,st.remainingDomains)] }

def FallbackState.add (st : FallbackState) (result : ProviderAnalysisResult)
    (remainingDomains : List String) : FallbackState :=
  { st with results := st.results++[result], remainingDomains }

def FallbackState.fail (st : FallbackState) (error : ProviderAnalysisError) : FallbackState :=
  { st with errors := st.errors++[error] }

/-- What the handlers of the loop make of the end of a call. -/
def FallbackState.conclude (st : FallbackState) (cooldownUntil : String → ℚ)
    (candidate : Candidate) : Execution → FallbackTurn
  | .returned result => .next (st.add result [])
  | .partialAnalysis result failedDomains cause =>
    let st' := (st.fail (providerError cooldownUntil candidate cause)).add result failedDomains
    if cause.isFallbackEligible then .next st' else .stop st'
  | .raised .cancelled _ => .raised st (.execution .cancelled)
  | .raised e _ =>
    let st' := st.fail (providerError cooldownUntil candidate e)
    if e.isFallbackEligible then .next st' else .raised st' (.execution e)

/-- One turn of the loop of `_dispatch_fallback`. -/
def FallbackState.turn {δ : Type*} (st : FallbackState) (cooldownUntil : String → ℚ)
    (execute : Executor) (dossiers : List (String × δ)) (cancelled : Bool) (candidate : Candidate) :
    FallbackTurn :=
  if cancelled then .raised st (.execution .cancelled)
  else if st.remainingDomains = [] then .stop st
  else
    match selectDossiers dossiers st.remainingDomains with
    | .error e => st.conclude cooldownUntil candidate (.raised e [])
    | .ok _ => (st.contact candidate).conclude cooldownUntil candidate
        (execute candidate st.remainingDomains true)

/-- The loop, from the `i`-th candidate on, with the exception it ends in. -/
def fallbackLoop {δ : Type*} (cooldownUntil : String → ℚ) (execute : Executor)
    (dossiers : List (String × δ)) (cancelledAt : ℕ → Bool) : ℕ → FallbackState →
      List Candidate → FallbackState × Option DispatchError
  | _, st, [] => (st,none)
  | i, st, candidate::candidates =>
    match st.turn cooldownUntil execute dossiers (cancelledAt i) candidate with
    | .next st' => fallbackLoop cooldownUntil execute dossiers cancelledAt (i+1) st' candidates
    | .stop st' => (st',none)
    | .raised st' e => (st',some e)

/-- `_dispatch_fallback`, with the variables it ends with. -/
def fallbackRun {δ : Type*} [CaseTables] (cooldownUntil : String → ℚ) (execute : Executor)
    (candidates : List Candidate) (domains : List String) (dossiers : List (String × δ))
    (progress : Progress) : FallbackState × Option DispatchError :=
  fallbackLoop cooldownUntil execute dossiers progress.cancelledAt 0
    { remainingDomains := domains } (fallbackOrder candidates)

/-- `_dispatch_fallback`. -/
def dispatchFallback {δ : Type*} [CaseTables] (cooldownUntil : String → ℚ) (execute : Executor)
    (candidates : List Candidate) (domains : List String) (dossiers : List (String × δ))
    (progress : Progress) : Except DispatchError Outcome :=
  match fallbackRun cooldownUntil execute candidates domains dossiers progress with
  | (st,none) => .ok (st.results,st.errors)
  | (_,some e) => .error e

/-! The dispatcher. -/

/-- What `dispatch_analysis` is asked, with the pool and the tables it reads. `cooling`
lists the cooldowns still running of a pool without a usable provider. -/
structure AnalysisRequest (δ : Type*) where
  mode : AnalysisPoolMode
  poolName : String
  pool : AnalysisPoolOptions
  candidates : List Candidate
  cooling : List ℚ
  domains : List String
  dossiers : List (String × δ)
  cooldownUntil : String → ℚ
  assignHash : String → ℕ
  sampleHash : String → ℕ

/-- What leaves `dispatch_analysis` as an exception. -/
inductive AnalysisError
  | noDomains
  | noUsableProviders (poolName : String)
  | unavailable (message : String) (retryAt : ℚ)
  | dispatch (error : DispatchError)
  deriving DecidableEq

section Analysis

variable {δ : Type*} [CaseTables]

def AnalysisRequest.names (request : AnalysisRequest δ) : List String :=
  freezeDomains request.domains

def AnalysisRequest.frozen (request : AnalysisRequest δ) : List (String × Option δ) :=
  freezeDossiers request.domains request.dossiers

/-- The mode's own part of `dispatch_analysis`. -/
def dispatchPool (request : AnalysisRequest δ) (execute : Executor) (progress : Progress) :
    Except DispatchError Outcome :=
  match request.mode with
  | .distribute => dispatchDistribute request.assignHash request.cooldownUntil execute
      request.candidates request.names request.frozen progress
  | .fallback => dispatchFallback request.cooldownUntil execute request.candidates request.names
      request.frozen progress
  | .compare => dispatchCompare request.cooldownUntil execute request.candidates request.names
      progress
  | .verify => dispatchVerify request.sampleHash request.cooldownUntil execute request.pool
      request.candidates request.names request.frozen (progress.cancelledAt 0)

/-- `max((error.retry_at for error in errors), default=0.0)`. -/
def latestRetry : List ProviderAnalysisError → ℚ
  | [] => 0
  | error::errors => errors.foldl (fun latest error => max latest error.retryAt) error.retryAt

/-- `"; ".join(error.error for error in errors)`. -/
def errorText (errors : List ProviderAnalysisError) : String :=
  joinWith "; " (errors.map ProviderAnalysisError.error)

/-- `dispatch_analysis`. -/
def dispatchAnalysis (request : AnalysisRequest δ) (execute : Executor) (progress : Progress)
    (cancelledAtStart : Bool) : Except AnalysisError Outcome :=
  if cancelledAtStart then .error (.dispatch (.execution .cancelled))
  else if request.names = [] then .error .noDomains
  else if request.candidates = [] then
    match request.cooling with
    | [] => .error (.noUsableProviders request.poolName)
    | retryAt::others => .error (.unavailable
        ("All providers in analysis pool "++request.poolName++" are cooling down.")
        (others.foldl min retryAt))
  else
    match dispatchPool request execute progress with
    | .error e => .error (.dispatch e)
    | .ok (results,errors) =>
      if results = [] then
        .error (.unavailable (orElse (errorText errors) "No provider result") (latestRetry errors))
      else .ok (results,errors)

end Analysis

end Dispatch
end WormholeObservatory
