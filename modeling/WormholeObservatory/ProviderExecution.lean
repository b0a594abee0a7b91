import WormholeObservatory.Runs
import WormholeObservatory.Models
import WormholeObservatory.Quota

/-! `_provider_batches` and `_execute_provider`: cutting the domains of a job into
batches that fit a provider's context, and working through the batches, halving
one whenever the quota refuses it. -/
namespace WormholeObservatory
namespace Dispatch

open Transition

/-- The fields of a configured provider that planning and results read. -/
structure LLMProviderOptions where
  providerId : String
  name : String
  model : String
  maxOutputTokens : ℤ := 4096
  contextTokens : ℤ := 0

/-- `ProviderPoolMembershipOptions`. -/
structure Membership where
  role : String := "primary"
  priority : ℤ := 100
  weight : ℤ := 1

structure Candidate where
  membership : Membership
  provider : LLMProviderOptions
  limitProfile : ProviderLimitProfile

structure ProviderAnalysisResult where
  providerId : String
  providerName : String
  model : String
  profileName : String
  limitSource : String
  classifications : List Classification
  latencyMs : ℤ
  usage : ProviderUsage
  isPrimary : Bool

/-- One exception of an `_exception_chain`, as far as the dispatcher tells them apart.
A rate limit carries the moment its `retry_after` ends at. -/
inductive ChainLink
  | quotaUnavailable (retryAt : ℚ)
  | rateLimited (retryAt : Option ℚ)
  | connectionError
  | timeout
  | httpError (status : Option ℤ)
  | plain
  deriving DecidableEq

/-- The exceptions that leave an execution. The last kind carries its chain. -/
inductive ExecError
  | cancelled
  | quotaUnavailable (message : String) (retryAt : ℚ)
  | missingDossier (domain : String)
  | invalidTemplate (message : String)
  | contextExceeded (domain providerName : String)
  | other (message : String) (chain : List ChainLink)
  deriving DecidableEq

/-- `str(exc)`. -/
def ExecError.message : ExecError → String
  | .cancelled => "Operation cancelled"
  | .quotaUnavailable message _ => message
  | .missingDossier domain => "'"++domain++"'"
  | .invalidTemplate message => message
  | .contextExceeded domain providerName =>
    "The dossier for "++domain++" exceeds the context limit of "++providerName++"."
  | .other message _ => message

/-- `_exception_chain`. -/
def ExecError.chain : ExecError → List ChainLink
  | .quotaUnavailable _ retryAt => [.quotaUnavailable retryAt]
  | .other _ chain => chain
  | _ => [.plain]

/-- The retry time an exception of the chain names. -/
def ChainLink.retryAt : ChainLink → Option ℚ
  | .quotaUnavailable retryAt => some retryAt
  | .rateLimited retryAt => retryAt
  | _ => none

/-- `_retry_at`. -/
def ExecError.retryAt (e : ExecError) : ℚ := (e.chain.findSome? ChainLink.retryAt).getD 0

/-- The failures that let another provider try. -/
def ChainLink.operational : ChainLink → Bool
  | .quotaUnavailable _ => true
  | .rateLimited _ => true
  | .connectionError => true
  | .timeout => true
  | .httpError status => status.any (· ∈ [408,429,500,502,503,504])
  | .plain => false

/-- `_is_fallback_eligible`. -/
def ExecError.isFallbackEligible (e : ExecError) : Bool := e.chain.any ChainLink.operational

/-- What a batch call that succeeds contributes. -/
structure BatchResult where
  classifications : List Classification
  latencyMs : ℤ
  usage : ProviderUsage

/-- How `_execute_provider` ends. A plain exception drops the classifications obtained
before it. -/
inductive Execution
  | returned (result : ProviderAnalysisResult)
  | partialAnalysis (result : ProviderAnalysisResult) (failedDomains : List String)
      (cause : ExecError)
  | raised (error : ExecError) (obtained : List Classification)

/-- `batch_fits_context`. -/
def batchFitsContext (estimate : QuotaEstimate) (provider : LLMProviderOptions)
    (profile : ProviderLimitProfile) : Bool :=
  let contextTokens :=
    if provider.contextTokens > 0 then provider.contextTokens else profile.capability.contextTokens
  if contextTokens ≤ 0 then true
  else
    let margin := min 50 (max 0 profile.safetyMarginPercent)
    decide (estimate.totalTokens ≤ ⌊(contextTokens : ℚ)*(1-margin/100)⌋)

/-- `maximum_provider_batch_size`. -/
def maximumProviderBatchSize (profile : ProviderLimitProfile) (options : LLMOptions) : ℤ :=
  let configured := max 1 options.domainsPerRequest
  let configured :=
    if profile.maxDomainsPerRequest > 0 then min configured profile.maxDomainsPerRequest
    else configured
  if profile.source = "unknown" ∧ profile.capability.isLocal = false then
    min configured (max 1 options.unknownRemoteMaxDomainsPerRequest)
  else configured

/-- `estimate_provider_usage`, from the size of the messages and the calibrated output
of the provider. -/
def estimateProviderUsage (messageTokens : ℤ) (outputPerDomain : ℚ)
    (provider : LLMProviderOptions) (profile : ProviderLimitProfile) (domainCount : ℤ) :
    QuotaEstimate :=
  let selected := max 1 domainCount
  let output := ⌈outputPerDomain*selected*(6/5)⌉
  let output := max 256 (min (max 1 provider.maxOutputTokens) output)
  { domainCount := selected
    requestCount := 1
    inputTokens := messageTokens
    outputTokens := output
    units := Quota.unitsForUsage messageTokens output profile }

/-- What an execution reads from the world around it: the prompt builder and the
provider itself, whose calls are numbered, and the cancellation token before and
after each call. -/
structure Surroundings (δ : Type*) where
  messageTokens : List δ → Except ExecError ℤ
  outputPerDomain : ℚ
  classify : ℕ → List String → Except ExecError BatchResult
  cancelledBefore : ℕ → Bool
  cancelledAfter : ℕ → Bool

/-- A call that succeeds classifies the domains of its batch, in order. -/
def Surroundings.Faithful {δ : Type*} (env : Surroundings δ) : Prop :=
  ∀ n batch result, env.classify n batch = .ok result →
    result.classifications.map Classification.domain = batch

/-- The same for the batches that can be cut from `domains`. -/
def Surroundings.FaithfulOn {δ : Type*} (env : Surroundings δ) (domains : List String) : Prop :=
  ∀ n batch result, batch.Sublist domains → env.classify n batch = .ok result →
    result.classifications.map Classification.domain = batch

theorem Surroundings.Faithful.on {δ : Type*} {env : Surroundings δ} (h : env.Faithful)
    (domains : List String) : env.FaithfulOn domains :=
  fun n batch result _ hcall => h n batch result hcall

section Execute

variable {δ : Type*}

/-- The arguments of `_execute_provider`. -/
structure Job (δ : Type*) where
  candidate : Candidate
  domains : List String
  dossiers : List (String × δ)
  options : LLMOptions
  profileName : String
  isPrimary : Bool

/-- `dossier_by_domain[domain]` for every domain of a batch; a later dossier of the same
domain replaces an earlier one. -/
def selectDossiers (dossiers : List (String × δ)) : List String → Except ExecError (List δ)
  | [] => .ok []
  | domain::batch =>
    match dossiers.reverse.lookup domain with
    | none => .error (.missingDossier domain)
    | some dossier =>
      match selectDossiers dossiers batch with
      | .error e => .error e
      | .ok selected => .ok (dossier::selected)

/-- Whether a batch fits, as the inner loop of `_provider_batches` asks. -/
def Job.fits (job : Job δ) (env : Surroundings δ) (selected : List String) :
    Except ExecError Bool :=
  match selectDossiers job.dossiers selected with
  | .error e => .error e
  | .ok dossiers =>
    match env.messageTokens dossiers with
    | .error e => .error e
    | .ok tokens =>
      let estimate := estimateProviderUsage tokens env.outputPerDomain job.candidate.provider
        job.candidate.limitProfile selected.length
      .ok (batchFitsContext estimate job.candidate.provider job.candidate.limitProfile)

/-- The inner loop: the largest size up to `size` whose prefix fits, or 0. -/
def Job.fittingSize (job : Job δ) (env : Surroundings δ) (remaining : List String) :
    ℕ → Except ExecError ℕ
  | 0 => .ok 0
  | size+1 =>
    match job.fits env (remaining.take (size+1)) with
    | .error e => .error e
    | .ok true => .ok (size+1)
    | .ok false => job.fittingSize env remaining size

def Job.maximum (job : Job δ) : ℕ :=
  (maximumProviderBatchSize job.candidate.limitProfile job.options).toNat

/-- The outer loop. Each turn uses up a domain, so `bound` turns are enough for a list of
that length. -/
def Job.planBatches (job : Job δ) (env : Surroundings δ) (bound : ℕ) (remaining : List String) :
    Except ExecError (List (List String)) :=
  match bound, remaining with
  | _, [] => .ok []
  | 0, _ => .ok []
  | bound+1, first::rest =>
    match job.fittingSize env (first::rest) (min job.maximum (rest.length+1)) with
    | .error e => .error e
    | .ok 0 => .error (.contextExceeded first job.candidate.provider.name)
    | .ok (size+1) =>
      match job.planBatches env bound (rest.drop size) with
      | .error e => .error e
      | .ok batches => .ok ((first::rest.take size)::batches)

/-- `_provider_batches`. -/
def Job.providerBatches (job : Job δ) (env : Surroundings δ) :
    Except ExecError (List (List String)) :=
  job.planBatches env job.domains.length job.domains

/-- The variables of the loop; `calls` counts the calls made so far. -/
structure LoopState where
  batches : List (List String)
  batchIndex : ℕ
  classifications : List Classification
  totalLatency : ℤ
  totalUsage : ProviderUsage
  calls : ℕ

def LoopState.start (batches : List (List String)) : LoopState := ⟨batches,0,[],0,{},0⟩

/-- The batches from `batch_index` on. -/
def LoopState.remaining (st : LoopState) : List (List String) := st.batches.drop st.batchIndex

def LoopState.split (st : LoopState) (batch : List String) : LoopState :=
  let midpoint := max 1 (batch.length/2)
  { st with
    batches := st.batches.take st.batchIndex++
      batch.take midpoint::batch.drop midpoint::st.batches.drop (st.batchIndex+1)
    calls := st.calls+1 }

def LoopState.accept (st : LoopState) (result : BatchResult) : LoopState :=
  { st with
    batchIndex := st.batchIndex+1
    classifications := st.classifications++result.classifications
    totalLatency := st.totalLatency+result.latencyMs
    totalUsage :=
      { inputTokens := st.totalUsage.inputTokens+result.usage.inputTokens
        outputTokens := st.totalUsage.outputTokens+result.usage.outputTokens
        totalTokens := st.totalUsage.totalTokens+result.usage.totalTokens
        units := st.totalUsage.units+result.usage.units }
    calls := st.calls+1 }

inductive Turn
  | finished
  | raised (error : ExecError)
  | again (st : LoopState)

/-- One turn of the loop of `_execute_provider`. -/
def Job.turn (job : Job δ) (env : Surroundings δ) (st : LoopState) : Turn :=
  match st.batches[st.batchIndex]? with
  | none => .finished
  | some batch =>
    if env.cancelledBefore st.calls then .raised .cancelled
    else
      match selectDossiers job.dossiers batch with
      | .error e => .raised e
      | .ok _ =>
        match env.classify st.calls batch with
        | .error (.quotaUnavailable message retryAt) =>
          if batch.length ≤ 1 then .raised (.quotaUnavailable message retryAt)
          else .again (st.split batch)
        | .error e => .raised e
        | .ok result =>
          if env.cancelledAfter st.calls then .raised .cancelled else .again (st.accept result)

/-- The loop, for at most `fuel` turns. -/
def Job.loop (job : Job δ) (env : Surroundings δ) : ℕ → LoopState → Option (LoopState × Option ExecError)
  | 0, _ => none
  | fuel+1, st =>
    match job.turn env st with
    | .finished => some (st,none)
    | .raised e => some (st,some e)
    | .again st' => job.loop env fuel st'

/-- `_analysis_result`. -/
def Job.analysisResult (job : Job δ) (st : LoopState) : ProviderAnalysisResult where
  providerId := job.candidate.provider.providerId
  providerName := job.candidate.provider.name
  model := job.candidate.provider.model
  profileName := job.profileName
  limitSource := job.candidate.limitProfile.source
  classifications := st.classifications
  latencyMs := st.totalLatency
  usage := st.totalUsage
  isPrimary := job.isPrimary

/-- What the handlers around the loop make of its end. -/
def Job.conclude (job : Job δ) (st : LoopState) : Option ExecError → Execution
  | none => .returned (job.analysisResult st)
  | some .cancelled => .raised .cancelled st.classifications
  | some e =>
    if st.classifications = [] then .raised e []
    else .partialAnalysis (job.analysisResult st) st.remaining.flatten e

/-- Turns that are always enough: a list of domains can be cut less often than it is
long, and every turn but the last either cuts a batch or uses one up. -/
def Job.turns (job : Job δ) : ℕ := 2*job.domains.length+1

/-- `_execute_provider`. -/
def Job.executeProvider (job : Job δ) (env : Surroundings δ) (cancelledAtStart : Bool) :
    Option Execution :=
  if cancelledAtStart then some (.raised .cancelled [])
  else
    match job.providerBatches env with
    | .error e => some (.raised e [])
    | .ok batches =>
      (job.loop env job.turns (LoopState.start batches)).map fun (st,e) => job.conclude st e

/-! Planning. -/

variable {job : Job δ} {env : Surroundings δ}

theorem fittingSize_ok {remaining : List String} {n size : ℕ}
    (h : job.fittingSize env remaining n = .ok (size+1)) :
    size+1 ≤ n ∧ job.fits env (remaining.take (size+1)) = .ok true := by
  induction n with
  | zero => cases h
  | succ n ih =>
    simp only [Job.fittingSize] at h
    cases hfits : job.fits env (remaining.take (n+1)) with
    | error e => simp [hfits] at h
    | ok fit =>
      cases fit with
      | true =>
        simp only [hfits,Except.ok.injEq] at h
        exact ⟨h.ge,h ▸ hfits⟩
      | false =>
        simp only [hfits] at h
        exact ⟨(ih h).1.trans n.le_succ,(ih h).2⟩

/-- A planned batch: not empty, not too long, and within the context. -/
structure Job.Planned (job : Job δ) (env : Surroundings δ) (batch : List String) : Prop where
  nonempty : 1 ≤ batch.length
  bounded : batch.length ≤ job.maximum
  fits : job.fits env batch = .ok true

theorem planBatches_ok {bound : ℕ} {remaining : List String} {batches : List (List String)}
    (hbound : remaining.length ≤ bound) (h : job.planBatches env bound remaining = .ok batches) :
    batches.flatten = remaining ∧ ∀ batch ∈ batches, job.Planned env batch := by
  induction bound generalizing remaining batches with
  | zero =>
    obtain rfl := List.length_eq_zero_iff.mp (Nat.le_zero.mp hbound)
    obtain rfl : [] = batches := Except.ok.inj h
    simp
  | succ bound ih =>
    cases remaining with
    | nil =>
      obtain rfl : [] = batches := Except.ok.inj h
      simp
    | cons first rest =>
      simp only [Job.planBatches] at h
      cases hsize : job.fittingSize env (first::rest) (min job.maximum (rest.length+1)) with
      | error e => simp [hsize] at h
      | ok size =>
        cases size with
        | zero => simp [hsize] at h
        | succ size =>
          simp only [hsize] at h
          cases hrest : job.planBatches env bound (rest.drop size) with
          | error e => simp [hrest] at h
          | ok tail =>
            simp only [hrest,Except.ok.injEq] at h
            obtain ⟨hle,hfits⟩ := fittingSize_ok hsize
            have hshorter : (rest.drop size).length ≤ bound := by
              simp only [List.length_drop,List.length_cons] at hbound ⊢
              omega
            obtain ⟨hflatten,hplanned⟩ := ih hshorter hrest
            have hlength : (first::rest.take size).length = size+1 := by
              simp only [List.length_cons,List.length_take]
              omega
            subst h
            refine ⟨by simp [hflatten],?_⟩
            rintro batch (_ | ⟨_,hbatch⟩)
            · exact ⟨by omega,by omega,hfits⟩
            · exact hplanned batch hbatch

theorem one_le_maximumProviderBatchSize (profile : ProviderLimitProfile) (options : LLMOptions) :
    1 ≤ maximumProviderBatchSize profile options := by
  have hconfigured : 1 ≤ if profile.maxDomainsPerRequest > 0 then
      min (max 1 options.domainsPerRequest) profile.maxDomainsPerRequest
      else max 1 options.domainsPerRequest := by
    split <;> omega
  simp only [maximumProviderBatchSize]
  split
  · exact le_min hconfigured (le_max_left _ _)
  · exact hconfigured

theorem maximum_cast (job : Job δ) : (job.maximum : ℤ) =
    maximumProviderBatchSize job.candidate.limitProfile job.options :=
  Int.toNat_of_nonneg (by
    have := one_le_maximumProviderBatchSize job.candidate.limitProfile job.options
    omega)

/-! The loop. -/

/-- What every turn of the loop leaves true. -/
structure Job.Partition (job : Job δ) (st : LoopState) : Prop where
  flatten : st.batches.flatten = job.domains
  sizes : ∀ batch ∈ st.batches, 1 ≤ batch.length ∧ batch.length ≤ job.maximum
  classified : st.classifications.map Classification.domain =
    (st.batches.take st.batchIndex).flatten

theorem Job.Partition.domains_eq {st : LoopState} (h : job.Partition st) :
    st.classifications.map Classification.domain++st.remaining.flatten = job.domains := by
  rw [h.classified,LoopState.remaining,← List.flatten_append,List.take_append_drop,h.flatten]

/-- One turn that goes on: the batch at the index is cut in two or used up. -/
theorem turn_again {st st' : LoopState} (h : job.turn env st = .again st') :
    ∃ batch, st.batches[st.batchIndex]? = some batch ∧
      (2 ≤ batch.length ∧ st' = st.split batch ∨
        ∃ result, env.classify st.calls batch = .ok result ∧ st' = st.accept result) := by
  simp only [Job.turn] at h
  cases hbatch : st.batches[st.batchIndex]? with
  | none => simp [hbatch] at h
  | some batch =>
    refine ⟨batch,rfl,?_⟩
    simp only [hbatch] at h
    split at h
    · cases h
    · cases hselect : selectDossiers job.dossiers batch with
      | error e => simp [hselect] at h
      | ok dossiers =>
        simp only [hselect] at h
        cases hcall : env.classify st.calls batch with
        | ok result =>
          simp only [hcall] at h
          split at h
          · cases h
          · injection h with h
            exact .inr ⟨result,rfl,h.symm⟩
        | error e =>
          cases e with
          | quotaUnavailable message retryAt =>
            simp only [hcall] at h
            split at h
            · cases h
            · injection h with h
              exact .inl ⟨by omega,h.symm⟩
          | _ => simp [hcall] at h

theorem batches_eq {batches : List (List String)} {i : ℕ} {batch : List String}
    (h : batches[i]? = some batch) : batches = batches.take i++batch::batches.drop (i+1) := by
  obtain ⟨hi,rfl⟩ := List.getElem?_eq_some_iff.mp h
  rw [List.cons_getElem_drop_succ,List.take_append_drop]

theorem turn_flatten {st st' : LoopState} (hturn : job.turn env st = .again st') :
    st'.batches.flatten = st.batches.flatten := by
  obtain ⟨batch,hbatch,⟨-,rfl⟩ | ⟨result,-,rfl⟩⟩ := turn_again hturn
  · have hflatten := congrArg List.flatten (batches_eq hbatch)
    simpa [LoopState.split,← List.append_assoc] using hflatten.symm
  · rfl

theorem turn_partition (hfaithful : env.FaithfulOn job.domains) {st st' : LoopState} (h : job.Partition st)
    (hturn : job.turn env st = .again st') : job.Partition st' := by
  obtain ⟨batch,hbatch,⟨hlong,rfl⟩ | ⟨result,hcall,rfl⟩⟩ := turn_again hturn
  · have hbatches := batches_eq hbatch
    have hlength : (st.batches.take st.batchIndex).length = st.batchIndex := by
      obtain ⟨hi,-⟩ := List.getElem?_eq_some_iff.mp hbatch
      simp only [List.length_take]
      omega
    refine ⟨?_,?_,?_⟩
    · rw [turn_flatten hturn,h.flatten]
    · intro b hb
      have hsizes : ∀ b ∈ st.batches.take st.batchIndex++batch::st.batches.drop (st.batchIndex+1),
          1 ≤ b.length ∧ b.length ≤ job.maximum := hbatches ▸ h.sizes
      have hmax := (hsizes batch (by simp)).2
      simp only [LoopState.split,List.mem_append,List.mem_cons] at hb
      rcases hb with hb | rfl | rfl | hb
      · exact hsizes b (by simp [hb])
      · simp only [List.length_take]
        omega
      · simp only [List.length_drop]
        omega
      · exact hsizes b (by simp [hb])
    · simp only [LoopState.split,h.classified]
      rw [List.take_append_of_le_length hlength.ge,List.take_of_length_le hlength.le]
  · refine ⟨h.flatten,h.sizes,?_⟩
    have hpart : batch.Sublist job.domains :=
      h.flatten ▸ List.sublist_flatten_of_mem (List.mem_of_getElem? hbatch)
    simp only [LoopState.accept,List.map_append,h.classified,hfaithful _ _ _ hpart hcall]
    rw [List.take_add_one,hbatch]
    simp

/-- The batches ahead, weighted so that a cut makes them lighter. -/
def LoopState.weight (st : LoopState) : ℕ := (st.remaining.map fun b => 2*b.length-1).sum

theorem turn_weight {st st' : LoopState} (h : job.Partition st)
    (hturn : job.turn env st = .again st') : st'.weight < st.weight := by
  obtain ⟨batch,hbatch,hcases⟩ := turn_again hturn
  obtain ⟨hi,hget⟩ := List.getElem?_eq_some_iff.mp hbatch
  have hremaining : st.remaining = batch::st.batches.drop (st.batchIndex+1) := by
    rw [LoopState.remaining,← List.cons_getElem_drop_succ (h := hi),hget]
  have hnonempty := (h.sizes batch (hget ▸ List.getElem_mem hi)).1
  rcases hcases with ⟨hlong,rfl⟩ | ⟨result,-,rfl⟩
  · have hlength : (st.batches.take st.batchIndex).length = st.batchIndex := by
      simp only [List.length_take]
      omega
    have hsplit : (st.split batch).remaining = batch.take (max 1 (batch.length/2))::
        batch.drop (max 1 (batch.length/2))::st.batches.drop (st.batchIndex+1) := by
      simp only [LoopState.remaining,LoopState.split]
      rw [List.drop_append_of_le_length hlength.ge,List.drop_of_length_le hlength.le,
        List.nil_append]
    simp only [LoopState.weight,hsplit,hremaining,List.map_cons,List.sum_cons,List.length_take,
      List.length_drop]
    omega
  · have haccept : (st.accept result).remaining = st.batches.drop (st.batchIndex+1) := rfl
    simp only [LoopState.weight,haccept,hremaining,List.map_cons,List.sum_cons]
    omega

/-- A turn of the loop, labelled with the batch it called for. -/
def Job.Iterates (job : Job δ) (env : Surroundings δ) (st : LoopState) (batch : List String)
    (st' : LoopState) : Prop :=
  st.batches[st.batchIndex]? = some batch ∧ job.turn env st = .again st'

theorem iterates_partition (hfaithful : env.FaithfulOn job.domains) {st st' : LoopState}
    {calls : List (List String)} (h : job.Partition st)
    (hrun : Run (job.Iterates env) st calls st') :
    job.Partition st' ∧ calls.length+st'.weight ≤ st.weight := by
  induction hrun with
  | nil => simp [h]
  | cons hstep _ ih =>
    obtain ⟨hpartition,hweight⟩ := ih (turn_partition hfaithful h hstep.2)
    have hlighter := turn_weight h hstep.2
    exact ⟨hpartition,by simp only [List.length_cons]; omega⟩

/-- With more fuel than weight the loop comes to its end. -/
theorem loop_ends (hfaithful : env.FaithfulOn job.domains) {fuel : ℕ} {st : LoopState} (h : job.Partition st)
    (hfuel : st.weight < fuel) : ∃ st' e, job.loop env fuel st = some (st',e) ∧
      job.Partition st' ∧ (e = none → st'.remaining = []) := by
  induction fuel generalizing st with
  | zero => omega
  | succ fuel ih =>
    simp only [Job.loop]
    cases hturn : job.turn env st with
    | raised e => exact ⟨st,some e,rfl,h,by simp⟩
    | again st' =>
      have hlighter := turn_weight h hturn
      exact ih (turn_partition hfaithful h hturn) (by omega)
    | finished =>
      refine ⟨st,none,rfl,h,fun _ => ?_⟩
      simp only [Job.turn] at hturn
      cases hbatch : st.batches[st.batchIndex]? with
      | none => exact List.drop_of_length_le (List.getElem?_eq_none_iff.mp hbatch)
      | some batch =>
        simp only [hbatch] at hturn
        repeat' split at hturn
        all_goals cases hturn

theorem loop_flatten {fuel : ℕ} {st st' : LoopState} {e : Option ExecError}
    (h : job.loop env fuel st = some (st',e)) : st'.batches.flatten = st.batches.flatten := by
  induction fuel generalizing st with
  | zero => cases h
  | succ fuel ih =>
    simp only [Job.loop] at h
    cases hturn : job.turn env st with
    | finished =>
      simp only [hturn,Option.some.injEq,Prod.mk.injEq] at h
      rw [h.1]
    | raised e' =>
      simp only [hturn,Option.some.injEq,Prod.mk.injEq] at h
      rw [h.1]
    | again st₁ =>
      simp only [hturn] at h
      rw [ih h,turn_flatten hturn]

theorem weight_start_le {batches : List (List String)} :
    (LoopState.start batches).weight ≤ 2*batches.flatten.length := by
  simp only [LoopState.weight,LoopState.remaining,LoopState.start,List.drop_zero]
  induction batches with
  | nil => simp
  | cons batch batches ih =>
    simp only [List.map_cons,List.sum_cons,List.flatten_cons,List.length_append]
    omega

theorem providerBatches_partition {batches : List (List String)}
    (h : job.providerBatches env = .ok batches) :
    job.Partition (LoopState.start batches) ∧ ∀ batch ∈ batches, job.fits env batch = .ok true := by
  obtain ⟨hflatten,hplanned⟩ := planBatches_ok (le_refl _) h
  exact ⟨⟨hflatten,fun b hb => ⟨(hplanned b hb).nonempty,(hplanned b hb).bounded⟩,rfl⟩,
    fun b hb => (hplanned b hb).fits⟩

/-- How an execution may end: complete, with a nonempty part and exactly the rest missing,
or with nothing obtained; a cancellation drops what was obtained. -/
def Job.Concludes (job : Job δ) : Execution → Prop
  | .returned result => result.classifications.map Classification.domain = job.domains
  | .partialAnalysis result failedDomains _ => result.classifications ≠ [] ∧
      result.classifications.map Classification.domain++failedDomains = job.domains
  | .raised error obtained => error = .cancelled ∨ obtained = []

theorem conclude_concludes {st : LoopState} (h : job.Partition st) {e : Option ExecError}
    (hdone : e = none → st.remaining = []) : job.Concludes (job.conclude st e) := by
  have hdomains := h.domains_eq
  cases e with
  | none =>
    rw [hdone rfl,List.flatten_nil,List.append_nil] at hdomains
    exact hdomains
  | some e =>
    by_cases hcancelled : e = .cancelled
    · subst hcancelled
      exact .inl rfl
    · have hconclude : job.conclude st (some e) = if st.classifications = [] then .raised e [] else
          .partialAnalysis (job.analysisResult st) st.remaining.flatten e := by
        cases e <;> first | rfl | exact absurd rfl hcancelled
      rw [hconclude]
      split
      · exact .inr rfl
      · rename_i hobtained
        exact ⟨hobtained,hdomains⟩

/-- `_execute_provider` comes to an end, and that end accounts for every domain. -/
theorem executeProvider_concludes (job : Job δ) (hfaithful : env.FaithfulOn job.domains)
    (cancelledAtStart : Bool) :
    ∃ outcome, job.executeProvider env cancelledAtStart = some outcome ∧ job.Concludes outcome := by
  simp only [Job.executeProvider]
  split
  · exact ⟨_,rfl,.inl rfl⟩
  · cases hbatches : job.providerBatches env with
    | error e => exact ⟨_,rfl,.inr rfl⟩
    | ok batches =>
      obtain ⟨hpartition,-⟩ := providerBatches_partition hbatches
      have hweight : (LoopState.start batches).weight ≤ 2*batches.flatten.length := weight_start_le
      have hflatten : batches.flatten = job.domains := hpartition.flatten
      rw [hflatten] at hweight
      obtain ⟨st,e,hloop,hend,hdone⟩ :=
        loop_ends hfaithful hpartition (Nat.lt_succ_of_le hweight)
      refine ⟨job.conclude st e,?_,conclude_concludes hend hdone⟩
      simp only [Job.turns,hloop,Option.map_some]

/-- `_execute_provider` ends, keeps the batches a partition of its domains into pieces of
allowed size that fit the context when planned, and accounts for every domain. -/
theorem executeProvider_partitions (hfaithful : env.Faithful) (job : Job δ)
    (cancelledAtStart : Bool) :
    (∃ outcome, job.executeProvider env cancelledAtStart = some outcome ∧ job.Concludes outcome) ∧
      ∀ batches, job.providerBatches env = .ok batches →
        (∀ batch ∈ batches, job.fits env batch = .ok true) ∧
        ∀ calls st, Run (job.Iterates env) (LoopState.start batches) calls st →
          calls.length ≤ 2*job.domains.length ∧ st.batches.flatten = job.domains ∧
          ∀ batch ∈ st.batches, 1 ≤ batch.length ∧
            (batch.length : ℤ) ≤ maximumProviderBatchSize job.candidate.limitProfile job.options := by
  refine ⟨executeProvider_concludes job (hfaithful.on _) cancelledAtStart,
    fun batches hbatches => ?_⟩
  obtain ⟨hpartition,hfits⟩ := providerBatches_partition hbatches
  refine ⟨hfits,fun calls st hrun => ?_⟩
  obtain ⟨hend,hweight⟩ := iterates_partition (hfaithful.on _) hpartition hrun
  have hstart : (LoopState.start batches).weight ≤ 2*batches.flatten.length := weight_start_le
  have hflatten : batches.flatten = job.domains := hpartition.flatten
  rw [hflatten] at hstart
  refine ⟨by omega,hend.flatten,fun batch hbatch => ?_⟩
  obtain ⟨hnonempty,hbounded⟩ := hend.sizes batch hbatch
  exact ⟨hnonempty,maximum_cast job ▸ Int.ofNat_le.mpr hbounded⟩

/-- The result a provider produced, complete or not. -/
def Execution.result? : Execution → Option ProviderAnalysisResult
  | .returned result => some result
  | .partialAnalysis result _ _ => some result
  | .raised _ _ => none

/-- A result names the provider it comes from and the role it was asked in. -/
theorem executeProvider_identity {job : Job δ} {cancelledAtStart : Bool} {outcome : Execution}
    {result : ProviderAnalysisResult}
    (h : job.executeProvider env cancelledAtStart = some outcome)
    (hresult : outcome.result? = some result) :
    result.providerId = job.candidate.provider.providerId ∧ result.isPrimary = job.isPrimary := by
  have hconclude : ∀ st e, (job.conclude st e).result? = some result →
      result.providerId = job.candidate.provider.providerId ∧ result.isPrimary = job.isPrimary := by
    intro st e hst
    have heq : result = job.analysisResult st := by
      simp only [Job.conclude] at hst
      repeat' split at hst
      all_goals simp only [Execution.result?,Option.some.injEq,reduceCtorEq] at hst
      all_goals exact hst.symm
    rw [heq]
    exact ⟨rfl,rfl⟩
  simp only [Job.executeProvider] at h
  split at h
  · obtain rfl := Option.some.inj h
    cases hresult
  · split at h
    · obtain rfl := Option.some.inj h
      cases hresult
    · obtain ⟨⟨st,e⟩,-,rfl⟩ := Option.map_eq_some_iff.mp h
      exact hconclude st e hresult

/-- The domains left over are among the job's. -/
theorem executeProvider_failed_subset {job : Job δ} {cancelledAtStart : Bool}
    {result : ProviderAnalysisResult} {failed : List String} {cause : ExecError}
    (h : job.executeProvider env cancelledAtStart = some (.partialAnalysis result failed cause)) :
    failed ⊆ job.domains := by
  simp only [Job.executeProvider] at h
  split at h
  · cases h
  · cases hbatches : job.providerBatches env with
    | error e => simp [hbatches] at h
    | ok batches =>
      simp only [hbatches,Option.map_eq_some_iff] at h
      obtain ⟨⟨st,e⟩,hloop,hconclude⟩ := h
      have hflatten : st.batches.flatten = job.domains :=
        (loop_flatten hloop).trans (providerBatches_partition hbatches).1.flatten
      have hfailed : failed = st.remaining.flatten := by
        simp only [Job.conclude] at hconclude
        repeat' split at hconclude
        all_goals cases hconclude
        rfl
      rw [hfailed,← hflatten]
      intro d hd
      obtain ⟨batch,hbatch,hmem⟩ := List.mem_flatten.mp hd
      exact List.mem_flatten.mpr ⟨batch,List.mem_of_mem_drop hbatch,hmem⟩

end Execute

/-- Two domains, one a request, for a provider without a context limit. -/
def sampleJob : Job Unit where
  candidate := ⟨{},⟨"p1","Provider","model",4096,0⟩,{ source := "bundled_registry" }⟩
  domains := ["a.com","b.com"]
  dossiers := [("a.com",()),("b.com",())]
  options := { domainsPerRequest := 1 }
  profileName := "default"
  isPrimary := true

/-- Surroundings whose second call ends in `second`. -/
def sampleSurroundings (second : ExecError) : Surroundings Unit where
  messageTokens dossiers := .ok dossiers.length
  outputPerDomain := 100
  classify n batch :=
    if n = 1 then .error second
    else .ok ⟨batch.map fun d => ⟨d,.deny,"ads","Ads","","Provider",[],"",.unknown,0,0,10,0,false,
      "",30,""⟩,5,{}⟩
  cancelledBefore _ := false
  cancelledAfter _ := false

theorem sampleSurroundings_faithful (second : ExecError) : (sampleSurroundings second).Faithful := by
  intro n batch result h
  simp only [sampleSurroundings] at h
  split at h
  · cases h
  · obtain rfl := Except.ok.inj h
    simp [List.map_map,Function.comp_def]

theorem executeProvider_partitions_sample : ∃ outcome,
    sampleJob.executeProvider (sampleSurroundings (.quotaUnavailable "quota" 60)) false = some outcome ∧
      sampleJob.Concludes outcome :=
  (executeProvider_partitions (sampleSurroundings_faithful _) sampleJob false).1

/-- The first call succeeds and the second is cancelled: an exception that is not a
partial analysis, with a classification obtained. -/
theorem executeProvider_cancelled_drops : (sampleSurroundings .cancelled).Faithful ∧
    ∃ obtained, sampleJob.executeProvider (sampleSurroundings .cancelled) false =
      some (.raised .cancelled obtained) ∧
        obtained.map Classification.domain = ["a.com"] := by
  refine ⟨sampleSurroundings_faithful _,_,rfl,rfl⟩

end Dispatch
end WormholeObservatory
