import WormholeObservatory.ProviderExecution
import Mathlib.Data.List.Sort

/-! `_dispatch_verify`: one provider classifies, a second one checks the results that
need it. A result that should have been checked and was not, or on which the two
disagree, is marked for review. -/
namespace WormholeObservatory
namespace Dispatch

/-- The pool settings verification reads. -/
structure AnalysisPoolOptions where
  verificationSamplePercent : ℤ := 10
  verifyAutomaticActions : Bool := true
  verifySecurityRiskAtLeast : ℤ := 80
  verifyBreakageRiskAtLeast : ℤ := 50

structure ProviderAnalysisError where
  providerId : String
  providerName : String
  error : String
  retryAt : ℚ := 0

/-- What leaves `_dispatch_verify` as an exception. -/
inductive DispatchError
  | noCandidate
  | execution (error : ExecError)
  deriving DecidableEq

/-- The key candidates are sorted by: a role to put first, priority and name. -/
def orderKey [CaseTables] (first : String) (c : Candidate) : List ℤ :=
  (if c.membership.role = first then 0 else 1)::c.membership.priority::
    codes (CaseTables.casefold c.provider.name)

/-- `sorted`, which keeps equal candidates in their order. -/
def sortCandidates [CaseTables] (first : String) (candidates : List Candidate) : List Candidate :=
  candidates.insertionSort fun a b => orderKey first a ≤ orderKey first b

/-- `_fallback_order`. -/
def fallbackOrder [CaseTables] (candidates : List Candidate) : List Candidate :=
  sortCandidates "primary" candidates

/-- `_verification_order`. -/
def verificationOrder [CaseTables] (candidates : List Candidate) : List Candidate :=
  sortCandidates "verifier" candidates

/-- `_requires_verification`; `bucket` is the number the first four bytes of the SHA-256
of a domain stand for. -/
def requiresVerification (bucket : String → ℕ) (c : Classification) (pool : AnalysisPoolOptions) :
    Bool :=
  decide (c.securityRisk ≥ pool.verifySecurityRiskAtLeast) ||
    decide (c.breakageRisk ≥ pool.verifyBreakageRiskAtLeast) ||
    (pool.verifyAutomaticActions && !c.needsReview &&
      decide (c.policy = .allow ∨ c.policy = .deny)) ||
    decide (((bucket c.domain%100 : ℕ) : ℤ) < min 100 (max 0 pool.verificationSamplePercent))

/-- `_classifications_agree`. -/
def classificationsAgree (primary secondary : Classification) : Bool :=
  decide (primary.policy = secondary.policy) && decide (primary.category = secondary.category) &&
    primary.tags.all (· ∈ secondary.tags) && secondary.tags.all (· ∈ primary.tags) &&
    decide (|primary.securityRisk-secondary.securityRisk| ≤ 20) &&
    decide (|primary.breakageRisk-secondary.breakageRisk| ≤ 20)

def unavailableReason : String := "Independent provider verification was unavailable."

def disagreedReason : String :=
  "Independent provider verification disagreed with the primary result."

/-- `_mark_verification_unavailable`, on one classification. -/
def markUnavailable (domains : List String) (c : Classification) : Classification :=
  if c.domain ∈ domains then
    { c with
      needsReview := true
      reviewReason := if c.reviewReason = "" then unavailableReason else c.reviewReason }
  else c

/-- `_mark_verification_unavailable`. -/
def markVerificationUnavailable (result : ProviderAnalysisResult) (domains : List String) :
    ProviderAnalysisResult :=
  { result with classifications := result.classifications.map (markUnavailable domains) }

/-- `secondary_by_domain.get`: a later classification of a domain replaces an earlier one. -/
def secondaryByDomain (secondary : ProviderAnalysisResult) (domain : String) :
    Option Classification :=
  secondary.classifications.reverse.find? (·.domain = domain)

/-- The last pass, on one classification. -/
def markDisagreement (secondary : ProviderAnalysisResult) (c : Classification) : Classification :=
  match secondaryByDomain secondary c.domain with
  | none => c
  | some other =>
    if classificationsAgree c other then c
    else { c with needsReview := true, reviewReason := disagreedReason }

/-- How a provider call ends, from the candidate, the domains and `is_primary`. -/
abbrev Executor := Candidate → List String → Bool → Execution

def providerError (cooldownUntil : String → ℚ) (candidate : Candidate) (e : ExecError) :
    ProviderAnalysisError where
  providerId := candidate.provider.providerId
  providerName := candidate.provider.name
  error := e.message
  retryAt := max e.retryAt (cooldownUntil candidate.provider.providerId)

/-- The primary result and its error, if it has one to go on with. -/
def primaryResult (cooldownUntil : String → ℚ) (candidate : Candidate) :
    Execution → Except DispatchError (ProviderAnalysisResult × List ProviderAnalysisError)
  | .returned result => .ok (result,[])
  | .partialAnalysis result _ cause => .ok (result,[providerError cooldownUntil candidate cause])
  | .raised e _ => .error (.execution e)

/-- What the verifier's end makes of the primary result. -/
def verifyResult (cooldownUntil : String → ℚ) (verifier : Candidate)
    (primary : ProviderAnalysisResult) (errors : List ProviderAnalysisError)
    (verifyDomains : List String) :
    Execution → Except DispatchError (List ProviderAnalysisResult × List ProviderAnalysisError)
  | .raised .cancelled _ => .error (.execution .cancelled)
  | .raised e _ => .ok ([markVerificationUnavailable primary verifyDomains],
      errors++[providerError cooldownUntil verifier e])
  | .returned secondary => .ok ([{ primary with
        classifications := primary.classifications.map (markDisagreement secondary) },secondary],
      errors)
  | .partialAnalysis secondary failedDomains cause =>
    let marked := markVerificationUnavailable primary failedDomains
    .ok ([{ marked with
        classifications := marked.classifications.map (markDisagreement secondary) },secondary],
      errors++[providerError cooldownUntil verifier cause])

/-- `_dispatch_verify`. -/
def dispatchVerify {δ : Type*} [CaseTables] (bucket : String → ℕ) (cooldownUntil : String → ℚ)
    (execute : Executor) (pool : AnalysisPoolOptions) (candidates : List Candidate)
    (domains : List String) (dossiers : List (String × δ)) (cancelledAtStart : Bool) :
    Except DispatchError (List ProviderAnalysisResult × List ProviderAnalysisError) :=
  if cancelledAtStart then .error (.execution .cancelled)
  else
    match (fallbackOrder candidates).head? with
    | none => .error .noCandidate
    | some primaryCandidate =>
      match primaryResult cooldownUntil primaryCandidate (execute primaryCandidate domains true) with
      | .error e => .error e
      | .ok (primary,errors) =>
        let verifyDomains := (primary.classifications.filter fun c =>
          requiresVerification bucket c pool).map Classification.domain
        if verifyDomains = [] then .ok ([primary],errors)
        else
          match (verificationOrder candidates).find? fun c =>
              decide (c.provider.providerId ≠ primary.providerId) with
          | none => .ok ([markVerificationUnavailable primary verifyDomains],
              errors++[⟨"","","No independent verification provider is configured.",0⟩])
          | some verifier =>
            match selectDossiers dossiers verifyDomains with
            | .error e => .error (.execution e)
            | .ok _ => verifyResult cooldownUntil verifier primary errors verifyDomains
                (execute verifier verifyDomains false)

/-- What provider calls promise: a result carries the identity of its candidate and
accounts for the domains it was asked about. -/
structure Executor.Accounts (execute : Executor) : Prop where
  returned : ∀ c domains isPrimary result, execute c domains isPrimary = .returned result →
    result.providerId = c.provider.providerId ∧ result.isPrimary = isPrimary ∧
      result.classifications.map Classification.domain = domains
  partialAnalysis : ∀ c domains isPrimary result failed cause,
    execute c domains isPrimary = .partialAnalysis result failed cause →
    result.providerId = c.provider.providerId ∧ result.isPrimary = isPrimary ∧
      result.classifications.map Classification.domain++failed = domains

/-- The same for the lists that can be taken from `domains`. -/
structure Executor.AccountsOn (execute : Executor) (domains : List String) : Prop where
  returned : ∀ c asked isPrimary result, asked.Sublist domains →
    execute c asked isPrimary = .returned result →
    result.providerId = c.provider.providerId ∧ result.isPrimary = isPrimary ∧
      result.classifications.map Classification.domain = asked
  partialAnalysis : ∀ c asked isPrimary result failed cause, asked.Sublist domains →
    execute c asked isPrimary = .partialAnalysis result failed cause →
    result.providerId = c.provider.providerId ∧ result.isPrimary = isPrimary ∧
      result.classifications.map Classification.domain++failed = asked

theorem Executor.Accounts.on {execute : Executor} (h : execute.Accounts) (domains : List String) :
    execute.AccountsOn domains :=
  ⟨fun c asked p result _ => h.returned c asked p result,
    fun c asked p result failed cause _ => h.partialAnalysis c asked p result failed cause⟩

/-- A checked classification: what verification leaves of `c`. -/
structure Checked (bucket : String → ℕ) (pool : AnalysisPoolOptions) (primaryId : String)
    (others : List ProviderAnalysisResult) (c out : Classification) : Prop where
  domain : out.domain = c.domain
  unchanged : requiresVerification bucket c pool = false → out = c
  reviewKept : c.needsReview = true → out.needsReview = true
  verified : requiresVerification bucket c pool = true → out.needsReview = false →
    ∃ result ∈ others, result.isPrimary = false ∧ result.providerId ≠ primaryId ∧
      ∃ other ∈ result.classifications, other.domain = c.domain ∧
        classificationsAgree out other = true

section Marks

variable {bucket : String → ℕ} {pool : AnalysisPoolOptions} {primaryId : String}
  {others : List ProviderAnalysisResult} {domains : List String} {c : Classification}

theorem markUnavailable_domain (domains : List String) (c : Classification) :
    (markUnavailable domains c).domain = c.domain := by
  unfold markUnavailable
  split <;> rfl

theorem markUnavailable_needsReview (h : c.domain ∈ domains) :
    (markUnavailable domains c).needsReview = true := by
  simp [markUnavailable,h]

theorem markUnavailable_of_notMem (h : c.domain ∉ domains) : markUnavailable domains c = c :=
  if_neg h

theorem markUnavailable_reviewKept (h : c.needsReview = true) :
    (markUnavailable domains c).needsReview = true := by
  unfold markUnavailable
  split
  · rfl
  · exact h

theorem markDisagreement_domain (secondary : ProviderAnalysisResult) (c : Classification) :
    (markDisagreement secondary c).domain = c.domain := by
  unfold markDisagreement
  split
  · rfl
  · split <;> rfl

theorem markDisagreement_reviewKept (secondary : ProviderAnalysisResult)
    (h : c.needsReview = true) : (markDisagreement secondary c).needsReview = true := by
  unfold markDisagreement
  split
  · exact h
  · split
    · exact h
    · rfl

/-- The dictionary lookup finds a classification of every domain the verifier returned. -/
theorem secondaryByDomain_of_mem {secondary : ProviderAnalysisResult} {d : String}
    (h : d ∈ secondary.classifications.map Classification.domain) :
    ∃ other ∈ secondary.classifications, other.domain = d ∧
      secondaryByDomain secondary d = some other := by
  obtain ⟨c,hc,hd⟩ := List.mem_map.mp h
  cases hfind : secondaryByDomain secondary d with
  | none =>
    have hnone := List.find?_eq_none.mp hfind c (List.mem_reverse.mpr hc)
    simp [hd] at hnone
  | some other =>
    have hmem := List.mem_of_find?_eq_some hfind
    have hdomain := List.find?_some hfind
    exact ⟨other,List.mem_reverse.mp hmem,by simpa using hdomain,rfl⟩

theorem secondaryByDomain_of_notMem {secondary : ProviderAnalysisResult} {d : String}
    (h : d ∉ secondary.classifications.map Classification.domain) :
    secondaryByDomain secondary d = none := by
  refine List.find?_eq_none.mpr fun c hc => ?_
  have hne : c.domain ≠ d := by
    rintro rfl
    exact h (List.mem_map_of_mem (List.mem_reverse.mp hc))
  simp [hne]

/-- Without a verifier's answer every required classification goes to review. -/
theorem checked_of_marked
    (hiff : c.domain ∈ domains ↔ requiresVerification bucket c pool = true) :
    Checked bucket pool primaryId others c (markUnavailable domains c) where
  domain := markUnavailable_domain domains c
  unchanged hnot := markUnavailable_of_notMem fun hmem => by simp [hiff.mp hmem] at hnot
  reviewKept := markUnavailable_reviewKept
  verified hrequired hreview := by
    rw [markUnavailable_needsReview (hiff.mpr hrequired)] at hreview
    cases hreview

/-- With an answer for some domains and none for `failed`, every required classification
is compared or goes to review. -/
theorem checked_of_compared {secondary : ProviderAnalysisResult} {failed : List String}
    (hiff : c.domain ∈ secondary.classifications.map Classification.domain++failed ↔
      requiresVerification bucket c pool = true)
    (hprimary : secondary.isPrimary = false) (hid : secondary.providerId ≠ primaryId) :
    Checked bucket pool primaryId [secondary] c
      (markDisagreement secondary (markUnavailable failed c)) where
  domain := by rw [markDisagreement_domain,markUnavailable_domain]
  unchanged hnot := by
    have hmem : c.domain ∉ secondary.classifications.map Classification.domain++failed :=
      fun hmem => by simp [hiff.mp hmem] at hnot
    rw [List.mem_append,not_or] at hmem
    rw [markUnavailable_of_notMem hmem.2]
    simp only [markDisagreement,secondaryByDomain_of_notMem hmem.1]
  reviewKept hreview := markDisagreement_reviewKept secondary (markUnavailable_reviewKept hreview)
  verified hrequired hreview := by
    have hanswered : c.domain ∉ failed := by
      intro hfailed
      rw [markDisagreement_reviewKept secondary (markUnavailable_needsReview hfailed)] at hreview
      cases hreview
    have hmem : c.domain ∈ secondary.classifications.map Classification.domain :=
      (List.mem_append.mp (hiff.mpr hrequired)).resolve_right hanswered
    obtain ⟨other,hother,hdomain,hlookup⟩ := secondaryByDomain_of_mem hmem
    refine ⟨secondary,by simp,hprimary,hid,other,hother,hdomain,?_⟩
    rw [markUnavailable_of_notMem hanswered] at hreview ⊢
    simp only [markDisagreement,hlookup] at hreview ⊢
    split
    · assumption
    · rename_i hdisagree
      simp [hdisagree] at hreview

end Marks

section Dispatch

variable {bucket : String → ℕ} {pool : AnalysisPoolOptions}

/-- Among classifications of different domains, being listed for verification is the same
as requiring it. -/
theorem mem_verifyDomains {classifications : List Classification}
    (hnodup : (classifications.map Classification.domain).Nodup) {c : Classification}
    (hc : c ∈ classifications) :
    c.domain ∈ (classifications.filter fun c => requiresVerification bucket c pool).map
        Classification.domain ↔ requiresVerification bucket c pool = true := by
  constructor
  · intro hmem
    obtain ⟨c',hc',hdomain⟩ := List.mem_map.mp hmem
    obtain ⟨hmem',hrequired⟩ := List.mem_filter.mp hc'
    obtain rfl : c' = c := List.inj_on_of_nodup_map hnodup hmem' hc hdomain
    exact hrequired
  · exact fun hrequired => List.mem_map_of_mem (List.mem_filter.mpr ⟨hc,hrequired⟩)

theorem primaryResult_ok {execute : Executor} {domains : List String}
    (haccounts : execute.AccountsOn domains) {cooldownUntil : String → ℚ} {candidate : Candidate}
    {primary : ProviderAnalysisResult} {errors : List ProviderAnalysisError}
    (h : primaryResult cooldownUntil candidate (execute candidate domains true) =
      .ok (primary,errors)) :
    (execute candidate domains true).result? = some primary ∧
      ∃ rest, primary.classifications.map Classification.domain++rest = domains := by
  cases hexec : execute candidate domains true with
  | returned result =>
    simp only [hexec,primaryResult,Except.ok.injEq,Prod.mk.injEq] at h
    obtain ⟨rfl,-⟩ := h
    obtain ⟨-,-,hdomains⟩ := haccounts.returned _ _ _ _ (List.Sublist.refl _) hexec
    exact ⟨rfl,[],by simpa using hdomains⟩
  | partialAnalysis result failed cause =>
    simp only [hexec,primaryResult,Except.ok.injEq,Prod.mk.injEq] at h
    obtain ⟨rfl,-⟩ := h
    obtain ⟨-,-,hdomains⟩ := haccounts.partialAnalysis _ _ _ _ _ _ (List.Sublist.refl _) hexec
    exact ⟨rfl,failed,hdomains⟩
  | raised e obtained => simp [hexec,primaryResult] at h

/-- Every end of the verifier leaves a checked primary result. -/
theorem verifyResult_checked {execute : Executor} {domains : List String}
    (haccounts : execute.AccountsOn domains) {cooldownUntil : String → ℚ} {verifier : Candidate} {produced : ProviderAnalysisResult}
    {errors errors' : List ProviderAnalysisError} {verifyDomains : List String}
    {results : List ProviderAnalysisResult} (hasked : verifyDomains.Sublist domains)
    (hiff : ∀ c ∈ produced.classifications,
      (c.domain ∈ verifyDomains ↔ requiresVerification bucket c pool = true))
    (hid : verifier.provider.providerId ≠ produced.providerId)
    (h : verifyResult cooldownUntil verifier produced errors verifyDomains
      (execute verifier verifyDomains false) = .ok (results,errors')) :
    ∃ f others, results = { produced with
        classifications := produced.classifications.map f }::others ∧
      (∀ r ∈ others, r.isPrimary = false ∧
        (r.classifications.map Classification.domain).Sublist domains) ∧
      ∀ c ∈ produced.classifications, Checked bucket pool produced.providerId others c (f c) := by
  cases hexec : execute verifier verifyDomains false with
  | raised e obtained =>
    have hmarked : e ≠ .cancelled → results = [markVerificationUnavailable produced verifyDomains] := by
      intro hne
      rw [hexec] at h
      cases e <;> first | exact absurd rfl hne | exact (Prod.mk.inj (Except.ok.inj h)).1.symm
    have hne : e ≠ .cancelled := by
      rintro rfl
      simp [hexec,verifyResult] at h
    exact ⟨markUnavailable verifyDomains,[],hmarked hne,by simp,
      fun c hc => checked_of_marked (hiff c hc)⟩
  | returned secondary =>
    simp only [hexec,verifyResult,Except.ok.injEq,Prod.mk.injEq] at h
    obtain ⟨hsecondary,hprimary,hdomains⟩ := haccounts.returned _ _ _ _ hasked hexec
    refine ⟨fun c => markDisagreement secondary (markUnavailable [] c),[secondary],?_,?_,?_⟩
    · rw [← h.1]
      simp only [markUnavailable_of_notMem (List.not_mem_nil)]
    · exact List.forall_mem_singleton.mpr ⟨hprimary,hdomains ▸ hasked⟩
    · intro c hc
      refine checked_of_compared ?_ hprimary (hsecondary ▸ hid)
      rw [List.append_nil,hdomains]
      exact hiff c hc
  | partialAnalysis secondary failed cause =>
    simp only [hexec,verifyResult,markVerificationUnavailable,List.map_map,Except.ok.injEq,
      Prod.mk.injEq] at h
    obtain ⟨hsecondary,hprimary,hdomains⟩ := haccounts.partialAnalysis _ _ _ _ _ _ hasked hexec
    have hnames : (secondary.classifications.map Classification.domain).Sublist domains :=
      (hdomains ▸ List.sublist_append_left _ _).trans hasked
    refine ⟨markDisagreement secondary ∘ markUnavailable failed,[secondary],h.1.symm,
      List.forall_mem_singleton.mpr ⟨hprimary,hnames⟩,?_⟩
    intro c hc
    refine checked_of_compared ?_ hprimary (hsecondary ▸ hid)
    rw [hdomains]
    exact hiff c hc

/-- Every exit maps the classifications of the primary provider by a function that leaves
each of them checked. -/
theorem dispatchVerify_exit {δ : Type*} [CaseTables] {cooldownUntil : String → ℚ}
    {execute : Executor} {candidates : List Candidate} {domains : List String}
    (haccounts : execute.AccountsOn domains) (hnodup : domains.Nodup)
    {dossiers : List (String × δ)} {cancelledAtStart : Bool}
    {results : List ProviderAnalysisResult} {errors : List ProviderAnalysisError}
    (h : dispatchVerify bucket cooldownUntil execute pool candidates domains dossiers
      cancelledAtStart = .ok (results,errors)) :
    ∃ candidate produced f others, (fallbackOrder candidates).head? = some candidate ∧
      (execute candidate domains true).result? = some produced ∧
      results = { produced with classifications := produced.classifications.map f }::others ∧
      (∀ r ∈ others, r.isPrimary = false ∧
        (r.classifications.map Classification.domain).Sublist domains) ∧
      ∀ c ∈ produced.classifications, Checked bucket pool produced.providerId others c (f c) := by
  simp only [dispatchVerify] at h
  split at h
  · cases h
  · cases hhead : (fallbackOrder candidates).head? with
    | none => simp [hhead] at h
    | some candidate =>
      simp only [hhead] at h
      cases hprimary : primaryResult cooldownUntil candidate (execute candidate domains true) with
      | error e => simp [hprimary] at h
      | ok pair =>
        obtain ⟨produced,errors₀⟩ := pair
        simp only [hprimary] at h
        obtain ⟨hresult,rest,hdomains⟩ := primaryResult_ok haccounts hprimary
        have hproduced : (produced.classifications.map Classification.domain).Nodup := by
          rw [← hdomains] at hnodup
          exact hnodup.of_append_left
        have hiff : ∀ c ∈ produced.classifications, (c.domain ∈ (produced.classifications.filter
            fun c => requiresVerification bucket c pool).map Classification.domain ↔
              requiresVerification bucket c pool = true) :=
          fun c hc => mem_verifyDomains hproduced hc
        split at h
        · rename_i hnone
          obtain ⟨rfl,-⟩ := Prod.mk.inj (Except.ok.inj h)
          refine ⟨candidate,produced,id,[],rfl,hresult,by simp,by simp,fun c hc => ?_⟩
          have hnot : requiresVerification bucket c pool ≠ true := by
            rw [ne_eq,← hiff c hc,hnone]
            exact List.not_mem_nil
          exact ⟨rfl,fun _ => rfl,fun hreview => hreview,fun hrequired => absurd hrequired hnot⟩
        · cases hverifier : (verificationOrder candidates).find? fun c =>
              decide (c.provider.providerId ≠ produced.providerId) with
          | none =>
            simp only [hverifier] at h
            obtain ⟨rfl,-⟩ := Prod.mk.inj (Except.ok.inj h)
            exact ⟨candidate,produced,_,[],rfl,hresult,rfl,by simp,fun c hc =>
              checked_of_marked (hiff c hc)⟩
          | some verifier =>
            simp only [hverifier] at h
            have hid : verifier.provider.providerId ≠ produced.providerId := by
              simpa using List.find?_some hverifier
            split at h
            · cases h
            · have hasked : ((produced.classifications.filter fun c =>
                  requiresVerification bucket c pool).map Classification.domain).Sublist domains :=
                (List.filter_sublist.map _).trans (hdomains ▸ List.sublist_append_left _ _)
              obtain ⟨f,others,hresults,hothers,hchecked⟩ :=
                verifyResult_checked haccounts hasked hiff hid h
              exact ⟨candidate,produced,f,others,rfl,hresult,hresults,hothers,hchecked⟩

end Dispatch

/-! The executor that `_dispatch_verify` really has. -/

/-- `_call_execute_provider`, one job for each call. -/
def jobExecutor {δ : Type*} (env : Candidate → Surroundings δ) (dossiers : List (String × δ))
    (options : LLMOptions) (profileName : String) (cancelledAtStart : Candidate → Bool) : Executor :=
  fun candidate domains isPrimary =>
    ((⟨candidate,domains,dossiers,options,profileName,isPrimary⟩ : Job δ).executeProvider
      (env candidate) (cancelledAtStart candidate)).getD (.raised .cancelled [])

theorem jobExecutor_accountsOn {δ : Type*} {env : Candidate → Surroundings δ}
    {domains : List String} (hfaithful : ∀ c, (env c).FaithfulOn domains)
    (dossiers : List (String × δ)) (options : LLMOptions) (profileName : String)
    (cancelledAtStart : Candidate → Bool) :
    (jobExecutor env dossiers options profileName cancelledAtStart).AccountsOn domains := by
  have hspec : ∀ c asked isPrimary outcome, asked.Sublist domains →
      jobExecutor env dossiers options profileName cancelledAtStart c asked isPrimary = outcome →
      (⟨c,asked,dossiers,options,profileName,isPrimary⟩ : Job δ).Concludes outcome ∧
        ∀ result, outcome.result? = some result →
          result.providerId = c.provider.providerId ∧ result.isPrimary = isPrimary := by
    intro c asked isPrimary outcome hasked h
    obtain ⟨ended,hended,hconcludes⟩ := executeProvider_concludes
      (⟨c,asked,dossiers,options,profileName,isPrimary⟩ : Job δ)
      (fun n batch result hbatch => hfaithful c n batch result (hbatch.trans hasked))
      (cancelledAtStart c)
    simp only [jobExecutor,hended,Option.getD_some] at h
    subst h
    exact ⟨hconcludes,fun result hresult => executeProvider_identity hended hresult⟩
  constructor
  · intro c asked isPrimary result hasked h
    obtain ⟨hconcludes,hidentity⟩ := hspec c asked isPrimary _ hasked h
    exact ⟨(hidentity result rfl).1,(hidentity result rfl).2,hconcludes⟩
  · intro c asked isPrimary result failed cause hasked h
    obtain ⟨hconcludes,hidentity⟩ := hspec c asked isPrimary _ hasked h
    exact ⟨(hidentity result rfl).1,(hidentity result rfl).2,hconcludes.2⟩

theorem jobExecutor_accounts {δ : Type*} {env : Candidate → Surroundings δ}
    (hfaithful : ∀ c, (env c).Faithful) (dossiers : List (String × δ)) (options : LLMOptions)
    (profileName : String) (cancelledAtStart : Candidate → Bool) :
    (jobExecutor env dossiers options profileName cancelledAtStart).Accounts := by
  have hon : ∀ domains,
      (jobExecutor env dossiers options profileName cancelledAtStart).AccountsOn domains :=
    fun domains => jobExecutor_accountsOn (fun c => (hfaithful c).on domains) _ _ _ _
  exact ⟨fun c asked p result => (hon asked).returned c asked p result (List.Sublist.refl _),
    fun c asked p result failed cause =>
      (hon asked).partialAnalysis c asked p result failed cause (List.Sublist.refl _)⟩

/-- A primary and a verifying provider that answer alike. -/
def sampleCandidates : List Candidate :=
  [⟨{ role := "verifier" },⟨"p2","Second","model",4096,0⟩,{ source := "bundled_registry" }⟩,
    ⟨{},⟨"p1","First","model",4096,0⟩,{ source := "bundled_registry" }⟩]

def sampleExecutor : Executor :=
  jobExecutor (fun _ => sampleSurroundings .cancelled) [("a.com",())] {} "default" fun _ => false

end Dispatch
end WormholeObservatory
