import WormholeObservatory.WorkerCycle

/-! What becomes of a domain every provider rejects: which calls a dispatch makes, which
retry times its errors carry, and whether the cycle fails the domain or defers it. -/
namespace WormholeObservatory
namespace Dispatch

/-! The calls of a dispatch. -/

section Calls

variable {δ : Type*} [CaseTables]

/-- The calls of `_dispatch_verify`. -/
def verifyCalls (request : AnalysisRequest δ) (execute : Executor) : List (Call × Bool) :=
  match (fallbackOrder request.candidates).head? with
  | none => []
  | some primaryCandidate =>
    ((primaryCandidate,request.names),true)::
      match (execute primaryCandidate request.names true).result? with
      | none => []
      | some primary =>
        let verifyDomains := (primary.classifications.filter fun c =>
          requiresVerification request.sampleHash c request.pool).map Classification.domain
        if verifyDomains = [] then []
        else
          match (verificationOrder request.candidates).find? fun c =>
              decide (c.provider.providerId ≠ primary.providerId) with
          | none => []
          | some verifier => [((verifier,verifyDomains),false)]

/-- The provider calls a dispatch makes, each with its `is_primary`. -/
def AnalysisRequest.calls (request : AnalysisRequest δ) (execute : Executor) (progress : Progress) :
    List (Call × Bool) :=
  match request.mode with
  | .distribute =>
    match distributeCalls request.assignHash progress.cancelledAt request.candidates request.names
        request.frozen with
    | .error _ => []
    | .ok calls => calls.map fun call => (call,true)
  | .compare => (compareCalls request.candidates request.names).map fun call => (call,false)
  | .fallback => (fallbackRun request.cooldownUntil execute request.candidates request.names
      request.frozen progress).1.contacted.map fun call => (call,true)
  | .verify => verifyCalls request execute

/-- A call fails for `d` with an exception no other provider is tried after. -/
def Execution.Rejects (d : String) : Execution → Prop
  | .returned _ => False
  | .partialAnalysis _ failedDomains cause => d ∈ failedDomains ∧ cause.isFallbackEligible = false
  | .raised e _ => e.isFallbackEligible = false

/-- Every provider that was asked about `d` rejected it, and one was. -/
structure Rejected (request : AnalysisRequest δ) (execute : Executor) (progress : Progress)
    (d : String) : Prop where
  named : d ∈ request.names
  asked : ∃ call ∈ request.calls execute progress, d ∈ call.1.2
  rejects : ∀ call ∈ request.calls execute progress, d ∈ call.1.2 →
    (execute call.1.1 call.1.2 call.2).Rejects d

/-- Nothing is cancelled, and every call that runs side by side with others is waited for. -/
structure Runs (request : AnalysisRequest δ) (execute : Executor) (progress : Progress) : Prop where
  undisturbed : progress.Undisturbed
  completes : request.Completes progress
  uncancelled : ∀ c asked isPrimary, (execute c asked isPrimary).cancels = false

/-- The retry times of the failing calls have all passed at `bound`. -/
def RetriesPassed (request : AnalysisRequest δ) (execute : Executor) (progress : Progress)
    (bound : ℚ) : Prop :=
  ∀ call ∈ request.calls execute progress, ∀ e,
    (execute call.1.1 call.1.2 call.2).error? = some e →
      max e.retryAt (request.cooldownUntil call.1.1.provider.providerId) ≤ bound

/-- The first provider of a pool that hands on or verifies fails outright. -/
def Outright (request : AnalysisRequest δ) (execute : Executor) : Prop :=
  (request.mode = .fallback ∨ request.mode = .verify) ∧
    ∃ first, (fallbackOrder request.candidates).head? = some first ∧
      (execute first request.names true).refuses = true

end Calls

theorem latestRetry_le {errors : List ProviderAnalysisError} {bound : ℚ} (hbound : 0 ≤ bound) :
    latestRetry errors ≤ bound ↔ ∀ e ∈ errors, e.retryAt ≤ bound := by
  have hfold : ∀ (errors : List ProviderAnalysisError) (x : ℚ),
      errors.foldl (fun latest error => max latest error.retryAt) x ≤ bound ↔
        x ≤ bound ∧ ∀ e ∈ errors, e.retryAt ≤ bound := by
    intro errors
    induction errors with
    | nil => simp
    | cons error errors ih =>
      intro x
      rw [List.foldl_cons,ih,max_le_iff,List.forall_mem_cons,and_assoc]
  cases errors with
  | nil => simpa [latestRetry] using hbound
  | cons error errors => simp [latestRetry,hfold]

section Ends

variable {δ : Type*} [CaseTables] {request : AnalysisRequest δ} {execute : Executor}
  {progress : Progress}

/-- What a dispatch that returns says about retrying. -/
structure Reports (request : AnalysisRequest δ) (execute : Executor) (progress : Progress)
    (errors : List ProviderAnalysisError) : Prop where
  passed : ∀ bound, 0 ≤ bound →
    (latestRetry errors ≤ bound ↔ RetriesPassed request execute progress bound)

omit [CaseTables] in
/-- Calls side by side. -/
theorem collectSorted_runs (request : AnalysisRequest δ) (isPrimary : Bool) (calls : List Call)
    (hruns : progress.Undisturbed)
    (huncancelled : ∀ c asked isPrimary, (execute c asked isPrimary).cancels = false) :
    ∃ outcome, collectSorted request.cooldownUntil execute isPrimary request.candidates calls
      progress.polls = .ok outcome := by
  have hany : ((reported calls progress.polls).any fun call =>
      (execute call.1 call.2 isPrimary).cancels) = false :=
    List.any_eq_false.mpr fun call _ => by simp [huncancelled]
  simp only [collectSorted,collectPolls_undisturbed hruns.before hruns.after,collectCalls_eq,hany,
    Bool.false_eq_true,if_false]
  exact ⟨_,rfl⟩

/-- Errors that come from the calls, and others that are not to be waited for. -/
theorem reports_of_perm {errors : List ProviderAnalysisError} (extra : List ProviderAnalysisError)
    (herrors : errors.Perm ((request.calls execute progress).flatMap (fun tagged =>
      callErrors request.cooldownUntil execute tagged.2 tagged.1)++extra))
    (hextra : ∀ error ∈ extra, error.retryAt = 0) : Reports request execute progress errors := by
  refine ⟨fun bound hbound => ?_⟩
  rw [latestRetry_le hbound]
  constructor
  · intro h tagged htagged e he
    refine h (providerError request.cooldownUntil tagged.1.1 e) (herrors.mem_iff.mpr ?_)
    refine List.mem_append_left _ (List.mem_flatMap.mpr ⟨tagged,htagged,List.mem_map_of_mem ?_⟩)
    rw [he]
    exact List.mem_singleton_self e
  · intro h error herror
    rcases List.mem_append.mp (herrors.mem_iff.mp herror) with hmem | hmem
    · obtain ⟨tagged,htagged,hmem⟩ := List.mem_flatMap.mp hmem
      obtain ⟨e,he,rfl⟩ := List.mem_map.mp hmem
      exact h tagged htagged e (Option.mem_toList.mp he)
    · rw [hextra error hmem]
      exact hbound

theorem reports_together (calls : List Call) (isPrimary : Bool) {errors : List ProviderAnalysisError}
    (hcalls : request.calls execute progress = calls.map fun call => (call,isPrimary))
    (herrors : errors.Perm (calls.flatMap (callErrors request.cooldownUntil execute isPrimary))) :
    Reports request execute progress errors := by
  refine reports_of_perm [] ?_ (fun _ h => absurd h List.not_mem_nil)
  rw [List.append_nil,hcalls,List.flatMap_map]
  exact herrors

theorem distribute_ends (hmode : request.mode = .distribute) (hruns : Runs request execute progress)
    {d : String} (hrejected : Rejected request execute progress d) :
    ∃ results errors, dispatchPool request execute progress = .ok (results,errors) ∧
      Reports request execute progress errors := by
  obtain ⟨call,hcall,-⟩ := hrejected.asked
  have hcompletes := hruns.completes
  simp only [AnalysisRequest.Completes,hmode] at hcompletes
  cases hcalls : distributeCalls request.assignHash progress.cancelledAt request.candidates
      request.names request.frozen with
  | error e =>
    simp only [AnalysisRequest.calls,hmode,hcalls] at hcall
    cases hcall
  | ok calls =>
    obtain ⟨⟨results,errors⟩,hok⟩ := collectSorted_runs request true calls
      hruns.undisturbed hruns.uncancelled
    refine ⟨results,errors,?_,reports_together _ _ ?_ (collectSorted_ok (hcompletes calls hcalls) hok).2⟩
    · simp only [dispatchPool,hmode,dispatchDistribute,hcalls,hok]
    · simp only [AnalysisRequest.calls,hmode,hcalls]

theorem compare_ends (hmode : request.mode = .compare) (hruns : Runs request execute progress) :
    ∃ results errors, dispatchPool request execute progress = .ok (results,errors) ∧
      Reports request execute progress errors := by
  have hcompletes := hruns.completes
  simp only [AnalysisRequest.Completes,hmode] at hcompletes
  obtain ⟨⟨results,errors⟩,hok⟩ := collectSorted_runs request false
    (compareCalls request.candidates request.names) hruns.undisturbed hruns.uncancelled
  refine ⟨results,errors,?_,reports_together _ _ ?_ (collectSorted_ok hcompletes hok).2⟩
  · simp only [dispatchPool,hmode,dispatchCompare,hok]
  · simp only [AnalysisRequest.calls,hmode]

/-- The state a turn leaves, however it ends. -/
def FallbackTurn.state : FallbackTurn → FallbackState
  | .next st => st
  | .stop st => st
  | .raised st _ => st

omit [CaseTables] in
theorem conclude_contacted (st : FallbackState) (cooldownUntil : String → ℚ) (candidate : Candidate)
    (execution : Execution) :
    (st.conclude cooldownUntil candidate execution).state.contacted = st.contacted := by
  cases execution with
  | returned result => rfl
  | partialAnalysis result failed cause =>
    simp only [FallbackState.conclude]
    split <;> rfl
  | raised e obtained =>
    by_cases he : e = .cancelled
    · rw [he]
      rfl
    · rw [conclude_raised st candidate he]
      split <;> rfl

omit [CaseTables] in
theorem turn_contacted (execute : Executor) (st : FallbackState) (cooldownUntil : String → ℚ)
    (dossiers : List (String × δ)) (cancelled : Bool) (candidate : Candidate) {call : Call}
    (h : call ∈ st.contacted) :
    call ∈ (st.turn cooldownUntil execute dossiers cancelled candidate).state.contacted := by
  simp only [FallbackState.turn]
  split
  · exact h
  split
  · exact h
  split
  · rw [conclude_contacted]
    exact h
  · rw [conclude_contacted]
    exact List.mem_append_left _ h

omit [CaseTables] in
theorem fallbackLoop_contacted {cooldownUntil : String → ℚ} {dossiers : List (String × δ)}
    {cancelledAt : ℕ → Bool} {call : Call} (i : ℕ) (st : FallbackState) (candidates : List Candidate)
    (h : call ∈ st.contacted) :
    call ∈ (fallbackLoop cooldownUntil execute dossiers cancelledAt i st candidates).1.contacted := by
  induction candidates generalizing i st with
  | nil => exact h
  | cons candidate candidates ih =>
    have hturn := turn_contacted execute st cooldownUntil dossiers (cancelledAt i)
      candidate h
    simp only [fallbackLoop]
    cases hresult : st.turn cooldownUntil execute dossiers (cancelledAt i) candidate with
    | next st' =>
      rw [hresult] at hturn
      exact ih (i+1) st' hturn
    | stop st' =>
      rw [hresult] at hturn
      exact hturn
    | raised st' e =>
      rw [hresult] at hturn
      exact hturn

/-- The first provider of a pool that hands on decides for a rejected domain. -/
theorem fallback_ends (hmode : request.mode = .fallback) (hruns : Runs request execute progress)
    {d : String} (hrejected : Rejected request execute progress d) :
    (Outright request execute ∧
      ∃ e, e ≠ .cancelled ∧ dispatchPool request execute progress = .error (.execution e)) ∨
    ¬Outright request execute ∧ ∃ results errors,
      dispatchPool request execute progress = .ok (results,errors) ∧
        Reports request execute progress errors := by
  have hnames : request.names ≠ [] := List.ne_nil_of_mem hrejected.named
  cases horder : fallbackOrder request.candidates with
  | nil =>
    obtain ⟨call,hcall,-⟩ := hrejected.asked
    simp only [AnalysisRequest.calls,hmode,fallbackRun,horder,fallbackLoop] at hcall
    cases hcall
  | cons first rest =>
    obtain ⟨selected,hselect⟩ := selectDossiers_frozen request fun _ h => h
    have hturn : ({ remainingDomains := request.names } : FallbackState).turn request.cooldownUntil
        execute request.frozen (progress.cancelledAt 0) first =
          (({ remainingDomains := request.names } : FallbackState).contact first).conclude
            request.cooldownUntil first (execute first request.names true) := by
      simp only [FallbackState.turn,hruns.undisturbed.cancelledAt 0,Bool.false_eq_true,if_false,
        if_neg hnames,hselect]
    have hfirst : ((first,request.names),true) ∈ request.calls execute progress := by
      simp only [AnalysisRequest.calls,hmode,fallbackRun,horder,fallbackLoop,hturn]
      refine List.mem_map_of_mem ?_
      have hcontact := conclude_contacted (({ remainingDomains := request.names } :
        FallbackState).contact first) request.cooldownUntil first (execute first request.names true)
      cases hconclude : (({ remainingDomains := request.names } : FallbackState).contact
          first).conclude request.cooldownUntil first (execute first request.names true) with
      | next st' =>
        rw [hconclude] at hcontact
        refine fallbackLoop_contacted _ _ _ ?_
        rw [show st'.contacted = _ from hcontact]
        exact List.mem_append_right _ (List.mem_singleton_self _)
      | stop st' =>
        rw [hconclude] at hcontact
        rw [show st'.contacted = _ from hcontact]
        exact List.mem_append_right _ (List.mem_singleton_self _)
      | raised st' e =>
        rw [hconclude] at hcontact
        rw [show st'.contacted = _ from hcontact]
        exact List.mem_append_right _ (List.mem_singleton_self _)
    have hrejects := hrejected.rejects _ hfirst hrejected.named
    cases hexec : execute first request.names true with
    | returned result =>
      rw [hexec] at hrejects
      exact hrejects.elim
    | partialAnalysis result failed cause =>
      rw [hexec] at hrejects hturn
      simp only [FallbackState.conclude,hrejects.2,Bool.false_eq_true,if_false] at hturn
      refine .inr ⟨?_,[result],[providerError request.cooldownUntil first cause],?_,?_⟩
      · rintro ⟨-,first',hfirst',hrefuses⟩
        rw [horder,List.head?_cons,Option.some.injEq] at hfirst'
        rw [← hfirst',hexec] at hrefuses
        cases hrefuses
      · simp only [dispatchPool,hmode,dispatchFallback,fallbackRun,horder,fallbackLoop,hturn]
        rfl
      · refine reports_together [(first,request.names)] true ?_ ?_
        · simp only [AnalysisRequest.calls,hmode,fallbackRun,horder,fallbackLoop,hturn]
          rfl
        · simp only [List.flatMap_singleton,callErrors,hexec]
          exact List.Perm.refl _
    | raised e obtained =>
      have he : e ≠ .cancelled := by
        rintro rfl
        have h := hruns.uncancelled first request.names true
        rw [hexec] at h
        cases h
      rw [hexec] at hrejects hturn
      have hineligible : e.isFallbackEligible = false := hrejects
      rw [conclude_raised _ _ he,hineligible,if_neg Bool.false_ne_true] at hturn
      refine .inl ⟨⟨.inl hmode,first,by rw [horder]; rfl,?_⟩,e,he,?_⟩
      · rw [hexec]
        simp [Execution.refuses,hineligible]
      · simp only [dispatchPool,hmode,dispatchFallback,fallbackRun,horder,fallbackLoop,hturn]

omit [CaseTables] in
/-- The verifier's errors come after those of the primary provider. -/
theorem verifyResult_errors (request : AnalysisRequest δ) {verifier : Candidate}
    (primary : ProviderAnalysisResult) (errors : List ProviderAnalysisError) {verifyDomains : List String}
    (huncancelled : (execute verifier verifyDomains false).cancels = false) :
    ∃ results, verifyResult request.cooldownUntil verifier primary errors verifyDomains
      (execute verifier verifyDomains false) =
        .ok (results,errors++callErrors request.cooldownUntil execute false (verifier,verifyDomains)) := by
  simp only [callErrors]
  cases hexec : execute verifier verifyDomains false with
  | returned secondary =>
    simp only [verifyResult,Execution.error?,Option.toList,List.map_nil,List.append_nil]
    exact ⟨_,rfl⟩
  | partialAnalysis secondary failed cause => exact ⟨_,rfl⟩
  | raised e obtained =>
    rw [hexec] at huncancelled
    cases e with
    | cancelled => cases huncancelled
    | _ => exact ⟨_,rfl⟩

/-- So does the first provider of a pool that verifies. -/
theorem verify_ends (hmode : request.mode = .verify) (hruns : Runs request execute progress)
    (haccounts : execute.AccountsOn request.names) {d : String}
    (hrejected : Rejected request execute progress d) :
    (Outright request execute ∧
      ∃ e, e ≠ .cancelled ∧ dispatchPool request execute progress = .error (.execution e)) ∨
    ¬Outright request execute ∧ ∃ results errors,
      dispatchPool request execute progress = .ok (results,errors) ∧
        Reports request execute progress errors := by
  have hcancelled := hruns.undisturbed.cancelledAt 0
  cases hhead : (fallbackOrder request.candidates).head? with
  | none =>
    obtain ⟨call,hcall,-⟩ := hrejected.asked
    simp only [AnalysisRequest.calls,hmode,verifyCalls,hhead] at hcall
    cases hcall
  | some first =>
    have hfirst : ((first,request.names),true) ∈ request.calls execute progress := by
      simp only [AnalysisRequest.calls,hmode,verifyCalls,hhead]
      exact List.mem_cons_self
    have hrejects := hrejected.rejects _ hfirst hrejected.named
    cases hexec : execute first request.names true with
    | returned result =>
      rw [hexec] at hrejects
      exact hrejects.elim
    | raised e obtained =>
      have he : e ≠ .cancelled := by
        rintro rfl
        have h := hruns.uncancelled first request.names true
        rw [hexec] at h
        cases h
      rw [hexec] at hrejects
      have hineligible : e.isFallbackEligible = false := hrejects
      refine .inl ⟨⟨.inr hmode,first,hhead,?_⟩,e,he,?_⟩
      · rw [hexec]
        simp [Execution.refuses,hineligible]
      · simp only [dispatchPool,hmode,dispatchVerify,hcancelled,Bool.false_eq_true,if_false,hhead,
          hexec,primaryResult]
    | partialAnalysis result failed cause =>
      have hsub : ∀ d ∈ (result.classifications.filter fun c =>
          requiresVerification request.sampleHash c request.pool).map Classification.domain,
          d ∈ request.names := by
        obtain ⟨-,-,hnames⟩ := haccounts.partialAnalysis first request.names true result failed cause
          (List.Sublist.refl _) hexec
        intro d hd
        rw [← hnames]
        exact List.mem_append_left _ ((List.filter_sublist.map _).mem hd)
      refine .inr ⟨?_,?_⟩
      · rintro ⟨-,first',hfirst',hrefuses⟩
        obtain rfl := Option.some.inj (hhead.symm.trans hfirst')
        rw [hexec] at hrefuses
        cases hrefuses
      · simp only [dispatchPool,hmode,dispatchVerify,hcancelled,Bool.false_eq_true,if_false,hhead,
          hexec,primaryResult]
        by_cases hverify : (result.classifications.filter fun c =>
            requiresVerification request.sampleHash c request.pool).map Classification.domain = []
        · refine ⟨_,_,by rw [if_pos hverify],reports_of_perm [] ?_ (by simp)⟩
          simp only [AnalysisRequest.calls,hmode,verifyCalls,hhead,hexec,Execution.result?,
            if_pos hverify]
          simp [callErrors,hexec,Execution.error?]
        · cases hverifier : (verificationOrder request.candidates).find? fun c =>
              decide (c.provider.providerId ≠ result.providerId) with
          | none =>
            refine ⟨_,_,by rw [if_neg hverify],reports_of_perm
              [⟨"","","No independent verification provider is configured.",0⟩] ?_ (by simp)⟩
            simp only [AnalysisRequest.calls,hmode,verifyCalls,hhead,hexec,Execution.result?,
              if_neg hverify,hverifier]
            simp [callErrors,hexec,Execution.error?]
          | some verifier =>
            obtain ⟨selected,hselect⟩ := selectDossiers_frozen request hsub
            obtain ⟨results,hresult⟩ := verifyResult_errors request result
              [providerError request.cooldownUntil first cause]
              (hruns.uncancelled verifier ((result.classifications.filter fun c =>
                requiresVerification request.sampleHash c request.pool).map Classification.domain)
                false)
            have hpool : (if (result.classifications.filter fun c =>
                requiresVerification request.sampleHash c request.pool).map Classification.domain = []
                then .ok ([result],[providerError request.cooldownUntil first cause])
                else verifyResult request.cooldownUntil verifier result
                  [providerError request.cooldownUntil first cause] _ (execute verifier _ false)) =
                .ok (results,_) := (if_neg hverify).trans hresult
            refine ⟨results,_,by simpa only [hselect] using hpool,
              reports_of_perm [] ?_ (by simp)⟩
            simp only [AnalysisRequest.calls,hmode,verifyCalls,hhead,hexec,Execution.result?,
              if_neg hverify,hverifier]
            simp [callErrors,hexec,Execution.error?]

/-- How the dispatch of a rejected domain ends, in every mode. -/
theorem rejected_ends (hruns : Runs request execute progress)
    (haccounts : execute.AccountsOn request.names) {d : String}
    (hrejected : Rejected request execute progress d) :
    (Outright request execute ∧
      ∃ e, e ≠ .cancelled ∧ dispatchPool request execute progress = .error (.execution e)) ∨
    ¬Outright request execute ∧ ∃ results errors,
      dispatchPool request execute progress = .ok (results,errors) ∧
        Reports request execute progress errors := by
  cases hmode : request.mode with
  | distribute =>
    refine .inr ⟨?_,distribute_ends hmode hruns hrejected⟩
    rintro ⟨h | h,-⟩ <;> cases hmode.symm.trans h
  | fallback => exact fallback_ends hmode hruns hrejected
  | compare =>
    refine .inr ⟨?_,compare_ends hmode hruns⟩
    rintro ⟨h | h,-⟩ <;> cases hmode.symm.trans h
  | verify => exact verify_ends hmode hruns haccounts hrejected

theorem candidates_ne_nil {d : String} (hrejected : Rejected request execute progress d) :
    request.candidates ≠ [] := by
  intro hnone
  obtain ⟨call,hcall,-⟩ := hrejected.asked
  have hcalls : request.calls execute progress = [] := by
    cases hmode : request.mode with
    | distribute =>
      obtain ⟨d,rest,hnames⟩ := List.exists_cons_of_ne_nil (List.ne_nil_of_mem hrejected.named)
      simp only [AnalysisRequest.calls,hmode,distributeCalls,hnone,hnames]
      rfl
    | fallback =>
      simp only [AnalysisRequest.calls,hmode,fallbackRun,hnone]
      rfl
    | compare =>
      simp only [AnalysisRequest.calls,hmode,hnone]
      rfl
    | verify =>
      simp only [AnalysisRequest.calls,hmode,verifyCalls,hnone]
      rfl
  rw [hcalls] at hcall
  cases hcall

end Ends

end Dispatch

namespace Review

open Dispatch

section Rejection

variable {δ : Type*} [CaseTables] {cycle : Cycle} {s : Store} {request : AnalysisRequest δ}
  {execute : Executor} {progress : Dispatch.Progress} {d : String}

/-- The row of `d` is failed, and so not queued for another try. -/
def EndsFailed (cycle : Cycle) (s : Store) (d : String) : Prop :=
  ((cycle.run s).queue.staging.lookup d).map Queue.StagingRow.state = some .failed

theorem endsFailed_of_fail (hrunning : cycle.stopped = false)
    (hbegun : Begun (cycle.unlocked s) (cycle.begun s)) (hd : d ∈ cycle.unlocked s) {error : String}
    (hverdict : cycle.verdict s d = .fail error) : EndsFailed cycle s d := by
  obtain ⟨row,hrow,-,hattempts⟩ := hbegun.held d hd
  rw [EndsFailed,lookup_run hrunning hbegun hd,hverdict,hrow]
  simp only [Verdict.onRow,Option.map_some,Queue.StagingRow.fail,if_pos hattempts]

theorem not_endsFailed_of_defer (hrunning : cycle.stopped = false)
    (hbegun : Begun (cycle.unlocked s) (cycle.begun s)) (hd : d ∈ cycle.unlocked s) {error : String}
    {retryAt : ℚ} (hverdict : cycle.verdict s d = .defer error retryAt) :
    ¬EndsFailed cycle s d := by
  obtain ⟨row,hrow,-,-⟩ := hbegun.held d hd
  rw [EndsFailed,lookup_run hrunning hbegun hd,hverdict,hrow]
  simp [Verdict.onRow,Queue.StagingRow.defer]

/-- A choice between deferring and failing. -/
theorem endsFailed_iff_of_wait (hrunning : cycle.stopped = false)
    (hbegun : Begun (cycle.unlocked s) (cycle.begun s)) (hd : d ∈ cycle.unlocked s)
    {deferred failed : String} {retryAt bound : ℚ}
    (hverdict : cycle.verdict s d = if bound < retryAt then .defer deferred retryAt else .fail failed) :
    EndsFailed cycle s d ↔ retryAt ≤ bound := by
  by_cases hwait : bound < retryAt
  · rw [if_pos hwait] at hverdict
    exact iff_of_false (not_endsFailed_of_defer hrunning hbegun hd hverdict) (not_le.mpr hwait)
  · rw [if_neg hwait] at hverdict
    exact iff_of_true (endsFailed_of_fail hrunning hbegun hd hverdict) (not_lt.mp hwait)

end Rejection

/-! A provider that answers every request with status 400. -/

def badRequest : ExecError := .other "LLM request failed" [.plain,.httpError (some 400)]

def rejecting : Executor := fun _ _ _ => .raised badRequest []

/-- The pause `_execute_provider` gives a provider after `failures` failures in a row. -/
def cooldown (failures : ℕ) : ℚ := min 300 (max 5 (2^min 8 failures))

/-- The provider failed at 1000, for the first time. -/
def rejectedRequest (mode : AnalysisPoolMode) : AnalysisRequest Unit where
  mode := mode
  poolName := "Background"
  pool := {}
  candidates := [⟨{},⟨"p1","First","model",4096,0⟩,{ source := "bundled_registry" }⟩]
  cooling := []
  domains := ["a.com","b.com"]
  dossiers := []
  cooldownUntil _ := 1000+cooldown 0
  assignHash _ := 0
  sampleHash _ := 0

def oneCall : Dispatch.Progress := { polls := [{ done := [0] }] }

def rejectedCycle (mode : AnalysisPoolMode) : Cycle :=
  { pairCycle fun _ => .answered with
    claimedAt := 990
    analyse := fun _ => dispatchAnalysis (rejectedRequest mode) rejecting oneCall false
    look := fun _ => 1001
    finishedAt := fun _ => 1001 }

theorem rejecting_rejects {mode : AnalysisPoolMode}
    (h : ((rejectedRequest mode).calls rejecting oneCall).any
      (fun call => decide ("a.com" ∈ call.1.2)) = true) :
    Rejected (rejectedRequest mode) rejecting oneCall "a.com" := by
  obtain ⟨call,hcall,hmem⟩ := List.any_eq_true.mp h
  refine ⟨?_,⟨call,hcall,of_decide_eq_true hmem⟩,fun _ _ _ => rfl⟩
  change "a.com" ∈ freezeDomains ["a.com","b.com"]
  decide

end Review
end WormholeObservatory
