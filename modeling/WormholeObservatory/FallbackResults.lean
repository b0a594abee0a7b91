import WormholeObservatory.DispatchNames

/-! What becomes of the results of a pool that hands on: a later provider that fails
for a reason no other provider could mend ends the dispatch, and what earlier ones
returned goes with it. -/
namespace WormholeObservatory
namespace Dispatch

/-- The domains an execution leaves over are among those it was asked about. -/
def Executor.LeavesOver (execute : Executor) : Prop :=
  ∀ c domains isPrimary result failed cause,
    execute c domains isPrimary = .partialAnalysis result failed cause → failed ⊆ domains

/-- An outright failure that no other provider is tried after. -/
def Execution.refuses : Execution → Bool
  | .raised e _ => !e.isFallbackEligible
  | _ => false

section Trace

variable {δ : Type*} {cooldownUntil : String → ℚ} {execute : Executor}
  {dossiers : List (String × δ)} {domains : List String}

/-- The results of the calls made so far. -/
def obtained (execute : Executor) (contacted : List Call) : List ProviderAnalysisResult :=
  contacted.filterMap fun call => (execute call.1 call.2 true).result?

/-- The loop's bookkeeping while it goes on. -/
structure FallbackState.Kept (st : FallbackState) (execute : Executor) (domains : List String) :
    Prop where
  results : st.results = obtained execute st.contacted
  remaining : st.remainingDomains ⊆ domains
  unrefused : ∀ call ∈ st.contacted, (execute call.1 call.2 true).refuses = false

/-- The state a refusal leaves: the last call refused, and nothing before it did. -/
structure FallbackState.Refused (st : FallbackState) (execute : Executor) : Prop where
  results : st.results = obtained execute st.contacted
  refused : ∃ earlier call, st.contacted = earlier++[call] ∧
    (execute call.1 call.2 true).refuses = true ∧
    ∀ before ∈ earlier, (execute before.1 before.2 true).refuses = false

theorem FallbackState.Kept.contact {st : FallbackState} (h : st.Kept execute domains)
    {candidate : Candidate} {rest : List String} (errors : List ProviderAnalysisError)
    (hrest : rest ⊆ domains)
    (hunrefused : (execute candidate st.remainingDomains true).refuses = false) :
    FallbackState.Kept ⟨rest,
      st.results++(execute candidate st.remainingDomains true).result?.toList,errors,
      st.contacted++[(candidate,st.remainingDomains)]⟩ execute domains := by
  refine ⟨?_,hrest,fun call hcall => ?_⟩
  · have hlast : obtained execute [(candidate,st.remainingDomains)] =
        (execute candidate st.remainingDomains true).result?.toList := by
      cases hresult : (execute candidate st.remainingDomains true).result? <;>
        simp [obtained,hresult]
    have happend : obtained execute (st.contacted++[(candidate,st.remainingDomains)]) =
        obtained execute st.contacted++obtained execute [(candidate,st.remainingDomains)] :=
      List.filterMap_append
    rw [happend,hlast,h.results]
  · rcases List.mem_append.mp hcall with hcall | hcall
    · exact h.unrefused call hcall
    · rw [List.mem_singleton.mp hcall]
      exact hunrefused

theorem FallbackState.Kept.turn (hleaves : execute.LeavesOver) {st st' : FallbackState}
    (h : st.Kept execute domains) {cancelled : Bool} {candidate : Candidate}
    (hturn : (st.turn cooldownUntil execute dossiers cancelled candidate).kept = some st') :
    st'.Kept execute domains := by
  rcases turn_kept hturn with rfl | ⟨result,hexec,rfl⟩ | ⟨result,failed,cause,hexec,rfl⟩ |
    ⟨e,obtained,hexec,heligible,rfl⟩
  · exact h
  · have hkept := h.contact st.errors (List.nil_subset domains)
      (by rw [hexec]; rfl)
    rwa [hexec] at hkept
  · have hkept := h.contact (st.errors++[providerError cooldownUntil candidate cause])
      (List.Subset.trans (hleaves _ _ _ _ _ _ hexec) h.remaining) (by rw [hexec]; rfl)
    rwa [hexec] at hkept
  · have hkept := h.contact (st.errors++[providerError cooldownUntil candidate e])
      h.remaining (by rw [hexec]; simp [Execution.refuses,heligible])
    rw [hexec] at hkept
    simpa [FallbackState.fail,FallbackState.contact,Execution.result?] using hkept

/-- A turn raises, without a cancellation, because the provider refused. -/
theorem FallbackState.Kept.raised (hdossiers : ∀ d ∈ domains, dossiers.reverse.lookup d ≠ none)
    (hcancels : ∀ c asked, (execute c asked true).cancels = false) {st st' : FallbackState}
    (h : st.Kept execute domains) {candidate : Candidate} {e : DispatchError}
    (hturn : st.turn cooldownUntil execute dossiers false candidate = .raised st' e) :
    st'.Refused execute := by
  simp only [FallbackState.turn,Bool.false_eq_true,if_false] at hturn
  split at hturn
  · cases hturn
  · cases hselect : selectDossiers dossiers st.remainingDomains with
    | error e' =>
      obtain ⟨d,hd,hnone,-⟩ := selectDossiers_error hselect
      exact absurd hnone (hdossiers d (h.remaining hd))
    | ok selected =>
      simp only [hselect] at hturn
      cases hexec : execute candidate st.remainingDomains true with
      | returned result =>
        rw [hexec] at hturn
        cases hturn
      | partialAnalysis result failed cause =>
        simp only [hexec,FallbackState.conclude] at hturn
        split at hturn <;> cases hturn
      | raised e' dropped =>
        have he' : e' ≠ .cancelled := by
          rintro rfl
          have hcancel := hcancels candidate st.remainingDomains
          rw [hexec] at hcancel
          cases hcancel
        rw [hexec,conclude_raised _ _ he'] at hturn
        split at hturn
        · cases hturn
        · rename_i hineligible
          injection hturn with hst
          subst hst
          have hlast : obtained execute [(candidate,st.remainingDomains)] = [] := by
            simp [obtained,hexec,Execution.result?]
          refine ⟨?_,st.contacted,(candidate,st.remainingDomains),rfl,?_,h.unrefused⟩
          · change st.results = List.filterMap _ (st.contacted++[(candidate,st.remainingDomains)])
            rw [List.filterMap_append,h.results]
            simpa [obtained] using hlast
          · simp [hexec,Execution.refuses,hineligible]

/-- How the loop ends when nothing is cancelled. -/
theorem fallbackLoop_trace (cooldownUntil : String → ℚ) (i : ℕ) (candidates : List Candidate)
    (hleaves : execute.LeavesOver)
    (hdossiers : ∀ d ∈ domains, dossiers.reverse.lookup d ≠ none)
    (hcancels : ∀ c asked, (execute c asked true).cancels = false) {st : FallbackState}
    (h : st.Kept execute domains) :
    (∃ st', fallbackLoop cooldownUntil execute dossiers (fun _ => false) i st candidates =
      (st',none) ∧ st'.Kept execute domains) ∨
    ∃ st' e, fallbackLoop cooldownUntil execute dossiers (fun _ => false) i st candidates =
      (st',some e) ∧ st'.Refused execute := by
  induction candidates generalizing i st with
  | nil => exact .inl ⟨st,rfl,h⟩
  | cons candidate candidates ih =>
    simp only [fallbackLoop]
    cases hturn : st.turn cooldownUntil execute dossiers false candidate with
    | next st₁ => exact ih (i+1) (h.turn hleaves (by rw [hturn]; rfl))
    | stop st₁ => exact .inl ⟨st₁,rfl,h.turn hleaves (by rw [hturn]; rfl)⟩
    | raised st₁ e => exact .inr ⟨st₁,e,rfl,h.raised hdossiers hcancels hturn⟩

/-- The executor the dispatcher really has leaves over part of what it was asked. -/
theorem jobExecutor_leavesOver (env : Candidate → Surroundings δ) (dossiers : List (String × δ))
    (options : LLMOptions) (profileName : String) (cancelledAtStart : Candidate → Bool) :
    (jobExecutor env dossiers options profileName cancelledAtStart).LeavesOver := by
  intro c domains isPrimary result failed cause h
  simp only [jobExecutor] at h
  cases hexec : (⟨c,domains,dossiers,options,profileName,isPrimary⟩ : Job δ).executeProvider
      (env c) (cancelledAtStart c) with
  | none => simp [hexec] at h
  | some outcome =>
    rw [hexec,Option.getD_some] at h
    subst h
    exact executeProvider_failed_subset hexec

end Trace

section Results

variable {δ : Type*} [CaseTables]

/-- The provider calls of a request, in the order they are made in. -/
def AnalysisRequest.contacted (request : AnalysisRequest δ) (execute : Executor) : List Call :=
  (fallbackRun request.cooldownUntil execute request.candidates request.names request.frozen
    {}).1.contacted

/-- Whatever a provider returned is in what `dispatch_analysis` returns. -/
def KeepsObtained (request : AnalysisRequest δ) (execute : Executor) : Prop :=
  ∀ call ∈ request.contacted execute, ∀ r, (execute call.1 call.2 true).result? = some r →
    r.classifications ≠ [] →
      ∃ results errors, dispatchAnalysis request execute {} false = .ok (results,errors) ∧
        r ∈ results

/-- After a provider has returned classifications, a later one fails outright with an
exception that is not eligible for fallback. -/
def RefusedLater (request : AnalysisRequest δ) (execute : Executor) : Prop :=
  ∃ earlier call later, request.contacted execute = earlier++call::later ∧
    (execute call.1 call.2 true).refuses = true ∧
    ∃ before ∈ earlier, ∃ r, (execute before.1 before.2 true).result? = some r ∧
      r.classifications ≠ []

theorem dispatchAnalysis_ok {request : AnalysisRequest δ} {execute : Executor}
    {progress : Progress} {cancelledAtStart : Bool} {outcome : Outcome}
    (h : dispatchAnalysis request execute progress cancelledAtStart = .ok outcome) :
    dispatchPool request execute progress = .ok outcome := by
  simp only [dispatchAnalysis] at h
  split at h
  · cases h
  · split at h
    · cases h
    · split at h
      · split at h <;> cases h
      · cases hpool : dispatchPool request execute progress with
        | error e => simp [hpool] at h
        | ok pair =>
          simp only [hpool] at h
          split at h
          · cases h
          · exact congrArg Except.ok (Except.ok.inj h)

/-- Calls are made only where there are domains and providers. -/
theorem ne_nil_of_contacted {request : AnalysisRequest δ} {execute : Executor} {call : Call}
    (h : call ∈ request.contacted execute) : request.names ≠ [] ∧ request.candidates ≠ [] := by
  constructor
  · intro hnames
    have hnone : request.contacted execute = [] := by
      simp only [AnalysisRequest.contacted,fallbackRun,hnames]
      cases fallbackOrder request.candidates <;> rfl
    rw [hnone] at h
    cases h
  · intro hcandidates
    have hnone : request.contacted execute = [] := by
      simp only [AnalysisRequest.contacted,hcandidates]
      rfl
    rw [hnone] at h
    cases h

/-- A pool that hands on keeps what its providers returned exactly when no provider after
them refuses. -/
theorem fallback_keeps_iff {request : AnalysisRequest δ} {execute : Executor}
    (hmode : request.mode = .fallback) (hleaves : execute.LeavesOver)
    (hcancels : ∀ c asked, (execute c asked true).cancels = false) :
    KeepsObtained request execute ↔ ¬RefusedLater request execute := by
  have hdossiers : ∀ d ∈ request.names, request.frozen.reverse.lookup d ≠ none := by
    intro d hd hnone
    have hne := List.lookup_eq_none_iff.mp hnone _
      (List.mem_reverse.mpr (List.mem_map_of_mem hd))
    simp at hne
  have hstart : ({ remainingDomains := request.names } : FallbackState).Kept execute
      request.names := ⟨rfl,List.Subset.refl _,by simp⟩
  rcases fallbackLoop_trace request.cooldownUntil 0 (fallbackOrder request.candidates) hleaves
    hdossiers hcancels hstart with ⟨st,hloop,hkept⟩ | ⟨st,e,hloop,hrefused⟩
  · have hcontacted : request.contacted execute = st.contacted := congrArg (·.1.contacted) hloop
    have hpool : dispatchPool request execute {} = .ok (st.results,st.errors) := by
      simp only [dispatchPool,hmode,dispatchFallback]
      rw [show fallbackRun request.cooldownUntil execute request.candidates request.names
        request.frozen {} = (st,none) from hloop]
    refine iff_of_true (fun call hcall r hr hne => ?_) ?_
    · obtain ⟨hnames,hcandidates⟩ := ne_nil_of_contacted hcall
      rw [hcontacted] at hcall
      have hmem : r ∈ st.results := by
        rw [hkept.results]
        exact List.mem_filterMap.mpr ⟨call,hcall,hr⟩
      refine ⟨st.results,st.errors,?_,hmem⟩
      simp only [dispatchAnalysis,Bool.false_eq_true,if_false,hnames,hcandidates,hpool,
        List.ne_nil_of_mem hmem]
    · rintro ⟨earlier,call,later,hsplit,hcall,-⟩
      rw [hcontacted] at hsplit
      have hunrefused := hkept.unrefused call (hsplit ▸ List.mem_append_right _ (by simp))
      simp [hunrefused] at hcall
  · have hcontacted : request.contacted execute = st.contacted := congrArg (·.1.contacted) hloop
    have hraises : ∀ outcome, dispatchAnalysis request execute {} false ≠ .ok outcome := by
      intro outcome h
      have hpool := dispatchAnalysis_ok h
      simp only [dispatchPool,hmode,dispatchFallback] at hpool
      rw [show fallbackRun request.cooldownUntil execute request.candidates request.names
        request.frozen {} = (st,some e) from hloop] at hpool
      cases hpool
    obtain ⟨earlier,last,hsplit,hlast,-⟩ := hrefused.refused
    constructor
    · rintro hkeeps ⟨before,call,later,hbefore,-,first,hfirst,r,hr,hne⟩
      have hmem : first ∈ request.contacted execute := by
        rw [hbefore]
        exact List.mem_append_left _ hfirst
      obtain ⟨results,errors,hok,-⟩ := hkeeps first hmem r hr hne
      exact hraises _ hok
    · intro hnot call hcall r hr hne
      rw [hcontacted,hsplit] at hcall
      rcases List.mem_append.mp hcall with hcall | hcall
      · refine absurd ⟨earlier,last,[],?_,hlast,call,hcall,r,hr,hne⟩ hnot
        rw [hcontacted,hsplit]
      · -- The call that refused has no result.
        rw [List.mem_singleton.mp hcall] at hr
        cases hexec : execute last.1 last.2 true with
        | raised e' dropped => simp [hexec,Execution.result?] at hr
        | _ => simp [hexec,Execution.refuses] at hlast

end Results

/-- A first provider that runs into its quota after one domain, and a second one that fails. -/
def handover (failure : ExecError) : Executor := fun candidate asked isPrimary =>
  if candidate.provider.providerId = "p1" then
    .partialAnalysis ⟨"p1","First","model","default","bundled_registry",
      (asked.take 1).map fun d => ⟨d,.deny,"ads","Ads","","First",[],"",.unknown,0,0,10,0,false,"",30,""⟩,
      5,{},isPrimary⟩ (asked.drop 1) (.quotaUnavailable "quota" 60)
  else .raised failure []

def handoverRequest : AnalysisRequest Unit where
  mode := .fallback
  poolName := "Background"
  pool := {}
  candidates := [⟨{},⟨"p1","First","model",4096,0⟩,{ source := "bundled_registry" }⟩,
    ⟨{ role := "fallback" },⟨"p2","Second","model",4096,0⟩,{ source := "bundled_registry" }⟩]
  cooling := []
  domains := ["a.com","b.com"]
  dossiers := []
  cooldownUntil _ := 0
  assignHash _ := 0
  sampleHash _ := 0

theorem handover_leavesOver (failure : ExecError) : (handover failure).LeavesOver := by
  intro c domains isPrimary result failed cause h
  simp only [handover] at h
  split at h
  · cases h
    exact List.drop_subset _ _
  · cases h

theorem handover_not_cancelled {failure : ExecError} (h : failure ≠ .cancelled) (c : Candidate)
    (asked : List String) : (handover failure c asked true).cancels = false := by
  simp only [handover]
  split
  · rfl
  · cases failure <;> first | rfl | exact absurd rfl h

/-- A timeout of the second provider leaves the first one's result in place. -/
theorem fallback_keeps_timeout :
    (∃ call ∈ handoverRequest.contacted (handover (.other "timed out" [.timeout])),
      ((handover (.other "timed out" [.timeout]) call.1 call.2 true).result?.map
        ProviderAnalysisResult.names) = some ["a.com"]) ∧
    KeepsObtained handoverRequest (handover (.other "timed out" [.timeout])) := by
  refine ⟨⟨_,List.mem_cons_self,rfl⟩,(fallback_keeps_iff rfl (handover_leavesOver _)
    (handover_not_cancelled (by simp))).mpr ?_⟩
  rintro ⟨earlier,call,later,hsplit,hrefuses,-⟩
  have hmem : call ∈ handoverRequest.contacted (handover (.other "timed out" [.timeout])) := by
    rw [hsplit]
    exact List.mem_append_right _ (by simp)
  have hnone : (handoverRequest.contacted (handover (.other "timed out" [.timeout]))).all
      (fun call => !(handover (.other "timed out" [.timeout]) call.1 call.2 true).refuses) = true :=
    rfl
  have hcall := List.all_eq_true.mp hnone call hmem
  simp [hrefuses] at hcall

/-- The second provider rejects the request: the classification of `a.com` is lost. -/
theorem handover_rejected_loses :
    (∃ call ∈ handoverRequest.contacted
        (handover (.other "LLM request failed" [.plain,.httpError (some 400)])),
      (handover (.other "LLM request failed" [.plain,.httpError (some 400)]) call.1 call.2
        true).result?.map ProviderAnalysisResult.names = some ["a.com"]) ∧
    dispatchAnalysis handoverRequest
      (handover (.other "LLM request failed" [.plain,.httpError (some 400)])) {} false =
        .error (.dispatch (.execution (.other "LLM request failed" [.plain,.httpError (some 400)]))) ∧
    ¬KeepsObtained handoverRequest
      (handover (.other "LLM request failed" [.plain,.httpError (some 400)])) := by
  refine ⟨⟨_,List.mem_cons_self,rfl⟩,rfl,fun h => ?_⟩
  obtain ⟨results,errors,hok,-⟩ := h _ List.mem_cons_self _ rfl (List.cons_ne_nil _ _)
  cases hok

end Dispatch
end WormholeObservatory
