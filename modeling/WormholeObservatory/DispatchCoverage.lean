import WormholeObservatory.DispatchModes
import WormholeObservatory.OrderedDict

/-! What a dispatch returns, mode by mode: which domains it classifies, how often,
which failures it reports for the rest, and that none of this depends on the order
in which provider calls come back. -/
namespace WormholeObservatory
namespace Dispatch

/-- The domains a result classifies. -/
def ProviderAnalysisResult.names (result : ProviderAnalysisResult) : List String :=
  result.classifications.map Classification.domain

/-- The exception a call reports. -/
def Execution.error? : Execution → Option ExecError
  | .returned _ => none
  | .partialAnalysis _ _ cause => some cause
  | .raised e _ => some e

/-- A call that ends the whole dispatch. -/
def Execution.cancels : Execution → Bool
  | .raised .cancelled _ => true
  | _ => false

/-- What of an outcome must not depend on the order of completion. -/
def digest (outcome : Outcome) : List ProviderAnalysisResult × Multiset (String × String) :=
  (outcome.1,outcome.2.map fun e => (e.providerId,e.error))

/-! Collecting. -/

section Collect

variable {cooldownUntil : String → ℚ} {execute : Executor} {isPrimary : Bool}

def callResults (execute : Executor) (isPrimary : Bool) (call : Call) :
    List ProviderAnalysisResult :=
  (execute call.1 call.2 isPrimary).result?.toList

def callErrors (cooldownUntil : String → ℚ) (execute : Executor) (isPrimary : Bool) (call : Call) :
    List ProviderAnalysisError :=
  (execute call.1 call.2 isPrimary).error?.toList.map (providerError cooldownUntil call.1)

theorem settleCall_eq (call : Call) : settleCall cooldownUntil execute isPrimary call =
    if (execute call.1 call.2 isPrimary).cancels then .error (.execution .cancelled)
    else .ok (callResults execute isPrimary call,callErrors cooldownUntil execute isPrimary call) := by
  simp only [settleCall,callResults,callErrors]
  cases execute call.1 call.2 isPrimary with
  | returned result => rfl
  | partialAnalysis result failed cause => rfl
  | raised e obtained => cases e <;> rfl

/-- Collecting is order-free up to the order of what it collects. -/
theorem collectCalls_eq (calls : List Call) : collectCalls cooldownUntil execute isPrimary calls =
    if calls.any fun call => (execute call.1 call.2 isPrimary).cancels then
      .error (.execution .cancelled)
    else .ok (calls.flatMap (callResults execute isPrimary),
      calls.flatMap (callErrors cooldownUntil execute isPrimary)) := by
  induction calls with
  | nil => rfl
  | cons call calls ih =>
    simp only [collectCalls,settleCall_eq,ih,List.any_cons,List.flatMap_cons]
    cases hcall : (execute call.1 call.2 isPrimary).cancels with
    | true => rfl
    | false =>
      cases hrest : calls.any fun call => (execute call.1 call.2 isPrimary).cancels <;> rfl

theorem collectCalls_append (calls calls' : List Call) :
    collectCalls cooldownUntil execute isPrimary (calls++calls') =
      joinOutcomes (collectCalls cooldownUntil execute isPrimary calls)
        (collectCalls cooldownUntil execute isPrimary calls') := by
  simp only [collectCalls_eq,List.any_append,List.flatMap_append]
  cases calls.any fun call => (execute call.1 call.2 isPrimary).cancels with
  | true => rfl
  | false => cases calls'.any fun call => (execute call.1 call.2 isPrimary).cancels <;> rfl

/-- The calls in the order they are reported in. -/
def reported (calls : List Call) (polls : List Poll) : List Call :=
  (polls.flatMap Poll.done).filterMap (calls[·]?)

theorem collectPolls_ok {calls : List Call} {polls : List Poll} {outcome : Outcome}
    (h : collectPolls cooldownUntil execute isPrimary calls polls = .ok outcome) :
    collectCalls cooldownUntil execute isPrimary (reported calls polls) = .ok outcome := by
  induction polls generalizing outcome with
  | nil => exact h
  | cons poll polls ih =>
    simp only [collectPolls] at h
    split at h
    · cases h
    · simp only [reported,List.flatMap_cons,List.filterMap_append,collectCalls_append]
      cases hrest : collectPolls cooldownUntil execute isPrimary calls polls with
      | error e =>
        rw [hrest] at h
        cases hdone : collectCalls cooldownUntil execute isPrimary
            (poll.done.filterMap (calls[·]?)) <;> simp [hdone,joinOutcomes] at h
      | ok outcome' =>
        have hcalls := ih hrest
        simp only [reported] at hcalls
        rwa [hcalls,← hrest]

theorem collectPolls_undisturbed {calls : List Call} {polls : List Poll}
    (hbefore : ∀ poll ∈ polls, poll.cancelledBefore = false)
    (hafter : ∀ poll ∈ polls, poll.cancelledAfter = false) :
    collectPolls cooldownUntil execute isPrimary calls polls =
      collectCalls cooldownUntil execute isPrimary (reported calls polls) := by
  induction polls with
  | nil => rfl
  | cons poll polls ih =>
    have hih := ih (fun p hp => hbefore p (by simp [hp])) fun p hp => hafter p (by simp [hp])
    simp only [reported] at hih
    simp only [collectPolls,hbefore poll (by simp),hafter poll (by simp),Bool.or_false,
      Bool.false_eq_true,if_false,hih,reported,List.flatMap_cons,List.filterMap_append,
      collectCalls_append]

theorem filterMap_range_getElem? {α : Type*} (l : List α) :
    (List.range l.length).filterMap (l[·]?) = l := by
  induction l using List.reverseRecOn with
  | nil => rfl
  | append_singleton l a ih =>
    have hcongr : (List.range l.length).filterMap ((l++[a])[·]?) =
        (List.range l.length).filterMap (l[·]?) := by
      refine List.filterMap_congr fun i hi => ?_
      exact List.getElem?_append_left (List.mem_range.mp hi)
    rw [List.length_append,List.length_singleton,List.range_succ,List.filterMap_append,hcongr,ih]
    simp

theorem reported_perm {calls : List Call} {progress : Progress}
    (h : progress.Completes calls.length) : (reported calls progress.polls).Perm calls := by
  have hperm := h.filterMap (calls[·]?)
  rwa [filterMap_range_getElem?] at hperm

/-- What a completed collection has collected. -/
theorem collectSorted_ok {candidates : List Candidate} {calls : List Call} {progress : Progress}
    {results : List ProviderAnalysisResult} {errors : List ProviderAnalysisError}
    (hcompletes : progress.Completes calls.length)
    (h : collectSorted cooldownUntil execute isPrimary candidates calls progress.polls =
      .ok (results,errors)) :
    results.Perm (calls.flatMap (callResults execute isPrimary)) ∧
      errors.Perm (calls.flatMap (callErrors cooldownUntil execute isPrimary)) := by
  simp only [collectSorted] at h
  cases hpolls : collectPolls cooldownUntil execute isPrimary calls progress.polls with
  | error e => simp [hpolls] at h
  | ok pair =>
    have hcalls := collectPolls_ok hpolls
    rw [collectCalls_eq] at hcalls
    split at hcalls
    · cases hcalls
    · obtain rfl := Except.ok.inj hcalls
      simp only [hpolls,Except.ok.injEq,Prod.mk.injEq] at h
      obtain ⟨rfl,rfl⟩ := h
      have hperm := reported_perm hcompletes
      exact ⟨(List.perm_insertionSort _ _).trans (hperm.flatMap_right _),hperm.flatMap_right _⟩

end Collect

/-! Sorting. -/

theorem resultOrder_injective {candidates : List Candidate} {a b : String}
    (ha : ∃ c ∈ candidates, c.provider.providerId = a)
    (h : resultOrder candidates a = resultOrder candidates b) : a = b := by
  simp only [resultOrder] at h
  cases hfind : candidates.zipIdx.reverse.find? (·.1.provider.providerId = a) with
  | none =>
    obtain ⟨c,hc,hid⟩ := ha
    obtain ⟨i,hi,rfl⟩ := List.getElem_of_mem hc
    have hmem : (candidates[i],i) ∈ candidates.zipIdx := List.mem_zipIdx_iff_getElem?.mpr (by simp)
    have hnone := List.find?_eq_none.mp hfind _ (List.mem_reverse.mpr hmem)
    simp [hid] at hnone
  | some x =>
    cases hfind' : candidates.zipIdx.reverse.find? (·.1.provider.providerId = b) with
    | none => simp [hfind,hfind'] at h
    | some y =>
      have hx : x.1.provider.providerId = a := by simpa using List.find?_some hfind
      have hy : y.1.provider.providerId = b := by simpa using List.find?_some hfind'
      have hxmem := List.mem_reverse.mp (List.mem_of_find?_eq_some hfind)
      have hymem := List.mem_reverse.mp (List.mem_of_find?_eq_some hfind')
      simp only [hfind,hfind',Nat.cast_inj] at h
      have hxget := List.mem_zipIdx_iff_getElem?.mp hxmem
      have hyget := List.mem_zipIdx_iff_getElem?.mp hymem
      rw [← h,hxget,Option.some.injEq] at hyget
      rw [← hx,← hy,hyget]

/-- Results of different providers of the pool sort in one way only. -/
theorem sortResults_eq_of_perm {candidates : List Candidate}
    {results results' : List ProviderAnalysisResult} (hperm : results.Perm results')
    (hnodup : (results.map ProviderAnalysisResult.providerId).Nodup)
    (hknown : ∀ r ∈ results, ∃ c ∈ candidates, c.provider.providerId = r.providerId) :
    sortResults candidates results = sortResults candidates results' := by
  have htotal : Std.Total fun a b : ProviderAnalysisResult =>
      resultOrder candidates a.providerId ≤ resultOrder candidates b.providerId :=
    ⟨fun a b => le_total _ _⟩
  have htrans : IsTrans ProviderAnalysisResult fun a b =>
      resultOrder candidates a.providerId ≤ resultOrder candidates b.providerId :=
    ⟨fun a b c => le_trans⟩
  have hsorted := List.perm_insertionSort (fun a b : ProviderAnalysisResult =>
    resultOrder candidates a.providerId ≤ resultOrder candidates b.providerId) results
  have hsorted' := List.perm_insertionSort (fun a b : ProviderAnalysisResult =>
    resultOrder candidates a.providerId ≤ resultOrder candidates b.providerId) results'
  refine List.Perm.eq_of_pairwise (fun a b ha hb hab hba => ?_) (List.pairwise_insertionSort _ _)
    (List.pairwise_insertionSort _ _) (hsorted.trans (hperm.trans hsorted'.symm))
  have hamem := hsorted.mem_iff.mp ha
  have hbmem := hperm.mem_iff.mpr (hsorted'.mem_iff.mp hb)
  have hid := resultOrder_injective (hknown a hamem) (le_antisymm hab hba)
  exact List.inj_on_of_nodup_map hnodup hamem hbmem hid

/-! One call. -/

section Calls

variable {execute : Executor} {domains : List String} {isPrimary : Bool} {call : Call}

theorem callResults_spec (haccounts : execute.AccountsOn domains) (hasked : call.2.Sublist domains)
    {r : ProviderAnalysisResult} (hr : r ∈ callResults execute isPrimary call) :
    r.providerId = call.1.provider.providerId ∧ r.isPrimary = isPrimary ∧
      r.names.Sublist call.2 := by
  simp only [callResults,Option.mem_toList] at hr
  cases hexec : execute call.1 call.2 isPrimary with
  | returned result =>
    obtain rfl : result = r := by simpa [hexec,Execution.result?] using hr
    obtain ⟨hid,hprimary,hnames⟩ := haccounts.returned _ _ _ _ hasked hexec
    exact ⟨hid,hprimary,hnames ▸ List.Sublist.refl _⟩
  | partialAnalysis result failed cause =>
    obtain rfl : result = r := by simpa [hexec,Execution.result?] using hr
    obtain ⟨hid,hprimary,hnames⟩ := haccounts.partialAnalysis _ _ _ _ _ _ hasked hexec
    exact ⟨hid,hprimary,hnames ▸ List.sublist_append_left _ _⟩
  | raised e obtained => simp [hexec,Execution.result?] at hr

theorem callResults_names (haccounts : execute.AccountsOn domains)
    (hasked : call.2.Sublist domains) :
    ((callResults execute isPrimary call).flatMap ProviderAnalysisResult.names).Sublist call.2 := by
  cases hresult : (execute call.1 call.2 isPrimary).result? with
  | none => simp [callResults,hresult]
  | some r =>
    have hr : r ∈ callResults execute isPrimary call := by simp [callResults,hresult]
    simpa [callResults,hresult] using (callResults_spec haccounts hasked hr).2.2

theorem callResults_ids (haccounts : execute.AccountsOn domains) (hasked : call.2.Sublist domains) :
    ((callResults execute isPrimary call).map ProviderAnalysisResult.providerId).Sublist
      [call.1.provider.providerId] := by
  cases hresult : (execute call.1 call.2 isPrimary).result? with
  | none => simp [callResults,hresult]
  | some r =>
    have hr : r ∈ callResults execute isPrimary call := by simp [callResults,hresult]
    simp [callResults,hresult,(callResults_spec haccounts hasked hr).1]

/-- A domain a provider was asked about is classified, or the provider reports an error. -/
theorem answered_or_reported (cooldownUntil : String → ℚ) (isPrimary : Bool)
    (haccounts : execute.AccountsOn domains) (hasked : call.2.Sublist domains) {d : String}
    (hd : d ∈ call.2) :
    d ∈ (callResults execute isPrimary call).flatMap ProviderAnalysisResult.names ∨
      ∃ e ∈ callErrors cooldownUntil execute isPrimary call,
        e.providerId = call.1.provider.providerId := by
  cases hexec : execute call.1 call.2 isPrimary with
  | returned result =>
    obtain ⟨-,-,hnames⟩ := haccounts.returned _ _ _ _ hasked hexec
    left
    simpa [callResults,hexec,Execution.result?,ProviderAnalysisResult.names,hnames] using hd
  | partialAnalysis result failed cause =>
    exact .inr ⟨providerError cooldownUntil call.1 cause,
      by simp [callErrors,hexec,Execution.error?],rfl⟩
  | raised e obtained =>
    exact .inr ⟨providerError cooldownUntil call.1 e,
      by simp [callErrors,hexec,Execution.error?],rfl⟩

end Calls

/-! Distribution. -/

section Distribute

variable {owner : String → String} {processed : List String}
  {assignments : List (String × List String)}

/-- The entries of `assignments` once `processed` has been assigned. -/
structure Assigned (owner : String → String) (processed : List String)
    (assignments : List (String × List String)) : Prop where
  keys : (assignments.map Prod.fst).Nodup
  entries : ∀ entry ∈ assignments, entry.2 = processed.filter (owner · = entry.1)
  assigned : ∀ d ∈ processed, owner d ∈ assignments.map Prod.fst

theorem appendAssignment_keys (providerId domain : String)
    (assignments : List (String × List String)) :
    (appendAssignment providerId domain assignments).map Prod.fst =
      if providerId ∈ assignments.map Prod.fst then assignments.map Prod.fst
      else assignments.map Prod.fst++[providerId] := by
  induction assignments with
  | nil => rfl
  | cons entry rest ih =>
    obtain ⟨key,assigned⟩ := entry
    simp only [appendAssignment]
    by_cases hkey : key = providerId
    · simp [hkey]
    · have hne : providerId ≠ key := fun h => hkey h.symm
      rw [if_neg hkey,List.map_cons,ih]
      by_cases hmem : providerId ∈ rest.map Prod.fst
      · simp [hmem]
      · simp [hmem,hne]

theorem mem_appendAssignment {providerId domain : String} {entry : String × List String}
    (hkeys : (assignments.map Prod.fst).Nodup)
    (h : entry ∈ appendAssignment providerId domain assignments) :
    entry.1 ≠ providerId ∧ entry ∈ assignments ∨
      (∃ assigned, (providerId,assigned) ∈ assignments ∧ entry = (providerId,assigned++[domain])) ∨
      providerId ∉ assignments.map Prod.fst ∧ entry = (providerId,[domain]) := by
  induction assignments with
  | nil => exact .inr (.inr ⟨by simp,by simpa [appendAssignment] using h⟩)
  | cons first rest ih =>
    obtain ⟨key,assigned⟩ := first
    obtain ⟨hkey,hrest⟩ := List.nodup_cons.mp hkeys
    simp only [appendAssignment] at h
    by_cases heq : key = providerId
    · rw [if_pos heq] at h
      rcases List.mem_cons.mp h with rfl | hmem
      · exact .inr (.inl ⟨assigned,by simp [heq],by rw [heq]⟩)
      · refine .inl ⟨fun hentry => hkey ?_,by simp [hmem]⟩
        exact List.mem_map.mpr ⟨entry,hmem,hentry.trans heq.symm⟩
    · rw [if_neg heq] at h
      rcases List.mem_cons.mp h with rfl | hmem
      · exact .inl ⟨heq,by simp⟩
      · rcases ih hrest hmem with ⟨hne,hold⟩ | ⟨old,hold,hentry⟩ | ⟨hnot,hentry⟩
        · exact .inl ⟨hne,by simp [hold]⟩
        · exact .inr (.inl ⟨old,by simp [hold],hentry⟩)
        · have hne : providerId ≠ key := fun h => heq h.symm
          exact .inr (.inr ⟨by simpa [hne] using hnot,hentry⟩)

theorem Assigned.append (h : Assigned owner processed assignments) (d : String) :
    Assigned owner (processed++[d]) (appendAssignment (owner d) d assignments) := by
  refine ⟨?_,?_,?_⟩
  · rw [appendAssignment_keys]
    split
    · exact h.keys
    · rename_i hnot
      exact List.nodup_append.mpr ⟨h.keys,List.nodup_singleton _,fun a ha b hb hab =>
        hnot (by rwa [← List.mem_singleton.mp hb,← hab])⟩
  · intro entry hentry
    rcases mem_appendAssignment h.keys hentry with ⟨hne,hold⟩ | ⟨old,hold,rfl⟩ | ⟨hnot,rfl⟩
    · rw [h.entries entry hold,List.filter_append]
      simp [Ne.symm hne]
    · have hentries : old = processed.filter (owner · = owner d) := h.entries _ hold
      simp [List.filter_append,← hentries]
    · have hnone : processed.filter (owner · = owner d) = [] := by
        refine List.filter_eq_nil_iff.mpr fun d' hd' heq => hnot ?_
        rw [← of_decide_eq_true heq]
        exact h.assigned d' hd'
      simp [List.filter_append,hnone]
  · intro d' hd'
    have hkept : ∀ k, k ∈ assignments.map Prod.fst ∨ k = owner d →
        k ∈ (appendAssignment (owner d) d assignments).map Prod.fst := by
      intro k hk
      rw [appendAssignment_keys]
      split
      · rename_i hmem
        exact hk.elim id fun heq => heq ▸ hmem
      · exact List.mem_append.mpr (hk.imp id fun heq => List.mem_singleton.mpr heq)
    rcases List.mem_append.mp hd' with hd' | hd'
    · exact hkept _ (.inl (h.assigned d' hd'))
    · exact hkept _ (.inr (by rw [List.mem_singleton.mp hd']))

/-- The provider id a domain is assigned to. -/
def ownerId (hash : String → ℕ) (candidates : List Candidate) (domain : String) : String :=
  (assignedCandidate hash candidates domain).elim "" (·.provider.providerId)

theorem assignDomains_assigned {hash : String → ℕ} {candidates : List Candidate}
    {domains : List String} {result : List (String × List String)}
    (h : Assigned (ownerId hash candidates) processed assignments)
    (hassign : assignDomains hash candidates assignments domains = .ok result) :
    Assigned (ownerId hash candidates) (processed++domains) result ∧
      ∀ d ∈ domains, (assignedCandidate hash candidates d).isSome := by
  induction domains generalizing processed assignments with
  | nil =>
    obtain rfl := Except.ok.inj hassign
    exact ⟨by simpa using h,by simp⟩
  | cons d domains ih =>
    simp only [assignDomains] at hassign
    cases hd : assignedCandidate hash candidates d with
    | none => simp [hd] at hassign
    | some candidate =>
      simp only [hd] at hassign
      have howner : ownerId hash candidates d = candidate.provider.providerId := by
        simp [ownerId,hd]
      obtain ⟨hassigned,hrest⟩ := ih (howner ▸ h.append d) hassign
      refine ⟨by simpa using hassigned,fun d' hd' => ?_⟩
      rcases List.mem_cons.mp hd' with rfl | hd'
      · simp [hd]
      · exact hrest d' hd'

theorem submitAssignments_ok {δ : Type*} {cancelledAt : ℕ → Bool} {candidates : List Candidate}
    {dossiers : List (String × δ)} {i : ℕ} {calls : List Call}
    (h : submitAssignments cancelledAt candidates dossiers i assignments = .ok calls) :
    calls.map (fun call => (call.1.provider.providerId,call.2)) = assignments ∧
      ∀ call ∈ calls, call.1 ∈ candidates := by
  induction assignments generalizing i calls with
  | nil =>
    obtain rfl := Except.ok.inj h
    simp
  | cons entry rest ih =>
    obtain ⟨providerId,assigned⟩ := entry
    simp only [submitAssignments] at h
    split at h
    · cases h
    · cases hcandidate : candidateById candidates providerId with
      | none => simp [hcandidate] at h
      | some candidate =>
        cases hselect : selectDossiers dossiers assigned with
        | error e => simp [hcandidate,hselect] at h
        | ok selected =>
          cases hrest : submitAssignments cancelledAt candidates dossiers (i+1) rest with
          | error e => simp [hcandidate,hselect,hrest] at h
          | ok calls' =>
            simp only [hcandidate,hselect,hrest,Except.ok.injEq] at h
            subst h
            obtain ⟨hmap,hknown⟩ := ih hrest
            have hid : candidate.provider.providerId = providerId := by
              simpa using List.find?_some hcandidate
            refine ⟨by simp [hmap,hid],fun call hcall => ?_⟩
            rcases List.mem_cons.mp hcall with rfl | hcall
            · exact List.mem_reverse.mp (List.mem_of_find?_eq_some hcandidate)
            · exact hknown call hcall

/-- The calls of a distribution: one for each provider with a share, and the shares are
what the hash makes of the domains. -/
theorem distributeCalls_ok {δ : Type*} {hash : String → ℕ} {cancelledAt : ℕ → Bool}
    {candidates : List Candidate} {domains : List String} {dossiers : List (String × δ)}
    {calls : List Call}
    (h : distributeCalls hash cancelledAt candidates domains dossiers = .ok calls) :
    (calls.map (·.1.provider.providerId)).Nodup ∧
      (∀ call ∈ calls, call.1 ∈ candidates ∧
        call.2 = domains.filter (ownerId hash candidates · = call.1.provider.providerId)) ∧
      ∀ d ∈ domains, (∃ c, assignedCandidate hash candidates d = some c) ∧
        ∃ call ∈ calls, call.1.provider.providerId = ownerId hash candidates d := by
  simp only [distributeCalls] at h
  cases hassign : assignDomains hash candidates [] domains with
  | error e => simp [hassign] at h
  | ok assignments =>
    simp only [hassign] at h
    have hempty : Assigned (ownerId hash candidates) [] [] := ⟨by simp,by simp,by simp⟩
    obtain ⟨hassigned,hsome⟩ := assignDomains_assigned hempty hassign
    rw [List.nil_append] at hassigned
    obtain ⟨hmap,hknown⟩ := submitAssignments_ok h
    have hids : calls.map (·.1.provider.providerId) = assignments.map Prod.fst := by
      rw [← hmap,List.map_map]
      rfl
    refine ⟨hids ▸ hassigned.keys,fun call hcall => ⟨hknown call hcall,?_⟩,fun d hd => ?_⟩
    · exact hassigned.entries (call.1.provider.providerId,call.2)
        (hmap ▸ List.mem_map_of_mem hcall)
    · refine ⟨Option.isSome_iff_exists.mp (hsome d hd),?_⟩
      have hkey := hassigned.assigned d hd
      rw [← hids] at hkey
      obtain ⟨call,hcall,hid⟩ := List.mem_map.mp hkey
      exact ⟨call,hcall,hid⟩

end Distribute

/-! Fallback. -/

section Fallback

variable {δ : Type*} {cooldownUntil : String → ℚ} {execute : Executor} {domains : List String}
  {dossiers : List (String × δ)}

/-- The invariant of the loop: what is classified, followed by what remains, is the input,
and a provider that was tried has classified its domains or reported an error. -/
structure FallbackState.Accounted (st : FallbackState) (domains : List String) : Prop where
  names : st.results.flatMap ProviderAnalysisResult.names++st.remainingDomains = domains
  primary : ∀ r ∈ st.results, r.isPrimary = true
  contacted : ∀ call ∈ st.contacted,
    (∀ d ∈ call.2, d ∈ st.results.flatMap ProviderAnalysisResult.names) ∨
      ∃ e ∈ st.errors, e.providerId = call.1.provider.providerId

/-- The turns that leave the loop going, or end it without an exception. -/
def FallbackTurn.kept : FallbackTurn → Option FallbackState
  | .next st => some st
  | .stop st => some st
  | .raised _ _ => none

theorem conclude_raised (st : FallbackState) (candidate : Candidate) {e : ExecError}
    (he : e ≠ .cancelled) (obtained : List Classification) :
    st.conclude cooldownUntil candidate (.raised e obtained) =
      if e.isFallbackEligible then .next (st.fail (providerError cooldownUntil candidate e))
      else .raised (st.fail (providerError cooldownUntil candidate e)) (.execution e) := by
  cases e <;> first | rfl | exact absurd rfl he

theorem selectDossiers_error {batch : List String} {e : ExecError}
    (h : selectDossiers dossiers batch = .error e) :
    ∃ d ∈ batch, dossiers.reverse.lookup d = none ∧ e = .missingDossier d := by
  induction batch with
  | nil => cases h
  | cons d batch ih =>
    simp only [selectDossiers] at h
    split at h
    · rename_i hnone
      exact ⟨d,by simp,hnone,(Except.error.inj h).symm⟩
    · cases hrest : selectDossiers dossiers batch with
      | error e' =>
        rw [hrest] at h
        obtain ⟨d',hd',hnone,rfl⟩ := ih (Except.error.inj h ▸ hrest)
        exact ⟨d',by simp [hd'],hnone,rfl⟩
      | ok selected => simp [hrest] at h

/-- What a turn that does not raise can do. -/
theorem turn_kept {st st' : FallbackState} {cancelled : Bool} {candidate : Candidate}
    (h : (st.turn cooldownUntil execute dossiers cancelled candidate).kept = some st') :
    st' = st ∨
      (∃ result, execute candidate st.remainingDomains true = .returned result ∧
        st' = (st.contact candidate).add result []) ∨
      (∃ result failed cause,
        execute candidate st.remainingDomains true = .partialAnalysis result failed cause ∧
        st' = ((st.contact candidate).fail (providerError cooldownUntil candidate cause)).add
          result failed) ∨
      ∃ e obtained, execute candidate st.remainingDomains true = .raised e obtained ∧
        e.isFallbackEligible = true ∧
        st' = (st.contact candidate).fail (providerError cooldownUntil candidate e) := by
  simp only [FallbackState.turn] at h
  split at h
  · cases h
  · split at h
    · exact .inl (Option.some.inj h).symm
    · cases hselect : selectDossiers dossiers st.remainingDomains with
      | error e =>
        obtain ⟨d,-,-,rfl⟩ := selectDossiers_error hselect
        rw [hselect] at h
        cases h
      | ok selected =>
        simp only [hselect] at h
        cases hexec : execute candidate st.remainingDomains true with
        | returned result =>
          rw [hexec] at h
          exact .inr (.inl ⟨result,rfl,(Option.some.inj h).symm⟩)
        | partialAnalysis result failed cause =>
          simp only [hexec,FallbackState.conclude] at h
          refine .inr (.inr (.inl ⟨result,failed,cause,rfl,?_⟩))
          split at h <;> exact (Option.some.inj h).symm
        | raised e obtained =>
          have he : e ≠ .cancelled := by
            rintro rfl
            rw [hexec] at h
            cases h
          rw [hexec,conclude_raised _ _ he] at h
          split at h
          · rename_i heligible
            exact .inr (.inr (.inr ⟨e,obtained,rfl,heligible,(Option.some.inj h).symm⟩))
          · cases h

theorem FallbackState.Accounted.add {st : FallbackState} (h : st.Accounted domains)
    {result : ProviderAnalysisResult} {rest : List String} (hprimary : result.isPrimary = true)
    (hnames : result.names++rest = st.remainingDomains) : (st.add result rest).Accounted domains where
  names := by simpa [FallbackState.add,hnames] using h.names
  primary r hr := by
    rcases List.mem_append.mp hr with hr | hr
    · exact h.primary r hr
    · rw [List.mem_singleton.mp hr,hprimary]
  contacted call hcall :=
    (h.contacted call hcall).imp (fun hall d hd => by simp [FallbackState.add,hall d hd]) id

/-- Contacting a provider that then reports an error. -/
theorem FallbackState.Accounted.fail {st : FallbackState} (h : st.Accounted domains)
    (candidate : Candidate) (e : ExecError) :
    ((st.contact candidate).fail (providerError cooldownUntil candidate e)).Accounted domains where
  names := h.names
  primary := h.primary
  contacted call hcall := by
    rcases List.mem_append.mp hcall with hcall | hcall
    · refine (h.contacted call hcall).imp id fun herror => ?_
      obtain ⟨error,hmem,hid⟩ := herror
      exact ⟨error,List.mem_append_left _ hmem,hid⟩
    · rw [List.mem_singleton.mp hcall]
      exact .inr ⟨providerError cooldownUntil candidate e,by simp [FallbackState.fail],rfl⟩

theorem FallbackState.Accounted.turn (haccounts : execute.AccountsOn domains)
    {st st' : FallbackState} (h : st.Accounted domains) {cancelled : Bool} {candidate : Candidate}
    (hturn : (st.turn cooldownUntil execute dossiers cancelled candidate).kept = some st') :
    st'.Accounted domains := by
  have hasked : st.remainingDomains.Sublist domains := h.names ▸ List.sublist_append_right _ _
  rcases turn_kept hturn with rfl | ⟨result,hexec,rfl⟩ | ⟨result,failed,cause,hexec,rfl⟩ |
    ⟨e,obtained,-,-,rfl⟩
  · exact h
  · obtain ⟨-,hprimary,hnames⟩ := haccounts.returned _ _ _ _ hasked hexec
    have hall : result.names++[] = st.remainingDomains := by
      rw [List.append_nil]
      exact hnames
    have hadd := h.add hprimary hall
    refine ⟨hadd.names,hadd.primary,fun call hcall => ?_⟩
    rcases List.mem_append.mp hcall with hcall | hcall
    · exact hadd.contacted call hcall
    · -- The call that was just made has classified everything it was asked about.
      left
      rw [List.mem_singleton.mp hcall]
      intro d hd
      refine List.mem_flatMap.mpr ⟨result,List.mem_append_right _ (by simp),?_⟩
      rwa [← hall,List.append_nil] at hd
  · obtain ⟨-,hprimary,hnames⟩ := haccounts.partialAnalysis _ _ _ _ _ _ hasked hexec
    exact (h.fail candidate cause).add hprimary hnames
  · exact h.fail candidate e

theorem fallbackLoop_accounted (haccounts : execute.AccountsOn domains) {cancelledAt : ℕ → Bool}
    {i : ℕ} {st st' : FallbackState} {candidates : List Candidate} (h : st.Accounted domains)
    (hloop : fallbackLoop cooldownUntil execute dossiers cancelledAt i st candidates = (st',none)) :
    st'.Accounted domains := by
  induction candidates generalizing i st with
  | nil =>
    obtain ⟨rfl,-⟩ := Prod.mk.inj hloop
    exact h
  | cons candidate candidates ih =>
    simp only [fallbackLoop] at hloop
    cases hturn : st.turn cooldownUntil execute dossiers (cancelledAt i) candidate with
    | next st₁ =>
      rw [hturn] at hloop
      exact ih (h.turn haccounts (by rw [hturn]; rfl)) hloop
    | stop st₁ =>
      rw [hturn] at hloop
      obtain ⟨rfl,-⟩ := Prod.mk.inj hloop
      exact h.turn haccounts (by rw [hturn]; rfl)
    | raised st₁ e => simp [hturn] at hloop

end Fallback

/-! Results of calls made side by side. -/

section Together

variable {execute : Executor} {domains : List String} {isPrimary : Bool} {calls : List Call}
  {results : List ProviderAnalysisResult}

theorem together_mem (haccounts : execute.AccountsOn domains)
    (hasked : ∀ call ∈ calls, call.2.Sublist domains)
    (hperm : results.Perm (calls.flatMap (callResults execute isPrimary)))
    {r : ProviderAnalysisResult} (hr : r ∈ results) :
    ∃ call ∈ calls, r.providerId = call.1.provider.providerId ∧ r.isPrimary = isPrimary ∧
      r.names.Sublist call.2 := by
  obtain ⟨call,hcall,hmem⟩ := List.mem_flatMap.mp (hperm.mem_iff.mp hr)
  exact ⟨call,hcall,callResults_spec haccounts (hasked call hcall) hmem⟩

theorem together_names_nodup (haccounts : execute.AccountsOn domains)
    (hasked : ∀ call ∈ calls, call.2.Sublist domains) (hnodup : (calls.flatMap Prod.snd).Nodup)
    (hperm : results.Perm (calls.flatMap (callResults execute isPrimary))) :
    (results.flatMap ProviderAnalysisResult.names).Nodup := by
  have hnames := hperm.flatMap_right ProviderAnalysisResult.names
  rw [List.flatMap_assoc] at hnames
  refine hnames.nodup_iff.mpr (hnodup.sublist (List.Sublist.flatMap_right calls fun call hcall => ?_))
  exact callResults_names haccounts (hasked call hcall)

theorem together_ids_nodup (haccounts : execute.AccountsOn domains)
    (hasked : ∀ call ∈ calls, call.2.Sublist domains)
    (hnodup : (calls.map (·.1.provider.providerId)).Nodup)
    (hperm : results.Perm (calls.flatMap (callResults execute isPrimary))) :
    (results.map ProviderAnalysisResult.providerId).Nodup := by
  have hids := hperm.map ProviderAnalysisResult.providerId
  rw [List.map_flatMap] at hids
  rw [List.map_eq_flatMap] at hnodup
  refine hids.nodup_iff.mpr (hnodup.sublist (List.Sublist.flatMap_right calls fun call hcall => ?_))
  exact callResults_ids haccounts (hasked call hcall)

/-- Two reports of the same calls sort to the same outcome. -/
theorem collectSorted_digest (haccounts : execute.AccountsOn domains)
    (hasked : ∀ call ∈ calls, call.2.Sublist domains)
    (hnodup : (calls.map (·.1.provider.providerId)).Nodup) {candidates : List Candidate}
    (hknown : ∀ call ∈ calls, call.1 ∈ candidates) {cooldownUntil : String → ℚ} {p p' : Progress}
    (hp : p.Undisturbed) (hp' : p'.Undisturbed) (hcompletes : p.Completes calls.length)
    (hcompletes' : p'.Completes calls.length) :
    (collectSorted cooldownUntil execute isPrimary candidates calls p.polls).map digest =
      (collectSorted cooldownUntil execute isPrimary candidates calls p'.polls).map digest := by
  have hreported := reported_perm hcompletes
  have hreported' := reported_perm hcompletes'
  have hsame := hreported.trans hreported'.symm
  have hany : (reported calls p.polls).any (fun call => (execute call.1 call.2 isPrimary).cancels) =
      (reported calls p'.polls).any fun call => (execute call.1 call.2 isPrimary).cancels :=
    hsame.any_eq
  simp only [collectSorted,collectPolls_undisturbed hp.before hp.after,
    collectPolls_undisturbed hp'.before hp'.after,collectCalls_eq,hany]
  cases (reported calls p'.polls).any fun call => (execute call.1 call.2 isPrimary).cancels with
  | true => rfl
  | false =>
    have hsorted : sortResults candidates
          ((reported calls p.polls).flatMap (callResults execute isPrimary)) =
        sortResults candidates
          ((reported calls p'.polls).flatMap (callResults execute isPrimary)) := by
      refine sortResults_eq_of_perm (hsame.flatMap_right _) ?_ fun r hr => ?_
      · exact together_ids_nodup haccounts hasked hnodup (hreported.flatMap_right _)
      · obtain ⟨call,hcall,hid,-⟩ :=
          together_mem haccounts hasked (hreported.flatMap_right _) hr
        exact ⟨call.1,hknown call hcall,hid.symm⟩
    have herrors := (hsame.flatMap_right (callErrors cooldownUntil execute isPrimary)).map
      fun e : ProviderAnalysisError => (e.providerId,e.error)
    simp only [Bool.false_eq_true,if_false,Except.map,digest,hsorted,Multiset.coe_eq_coe.mpr herrors]

end Together

/-! The modes. -/

section Modes

variable {δ : Type*} [CaseTables] {request : AnalysisRequest δ} {execute : Executor}

theorem names_nodup (request : AnalysisRequest δ) : request.names.Nodup :=
  OrderedDict.nodup_eraseDups _

/-- Every wait of the dispatch is over: the calls it submitted have all been reported. -/
def AnalysisRequest.Completes (request : AnalysisRequest δ) (progress : Progress) : Prop :=
  match request.mode with
  | .distribute => ∀ calls, distributeCalls request.assignHash progress.cancelledAt
      request.candidates request.names request.frozen = .ok calls → progress.Completes calls.length
  | .compare => progress.Completes (compareCalls request.candidates request.names).length
  | _ => True

/-- What a dispatch that returns promises about the domains it was given. -/
structure Covers (request : AnalysisRequest δ) (execute : Executor) (progress : Progress)
    (results : List ProviderAnalysisResult) (errors : List ProviderAnalysisError) : Prop where
  unique : request.mode = .distribute ∨ request.mode = .fallback →
    (results.flatMap ProviderAnalysisResult.names).Nodup ∧ ∀ r ∈ results, r.isPrimary = true
  verified : request.mode = .verify →
    ((results.filter (·.isPrimary)).flatMap ProviderAnalysisResult.names).Nodup
  compared : request.mode = .compare → (∀ r ∈ results, r.isPrimary = false) ∧
    ∀ providerId, ((results.filter (·.providerId = providerId)).flatMap
      ProviderAnalysisResult.names).Nodup
  inside : ∀ r ∈ results, ∀ d ∈ r.names, d ∈ request.names
  distributed : request.mode = .distribute → ∀ d ∈ request.names,
    d ∉ results.flatMap ProviderAnalysisResult.names →
      ∃ c, assignedCandidate request.assignHash request.candidates d = some c ∧
        ∃ e ∈ errors, e.providerId = c.provider.providerId
  exhausted : request.mode = .fallback → ∀ d ∈ request.names,
    d ∉ results.flatMap ProviderAnalysisResult.names →
      ∀ call ∈ (fallbackRun request.cooldownUntil execute request.candidates request.names
        request.frozen progress).1.contacted, d ∈ call.2 →
          ∃ e ∈ errors, e.providerId = call.1.provider.providerId

/-- Neither the results nor the failures depend on the order in which calls complete. -/
def OrderFree (request : AnalysisRequest δ) (execute : Executor) : Prop :=
  ∀ p p' : Progress, p.Undisturbed → p'.Undisturbed → request.Completes p → request.Completes p' →
    (dispatchPool request execute p).map digest = (dispatchPool request execute p').map digest

variable {progress : Progress} {results : List ProviderAnalysisResult}
  {errors : List ProviderAnalysisError}

theorem distribute_covers (haccounts : execute.AccountsOn request.names)
    (hmode : request.mode = .distribute) (hcompletes : request.Completes progress)
    (h : dispatchPool request execute progress = .ok (results,errors)) :
    Covers request execute progress results errors := by
  simp only [dispatchPool,hmode,dispatchDistribute] at h
  cases hcalls : distributeCalls request.assignHash progress.cancelledAt request.candidates
      request.names request.frozen with
  | error e => simp [hcalls] at h
  | ok calls =>
    simp only [hcalls] at h
    simp only [AnalysisRequest.Completes,hmode] at hcompletes
    obtain ⟨hids,hshares,howners⟩ := distributeCalls_ok hcalls
    obtain ⟨hresults,herrors⟩ := collectSorted_ok (hcompletes calls hcalls) h
    have hasked : ∀ call ∈ calls, call.2.Sublist request.names := by
      intro call hcall
      rw [(hshares call hcall).2]
      exact List.filter_sublist
    have hnodup : (calls.flatMap Prod.snd).Nodup := by
      refine List.nodup_flatMap.mpr ⟨fun call hcall => (names_nodup request).sublist
        (hasked call hcall),(List.pairwise_map.mp hids).imp_of_mem ?_⟩
      -- A domain in two shares would have two owners.
      intro a b ha hb hne d hda hdb
      rw [(hshares a ha).2,List.mem_filter,decide_eq_true_eq] at hda
      rw [(hshares b hb).2,List.mem_filter,decide_eq_true_eq] at hdb
      exact hne (hda.2.symm.trans hdb.2)
    refine ⟨fun _ => ⟨together_names_nodup haccounts hasked hnodup hresults,fun r hr => ?_⟩,
      by simp [hmode],by simp [hmode],fun r hr d hd => ?_,fun _ d hd hmissing => ?_,by simp [hmode]⟩
    · obtain ⟨-,-,-,hprimary,-⟩ := together_mem haccounts hasked hresults hr
      exact hprimary
    · obtain ⟨call,hcall,-,-,hnames⟩ := together_mem haccounts hasked hresults hr
      exact (hnames.trans (hasked call hcall)).mem hd
    · obtain ⟨⟨c,hc⟩,call,hcall,hid⟩ := howners d hd
      have hshare : d ∈ call.2 := by
        rw [(hshares call hcall).2,List.mem_filter]
        exact ⟨hd,by simp [hid]⟩
      refine ⟨c,hc,?_⟩
      rcases answered_or_reported request.cooldownUntil true haccounts (hasked call hcall)
        hshare with hanswered | ⟨e,he,hprovider⟩
      · refine absurd ?_ hmissing
        obtain ⟨r,hr,hdr⟩ := List.mem_flatMap.mp hanswered
        exact List.mem_flatMap.mpr ⟨r,hresults.mem_iff.mpr (List.mem_flatMap.mpr ⟨call,hcall,hr⟩),hdr⟩
      · refine ⟨e,herrors.mem_iff.mpr (List.mem_flatMap.mpr ⟨call,hcall,he⟩),?_⟩
        rw [hprovider,hid]
        simp [ownerId,hc]

theorem compare_covers (haccounts : execute.AccountsOn request.names)
    (hids : (request.candidates.map (·.provider.providerId)).Nodup)
    (hmode : request.mode = .compare) (hcompletes : request.Completes progress)
    (h : dispatchPool request execute progress = .ok (results,errors)) :
    Covers request execute progress results errors := by
  simp only [dispatchPool,hmode,dispatchCompare] at h
  simp only [AnalysisRequest.Completes,hmode] at hcompletes
  obtain ⟨hresults,-⟩ := collectSorted_ok hcompletes h
  have hasked : ∀ call ∈ compareCalls request.candidates request.names,
      call.2.Sublist request.names := by
    intro call hcall
    obtain ⟨c,-,rfl⟩ := List.mem_map.mp hcall
    exact List.Sublist.refl _
  have hcallIds : ((compareCalls request.candidates request.names).map
      (·.1.provider.providerId)).Nodup := by
    simpa [compareCalls,List.map_map,Function.comp_def] using hids
  have hnodup := together_ids_nodup haccounts hasked hcallIds hresults
  have hinside : ∀ r ∈ results, r.names.Sublist request.names := by
    intro r hr
    obtain ⟨call,hcall,-,-,hnames⟩ := together_mem haccounts hasked hresults hr
    exact hnames.trans (hasked call hcall)
  refine ⟨by simp [hmode],by simp [hmode],fun _ => ⟨fun r hr => ?_,fun providerId => ?_⟩,
    fun r hr d hd => (hinside r hr).mem hd,by simp [hmode],by simp [hmode]⟩
  · obtain ⟨-,-,-,hprimary,-⟩ := together_mem haccounts hasked hresults hr
    exact hprimary
  · refine List.nodup_flatMap.mpr ⟨fun r hr => (names_nodup request).sublist
      (hinside r (List.mem_of_mem_filter hr)),?_⟩
    have hpairs := (List.pairwise_map.mp hnodup).filter fun r => decide (r.providerId = providerId)
    refine hpairs.imp_of_mem fun ha hb hne => ?_
    have hsame := (of_decide_eq_true (List.mem_filter.mp ha).2).trans
      (of_decide_eq_true (List.mem_filter.mp hb).2).symm
    exact absurd hsame hne

theorem fallback_covers (haccounts : execute.AccountsOn request.names)
    (hmode : request.mode = .fallback)
    (h : dispatchPool request execute progress = .ok (results,errors)) :
    Covers request execute progress results errors := by
  simp only [dispatchPool,hmode,dispatchFallback] at h
  obtain ⟨st,hrun⟩ : ∃ st, fallbackRun request.cooldownUntil execute request.candidates
      request.names request.frozen progress = (st,none) := by
    generalize fallbackRun request.cooldownUntil execute request.candidates
      request.names request.frozen progress = run at h
    obtain ⟨st,e⟩ := run
    cases e with
    | none => exact ⟨st,rfl⟩
    | some e => cases h
  simp only [hrun,Except.ok.injEq,Prod.mk.injEq] at h
  obtain ⟨rfl,rfl⟩ := h
  have hstart : ({ remainingDomains := request.names } : FallbackState).Accounted request.names :=
    ⟨by simp,by simp,by simp⟩
  have hend := fallbackLoop_accounted haccounts hstart hrun
  have hnodup := names_nodup request
  rw [← hend.names] at hnodup
  refine ⟨fun _ => ⟨hnodup.of_append_left,hend.primary⟩,by simp [hmode],by simp [hmode],
    fun r hr d hd => ?_,by simp [hmode],fun _ d _ hmissing call hcall hd => ?_⟩
  · rw [← hend.names]
    exact List.mem_append_left _ (List.mem_flatMap.mpr ⟨r,hr,hd⟩)
  · rw [hrun] at hcall
    exact (hend.contacted call hcall).resolve_left fun hall => hmissing (hall d hd)

theorem verify_covers (haccounts : execute.AccountsOn request.names)
    (hmode : request.mode = .verify)
    (h : dispatchPool request execute progress = .ok (results,errors)) :
    Covers request execute progress results errors := by
  simp only [dispatchPool,hmode] at h
  obtain ⟨candidate,produced,f,others,-,hproduced,hresults,hothers,hchecked⟩ :=
    dispatchVerify_exit haccounts (names_nodup request) h
  have hmem : produced ∈ callResults execute true (candidate,request.names) := by
    simp [callResults,hproduced]
  have hspec := callResults_spec haccounts (List.Sublist.refl _) hmem
  have hnames : ({ produced with classifications := produced.classifications.map f } :
      ProviderAnalysisResult).names = produced.names := by
    simp only [ProviderAnalysisResult.names,List.map_map]
    exact List.map_congr_left fun c hc => (hchecked c hc).domain
  have hfilter : others.filter (·.isPrimary) = [] :=
    List.filter_eq_nil_iff.mpr fun r hr => by simp [(hothers r hr).1]
  refine ⟨by simp [hmode],fun _ => ?_,by simp [hmode],fun r hr d hd => ?_,by simp [hmode],
    by simp [hmode]⟩
  · have hcons : results.filter (·.isPrimary) =
        [{ produced with classifications := produced.classifications.map f }] := by
      simp [hresults,hspec.2.1,hfilter]
    rw [hcons,List.flatMap_singleton,hnames]
    exact (names_nodup request).sublist hspec.2.2
  · rw [hresults] at hr
    rcases List.mem_cons.mp hr with rfl | hr
    · rw [hnames] at hd
      exact hspec.2.2.mem hd
    · exact (hothers r hr).2.mem hd

theorem dispatchPool_covers (haccounts : execute.AccountsOn request.names)
    (hids : (request.candidates.map (·.provider.providerId)).Nodup)
    (hcompletes : request.Completes progress)
    (h : dispatchPool request execute progress = .ok (results,errors)) :
    Covers request execute progress results errors := by
  cases hmode : request.mode with
  | distribute => exact distribute_covers haccounts hmode hcompletes h
  | fallback => exact fallback_covers haccounts hmode h
  | compare => exact compare_covers haccounts hids hmode hcompletes h
  | verify => exact verify_covers haccounts hmode h

theorem dispatchPool_orderFree (haccounts : execute.AccountsOn request.names)
    (hids : (request.candidates.map (·.provider.providerId)).Nodup) : OrderFree request execute := by
  intro p p' hp hp' hcompletes hcompletes'
  have hcancelled : p.cancelledAt = p'.cancelledAt := by
    funext i
    rw [hp.cancelledAt,hp'.cancelledAt]
  simp only [AnalysisRequest.Completes] at hcompletes hcompletes'
  simp only [dispatchPool]
  cases hmode : request.mode with
  | distribute =>
    simp only [hmode] at hcompletes hcompletes' ⊢
    simp only [dispatchDistribute]
    cases hcalls : distributeCalls request.assignHash p.cancelledAt request.candidates
        request.names request.frozen with
    | error e =>
      rw [hcancelled] at hcalls
      rw [hcalls]
    | ok calls =>
      have hcalls' := hcalls
      rw [hcancelled] at hcalls'
      obtain ⟨hcallIds,hshares,-⟩ := distributeCalls_ok hcalls
      rw [hcalls']
      refine collectSorted_digest haccounts (fun call hcall => ?_) hcallIds
        (fun call hcall => (hshares call hcall).1) hp hp' (hcompletes calls hcalls)
        (hcompletes' calls hcalls')
      rw [(hshares call hcall).2]
      exact List.filter_sublist
  | compare =>
    simp only [hmode] at hcompletes hcompletes' ⊢
    refine collectSorted_digest haccounts (fun call hcall => ?_) ?_ (fun call hcall => ?_) hp hp'
      hcompletes hcompletes'
    · obtain ⟨c,-,rfl⟩ := List.mem_map.mp hcall
      exact List.Sublist.refl _
    · simpa [compareCalls,List.map_map,Function.comp_def] using hids
    · obtain ⟨c,hc,rfl⟩ := List.mem_map.mp hcall
      exact hc
  | fallback =>
    simp only [dispatchFallback,fallbackRun,hcancelled]
  | verify => simp only [hcancelled]

end Modes

end Dispatch
end WormholeObservatory
