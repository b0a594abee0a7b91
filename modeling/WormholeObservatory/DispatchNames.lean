import WormholeObservatory.DispatchCoverage

/-! The names inside a provider call. A dispatch normalises its domains once, and a
call normalises the names of each batch again, so a name that a second pass changes
comes back as a different one. -/
namespace WormholeObservatory
namespace Dispatch

section Names

variable {δ : Type*} [CaseTables]

/-- What `classify_domains_with_metadata` makes of a batch: blank and repeated names are
dropped, an empty rest is refused, and `parse_batch_classifications` answers for every
remaining name, which it normalises once more. -/
def Surroundings.Names (env : Surroundings δ) : Prop :=
  ∀ n batch result, env.classify n batch = .ok result → freezeDomains batch ≠ [] ∧
    result.classifications.map Classification.domain = (freezeDomains batch).map normalizeDomain

/-- Either every name of the list is blank to a provider call, or none is and a second
normalisation changes none. -/
def Settled (domains : List String) : Prop :=
  (∀ x ∈ domains, strip x ≠ "" → strip (normalizeDomain x) = "") ∨
    ∀ x ∈ domains, strip x ≠ "" → strip (normalizeDomain x) ≠ "" ∧
      normalizeDomain (normalizeDomain x) = normalizeDomain x

/-- A part of a folded text is folded. -/
def FoldsOnce : Prop :=
  ∀ s t : String, t.toList.IsInfix (CaseTables.lower s).toList → CaseTables.lower t = t

theorem mem_freezeDomains {domains : List String} {d : String} :
    d ∈ freezeDomains domains ↔ ∃ x ∈ domains, strip x ≠ "" ∧ normalizeDomain x = d := by
  simp [freezeDomains,and_assoc]

theorem freezeDomains_of_settled {domains : List String} (hnodup : domains.Nodup)
    (h : ∀ d ∈ domains, strip d ≠ "" ∧ normalizeDomain d = d) :
    freezeDomains domains = domains := by
  have hfilter : domains.filter (strip · ≠ "") = domains :=
    List.filter_eq_self.mpr fun d hd => by simpa using (h d hd).1
  have hmap : domains.map normalizeDomain = domains :=
    (List.map_congr_left fun d hd => (h d hd).2).trans (List.map_id' domains)
  rw [freezeDomains,hfilter,hmap,OrderedDict.eraseDups_of_nodup hnodup]

/-- On settled names a call answers for the domains of its batch, in order. -/
theorem Surroundings.Names.faithfulOn {env : Surroundings δ} (henv : env.Names)
    {domains : List String} (h : Settled domains) : env.FaithfulOn (freezeDomains domains) := by
  intro n batch result hbatch hcall
  obtain ⟨hne,hnames⟩ := henv n batch result hcall
  rcases h with hblank | hsettled
  · -- No batch of blank names gets an answer.
    refine absurd ?_ hne
    have hfilter : batch.filter (strip · ≠ "") = [] := by
      refine List.filter_eq_nil_iff.mpr fun d hd => ?_
      obtain ⟨x,hx,hstrip,rfl⟩ := mem_freezeDomains.mp (hbatch.mem hd)
      simpa using hblank x hx hstrip
    rw [freezeDomains,hfilter]
    rfl
  · have hall : ∀ d ∈ batch, strip d ≠ "" ∧ normalizeDomain d = d := by
      intro d hd
      obtain ⟨x,hx,hstrip,rfl⟩ := mem_freezeDomains.mp (hbatch.mem hd)
      exact hsettled x hx hstrip
    rw [hnames,freezeDomains_of_settled ((OrderedDict.nodup_eraseDups _).sublist hbatch) hall]
    exact (List.map_congr_left fun d hd => (hall d hd).2).trans (List.map_id' batch)

/-! Names that a second pass changes. -/

theorem normalizeDomain_within (x : String) :
    (normalizeDomain x).toList.IsInfix (CaseTables.lower (strip x)).toList :=
  (rstripDots_initial _).isInfix

/-- Normalising a folded name only cuts it. -/
theorem FoldsOnce.normalize (hfold : FoldsOnce) {s d : String}
    (h : d.toList.IsInfix (CaseTables.lower s).toList) :
    (normalizeDomain d).toList.IsInfix d.toList := by
  have hlower : CaseTables.lower (strip d) = strip d := hfold s _ ((strip_within d).trans h)
  rw [normalizeDomain,hlower]
  exact (rstripDots_initial _).isInfix.trans (strip_within d)

/-- Every domain of a frozen request has a dossier. -/
theorem selectDossiers_frozen (request : AnalysisRequest δ) {batch : List String}
    (h : ∀ d ∈ batch, d ∈ request.names) :
    ∃ selected, selectDossiers request.frozen batch = .ok selected := by
  cases hselect : selectDossiers request.frozen batch with
  | ok selected => exact ⟨selected,rfl⟩
  | error e =>
    obtain ⟨d,hd,hnone,-⟩ := selectDossiers_error hselect
    have hkeys := List.lookup_eq_none_iff.mp hnone
    have hne := hkeys _ (List.mem_reverse.mpr (List.mem_map_of_mem (h d hd)))
    simp at hne

/-- What is promised about a list of domains, whatever the pool and its mode, the order of
completion and the answers and failures of the providers. -/
def Promised (δ : Type*) (domains : List String) : Prop :=
  ∀ (request : AnalysisRequest δ) (env : Candidate → Surroundings (Option δ)) (options : LLMOptions)
    (profileName : String) (cancelledAtStart : Candidate → Bool), request.domains = domains →
    (request.candidates.map (·.provider.providerId)).Nodup → (∀ c, (env c).Names) →
    let execute := jobExecutor env request.frozen options profileName cancelledAtStart
    (∀ progress results errors, request.Completes progress →
      dispatchPool request execute progress = .ok (results,errors) →
        Covers request execute progress results errors) ∧ OrderFree request execute

/-- A provider that answers whatever it can be asked. -/
def answering : Surroundings δ where
  messageTokens _ := .ok 0
  outputPerDomain := 0
  classify _ batch :=
    if freezeDomains batch = [] then
      .error (.other "At least one domain is required for provider analysis." [.plain])
    else .ok ⟨(freezeDomains batch).map fun d => ⟨normalizeDomain d,.deny,"ads","Ads","",
      "Provider",[],"",.unknown,0,0,10,0,false,"",30,""⟩,5,{}⟩
  cancelledBefore _ := false
  cancelledAfter _ := false

theorem answering_names : (answering : Surroundings δ).Names := by
  intro n batch result h
  simp only [answering] at h
  split at h
  · cases h
  · rename_i hne
    obtain rfl := Except.ok.inj h
    exact ⟨hne,by simp [List.map_map,Function.comp_def]⟩

/-- A pool of one provider that hands on to the next one, of which there is none. -/
def loneRequest (δ : Type*) (domains : List String) : AnalysisRequest δ where
  mode := .fallback
  poolName := "Background"
  pool := {}
  candidates := [sampleJob.candidate]
  cooling := []
  domains := domains
  dossiers := []
  cooldownUntil _ := 0
  assignHash _ := 0
  sampleHash _ := 0

/-- One batch holds all names, and the provider answers it. -/
theorem answering_returns {dossiers : List (String × δ)} {names : List String}
    (hfreeze : freezeDomains names ≠ [])
    (hselect : ∃ selected, selectDossiers dossiers names = .ok selected) :
    ∃ result, jobExecutor (fun _ => answering) dossiers { domainsPerRequest := names.length }
        "default" (fun _ => false) sampleJob.candidate names true = .returned result ∧
      result.names = (freezeDomains names).map normalizeDomain := by
  obtain ⟨selected,hselect⟩ := hselect
  cases names with
  | nil => exact absurd rfl hfreeze
  | cons first rest =>
    let job : Job δ := ⟨sampleJob.candidate,first::rest,dossiers,
      { domainsPerRequest := (first::rest).length },"default",true⟩
    have hmaximum : job.maximum = rest.length+1 := by
      simp [job,Job.maximum,maximumProviderBatchSize,sampleJob]
    have hfits : job.fits answering (first::rest) = .ok true := by
      simp only [Job.fits,job,hselect,answering]
      rfl
    have hbatches : job.providerBatches answering = .ok [first::rest] := by
      have htake : (first::rest).take (rest.length+1) = first::rest := by simp
      have hsize : job.fittingSize answering (first::rest) (rest.length+1) = .ok (rest.length+1) := by
        simp only [Job.fittingSize,htake,hfits]
      have hplan : job.planBatches answering (rest.length+1) (first::rest) = .ok [first::rest] := by
        simp only [Job.planBatches,hmaximum,Nat.min_self,hsize,List.drop_length,List.take_length]
      exact hplan
    let answer : BatchResult := ⟨(freezeDomains (first::rest)).map fun d => ⟨normalizeDomain d,
      .deny,"ads","Ads","","Provider",[],"",.unknown,0,0,10,0,false,"",30,""⟩,5,{}⟩
    let st := (LoopState.start [first::rest]).accept answer
    have hturn : job.turn answering (LoopState.start [first::rest]) = .again st := by
      have hcall : (answering : Surroundings δ).classify 0 (first::rest) = .ok answer := by
        simp only [answering,if_neg hfreeze,answer]
      have hdossiers : selectDossiers job.dossiers (first::rest) = .ok selected := hselect
      simp only [Job.turn,LoopState.start,List.getElem?_cons_zero,hdossiers,hcall]
      rfl
    have hfinished : job.turn answering st = .finished := rfl
    have hloop : job.loop answering job.turns (LoopState.start [first::rest]) = some (st,none) := by
      have hturns : job.turns = 2*rest.length+1+1+1 := rfl
      simp only [hturns,Job.loop,hturn,hfinished]
    refine ⟨job.analysisResult st,?_,?_⟩
    · have hexecute : job.executeProvider answering false = some (.returned (job.analysisResult st)) := by
        simp only [Job.executeProvider,hbatches,hloop]
        rfl
      simp only [jobExecutor]
      exact congrArg (Option.getD · _) hexecute
    · simp [job,st,answer,Job.analysisResult,LoopState.accept,LoopState.start,
        ProviderAnalysisResult.names,List.map_map,Function.comp_def]

/-- The run of a lone provider that answers. -/
theorem fallbackRun_lone {cooldownUntil : String → ℚ} {execute : Executor} {candidate : Candidate}
    {names : List String} {dossiers : List (String × δ)} {result : ProviderAnalysisResult}
    (hne : names ≠ []) (hselect : ∃ selected, selectDossiers dossiers names = .ok selected)
    (hresult : execute candidate names true = .returned result) :
    fallbackRun cooldownUntil execute [candidate] names dossiers {} =
      ((({ remainingDomains := names } : FallbackState).contact candidate).add result [],none) := by
  obtain ⟨selected,hselect⟩ := hselect
  have horder : fallbackOrder [candidate] = [candidate] := rfl
  simp only [fallbackRun,horder,fallbackLoop,FallbackState.turn,Bool.false_eq_true,if_false,hne,
    hselect,hresult,FallbackState.conclude]

/-- If every name comes back, none was changed on the way. -/
theorem settled_of_returned (hfold : FoldsOnce) {domains : List String}
    (h : ∀ d ∈ freezeDomains domains,
      d ∈ (freezeDomains (freezeDomains domains)).map normalizeDomain) :
    ∀ x ∈ domains, strip x ≠ "" → strip (normalizeDomain x) ≠ "" ∧
      normalizeDomain (normalizeDomain x) = normalizeDomain x := by
  have hnodup : (freezeDomains domains).Nodup := OrderedDict.nodup_eraseDups _
  have hall : (freezeDomains domains).Subperm
      ((freezeDomains (freezeDomains domains)).map normalizeDomain) :=
    List.subperm_of_subset hnodup fun d hd => h d hd
  have hkept : (freezeDomains (freezeDomains domains)).Subperm
      (((freezeDomains domains).filter (strip · ≠ "")).map normalizeDomain) :=
    List.subperm_of_subset (OrderedDict.nodup_eraseDups _) fun d hd => List.mem_eraseDups.mp hd
  -- As many names come back as are asked for, so no pass has dropped one.
  have hfewer := hkept.length_le
  have hmore := hall.length_le
  have hfilter := List.length_filter_le (fun d => decide (strip d ≠ "")) (freezeDomains domains)
  simp only [List.length_map] at hfewer hmore
  have hnonblank : (freezeDomains domains).filter (strip · ≠ "") = freezeDomains domains :=
    List.filter_sublist.eq_of_length (by omega)
  have hfrozen : (freezeDomains (freezeDomains domains)).Perm
      ((freezeDomains domains).map normalizeDomain) := by
    rw [hnonblank] at hkept
    exact hkept.perm_of_length_le (by rw [List.length_map]; omega)
  have hperm : ((freezeDomains domains).map fun d => normalizeDomain (normalizeDomain d)).Perm
      (freezeDomains domains) := by
    have hback := hall.perm_of_length_le (by rw [List.length_map]; omega)
    have htwice := hback.trans (hfrozen.map normalizeDomain)
    rw [List.map_map] at htwice
    exact htwice.symm
  have hcut : ∀ d ∈ freezeDomains domains,
      (normalizeDomain d).toList.IsInfix d.toList ∧
        (normalizeDomain (normalizeDomain d)).toList.IsInfix (normalizeDomain d).toList := by
    intro d hd
    obtain ⟨x,-,-,rfl⟩ := mem_freezeDomains.mp hd
    have honce := hfold.normalize (normalizeDomain_within x)
    exact ⟨honce,hfold.normalize (honce.trans (normalizeDomain_within x))⟩
  have hlengths := eq_of_shortening_perm hperm fun d hd =>
    (hcut d hd).2.length_le.trans (hcut d hd).1.length_le
  intro x hx hstrip
  have hd : normalizeDomain x ∈ freezeDomains domains := mem_freezeDomains.mpr ⟨x,hx,hstrip,rfl⟩
  have hmem : normalizeDomain x ∈ (freezeDomains domains).filter (strip · ≠ "") := by
    rw [hnonblank]
    exact hd
  refine ⟨of_decide_eq_true (List.mem_filter.mp hmem).2,?_⟩
  have hlength : (normalizeDomain (normalizeDomain x)).toList.length =
      (normalizeDomain x).toList.length :=
    le_antisymm (hcut _ hd).1.length_le
      ((hlengths _ hd).ge.trans (hcut _ hd).2.length_le)
  exact String.toList_inj.mp ((hcut _ hd).1.eq_of_length hlength)

/-- The promise is kept for a list of domains exactly when a second normalisation leaves its
names alone. -/
theorem promised_iff_settled (hfold : FoldsOnce) (domains : List String) :
    Promised δ domains ↔ Settled domains := by
  constructor
  · intro h
    by_cases hblank : ∀ x ∈ domains, strip x ≠ "" → strip (normalizeDomain x) = ""
    · exact .inl hblank
    · push Not at hblank
      obtain ⟨x,hx,hstrip,hnonblank⟩ := hblank
      -- One provider that answers everything, and reports no error, has to return every name.
      have hfreeze : freezeDomains (freezeDomains domains) ≠ [] := by
        have hmem : normalizeDomain (normalizeDomain x) ∈ freezeDomains (freezeDomains domains) :=
          mem_freezeDomains.mpr
            ⟨normalizeDomain x,mem_freezeDomains.mpr ⟨x,hx,hstrip,rfl⟩,hnonblank,rfl⟩
        exact List.ne_nil_of_mem hmem
      obtain ⟨result,hresult,hnames⟩ := answering_returns hfreeze
        (selectDossiers_frozen (loneRequest δ domains) fun d hd => hd)
      have hne : freezeDomains domains ≠ [] :=
        List.ne_nil_of_mem (mem_freezeDomains.mpr ⟨x,hx,hstrip,rfl⟩)
      have hrun : fallbackRun (loneRequest δ domains).cooldownUntil _ (loneRequest δ domains).candidates
          (loneRequest δ domains).names (loneRequest δ domains).frozen {} = _ :=
        fallbackRun_lone hne (selectDossiers_frozen (loneRequest δ domains) fun d hd => hd) hresult
      obtain ⟨hcovers,-⟩ := h (loneRequest δ domains) (fun _ => answering)
        { domainsPerRequest := (freezeDomains domains).length } "default" (fun _ => false) rfl
        (List.nodup_singleton _) fun _ => answering_names
      have hcovered := hcovers {} [result] [] trivial (by
        simp only [dispatchPool,loneRequest,dispatchFallback] at hrun ⊢
        rw [hrun]
        rfl)
      refine .inr (settled_of_returned hfold fun d hd => ?_)
      by_contra hmissing
      have hnone : d ∉ [result].flatMap ProviderAnalysisResult.names := by
        simpa [hnames] using hmissing
      have hcontacted : (sampleJob.candidate,freezeDomains domains) ∈
          (fallbackRun (loneRequest δ domains).cooldownUntil
            (jobExecutor (fun _ => answering) (loneRequest δ domains).frozen
              { domainsPerRequest := (freezeDomains domains).length } "default" fun _ => false)
            (loneRequest δ domains).candidates (loneRequest δ domains).names
            (loneRequest δ domains).frozen {}).1.contacted := by
        rw [hrun]
        exact List.mem_singleton.mpr rfl
      obtain ⟨e,he,-⟩ := hcovered.exhausted rfl d hd hnone _ hcontacted hd
      cases he
  · intro hsettled request env options profileName cancelledAtStart hdomains hids hnames
    have haccounts : (jobExecutor env request.frozen options profileName
        cancelledAtStart).AccountsOn request.names :=
      jobExecutor_accountsOn (fun c => (hnames c).faithfulOn (hdomains ▸ hsettled)) _ _ _ _
    exact ⟨fun progress results errors hcompletes h =>
      dispatchPool_covers haccounts hids hcompletes h,dispatchPool_orderFree haccounts hids⟩

end Names

theorem asciiTables_foldsOnce : FoldsOnce := by
  intro s t h
  have hfixed : ∀ c ∈ t.toList, c.toLower = c := by
    intro c hc
    have hmem : c ∈ (asciiLower s).toList := h.subset hc
    rw [asciiLower,String.toList_ofList] at hmem
    obtain ⟨c',-,rfl⟩ := List.mem_map.mp hmem
    exact toLower_toLower c'
  have hmap : t.toList.map Char.toLower = t.toList :=
    (List.map_congr_left hfixed).trans (List.map_id' _)
  change String.ofList (t.toList.map Char.toLower) = t
  rw [hmap,String.ofList_toList]

theorem promised_iff_settled_plain : Settled ["a.com"] ∧ Promised Unit ["a.com"] := by
  have hsettled : Settled ["a.com"] := by
    refine .inr fun x hx _ => ?_
    rw [List.mem_singleton.mp hx]
    exact ⟨by decide,rfl⟩
  exact ⟨hsettled,(promised_iff_settled asciiTables_foldsOnce ["a.com"]).mpr hsettled⟩

/-- The name `a. .` is frozen as `a. ` and classified as `a`. -/
theorem odd_name_comes_back_changed :
    (loneRequest Unit ["a. ."]).names = ["a. "] ∧
      (∃ result, dispatchPool (loneRequest Unit ["a. ."]) (jobExecutor (fun _ => answering)
          (loneRequest Unit ["a. ."]).frozen {} "default" fun _ => false) {} = .ok ([result],[]) ∧
        result.names = ["a"]) ∧ ¬Promised Unit ["a. ."] := by
  refine ⟨rfl,⟨_,rfl,rfl⟩,fun h => ?_⟩
  obtain ⟨hcovers,-⟩ := h (loneRequest Unit ["a. ."]) (fun _ => answering) {} "default"
    (fun _ => false) rfl (List.nodup_singleton _) fun _ => answering_names
  have hinside := (hcovers {} _ [] trivial rfl).inside _ (List.mem_singleton.mpr rfl) "a"
    (List.mem_singleton.mpr rfl)
  have hnames : (loneRequest Unit ["a. ."]).names = ["a. "] := rfl
  rw [hnames] at hinside
  exact absurd hinside (by decide)

end Dispatch
end WormholeObservatory
