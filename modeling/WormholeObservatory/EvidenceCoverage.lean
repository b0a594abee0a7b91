import WormholeObservatory.EvidenceCollection

/-! What a collection covers. The lookups are exactly those of the pairs without a fresh finding,
whatever order they end in; what they found replaces the rows of their pairs, unless two names of one
list are stored under the same key. -/
namespace WormholeObservatory
namespace Evidence

open Config (ResearchProviderOptions)
open Compatibility (compatibilityMatchForDomain compatibilityMatches)
open JsonValues

/-! Lists to which one member contributes. -/

section Contributions

variable {α β : Type*} {l : List α} {a : α} {f : α → List β}

theorem flatMap_of_unique (hl : l.Nodup) (ha : a ∈ l) (hothers : ∀ b ∈ l, b ≠ a → f b = []) :
    l.flatMap f = f a := by
  induction l with
  | nil => exact absurd ha List.not_mem_nil
  | cons x l ih =>
    obtain ⟨hx,hl⟩ := List.nodup_cons.mp hl
    rw [List.flatMap_cons]
    rcases List.mem_cons.mp ha with rfl | ha
    · have hnone : l.flatMap f = [] := List.flatMap_eq_nil_iff.mpr fun b hb =>
        hothers b (List.mem_cons_of_mem _ hb) fun heq => hx (heq ▸ hb)
      rw [hnone,List.append_nil]
    · rw [hothers x List.mem_cons_self fun heq => hx (heq ▸ ha),List.nil_append,
        ih hl ha fun b hb => hothers b (List.mem_cons_of_mem _ hb)]

theorem unique_of_flatMap (ha : a ∈ l) (hlength : (l.flatMap f).length = (f a).length) {b : α} (hb : b ∈ l)
    (hsome : f b ≠ []) : b = a := by
  obtain ⟨before,after,rfl⟩ := List.append_of_mem ha
  rw [List.flatMap_append,List.flatMap_cons,List.length_append,List.length_append] at hlength
  have hbefore : before.flatMap f = [] := List.length_eq_zero_iff.mp (by omega)
  have hafter : after.flatMap f = [] := List.length_eq_zero_iff.mp (by omega)
  rcases List.mem_append.mp hb with hb | hb
  · exact absurd (List.flatMap_eq_nil_iff.mp hbefore b hb) hsome
  · rcases List.mem_cons.mp hb with rfl | hb
    · rfl
    · exact absurd (List.flatMap_eq_nil_iff.mp hafter b hb) hsome

end Contributions

/-! Rows of pairs. -/

/-- The rows of a domain from a provider. -/
def pairRows (domain provider : String) (t : FindingTable) : List FindingRow :=
  t.rows.filter fun row => row.domain = domain && row.provider = provider

/-- What stands in the rows of a pair, apart from their ids. -/
def pairContents (domain provider : String) (t : FindingTable) : List FindingRow :=
  (pairRows domain provider t).map fun row => { row with id := 0 }

/-- Rows that are numbered when they are stored are read back as they were. -/
theorem numbered_contents {domain provider : String} {rows : List FindingRow} (hids : ∀ row ∈ rows, row.id = 0)
    (next : ℕ → ℤ) :
    ((rows.mapIdx fun i row => { row with id := next i }).filter fun row =>
      row.domain = domain && row.provider = provider).map (fun row => { row with id := 0 }) =
        rows.filter fun row => row.domain = domain && row.provider = provider := by
  induction rows generalizing next with
  | nil => rfl
  | cons row rows ih =>
    have hrest := ih (fun r hr => hids r (List.mem_cons_of_mem _ hr)) fun i => next (i+1)
    have hrow : { row with id := 0 } = row := by rw [← hids row List.mem_cons_self]
    rw [List.mapIdx_cons,List.filter_cons,List.filter_cons]
    split
    · rw [List.map_cons,hrow,hrest]
    · exact hrest

section Coverage

variable [LetterTables] [ValueTexts]

section Saving

variable {settings : Settings} {now days : ℤ} {findings : List ResearchFinding} {t t' : FindingTable}
  {count : ℕ}

/-- The row that a finding is stored as. -/
def storedAs (settings : Settings) (now days : ℤ) (f : ResearchFinding) : FindingRow :=
  savedRow now days (adjusted settings now days f)

theorem saved_ok_iff : (∃ saved, saveResearchFindings settings now days findings t = .ok saved) ↔
    ∀ f ∈ findings, normalizeDomain f.domain ≠ "" := by
  constructor
  · rintro ⟨⟨count,t'⟩,h⟩
    exact (saved_rows h).1
  · intro hnamed
    have hall : ¬(applyFreshnessPolicies settings now days findings).any
        (fun f => normalizeDomain f.domain = "") := by
      rw [applyFreshnessPolicies,List.any_map,List.any_eq_true]
      rintro ⟨f,hf,hempty⟩
      exact hnamed f hf (of_decide_eq_true hempty)
    rw [saveResearchFindings,insertResearchFindings,if_neg hall]
    exact ⟨_,rfl⟩

/-- A save leaves the rows of other pairs alone. -/
theorem pairRows_kept (h : saveResearchFindings settings now days findings t = .ok (count,t'))
    {domain provider : String}
    (hother : ∀ f ∈ findings, normalizeDomain f.domain = domain → f.provider ≠ provider) :
    pairRows domain provider t' = pairRows domain provider t := by
  have hold : (t.rows.filter fun row => (row.domain,row.provider) ∉ findings.map fun f =>
      (normalizeDomain f.domain,f.provider)).filter (fun row => row.domain = domain && row.provider = provider) =
      t.rows.filter fun row => row.domain = domain && row.provider = provider := by
    rw [List.filter_filter]
    refine List.filter_congr fun row _ => ?_
    by_cases hpair : row.domain = domain ∧ row.provider = provider
    · obtain ⟨rfl,rfl⟩ := hpair
      have hnone : (row.domain,row.provider) ∉ findings.map fun f => (normalizeDomain f.domain,f.provider) := by
        intro hmem
        obtain ⟨f,hf,heq⟩ := List.mem_map.mp hmem
        exact hother f hf (Prod.mk.inj heq).1 (Prod.mk.inj heq).2
      simp [hnone]
    · have hfalse : (decide (row.domain = domain) && decide (row.provider = provider)) = false := by
        simpa using hpair
      rw [hfalse,Bool.false_and]
  have hnew : ∀ g : ℕ → FindingRow → FindingRow, (∀ i row, (g i row).domain = row.domain ∧
      (g i row).provider = row.provider) → ((findings.map (storedAs settings now days)).mapIdx g).filter
        (fun row => row.domain = domain && row.provider = provider) = [] := by
    intro g hg
    refine List.filter_eq_nil_iff.mpr fun row hrow hpair => ?_
    obtain ⟨i,hi,rfl⟩ := List.mem_mapIdx.mp hrow
    rw [List.length_map] at hi
    rw [(hg _ _).1,(hg _ _).2,List.getElem_map,Bool.and_eq_true,decide_eq_true_eq,decide_eq_true_eq] at hpair
    exact hother _ (List.getElem_mem hi) hpair.1 hpair.2
  rw [pairRows,(saved_rows h).2,List.filter_append,hold]
  have hnone := hnew (fun i row => { row with id := t.lastId+1+i }) fun _ _ => ⟨rfl,rfl⟩
  exact (congrArg _ hnone).trans (List.append_nil _)

/-- The rows of a pair that is saved are what was found for it. -/
theorem pairContents_saved (h : saveResearchFindings settings now days findings t = .ok (count,t'))
    {domain provider : String}
    (hsaved : ∃ f ∈ findings, normalizeDomain f.domain = domain ∧ f.provider = provider) :
    pairContents domain provider t' = (findings.filter fun f =>
      normalizeDomain f.domain = domain && f.provider = provider).map (storedAs settings now days) := by
  obtain ⟨f,hf,hdomain,hprovider⟩ := hsaved
  have hold : (t.rows.filter fun row => (row.domain,row.provider) ∉ findings.map fun f =>
      (normalizeDomain f.domain,f.provider)).filter
        (fun row => row.domain = domain && row.provider = provider) = [] := by
    rw [List.filter_filter]
    refine List.filter_eq_nil_iff.mpr fun row _ hpair => ?_
    rw [Bool.and_eq_true,Bool.and_eq_true,decide_eq_true_eq,decide_eq_true_eq,decide_eq_true_eq] at hpair
    obtain ⟨⟨hd,hp⟩,hnot⟩ := hpair
    exact hnot (List.mem_map.mpr ⟨f,hf,by rw [hd,hp,hdomain,hprovider]⟩)
  rw [pairContents,pairRows,(saved_rows h).2,List.filter_append,hold,List.nil_append]
  have hids : ∀ row ∈ findings.map fun f => savedRow now days (adjusted settings now days f), row.id = 0 := by
    intro row hrow
    obtain ⟨f,-,rfl⟩ := List.mem_map.mp hrow
    rfl
  rw [numbered_contents hids fun i => t.lastId+1+i,List.filter_map]
  rfl

end Saving

/-! What is missing. -/

namespace World

variable (w : World) (domains : List String) (domain : String)

/-- The findings of remote providers for a domain that are stored and fresh. -/
def freshFindings : List ResearchFinding :=
  (w.findings.rows.filter fun row => row.domain = normalizeDomain domain &&
    rowIsFresh (w.readAt domain) row (buildFreshnessContext w.settings 30 domain) &&
      row.provider ≠ compatibilityProviderName).map findingFromRow

/-- The providers to look a domain up at: none if it is locked, else those without a fresh finding. -/
def missing : List ResearchProviderOptions :=
  if w.locked domain then []
  else w.providers.filter fun p => p.name ∉ (w.freshFindings domain).map ResearchFinding.provider

/-- The first findings of a lookup, none if it fails. -/
def found (p : ResearchProviderOptions) : List ResearchFinding :=
  (sliceTo p.maxResults ((w.lookup domain p).getD [])).map fun f => annotateSourceKind f p.kind

/-- What is assumed of the providers and the cache. -/
structure Assumed : Prop where
  names : (w.providers.map fun p => p.name).Nodup
  remote : ∀ p ∈ w.providers, p.name ≠ compatibilityProviderName
  answers : ∀ domain, ∀ p ∈ w.providers, ∀ findings, w.lookup domain p = some findings →
    ∀ f ∈ findings, f.domain = domain ∧ f.provider = p.name
  few : ∀ domain ∈ normalizedDomains domains,
    (w.findings.rows.filter fun row => row.domain = normalizeDomain domain).length < 500

/-- No finding is without a key to be stored under, and no two domains share one for a provider. -/
structure Clean : Prop where
  named : ∀ domain ∈ normalizedDomains domains, ∀ p ∈ w.missing domain, w.found domain p ≠ [] →
    normalizeDomain domain ≠ ""
  apart : ∀ domain ∈ normalizedDomains domains, ∀ other ∈ normalizedDomains domains,
    ∀ p ∈ w.missing domain, p ∈ w.missing other → w.found domain p ≠ [] → w.found other p ≠ [] →
      normalizeDomain domain = normalizeDomain other → domain = other

/-- What is looked up, returned and stored when the loop has ended in a state. -/
structure Covers (t : Progress) (output : OrderedDict String (List ResearchFinding))
    (table : FindingTable) : Prop where
  once : t.ended.Nodup
  exactly : ∀ job, job ∈ t.ended ↔ job.1 ∈ normalizedDomains domains ∧ job.2 ∈ w.missing job.1
  result : ∀ domain ∈ normalizedDomains domains, ∃ findings, output.get? domain = some findings ∧
    findings.Perm (w.freshFindings domain++(w.localFinding domain).toList++
      (w.missing domain).flatMap (w.found domain))
  others : ∀ domain ∉ normalizedDomains domains, output.get? domain = none
  stored : ∀ job ∈ t.ended, w.found job.1 job.2 ≠ [] →
    pairContents (normalizeDomain job.1) job.2.name table =
      (w.found job.1 job.2).map (storedAs w.settings w.savedAt w.maxAgeDays)
  kept : ∀ domain provider, provider ≠ compatibilityProviderName →
    (∀ job ∈ t.ended, w.found job.1 job.2 ≠ [] → normalizeDomain job.1 = domain → job.2.name ≠ provider) →
      pairRows domain provider table = pairRows domain provider w.findings

end World

/-! What is cached. -/

section Cached

variable {w : World} {domains : List String} {domain : String}

theorem cachedFindings_perm (hfew : (w.findings.rows.filter fun row =>
    row.domain = normalizeDomain domain).length < 500) :
    (w.cachedFindings domain).Perm (w.freshFindings domain) := by
  have hsorted := List.perm_insertionSort (fun a b => rowKey a ≤ rowKey b)
    (w.findings.rows.filter fun row => row.domain = normalizeDomain domain)
  have hstored : storedFindings domain (max 500 (max 1 500)) w.findings =
      (w.findings.rows.filter fun row => row.domain = normalizeDomain domain).insertionSort
        fun a b => rowKey a ≤ rowKey b := by
    rw [storedFindings,List.take_of_length_le]
    rw [hsorted.length_eq]
    exact hfew.le
  have hall : researchFindingsGet w.settings (w.readAt domain) domain true 500 w.findings =
      ((w.findings.rows.filter fun row => row.domain = normalizeDomain domain).insertionSort
        fun a b => rowKey a ≤ rowKey b).filter fun row =>
          rowIsFresh (w.readAt domain) row (buildFreshnessContext w.settings 30 domain) := by
    simp only [researchFindingsGet,Bool.not_true,Bool.false_eq_true,if_false,hstored]
    refine List.take_of_length_le ((List.length_filter_le _ _).trans ?_)
    rw [hsorted.length_eq]
    exact hfew.le
  rw [World.cachedFindings,World.freshFindings,hall,List.filter_map]
  refine List.Perm.map _ (((hsorted.filter _).filter _).trans (List.Perm.of_eq ?_))
  rw [List.filter_filter,List.filter_filter]
  refine List.filter_congr fun row _ => ?_
  rw [Bool.eq_iff_iff]
  simp only [Function.comp_apply,findingFromRow,Bool.and_eq_true,decide_eq_true_eq]
  constructor
  · intro h
    obtain ⟨⟨hremote,hfresh⟩,hdomain⟩ := h
    exact ⟨⟨hdomain,hfresh⟩,of_decide_eq_true hremote⟩
  · intro h
    obtain ⟨⟨hdomain,hfresh⟩,hremote⟩ := h
    exact ⟨⟨decide_eq_true hremote,hfresh⟩,hdomain⟩

omit [ValueTexts] in
theorem localFinding_saved {f : ResearchFinding} (h : w.localFinding domain = some f) :
    normalizeDomain f.domain ≠ "" ∧ f.provider = compatibilityProviderName := by
  obtain ⟨m,hm,rfl⟩ := Option.map_eq_some_iff.mp h
  refine ⟨fun hempty => ?_,rfl⟩
  rw [compatibilityMatchForDomain,compatibilityMatches,if_pos hempty] at hm
  exact absurd hm (by simp)

/-- The local findings are always saved, and no row of a remote pair is touched. -/
theorem savedLocal_ok (w : World) (domains : List String) : ∃ table, w.savedLocal domains = .ok table ∧
    ∀ domain provider, provider ≠ compatibilityProviderName →
      pairRows domain provider table = pairRows domain provider w.findings := by
  rw [World.savedLocal]
  split
  · exact ⟨w.findings,rfl,fun _ _ _ => rfl⟩
  · have hlocal : ∀ f ∈ (normalizedDomains domains).filterMap w.localFinding,
        normalizeDomain f.domain ≠ "" ∧ f.provider = compatibilityProviderName := by
      intro f hf
      obtain ⟨d,-,hd⟩ := List.mem_filterMap.mp hf
      exact localFinding_saved hd
    obtain ⟨⟨count,table⟩,hsaved⟩ := saved_ok_iff.mpr fun f hf => (hlocal f hf).1
    refine ⟨table,?_,fun domain provider hremote => pairRows_kept hsaved fun f hf _ heq => ?_⟩
    · rw [hsaved]
      rfl
    · exact hremote (heq.symm.trans (hlocal f hf).2)

end Cached

/-! What is pending. -/

section Pending

variable {w : World} {domains : List String} {domain : String} {p : ResearchProviderOptions} {job : Job}

omit [ValueTexts] in
theorem nodup_normalizedDomains (domains : List String) : (normalizedDomains domains).Nodup :=
  OrderedDict.nodup_eraseDups _

theorem pending_eq (h : w.Assumed domains) :
    w.pending domains = (normalizedDomains domains).flatMap fun d => (w.missing d).map (d,·) := by
  refine List.flatMap_congr fun d hd => ?_
  rw [World.missing]
  split
  · rfl
  · refine congrArg _ (List.filter_congr fun p hp => decide_eq_decide.mpr (not_congr ?_))
    rw [World.cached,List.map_append,List.mem_append,((cachedFindings_perm (h.few d hd)).map _).mem_iff]
    refine or_iff_left fun hlocal => ?_
    obtain ⟨f,hf,hname⟩ := List.mem_map.mp hlocal
    exact h.remote p hp (hname ▸ (localFinding_saved (Option.mem_toList.mp hf)).2)

theorem mem_providers_of_missing (hp : p ∈ w.missing domain) : p ∈ w.providers := by
  rw [World.missing] at hp
  split at hp
  · exact absurd hp List.not_mem_nil
  · exact List.mem_of_mem_filter hp

theorem nodup_missing (h : w.Assumed domains) (domain : String) : (w.missing domain).Nodup := by
  rw [World.missing]
  split
  · exact List.nodup_nil
  · exact (List.Nodup.of_map _ h.names).filter _

theorem mem_pending_iff (h : w.Assumed domains) :
    job ∈ w.pending domains ↔ job.1 ∈ normalizedDomains domains ∧ job.2 ∈ w.missing job.1 := by
  rw [pending_eq h,List.mem_flatMap]
  constructor
  · rintro ⟨d,hd,hjob⟩
    obtain ⟨p,hp,rfl⟩ := List.mem_map.mp hjob
    exact ⟨hd,hp⟩
  · rintro ⟨hd,hp⟩
    exact ⟨job.1,hd,List.mem_map.mpr ⟨job.2,hp,rfl⟩⟩

theorem nodup_pending (h : w.Assumed domains) : (w.pending domains).Nodup := by
  rw [pending_eq h,List.nodup_flatMap]
  refine ⟨fun d _ => (nodup_missing h d).map fun _ _ heq => (Prod.mk.inj heq).2,?_⟩
  refine (nodup_normalizedDomains domains).imp fun hne job hjob hother => hne ?_
  obtain ⟨p,-,rfl⟩ := List.mem_map.mp hjob
  obtain ⟨q,-,heq⟩ := List.mem_map.mp hother
  exact (Prod.mk.inj heq).1.symm

theorem pending_of_domain (h : w.Assumed domains) (hd : domain ∈ normalizedDomains domains) :
    ((w.pending domains).filter (·.1 = domain)).Perm ((w.missing domain).map (domain,·)) := by
  refine (List.perm_ext_iff_of_nodup ((nodup_pending h).filter _) ?_).mpr fun job => ?_
  · exact (nodup_missing h domain).map fun _ _ heq => (Prod.mk.inj heq).2
  · rw [List.mem_filter,mem_pending_iff h,decide_eq_true_eq,List.mem_map]
    constructor
    · rintro ⟨⟨-,hp⟩,rfl⟩
      exact ⟨job.2,hp,rfl⟩
    · rintro ⟨p,hp,rfl⟩
      exact ⟨⟨hd,hp⟩,rfl⟩

end Pending

/-! What is found. -/

section Found

variable {w : World} {domains : List String} {domain : String} {p : ResearchProviderOptions}
  {f : ResearchFinding}

omit [LetterTables] [ValueTexts] in
theorem mem_of_mem_sliceTo {α : Type} {n : ℤ} {xs : List α} {x : α} (h : x ∈ sliceTo n xs) : x ∈ xs := by
  rw [sliceTo] at h
  split at h
  · exact List.mem_of_mem_take h
  · exact List.mem_of_mem_take h

omit [ValueTexts] in
theorem annotated_pair (f : ResearchFinding) (kind : String) :
    (annotateSourceKind f kind).domain = f.domain ∧ (annotateSourceKind f kind).provider = f.provider := by
  rw [annotateSourceKind]
  split
  · exact ⟨rfl,rfl⟩
  · exact ⟨rfl,rfl⟩

omit [ValueTexts] in
theorem selected_getD (job : Job) : (w.selected job).getD [] = w.found job.1 job.2 := by
  rw [World.selected,World.found]
  cases w.lookup job.1 job.2 with
  | none =>
    have hnone : sliceTo job.2.maxResults ([] : List ResearchFinding) = [] :=
      List.eq_nil_iff_forall_not_mem.mpr fun f hf => List.not_mem_nil (mem_of_mem_sliceTo hf)
    rw [Option.getD_none,hnone]
    rfl
  | some findings => rfl

omit [ValueTexts] in
theorem found_answers (h : w.Assumed domains) (hp : p ∈ w.providers) (hf : f ∈ w.found domain p) :
    f.domain = domain ∧ f.provider = p.name := by
  obtain ⟨g,hg,rfl⟩ := List.mem_map.mp hf
  obtain ⟨hdomain,hprovider⟩ := annotated_pair g p.kind
  rw [hdomain,hprovider]
  cases hlookup : w.lookup domain p with
  | none =>
    rw [hlookup] at hg
    exact absurd (mem_of_mem_sliceTo hg) List.not_mem_nil
  | some findings =>
    rw [hlookup] at hg
    exact h.answers domain p hp findings hlookup g (mem_of_mem_sliceTo hg)

end Found

/-! The loop. -/

namespace World

/-- What the loop has put together from the lookups that have ended. -/
structure Accounted (w : World) (domains : List String) (s : Progress) : Prop where
  collected : s.collected = s.ended.flatMap fun job => w.found job.1 job.2
  output : ∀ d, s.output.get? d = if d ∈ normalizedDomains domains then
    some (w.cached d++(s.ended.filter (·.1 = d)).flatMap fun job => w.found job.1 job.2) else none

end World

section Loop

variable {w : World} {domains : List String} {s t : Progress} {job : Job} {done : List Job}

omit [ValueTexts] in
theorem ended_complete (s : Progress) (job : Job) : (w.complete s job).ended = s.ended++[job] := by
  rw [World.complete]
  cases w.selected job with
  | none => rfl
  | some findings => rfl

theorem World.Accounted.complete (hs : w.Accounted domains s) (hjob : job.1 ∈ normalizedDomains domains) :
    w.Accounted domains (w.complete s job) := by
  have hfound := selected_getD (w := w) job
  have hended (d : String) : ((s.ended++[job]).filter (·.1 = d)).flatMap (fun job => w.found job.1 job.2) =
      (s.ended.filter (·.1 = d)).flatMap (fun job => w.found job.1 job.2)++
        if job.1 = d then w.found job.1 job.2 else [] := by
    rw [List.filter_append,List.flatMap_append,List.filter_singleton]
    by_cases hd : job.1 = d
    · simp [hd]
    · simp [hd]
  rw [World.complete]
  cases hselected : w.selected job with
  | none =>
    rw [hselected,Option.getD_none] at hfound
    constructor
    · rw [List.flatMap_append,List.flatMap_singleton,← hfound,List.append_nil]
      exact hs.collected
    · intro d
      rw [hended,← hfound,ite_self,List.append_nil]
      exact hs.output d
  | some findings =>
    rw [hselected,Option.getD_some] at hfound
    constructor
    · rw [List.flatMap_append,List.flatMap_singleton,← hfound]
      exact congrArg (·++findings) hs.collected
    · intro d
      rw [hended,OrderedDict.get?_set,hs.output,hs.output,if_pos hjob,← hfound]
      by_cases hd : job.1 = d
      · subst hd
        rw [if_pos rfl,if_pos hjob,if_pos rfl,Option.getD_some,List.append_assoc]
      · rw [if_neg hd,if_neg hd,List.append_nil]

theorem World.Accounted.foldl (hs : w.Accounted domains s)
    (hdone : ∀ job ∈ done, job.1 ∈ normalizedDomains domains) :
    w.Accounted domains (done.foldl w.complete s) ∧ (done.foldl w.complete s).ended = s.ended++done := by
  induction done generalizing s with
  | nil => exact ⟨hs,(List.append_nil _).symm⟩
  | cons job done ih =>
    obtain ⟨haccounted,hended⟩ := ih (hs.complete (hdone job List.mem_cons_self))
      fun j hj => hdone j (List.mem_cons_of_mem _ hj)
    refine ⟨haccounted,hended.trans ?_⟩
    rw [ended_complete,List.append_assoc,List.singleton_append]

theorem accounted_started (w : World) (domains : List String) : w.Accounted domains (w.started domains) where
  collected := rfl
  output d := by
    rw [World.started,OrderedDict.get?_ofItems_map]
    simp only [List.filter_nil,List.flatMap_nil,List.append_nil]

/-- A run to the end has ended every lookup that was pending. -/
theorem finished_accounted (h : w.Assumed domains) (hrun : w.Finished domains t) :
    w.Accounted domains t ∧ t.ended.Perm (w.pending domains) := by
  obtain ⟨⟨turns,hturns⟩,hended⟩ := hrun
  have hall := hturns.invariant
    (fun s => w.Accounted domains s ∧ (s.ended++s.remaining).Perm (w.pending domains)) ?_
      ⟨accounted_started w domains,List.Perm.refl _⟩
  · rw [hended,List.append_nil] at hall
    exact hall
  · rintro s done _ ⟨haccounted,hjobs⟩ ⟨rest,hperm,rfl⟩
    have hrequested : ∀ job ∈ done, job.1 ∈ normalizedDomains domains := fun job hjob =>
      ((mem_pending_iff h).mp (hjobs.mem_iff.mp (List.mem_append_right _
        (hperm.mem_iff.mp (List.mem_append_left _ hjob))))).1
    obtain ⟨hdone,hended⟩ := haccounted.foldl hrequested
    refine ⟨⟨hdone.collected,hdone.output⟩,?_⟩
    rw [hended,List.append_assoc]
    exact (hperm.append_left _).trans hjobs

theorem finished_exists (w : World) (domains : List String) : ∃ t, w.Finished domains t :=
  ⟨{ (w.pending domains).foldl w.complete (w.started domains) with remaining := [] },
    ⟨[w.pending domains],Transition.Run.single ⟨[],by rw [List.append_nil]; exact List.Perm.refl _,rfl⟩⟩,rfl⟩

end Loop

/-! The end. -/

section Ended

variable {w : World} {domains : List String} {t : Progress} {job : Job}
  {output : OrderedDict String (List ResearchFinding)} {table : FindingTable}

/-- The result is that of the loop; the table is the one with the local findings, with what was
collected saved. -/
theorem researchMany_eq (h : w.researchMany domains t = .ok (output,table)) :
    output = t.output ∧ ∃ before, w.savedLocal domains = .ok before ∧
      (t.collected = [] ∧ table = before ∨
        ∃ count, saveResearchFindings w.settings w.savedAt w.maxAgeDays t.collected before = .ok (count,table)) := by
  obtain ⟨before,hbefore,-⟩ := savedLocal_ok w domains
  rw [World.researchMany,hbefore] at h
  change (if t.collected = [] then _ else _) = _ at h
  split at h
  · rename_i hnone
    obtain ⟨rfl,rfl⟩ := Prod.mk.inj (Except.ok.inj h)
    exact ⟨rfl,before,hbefore,.inl ⟨hnone,rfl⟩⟩
  · cases hsaved : saveResearchFindings w.settings w.savedAt w.maxAgeDays t.collected before with
    | error e =>
      rw [hsaved] at h
      cases h
    | ok saved =>
      rw [hsaved] at h
      obtain ⟨rfl,rfl⟩ := Prod.mk.inj (Except.ok.inj h)
      exact ⟨rfl,before,hbefore,.inr ⟨saved.1,hsaved⟩⟩

theorem researchMany_ok_iff : (∃ output table, w.researchMany domains t = .ok (output,table)) ↔
    ∀ f ∈ t.collected, normalizeDomain f.domain ≠ "" := by
  constructor
  · rintro ⟨output,table,h⟩
    obtain ⟨-,before,-,⟨hnone,-⟩ | ⟨count,hsaved⟩⟩ := researchMany_eq h
    · rw [hnone]
      exact fun f hf => absurd hf List.not_mem_nil
    · exact saved_ok_iff.mp ⟨_,hsaved⟩
  · intro hnamed
    obtain ⟨before,hbefore,-⟩ := savedLocal_ok w domains
    obtain ⟨saved,hsaved⟩ : ∃ saved, saveResearchFindings w.settings w.savedAt w.maxAgeDays t.collected before =
        .ok saved := saved_ok_iff.mpr hnamed
    rw [World.researchMany,hbefore]
    change ∃ output table, (if t.collected = [] then _ else _) = _
    split
    · exact ⟨_,_,rfl⟩
    · rw [hsaved]
      exact ⟨_,_,rfl⟩

theorem pairRows_researchMany (h : w.researchMany domains t = .ok (output,table)) {domain provider : String}
    (hremote : provider ≠ compatibilityProviderName)
    (hother : ∀ f ∈ t.collected, normalizeDomain f.domain = domain → f.provider ≠ provider) :
    pairRows domain provider table = pairRows domain provider w.findings := by
  obtain ⟨before,hbefore,hlocal⟩ := savedLocal_ok w domains
  obtain ⟨-,before',hbefore',hsaved⟩ := researchMany_eq h
  obtain rfl := Except.ok.inj (hbefore.symm.trans hbefore')
  rw [← hlocal domain provider hremote]
  rcases hsaved with ⟨-,rfl⟩ | ⟨count,hsaved⟩
  · rfl
  · exact pairRows_kept hsaved hother

theorem pairContents_researchMany (h : w.researchMany domains t = .ok (output,table)) {domain provider : String}
    (hfound : ∃ f ∈ t.collected, normalizeDomain f.domain = domain ∧ f.provider = provider) :
    pairContents domain provider table = (t.collected.filter fun f =>
      normalizeDomain f.domain = domain && f.provider = provider).map
        (storedAs w.settings w.savedAt w.maxAgeDays) := by
  obtain ⟨-,before,-,⟨hnone,-⟩ | ⟨count,hsaved⟩⟩ := researchMany_eq h
  · obtain ⟨f,hf,-⟩ := hfound
    rw [hnone] at hf
    exact absurd hf List.not_mem_nil
  · exact pairContents_saved hsaved hfound

/-- The findings that were collected for the pair of a lookup are those of the lookups with its key. -/
theorem collected_of_pair (h : w.Assumed domains) (hrun : w.Finished domains t) {domain provider : String} :
    (t.collected.filter fun f => normalizeDomain f.domain = domain && f.provider = provider) =
      (t.ended.filter fun job => normalizeDomain job.1 = domain && job.2.name = provider).flatMap
        fun job => w.found job.1 job.2 := by
  obtain ⟨haccounted,hended⟩ := finished_accounted h hrun
  have hremote : ∀ job ∈ t.ended, job.2 ∈ w.providers := fun job hjob =>
    mem_providers_of_missing ((mem_pending_iff h).mp (hended.mem_iff.mp hjob)).2
  rw [haccounted.collected]
  generalize t.ended = jobs at hremote
  induction jobs with
  | nil => rfl
  | cons job jobs ih =>
    have hrest := ih fun j hj => hremote j (List.mem_cons_of_mem _ hj)
    have hpair : ∀ f ∈ w.found job.1 job.2, (decide (normalizeDomain f.domain = domain) &&
        decide (f.provider = provider)) = (decide (normalizeDomain job.1 = domain) &&
          decide (job.2.name = provider)) := by
      intro f hf
      obtain ⟨hdomain,hprovider⟩ := found_answers h (hremote job List.mem_cons_self) hf
      rw [hdomain,hprovider]
    rw [List.flatMap_cons,List.filter_append,hrest,List.filter_congr hpair,List.filter_cons]
    split
    · rename_i htrue
      simp only [htrue,List.filter_true,List.flatMap_cons]
    · rename_i hfalse
      simp only [hfalse,List.filter_false,List.nil_append]

end Ended

/-! What is covered. -/

section Covered

variable {w : World} {domains : List String} {t : Progress} {job : Job}
  {output : OrderedDict String (List ResearchFinding)} {table : FindingTable}

theorem mem_ended_iff (h : w.Assumed domains) (hrun : w.Finished domains t) :
    job ∈ t.ended ↔ job.1 ∈ normalizedDomains domains ∧ job.2 ∈ w.missing job.1 := by
  rw [(finished_accounted h hrun).2.mem_iff,mem_pending_iff h]

theorem mem_collected_iff (h : w.Assumed domains) (hrun : w.Finished domains t) {f : ResearchFinding} :
    f ∈ t.collected ↔ ∃ job ∈ t.ended, f ∈ w.found job.1 job.2 := by
  rw [(finished_accounted h hrun).1.collected,List.mem_flatMap]

/-- What is found for a lookup is of its pair. -/
theorem found_of_ended (h : w.Assumed domains) (hrun : w.Finished domains t) (hjob : job ∈ t.ended)
    {f : ResearchFinding} (hf : f ∈ w.found job.1 job.2) : f.domain = job.1 ∧ f.provider = job.2.name :=
  found_answers h (mem_providers_of_missing ((mem_ended_iff h hrun).mp hjob).2) hf

theorem output_perm (h : w.Assumed domains) (hrun : w.Finished domains t) {domain : String}
    (hd : domain ∈ normalizedDomains domains) : ∃ findings, t.output.get? domain = some findings ∧
      findings.Perm (w.freshFindings domain++(w.localFinding domain).toList++
        (w.missing domain).flatMap (w.found domain)) := by
  obtain ⟨haccounted,hended⟩ := finished_accounted h hrun
  refine ⟨_,(haccounted.output domain).trans (if_pos hd),?_⟩
  have hjobs : ((t.ended.filter (·.1 = domain)).flatMap fun job => w.found job.1 job.2).Perm
      (((w.missing domain).map (domain,·)).flatMap fun job => w.found job.1 job.2) :=
    ((hended.filter _).trans (pending_of_domain h hd)).flatMap_right _
  rw [List.flatMap_map] at hjobs
  exact ((cachedFindings_perm (h.few domain hd)).append_right _).append hjobs

/-- Where no two domains share a key, the rows of a lookup are what it found. -/
theorem stored_of_clean (h : w.Assumed domains) (hrun : w.Finished domains t) (hclean : w.Clean domains)
    (hmany : w.researchMany domains t = .ok (output,table)) (hjob : job ∈ t.ended)
    (hfound : w.found job.1 job.2 ≠ []) :
    pairContents (normalizeDomain job.1) job.2.name table =
      (w.found job.1 job.2).map (storedAs w.settings w.savedAt w.maxAgeDays) := by
  obtain ⟨f,hf⟩ := List.exists_mem_of_ne_nil _ hfound
  obtain ⟨hdomain,hprovider⟩ := found_of_ended h hrun hjob hf
  rw [pairContents_researchMany hmany ⟨f,(mem_collected_iff h hrun).mpr ⟨job,hjob,hf⟩,
    congrArg normalizeDomain hdomain,hprovider⟩,collected_of_pair h hrun]
  refine congrArg _ (flatMap_of_unique (f := fun job : Job => w.found job.1 job.2) ?_ ?_ ?_)
  · exact ((finished_accounted h hrun).2.nodup_iff.mpr (nodup_pending h)).filter _
  · exact List.mem_filter.mpr ⟨hjob,by simp⟩
  · intro other hother hne
    by_contra hsome
    obtain ⟨hended,hpair⟩ := List.mem_filter.mp hother
    obtain ⟨hkey,hname⟩ := Bool.and_eq_true_iff.mp hpair
    obtain ⟨hd,hp⟩ := (mem_ended_iff h hrun).mp hjob
    obtain ⟨hd',hp'⟩ := (mem_ended_iff h hrun).mp hended
    -- The names of the providers are distinct, so the two lookups ask the same one.
    have hsame : other.2 = job.2 := List.inj_on_of_nodup_map h.names (mem_providers_of_missing hp')
      (mem_providers_of_missing hp) (of_decide_eq_true hname)
    rw [hsame] at hp' hsome
    exact hne (Prod.ext (hclean.apart other.1 hd' job.1 hd job.2 hp' hp hsome hfound (of_decide_eq_true hkey))
      hsame)

/-- Rows that are what one lookup found are not also those of another. -/
theorem apart_of_stored (h : w.Assumed domains) (hrun : w.Finished domains t)
    (hmany : w.researchMany domains t = .ok (output,table)) (hcovers : w.Covers domains t output table)
    (hjob : job ∈ t.ended) (hfound : w.found job.1 job.2 ≠ []) {other : Job} (hother : other ∈ t.ended)
    (hsome : w.found other.1 other.2 ≠ []) (hkey : normalizeDomain other.1 = normalizeDomain job.1)
    (hname : other.2.name = job.2.name) : other = job := by
  obtain ⟨f,hf⟩ := List.exists_mem_of_ne_nil _ hfound
  obtain ⟨hdomain,hprovider⟩ := found_of_ended h hrun hjob hf
  have hstored := hcovers.stored job hjob hfound
  rw [pairContents_researchMany hmany ⟨f,(mem_collected_iff h hrun).mpr ⟨job,hjob,hf⟩,
    congrArg normalizeDomain hdomain,hprovider⟩,collected_of_pair h hrun] at hstored
  have hlength := congrArg List.length hstored
  rw [List.length_map,List.length_map] at hlength
  refine unique_of_flatMap (f := fun job : Job => w.found job.1 job.2) ?_ hlength ?_ hsome
  · exact List.mem_filter.mpr ⟨hjob,by simp⟩
  · exact List.mem_filter.mpr ⟨hother,by simp [hkey,hname]⟩

theorem covers_of_clean (h : w.Assumed domains) (hrun : w.Finished domains t) (hclean : w.Clean domains)
    (hmany : w.researchMany domains t = .ok (output,table)) : w.Covers domains t output table where
  once := (finished_accounted h hrun).2.nodup_iff.mpr (nodup_pending h)
  exactly _ := mem_ended_iff h hrun
  result _ hd := (researchMany_eq hmany).1 ▸ output_perm h hrun hd
  others d hd := (researchMany_eq hmany).1 ▸ ((finished_accounted h hrun).1.output d).trans (if_neg hd)
  stored _ hjob hfound := stored_of_clean h hrun hclean hmany hjob hfound
  kept domain provider hremote hothers := by
    refine pairRows_researchMany hmany hremote fun f hf hkey => ?_
    obtain ⟨job,hjob,hfound⟩ := (mem_collected_iff h hrun).mp hf
    obtain ⟨hdomain,hprovider⟩ := found_of_ended h hrun hjob hfound
    rw [hprovider]
    exact hothers job hjob (List.ne_nil_of_mem hfound) (hdomain ▸ hkey)

theorem clean_of_covers (h : w.Assumed domains) (hrun : w.Finished domains t)
    (hmany : w.researchMany domains t = .ok (output,table)) (hcovers : w.Covers domains t output table) :
    w.Clean domains where
  named domain hd p hp hfound := by
    have hjob : (domain,p) ∈ t.ended := (mem_ended_iff h hrun).mpr ⟨hd,hp⟩
    obtain ⟨f,hf⟩ := List.exists_mem_of_ne_nil _ hfound
    have hnamed := researchMany_ok_iff.mp ⟨_,_,hmany⟩ f ((mem_collected_iff h hrun).mpr ⟨_,hjob,hf⟩)
    rwa [(found_of_ended h hrun hjob hf).1] at hnamed
  apart domain hd other hother p hp hp' hfound hfound' hkey :=
    have hjob : (other,p) ∈ t.ended := (mem_ended_iff h hrun).mpr ⟨hother,hp'⟩
    have hjob' : (domain,p) ∈ t.ended := (mem_ended_iff h hrun).mpr ⟨hd,hp⟩
    (Prod.mk.inj (apart_of_stored h hrun hmany hcovers hjob hfound' hjob' hfound hkey rfl)).1

/-- Whatever order the lookups end in, the collection covers what is missing exactly when no finding
is without a key and no two domains share one. -/
theorem evidence_collected_iff (h : w.Assumed domains) : (∃ t, w.Finished domains t) ∧
    ∀ t, w.Finished domains t → ((∃ output table, w.researchMany domains t = .ok (output,table) ∧
      w.Covers domains t output table) ↔ w.Clean domains) := by
  refine ⟨finished_exists w domains,fun t hrun => ⟨?_,fun hclean => ?_⟩⟩
  · rintro ⟨output,table,hmany,hcovers⟩
    exact clean_of_covers h hrun hmany hcovers
  · have hnamed : ∀ f ∈ t.collected, normalizeDomain f.domain ≠ "" := by
      intro f hf
      obtain ⟨job,hjob,hfound⟩ := (mem_collected_iff h hrun).mp hf
      obtain ⟨hd,hp⟩ := (mem_ended_iff h hrun).mp hjob
      rw [(found_of_ended h hrun hjob hfound).1]
      exact hclean.named job.1 hd job.2 hp (List.ne_nil_of_mem hfound)
    obtain ⟨output,table,hmany⟩ := researchMany_ok_iff.mpr hnamed
    exact ⟨output,table,hmany,covers_of_clean h hrun hclean hmany⟩

end Covered

end Coverage

/-! Two names of one domain. -/

/-- One enabled provider, which has something to say of every domain. -/
def registry : World where
  settings := ⟨[{ enabled := true }],[]⟩
  maxAgeDays := 30
  profiles := []
  profileUrl _ := ""
  locks := ∅
  findings := .empty
  readAt _ := 1700000000
  localAt _ := 1700000000
  savedLocalAt := 1700000000
  savedAt := 1700000010
  lookup domain p := some [⟨domain,p.name,"registration","Registered","","",.finite 1,"context","unknown",false,
    1700000005,0,.empty⟩]

theorem registry_assumed (domains : List String) : registry.Assumed domains where
  names := by decide
  remote := by decide
  answers domain p _ findings hfindings f hf := by
    obtain rfl := Option.some.inj hfindings
    rw [List.mem_singleton.mp hf]
    exact ⟨rfl,rfl⟩
  few _ _ := by
    change List.length [] < 500
    decide

theorem registry_found (domain : String) : registry.found domain { enabled := true } ≠ [] :=
  List.cons_ne_nil _ _

theorem registry_missing (domain : String) : { enabled := true } ∈ registry.missing domain := by
  have hall : registry.missing domain = [{ enabled := true }] := by
    rw [World.missing]
    rfl
  rw [hall]
  exact List.mem_singleton_self _

theorem evidence_collected_iff_registry : (∃ t, registry.Finished ["b.example","a.example"] t) ∧
    ∀ t, registry.Finished ["b.example","a.example"] t →
      ((∃ output table, registry.researchMany ["b.example","a.example"] t = .ok (output,table) ∧
        registry.Covers ["b.example","a.example"] t output table) ↔
          registry.Clean ["b.example","a.example"]) :=
  evidence_collected_iff (registry_assumed _)

/-- The name "a. " is not the one it is stored under. -/
theorem evidence_of_two_names : registry.Assumed ["a","a. ."] ∧ ∀ t, registry.Finished ["a","a. ."] t →
    ¬∃ output table, registry.researchMany ["a","a. ."] t = .ok (output,table) ∧
      registry.Covers ["a","a. ."] t output table := by
  refine ⟨registry_assumed _,?_⟩
  rintro t hrun ⟨output,table,hmany,hcovers⟩
  have hclean := clean_of_covers (registry_assumed _) hrun hmany hcovers
  have hdomains : normalizedDomains ["a","a. ."] = ["a","a. "] := by decide
  have hsame : "a" = "a. " := hclean.apart "a" (by rw [hdomains]; simp) "a. " (by rw [hdomains]; simp) _
    (registry_missing _) (registry_missing _) (registry_found _) (registry_found _) (by decide)
  exact absurd hsame (by decide)

end Evidence
end WormholeObservatory
