import WormholeObservatory.ConfigStability

/-! The lists of a configuration under a second `_validate`, and the whole of it. After one pass
ids are trimmed and distinct, kinds and pools are complete and memberships name providers there
are, so the loops of the next pass take no branch but the first. -/
namespace WormholeObservatory
namespace Config

variable [LetterTables]

/-! Providers. -/

theorem validateLimits_again (o : ProviderLimitOptions) :
    validateLimits (validateLimits o) = validateLimits o := by
  have hmode := oneOf_again ["auto","auto_cap","manual"] "auto" lowered (by decide)
    (lowered_names _ (names_cons (by decide) (names_cons (by decide) (names_cons (by decide) rfl))))
      (lowered o.mode)
  simp [validateLimits,hmode,strip_strip,within_within]

/-- The URL of a provider keeps no blank before the slashes at its end. -/
def UrlSettles (url : String) : Prop := endsIn isSpace (rstripSlashes (strip url)) = false

theorem structuredOutput_again (apiStyle s : String) :
    let settled := if apiStyle = "anthropic_messages" then "prompt_only"
      else oneOf structuredOutputs "auto" (lowered s)
    (if apiStyle = "anthropic_messages" then "prompt_only"
      else oneOf structuredOutputs "auto" (lowered settled)) = settled := by
  intro settled
  simp only [settled]
  split
  · rfl
  · exact oneOf_again structuredOutputs "auto" lowered (by decide)
      (lowered_names _
        (names_cons (by decide) (names_cons (by decide) (names_cons (by decide) (names_cons (by decide) rfl)))))
      (lowered s)

theorem validateLLMProvider_again_iff (p : LLMProviderOptions) (providerId : String) :
    validateLLMProvider { validateLLMProvider p with providerId := providerId } =
        { validateLLMProvider p with providerId := providerId } ↔ UrlSettles p.baseUrl := by
  have hstyle := oneOf_again ["openai_compatible","anthropic_messages"] "openai_compatible" lowered
    (by decide) (lowered_names _ (names_cons (by decide) (names_cons (by decide) rfl)))
      (lowered p.apiStyle)
  have hparameter := oneOf_again ["max_tokens","max_completion_tokens","none"] "max_tokens" lowered
    (by decide) (lowered_names _
      (names_cons (by decide) (names_cons (by decide) (names_cons (by decide) rfl))))
      (lowered p.maxTokensParameter)
  have hpreset : orElse (lowered (orElse (lowered p.presetId) "custom")) "custom" =
      orElse (lowered p.presetId) "custom" := by
    by_cases hblank : lowered p.presetId = ""
    · rw [hblank]
      have hcustom : lowered "custom" = "custom" := lowered_isName (isName_ofList (by decide))
      simp [orElse,hcustom]
    · have hkept : orElse (lowered p.presetId) "custom" = lowered p.presetId := if_neg hblank
      rw [hkept,lowered_lowered,hkept]
  have houtput := structuredOutput_again
    (oneOf ["openai_compatible","anthropic_messages"] "openai_compatible" (lowered p.apiStyle))
    p.structuredOutput
  simp only at houtput
  simp only [validateLLMProvider,LLMProviderOptions.mk.injEq,hstyle,hparameter,hpreset,houtput,
    orElse_orElse,strip_strip,validateLimits_again,max_eq_right (le_max_left _ _),true_and,and_true]
  exact trim_slashes_again_iff p.baseUrl

theorem validateLLMProviders_again_iff (draws : ℕ → String) (n : ℕ) (used : List String)
    (ps : List LLMProviderOptions) :
    (∀ p ∈ validateLLMProviders draws n used ps, validateLLMProvider p = p) ↔
      ∀ p ∈ ps, UrlSettles p.baseUrl := by
  induction ps generalizing n used with
  | nil => simp [validateLLMProviders]
  | cons p ps ih =>
    simp only [validateLLMProviders,List.forall_mem_cons]
    rw [validateLLMProvider_again_iff,ih]

/-- Ids that are in their form, in use by no one before and by one provider each. -/
structure IdsSettled (used : List String) (ps : List LLMProviderOptions) : Prop where
  stripped : ∀ p ∈ ps, strip p.providerId = p.providerId ∧ p.providerId ≠ ""
  unused : ∀ p ∈ ps, p.providerId ∉ used
  nodup : (ps.map LLMProviderOptions.providerId).Nodup

omit [LetterTables] in
theorem IdsSettled.tail {used : List String} {p : LLMProviderOptions} {ps : List LLMProviderOptions}
    (h : IdsSettled used (p::ps)) : IdsSettled (p.providerId::used) ps := by
  obtain ⟨hnot,hnodup⟩ := List.nodup_cons.mp h.nodup
  refine ⟨(List.forall_mem_cons.mp h.stripped).2,fun q hq hmem => ?_,hnodup⟩
  rcases List.mem_cons.mp hmem with heq | hmem
  · exact hnot (heq ▸ List.mem_map_of_mem hq)
  · exact (List.forall_mem_cons.mp h.unused).2 q hq hmem

/-- Settled ids are kept, whatever a draw would give. -/
theorem validateLLMProviders_of_settled (draws : ℕ → String) (n : ℕ) {used : List String}
    {ps : List LLMProviderOptions} (h : IdsSettled used ps) :
    validateLLMProviders draws n used ps = ps.map validateLLMProvider := by
  induction ps generalizing n used with
  | nil => rfl
  | cons p ps ih =>
    obtain ⟨⟨hstrip,hne⟩,-⟩ := List.forall_mem_cons.mp h.stripped
    obtain ⟨hfree,-⟩ := List.forall_mem_cons.mp h.unused
    have hkept : ¬(strip p.providerId = "" ∨ strip p.providerId ∈ used) := by
      rw [hstrip]
      exact not_or.mpr ⟨hne,hfree⟩
    simp only [validateLLMProviders,if_neg hkept,List.map_cons]
    rw [hstrip,ih (n+1) h.tail]
    rfl

/-- What is assumed of the ids that are drawn: they are new, and they are no blank text. -/
structure FreshDraws (draws : ℕ → String) (ps : List LLMProviderOptions) : Prop where
  injective : Function.Injective draws
  stripped : ∀ n, strip (draws n) = draws n ∧ draws n ≠ ""
  unused : ∀ n, ∀ p ∈ ps, strip p.providerId ≠ draws n

omit [LetterTables] in
theorem FreshDraws.tail {draws : ℕ → String} {p : LLMProviderOptions} {ps : List LLMProviderOptions}
    (h : FreshDraws draws (p::ps)) : FreshDraws draws ps :=
  ⟨h.injective,h.stripped,fun n q hq => h.unused n q (List.mem_cons_of_mem p hq)⟩

theorem validateLLMProviders_settled {draws : ℕ → String} {n : ℕ} {used : List String}
    {ps : List LLMProviderOptions} (h : FreshDraws draws ps) (hused : ∀ k ≥ n, draws k ∉ used) :
    IdsSettled used (validateLLMProviders draws n used ps) := by
  induction ps generalizing n used with
  | nil => exact ⟨fun p hp => absurd hp List.not_mem_nil,fun p hp => absurd hp List.not_mem_nil,List.nodup_nil⟩
  | cons p ps ih =>
    simp only [validateLLMProviders]
    set configured := strip p.providerId
    set providerId := if configured = "" ∨ configured ∈ used then draws n else configured
    have hnew : strip providerId = providerId ∧ providerId ≠ "" ∧ providerId ∉ used := by
      simp only [providerId]
      split
      · exact ⟨(h.stripped n).1,(h.stripped n).2,hused n le_rfl⟩
      · rename_i hkept
        obtain ⟨hne,hfree⟩ := not_or.mp hkept
        exact ⟨strip_strip _,hne,hfree⟩
    have hlater : ∀ k ≥ n+1, draws k ∉ providerId::used := by
      intro k hk hmem
      rcases List.mem_cons.mp hmem with heq | hmem
      · simp only [providerId] at heq
        split at heq
        · have := h.injective heq
          omega
        · exact h.unused k p List.mem_cons_self heq.symm
      · exact hused k (by omega) hmem
    have hrest := ih h.tail hlater
    refine ⟨?_,?_,?_⟩
    · exact List.forall_mem_cons.mpr ⟨⟨hnew.1,hnew.2.1⟩,hrest.stripped⟩
    · refine List.forall_mem_cons.mpr ⟨hnew.2.2,fun q hq hmem => ?_⟩
      exact hrest.unused q hq (List.mem_cons_of_mem _ hmem)
    · rw [List.map_cons]
      refine List.nodup_cons.mpr ⟨fun hmem => ?_,hrest.nodup⟩
      obtain ⟨q,hq,heq⟩ := List.mem_map.mp hmem
      exact hrest.unused q hq (heq ▸ List.mem_cons_self)

/-! Profiles and research providers. -/

omit [LetterTables] in
theorem validateProfile_again (o : PromptProfileOptions) :
    validateProfile (validateProfile o) = validateProfile o := by
  simp [validateProfile,orElse_orElse]

theorem validateResearchProvider_again (o : ResearchProviderOptions) :
    validateResearchProvider (validateResearchProvider o) = validateResearchProvider o := by
  have hurl : strip "https://data.iana.org/rdap/dns.json" = "https://data.iana.org/rdap/dns.json" :=
    strip_ofList (by decide)
  have hbase : ∀ url,
      (if lowered o.kind = "rdap" ∧
          strip (if lowered o.kind = "rdap" ∧ strip url = "" then "https://data.iana.org/rdap/dns.json"
            else strip url) = ""
        then "https://data.iana.org/rdap/dns.json"
        else strip (if lowered o.kind = "rdap" ∧ strip url = "" then
          "https://data.iana.org/rdap/dns.json" else strip url)) =
      if lowered o.kind = "rdap" ∧ strip url = "" then "https://data.iana.org/rdap/dns.json"
        else strip url := by
    intro url
    by_cases hdefault : lowered o.kind = "rdap" ∧ strip url = ""
    · simp [hdefault,hurl]
    · simp only [if_neg hdefault,strip_strip]
  simp only [validateResearchProvider,lowered_lowered,orElse_orElse,strip_strip,hbase,
    max_eq_right (le_max_left _ _)]

theorem lowered_defaultKinds : ∀ p ∈ defaultResearchProviders,
    lowered p.kind = p.kind ∧ p.kind ∈ supportedResearchKinds := by
  have hnames : ∀ p ∈ defaultResearchProviders,
      isName p.kind = true ∧ p.kind ∈ supportedResearchKinds := by
    decide
  exact fun p hp => ⟨lowered_isName (hnames p hp).1,(hnames p hp).2⟩

/-- Every kind is there, and only kinds that are supported are. -/
theorem validateResearchProviders_complete (providers : List ResearchProviderOptions) :
    (∀ p ∈ validateResearchProviders providers,
      validateResearchProvider p = p ∧ lowered p.kind = p.kind ∧ p.kind ∈ supportedResearchKinds) ∧
    ∀ p ∈ defaultResearchProviders, p.kind ∈
      (validateResearchProviders providers).map ResearchProviderOptions.kind := by
  constructor
  · intro p hp
    rw [validateResearchProviders,List.mem_map] at hp
    obtain ⟨q,hq,rfl⟩ := hp
    have hkind : (validateResearchProvider q).kind = lowered q.kind := rfl
    refine ⟨validateResearchProvider_again q,by rw [hkind,lowered_lowered],?_⟩
    rw [hkind]
    rcases List.mem_append.mp hq with hq | hq
    · simpa using (List.mem_filter.mp hq).2
    · obtain ⟨hlowered,hsupported⟩ := lowered_defaultKinds q (List.mem_filter.mp hq).1
      rwa [hlowered]
  · intro p hp
    simp only [validateResearchProviders,List.map_map]
    by_cases hkept : p.kind ∈ (providers.filter fun p => lowered p.kind ∈ supportedResearchKinds).map
        fun q => lowered q.kind
    · rw [List.map_append,List.mem_append]
      exact Or.inl hkept
    · refine List.mem_map.mpr ⟨p,List.mem_append.mpr (Or.inr ?_),(lowered_defaultKinds p hp).1⟩
      exact List.mem_filter.mpr ⟨hp,by simpa using hkept⟩

theorem validateResearchProviders_of_complete {providers : List ResearchProviderOptions}
    (hkinds : ∀ p ∈ providers, lowered p.kind = p.kind ∧ p.kind ∈ supportedResearchKinds)
    (hall : ∀ p ∈ defaultResearchProviders, p.kind ∈ providers.map ResearchProviderOptions.kind) :
    validateResearchProviders providers = providers.map validateResearchProvider := by
  have hkept : (providers.filter fun p => lowered p.kind ∈ supportedResearchKinds) = providers :=
    List.filter_eq_self.mpr fun p hp => by
      obtain ⟨hlowered,hsupported⟩ := hkinds p hp
      simpa [hlowered] using hsupported
  have hsame : (providers.map fun q => lowered q.kind) = providers.map ResearchProviderOptions.kind :=
    List.map_congr_left fun p hp => (hkinds p hp).1
  have hmissing : (defaultResearchProviders.filter fun p =>
      p.kind ∉ providers.map ResearchProviderOptions.kind) = [] :=
    List.filter_eq_nil_iff.mpr fun p hp => by simpa using hall p hp
  simp only [validateResearchProviders,hkept,hsame,hmissing,List.append_nil]

theorem validateResearchProviders_again (providers : List ResearchProviderOptions) :
    validateResearchProviders (validateResearchProviders providers) =
      validateResearchProviders providers := by
  obtain ⟨hall,hdefaults⟩ := validateResearchProviders_complete providers
  rw [validateResearchProviders_of_complete (fun p hp => (hall p hp).2) hdefaults]
  exact (List.map_congr_left fun p hp => (hall p hp).1).trans (List.map_id _)

/-! Pools. -/

theorem validateMembership_again (m : ProviderPoolMembershipOptions) :
    validateMembership (validateMembership m) = validateMembership m := by
  have hrole := oneOf_again ["primary","fallback","verifier"] "primary" lowered (by decide)
    (lowered_names _ (names_cons (by decide) (names_cons (by decide) (names_cons (by decide) rfl))))
      (lowered m.role)
  simp [validateMembership,hrole,strip_strip,within_within]

/-- Each membership that is kept names another of the providers there are. -/
theorem validateMemberships_kept (ids seen : List String) (ms : List ProviderPoolMembershipOptions) :
    (∀ m ∈ validateMemberships ids seen ms, validateMembership m = m ∧
      strip m.providerId = m.providerId ∧ m.providerId ∈ ids ∧ m.providerId ∉ seen) ∧
    ((validateMemberships ids seen ms).map ProviderPoolMembershipOptions.providerId).Nodup := by
  induction ms generalizing seen with
  | nil => exact ⟨fun m hm => absurd hm List.not_mem_nil,List.nodup_nil⟩
  | cons m ms ih =>
    simp only [validateMemberships]
    split
    · exact ih seen
    · rename_i hkept
      obtain ⟨hids,hseen⟩ := not_or.mp hkept
      obtain ⟨hall,hnodup⟩ := ih (strip m.providerId::seen)
      refine ⟨List.forall_mem_cons.mpr ⟨⟨validateMembership_again m,strip_strip _,
        not_not.mp hids,hseen⟩,fun q hq => ?_⟩,?_⟩
      · obtain ⟨hq₁,hq₂,hq₃,hq₄⟩ := hall q hq
        exact ⟨hq₁,hq₂,hq₃,fun hmem => hq₄ (List.mem_cons_of_mem _ hmem)⟩
      · rw [List.map_cons]
        refine List.nodup_cons.mpr ⟨fun hmem => ?_,hnodup⟩
        obtain ⟨q,hq,heq⟩ := List.mem_map.mp hmem
        obtain ⟨-,-,-,hfree⟩ := hall q hq
        exact hfree (heq ▸ List.mem_cons_self)

theorem validateMemberships_of_kept {ids seen : List String} {ms : List ProviderPoolMembershipOptions}
    (h : ∀ m ∈ ms, validateMembership m = m ∧ strip m.providerId = m.providerId ∧
      m.providerId ∈ ids ∧ m.providerId ∉ seen)
    (hnodup : (ms.map ProviderPoolMembershipOptions.providerId).Nodup) :
    validateMemberships ids seen ms = ms := by
  induction ms generalizing seen with
  | nil => rfl
  | cons m ms ih =>
    obtain ⟨⟨hfixed,hstrip,hids,hseen⟩,hrest⟩ := List.forall_mem_cons.mp h
    obtain ⟨hnot,hnodup⟩ := List.nodup_cons.mp hnodup
    have hkept : ¬(strip m.providerId ∉ ids ∨ strip m.providerId ∈ seen) := by
      rw [hstrip]
      exact not_or.mpr ⟨not_not.mpr hids,hseen⟩
    simp only [validateMemberships,if_neg hkept,hfixed]
    rw [hstrip,ih (fun q hq => ?_) hnodup]
    obtain ⟨hq₁,hq₂,hq₃,hq₄⟩ := hrest q hq
    refine ⟨hq₁,hq₂,hq₃,fun hmem => ?_⟩
    rcases List.mem_cons.mp hmem with heq | hmem
    · exact hnot (heq ▸ List.mem_map_of_mem hq)
    · exact hq₄ hmem

/-- What a validated configuration hands to its pools. -/
structure PoolDefaults.Settled (d : PoolDefaults) : Prop where
  active_mem : d.activeProviderId ∈ d.ids
  active_stripped : strip d.activeProviderId = d.activeProviderId
  index : within 0 ((d.profiles : ℤ)-1) d.activeProfileIndex = d.activeProfileIndex

theorem poolMemberships_default {d : PoolDefaults} (hd : d.Settled) :
    poolMemberships d [{ providerId := d.activeProviderId }] =
      [{ providerId := d.activeProviderId }] := by
  have hrole : lowered "primary" = "primary" := lowered_isName (isName_ofList (by decide))
  have hkept : validateMemberships d.ids [] [{ providerId := d.activeProviderId }] =
      [{ providerId := d.activeProviderId }] := by
    refine validateMemberships_of_kept (fun m hm => ?_) (List.nodup_singleton _)
    obtain rfl := List.mem_singleton.mp hm
    refine ⟨?_,hd.active_stripped,hd.active_mem,List.not_mem_nil⟩
    simp [validateMembership,hd.active_stripped,hrole,oneOf,within]
  simp [poolMemberships,hkept]

theorem poolMemberships_again {d : PoolDefaults} (hd : d.Settled)
    (ms : List ProviderPoolMembershipOptions) :
    poolMemberships d (poolMemberships d ms) = poolMemberships d ms := by
  by_cases hempty : (validateMemberships d.ids [] ms).isEmpty = true
  · have hdefault : poolMemberships d ms = [{ providerId := d.activeProviderId }] := if_pos hempty
    rw [hdefault,poolMemberships_default hd]
  · have hsome : poolMemberships d ms = validateMemberships d.ids [] ms := if_neg hempty
    obtain ⟨hall,hnodup⟩ := validateMemberships_kept d.ids [] ms
    rw [hsome,poolMemberships,validateMemberships_of_kept hall hnodup]
    exact if_neg hempty

theorem validatePool_again {d : PoolDefaults} (hd : d.Settled) (o : AnalysisPoolOptions) :
    validatePool d (validatePool d o) = validatePool d o := by
  have hnames := lowered_names ["distribute","fallback","compare","verify"]
    (names_cons (by decide) (names_cons (by decide) (names_cons (by decide) (names_cons (by decide) rfl))))
  have hmode := oneOf_again ["distribute","fallback","compare","verify"]
    (if lowered o.poolId = "realtime" then "fallback" else "distribute") lowered
    (by split <;> decide) hnames (lowered o.mode)
  simp only [validatePool,lowered_lowered,orElse_orElse,hmode,within_within,poolMemberships_again hd]

theorem defaultAnalysisPool_again {d : PoolDefaults} (hd : d.Settled) {poolId : String}
    (hpool : poolId ∈ ["realtime","background"]) :
    validatePool d (defaultAnalysisPool poolId d.activeProviderId d.activeProfileIndex) =
      defaultAnalysisPool poolId d.activeProviderId d.activeProfileIndex := by
  have hid := lowered_names ["realtime","background"]
    (names_cons (by decide) (names_cons (by decide) rfl)) poolId hpool
  have hfallback : lowered "fallback" = "fallback" := lowered_isName (isName_ofList (by decide))
  have hdistribute : lowered "distribute" = "distribute" := lowered_isName (isName_ofList (by decide))
  simp only [validatePool,defaultAnalysisPool,hid,hd.index,poolMemberships_default hd]
  split <;> simp [hfallback,hdistribute,oneOf,orElse,within]

theorem poolFor_poolId (d : PoolDefaults) (pools : List AnalysisPoolOptions) (poolId : String) :
    (poolFor d pools poolId).poolId = poolId := by
  simp only [poolFor]
  split
  · rename_i pool hpool
    have hid : lowered pool.poolId = poolId := by simpa using List.find?_some hpool
    exact hid
  · rfl

theorem poolFor_again {d : PoolDefaults} (hd : d.Settled) {poolId : String}
    (hpool : poolId ∈ ["realtime","background"]) (pools : List AnalysisPoolOptions) :
    validatePool d (poolFor d pools poolId) = poolFor d pools poolId := by
  simp only [poolFor]
  split
  · exact validatePool_again hd _
  · exact defaultAnalysisPool_again hd hpool

/-! The whole. -/

theorem length_validateLLMProviders (draws : ℕ → String) (n : ℕ) (used : List String)
    (ps : List LLMProviderOptions) : (validateLLMProviders draws n used ps).length = ps.length := by
  induction ps generalizing n used with
  | nil => rfl
  | cons p ps ih => simp only [validateLLMProviders,List.length_cons,ih]

theorem validate_providers_ne_nil (draws : ℕ → String) (o : Options) :
    (validate draws o).llmProviders ≠ [] := by
  have hlength : (validate draws o).llmProviders.length = (providersOr draws o.llmProviders).length :=
    length_validateLLMProviders _ _ _ _
  rw [← List.length_pos_iff,hlength,providersOr]
  split
  · simp
  · rename_i h
    exact List.length_pos_iff.mpr (by simpa using h)

theorem validate_ids_settled {draws : ℕ → String} {o : Options}
    (h : FreshDraws draws o.llmProviders) : IdsSettled [] (validate draws o).llmProviders := by
  show IdsSettled [] (validateLLMProviders draws 0 [] (providersOr draws o.llmProviders))
  simp only [providersOr]
  split
  · obtain ⟨hstrip,hne⟩ := h.stripped 0
    simp only [validateLLMProviders,hstrip,List.not_mem_nil,or_false,if_neg hne]
    exact ⟨by simp [hstrip,hne],by simp,by simp⟩
  · exact validateLLMProviders_settled h fun _ _ => List.not_mem_nil

theorem validate_profiles_ne_nil (draws : ℕ → String) (o : Options) :
    (validate draws o).promptProfiles ≠ [] := by
  show (profilesOr o.promptProfiles).map validateProfile ≠ []
  simp only [profilesOr]
  split
  · simp
  · rename_i h
    simpa using h

/-- The ids and the active provider that the pools of a validated configuration are given. -/
theorem poolDefaults_settled {providers : List LLMProviderOptions} {profiles : ℕ} {o : LLMOptions}
    (hne : providers ≠ []) (hids : IdsSettled [] providers) :
    (poolDefaults providers profiles (validateLLM providers.length profiles o)).Settled := by
  have hlength : 0 < providers.length := List.length_pos_iff.mpr hne
  have hindex : (validateLLM providers.length profiles o).activeProviderIndex.toNat < providers.length := by
    show (within 0 ((providers.length : ℤ)-1) o.activeProviderIndex).toNat < providers.length
    have hle : within 0 ((providers.length : ℤ)-1) o.activeProviderIndex ≤ (providers.length : ℤ)-1 :=
      min_le_left _ _
    omega
  have hactive : (poolDefaults providers profiles (validateLLM providers.length profiles o)).activeProviderId =
      providers[(validateLLM providers.length profiles o).activeProviderIndex.toNat].providerId := by
    simp only [poolDefaults,List.getElem?_eq_getElem hindex,Option.map_some,Option.getD_some]
  have hmem := List.getElem_mem hindex
  refine ⟨?_,?_,within_within _ _ _⟩
  · rw [hactive]
    exact List.mem_map_of_mem hmem
  · rw [hactive]
    exact (hids.stripped _ hmem).1

/-- What `_validate` trims is not left with a blank at its end, and no text that stands for a
default is blank. -/
structure Stable (o : Options) : Prop where
  bindHost : strip o.externalTrigger.bindHost = "" → o.externalTrigger.bindHost = ""
  registryUrl : strip o.providerRegistry.registryUrl = "" → o.providerRegistry.registryUrl = ""
  signatureUrl : strip o.providerRegistry.signatureUrl = "" → o.providerRegistry.signatureUrl = ""
  suffixes : ∀ s ∈ o.scans.excludedDomainSuffixes, SuffixSettles s
  urls : ∀ p ∈ o.llmProviders, UrlSettles p.baseUrl

omit [LetterTables] in
theorem urlSettles_providersOr (draws : ℕ → String) (ps : List LLMProviderOptions) :
    (∀ p ∈ providersOr draws ps, UrlSettles p.baseUrl) ↔ ∀ p ∈ ps, UrlSettles p.baseUrl := by
  simp only [providersOr]
  split
  · rename_i h
    have hempty : UrlSettles "" := by
      show endsIn isSpace (rstripSlashes (strip "")) = false
      decide
    have hnil : ps = [] := by simpa using h
    simp [hnil,hempty]
  · rfl

/-- The pass over the providers of a validated configuration. -/
theorem validate_providers {draws draws' : ℕ → String} {o : Options}
    (h : FreshDraws draws o.llmProviders) :
    (validate draws' (validate draws o)).llmProviders =
      (validate draws o).llmProviders.map validateLLMProvider := by
  have hsome : providersOr draws' (validate draws o).llmProviders = (validate draws o).llmProviders :=
    if_neg (by simpa using validate_providers_ne_nil draws o)
  show validateLLMProviders draws' 0 [] (providersOr draws' (validate draws o).llmProviders) = _
  rw [hsome]
  exact validateLLMProviders_of_settled draws' 0 (validate_ids_settled h)

theorem validate_providers_fixed_iff (draws : ℕ → String) (o : Options) :
    (validate draws o).llmProviders.map validateLLMProvider = (validate draws o).llmProviders ↔
      ∀ p ∈ o.llmProviders, UrlSettles p.baseUrl := by
  rw [← urlSettles_providersOr draws,← validateLLMProviders_again_iff draws 0 []]
  conv_lhs => rhs; rw [← List.map_id (validate draws o).llmProviders]
  exact List.map_inj_left

theorem validate_profiles_again (draws draws' : ℕ → String) (o : Options) :
    (validate draws' (validate draws o)).promptProfiles = (validate draws o).promptProfiles := by
  have hsome : profilesOr (validate draws o).promptProfiles = (validate draws o).promptProfiles :=
    if_neg (by simpa using validate_profiles_ne_nil draws o)
  show (profilesOr (validate draws o).promptProfiles).map validateProfile = _
  rw [hsome]
  show ((profilesOr o.promptProfiles).map validateProfile).map validateProfile =
    (profilesOr o.promptProfiles).map validateProfile
  rw [List.map_map]
  exact List.map_congr_left fun p _ => validateProfile_again p

/-- The pools of a validated configuration, given what they were given. -/
theorem poolFor_pools {d : PoolDefaults} (hd : d.Settled) (pools : List AnalysisPoolOptions) :
    poolFor d [poolFor d pools "realtime",poolFor d pools "background"] "realtime" =
      poolFor d pools "realtime" ∧
    poolFor d [poolFor d pools "realtime",poolFor d pools "background"] "background" =
      poolFor d pools "background" := by
  have hnames := lowered_names ["realtime","background"]
    (names_cons (by decide) (names_cons (by decide) rfl))
  have hrealtime : lowered (poolFor d pools "realtime").poolId = "realtime" := by
    rw [poolFor_poolId,hnames _ (by decide)]
  have hbackground : lowered (poolFor d pools "background").poolId = "background" := by
    rw [poolFor_poolId,hnames _ (by decide)]
  constructor
  · rw [poolFor,List.find?_cons_of_pos (by simpa using hrealtime)]
    exact poolFor_again hd (by decide) pools
  · rw [poolFor,List.find?_cons_of_neg (by simp [hrealtime]),
      List.find?_cons_of_pos (by simpa using hbackground)]
    exact poolFor_again hd (by decide) pools

@[simp] theorem validate_externalTrigger (draws : ℕ → String) (o : Options) :
    (validate draws o).externalTrigger = validateExternalTrigger o.externalTrigger := rfl

@[simp] theorem validate_providerRegistry (draws : ℕ → String) (o : Options) :
    (validate draws o).providerRegistry = validateProviderRegistry o.providerRegistry := rfl

@[simp] theorem validate_scans (draws : ℕ → String) (o : Options) :
    (validate draws o).scans = validateScans o.scans := rfl

theorem validate_again_iff {draws : ℕ → String} {o : Options}
    (h : FreshDraws draws o.llmProviders) (draws' : ℕ → String) :
    validate draws' (validate draws o) = validate draws o ↔ Stable o := by
  constructor
  · intro hsame
    have htrigger := congrArg Options.externalTrigger hsame
    have hregistry := congrArg Options.providerRegistry hsame
    have hscans := congrArg Options.scans hsame
    simp only [validate_externalTrigger,validate_providerRegistry,validate_scans] at htrigger hregistry hscans
    have hproviders : (validate draws o).llmProviders.map validateLLMProvider =
        (validate draws o).llmProviders :=
      (validate_providers h).symm.trans (congrArg Options.llmProviders hsame)
    obtain ⟨hregistryUrl,hsignatureUrl⟩ := (validateProviderRegistry_again_iff _).mp hregistry
    exact ⟨(validateExternalTrigger_again_iff _).mp htrigger,hregistryUrl,hsignatureUrl,
      (validateScans_again_iff _).mp hscans,(validate_providers_fixed_iff draws o).mp hproviders⟩
  · intro hstable
    have hproviders : (validate draws' (validate draws o)).llmProviders = (validate draws o).llmProviders :=
      (validate_providers h).trans ((validate_providers_fixed_iff draws o).mpr hstable.urls)
    have hprofiles := validate_profiles_again draws draws' o
    have hllm : (validate draws' (validate draws o)).llm = (validate draws o).llm := by
      show validateLLM (validate draws' (validate draws o)).llmProviders.length
        (validate draws' (validate draws o)).promptProfiles.length (validate draws o).llm = _
      rw [hproviders,hprofiles]
      exact validateLLM_again _ _ o.llm
    have hpools : (validate draws' (validate draws o)).analysisPools = (validate draws o).analysisPools := by
      have hsettled : (poolDefaults (validate draws o).llmProviders
          (validate draws o).promptProfiles.length (validate draws o).llm).Settled :=
        poolDefaults_settled (validate_providers_ne_nil draws o) (validate_ids_settled h)
      obtain ⟨hrealtime,hbackground⟩ := poolFor_pools hsettled o.analysisPools
      show [poolFor (poolDefaults (validate draws' (validate draws o)).llmProviders
          (validate draws' (validate draws o)).promptProfiles.length
          (validate draws' (validate draws o)).llm) (validate draws o).analysisPools "realtime",
        poolFor (poolDefaults (validate draws' (validate draws o)).llmProviders
          (validate draws' (validate draws o)).promptProfiles.length
          (validate draws' (validate draws o)).llm) (validate draws o).analysisPools "background"] = _
      rw [hproviders,hprofiles,hllm]
      exact congrArg₂ (fun p q => [p,q]) hrealtime hbackground
    refine Options.ext rfl (validateLogging_again o.logging) (validateNotify_again o.notify)
      ((validateScans_again_iff o.scans).mpr hstable.suffixes) (validatePihole_again o.pihole) hllm
      (validateResearch_again o.research) (validateUpdates_again o.updates)
      ((validateProviderRegistry_again_iff o.providerRegistry).mpr
        ⟨hstable.registryUrl,hstable.signatureUrl⟩)
      ((validateExternalTrigger_again_iff o.externalTrigger).mpr hstable.bindHost) hproviders hpools
      hprofiles (validateResearchProviders_again o.researchProviders) (validateUI_again o.ui)

end Config
end WormholeObservatory
