import WormholeObservatory.ConfigFile
import WormholeObservatory.ConfigFixpoint

/-! From a configuration to the file and back, with a store that answers every access. The file
holds the validated configuration without its secrets; what the way back does to it beyond
`_validate` are three steps of `_migrate` and the shared keys of sources of one kind. -/
namespace WormholeObservatory
namespace Config

/-! The secrets. -/

def always : ℕ → Bool := fun _ => true

def reachable : Accesses := ⟨always,always,always⟩

/-- No process has met a store that was away. -/
def Undisturbed (vault : Vault) : Prop := ∀ k, vault.readStates k ≠ some .unavailable

/-- What a round of saves leaves in a store that answers: of slots with one key the last counts. -/
def lastValues (secrets : String → String) (slots : List (String × String)) : String → String :=
  slots.foldl (fun m e => Function.update m e.1 e.2) secrets

theorem secureSlot_always (n : ℕ) {vault : Vault} (hvault : Undisturbed vault) (key value : String) :
    (secureSlot always n vault key value).1 = "" ∧
    (secureSlot always n vault key value).2.secrets = Function.update vault.secrets key value ∧
    Undisturbed (secureSlot always n vault key value).2 := by
  have hset : ∀ state : CredentialReadState, state ≠ .unavailable → ∀ k,
      Function.update vault.readStates key (some state) k ≠ some .unavailable := by
    intro state hstate k
    by_cases hk : k = key
    · rw [hk,Function.update_self]
      exact fun h => hstate (Option.some.inj h)
    · rw [Function.update_of_ne hk]
      exact hvault k
  by_cases hvalue : value = ""
  · subst hvalue
    by_cases hmissing : vault.secrets key = ""
    · have hsame : Function.update vault.secrets key "" = vault.secrets := by
        rw [← hmissing,Function.update_eq_self]
      simp [secureSlot,deleteSecret,hmissing,hsame,hvault]
    · have hgone : ¬(vault.readStates key = some .unavailable ∨ always n = false ∨
          vault.secrets key = "") := by
        simp [hvault key,always,hmissing]
      simp only [secureSlot,ne_eq,not_true_eq_false,if_false,deleteSecret,if_neg hgone,true_and]
      exact hset .missing (by decide)
  · simp only [secureSlot,ne_eq,hvalue,not_false_eq_true,if_true,writeSecret,always,true_and]
    exact hset .present (by decide)

theorem secure_always (n : ℕ) {vault : Vault} (hvault : Undisturbed vault) (slots : List (String × String)) :
    (Slots.visit (secureSlot always) n vault slots).1 = slots.map (fun e => (e.1,"")) ∧
    (Slots.visit (secureSlot always) n vault slots).2.secrets = lastValues vault.secrets slots := by
  induction slots generalizing n vault with
  | nil => exact ⟨rfl,rfl⟩
  | cons e slots ih =>
    obtain ⟨hpayload,hsecrets,hnext⟩ := secureSlot_always n hvault e.1 e.2
    obtain ⟨hrest,hlast⟩ := ih (n+1) hnext
    refine ⟨?_,?_⟩
    · simp only [Slots.visit,List.map_cons,hrest,hpayload]
    · simp only [Slots.visit,hlast,hsecrets]
      rfl

theorem hydrateSlot_always (n : ℕ) (vault : Vault) (copied : Bool) (key : String) :
    (hydrateSlot always always n (vault,copied) key "").1 = vault.secrets key ∧
    (hydrateSlot always always n (vault,copied) key "").2.1.secrets = vault.secrets ∧
    (hydrateSlot always always n (vault,copied) key "").2.2 = copied := by
  by_cases hmissing : vault.secrets key = ""
  · simp [hydrateSlot,readSecret,always,hmissing]
  · simp [hydrateSlot,readSecret,always,hmissing]

theorem hydrate_always (n : ℕ) (vault : Vault) (copied : Bool) (slots : List (String × String))
    (hplain : ∀ e ∈ slots, e.2 = "") :
    (Slots.visit (hydrateSlot always always) n (vault,copied) slots).1 =
      slots.map (fun e => (e.1,vault.secrets e.1)) ∧
    (Slots.visit (hydrateSlot always always) n (vault,copied) slots).2.2 = copied := by
  induction slots generalizing n vault copied with
  | nil => exact ⟨rfl,rfl⟩
  | cons e slots ih =>
    obtain ⟨he,hplain⟩ := List.forall_mem_cons.mp hplain
    obtain ⟨hvalue,hsecrets,hcopied⟩ := hydrateSlot_always n vault copied e.1
    obtain ⟨hrest,hflag⟩ := ih (n+1) (hydrateSlot always always n (vault,copied) e.1 "").2.1
      (hydrateSlot always always n (vault,copied) e.1 "").2.2 hplain
    simp only [Slots.visit,List.map_cons,he]
    refine ⟨?_,hflag.trans hcopied⟩
    rw [hvalue]
    refine congrArg₂ List.cons rfl (hrest.trans ?_)
    rw [hsecrets]

theorem lastValues_of_agree {secrets : String → String} {slots : List (String × String)} {k v : String}
    (hagree : ∀ e ∈ slots, e.1 = k → e.2 = v) (hk : k ∈ slots.map Prod.fst ∨ secrets k = v) :
    lastValues secrets slots k = v := by
  induction slots generalizing secrets with
  | nil => exact hk.resolve_left List.not_mem_nil
  | cons e slots ih =>
    obtain ⟨he,hrest⟩ := List.forall_mem_cons.mp hagree
    refine @ih (Function.update secrets e.1 e.2) hrest ?_
    by_cases heq : e.1 = k
    · rw [heq,Function.update_self,he heq]
      exact Or.inr rfl
    · rw [Function.update_of_ne (Ne.symm heq)]
      rcases hk with hmem | hsecret
      · rw [List.map_cons,List.mem_cons] at hmem
        exact Or.inl (hmem.resolve_left (Ne.symm heq))
      · exact Or.inr hsecret

/-- Every slot gets its value back if and only if slots with one key have one value. -/
theorem lastValues_eq_iff (secrets : String → String) (slots : List (String × String)) :
    (∀ e ∈ slots, lastValues secrets slots e.1 = e.2) ↔
      ∀ e ∈ slots, ∀ e' ∈ slots, e.1 = e'.1 → e.2 = e'.2 := by
  constructor
  · intro h e he e' he' hkey
    rw [← h e he,hkey,h e' he']
  · intro h e he
    exact lastValues_of_agree (fun e' he' hkey => h e' he' e he hkey)
      (Or.inl (List.mem_map_of_mem he))

section RoundTrip

variable [LetterTables]

/-! The file without its secrets. -/

theorem validateLLMProviders_withoutKeys (draws : ℕ → String) (n : ℕ) (used : List String)
    (ps : List LLMProviderOptions) :
    validateLLMProviders draws n used (ps.map fun p => p.withApiKey "") =
      (validateLLMProviders draws n used ps).map fun p => p.withApiKey "" := by
  have hblank : strip "" = "" := strip_ofList (by decide)
  induction ps generalizing n used with
  | nil => rfl
  | cons p ps ih =>
    simp only [List.map_cons,validateLLMProviders,LLMProviderOptions.withApiKey] at ih ⊢
    rw [ih]
    simp only [validateLLMProvider,hblank]

theorem validateResearchProviders_withoutKeys (ps : List ResearchProviderOptions) :
    validateResearchProviders (ps.map fun p => p.withApiKey "") =
      (validateResearchProviders ps).map fun p => p.withApiKey "" := by
  have hblank : strip "" = "" := strip_ofList (by decide)
  have hdefaults : ∀ p ∈ defaultResearchProviders, p.withApiKey "" = p := by
    have hkeys : ∀ p ∈ defaultResearchProviders, p.apiKey = "" := by decide
    intro p hp
    have hkey := hkeys p hp
    cases p
    simp_all [ResearchProviderOptions.withApiKey]
  have hone : ∀ p : ResearchProviderOptions,
      validateResearchProvider (p.withApiKey "") = (validateResearchProvider p).withApiKey "" := by
    intro p
    simp only [validateResearchProvider,ResearchProviderOptions.withApiKey,hblank]
    rfl
  have hkept : (ps.map fun p => p.withApiKey "").filter (fun p => lowered p.kind ∈ supportedResearchKinds) =
      (ps.filter fun p => lowered p.kind ∈ supportedResearchKinds).map fun p => p.withApiKey "" := by
    rw [List.filter_map]
    rfl
  have hkinds : ((ps.filter fun p => lowered p.kind ∈ supportedResearchKinds).map
      fun p => p.withApiKey "").map (fun q => lowered q.kind) =
      (ps.filter fun p => lowered p.kind ∈ supportedResearchKinds).map fun q => lowered q.kind := by
    rw [List.map_map]
    rfl
  simp only [validateResearchProviders,hkept,hkinds,List.map_append,List.map_map]
  refine congrArg₂ List.append (List.map_congr_left fun p _ => hone p)
    (List.map_congr_left fun p hp => ?_)
  have hdefault := hdefaults p (List.mem_filter.mp hp).1
  rw [Function.comp_apply,← hone,hdefault]

omit [LetterTables] in
theorem poolDefaults_withoutKeys (ps : List LLMProviderOptions) (profiles : ℕ) (llm : LLMOptions) :
    poolDefaults (ps.map fun p => p.withApiKey "") profiles llm = poolDefaults ps profiles llm := by
  simp only [poolDefaults,List.map_map,List.getElem?_map,Option.map_map]
  rfl

theorem validate_withoutSecrets (draws : ℕ → String) (o : Options) :
    validate draws (withoutSecrets o) = withoutSecrets (validate draws o) := by
  have hsome : providersOr draws (o.llmProviders.map fun p => p.withApiKey "") =
      (providersOr draws o.llmProviders).map fun p => p.withApiKey "" := by
    simp only [providersOr,List.isEmpty_map]
    split <;> rfl
  have hproviders : (validate draws (withoutSecrets o)).llmProviders =
      (validate draws o).llmProviders.map fun p => p.withApiKey "" := by
    show validateLLMProviders draws 0 [] (providersOr draws (o.llmProviders.map fun p => p.withApiKey "")) = _
    rw [hsome,validateLLMProviders_withoutKeys]
    rfl
  have hllm : (validate draws (withoutSecrets o)).llm = (validate draws o).llm := by
    show validateLLM (validate draws (withoutSecrets o)).llmProviders.length
      (validate draws o).promptProfiles.length o.llm = _
    rw [hproviders,List.length_map]
    rfl
  have hpools : (validate draws (withoutSecrets o)).analysisPools = (validate draws o).analysisPools := by
    show [poolFor (poolDefaults (validate draws (withoutSecrets o)).llmProviders
        (validate draws o).promptProfiles.length (validate draws (withoutSecrets o)).llm)
        o.analysisPools "realtime",
      poolFor (poolDefaults (validate draws (withoutSecrets o)).llmProviders
        (validate draws o).promptProfiles.length (validate draws (withoutSecrets o)).llm)
        o.analysisPools "background"] = _
    rw [hllm,hproviders,poolDefaults_withoutKeys]
    rfl
  exact Options.ext rfl rfl rfl rfl rfl hllm rfl rfl rfl rfl hproviders hpools rfl
    (validateResearchProviders_withoutKeys o.researchProviders) rfl

/-! What `_migrate` does to a validated configuration. -/

omit [LetterTables] in
theorem migrateLLMProviders_of_settled (digest : String → String) (index : ℕ) {used : List String}
    {ps : List LLMProviderOptions} (h : IdsSettled used ps) :
    migrateLLMProviders digest index used ps = ps := by
  induction ps generalizing index used with
  | nil => rfl
  | cons p ps ih =>
    obtain ⟨⟨hstrip,hne⟩,-⟩ := List.forall_mem_cons.mp h.stripped
    obtain ⟨hfree,-⟩ := List.forall_mem_cons.mp h.unused
    have hid : migratedProviderId digest index used p = p.providerId := by
      simp only [migratedProviderId,hstrip]
      exact if_pos ⟨hne,hfree⟩
    simp only [migrateLLMProviders,hid]
    rw [ih (index+1) h.tail]

theorem poolMemberships_mem {d : PoolDefaults} (hd : d.Settled) (ms : List ProviderPoolMembershipOptions) :
    ∀ m ∈ poolMemberships d ms, strip m.providerId ∈ d.ids := by
  intro m hm
  simp only [poolMemberships] at hm
  split at hm
  · obtain rfl := List.mem_singleton.mp hm
    rw [hd.active_stripped]
    exact hd.active_mem
  · obtain ⟨-,hstrip,hids,-⟩ := (validateMemberships_kept d.ids [] ms).1 m hm
    rwa [hstrip]

theorem poolFor_memberships {d : PoolDefaults} (hd : d.Settled) (pools : List AnalysisPoolOptions)
    (poolId : String) : ∀ m ∈ (poolFor d pools poolId).memberships, strip m.providerId ∈ d.ids := by
  simp only [poolFor]
  split
  · exact poolMemberships_mem hd _
  · intro m hm
    obtain rfl := List.mem_singleton.mp hm
    rw [hd.active_stripped]
    exact hd.active_mem

/-- Pools that are complete and whose members are there stay as they are. -/
theorem migratePools_of_complete {providers : List LLMProviderOptions} (llm : LLMOptions)
    {pools : List AnalysisPoolOptions}
    (hmembers : ∀ p ∈ pools, ∀ m ∈ p.memberships,
      strip m.providerId ∈ providers.map LLMProviderOptions.providerId)
    (hpools : ∀ poolId ∈ ["realtime","background"], poolId ∈ pools.map fun p => lowered p.poolId) :
    migratePools providers llm pools = pools := by
  have hkept : (pools.map fun pool => { pool with
      memberships := pool.memberships.filter fun m =>
        strip m.providerId ∈ providers.map LLMProviderOptions.providerId }) = pools := by
    refine (List.map_congr_left fun p hp => ?_).trans (List.map_id _)
    have hall : (p.memberships.filter fun m =>
        strip m.providerId ∈ providers.map LLMProviderOptions.providerId) = p.memberships :=
      List.filter_eq_self.mpr fun m hm => by simpa using hmembers p hp m hm
    rw [hall]
    rfl
  have hmissing : (["realtime","background"].filter fun poolId =>
      poolId ∉ pools.map fun p => lowered p.poolId) = [] :=
    List.filter_eq_nil_iff.mpr fun poolId hid => by simpa using hpools poolId hid
  simp only [migratePools,hkept,hmissing,List.map_nil,List.append_nil]

theorem migrateResearchProviders_of_complete {providers : List ResearchProviderOptions}
    (hkinds : ∀ p ∈ providers, lowered p.kind = p.kind ∧ p.kind ∈ supportedResearchKinds)
    (hall : ∀ p ∈ defaultResearchProviders, p.kind ∈ providers.map ResearchProviderOptions.kind) :
    migrateResearchProviders providers = providers := by
  have hkept : (providers.filter fun p => lowered p.kind ∈ supportedResearchKinds) = providers :=
    List.filter_eq_self.mpr fun p hp => by
      obtain ⟨hlowered,hsupported⟩ := hkinds p hp
      simpa [hlowered] using hsupported
  have hsame : (providers.map fun p => { p with kind := lowered p.kind }) = providers := by
    refine (List.map_congr_left fun p hp => ?_).trans (List.map_id _)
    rw [(hkinds p hp).1]
    rfl
  have hmissing : (defaultResearchProviders.filter fun p =>
      p.kind ∉ providers.map ResearchProviderOptions.kind) = [] :=
    List.filter_eq_nil_iff.mpr fun p hp => by simpa using hall p hp
  simp only [migrateResearchProviders,hkept,hsame,hmissing,List.append_nil]

/-- Of a validated configuration `_migrate` touches the columns of the review table and the
texts of profiles, nothing else. -/
theorem migrate_validate {draws : ℕ → String} {o : Options} (h : FreshDraws draws o.llmProviders)
    (digest : String → String) (draws' : ℕ → String) :
    migrate digest draws' (validate draws o) =
      .ok { validate draws o with
        ui := migrateUI (validate draws o).ui
        promptProfiles := (validate draws o).promptProfiles.map migrateProfile } := by
  have hids := validate_ids_settled h
  have hne := validate_providers_ne_nil draws o
  have hproviders := migrateLLMProviders_of_settled digest 0 hids
  have hsettled : (poolDefaults (validate draws o).llmProviders
      (validate draws o).promptProfiles.length (validate draws o).llm).Settled :=
    poolDefaults_settled hne hids
  have hpools : migratePools (validate draws o).llmProviders (validate draws o).llm
      (validate draws o).analysisPools = (validate draws o).analysisPools := by
    have hnames := lowered_names ["realtime","background"]
      (names_cons (by decide) (names_cons (by decide) rfl))
    refine migratePools_of_complete _ (fun p hp => ?_) (fun poolId hid => ?_)
    · rcases List.mem_cons.mp hp with rfl | hp
      · exact poolFor_memberships hsettled o.analysisPools "realtime"
      · obtain rfl := List.mem_singleton.mp hp
        exact poolFor_memberships hsettled o.analysisPools "background"
    · refine List.mem_map.mpr ⟨poolFor (poolDefaults (validate draws o).llmProviders
        (validate draws o).promptProfiles.length (validate draws o).llm) o.analysisPools poolId,?_,?_⟩
      · rcases List.mem_cons.mp hid with rfl | hid
        · exact List.mem_cons_self
        · obtain rfl := List.mem_singleton.mp hid
          exact List.mem_cons_of_mem _ List.mem_cons_self
      · rw [poolFor_poolId,hnames poolId hid]
  have hresearch : migrateResearchProviders (validate draws o).researchProviders =
      (validate draws o).researchProviders := by
    obtain ⟨hall,hdefaults⟩ := validateResearchProviders_complete o.researchProviders
    exact migrateResearchProviders_of_complete (fun p hp => (hall p hp).2) hdefaults
  have hlogging : migrateLogging (validate draws o).logging = (validate draws o).logging := by
    show migrateLogging (validateLogging o.logging) = validateLogging o.logging
    simp [migrateLogging,validateLogging,orElse_orElse]
  have hpihole : migratePihole (validate draws o).pihole = (validate draws o).pihole := by
    show migratePihole (validatePihole o.pihole) = validatePihole o.pihole
    simp [migratePihole,validatePihole,orElse_orElse,strip_strip]
  have hversion : ¬(validate draws o).schemaVersion > currentSchemaVersion := lt_irrefl _
  have hsome : ¬(validate draws o).llmProviders.isEmpty = true := by simpa using hne
  simp only [migrate,if_neg hversion,hproviders,if_neg hsome,hpools,hresearch,hlogging,hpihole]
  rfl

/-! The columns of the review table. -/

/-- If the columns chosen for the review table show anything, they show the two newer ones. -/
def ReviewKept (o : UIOptions) : Prop :=
  ∀ columns, o.tableVisibleColumns.get? "review" = some columns →
    (∃ c ∈ columns, c ∈ (tableWidths "review").keys) → "order" ∈ columns ∧ "queued" ∈ columns

section Columns

omit [LetterTables]

theorem mem_insertColumn {column c : String} {position : ℕ} {columns : List String} :
    c ∈ insertColumn column position columns ↔ c = column ∨ c ∈ columns := by
  simp only [insertColumn]
  split
  · rename_i hmem
    exact ⟨Or.inr,fun h => h.elim (fun heq => heq ▸ hmem) id⟩
  · exact List.mem_insertIdx (min_le_right _ _)

theorem mem_migrateColumns {c : String} {columns : List String} :
    c ∈ migrateColumns columns ↔ c = "queued" ∨ c = "order" ∨ c ∈ columns := by
  rw [migrateColumns,mem_insertColumn,mem_insertColumn]

theorem migrateColumns_eq_iff {columns : List String} :
    migrateColumns columns = columns ↔ "order" ∈ columns ∧ "queued" ∈ columns := by
  constructor
  · intro h
    rw [← h]
    exact ⟨mem_migrateColumns.mpr (Or.inr (Or.inl rfl)),mem_migrateColumns.mpr (Or.inl rfl)⟩
  · rintro ⟨horder,hqueued⟩
    have hfirst : insertColumn "order" 1 columns = columns := if_pos horder
    rw [migrateColumns,hfirst]
    exact if_pos hqueued

theorem migrateReview_of_get? {tables : OrderedDict String (List String)} {columns : List String}
    (h : tables.get? "review" = some columns) (hne : columns ≠ []) :
    migrateReview tables = tables.set "review" (migrateColumns columns) := by
  simp only [migrateReview,h,Option.getD_some,if_neg hne]

theorem migrateReview_eq_self {tables : OrderedDict String (List String)} {columns : List String}
    (h : tables.get? "review" = some columns) (horder : "order" ∈ columns) (hqueued : "queued" ∈ columns) :
    migrateReview tables = tables := by
  rw [migrateReview_of_get? h (List.ne_nil_of_mem horder),
    migrateColumns_eq_iff.mpr ⟨horder,hqueued⟩,OrderedDict.set_of_get? h]

theorem get?_visible (tables : OrderedDict String (List String)) :
    (tables.setEach validateVisible tableKeys).get? "review" =
      some (validateVisible "review" (tables.get? "review")) := by
  rw [OrderedDict.get?_setEach (by decide),if_pos (by decide)]

theorem validateVisible_review_iff (tables : OrderedDict String (List String)) :
    ("order" ∈ validateVisible "review" (tables.get? "review") ∧
      "queued" ∈ validateVisible "review" (tables.get? "review")) ↔
    ∀ columns, tables.get? "review" = some columns →
      (∃ c ∈ columns, c ∈ (tableWidths "review").keys) → "order" ∈ columns ∧ "queued" ∈ columns := by
  have hdefault : ∀ c ∈ ["order","queued"],
      c ∈ (defaultVisibleColumns.get? "review").getD [] ∧ c ∈ (tableWidths "review").keys := by
    decide
  obtain ⟨⟨horder,horderKnown⟩,hqueued,hqueuedKnown⟩ :=
    And.intro (hdefault "order" (by decide)) (hdefault "queued" (by decide))
  cases hreview : tables.get? "review" with
  | none =>
    have hall : validateVisible "review" none = (defaultVisibleColumns.get? "review").getD [] := by
      decide
    rw [hall]
    simp [horder,hqueued]
  | some columns =>
    by_cases hshown : ∃ c ∈ columns, c ∈ (tableWidths "review").keys
    · obtain ⟨c,hc,hknown⟩ := hshown
      have hne : columns.filter (· ∈ (tableWidths "review").keys) ≠ [] :=
        List.ne_nil_of_mem (List.mem_filter.mpr ⟨hc,by simpa using hknown⟩)
      have hvisible : validateVisible "review" (some columns) =
          columns.filter (· ∈ (tableWidths "review").keys) := if_neg hne
      rw [hvisible,List.mem_filter,List.mem_filter]
      constructor
      · rintro ⟨⟨h₁,-⟩,h₂,-⟩ columns' hcolumns -
        obtain rfl := Option.some.inj hcolumns
        exact ⟨h₁,h₂⟩
      · intro h
        obtain ⟨h₁,h₂⟩ := h columns rfl ⟨c,hc,hknown⟩
        exact ⟨⟨h₁,by simpa using horderKnown⟩,h₂,by simpa using hqueuedKnown⟩
    · have hnone : columns.filter (· ∈ (tableWidths "review").keys) = [] :=
        List.filter_eq_nil_iff.mpr fun c hc hknown => hshown ⟨c,hc,by simpa using hknown⟩
      have hvisible : validateVisible "review" (some columns) =
          (defaultVisibleColumns.get? "review").getD [] := if_pos hnone
      rw [hvisible]
      refine ⟨fun _ columns' hcolumns hshown' => ?_,fun _ => ⟨horder,hqueued⟩⟩
      obtain rfl := Option.some.inj hcolumns
      exact absurd hshown' hshown

end Columns

omit [LetterTables] in
theorem reviewTable : "review" ∈ tableKeys := by decide

theorem migrateUI_again_iff (o : UIOptions) :
    validateUI (migrateUI (validateUI o)) = validateUI o ↔ ReviewKept o := by
  have hvisible := get?_visible o.tableVisibleColumns
  rw [ReviewKept,← validateVisible_review_iff]
  set shown := validateVisible "review" (o.tableVisibleColumns.get? "review")
  obtain ⟨hne,hknown⟩ := validateVisible_known reviewTable (o.tableVisibleColumns.get? "review")
  have hknown := List.filter_eq_self.mp hknown
  constructor
  · intro h
    have hmigrated : (migrateUI (validateUI o)).tableVisibleColumns.get? "review" =
        some (migrateColumns shown) := by
      have hset : (migrateUI (validateUI o)).tableVisibleColumns =
          (validateUI o).tableVisibleColumns.set "review" (migrateColumns shown) :=
        migrateReview_of_get? hvisible hne
      rw [hset,OrderedDict.get?_set,if_pos rfl]
    have hall : ∀ c ∈ migrateColumns shown, c ∈ (tableWidths "review").keys := by
      intro c hc
      rcases mem_migrateColumns.mp hc with rfl | rfl | hc
      · decide
      · decide
      · simpa using hknown c hc
    have hkept : validateVisible "review" (some (migrateColumns shown)) = migrateColumns shown := by
      have hfilter : (migrateColumns shown).filter (· ∈ (tableWidths "review").keys) =
          migrateColumns shown := List.filter_eq_self.mpr fun c hc => by simpa using hall c hc
      have hsome : migrateColumns shown ≠ [] :=
        List.ne_nil_of_mem (mem_migrateColumns.mpr (Or.inl rfl))
      simp only [validateVisible,Option.getD_some,hfilter,if_neg hsome]
    have hcolumns := get?_visible (migrateUI (validateUI o)).tableVisibleColumns
    rw [hmigrated,hkept] at hcolumns
    have hsame := congrArg (fun u : UIOptions => u.tableVisibleColumns.get? "review") h
    exact migrateColumns_eq_iff.mp (Option.some.inj (hcolumns.symm.trans (hsame.trans hvisible)))
  · rintro ⟨horder,hqueued⟩
    have horderTable : migrateReview (validateUI o).tableColumnOrder = (validateUI o).tableColumnOrder := by
      have hget : (validateUI o).tableColumnOrder.get? "review" =
          some (validateOrder "review" (o.tableColumnOrder.get? "review")) := by
        show (o.tableColumnOrder.setEach validateOrder tableKeys).get? "review" = _
        rw [OrderedDict.get?_setEach (by decide),if_pos (by decide)]
      exact migrateReview_eq_self hget ((mem_validateOrder _ _ _).mpr (by decide))
        ((mem_validateOrder _ _ _).mpr (by decide))
    have hvisibleTable : migrateReview (validateUI o).tableVisibleColumns =
        (validateUI o).tableVisibleColumns := migrateReview_eq_self hvisible horder hqueued
    have hsame : migrateUI (validateUI o) = validateUI o := by
      rw [migrateUI,horderTable,hvisibleTable]
    rw [hsame,validateUI_again]

/-! The texts of profiles. -/

/-- No profile under the first name has a text that was once the default. -/
def PromptsKept (profiles : List PromptProfileOptions) : Prop :=
  ∀ p ∈ profiles, lowered p.name = "balanced" → strip p.system ∉ knownDefaultSystems

section

omit [LetterTables]

set_option maxRecDepth 20000 in
/-- The present default is no former one, also not but for blanks. -/
theorem defaultSystem_new : strip defaultSystem ∉ knownDefaultSystems := by
  have hdefault : defaultSystem.toList.countP (fun c => !isSpace c) = 736 := by
    rw [defaultSystem,toList_literal rfl]
    decide
  have hknown : ∀ t ∈ knownDefaultSystems, letters t ≠ 736 := by
    intro t ht
    rcases List.mem_cons.mp ht with rfl | ht
    · rw [letters,toList_literal rfl]
      decide
    · obtain rfl := List.mem_singleton.mp ht
      rw [letters,toList_literal rfl]
      decide
  intro h
  exact hknown _ h ((letters_strip defaultSystem).trans hdefault)

end

theorem lowered_orUnnamed (name : String) :
    lowered (orElse name "Unnamed profile") = "balanced" ↔ lowered name = "balanced" := by
  by_cases hname : name = ""
  · subst hname
    have hunnamed : lowered (orElse "" "Unnamed profile") ≠ "balanced" := by
      rw [lowered,CaseTables.lower_ascii _ (by decide)]
      decide
    have hempty : lowered "" ≠ "balanced" := by
      rw [lowered,CaseTables.lower_ascii _ (by decide)]
      decide
    exact ⟨fun h => absurd h hunnamed,fun h => absurd h hempty⟩
  · have hkept : orElse name "Unnamed profile" = name := if_neg hname
    rw [hkept]

theorem migrateProfile_again_iff (p : PromptProfileOptions) :
    validateProfile (migrateProfile (validateProfile p)) = validateProfile p ↔
      (lowered p.name = "balanced" → strip p.system ∉ knownDefaultSystems) := by
  have hname := lowered_orUnnamed p.name
  by_cases hold : lowered p.name = "balanced" ∧ strip p.system ∈ knownDefaultSystems
  · have hmigrated : migrateProfile (validateProfile p) =
        { validateProfile p with system := defaultSystem } := if_pos ⟨hname.mpr hold.1,hold.2⟩
    refine ⟨fun h => ?_,fun h => absurd hold.2 (h hold.1)⟩
    rw [hmigrated] at h
    have hsystem : defaultSystem = p.system := congrArg PromptProfileOptions.system h
    have hnew := defaultSystem_new
    rw [hsystem] at hnew
    exact absurd hold.2 hnew
  · have hmigrated : migrateProfile (validateProfile p) = validateProfile p :=
      if_neg fun h => hold ⟨hname.mp h.1,h.2⟩
    rw [hmigrated,validateProfile_again]
    exact ⟨fun _ hbalanced hknown => hold ⟨hbalanced,hknown⟩,fun _ => rfl⟩

theorem migrateProfiles_again_iff (profiles : List PromptProfileOptions) :
    (profilesOr (((profilesOr profiles).map validateProfile).map migrateProfile)).map validateProfile =
      (profilesOr profiles).map validateProfile ↔ PromptsKept profiles := by
  have hne : ∀ ps : List PromptProfileOptions, profilesOr ps ≠ [] := by
    intro ps
    simp only [profilesOr]
    split
    · simp
    · rename_i h
      simpa using h
  have hsome : profilesOr (((profilesOr profiles).map validateProfile).map migrateProfile) =
      ((profilesOr profiles).map validateProfile).map migrateProfile :=
    if_neg (by simpa using hne profiles)
  have hall : PromptsKept (profilesOr profiles) ↔ PromptsKept profiles := by
    simp only [profilesOr]
    split
    · rename_i hempty
      have hnil : profiles = [] := by simpa using hempty
      simp [PromptsKept,hnil,defaultSystem_new]
    · rfl
  rw [hsome,← hall,List.map_map,List.map_map]
  refine List.map_inj_left.trans (forall₂_congr fun p _ => ?_)
  exact migrateProfile_again_iff p

/-! There and back. -/

theorem validate_with (draws : ℕ → String) (o : Options) (u : UIOptions) {ps : List PromptProfileOptions}
    (hlength : (profilesOr ps).length = (profilesOr o.promptProfiles).length) :
    validate draws { o with ui := u, promptProfiles := ps } =
      { validate draws o with
        ui := validateUI u
        promptProfiles := (profilesOr ps).map validateProfile } := by
  simp only [validate,List.length_map,hlength]

/-- The keys of a validated configuration are all there. -/
theorem validate_keyed {draws : ℕ → String} {o : Options} (h : FreshDraws draws o.llmProviders) :
    Keyed (validate draws o) := by
  constructor
  · intro p hp
    obtain ⟨hstrip,hne⟩ := (validate_ids_settled h).stripped p hp
    rw [llmKey,hstrip,if_neg hne]
    rfl
  · intro p hp
    obtain ⟨-,hlowered,hsupported⟩ := (validateResearchProviders_complete o.researchProviders).1 p hp
    have hne : p.kind ≠ "" := by
      intro hempty
      rw [hempty] at hsupported
      exact absurd hsupported (by decide)
    simp only [researchKey,hlowered,if_neg hne]
    rfl

theorem withoutSecrets_keyed {o : Options} (h : Keyed o) : Keyed (withoutSecrets o) := by
  constructor
  · intro p hp
    obtain ⟨q,hq,rfl⟩ := List.mem_map.mp hp
    exact h.1 q hq
  · intro p hp
    obtain ⟨q,hq,rfl⟩ := List.mem_map.mp hp
    exact h.2 q hq

omit [LetterTables] in
theorem withoutSecrets_withoutSecrets (o : Options) :
    withoutSecrets (withoutSecrets o) = withoutSecrets o := by
  simp only [withoutSecrets,List.map_map]
  rfl

/-- What `save_options` leaves behind when the store answers. -/
theorem saveOptions_always {draws : ℕ → String} {o : Options} (h : FreshDraws draws o.llmProviders)
    {vault : Vault} (hvault : Undisturbed vault) :
    (saveOptions draws always o vault).file = .stored (withoutSecrets (validate draws o)) ∧
    (saveOptions draws always o vault).vault.secrets =
      lastValues vault.secrets (credentialSlots (validate draws o)) := by
  obtain ⟨hslots,hstate⟩ := visitSecrets_slots (secureSlot always) vault (validate draws o)
  obtain ⟨hpayload,hsecrets⟩ := secure_always 0 hvault (credentialSlots (validate draws o))
  constructor
  · have hrest := visitSecrets_withoutSecrets (secureSlot always) vault (validate draws o)
    refine congrArg OptionsFile.stored (eq_of_credentialSlots (withoutSecrets_keyed (validate_keyed h))
      ((withoutSecrets_withoutSecrets _).trans hrest.symm) ?_).symm
    rw [credentialSlots_withoutSecrets,← hpayload]
    exact hslots.symm
  · exact (congrArg Vault.secrets hstate).trans hsecrets

/-- Sources of one kind share a key, and then they share its value. -/
def KeysAgree (providers : List ResearchProviderOptions) : Prop :=
  ∀ p ∈ providers, ∀ q ∈ providers, lowered p.kind ∈ supportedResearchKinds →
    lowered p.kind = lowered q.kind → strip p.apiKey = strip q.apiKey

omit [LetterTables] in
theorem llmSlots_agree {ps : List LLMProviderOptions} (h : IdsSettled [] ps) :
    Slots.Agree (llmSlots ps) := by
  intro e he e' he' hkey
  obtain ⟨p,hp,hpKey,hpValue⟩ := mem_llmSlots.mp he
  obtain ⟨q,hq,hqKey,hqValue⟩ := mem_llmSlots.mp he'
  have hids : strip p.providerId = strip q.providerId :=
    between_inj ((llmKey_eq hpKey).symm.trans (hkey.trans (llmKey_eq hqKey)))
  rw [(h.stripped p hp).1,(h.stripped q hq).1] at hids
  have hsame : p = q := List.inj_on_of_nodup_map h.nodup hp hq hids
  rw [← hpValue,← hqValue,hsame]

theorem researchSlots_agree_iff (providers : List ResearchProviderOptions) :
    Slots.Agree (researchSlots (validateResearchProviders providers)) ↔ KeysAgree providers := by
  have hkind : ∀ p : ResearchProviderOptions, (validateResearchProvider p).kind = lowered p.kind :=
    fun _ => rfl
  constructor
  · intro h p hp q hq hsupported hkinds
    have hslot : ∀ p ∈ providers, lowered p.kind ∈ supportedResearchKinds →
        ("research/"++lowered p.kind++"/api_key",strip p.apiKey) ∈
          researchSlots (validateResearchProviders providers) := by
      intro p hp hsupported
      have hne : lowered p.kind ≠ "" := by
        intro hempty
        rw [hempty] at hsupported
        exact absurd hsupported (by decide)
      refine mem_researchSlots.mpr ⟨validateResearchProvider p,?_,?_,rfl⟩
      · exact List.mem_map_of_mem (List.mem_append_left _ (List.mem_filter.mpr ⟨hp,by simpa using hsupported⟩))
      · simp only [researchKey,hkind,lowered_lowered,if_neg hne]
    have hq' := hslot q hq (hkinds ▸ hsupported)
    exact h _ (hslot p hp hsupported) _ hq' (by rw [hkinds])
  · intro h e he e' he' hkey
    have horigin : ∀ e ∈ researchSlots (validateResearchProviders providers),
        (∃ p ∈ providers, lowered p.kind ∈ supportedResearchKinds ∧
          e.1 = "research/"++lowered p.kind++"/api_key" ∧ e.2 = strip p.apiKey) ∨
        ∃ kind, (∀ p ∈ providers, lowered p.kind ∈ supportedResearchKinds → lowered p.kind ≠ kind) ∧
          e.1 = "research/"++kind++"/api_key" ∧ e.2 = "" := by
      intro e he
      obtain ⟨p,hp,hpKey,hpValue⟩ := mem_researchSlots.mp he
      obtain ⟨q,hq,rfl⟩ := List.mem_map.mp hp
      have hkey := researchKey_eq hpKey
      rw [hkind,lowered_lowered] at hkey
      rcases List.mem_append.mp hq with hq | hq
      · obtain ⟨hq,hsupported⟩ := List.mem_filter.mp hq
        exact Or.inl ⟨q,hq,by simpa using hsupported,hkey,hpValue.symm⟩
      · obtain ⟨hq,hmissing⟩ := List.mem_filter.mp hq
        have hblank : ∀ p ∈ defaultResearchProviders, strip p.apiKey = "" := by decide
        refine Or.inr ⟨lowered q.kind,fun p hp hsupported heq => ?_,hkey,hpValue.symm.trans (hblank q hq)⟩
        rw [(lowered_defaultKinds q hq).1] at heq
        have hmem : q.kind ∈ (providers.filter fun p => lowered p.kind ∈ supportedResearchKinds).map
            fun q => lowered q.kind :=
          List.mem_map.mpr ⟨p,List.mem_filter.mpr ⟨hp,by simpa using hsupported⟩,heq⟩
        exact absurd hmem (by simpa using hmissing)
    rcases horigin e he with ⟨p,hp,hsupported,hpKey,hpValue⟩ | ⟨kind,hnone,hpKey,hpValue⟩ <;>
      rcases horigin e' he' with ⟨q,hq,hsupported',hqKey,hqValue⟩ | ⟨kind',hnone',hqKey,hqValue⟩ <;>
      have hkinds := between_inj (hpKey.symm.trans (hkey.trans hqKey))
    · rw [hpValue,hqValue,h p hp q hq hsupported hkinds]
    · exact absurd hkinds (hnone' p hp hsupported)
    · exact absurd hkinds.symm (hnone q hq hsupported')
    · rw [hpValue,hqValue]

theorem slots_agree_iff {draws : ℕ → String} {o : Options} (h : FreshDraws draws o.llmProviders) :
    Slots.Agree (credentialSlots (validate draws o)) ↔ KeysAgree o.researchProviders := by
  have hfixed : Slots.Agree [("pihole/password",(validate draws o).pihole.password),
      ("external_trigger/token",(validate draws o).externalTrigger.token)] := by
    intro e he e' he' hkey
    simp only [List.mem_cons,List.not_mem_nil,or_false] at he he'
    rcases he with rfl | rfl <;> rcases he' with rfl | rfl
    · rfl
    · exact absurd hkey (by simp)
    · exact absurd hkey (by simp)
    · rfl
  rw [credentialSlots,Slots.agree_append (fixedKeys_ne _),Slots.agree_append llmKeys_ne_researchKeys]
  have hllm := llmSlots_agree (validate_ids_settled h)
  simp only [hfixed,hllm,true_and]
  exact researchSlots_agree_iff o.researchProviders

/-- Loading what was saved gives the validated configuration, and validating that again changes
nothing; the load may take place in a process that remembers anything of the store. -/
def RoundTrips (digest : String → String) (draws draws' : ℕ → String)
    (remembered : String → Option CredentialReadState) (o : Options) : Prop :=
  let saved := saveOptions draws always o ⟨fun _ => "",fun _ => none⟩
  (loadOptions digest draws' reachable saved.file
      { saved.vault with readStates := remembered }).map Outcome.options = .ok (validate draws o) ∧
  validate draws' (validate draws o) = validate draws o

omit [LetterTables] in
theorem profilesOr_length_map (f : PromptProfileOptions → PromptProfileOptions)
    {ps : List PromptProfileOptions} (hne : ps ≠ []) :
    (profilesOr (ps.map f)).length = (profilesOr ps).length := by
  have hsome : ∀ qs : List PromptProfileOptions, qs ≠ [] → profilesOr qs = qs :=
    fun qs hqs => if_neg (by simpa using hqs)
  rw [hsome _ hne,hsome _ (by simpa using hne),List.length_map]

/-- The configuration a load works with before it looks for secrets. -/
def reread (draws' : ℕ → String) (w : Options) : Options :=
  { validate draws' w with
    ui := validateUI (migrateUI w.ui)
    promptProfiles := (profilesOr (w.promptProfiles.map migrateProfile)).map validateProfile }

theorem load_saved {draws : ℕ → String} {o : Options} (h : FreshDraws draws o.llmProviders)
    (digest : String → String) (draws' : ℕ → String) (vault : Vault) :
    ∃ loaded, (loadOptions digest draws' reachable (.stored (withoutSecrets (validate draws o))) vault).map
        Outcome.options = .ok loaded ∧
      withoutSecrets loaded = reread draws' (withoutSecrets (validate draws o)) ∧
      credentialSlots loaded = (credentialSlots (reread draws' (withoutSecrets (validate draws o)))).map
        fun e => (e.1,vault.secrets e.1) := by
  set w := withoutSecrets (validate draws o)
  have hw : w = validate draws (withoutSecrets o) := (validate_withoutSecrets draws o).symm
  have hfresh : FreshDraws draws (withoutSecrets o).llmProviders := by
    refine ⟨h.injective,h.stripped,fun n p hp => ?_⟩
    obtain ⟨q,hq,rfl⟩ := List.mem_map.mp hp
    exact h.unused n q hq
  have hmigrate : migrate digest draws' w = .ok { w with
      ui := migrateUI w.ui
      promptProfiles := w.promptProfiles.map migrateProfile } := by
    rw [hw]
    exact migrate_validate hfresh digest draws'
  have hlength : (profilesOr (w.promptProfiles.map migrateProfile)).length =
      (profilesOr w.promptProfiles).length :=
    profilesOr_length_map migrateProfile (by rw [hw]; exact validate_profiles_ne_nil _ _)
  have hreread := validate_with draws' w (migrateUI w.ui) hlength
  have hraw : withoutSecrets { w with
      ui := migrateUI w.ui
      promptProfiles := w.promptProfiles.map migrateProfile } = { w with
      ui := migrateUI w.ui
      promptProfiles := w.promptProfiles.map migrateProfile } := by
    have hww : withoutSecrets w = w := withoutSecrets_withoutSecrets _
    show { withoutSecrets w with
      ui := migrateUI w.ui
      promptProfiles := w.promptProfiles.map migrateProfile } = _
    rw [hww]
  have hblank : withoutSecrets (reread draws' w) = reread draws' w := by
    rw [reread,← hreread,← validate_withoutSecrets,hraw]
  have hplain : ∀ e ∈ credentialSlots (reread draws' w), e.2 = "" := by
    intro e he
    rw [← hblank,credentialSlots_withoutSecrets] at he
    obtain ⟨e',-,rfl⟩ := List.mem_map.mp he
    rfl
  obtain ⟨hslots,hstate⟩ := visitSecrets_slots (hydrateSlot always always) (vault,false) (reread draws' w)
  obtain ⟨hvalues,hcopied⟩ := hydrate_always 0 vault false (credentialSlots (reread draws' w)) hplain
  refine ⟨(hydrateCredentials always always (reread draws' w) vault).1,?_,?_,hslots.trans hvalues⟩
  · have hflag : (hydrateCredentials always always (reread draws' w) vault).2.2 = false := by
      rw [hydrateCredentials,hstate]
      exact hcopied
    have hvalidated : validate draws' { w with
        ui := migrateUI w.ui
        promptProfiles := w.promptProfiles.map migrateProfile } = reread draws' w := hreread
    simp only [loadOptions,reachable,hmigrate,hvalidated,hflag]
    rfl
  · rw [hydrateCredentials,visitSecrets_withoutSecrets,hblank]

end RoundTrip

/-! Two configurations, with the tables that know ASCII only. -/

/-- Ids that are drawn: one letter more each time. -/
def lettersDrawn (n : ℕ) : String := String.ofList (List.replicate (n+1) 'x')

theorem lettersDrawn_fresh : FreshDraws lettersDrawn (defaultOptions "first").llmProviders := by
  refine ⟨fun a b h => ?_,fun n => ⟨?_,?_⟩,fun n p hp => ?_⟩
  · have hlength := congrArg (fun s => s.toList.length) h
    simpa [lettersDrawn] using hlength
  · refine strip_eq_self_iff.mpr ⟨?_,?_⟩
    · rw [beginsIn,lettersDrawn,String.toList_ofList,List.replicate_succ]
      rfl
    · rw [endsIn,lettersDrawn,String.toList_ofList,List.replicate_succ',List.getLast?_concat]
      rfl
  · intro h
    have hlength := congrArg (fun s => s.toList.length) h
    simp [lettersDrawn] at hlength
  · obtain rfl := List.mem_singleton.mp hp
    intro h
    have hfirst : strip "first" = "first" := strip_ofList (by decide)
    have hhead := congrArg (fun s => s.toList.head?) (hfirst.symm.trans h)
    simp [lettersDrawn,List.replicate_succ] at hhead

/-- A review table that shows the domain and the status only. -/
def twoColumns : Options :=
  { defaultOptions "first" with
    ui := { tableVisibleColumns := defaultVisibleColumns.set "review" ["domain","status"] } }

end Config
end WormholeObservatory
