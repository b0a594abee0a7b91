import WormholeObservatory.ConfigRoundTrip

/-! The slots of a configuration over a load and a save. Once the ids and kinds are in their form,
neither `_migrate` nor `_validate` adds or loses a slot, so each key can be followed by itself: what
the store and the file hold for it is what a load reads and what a save leaves. -/
namespace WormholeObservatory
namespace Config

section Settled

variable [LetterTables]

/-- A configuration whose slots a further `_migrate` and `_validate` find as they are. -/
structure Settled (o : Options) : Prop where
  version : o.schemaVersion = currentSchemaVersion
  ids : IdsSettled [] o.llmProviders
  some : o.llmProviders ≠ []
  kinds : ∀ p ∈ o.researchProviders, lowered p.kind = p.kind ∧ p.kind ∈ supportedResearchKinds
  complete : ∀ p ∈ defaultResearchProviders, p.kind ∈ o.researchProviders.map ResearchProviderOptions.kind

/-- The form `_validate` gives the text of a slot. -/
def secretForm (key value : String) : String :=
  if key ∈ ["pihole/password","external_trigger/token"] then value else strip value

omit [LetterTables] in
theorem secretForm_empty (key : String) : secretForm key "" = "" := by
  have hblank : strip "" = "" := strip_ofList (by decide)
  rw [secretForm,hblank,ite_self]

omit [LetterTables] in
theorem secretForm_secretForm (key value : String) :
    secretForm key (secretForm key value) = secretForm key value := by
  rw [secretForm,secretForm]
  split
  · rfl
  · exact strip_strip value

theorem settled_withoutSecrets_iff {o : Options} : Settled (withoutSecrets o) ↔ Settled o := by
  have hids : IdsSettled [] (o.llmProviders.map fun p => p.withApiKey "") ↔ IdsSettled [] o.llmProviders := by
    have hmap : (o.llmProviders.map fun p => p.withApiKey "").map LLMProviderOptions.providerId =
        o.llmProviders.map LLMProviderOptions.providerId := by
      rw [List.map_map]
      rfl
    constructor
    · rintro ⟨hstripped,-,hnodup⟩
      exact ⟨List.forall_mem_map.mp hstripped,fun _ _ => List.not_mem_nil,hmap ▸ hnodup⟩
    · rintro ⟨hstripped,-,hnodup⟩
      exact ⟨List.forall_mem_map.mpr hstripped,fun _ _ => List.not_mem_nil,hmap.symm ▸ hnodup⟩
  have hkinds : (o.researchProviders.map fun p => p.withApiKey "").map ResearchProviderOptions.kind =
      o.researchProviders.map ResearchProviderOptions.kind := by
    rw [List.map_map]
    rfl
  constructor
  · rintro ⟨hversion,hsettled,hsome,hall,hcomplete⟩
    exact ⟨hversion,hids.mp hsettled,fun h => hsome (List.map_eq_nil_iff.mpr h),List.forall_mem_map.mp hall,
      fun p hp => hkinds ▸ hcomplete p hp⟩
  · rintro ⟨hversion,hsettled,hsome,hall,hcomplete⟩
    exact ⟨hversion,hids.mpr hsettled,fun h => hsome (List.map_eq_nil_iff.mp h),List.forall_mem_map.mpr hall,
      fun p hp => hkinds.symm ▸ hcomplete p hp⟩

/-- Secrets have no part in it. -/
theorem Settled.visitSecrets {o : Options} (h : Settled o) {S : Type}
    (f : ℕ → S → String → String → String × S) (s : S) : Settled (visitSecrets f s o).1 := by
  rw [← settled_withoutSecrets_iff,visitSecrets_withoutSecrets,settled_withoutSecrets_iff]
  exact h

theorem settled_validate {draws : ℕ → String} {o : Options} (h : IdsSettled [] (validate draws o).llmProviders) :
    Settled (validate draws o) where
  version := rfl
  ids := h
  some := validate_providers_ne_nil draws o
  kinds p hp := ((validateResearchProviders_complete o.researchProviders).1 p hp).2
  complete := (validateResearchProviders_complete o.researchProviders).2

theorem Settled.llmProviders {o : Options} (h : Settled o) (draws : ℕ → String) :
    (validate draws o).llmProviders = o.llmProviders.map validateLLMProvider := by
  have hsome : providersOr draws o.llmProviders = o.llmProviders :=
    if_neg fun hempty => h.some (List.isEmpty_iff.mp hempty)
  change validateLLMProviders draws 0 [] (providersOr draws o.llmProviders) = _
  rw [hsome,validateLLMProviders_of_settled draws 0 h.ids]

theorem Settled.ids_validate {o : Options} (h : Settled o) (draws : ℕ → String) :
    (Config.validate draws o).llmProviders.map LLMProviderOptions.providerId =
      o.llmProviders.map LLMProviderOptions.providerId := by
  rw [h.llmProviders draws,List.map_map]
  rfl

theorem Settled.validate {o : Options} (h : Settled o) (draws : ℕ → String) : Settled (validate draws o) := by
  refine settled_validate ?_
  refine ⟨?_,fun _ _ => List.not_mem_nil,(h.ids_validate draws).symm ▸ h.ids.nodup⟩
  rw [h.llmProviders draws]
  exact List.forall_mem_map.mpr h.ids.stripped

omit [LetterTables] in
theorem secretForm_of_head (key value : String)
    (hkey : key.toList.head? ≠ some 'p' ∧ key.toList.head? ≠ some 'e') : secretForm key value = strip value := by
  refine if_neg fun hmem => ?_
  rcases List.mem_cons.mp hmem with rfl | hmem
  · exact hkey.1 (by simp)
  · obtain rfl := List.mem_singleton.mp hmem
    exact hkey.2 (by simp)

/-- `_validate` keeps the slots of settled options, their texts in the form it gives them. -/
theorem Settled.slots_validate {o : Options} (h : Settled o) (draws : ℕ → String) :
    credentialSlots (Config.validate draws o) = (credentialSlots o).map fun e => (e.1,secretForm e.1 e.2) := by
  have hllm : llmSlots (o.llmProviders.map validateLLMProvider) =
      (llmSlots o.llmProviders).map fun e => (e.1,secretForm e.1 e.2) :=
    @Slots.slotsOf_map _ _ _ llmKey LLMProviderOptions.apiKey validateLLMProvider secretForm (fun _ => rfl)
      (fun p k hk => (secretForm_of_head k p.apiKey (by rw [llmKey_eq hk]; simp)).symm) _
  have hresearch : researchSlots (o.researchProviders.map validateResearchProvider) =
      (researchSlots o.researchProviders).map fun e => (e.1,secretForm e.1 e.2) := by
    refine @Slots.slotsOf_map _ _ _ researchKey ResearchProviderOptions.apiKey validateResearchProvider
      secretForm (fun p => ?_) (fun p k hk => ?_) _
    · have hkind : lowered (validateResearchProvider p).kind = lowered p.kind := lowered_lowered p.kind
      simp only [researchKey,hkind]
    · exact (secretForm_of_head k p.apiKey (by rw [researchKey_eq hk]; simp)).symm
  have hsources : (Config.validate draws o).researchProviders = o.researchProviders.map validateResearchProvider :=
    validateResearchProviders_of_complete h.kinds h.complete
  have hpassword : secretForm "pihole/password" o.pihole.password = o.pihole.password := if_pos (by decide)
  have htoken : secretForm "external_trigger/token" o.externalTrigger.token = o.externalTrigger.token :=
    if_pos (by decide)
  rw [credentialSlots,h.llmProviders draws,hsources,hllm,hresearch,credentialSlots,List.map_append,
    List.map_append,List.map_cons,List.map_cons,List.map_nil,hpassword,htoken]
  rfl

/-- `_migrate` keeps the slots of settled options as they are. -/
theorem Settled.migrate {o : Options} (h : Settled o) (digest : String → String) (draws : ℕ → String) :
    ∃ raw, migrate digest draws o = .ok raw ∧ Settled raw ∧ credentialSlots raw = credentialSlots o := by
  have hproviders := migrateLLMProviders_of_settled digest 0 h.ids
  have hresearch := migrateResearchProviders_of_complete h.kinds h.complete
  have hsome : ¬o.llmProviders.isEmpty = true := fun hempty => h.some (List.isEmpty_iff.mp hempty)
  have hversion : ¬o.schemaVersion > currentSchemaVersion := by
    rw [h.version]
    exact lt_irrefl _
  simp only [Config.migrate,if_neg hversion,hproviders,if_neg hsome,hresearch]
  exact ⟨_,rfl,⟨rfl,h.ids,h.some,h.kinds,h.complete⟩,rfl⟩

/-- `_validate` changes no kind of a source, and typing secrets changes neither kinds nor ids. -/
theorem Settled.kinds_validate {o : Options} (h : Settled o) (draws : ℕ → String) :
    (Config.validate draws o).researchProviders.map ResearchProviderOptions.kind =
      o.researchProviders.map ResearchProviderOptions.kind := by
  have hsources : (Config.validate draws o).researchProviders = o.researchProviders.map validateResearchProvider :=
    validateResearchProviders_of_complete h.kinds h.complete
  rw [hsources,List.map_map]
  exact List.map_congr_left fun p hp => (h.kinds p hp).1

theorem kinds_visitSecrets {S : Type} (f : ℕ → S → String → String → String × S) (s : S) (o : Options) :
    (Config.visitSecrets f s o).1.researchProviders.map ResearchProviderOptions.kind =
      o.researchProviders.map ResearchProviderOptions.kind :=
  Slots.visitList_forget researchKey ResearchProviderOptions.apiKey ResearchProviderOptions.withApiKey
    (fun _ _ => rfl) _ _ _ _

theorem ids_visitSecrets {S : Type} (f : ℕ → S → String → String → String × S) (s : S) (o : Options) :
    (Config.visitSecrets f s o).1.llmProviders.map LLMProviderOptions.providerId =
      o.llmProviders.map LLMProviderOptions.providerId :=
  Slots.visitList_forget llmKey LLMProviderOptions.apiKey LLMProviderOptions.withApiKey
    (fun _ _ => rfl) _ _ _ _

/-! One slot for each key. -/

omit [LetterTables] in
theorem llmKeys_of_settled {ps : List LLMProviderOptions}
    (h : ∀ p ∈ ps, strip p.providerId = p.providerId ∧ p.providerId ≠ "") :
    (llmSlots ps).map Prod.fst =
      (ps.map LLMProviderOptions.providerId).map fun id => "llm/"++id++"/api_key" := by
  have hkey : ∀ p ∈ ps, llmKey p = Option.some ("llm/"++p.providerId++"/api_key") := by
    intro p hp
    obtain ⟨hstrip,hne⟩ := h p hp
    rw [llmKey,hstrip,if_neg hne]
  rw [llmSlots,Slots.keys_slotsOf,List.filterMap_congr hkey,List.filterMap_eq_map',List.map_map]
  rfl

theorem researchKeys_of_settled {ps : List ResearchProviderOptions}
    (h : ∀ p ∈ ps, lowered p.kind = p.kind ∧ p.kind ∈ supportedResearchKinds) :
    (researchSlots ps).map Prod.fst =
      (ps.map ResearchProviderOptions.kind).map fun kind => "research/"++kind++"/api_key" := by
  have hsupported : "" ∉ supportedResearchKinds := by decide
  have hkey : ∀ p ∈ ps, researchKey p = Option.some ("research/"++p.kind++"/api_key") := by
    intro p hp
    obtain ⟨hlowered,hkind⟩ := h p hp
    simp only [researchKey,hlowered]
    exact if_neg fun hempty : p.kind = "" => hsupported (hempty ▸ hkind)
  rw [researchSlots,Slots.keys_slotsOf,List.filterMap_congr hkey,List.filterMap_eq_map',List.map_map]
  rfl

/-- Slots of settled options have different keys if no two sources are of one kind. -/
theorem Settled.nodup_keys {o : Options} (h : Settled o)
    (hkinds : (o.researchProviders.map ResearchProviderOptions.kind).Nodup) :
    ((credentialSlots o).map Prod.fst).Nodup := by
  have hllm : ((llmSlots o.llmProviders).map Prod.fst).Nodup := by
    rw [llmKeys_of_settled h.ids.stripped]
    exact h.ids.nodup.map fun _ _ => between_inj
  have hresearch : ((researchSlots o.researchProviders).map Prod.fst).Nodup := by
    rw [researchKeys_of_settled h.kinds]
    exact hkinds.map fun _ _ => between_inj
  rw [credentialSlots,List.map_append,List.map_append,List.nodup_append,List.nodup_append]
  refine ⟨by simp,⟨hllm,hresearch,fun k hk k' hk' => ?_⟩,fun k hk k' hk' => ?_⟩
  · obtain ⟨e,he,rfl⟩ := List.mem_map.mp hk
    obtain ⟨e',he',rfl⟩ := List.mem_map.mp hk'
    exact llmKeys_ne_researchKeys e he e' he'
  · obtain ⟨e,he,rfl⟩ := List.mem_map.mp hk
    rw [← List.map_append] at hk'
    obtain ⟨e',he',rfl⟩ := List.mem_map.mp hk'
    exact fixedKeys_ne o e he e' he'

/-- Options with a drawn id are settled. -/
theorem defaultOptions_settled {providerId : String} (hid : strip providerId = providerId ∧ providerId ≠ "") :
    Settled (defaultOptions providerId) where
  version := rfl
  ids := ⟨List.forall_mem_singleton.mpr hid,fun _ _ => List.not_mem_nil,List.nodup_singleton _⟩
  some := List.cons_ne_nil _ _
  kinds := lowered_defaultKinds
  complete _ hp := List.mem_map_of_mem hp

theorem defaultOptions_texts (providerId : String) : ∀ e ∈ credentialSlots (defaultOptions providerId), e.2 = "" := by
  have hkeys : ∀ p ∈ defaultResearchProviders, p.apiKey = "" := by decide
  intro e he
  rcases List.mem_append.mp he with he | he
  · rcases List.mem_cons.mp he with rfl | he
    · rfl
    · rw [List.mem_singleton.mp he]
      rfl
  · rcases List.mem_append.mp he with he | he
    · obtain ⟨p,hp,-,htext⟩ := mem_llmSlots.mp he
      rw [List.mem_singleton.mp hp] at htext
      exact htext.symm
    · obtain ⟨p,hp,-,htext⟩ := mem_researchSlots.mp he
      exact htext.symm.trans (hkeys p hp)

end Settled

/-! One slot of a round. -/

section Rounds

variable {reads writes answers : ℕ → Bool}

/-- What the store has for a key, and what the process remembers of it. -/
def Vault.held (vault : Vault) (key : String) : String × Option CredentialReadState :=
  (vault.secrets key,vault.readStates key)

theorem Vault.held_fst (vault : Vault) (key : String) : (vault.held key).1 = vault.secrets key := rfl

/-- What a load makes of a slot: the text of the store comes before that of the file. -/
structure Hydrated (reads : ℕ → Bool) (n : ℕ) (text : String) (before : String × Option CredentialReadState)
    (value : String) (after : String × Option CredentialReadState) : Prop where
  read : reads n = true → value = orElse before.1 text ∧ (after.1 = before.1 ∨ before.1 = "" ∧ after.1 = text)
  unread : reads n = false → value = text ∧ after.1 = before.1 ∧ after.2 = some .unavailable

/-- The access of a save to the store goes through: it writes a text, or deletes one. -/
def Lands (answers : ℕ → Bool) (n : ℕ) (value : String) (held : String × Option CredentialReadState) : Prop :=
  answers n = true ∧ (value = "" → held.2 ≠ some .unavailable ∧ held.1 ≠ "")

/-- What a save makes of a slot: its text goes into the store or stays in the file. -/
structure Secured (answers : ℕ → Bool) (n : ℕ) (value : String) (before : String × Option CredentialReadState)
    (text : String) (after : String × Option CredentialReadState) : Prop where
  lands : Lands answers n value before → after.1 = value ∧ text = ""
  stays : ¬Lands answers n value before → after.1 = before.1 ∧ text = value

theorem hydrateSlot_framed (reads writes : ℕ → Bool) :
    Slots.Framed (hydrateSlot reads writes) fun s : Vault × Bool => s.1.held := by
  intro n s key text other hother
  simp only [hydrateSlot,readSecret,writeSecret,Vault.held]
  cases reads n with
  | false => simp [hother]
  | true =>
    by_cases hmissing : s.1.secrets key = ""
    · by_cases htext : text = ""
      · simp [hmissing,htext,hother]
      · cases writes n with
        | false => simp [hmissing,htext,hother]
        | true => simp [hmissing,htext,hother]
    · simp [hmissing,hother]

theorem hydrateSlot_hydrated (n : ℕ) (s : Vault × Bool) (key text : String) :
    Hydrated reads n text (s.1.held key) (hydrateSlot reads writes n s key text).1
      ((hydrateSlot reads writes n s key text).2.1.held key) := by
  simp only [hydrateSlot,readSecret,writeSecret,Vault.held]
  cases hread : reads n with
  | false => exact ⟨fun h => by simp [hread] at h,fun _ => by simp⟩
  | true =>
    refine ⟨fun _ => ?_,fun h => by simp [hread] at h⟩
    by_cases hmissing : s.1.secrets key = ""
    · by_cases htext : text = ""
      · simp [hmissing,htext,orElse]
      · cases writes n with
        | false => simp [hmissing,htext,orElse]
        | true => simp [hmissing,htext,orElse]
    · simp [hmissing,orElse]

theorem secureSlot_framed (answers : ℕ → Bool) : Slots.Framed (secureSlot answers) Vault.held := by
  intro n vault key value other hother
  simp only [secureSlot,writeSecret,deleteSecret,Vault.held]
  by_cases hvalue : value = ""
  · by_cases hgone : vault.readStates key = some .unavailable ∨ answers n = false ∨ vault.secrets key = ""
    · simp [hvalue,hgone]
    · simp [hvalue,hgone,hother]
  · cases answers n with
    | false => simp [hvalue]
    | true => simp [hvalue,hother]

theorem secureSlot_secured (n : ℕ) (vault : Vault) (key value : String) :
    Secured answers n value (vault.held key) (secureSlot answers n vault key value).1
      ((secureSlot answers n vault key value).2.held key) := by
  simp only [secureSlot,writeSecret,deleteSecret,Vault.held]
  by_cases hvalue : value = ""
  · by_cases hgone : vault.readStates key = some .unavailable ∨ answers n = false ∨ vault.secrets key = ""
    · refine ⟨fun h => ?_,fun _ => by simp [hvalue,hgone]⟩
      obtain ⟨hanswers,hheld⟩ := h
      obtain ⟨hstate,hsome⟩ := hheld hvalue
      rcases hgone with hunavailable | hno | hnone
      · exact absurd hunavailable hstate
      · exact absurd (hanswers.symm.trans hno) (by decide)
      · exact absurd hnone hsome
    · refine ⟨fun _ => by simp [hvalue,hgone],fun hstays => absurd ?_ hstays⟩
      obtain ⟨hstate,hgone⟩ := not_or.mp hgone
      obtain ⟨hno,hsome⟩ := not_or.mp hgone
      exact ⟨Bool.eq_true_of_not_eq_false hno,fun _ => ⟨hstate,hsome⟩⟩
  · cases hanswers : answers n with
    | false =>
      refine ⟨fun h => ?_,fun _ => by simp [hvalue]⟩
      exact absurd (h.1.symm.trans hanswers) (by decide)
    | true => exact ⟨fun _ => by simp [hvalue],fun h => absurd ⟨hanswers,fun h => absurd h hvalue⟩ h⟩

variable [LetterTables] {o : Options} {vault : Vault} {i : ℕ} {k : String}

theorem hydrated_slot (accesses : Accesses) (vault : Vault)
    (hnodup : ((credentialSlots o).map Prod.fst).Nodup) {text : String}
    (hi : (credentialSlots o)[i]? = some (k,text)) :
    ∃ value, (credentialSlots (hydrateCredentials accesses.reads accesses.writes o vault).1)[i]? =
      some (k,value) ∧ Hydrated accesses.reads i text (vault.held k) value
        ((hydrateCredentials accesses.reads accesses.writes o vault).2.1.held k) := by
  rw [hydrateCredentials,(visitSecrets_slots _ _ _).1,(visitSecrets_slots _ _ _).2]
  have hround := @Slots.visit_local _ _ _ _ _ _ (hydrateSlot_framed accesses.reads accesses.writes)
    (fun n _ => Hydrated accesses.reads n) (fun n s key text => hydrateSlot_hydrated n s key text) 0
      (vault,false) _ hnodup _ _ _ hi
  rwa [Nat.zero_add] at hround

theorem secured_slot (answers : ℕ → Bool) (vault : Vault)
    (hnodup : ((credentialSlots o).map Prod.fst).Nodup) {value : String}
    (hi : (credentialSlots o)[i]? = some (k,value)) :
    ∃ text, (credentialSlots (secureOptionsPayload answers o vault).1)[i]? = some (k,text) ∧
      Secured answers i value (vault.held k) text ((secureOptionsPayload answers o vault).2.held k) := by
  rw [secureOptionsPayload,(visitSecrets_slots _ _ _).1,(visitSecrets_slots _ _ _).2]
  have hround := @Slots.visit_local _ _ _ _ _ _ (secureSlot_framed answers)
    (fun n _ => Secured answers n) (fun n vault key value => secureSlot_secured n vault key value) 0 vault _
      hnodup _ _ _ hi
  rwa [Nat.zero_add] at hround

theorem keys_visitSecrets {S : Type} (f : ℕ → S → String → String → String × S) (s : S) (o : Options) :
    (credentialSlots (visitSecrets f s o).1).map Prod.fst = (credentialSlots o).map Prod.fst := by
  rw [(visitSecrets_slots f s o).1,Slots.keys_visit]

end Rounds

/-! When a load rewrites the file. -/

section Copies

variable {reads writes : ℕ → Bool}

/-- A load has a slot to copy: it has a text that the store has as well, or takes. -/
def Copies (reads writes : ℕ → Bool) (secrets : String → String) (n : ℕ) (slots : List (String × String)) : Prop :=
  ∃ i k text, slots[i]? = some (k,text) ∧ text ≠ "" ∧ reads (n+i) = true ∧
    (secrets k ≠ "" ∨ writes (n+i) = true)

theorem hydrateSlot_copied {n : ℕ} {s : Vault × Bool} {key text : String}
    (h : (hydrateSlot reads writes n s key text).2.2 = true) :
    s.2 = true ∨ text ≠ "" ∧ reads n = true ∧ (s.1.secrets key ≠ "" ∨ writes n = true) := by
  simp only [hydrateSlot,readSecret,writeSecret] at h
  cases hread : reads n with
  | false => exact .inl (by simpa [hread] using h)
  | true =>
    by_cases hmissing : s.1.secrets key = ""
    · by_cases htext : text = ""
      · exact .inl (by simpa [hread,hmissing,htext] using h)
      · cases hwrite : writes n with
        | false => exact .inl (by simpa [hread,hmissing,htext,hwrite] using h)
        | true => exact .inr ⟨htext,rfl,.inr rfl⟩
    · by_cases htext : text = ""
      · exact .inl (by simpa [hread,hmissing,htext] using h)
      · exact .inr ⟨htext,rfl,.inl hmissing⟩

theorem visit_copied {n : ℕ} {s : Vault × Bool} {slots : List (String × String)}
    (hnodup : (slots.map Prod.fst).Nodup)
    (h : (Slots.visit (hydrateSlot reads writes) n s slots).2.2 = true) :
    s.2 = true ∨ Copies reads writes s.1.secrets n slots := by
  induction slots generalizing n s with
  | nil => exact .inl h
  | cons e slots ih =>
    obtain ⟨hnot,hrest⟩ := List.nodup_cons.mp hnodup
    rcases ih hrest h with hcopied | ⟨i,k,text,hi,htext,hread,hheld⟩
    · exact (hydrateSlot_copied hcopied).imp_right fun ⟨htext,hread,hheld⟩ => ⟨0,e.1,e.2,rfl,htext,hread,hheld⟩
    · have hother : k ≠ e.1 := fun heq => hnot (heq ▸ List.mem_map_of_mem (List.mem_of_getElem? hi))
      have hframe : (hydrateSlot reads writes n s e.1 e.2).2.1.secrets k = s.1.secrets k :=
        congrArg Prod.fst (hydrateSlot_framed reads writes n s e.1 e.2 k hother)
      have hplace : n+1+i = n+(i+1) := by omega
      rw [hplace] at hread hheld
      exact .inr ⟨i+1,k,text,hi,htext,hread,hframe ▸ hheld⟩

variable [LetterTables] {o : Options} {vault : Vault}

theorem copies_of_hydrated (hnodup : ((credentialSlots o).map Prod.fst).Nodup)
    (h : (hydrateCredentials reads writes o vault).2.2 = true) :
    Copies reads writes vault.secrets 0 (credentialSlots o) := by
  rw [hydrateCredentials,(visitSecrets_slots _ _ _).2] at h
  exact (visit_copied hnodup h).resolve_left Bool.false_ne_true

end Copies

/-! One slot of a load and of a save. -/

section Kept

variable [LetterTables] {reads writes answers : ℕ → Bool} {draws : ℕ → String} {o : Options} {vault : Vault}
  {i : ℕ} {k kept : String}

/-- The file has a slot whose text, or that of the store before it, is the one that is kept. -/
def Holds (file : OptionsFile) (secrets : String → String) (k kept : String) : Prop :=
  ∃ (payload : Options) (i : ℕ) (text : String), file = .stored payload ∧
    (credentialSlots payload)[i]? = some (k,text) ∧ orElse (secrets k) text = kept

/-- A file whose slots a load finds as they are, one for each key. -/
def Readable (file : OptionsFile) : Prop :=
  ∃ payload, file = .stored payload ∧ Settled payload ∧ ((credentialSlots payload).map Prod.fst).Nodup

omit [LetterTables] in
theorem orElse_held {s text kept : String} (h : orElse s text = kept) : s = "" ∧ text = kept ∨ s = kept := by
  rw [orElse] at h
  split at h
  · rename_i hmissing
    exact .inl ⟨hmissing,h⟩
  · exact .inr h

omit [LetterTables] in
theorem orElse_self (kept : String) : orElse kept kept = kept := ite_self kept

theorem saved_slot (hnodup : ((credentialSlots (validate draws o)).map Prod.fst).Nodup) {value : String}
    (hi : (credentialSlots (validate draws o))[i]? = some (k,value))
    (hlands : Lands answers i value (vault.held k) → value = kept)
    (hstays : ¬Lands answers i value (vault.held k) → orElse (vault.secrets k) value = kept) :
    Holds (saveOptions draws answers o vault).file (saveOptions draws answers o vault).vault.secrets k kept := by
  obtain ⟨text,htext,hsecured⟩ := secured_slot answers vault hnodup hi
  refine ⟨_,i,text,rfl,htext,?_⟩
  by_cases h : Lands answers i value (vault.held k)
  · obtain ⟨hafter,hempty⟩ := hsecured.lands h
    have hsecret : (secureOptionsPayload answers (validate draws o) vault).2.secrets k = value := hafter
    change orElse ((secureOptionsPayload answers (validate draws o) vault).2.secrets k) text = kept
    rw [hsecret,hempty,← hlands h]
    exact ite_eq_right_iff.mpr Eq.symm
  · obtain ⟨hafter,hvalue⟩ := hsecured.stays h
    have hsecret : (secureOptionsPayload answers (validate draws o) vault).2.secrets k = vault.secrets k := hafter
    change orElse ((secureOptionsPayload answers (validate draws o) vault).2.secrets k) text = kept
    rw [hsecret,hvalue]
    exact hstays h

theorem saved_readable (hsettled : Settled (validate draws o))
    (hnodup : ((credentialSlots (validate draws o)).map Prod.fst).Nodup) :
    Readable (saveOptions draws answers o vault).file :=
  ⟨_,rfl,hsettled.visitSecrets _ _,by rwa [secureOptionsPayload,keys_visitSecrets]⟩

omit [LetterTables] in
/-- The text that a load finds for a slot is the one that is kept, if it can read the slot. -/
theorem hydrated_kept {text value : String} (hheld : orElse (vault.secrets k) text = kept)
    {after : String × Option CredentialReadState} (h : Hydrated reads i text (vault.held k) value after) :
    (reads i = true → value = kept) ∧ (after.1 = vault.secrets k ∨ vault.secrets k = "" ∧ after.1 = kept) := by
  cases hread : reads i with
  | true =>
    obtain ⟨hvalue,hafter⟩ := h.read hread
    refine ⟨fun _ => hvalue.trans hheld,hafter.imp_right fun ⟨hmissing,htext⟩ => ⟨hmissing,?_⟩⟩
    have hmissing : vault.secrets k = "" := hmissing
    rw [hmissing] at hheld
    exact htext.trans hheld
  | false => exact ⟨fun h => absurd h (by decide),.inl (h.unread hread).2.1⟩

/-- A load that rewrites the file has the slots it has found. -/
theorem rewritten_keys (hsettled : Settled o) (vault : Vault) :
    (credentialSlots (validate draws (hydrateCredentials reads writes o vault).1)).map Prod.fst =
      (credentialSlots o).map Prod.fst := by
  have hnext : Settled (hydrateCredentials reads writes o vault).1 := hsettled.visitSecrets _ _
  rw [hnext.slots_validate draws,List.map_map]
  change (credentialSlots (hydrateCredentials reads writes o vault).1).map Prod.fst = _
  rw [hydrateCredentials,keys_visitSecrets]

theorem rewritten_readable (hsettled : Settled o) (hnodup : ((credentialSlots o).map Prod.fst).Nodup)
    (vault vault' : Vault) :
    Readable (saveOptions draws answers (hydrateCredentials reads writes o vault).1 vault').file := by
  have hnext : Settled (hydrateCredentials reads writes o vault).1 := hsettled.visitSecrets _ _
  refine saved_readable (hnext.validate draws) ?_
  rw [rewritten_keys hsettled]
  exact hnodup

/-- A load that rewrites the file keeps what it finds, unless a slot that it cannot read has an
outdated text there that the store takes. -/
theorem rewritten_slot (accesses : Accesses) (draws : ℕ → String) (hsettled : Settled o)
    (hnodup : ((credentialSlots o).map Prod.fst).Nodup) {text : String}
    (hi : (credentialSlots o)[i]? = some (k,text)) (htext : secretForm k text = text)
    (hform : secretForm k kept = kept) (hheld : orElse (vault.secrets k) text = kept)
    (hstale : accesses.reads i = false → text ≠ "" → accesses.answers i = true → text = kept) :
    (∃ value, (credentialSlots (validate draws
      (hydrateCredentials accesses.reads accesses.writes o vault).1))[i]? = some (k,value) ∧
        (accesses.reads i = true → value = kept)) ∧
    Holds (saveOptions draws accesses.answers (hydrateCredentials accesses.reads accesses.writes o vault).1
        (hydrateCredentials accesses.reads accesses.writes o vault).2.1).file
      (saveOptions draws accesses.answers (hydrateCredentials accesses.reads accesses.writes o vault).1
        (hydrateCredentials accesses.reads accesses.writes o vault).2.1).vault.secrets k kept := by
  obtain ⟨value,hvalue,hhydrated⟩ := hydrated_slot accesses vault hnodup hi
  obtain ⟨hread,hafter⟩ := hydrated_kept hheld hhydrated
  have hnext : Settled (hydrateCredentials accesses.reads accesses.writes o vault).1 := hsettled.visitSecrets _ _
  have hslot : (credentialSlots (validate draws (hydrateCredentials accesses.reads accesses.writes o vault).1))[i]? =
      some (k,secretForm k value) := by
    rw [hnext.slots_validate draws,List.getElem?_map,hvalue]
    rfl
  have hkeys : ((credentialSlots (validate draws (hydrateCredentials accesses.reads accesses.writes o vault).1)).map
      Prod.fst).Nodup := by
    rw [rewritten_keys hsettled]
    exact hnodup
  refine ⟨⟨_,hslot,fun h => by rw [hread h,hform]⟩,saved_slot hkeys hslot ?_ ?_⟩
  · rintro ⟨hanswers,hdeleted⟩
    cases h : accesses.reads i with
    | true => rw [hread h,hform]
    | false =>
      obtain ⟨hsame,-,hunavailable⟩ := hhydrated.unread h
      rw [hsame,htext] at hdeleted ⊢
      by_cases hempty : text = ""
      · exact absurd hunavailable (hdeleted hempty).1
      · exact hstale h hempty hanswers
  · intro _
    change orElse ((hydrateCredentials accesses.reads accesses.writes o vault).2.1.held k).1 (secretForm k value) = kept
    cases h : accesses.reads i with
    | true =>
      rw [hread h,hform]
      rcases hafter with hsame | ⟨-,hcopied⟩
      · rw [hsame]
        rcases orElse_held hheld with ⟨hmissing,-⟩ | hstored
        · rw [hmissing]
          rfl
        · rw [hstored,orElse_self]
      · rw [hcopied,orElse_self]
    | false =>
      obtain ⟨hsame,hsecret,-⟩ := hhydrated.unread h
      rw [hsame,htext,hsecret]
      exact hheld

/-- The slots of a file as a load finds them. -/
def foundSlots (payload : Options) : List (String × String) :=
  (credentialSlots payload).map fun e => (e.1,secretForm e.1 e.2)

theorem keys_foundSlots (payload : Options) :
    (foundSlots payload).map Prod.fst = (credentialSlots payload).map Prod.fst := by
  rw [foundSlots,List.map_map]
  rfl

omit [LetterTables] in
theorem held_form (hkept : kept ≠ "") (hform : secretForm k kept = kept) {s text : String}
    (h : orElse s text = kept) : orElse s (secretForm k text) = kept := by
  rcases orElse_held h with ⟨rfl,rfl⟩ | rfl
  · exact hform
  · exact if_neg hkept

/-- What a load returns for the slot of a text that is kept, and what it leaves of it. -/
structure SlotLoaded (accesses : Accesses) (i : ℕ) (k kept : String) (outcome : Outcome) : Prop where
  returned : ∃ value, (credentialSlots outcome.options)[i]? = some (k,value) ∧
    (accesses.reads i = true → value = kept)
  held : Holds outcome.file outcome.vault.secrets k kept

/-- A load of a file that a save has left. -/
theorem loaded_stored {payload : Options} (hsettled : Settled payload)
    (hnodup : ((credentialSlots payload).map Prod.fst).Nodup) (digest : String → String) (draws : ℕ → String)
    (accesses : Accesses) (vault : Vault) :
    ∃ outcome, loadOptions digest draws accesses (.stored payload) vault = .ok outcome ∧
      Readable outcome.file ∧
      (credentialSlots outcome.options).map Prod.fst = (credentialSlots payload).map Prod.fst ∧
      ∀ i k text kept, (credentialSlots payload)[i]? = some (k,text) → kept ≠ "" → secretForm k kept = kept →
        orElse (vault.secrets k) text = kept →
        (accesses.reads i = false → secretForm k text ≠ "" → accesses.answers i = true →
          Copies accesses.reads accesses.writes vault.secrets 0 (foundSlots payload) →
            secretForm k text = kept) →
          SlotLoaded accesses i k kept outcome := by
  obtain ⟨raw,hraw,hrawSettled,hslots⟩ := hsettled.migrate digest draws
  have hfound : credentialSlots (validate draws raw) = foundSlots payload := by
    rw [hrawSettled.slots_validate draws,hslots,foundSlots]
  have hkeys : ((credentialSlots (validate draws raw)).map Prod.fst).Nodup := by
    rw [hfound,keys_foundSlots]
    exact hnodup
  have hnext : Settled (validate draws raw) := hrawSettled.validate draws
  have hslot : ∀ {i : ℕ} {k text : String}, (credentialSlots payload)[i]? = some (k,text) →
      (credentialSlots (validate draws raw))[i]? = some (k,secretForm k text) := by
    intro i k text hi
    rw [hfound,foundSlots,List.getElem?_map,hi]
    rfl
  rw [loadOptions,hraw]
  by_cases hcopied : (hydrateCredentials accesses.reads accesses.writes (validate draws raw) vault).2.2 = true
  · refine ⟨_,if_pos hcopied,rewritten_readable hnext hkeys _ _,?_,?_⟩
    · change (credentialSlots (validate draws (hydrateCredentials accesses.reads accesses.writes
        (validate draws raw) vault).1)).map Prod.fst = _
      rw [rewritten_keys hnext,hfound,keys_foundSlots]
    · intro i k text kept hi hkept hform hheld hstale
      obtain ⟨hreturned,hholds⟩ := rewritten_slot accesses draws hnext hkeys (hslot hi)
        (secretForm_secretForm k text) hform (held_form hkept hform hheld) fun hread htext hanswers =>
          hstale hread htext hanswers (hfound ▸ copies_of_hydrated hkeys hcopied)
      exact ⟨hreturned,hholds⟩
  · refine ⟨_,if_neg hcopied,⟨payload,rfl,hsettled,hnodup⟩,?_,?_⟩
    · change (credentialSlots (hydrateCredentials accesses.reads accesses.writes
        (validate draws raw) vault).1).map Prod.fst = _
      rw [hydrateCredentials,keys_visitSecrets,hfound,keys_foundSlots]
    · intro i k text kept hi hkept hform hheld _
      obtain ⟨value,hvalue,hhydrated⟩ := hydrated_slot accesses vault hkeys (hslot hi)
      obtain ⟨hread,hafter⟩ := hydrated_kept (held_form hkept hform hheld) hhydrated
      refine ⟨⟨value,hvalue,hread⟩,payload,i,text,rfl,hi,?_⟩
      change orElse ((hydrateCredentials accesses.reads accesses.writes (validate draws raw) vault).2.1.held k).1
        text = kept
      rcases hafter with hsame | ⟨-,hcopied⟩
      · rw [hsame]
        exact hheld
      · rw [hcopied]
        exact if_neg hkept

/-- A load without a file, of what the store has for the default options. -/
theorem loaded_missing (hid : strip (draws 0) = draws 0 ∧ draws 0 ≠ "") (digest : String → String)
    (accesses : Accesses) (vault : Vault) :
    ∃ outcome, loadOptions digest draws accesses .missing vault = .ok outcome ∧
      Readable outcome.file ∧ ((credentialSlots outcome.options).map Prod.fst).Nodup ∧
      ∀ k kept, k ∈ (credentialSlots (defaultOptions (draws 0))).map Prod.fst → kept ≠ "" →
        secretForm k kept = kept → vault.secrets k = kept → ∃ i, SlotLoaded accesses i k kept outcome := by
  have hdefault := defaultOptions_settled hid
  have hkeys : ((credentialSlots (defaultOptions (draws 0))).map Prod.fst).Nodup := by
    have hkinds : (defaultResearchProviders.map ResearchProviderOptions.kind).Nodup := by decide
    exact hdefault.nodup_keys hkinds
  have htexts := defaultOptions_texts (draws 0)
  rw [loadOptions]
  generalize defaultOptions (draws 0) = o at *
  have hfound : credentialSlots (validate draws o) = foundSlots o := hdefault.slots_validate draws
  have hnodup : ((credentialSlots (validate draws o)).map Prod.fst).Nodup := by
    rw [hfound,keys_foundSlots]
    exact hkeys
  have hsettled := hdefault.validate draws
  refine ⟨_,rfl,rewritten_readable hsettled hnodup _ _,?_,?_⟩
  · change ((credentialSlots (validate draws (hydrateCredentials accesses.reads accesses.writes
      (validate draws o) vault).1)).map Prod.fst).Nodup
    rw [rewritten_keys hsettled]
    exact hnodup
  · intro k kept hk hkept hform hsecret
    obtain ⟨e,he,rfl⟩ := List.mem_map.mp hk
    obtain ⟨i,hi⟩ := List.getElem?_of_mem he
    have hslot : (credentialSlots (validate draws o))[i]? = some (e.1,"") := by
      rw [hfound,foundSlots,List.getElem?_map,hi,Option.map_some,htexts e he,secretForm_empty]
    have hheld : orElse (vault.secrets e.1) "" = kept := by
      rw [hsecret]
      exact if_neg hkept
    obtain ⟨hreturned,hholds⟩ := rewritten_slot accesses draws hsettled hnodup hslot (secretForm_empty e.1)
      hform hheld fun _ h => absurd rfl h
    exact ⟨i,hreturned,hholds⟩

end Kept

end Config
end WormholeObservatory
