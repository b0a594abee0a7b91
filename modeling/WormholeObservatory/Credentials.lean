import WormholeObservatory.ConfigOptions
import WormholeObservatory.Letters
import WormholeObservatory.Slots

/-! The credentials of a configuration and the store of the operating system. Whether the store
answers is given for each single access. -/
namespace WormholeObservatory
namespace Config

inductive CredentialReadState
  | present
  | missing
  | unavailable
  deriving DecidableEq

/-- The store and `_READ_STATES`, what a process remembers of its accesses. A key that is not in the
store has the empty text. -/
structure Vault where
  secrets : String → String
  readStates : String → Option CredentialReadState

/-- `_read_secret`. -/
def readSecret (available : Bool) (key : String) (vault : Vault) :
    (CredentialReadState × String) × Vault :=
  let state : CredentialReadState :=
    if available then if vault.secrets key ≠ "" then .present else .missing else .unavailable
  let value := if available then vault.secrets key else ""
  ((state,value),{ vault with readStates := Function.update vault.readStates key (some state) })

/-- `_write_secret`. -/
def writeSecret (available : Bool) (key value : String) (vault : Vault) : Bool × Vault :=
  if available then
    (true,
      { secrets := Function.update vault.secrets key value
        readStates := Function.update vault.readStates key (some .present) })
  else (false,vault)

/-- `_delete_secret`. Deleting what is not there raises, as a store that is away does. -/
def deleteSecret (available : Bool) (key : String) (vault : Vault) : Bool × Vault :=
  if vault.readStates key = some .unavailable ∨ available = false ∨ vault.secrets key = "" then
    (false,vault)
  else
    (true,
      { secrets := Function.update vault.secrets key ""
        readStates := Function.update vault.readStates key (some .missing) })

section Slots

variable [LetterTables]

def llmKey (p : LLMProviderOptions) : Option String :=
  if strip p.providerId = "" then none else some ("llm/"++strip p.providerId++"/api_key")

def researchKey (p : ResearchProviderOptions) : Option String :=
  let kind := lowered p.kind
  if kind = "" then none else some ("research/"++kind++"/api_key")

def LLMProviderOptions.withApiKey (p : LLMProviderOptions) (apiKey : String) : LLMProviderOptions :=
  { p with apiKey := apiKey }

def ResearchProviderOptions.withApiKey (p : ResearchProviderOptions) (apiKey : String) :
    ResearchProviderOptions :=
  { p with apiKey := apiKey }

def llmSlots (providers : List LLMProviderOptions) : List (String × String) :=
  Slots.slotsOf llmKey LLMProviderOptions.apiKey providers

def researchSlots (providers : List ResearchProviderOptions) : List (String × String) :=
  Slots.slotsOf researchKey ResearchProviderOptions.apiKey providers

/-- `_credential_slots`, with the values the slots have. -/
def credentialSlots (o : Options) : List (String × String) :=
  [("pihole/password",o.pihole.password),("external_trigger/token",o.externalTrigger.token)]++
    (llmSlots o.llmProviders++researchSlots o.researchProviders)

def visitLLM {S : Type} (f : ℕ → S → String → String → String × S) :
    ℕ → S → List LLMProviderOptions → List LLMProviderOptions × S :=
  Slots.visitList llmKey LLMProviderOptions.apiKey LLMProviderOptions.withApiKey f

def visitResearch {S : Type} (f : ℕ → S → String → String → String × S) :
    ℕ → S → List ResearchProviderOptions → List ResearchProviderOptions × S :=
  Slots.visitList researchKey ResearchProviderOptions.apiKey ResearchProviderOptions.withApiKey f

/-- A loop over the slots that may set their values. -/
def visitSecrets {S : Type} (f : ℕ → S → String → String → String × S) (s : S) (o : Options) :
    Options × S :=
  let password := f 0 s "pihole/password" o.pihole.password
  let token := f 1 password.2 "external_trigger/token" o.externalTrigger.token
  let llm := visitLLM f 2 token.2 o.llmProviders
  let research := visitResearch f (2+(llmSlots o.llmProviders).length) llm.2 o.researchProviders
  ({ o with
      pihole := { o.pihole with password := password.1 }
      externalTrigger := { o.externalTrigger with token := token.1 }
      llmProviders := llm.1
      researchProviders := research.1 },
    research.2)

/-- The body of the loop of `hydrate_credentials`: the slot at place `n` reads by `reads n` and
copies by `writes n`. The state carries whether a plain text was copied. -/
def hydrateSlot (reads writes : ℕ → Bool) (n : ℕ) (s : Vault × Bool) (key plaintext : String) :
    String × (Vault × Bool) :=
  let read := readSecret (reads n) key s.1
  match read.1.1 with
  | .present => (read.1.2,read.2,s.2 || plaintext ≠ "")
  | .missing =>
    if plaintext ≠ "" then
      let written := writeSecret (writes n) key plaintext read.2
      (plaintext,written.2,s.2 || written.1)
    else (plaintext,read.2,s.2)
  | .unavailable => (plaintext,read.2,s.2)

/-- `hydrate_credentials`. -/
def hydrateCredentials (reads writes : ℕ → Bool) (o : Options) (vault : Vault) :
    Options × (Vault × Bool) :=
  visitSecrets (hydrateSlot reads writes) (vault,false) o

/-- What `secure_options_payload` does with a slot: the text it leaves in the payload. -/
def secureSlot (answers : ℕ → Bool) (n : ℕ) (vault : Vault) (key value : String) : String × Vault :=
  if value ≠ "" then
    let written := writeSecret (answers n) key value vault
    (if written.1 then "" else value,written.2)
  else ("",(deleteSecret (answers n) key vault).2)

/-- `secure_options_payload`. -/
def secureOptionsPayload (answers : ℕ → Bool) (o : Options) (vault : Vault) : Options × Vault :=
  visitSecrets (secureSlot answers) vault o

/-- A loop over the slots of a configuration is the round over the list of them. -/
theorem visitSecrets_slots {S : Type} (f : ℕ → S → String → String → String × S) (s : S) (o : Options) :
    credentialSlots (visitSecrets f s o).1 = (Slots.visit f 0 s (credentialSlots o)).1 ∧
    (visitSecrets f s o).2 = (Slots.visit f 0 s (credentialSlots o)).2 := by
  have hllm := Slots.visitList_slots llmKey LLMProviderOptions.apiKey
    LLMProviderOptions.withApiKey (fun _ _ => rfl) (fun _ _ => rfl) f
  have hresearch := Slots.visitList_slots researchKey ResearchProviderOptions.apiKey
    ResearchProviderOptions.withApiKey (fun _ _ => rfl) (fun _ _ => rfl) f
  simp only [credentialSlots,visitSecrets,visitLLM,visitResearch,llmSlots,researchSlots,
    Slots.visit_append,Slots.visit,Nat.zero_add,List.cons_append,List.nil_append,(hllm _ _ _).1,
    (hllm _ _ _).2,(hresearch _ _ _).1,(hresearch _ _ _).2,true_and]

/-! The keys. -/

omit [LetterTables] in
theorem mem_llmSlots {e : String × String} {ps : List LLMProviderOptions} :
    e ∈ llmSlots ps ↔ ∃ p ∈ ps, llmKey p = some e.1 ∧ p.apiKey = e.2 :=
  Slots.mem_slotsOf llmKey LLMProviderOptions.apiKey

theorem mem_researchSlots {e : String × String} {ps : List ResearchProviderOptions} :
    e ∈ researchSlots ps ↔ ∃ p ∈ ps, researchKey p = some e.1 ∧ p.apiKey = e.2 :=
  Slots.mem_slotsOf researchKey ResearchProviderOptions.apiKey

omit [LetterTables] in
theorem llmKey_eq {p : LLMProviderOptions} {k : String} (h : llmKey p = some k) :
    k = "llm/"++strip p.providerId++"/api_key" := by
  simp only [llmKey] at h
  split at h
  · cases h
  · exact (Option.some.inj h).symm

theorem researchKey_eq {p : ResearchProviderOptions} {k : String} (h : researchKey p = some k) :
    k = "research/"++lowered p.kind++"/api_key" := by
  simp only [researchKey] at h
  split at h
  · cases h
  · exact (Option.some.inj h).symm

omit [LetterTables] in
/-- What stands between the same two texts. -/
theorem between_inj {front x y back : String} (h : front++x++back = front++y++back) : x = y := by
  have hlist := congrArg String.toList h
  simp only [String.toList_append] at hlist
  exact String.toList_inj.mp (List.append_cancel_left (List.append_cancel_right hlist))

/-- The keys of the three groups begin differently. -/
theorem fixedKeys_ne (o : Options) :
    ∀ e ∈ [("pihole/password",o.pihole.password),("external_trigger/token",o.externalTrigger.token)],
      ∀ e' ∈ llmSlots o.llmProviders++researchSlots o.researchProviders, e.1 ≠ e'.1 := by
  intro e he e' he' hkey
  have hfirst : e.1.toList.head? = some 'p' ∨ e.1.toList.head? = some 'e' := by
    rcases List.mem_cons.mp he with rfl | he
    · exact Or.inl (by simp)
    · obtain rfl := List.mem_singleton.mp he
      exact Or.inr (by simp)
  rw [hkey] at hfirst
  rcases List.mem_append.mp he' with he' | he'
  · obtain ⟨p,-,hp,-⟩ := mem_llmSlots.mp he'
    rw [llmKey_eq hp] at hfirst
    simp at hfirst
  · obtain ⟨p,-,hp,-⟩ := mem_researchSlots.mp he'
    rw [researchKey_eq hp] at hfirst
    simp at hfirst

theorem llmKeys_ne_researchKeys {ps : List LLMProviderOptions} {qs : List ResearchProviderOptions} :
    ∀ e ∈ llmSlots ps, ∀ e' ∈ researchSlots qs, e.1 ≠ e'.1 := by
  intro e he e' he' hkey
  obtain ⟨p,-,hp,-⟩ := mem_llmSlots.mp he
  obtain ⟨q,-,hq,-⟩ := mem_researchSlots.mp he'
  have hfirst := congrArg (fun s => s.toList.head?) hkey
  simp only [llmKey_eq hp,researchKey_eq hq] at hfirst
  simp at hfirst

/-- A configuration without its secrets. -/
def withoutSecrets (o : Options) : Options :=
  { o with
    pihole := { o.pihole with password := "" }
    externalTrigger := { o.externalTrigger with token := "" }
    llmProviders := o.llmProviders.map fun p => p.withApiKey ""
    researchProviders := o.researchProviders.map fun p => p.withApiKey "" }

theorem visitSecrets_withoutSecrets {S : Type} (f : ℕ → S → String → String → String × S) (s : S)
    (o : Options) : withoutSecrets (visitSecrets f s o).1 = withoutSecrets o := by
  simp only [withoutSecrets,visitSecrets,visitLLM,visitResearch]
  rw [Slots.visitList_forget llmKey LLMProviderOptions.apiKey LLMProviderOptions.withApiKey
      (g := fun p => p.withApiKey "") (fun _ _ => rfl),
    Slots.visitList_forget researchKey ResearchProviderOptions.apiKey ResearchProviderOptions.withApiKey
      (g := fun p => p.withApiKey "") (fun _ _ => rfl)]

theorem credentialSlots_withoutSecrets (o : Options) :
    credentialSlots (withoutSecrets o) = (credentialSlots o).map fun e => (e.1,"") := by
  have hllm := Slots.slotsOf_map_put llmKey LLMProviderOptions.apiKey LLMProviderOptions.withApiKey
    (fun _ _ => rfl) (fun _ _ => rfl) "" o.llmProviders
  have hresearch := Slots.slotsOf_map_put researchKey ResearchProviderOptions.apiKey
    ResearchProviderOptions.withApiKey (fun _ _ => rfl) (fun _ _ => rfl) "" o.researchProviders
  simp only [credentialSlots,withoutSecrets,llmSlots,researchSlots,hllm,hresearch,List.map_append,
    List.map_cons,List.map_nil]

/-- Every provider has an id and every source a kind. -/
def Keyed (o : Options) : Prop :=
  (∀ p ∈ o.llmProviders, (llmKey p).isSome = true) ∧
  ∀ p ∈ o.researchProviders, (researchKey p).isSome = true

theorem eq_of_credentialSlots {o o' : Options} (hkeyed : Keyed o)
    (hrest : withoutSecrets o = withoutSecrets o') (hslots : credentialSlots o = credentialSlots o') :
    o = o' := by
  have hllm := congrArg Options.llmProviders hrest
  have hresearch := congrArg Options.researchProviders hrest
  have hpihole := congrArg Options.pihole hrest
  have htrigger := congrArg Options.externalTrigger hrest
  simp only [withoutSecrets] at hllm hresearch hpihole htrigger
  simp only [credentialSlots,List.cons_append,List.nil_append,List.cons_eq_cons,Prod.mk.injEq,
    true_and] at hslots
  obtain ⟨hpassword,htoken,hlists⟩ := hslots
  obtain ⟨hllmSlots,hresearchSlots⟩ := List.append_inj hlists
    (Slots.length_slotsOf llmKey _ LLMProviderOptions.withApiKey (fun _ _ => rfl) hllm)
  have hproviders := Slots.eq_of_slotsOf llmKey _ LLMProviderOptions.withApiKey (fun _ _ => rfl)
    (fun p q h hkey => by cases p; cases q; simp_all [LLMProviderOptions.withApiKey])
    hkeyed.1 hllm hllmSlots
  have hsources := Slots.eq_of_slotsOf researchKey _ ResearchProviderOptions.withApiKey
    (fun _ _ => rfl) (fun p q h hkey => by cases p; cases q; simp_all [ResearchProviderOptions.withApiKey])
    hkeyed.2 hresearch hresearchSlots
  have hpihole : o.pihole = o'.pihole := by
    cases h : o.pihole
    cases h' : o'.pihole
    simp_all
  have htrigger : o.externalTrigger = o'.externalTrigger := by
    cases h : o.externalTrigger
    cases h' : o'.externalTrigger
    simp_all
  simp only [withoutSecrets,Options.mk.injEq] at hrest
  obtain ⟨hversion,hlogging,hnotify,hscans,-,hllmOptions,hresearchOptions,hupdates,hregistry,-,-,
    hpools,hprofiles,-,hui⟩ := hrest
  exact Options.ext hversion hlogging hnotify hscans hpihole hllmOptions hresearchOptions hupdates
    hregistry htrigger hproviders hpools hprofiles hsources hui

end Slots

end Config
end WormholeObservatory
