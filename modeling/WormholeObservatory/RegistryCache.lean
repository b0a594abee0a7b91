import WormholeObservatory.RegistryFormat
import WormholeObservatory.Runs

/-! The cached provider registry: a payload and its signature in two files, replaced one after the
other by a refresh and checked together by every load. -/
namespace WormholeObservatory
namespace Registry

open Transition

/-- What does not change while registries are loaded and refreshed. `published` says of a payload
and the bytes of a signature that the publisher has signed the one with the other. -/
structure Installation (β : Type) extends Host β where
  published : β → β → Bool
  publicKey : Bool
  bundledPayload : β

/-- The two files, as far as they exist. -/
structure Files (β : Type) where
  registry : Option β
  signature : Option β

section Loading

variable [DigitTables] {β : Type} (inst : Installation β)

/-- `verify_registry_signature`. -/
def verifyRegistrySignature (payload signature : β) : Except RegistryError Unit :=
  if inst.published payload signature then .ok ()
  else .error (.registry "Provider registry signature verification failed.")

def bundledRegistry : Except RegistryError ProviderRegistry :=
  parseRegistry inst.toHost inst.bundledPayload "bundled_registry"

/-- A payload with its signature, as a refresh and a load accept it. -/
def signedRegistry (payload signature : β) : Except RegistryError ProviderRegistry := do
  verifyRegistrySignature inst payload signature
  parseRegistry inst.toHost payload "online_registry"

/-- `load_provider_registry`. -/
def loadProviderRegistry (preferCached : Bool) (files : Files β) :
    Except RegistryError ProviderRegistry :=
  match bundledRegistry inst with
  | .error e => .error e
  | .ok bundled =>
    if !preferCached then .ok bundled
    else
      match files.registry,files.signature with
      | some payload,some signature =>
        if !inst.publicKey then .ok bundled
        else
          match signedRegistry inst payload signature with
          | .error (.registry _) => .ok bundled
          | .error .other => .error .other
          | .ok cached => .ok (if cached.versionKey < bundled.versionKey then bundled else cached)
      | _,_ => .ok bundled

/-- `refresh_provider_registry` up to its first write: what its own load returned, if it got so
far, and whether it goes on to write. -/
def beginRefresh (payload signature : β) (files : Files β) :
    Option ProviderRegistry × Except RegistryError Unit :=
  if !inst.publicKey then
    (none,.error (.registry
      "Remote provider registry updates require a reviewed Ed25519 public key."))
  else if maxRegistryBytes < inst.size payload then
    (none,.error (.registry "Provider registry exceeds the maximum allowed size."))
  else
    match signedRegistry inst payload signature with
    | .error e => (none,.error e)
    | .ok registry =>
      match loadProviderRegistry inst true files with
      | .error e => (none,.error e)
      | .ok current =>
        if registry.versionKey < current.versionKey then
          (some current,.error (.registry "Provider registry downgrade was rejected."))
        else (some current,.ok ())

/-- Where a refresh is: it has accepted a payload, or it has replaced the first file. `current` is
what its load has returned. -/
inductive Phase (β : Type)
  | idle
  | accepted (payload signature : β) (current : ProviderRegistry)
  | halfway (signature : β) (current : ProviderRegistry)

/-- `loaded` lists what loads have returned, the latest first. -/
structure World (β : Type) where
  files : Files β
  phase : Phase β
  loaded : List ProviderRegistry

inductive Label (β : Type)
  | load (preferCached : Bool)
  | refresh (payload signature : β)
  | writeRegistry
  | writeSignature
  | stop

/-- One step of a refresh, a load at any time, or the end of the process. -/
def step (s : World β) : Label β → World β
  | .load preferCached =>
    match loadProviderRegistry inst preferCached s.files with
    | .ok registry => { s with loaded := registry::s.loaded }
    | .error _ => s
  | .refresh payload signature =>
    match s.phase,beginRefresh inst payload signature s.files with
    | .idle,(some current,.ok ()) =>
      { s with phase := .accepted payload signature current, loaded := current::s.loaded }
    | .idle,(some current,.error _) => { s with loaded := current::s.loaded }
    | _,_ => s
  | .writeRegistry =>
    match s.phase with
    | .accepted payload signature current =>
      { s with files := { s.files with registry := some payload }, phase := .halfway signature current }
    | _ => s
  | .writeSignature =>
    match s.phase with
    | .halfway signature _ =>
      { s with files := { s.files with signature := some signature }, phase := .idle }
    | _ => s
  | .stop => { s with phase := .idle }

end Loading

section Runs

variable [DigitTables] {β : Type} (inst : Installation β)

/-- A payload that is there with a signature is signed by it. -/
def Files.Intact (files : Files β) : Prop :=
  ∀ payload signature, files.registry = some payload → files.signature = some signature →
    inst.published payload signature = true

/-- The registry's version is not above that of the bundled one. -/
def NotAboveBundled (r : ProviderRegistry) : Prop :=
  ∀ bundled, bundledRegistry inst = .ok bundled → r.versionKey ≤ bundled.versionKey

def NotBelowBundled (r : ProviderRegistry) : Prop :=
  ∀ bundled, bundledRegistry inst = .ok bundled → bundled.versionKey ≤ r.versionKey

/-- Between the two writes of a refresh there is neither a load nor the end of the process, unless
the old signature is also one of the new payload or nothing above the bundled version was
cached. -/
def Safe (s : World β) (l : Label β) : Prop :=
  l ≠ .load false ∧ ∀ signature current, s.phase = .halfway signature current →
    l = .stop ∨ l = .load true → s.files.Intact inst ∨ NotAboveBundled inst current

/-- The versions that loads have returned, one after the other, never get lower. -/
structure NeverLower (loaded : List ProviderRegistry) : Prop where
  ordered : loaded.Pairwise fun later earlier => earlier.versionKey ≤ later.versionKey
  bundled : ∀ r ∈ loaded, NotBelowBundled inst r

variable {inst}

theorem signedRegistry_ok {payload signature : β} {r : ProviderRegistry}
    (h : signedRegistry inst payload signature = .ok r) :
    inst.published payload signature = true ∧
      parseRegistry inst.toHost payload "online_registry" = .ok r := by
  simp only [signedRegistry,verifyRegistrySignature] at h
  by_cases hpublished : inst.published payload signature = true
  · rw [if_pos hpublished] at h
    exact ⟨hpublished,h⟩
  · rw [if_neg hpublished] at h
    cases h

theorem signedRegistry_published {payload signature signature' : β} {r : ProviderRegistry}
    (h : signedRegistry inst payload signature = .ok r)
    (hpublished : inst.published payload signature' = true) :
    signedRegistry inst payload signature' = .ok r := by
  simp only [signedRegistry,verifyRegistrySignature,hpublished,if_true]
  exact (signedRegistry_ok h).2

theorem signedRegistry_unpublished {payload signature : β}
    (h : inst.published payload signature ≠ true) :
    ∃ message, signedRegistry inst payload signature = .error (.registry message) := by
  simp only [signedRegistry,verifyRegistrySignature,if_neg h]
  exact ⟨_,rfl⟩

section Load

variable {bundled : ProviderRegistry} (hbundled : bundledRegistry inst = .ok bundled)
  {files : Files β}
include hbundled

theorem load_unsigned (h : files.signature = none) :
    loadProviderRegistry inst true files = .ok bundled := by
  simp only [loadProviderRegistry,hbundled,h]
  cases files.registry <;> rfl

theorem load_torn {payload signature : β} (hpayload : files.registry = some payload)
    (hsignature : files.signature = some signature)
    (h : inst.published payload signature ≠ true) :
    loadProviderRegistry inst true files = .ok bundled := by
  obtain ⟨message,herror⟩ := signedRegistry_unpublished h
  simp [loadProviderRegistry,hbundled,hpayload,hsignature,herror]

theorem load_signed {payload signature : β} {r : ProviderRegistry} (hkey : inst.publicKey = true)
    (hpayload : files.registry = some payload) (hsignature : files.signature = some signature)
    (h : signedRegistry inst payload signature = .ok r)
    (hnewer : bundled.versionKey ≤ r.versionKey) :
    loadProviderRegistry inst true files = .ok r := by
  simp [loadProviderRegistry,hbundled,hpayload,hsignature,h,hkey,not_lt.mpr hnewer]

end Load

theorem load_bundled {preferCached : Bool} {files : Files β} {r : ProviderRegistry}
    (h : loadProviderRegistry inst preferCached files = .ok r) :
    ∃ bundled, bundledRegistry inst = .ok bundled := by
  simp only [loadProviderRegistry] at h
  cases hbundled : bundledRegistry inst with
  | error e =>
    rw [hbundled] at h
    cases h
  | ok bundled => exact ⟨bundled,rfl⟩

theorem load_notBelow {preferCached : Bool} {files : Files β} {r : ProviderRegistry}
    (h : loadProviderRegistry inst preferCached files = .ok r) : NotBelowBundled inst r := by
  intro bundled hbundled
  simp only [loadProviderRegistry,hbundled] at h
  split at h
  · cases h
    exact le_rfl
  · split at h
    · split at h
      · cases h
        exact le_rfl
      · split at h
        · cases h
          exact le_rfl
        · cases h
        · cases h
          split
          · exact le_rfl
          · exact not_lt.mp ‹_›
    · cases h
      exact le_rfl

/-- What a refresh has established when it begins to write. -/
structure Accepts (inst : Installation β) (payload signature : β)
    (current registry : ProviderRegistry) : Prop where
  key : inst.publicKey = true
  signed : signedRegistry inst payload signature = .ok registry
  newer : current.versionKey ≤ registry.versionKey

theorem beginRefresh_load {payload signature : β} {files : Files β} {current : ProviderRegistry}
    {outcome : Except RegistryError Unit}
    (h : beginRefresh inst payload signature files = (some current,outcome)) :
    loadProviderRegistry inst true files = .ok current := by
  simp only [beginRefresh] at h
  split at h
  · cases h
  · split at h
    · cases h
    · split at h
      · cases h
      · split at h
        · cases h
        · split at h
          · cases h
            assumption
          · cases h
            assumption

theorem beginRefresh_accepts {payload signature : β} {files : Files β} {current : ProviderRegistry}
    (h : beginRefresh inst payload signature files = (some current,.ok ())) :
    ∃ registry, Accepts inst payload signature current registry := by
  simp only [beginRefresh] at h
  split at h
  · cases h
  · split at h
    · cases h
    · split at h
      · cases h
      · rename_i hkey _ _ registry hsigned
        split at h
        · cases h
        · split at h
          · cases h
          · rename_i hdowngrade
            cases h
            exact ⟨registry,by simpa using hkey,hsigned,not_lt.mp hdowngrade⟩

/-! The invariant. -/

/-- The next load returns nothing lower than the loads before. -/
def Covers (inst : Installation β) (files : Files β) (loaded : List ProviderRegistry) : Prop :=
  ∀ r, loadProviderRegistry inst true files = .ok r → ∀ x ∈ loaded, x.versionKey ≤ r.versionKey

/-- Between the writes: the new payload is in place, and unless it goes with the old signature,
loads have returned nothing above what the refresh itself has loaded. -/
structure Halfway (inst : Installation β) (signature : β) (current : ProviderRegistry)
    (files : Files β) (loaded : List ProviderRegistry) : Prop where
  accepted : ∃ payload registry, files.registry = some payload ∧
    Accepts inst payload signature current registry ∧
    (∀ x ∈ loaded, x.versionKey ≤ registry.versionKey) ∧
    ((∃ old, files.signature = some old ∧ inst.published payload old = true) ∨
      ∀ x ∈ loaded, x.versionKey ≤ current.versionKey)
  returned : current ∈ loaded
  notBelow : NotBelowBundled inst current
  unsigned : files.signature = none → NotAboveBundled inst current

/-- What holds at each point of a refresh. -/
def Held (inst : Installation β) (files : Files β) (loaded : List ProviderRegistry) :
    Phase β → Prop
  | .idle => Covers inst files loaded
  | .accepted payload signature current => Covers inst files loaded ∧
    loadProviderRegistry inst true files = .ok current ∧ current ∈ loaded ∧
    ∃ registry, Accepts inst payload signature current registry
  | .halfway signature current => Halfway inst signature current files loaded

/-- A load of the bundled version is covered where nothing above it has been loaded. -/
theorem covers_of_bundled {files : Files β} {loaded : List ProviderRegistry}
    {current : ProviderRegistry} (hloaded : ∀ x ∈ loaded, x.versionKey ≤ current.versionKey)
    (habove : NotAboveBundled inst current) : Covers inst files loaded := by
  intro r hr x hx
  obtain ⟨bundled,hbundled⟩ := load_bundled hr
  exact (hloaded x hx).trans ((habove bundled hbundled).trans (load_notBelow hr bundled hbundled))

theorem Halfway.covers {signature : β} {current : ProviderRegistry} {files : Files β}
    {loaded : List ProviderRegistry} (h : Halfway inst signature current files loaded)
    (hsafe : files.Intact inst ∨ NotAboveBundled inst current) : Covers inst files loaded := by
  obtain ⟨payload,registry,hpayload,haccepts,hregistry,hpaired⟩ := h.accepted
  by_cases hold : ∃ old, files.signature = some old ∧ inst.published payload old = true
  · obtain ⟨old,hsignature,hpublished⟩ := hold
    intro r hr x hx
    obtain ⟨bundled,hbundled⟩ := load_bundled hr
    have hload := load_signed hbundled haccepts.key hpayload hsignature
      (signedRegistry_published haccepts.signed hpublished)
      ((h.notBelow bundled hbundled).trans haccepts.newer)
    cases hload.symm.trans hr
    exact hregistry x hx
  · have habove : NotAboveBundled inst current := by
      cases hsignature : files.signature with
      | none => exact h.unsigned hsignature
      | some old =>
        refine hsafe.resolve_left fun hintact => hold ⟨old,hsignature,?_⟩
        exact hintact payload old hpayload hsignature
    exact covers_of_bundled (hpaired.resolve_left hold) habove

/-- A load keeps what a halfway refresh has established. -/
theorem Halfway.load {signature : β} {current r : ProviderRegistry} {files : Files β}
    {loaded : List ProviderRegistry} (h : Halfway inst signature current files loaded)
    (hr : loadProviderRegistry inst true files = .ok r) :
    Halfway inst signature current files (r::loaded) := by
  obtain ⟨payload,registry,hpayload,haccepts,hregistry,hpaired⟩ := h.accepted
  obtain ⟨bundled,hbundled⟩ := load_bundled hr
  have hcurrent := h.notBelow bundled hbundled
  refine ⟨⟨payload,registry,hpayload,haccepts,?_⟩,List.mem_cons_of_mem r h.returned,h.notBelow,
    h.unsigned⟩
  by_cases hold : ∃ old, files.signature = some old ∧ inst.published payload old = true
  · have hr' : r = registry := by
      obtain ⟨old,hsignature,hpublished⟩ := hold
      have hload := load_signed hbundled haccepts.key hpayload hsignature
        (signedRegistry_published haccepts.signed hpublished) (hcurrent.trans haccepts.newer)
      cases hr.symm.trans hload
      rfl
    subst hr'
    exact ⟨List.forall_mem_cons.mpr ⟨le_rfl,hregistry⟩,.inl hold⟩
  · have hr' : r = bundled := by
      cases hsignature : files.signature with
      | none =>
        cases hr.symm.trans (load_unsigned hbundled hsignature)
        rfl
      | some old =>
        have htorn : inst.published payload old ≠ true := fun hp => hold ⟨old,hsignature,hp⟩
        cases hr.symm.trans (load_torn hbundled hpayload hsignature htorn)
        rfl
    subst hr'
    refine ⟨List.forall_mem_cons.mpr ⟨hcurrent.trans haccepts.newer,hregistry⟩,.inr ?_⟩
    exact List.forall_mem_cons.mpr ⟨hcurrent,hpaired.resolve_left hold⟩

/-- After the second write the new registry is what is loaded. -/
theorem Halfway.finish {signature : β} {current : ProviderRegistry} {files : Files β}
    {loaded : List ProviderRegistry} (h : Halfway inst signature current files loaded) :
    Covers inst { files with signature := some signature } loaded := by
  obtain ⟨payload,registry,hpayload,haccepts,hregistry,-⟩ := h.accepted
  intro r hr x hx
  obtain ⟨bundled,hbundled⟩ := load_bundled hr
  have hload : loadProviderRegistry inst true { files with signature := some signature } =
      .ok registry := load_signed hbundled haccepts.key hpayload rfl haccepts.signed
    ((h.notBelow bundled hbundled).trans haccepts.newer)
  cases hload.symm.trans hr
  exact hregistry x hx

theorem NeverLower.cons {files : Files β} {loaded : List ProviderRegistry} {r : ProviderRegistry}
    (h : NeverLower inst loaded) (hcovers : Covers inst files loaded)
    (hr : loadProviderRegistry inst true files = .ok r) : NeverLower inst (r::loaded) :=
  ⟨List.pairwise_cons.mpr ⟨hcovers r hr,h.ordered⟩,
    List.forall_mem_cons.mpr ⟨load_notBelow hr,h.bundled⟩⟩

theorem Covers.cons {files : Files β} {loaded : List ProviderRegistry} {r : ProviderRegistry}
    (hcovers : Covers inst files loaded) (hr : loadProviderRegistry inst true files = .ok r) :
    Covers inst files (r::loaded) := by
  intro r' hr'
  cases hr.symm.trans hr'
  exact List.forall_mem_cons.mpr ⟨le_rfl,hcovers r hr⟩

theorem Held.covers {files : Files β} {loaded : List ProviderRegistry} {phase : Phase β}
    (h : Held inst files loaded phase) (hsafe : ∀ signature current,
      phase = .halfway signature current → files.Intact inst ∨ NotAboveBundled inst current) :
    Covers inst files loaded := by
  cases phase with
  | idle => exact h
  | accepted payload signature current => exact h.1
  | halfway signature current => exact Halfway.covers h (hsafe signature current rfl)

theorem Held.load {files : Files β} {loaded : List ProviderRegistry} {phase : Phase β}
    {r : ProviderRegistry} (h : Held inst files loaded phase)
    (hr : loadProviderRegistry inst true files = .ok r) : Held inst files (r::loaded) phase := by
  cases phase with
  | idle => exact Covers.cons h hr
  | accepted payload signature current =>
    obtain ⟨hcovers,hcurrent,hmem,haccepts⟩ := h
    exact ⟨hcovers.cons hr,hcurrent,List.mem_cons_of_mem r hmem,haccepts⟩
  | halfway signature current => exact Halfway.load h hr

/-- The first write leaves the refresh halfway. -/
theorem Held.write {payload signature : β} {current : ProviderRegistry} {files : Files β}
    {loaded : List ProviderRegistry}
    (h : Held inst files loaded (.accepted payload signature current)) :
    Halfway inst signature current { files with registry := some payload } loaded := by
  obtain ⟨hcovers,hcurrent,hmem,registry,haccepts⟩ := h
  have hloaded := hcovers current hcurrent
  refine ⟨⟨payload,registry,rfl,haccepts,fun x hx => (hloaded x hx).trans haccepts.newer,
    .inr hloaded⟩,hmem,load_notBelow hcurrent,fun hsignature bundled hbundled => ?_⟩
  cases hcurrent.symm.trans (load_unsigned hbundled hsignature)
  exact le_rfl

structure Sound (inst : Installation β) (s : World β) : Prop where
  versions : NeverLower inst s.loaded
  held : Held inst s.files s.loaded s.phase

theorem step_sound {s : World β} {l : Label β} (h : Sound inst s) (hsafe : Safe inst s l) :
    Sound inst (step inst s l) := by
  obtain ⟨hversions,hheld⟩ := h
  cases l with
  | load preferCached =>
    have hprefer : preferCached = true := by
      by_contra hfalse
      rw [Bool.not_eq_true] at hfalse
      subst hfalse
      exact hsafe.1 rfl
    subst hprefer
    simp only [step]
    split
    · rename_i r hr
      have hcovers := hheld.covers fun signature current hphase =>
        hsafe.2 signature current hphase (.inr rfl)
      exact ⟨hversions.cons hcovers hr,hheld.load hr⟩
    · exact ⟨hversions,hheld⟩
  | refresh payload signature =>
    simp only [step]
    split
    · rename_i hphase hbegin
      rw [hphase] at hheld
      have hr := beginRefresh_load hbegin
      exact ⟨hversions.cons hheld hr,Covers.cons hheld hr,hr,List.mem_cons_self,
        beginRefresh_accepts hbegin⟩
    · rename_i hphase hbegin
      rw [hphase] at hheld
      have hr := beginRefresh_load hbegin
      refine ⟨hversions.cons hheld hr,?_⟩
      rw [hphase]
      exact Covers.cons hheld hr
    · exact ⟨hversions,hheld⟩
  | writeRegistry =>
    simp only [step]
    split
    · rename_i hphase
      rw [hphase] at hheld
      exact ⟨hversions,hheld.write⟩
    · exact ⟨hversions,hheld⟩
  | writeSignature =>
    simp only [step]
    split
    · rename_i hphase
      rw [hphase] at hheld
      exact ⟨hversions,Halfway.finish hheld⟩
    · exact ⟨hversions,hheld⟩
  | stop =>
    exact ⟨hversions,hheld.covers fun signature current hphase =>
      hsafe.2 signature current hphase (.inl rfl)⟩

/-- In a run of safe steps, from any two files, the versions that loads return never get lower,
and never lower than the bundled one. Halfway through a refresh whose payload the old signature
does not cover, a load returns the bundled version, whatever was cached before. -/
theorem versions_never_lower {files : Files β} {labels : List (Label β)} {s : World β}
    (hrun : Run (fun s l t => step inst s l = t ∧ Safe inst s l) ⟨files,.idle,[]⟩ labels s) :
    NeverLower inst s.loaded ∧
      ∀ signature current bundled, s.phase = .halfway signature current →
        bundledRegistry inst = .ok bundled → ¬s.files.Intact inst →
          current ∈ s.loaded ∧ loadProviderRegistry inst true s.files = .ok bundled := by
  have hsound : Sound inst s := by
    refine hrun.invariant (Sound inst) (fun s l t h hstep => ?_) ⟨⟨.nil,nofun⟩,nofun⟩
    rw [← hstep.1]
    exact step_sound h hstep.2
  refine ⟨hsound.versions,fun signature current bundled hphase hbundled htorn => ?_⟩
  have hheld := hsound.held
  rw [hphase] at hheld
  refine ⟨Halfway.returned hheld,?_⟩
  simp only [Files.Intact,not_forall] at htorn
  obtain ⟨payload,old,hpayload,hsignature,hunpublished⟩ := htorn
  exact load_torn hbundled hpayload hsignature hunpublished

end Runs

section Releases

/-- Registries without entries: the text of a payload is its version, and that of its signature
as well. The bundled one is of the end of July. -/
def releases : Installation String where
  size := String.length
  decode version := some (.object [("schema_version",.number (some 1) "1"),
    ("registry_version",.str version),("generated_at",.str "2026-07-31T00:00:00Z"),
    ("entries",.list [] "[]")] version)
  floatAtMostZero _ := .error .typeOrValue
  intAtMostZero _ := .error .typeOrValue
  published payload signature := decide (payload = signature)
  publicKey := true
  bundledPayload := "2026.07.31"

/-- The first registry that is downloaded. -/
theorem first_download_kept : ∃ labels s,
    Run (fun s l t => step releases s l = t ∧ Safe releases s l) ⟨⟨none,none⟩,.idle,[]⟩ labels s ∧
      NeverLower releases s.loaded ∧
      s.loaded.map ProviderRegistry.registryVersion = ["2026.08.15","2026.07.31"] := by
  have hrun : Run (fun s l t => step releases s l = t ∧ Safe releases s l)
      ⟨⟨none,none⟩,.idle,[]⟩ _ _ :=
    .cons (a := .refresh "2026.08.15" "2026.08.15") ⟨rfl,nofun,nofun⟩
    (.cons (a := .writeRegistry) ⟨rfl,nofun,nofun⟩
    (.cons (a := .writeSignature) ⟨rfl,nofun,nofun⟩
    (.cons (a := .load true) ⟨rfl,nofun,nofun⟩ (.nil _))))
  exact ⟨_,_,hrun,(versions_never_lower hrun).1,by decide⟩

/-- A stop between the two writes: the newer version is not loaded any more. -/
theorem version_lower_after_stop :
    ¬∀ (inst : Installation String) (files : Files String) (labels : List (Label String)),
      Label.load false ∉ labels →
        NeverLower inst (labels.foldl (step inst) ⟨files,.idle,[]⟩).loaded := by
  intro h
  have hlower := h releases ⟨none,none⟩ [.refresh "2026.08.15" "2026.08.15",.writeRegistry,
    .writeSignature,.load true,.refresh "2026.08.31" "2026.08.31",.writeRegistry,.stop,
    .load true] (by simp)
  exact absurd hlower.ordered (by decide)

end Releases

end Registry
end WormholeObservatory
