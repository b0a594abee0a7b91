import WormholeObservatory.LockProtection
import WormholeObservatory.RegistryFormat

/-! Profiles as the loader accepts them, and what a domain that several of them match is
promised: one match is selected, and only its profile raises role and breakage risk. -/
namespace WormholeObservatory
namespace Compatibility

open Registry (Json ConversionError)

/-! The loader. -/

inductive LoadError
  | value (message : String)
  | other
  deriving DecidableEq

/-- `ServiceRole(value)`. -/
def parseServiceRole (value : String) : Option ServiceRole :=
  [ServiceRole.core,.optional,.shared,.unknown].find? fun role => role.value = value

section Load

variable [CaseTables] (toInt : Json → Except ConversionError ℤ)

/-- `_integer`; `toInt` is `int`. -/
def integer (value : Json) (field : String) : Except LoadError ℤ :=
  match value with
  | .bool _ => .error (.value (field++" must be an integer."))
  | value =>
    match toInt value with
    | .ok n => .ok n
    | .error .typeOrValue => .error (.value (field++" must be an integer."))
    | .error .other => .error .other

/-- `_domains`. -/
def domains : Json → List String
  | .list items _ =>
    ((items.map fun item => normalizeDomain (item.textOr "")).filter (· ≠ "")).eraseDups
  | _ => []

/-- `_parse_profile`. -/
def parseProfile : Json → Except LoadError CompatibilityProfile
  | .object fields _ =>
    let text := fun key => strip ((Registry.field fields key).textOr "")
    let protection := strip ((Registry.field fields "protection").textOr "deny_requires_review")
    let exactDomains := domains (Registry.field fields "exact_domains")
    let suffixDomains := domains (Registry.field fields "suffix_domains")
    if text "profile_id" = "" ∨ text "name" = "" ∨ text "reason" = "" then
      .error (.value "Compatibility profiles require profile_id, name, and reason.")
    else if protection ∉ ["deny_requires_review"] then
      .error (.value ("Unsupported compatibility protection mode: "++protection))
    else
      match parseServiceRole ((Registry.field fields "service_role").textOr "core") with
      | none =>
        .error (.value ("Invalid service_role for compatibility profile "++text "profile_id"))
      | some role =>
        if role ∉ [.core,.shared,.optional] then
          .error (.value ("Unsupported service_role for compatibility profile "++text "profile_id"))
        else
          match integer toInt ((fields.lookup "min_breakage_risk").getD (.number (some 80) "80"))
              "min_breakage_risk" with
          | .error e => .error e
          | .ok minBreakageRisk =>
            if ¬(0 ≤ minBreakageRisk ∧ minBreakageRisk ≤ 100) then
              .error (.value "min_breakage_risk must be between 0 and 100.")
            else if exactDomains = [] ∧ suffixDomains = [] then
              .error (.value
                ("Compatibility profile "++text "profile_id"++" requires at least one domain."))
            else .ok {
              profileId := text "profile_id"
              name := text "name"
              serviceRole := role
              minBreakageRisk := minBreakageRisk
              protection := protection
              exactDomains := exactDomains
              suffixDomains := suffixDomains
              reason := text "reason" }
  | _ => .error (.value "Each compatibility profile must be a JSON object.")

/-- The loop over the profiles, with the ids seen so far. -/
def parseProfiles : List String → List Json → Except LoadError (List CompatibilityProfile)
  | _,[] => .ok []
  | seen,raw::rest =>
    match parseProfile toInt raw with
    | .error e => .error e
    | .ok profile =>
      if CaseTables.casefold profile.profileId ∈ seen then
        .error (.value ("Duplicate compatibility profile id: "++profile.profileId))
      else
        match parseProfiles (CaseTables.casefold profile.profileId::seen) rest with
        | .error e => .error e
        | .ok profiles => .ok (profile::profiles)

/-- `load_compatibility_profiles`, from the decoded file. -/
def loadCompatibilityProfiles : Json → Except LoadError (List CompatibilityProfile)
  | .object fields _ =>
    match integer toInt (Registry.field fields "schema_version") "schema_version" with
    | .error e => .error e
    | .ok schemaVersion =>
      if schemaVersion ≠ 1 then
        .error (.value
          ("Unsupported compatibility profile schema version: "++toString schemaVersion))
      else
        match Registry.field fields "profiles" with
        | .list (raw::rest) _ => parseProfiles toInt [] (raw::rest)
        | _ => .error (.value "Compatibility profile file requires at least one profile.")
  | _ => .error (.value "Compatibility profile root must be a JSON object.")

variable {toInt}

theorem parseProfile_protection {raw : Json} {profile : CompatibilityProfile}
    (h : parseProfile toInt raw = .ok profile) : profile.protection = "deny_requires_review" := by
  unfold parseProfile at h
  split at h
  · dsimp only at h
    split at h
    · cases h
    split at h
    · cases h
    · rename_i hmode
      rw [List.mem_singleton,not_not] at hmode
      split at h
      · cases h
      split at h
      · cases h
      split at h
      · cases h
      split at h
      · cases h
      split at h
      · cases h
      · obtain rfl := Except.ok.inj h
        exact hmode
  · cases h

/-- What an accepted list of profiles is like. -/
structure Accepted (profiles : List CompatibilityProfile) : Prop where
  protection : ∀ p ∈ profiles, p.protection = "deny_requires_review"
  ids : (profiles.map fun p => CaseTables.casefold p.profileId).Nodup

theorem parseProfiles_accepted {seen : List String} {raws : List Json}
    {profiles : List CompatibilityProfile} (h : parseProfiles toInt seen raws = .ok profiles) :
    Accepted profiles ∧ ∀ p ∈ profiles, CaseTables.casefold p.profileId ∉ seen := by
  induction raws generalizing seen profiles with
  | nil =>
    obtain rfl := Except.ok.inj h
    exact ⟨⟨by simp,by simp⟩,by simp⟩
  | cons raw rest ih =>
    simp only [parseProfiles] at h
    split at h
    · cases h
    · rename_i profile hprofile
      split at h
      · cases h
      · rename_i hnew
        split at h
        · cases h
        · rename_i others hothers
          obtain rfl := Except.ok.inj h
          obtain ⟨haccepted,hunseen⟩ := ih hothers
          refine ⟨⟨fun p hp => ?_,?_⟩,fun p hp => ?_⟩
          · rcases List.mem_cons.mp hp with rfl | hp
            · exact parseProfile_protection hprofile
            · exact haccepted.protection p hp
          · rw [List.map_cons,List.nodup_cons]
            refine ⟨fun hmem => ?_,haccepted.ids⟩
            obtain ⟨p,hp,heq⟩ := List.mem_map.mp hmem
            exact hunseen p hp (by simp [heq])
          · rcases List.mem_cons.mp hp with rfl | hp
            · exact hnew
            · exact fun hseen => hunseen p hp (List.mem_cons_of_mem _ hseen)

theorem loaded_accepted {payload : Json} {profiles : List CompatibilityProfile}
    (h : loadCompatibilityProfiles toInt payload = .ok profiles) : Accepted profiles := by
  unfold loadCompatibilityProfiles at h
  split at h
  · split at h
    · cases h
    split at h
    · cases h
    split at h
    · exact (parseProfiles_accepted h).1
    · cases h
  · cases h

end Load

/-! Which profiles match, and which match is selected. -/

section Selected

variable [CaseTables] {profiles : List CompatibilityProfile} {domain : String}

/-- A pattern of the profile covers the domain. -/
def Matches (domain : String) (profile : CompatibilityProfile) : Prop :=
  normalizeDomain domain ≠ "" ∧
    (normalizeDomain domain ∈ profile.exactDomains ∨
      ∃ suffix ∈ profile.suffixDomains, normalizeDomain domain = suffix ∨
        endsWith (normalizeDomain domain) ("."++suffix) = true)

theorem matches_iff {p : CompatibilityProfile} :
    (∃ m ∈ compatibilityMatches domain profiles, m.profile = p) ↔ p ∈ profiles ∧ Matches domain p := by
  simp only [compatibilityMatches,Matches]
  split
  · rename_i hempty
    simp [hempty]
  · rename_i hnamed
    simp only [List.mem_insertionSort,List.mem_flatMap,profileMatches,List.mem_append,List.mem_map,
      List.mem_filter,decide_eq_true_eq,Bool.or_eq_true]
    constructor
    · rintro ⟨m,⟨q,hq,hm⟩,rfl⟩
      rcases hm with ⟨pattern,⟨hmem,rfl⟩,rfl⟩ | ⟨suffix,⟨hmem,hcovers⟩,rfl⟩
      · exact ⟨hq,hnamed,.inl hmem⟩
      · exact ⟨hq,hnamed,.inr ⟨suffix,hmem,hcovers⟩⟩
    · rintro ⟨hp,-,hexact | ⟨suffix,hmem,hcovers⟩⟩
      · exact ⟨_,⟨p,hp,.inl ⟨_,⟨hexact,rfl⟩,rfl⟩⟩,rfl⟩
      · exact ⟨_,⟨p,hp,.inr ⟨suffix,⟨hmem,hcovers⟩,rfl⟩⟩,rfl⟩

/-- A match that no match of the domain precedes in the order of the sort key. -/
def First (domain : String) (profiles : List CompatibilityProfile) (m : CompatibilityMatch) : Prop :=
  m ∈ compatibilityMatches domain profiles ∧
    ∀ other ∈ compatibilityMatches domain profiles, matchKey m ≤ matchKey other

theorem first_of_selected {m : CompatibilityMatch}
    (h : compatibilityMatchForDomain domain profiles = some m) : First domain profiles m := by
  have hsorted : (compatibilityMatches domain profiles).Pairwise fun a b => matchKey a ≤ matchKey b := by
    simp only [compatibilityMatches]
    split
    · exact List.Pairwise.nil
    · exact List.pairwise_insertionSort _ _
  simp only [compatibilityMatchForDomain] at h
  obtain ⟨rest,hlist⟩ := List.head?_eq_some_iff.mp h
  rw [hlist] at hsorted
  refine ⟨by simp [hlist],fun other hother => ?_⟩
  rw [hlist] at hother
  rcases List.mem_cons.mp hother with rfl | hother
  · exact le_refl _
  · exact (List.pairwise_cons.mp hsorted).1 other hother

/-- Ids tell accepted profiles apart, so first matches belong to one profile. -/
theorem first_profile (hids : (profiles.map fun p => CaseTables.casefold p.profileId).Nodup)
    {m m' : CompatibilityMatch} (h : First domain profiles m) (h' : First domain profiles m') :
    m.profile = m'.profile := by
  have hkey := le_antisymm (h.2 m' h'.1) (h'.2 m h.1)
  simp only [matchKey,List.cons.injEq] at hkey
  have hid := codes_inj hkey.2.2.2.2
  have hmem := (matches_iff.mp ⟨m,h.1,rfl⟩).1
  have hmem' := (matches_iff.mp ⟨m',h'.1,rfl⟩).1
  exact List.inj_on_of_nodup_map hids hmem hmem' hid

theorem selected_none_iff : compatibilityMatchForDomain domain profiles = none ↔
    ∀ p ∈ profiles, ¬ Matches domain p := by
  rw [compatibilityMatchForDomain,List.head?_eq_none_iff,List.eq_nil_iff_forall_not_mem]
  constructor
  · intro h p hp hmatch
    obtain ⟨m,hm,-⟩ := matches_iff.mpr ⟨hp,hmatch⟩
    exact h m hm
  · intro h m hm
    obtain ⟨hp,hmatch⟩ := matches_iff.mp ⟨m,hm,rfl⟩
    exact h _ hp hmatch

end Selected

/-! What a worker may do to a protected domain. -/

section Denied

open PiHole

variable [CaseTables] {d : String}

omit [CaseTables] in
theorem mutate_profiles (call : Call) (exchange : Exchange) (request : Request)
    (operation : Operation) (resource : Resource) (before after : Option Snapshot) (w : World) :
    (final (mutate call exchange request operation resource before after w)).profiles =
      w.profiles := by
  have hsend : (final (send exchange request w)).profiles = w.profiles := by
    unfold send
    split <;> rfl
  unfold mutate
  cases hresult : send exchange request w with
  | ok _ w' =>
    rw [hresult] at hsend
    simp only [recordPiholeChange]
    cases call.auditFault <;> exact hsend
  | error fault w' =>
    rw [hresult] at hsend
    exact hsend

theorem addExactDomain_profiles (call : Call) (domain policy comment : String)
    (compatibilityOverride : Bool) (w : World) :
    (final (addExactDomain call domain policy comment compatibilityOverride w)).profiles =
      w.profiles := by
  unfold addExactDomain
  split
  · rfl
  split
  · rfl
  split
  · rfl
  · exact mutate_profiles _ _ _ _ _ _ _ _

/-- Without an override no deny rule is added for a domain that a profile matches. -/
theorem addExactDomain_spares {w : World} (hmatch : compatibilityMatchForDomain d w.profiles ≠ none)
    (call : Call) (domain policy comment : String) :
    (final (addExactDomain call domain policy comment false w)).pihole.lookup (.exactDomain .deny d) =
      w.pihole.lookup (.exactDomain .deny d) := by
  unfold addExactDomain
  split
  · rfl
  split
  · rfl
  split
  · rfl
  · rename_i t _ _ _ _ hfree
    have hother : Resource.exactDomain .deny d ≠ .exactDomain t domain := by
      intro heq
      obtain ⟨rfl,rfl⟩ : Queue.ListType.deny = t ∧ d = domain := by simpa using heq
      simp only [compatibilityConflict] at hfree
      split at hfree
      · simp at hfree
      · rename_i hnone
        exact hmatch hnone
    rw [mutate_pihole]
    rcases send_pihole (call.exchange 0) (.add (.exactDomain t domain) ⟨comment,true,[]⟩) w with
      hsame | happly
    · rw [hsame]
    · exact lookup_add_ne happly hother

theorem performEffects_spares (call : Call) (effects : List Automation.Effect) {w : World}
    (hmatch : compatibilityMatchForDomain d w.profiles ≠ none) :
    (final (performEffects call effects w)).pihole.lookup (.exactDomain .deny d) =
      w.pihole.lookup (.exactDomain .deny d) := by
  induction effects generalizing w with
  | nil => rfl
  | cons effect rest ih =>
    cases effect with
    | addExactDomain domain p comment =>
      have hadd := addExactDomain_spares hmatch call domain p.value comment
      have hprofiles := addExactDomain_profiles call domain p.value comment false w
      change (final (EStateM.bind (addExactDomain call domain p.value comment false)
        (fun _ => performEffects call rest) w)).pihole.lookup _ = _
      unfold EStateM.bind
      cases hresult : addExactDomain call domain p.value comment false w with
      | ok a w' =>
        rw [hresult] at hadd hprofiles
        exact (ih (by rw [show w'.profiles = w.profiles from hprofiles]; exact hmatch)).trans hadd
      | error fault w' =>
        rw [hresult] at hadd
        exact hadd
    | saveClassification c status planned actionStatus => rfl
    | reviewTask domain reason priority source => exact ih hmatch
    | notify title message => exact ih hmatch

end Denied

/-! What every matching profile is promised. -/

section Honours

variable [CaseTables] {profiles : List CompatibilityProfile} {runs : List Behavior.RunRow}
  {c : Classification}

/-- The classification heeds every profile that matches its domain, whatever else matches. -/
structure Honours (profiles : List CompatibilityProfile) (runs : List Behavior.RunRow)
    (c : Classification) : Prop where
  role : ∀ p ∈ profiles, Matches c.domain p →
    roleStrength p.serviceRole ≤ roleStrength (applyCompatibilityProfile profiles runs c).serviceRole
  ownRole : roleStrength c.serviceRole ≤
    roleStrength (applyCompatibilityProfile profiles runs c).serviceRole
  breakage : ∀ p ∈ profiles, Matches c.domain p →
    p.minBreakageRisk ≤ (applyCompatibilityProfile profiles runs c).breakageRisk
  ownBreakage : c.breakageRisk ≤ (applyCompatibilityProfile profiles runs c).breakageRisk
  denyReviewed : (∃ p ∈ profiles, Matches c.domain p) → c.policy = .deny →
    (applyCompatibilityProfile profiles runs c).needsReview = true
  reviewKept : c.needsReview = true →
    (applyCompatibilityProfile profiles runs c).needsReview = true
  neverDenied : (∃ p ∈ profiles, Matches c.domain p) →
    ∀ (call : PiHole.Call) (input : PiHole.WorkerInput) (w : PiHole.World), w.profiles = profiles →
      (PiHole.final (PiHole.workerAction call input w)).pihole.lookup (.exactDomain .deny c.domain) =
        w.pihole.lookup (.exactDomain .deny c.domain)

/-- The profile whose match comes first is at least as strict as every other that matches, unless
the classification itself is. -/
def FirstStrictest (profiles : List CompatibilityProfile) (c : Classification) : Prop :=
  ∀ m, First c.domain profiles m → ∀ p ∈ profiles, Matches c.domain p →
    roleStrength p.serviceRole ≤ max (roleStrength c.serviceRole) (roleStrength m.profile.serviceRole) ∧
      p.minBreakageRisk ≤ max c.breakageRisk m.profile.minBreakageRisk

omit [CaseTables] in
theorem roleStrength_stronger (a b : ServiceRole) :
    roleStrength (strongerServiceRole a b) = max (roleStrength a) (roleStrength b) := by
  cases a <;> cases b <;> decide

/-- The role and the risk the selected match leaves. -/
theorem applied_some (runs : List Behavior.RunRow) {m : CompatibilityMatch}
    (h : compatibilityMatchForDomain c.domain profiles = some m) :
    roleStrength (applyCompatibilityProfile profiles runs c).serviceRole =
      max (roleStrength c.serviceRole) (roleStrength m.profile.serviceRole) ∧
    (applyCompatibilityProfile profiles runs c).breakageRisk =
      max c.breakageRisk m.profile.minBreakageRisk ∧
    (m.profile.protection = "deny_requires_review" → c.policy = .deny →
      (applyCompatibilityProfile profiles runs c).needsReview = true) := by
  have hguard := Behavior.applyBehaviorChangeGuard_onlyReview runs (enrich m c)
  simp only [applyCompatibilityProfile,h]
  refine ⟨?_,hguard.breakageRisk,fun hmode hdeny => hguard.needsReview ?_⟩
  · rw [hguard.serviceRole]
    exact roleStrength_stronger _ _
  · simp [enrich,hmode,hdeny]

theorem applied_none (runs : List Behavior.RunRow)
    (h : compatibilityMatchForDomain c.domain profiles = none) :
    (applyCompatibilityProfile profiles runs c).serviceRole = c.serviceRole ∧
      (applyCompatibilityProfile profiles runs c).breakageRisk = c.breakageRisk := by
  have hguard := Behavior.applyBehaviorChangeGuard_onlyReview runs c
  simp only [applyCompatibilityProfile,h]
  exact ⟨hguard.serviceRole,hguard.breakageRisk⟩

/-- For accepted profiles: all that match are heeded exactly if the first is the strictest. -/
theorem compatibility_honours_iff {toInt : Json → Except ConversionError ℤ} {payload : Json}
    (hload : loadCompatibilityProfiles toInt payload = .ok profiles) (runs : List Behavior.RunRow)
    (c : Classification) : Honours profiles runs c ↔ FirstStrictest profiles c := by
  have haccepted := loaded_accepted hload
  have hreview : c.needsReview = true → (applyCompatibilityProfile profiles runs c).needsReview = true :=
    applyCompatibilityProfile_needsReview profiles runs
  cases hselected : compatibilityMatchForDomain c.domain profiles with
  | none =>
    have hnone := selected_none_iff.mp hselected
    obtain ⟨hrole,hbreakage⟩ := applied_none runs hselected
    constructor
    · exact fun _ m _ p hp hmatch => absurd hmatch (hnone p hp)
    · intro _
      exact ⟨fun p hp hmatch => absurd hmatch (hnone p hp),by rw [hrole],
        fun p hp hmatch => absurd hmatch (hnone p hp),by rw [hbreakage],
        fun ⟨p,hp,hmatch⟩ => absurd hmatch (hnone p hp),hreview,
        fun ⟨p,hp,hmatch⟩ => absurd hmatch (hnone p hp)⟩
  | some m =>
    have hfirst := first_of_selected hselected
    have hmode := haccepted.protection _ (matches_iff.mp ⟨m,hfirst.1,rfl⟩).1
    obtain ⟨hrole,hbreakage,hdeny⟩ := applied_some runs hselected
    constructor
    · intro h m' hm' p hp hmatch
      rw [← first_profile haccepted.ids hfirst hm',← hrole,← hbreakage]
      exact ⟨h.role p hp hmatch,h.breakage p hp hmatch⟩
    · intro h
      refine ⟨fun p hp hmatch => hrole ▸ (h m hfirst p hp hmatch).1,hrole ▸ le_max_left _ _,
        fun p hp hmatch => hbreakage ▸ (h m hfirst p hp hmatch).2,hbreakage ▸ le_max_left _ _,
        fun _ => hdeny hmode,hreview,fun _ call input w hprofiles => ?_⟩
      refine performEffects_spares call _ ?_
      rw [hprofiles,hselected]
      exact Option.some_ne_none m

end Honours

/-! An exact pattern of an optional service inside a core domain. -/

deriving instance DecidableEq for CompatibilityProfile

/-- `int` on whole numbers. -/
def wholeNumber : Json → Except ConversionError ℤ
  | .number (some q) _ => .ok (Queue.truncate q)
  | _ => .error .typeOrValue

def rawProfile (id role pattern kind : String) (minimum : ℚ) : Json :=
  .object [("profile_id",.str id),("name",.str id),("reason",.str "r"),("service_role",.str role),
    ("min_breakage_risk",.number (some minimum) ""),(kind,.list [.str pattern] "")] ""

def profileFile (raws : List Json) : Json :=
  .object [("schema_version",.number (some 1) "1"),("profiles",.list raws "")] ""

def coreProfile : CompatibilityProfile :=
  ⟨"core","core",.core,95,"deny_requires_review",[],["example.com"],"r"⟩

def assetsProfile : CompatibilityProfile :=
  ⟨"assets","assets",.optional,10,"deny_requires_review",["cdn.example.com"],[],"r"⟩

def cdnClassification : Classification where
  domain := "cdn.example.com"
  policy := .allow
  category := "content_media"
  short := "assets"
  details := "assets"
  provider := "p1"
  breakageRisk := 5
  needsReview := false

/-- The exact match wins, and the core profile of the same domain counts for nothing. -/
theorem exact_match_hides_core :
    loadCompatibilityProfiles wholeNumber (profileFile
      [rawProfile "core" "core" "example.com" "suffix_domains" 95,
        rawProfile "assets" "optional" "cdn.example.com" "exact_domains" 10]) =
      .ok [coreProfile,assetsProfile] ∧
    (applyCompatibilityProfile [coreProfile,assetsProfile] [] cdnClassification).serviceRole =
      .optional ∧
    (applyCompatibilityProfile [coreProfile,assetsProfile] [] cdnClassification).breakageRisk = 10 ∧
    ¬ Honours [coreProfile,assetsProfile] [] cdnClassification := by
  have hbreakage : (applyCompatibilityProfile [coreProfile,assetsProfile] []
      cdnClassification).breakageRisk = 10 := by decide
  refine ⟨by decide,by decide,hbreakage,fun h => ?_⟩
  have hcore := h.breakage coreProfile (by simp)
    ⟨by decide,.inr ⟨"example.com",by simp [coreProfile],.inr (by decide)⟩⟩
  rw [hbreakage] at hcore
  exact absurd hcore (by decide)

theorem compatibility_honours_iff_core : Honours [coreProfile] [] cdnClassification := by
  have hload : loadCompatibilityProfiles wholeNumber (profileFile
      [rawProfile "core" "core" "example.com" "suffix_domains" 95]) = .ok [coreProfile] := by
    decide
  refine (compatibility_honours_iff hload [] cdnClassification).mpr fun m hm p hp _ => ?_
  have hcore := List.mem_singleton.mp (matches_iff.mp ⟨m,hm.1,rfl⟩).1
  rw [List.mem_singleton.mp hp,hcore]
  exact ⟨le_max_right _ _,le_max_right _ _⟩

end Compatibility
end WormholeObservatory
