import WormholeObservatory.BehaviorChange

/-! `compatibility_profiles`: services that must keep working. A profile that matches a
domain raises the role and the breakage risk of its classification and sends a
deny to review; the behaviour-change guard then has the last word. -/
namespace WormholeObservatory
namespace Compatibility

structure CompatibilityProfile where
  profileId : String
  name : String
  serviceRole : ServiceRole
  minBreakageRisk : ℤ
  protection : String := "deny_requires_review"
  exactDomains : List String
  suffixDomains : List String
  reason : String

inductive MatchType
  | exact
  | suffix
  deriving DecidableEq

structure CompatibilityMatch where
  profile : CompatibilityProfile
  matchedPattern : String
  matchType : MatchType

def roleOrder : ServiceRole → ℤ
  | .core => 0
  | .shared => 1
  | .optional => 2
  | .unknown => 3

/-- The rank of `_stronger_service_role`. -/
def roleStrength : ServiceRole → ℕ
  | .core => 3
  | .shared => 2
  | .optional => 1
  | .unknown => 0

/-- `_stronger_service_role`. -/
def strongerServiceRole (current profile : ServiceRole) : ServiceRole :=
  if roleStrength profile > roleStrength current then profile else current

section Match

variable [CaseTables]

/-- The matches of one profile, exact patterns first. -/
def profileMatches (normalized : String) (profile : CompatibilityProfile) :
    List CompatibilityMatch :=
  (profile.exactDomains.filter (normalized = ·)).map (⟨profile,·,.exact⟩)++
    (profile.suffixDomains.filter fun suffix =>
      normalized = suffix || endsWith normalized ("."++suffix)).map (⟨profile,·,.suffix⟩)

def matchKey (m : CompatibilityMatch) : List ℤ :=
  (if m.matchType = .exact then 0 else 1)::roleOrder m.profile.serviceRole::
    -m.profile.minBreakageRisk::-(m.matchedPattern.length : ℤ)::
    codes (CaseTables.casefold m.profile.profileId)

/-- `compatibility_matches`. -/
def compatibilityMatches (domain : String) (profiles : List CompatibilityProfile) :
    List CompatibilityMatch :=
  let normalized := normalizeDomain domain
  if normalized = "" then []
  else (profiles.flatMap (profileMatches normalized)).insertionSort fun a b =>
    matchKey a ≤ matchKey b

/-- `compatibility_match_for_domain`. -/
def compatibilityMatchForDomain (domain : String) (profiles : List CompatibilityProfile) :
    Option CompatibilityMatch :=
  (compatibilityMatches domain profiles).head?

def compatibilityReason (m : CompatibilityMatch) : String :=
  "Protected compatibility profile '"++m.profile.name++"' matched "++m.matchedPattern++". "++
    m.profile.reason

/-- What a matching profile makes of a classification. -/
def enrich (m : CompatibilityMatch) (c : Classification) : Classification :=
  let guarded := decide (m.profile.protection = "deny_requires_review" ∧ c.policy = .deny)
  { c with
    service := orElse c.service m.profile.name
    serviceRole := strongerServiceRole c.serviceRole m.profile.serviceRole
    breakageRisk := max c.breakageRisk m.profile.minBreakageRisk
    needsReview := c.needsReview || guarded
    reviewReason :=
      if guarded then Behavior.joinReason c.reviewReason (compatibilityReason m)
      else c.reviewReason }

/-- `apply_compatibility_profile`. -/
def applyCompatibilityProfile (profiles : List CompatibilityProfile) (runs : List Behavior.RunRow)
    (c : Classification) : Classification :=
  match compatibilityMatchForDomain c.domain profiles with
  | none => Behavior.applyBehaviorChangeGuard runs c
  | some m => Behavior.applyBehaviorChangeGuard runs (enrich m c)

/-- What neither the profile nor the guard touches. -/
structure SameVerdict (c c' : Classification) : Prop where
  domain : c'.domain = c.domain
  policy : c'.policy = c.policy
  short : c'.short = c.short
  tags : c'.tags = c.tags
  category : c'.category = c.category
  confidence : c'.confidence = c.confidence

theorem applyCompatibilityProfile_sameVerdict (profiles : List CompatibilityProfile)
    (runs : List Behavior.RunRow) (c : Classification) :
    SameVerdict c (applyCompatibilityProfile profiles runs c) := by
  unfold applyCompatibilityProfile
  split
  · have h := Behavior.applyBehaviorChangeGuard_onlyReview runs c
    exact ⟨h.domain,h.policy,h.short,h.tags,h.category,h.confidence⟩
  · rename_i m _
    have h := Behavior.applyBehaviorChangeGuard_onlyReview runs (enrich m c)
    exact ⟨h.domain,h.policy,h.short,h.tags,h.category,h.confidence⟩

theorem applyCompatibilityProfile_needsReview (profiles : List CompatibilityProfile)
    (runs : List Behavior.RunRow) {c : Classification} (h : c.needsReview = true) :
    (applyCompatibilityProfile profiles runs c).needsReview = true := by
  unfold applyCompatibilityProfile
  split
  · exact (Behavior.applyBehaviorChangeGuard_onlyReview runs c).needsReview h
  · rename_i m _
    refine (Behavior.applyBehaviorChangeGuard_onlyReview runs (enrich m c)).needsReview ?_
    simp [enrich,h]

end Match
end Compatibility
end WormholeObservatory
