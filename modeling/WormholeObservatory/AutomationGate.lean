import WormholeObservatory.Compatibility
import WormholeObservatory.StagingQueue

/-! `Classifier._handle_classification`: from a primary classification to the calls it
leads to, and in particular when it reaches `add_exact_domain`. -/
namespace WormholeObservatory
namespace Automation

inductive AutomationMode
  | manual
  | hybrid
  | auto
  deriving DecidableEq

/-- `AutomationMode(value)`, with the fallback of the resolver. -/
def parseMode (value : String) : AutomationMode :=
  if value = "manual" then .manual else if value = "auto" then .auto else .hybrid

inductive ReviewPriority
  | low
  | normal
  | high
  | critical
  deriving DecidableEq

/-- The automation settings of `LLMOptions`. -/
structure AutomationOptions where
  automationMode : String := "hybrid"
  simulationMode : Bool := true
  defaultRecheckDays : ℤ := 30
  autoActionMinConfidence : ℚ := 19/20
  requireResearchForAutoAction : Bool := true
  tagPolicies : Table String String := ∅
  tagRecheckDays : Table String ℤ := ∅

/-- A row of `domain_tags`. -/
structure TagRow where
  domain : String
  tag : String
  source : String

/-- The `research` entry of a dossier; both it and its count may be missing. -/
structure Dossier where
  decisionRelevantCount : Option ℤ := none

/-- The calls a handled classification leads to, in order. -/
inductive Effect
  | reviewTask (domain reason : String) (priority : ReviewPriority) (source : String)
  | notify (title message : String)
  | addExactDomain (domain : String) (policy : Policy) (comment : String)
  | saveClassification (classification : Classification) (status plannedAction actionStatus : String)

structure AutomaticActionDecision where
  action : Option Policy
  reviewReason : String := ""

section Handle

variable [CaseTables]

/-- `dict.fromkeys(classification.tags or (classification.category,))`. -/
def decisionTags (c : Classification) : List String :=
  (if c.tags = [] then [c.category] else c.tags).eraseDups

/-- `_configured_recheck_days`. -/
def configuredRecheckDays (options : AutomationOptions) (c : Classification) : ℤ :=
  let suggested := max 1
    (if c.recheckAfterDays = 0 then options.defaultRecheckDays else c.recheckAfterDays)
  match ((decisionTags c).filterMap fun tag => options.tagRecheckDays.lookup tag).min? with
  | none => suggested
  | some configured => min suggested (max 1 configured)

/-- `_review_priority`. -/
def reviewPriority (c : Classification) : ReviewPriority :=
  if c.securityRisk ≥ 80 then .critical
  else if c.breakageRisk ≥ 70 ∨ c.serviceRole = .core then .high
  else if c.confidence < 1/2 then .high
  else .normal

/-- `manual_tags`. -/
def manualTags (tagRows : List TagRow) (domain : String) : List String :=
  sortTexts ((tagRows.filter fun row =>
    row.domain = normalizeDomain domain && row.source = "manual").map TagRow.tag)

/-- `apply_manual_tag_override`. -/
def applyManualTagOverride (tagRows : List TagRow) (c : Classification) : Classification :=
  let overrideTags := manualTags tagRows c.domain
  if overrideTags = [] then c else { c with tags := overrideTags }

def tagPolicy (options : AutomationOptions) (tag : String) : String :=
  (options.tagPolicies.lookup tag).getD "manual_review"

/-- The part of `resolve_automatic_decision` that follows the tags. -/
def resolveTags (options : AutomationOptions) (evidenceCount : ℤ) (c : Classification) :
    AutomaticActionDecision :=
  let tags := decisionTags c
  let invalidTags := tags.filter fun tag =>
    tagPolicy options tag ∉ ["allow","deny","manual_review"]
  let manualReviewTags := tags.filter fun tag => tagPolicy options tag = "manual_review"
  let actionable := (tags.map (tagPolicy options)).eraseDups
  if invalidTags ≠ [] then
    ⟨none,"Invalid default policy for tag(s): "++joinWith ", " (sortTexts invalidTags)⟩
  else if manualReviewTags ≠ [] then
    ⟨none,"Manual review is required by tag policy: "++joinWith ", " (sortTexts manualReviewTags)⟩
  else
    match actionable with
    | [value] =>
      let policy := if value = "allow" then Policy.allow else .deny
      if options.requireResearchForAutoAction ∧ evidenceCount ≤ 0 then
        ⟨none,"No decision-relevant structured evidence is available for an automatic "++
          "Pi-hole change."⟩
      else if parseMode options.automationMode = .auto then ⟨some policy,""⟩
      else if c.policy = policy then ⟨some policy,""⟩
      else ⟨none,"The model recommendation does not match the configured tag policy."⟩
    | _ => ⟨none,"Tag policies conflict and no automatic action is safe: "++
        joinWith ", " ((sortTexts tags).map fun tag => tag++"="++tagPolicy options tag)⟩

/-- `resolve_automatic_decision`. -/
def resolveAutomaticDecision (options : AutomationOptions) (evidenceCount : ℤ)
    (c : Classification) : AutomaticActionDecision :=
  if parseMode options.automationMode = .manual then ⟨none,""⟩
  else if c.needsReview then
    ⟨none,orElse c.reviewReason "The model marked the result for manual review."⟩
  else if c.confidence < options.autoActionMinConfidence then ⟨none,""⟩
  else if c.serviceRole = .core ∨ c.serviceRole = .shared then
    ⟨none,"Core or shared service infrastructure must be reviewed manually."⟩
  else if c.breakageRisk ≥ 50 then
    ⟨none,"Breakage risk is too high for an automatic Pi-hole change."⟩
  else resolveTags options evidenceCount c

/-- What the handler reads besides its arguments. -/
structure Records where
  runs : List Behavior.RunRow
  tagRows : List TagRow
  queue : Queue.Database
  profiles : List Compatibility.CompatibilityProfile

/-- The classification with the manual-queue flag, before anything else is applied. -/
def flagManual (options : AutomationOptions) (queueSource : String) (c : Classification) :
    Classification :=
  let manual := startsWith queueSource "manual_"
  { c with
    recheckAfterDays := configuredRecheckDays options c
    needsReview := c.needsReview || manual
    reviewReason := orElse c.reviewReason (if manual then "Manually queued for review." else "") }

/-- The classification the handler works with: flag, profile, guard. -/
def adjusted (options : AutomationOptions) (records : Records) (queueSource : String)
    (c : Classification) : Classification :=
  Compatibility.applyCompatibilityProfile records.profiles records.runs
    (flagManual options queueSource c)

def evidenceCount (dossier : Dossier) : ℤ := dossier.decisionRelevantCount.getD 0

def listPolicy : Queue.ListType → Policy
  | .allow => .allow
  | .deny => .deny

/-- The action that is left after the lock was looked at. -/
def unlockedAction (lock : Option Queue.LockRow) (action : Option Policy) : Option Policy :=
  match lock,action with
  | some lock,some policy => if listPolicy lock.listType = policy then some policy else none
  | _,action => action

def actionName (policy : Policy) : String := if policy = .allow then "whitelist" else "blacklist"

/-- The calls for an action the gate lets through, with the resulting state. -/
def actionEffects (options : AutomationOptions) (c : Classification) (policy : Policy) :
    List Effect × String × String :=
  if options.simulationMode then
    ([.reviewTask c.domain ("Simulation mode: automatic "++actionName policy++
        " would have been applied.") .normal "simulation",
      .notify "Pi-hole Manager" ("Simulation: would "++actionName policy++" "++c.domain++" — "++
        c.short)],"simulation_"++policy.value,"simulated")
  else
    ([.addExactDomain c.domain policy c.short,
      .notify "Pi-hole Manager" (actionName policy++": "++c.domain++" — "++c.short)],
      "auto_"++policy.value,"applied")

/-- The part of the handler that acts, or says why it does not. -/
def act (options : AutomationOptions) (c : Classification) (conflict : Bool) :
    Option Policy → List Effect × String × String
  | some policy => actionEffects options c policy
  | none => ([],if conflict then "locked_conflict" else "classified","none")

def policyTask (c : Classification) (decision : AutomaticActionDecision) : List Effect :=
  if decision.reviewReason = "" then []
  else [.reviewTask c.domain decision.reviewReason (reviewPriority c) "policy"]

def lockTask (c : Classification) (conflict : Bool) : List Effect :=
  if conflict then
    [.reviewTask c.domain "Automatic recommendation conflicts with a protected list entry."
      .critical "lock_conflict"]
  else []

def reviewTask (c : Classification) : List Effect :=
  if c.needsReview || decide (c.policy = .manualReview ∨ c.policy = .unknown) then
    [.reviewTask c.domain (orElse c.reviewReason "The classification requires manual review.")
      (reviewPriority c) "llm"]
  else []

/-- The decision the handler comes to before it looks at the lock. -/
def automaticDecision (options : AutomationOptions) (records : Records) (dossier : Dossier)
    (queueSource : String) (c : Classification) : AutomaticActionDecision :=
  resolveAutomaticDecision options (evidenceCount dossier)
    (applyManualTagOverride records.tagRows (adjusted options records queueSource c))

/-- `Classifier._handle_classification`. -/
def handleClassification (options : AutomationOptions) (records : Records) (dossier : Dossier)
    (queueSource : String) (c₀ : Classification) : List Effect :=
  let c := adjusted options records queueSource c₀
  let decision := automaticDecision options records dossier queueSource c₀
  let lock := Queue.getDomainLock c.domain records.queue
  let action := unlockedAction lock decision.action
  let conflict := decide (decision.action ≠ none ∧ action = none)
  let (acted,status,actionStatus) := act options c conflict action
  policyTask c decision++lockTask c conflict++acted++reviewTask c++
    [.saveClassification c status ((action.map Policy.value).getD "") actionStatus]

end Handle

/-! What the resolver and the effects come to. -/

theorem mem_decisionTags {c : Classification} {tag : String} :
    tag ∈ decisionTags c ↔ tag ∈ if c.tags = [] then [c.category] else c.tags :=
  List.mem_eraseDups

theorem decisionTags_ne_nil (c : Classification) : decisionTags c ≠ [] := by
  have hsome : ∃ tag, tag ∈ decisionTags c := by
    simp only [mem_decisionTags]
    split
    · exact ⟨c.category,by simp⟩
    · rename_i hne
      exact List.exists_mem_of_ne_nil _ hne
  obtain ⟨tag,htag⟩ := hsome
  exact List.ne_nil_of_mem htag

theorem eraseDups_eq_singleton {values : List String} {v : String} :
    values.eraseDups = [v] ↔ values ≠ [] ∧ ∀ x ∈ values, x = v := by
  constructor
  · intro h
    have hmem : ∀ x, x ∈ values ↔ x = v := fun x => by
      rw [← List.mem_eraseDups,h,List.mem_singleton]
    exact ⟨List.ne_nil_of_mem ((hmem v).mpr rfl),fun x hx => (hmem x).mp hx⟩
  · rintro ⟨hne,hall⟩
    obtain ⟨x,rest,rfl⟩ := List.exists_cons_of_ne_nil hne
    have hfilter : rest.filter (fun b => !b == x) = [] := by
      refine List.filter_eq_nil_iff.mpr fun b hb => ?_
      simp [hall b (by simp [hb]),hall x (by simp)]
    rw [List.eraseDups_cons,hfilter,hall x (by simp)]
    rfl

/-- A tag's policy is `allow` or `deny` only if it is configured so. -/
theorem tagPolicy_eq {options : AutomationOptions} {tag value : String}
    (hvalue : value ≠ "manual_review") :
    tagPolicy options tag = value ↔ options.tagPolicies.lookup tag = some value := by
  unfold tagPolicy
  cases options.tagPolicies.lookup tag with
  | none => simpa using hvalue.symm
  | some configured => simp

/-- What the tags, the evidence and the mode have to say for an action to come out. -/
structure TagsPermit (options : AutomationOptions) (evidenceCount : ℤ) (c : Classification)
    (p : Policy) : Prop where
  actionable : p = .allow ∨ p = .deny
  tags : ∀ tag ∈ decisionTags c, options.tagPolicies.lookup tag = some p.value
  evidence : options.requireResearchForAutoAction = true → 0 < evidenceCount
  agreed : parseMode options.automationMode ≠ .auto → c.policy = p

theorem value_ne_manualReview {p : Policy} (h : p = .allow ∨ p = .deny) :
    p.value ≠ "manual_review" := by
  rcases h with rfl | rfl <;> decide

theorem TagsPermit.resolveTags {options : AutomationOptions} {n : ℤ} {c : Classification}
    {p : Policy} (h : TagsPermit options n c p) : (resolveTags options n c).action = some p := by
  have hpolicy : ∀ tag ∈ decisionTags c, tagPolicy options tag = p.value := fun tag htag =>
    (tagPolicy_eq (value_ne_manualReview h.actionable)).mpr (h.tags tag htag)
  have hinvalid : (decisionTags c).filter (fun tag =>
      tagPolicy options tag ∉ ["allow","deny","manual_review"]) = [] := by
    refine List.filter_eq_nil_iff.mpr fun tag htag => ?_
    rw [hpolicy tag htag]
    rcases h.actionable with rfl | rfl <;> decide
  have hmanual : (decisionTags c).filter (fun tag => tagPolicy options tag = "manual_review") =
      [] := by
    refine List.filter_eq_nil_iff.mpr fun tag htag => ?_
    simpa [hpolicy tag htag] using value_ne_manualReview h.actionable
  have hactionable : ((decisionTags c).map (tagPolicy options)).eraseDups = [p.value] := by
    refine eraseDups_eq_singleton.mpr ⟨by simpa using decisionTags_ne_nil c,fun x hx => ?_⟩
    obtain ⟨tag,htag,rfl⟩ := List.mem_map.mp hx
    exact hpolicy tag htag
  have hvalue : (if p.value = "allow" then Policy.allow else .deny) = p := by
    rcases h.actionable with rfl | rfl <;> decide
  have hevidence : ¬ (options.requireResearchForAutoAction = true ∧ n ≤ 0) := by
    rintro ⟨hrequired,hnone⟩
    exact absurd (h.evidence hrequired) (not_lt.mpr hnone)
  simp only [Automation.resolveTags,hinvalid,hmanual,hactionable,ne_eq,not_true_eq_false,if_false,
    hvalue,if_neg hevidence]
  split
  · rfl
  · rename_i hmode
    rw [if_pos (h.agreed hmode)]

theorem tagsPermit_of_resolveTags {options : AutomationOptions} {n : ℤ} {c : Classification}
    {p : Policy} (h : (resolveTags options n c).action = some p) : TagsPermit options n c p := by
  simp only [Automation.resolveTags] at h
  split at h
  · cases h
  · rename_i hinvalid
    split at h
    · cases h
    · rename_i hmanual
      split at h
      · rename_i value hactionable
        obtain ⟨-,hall⟩ := eraseDups_eq_singleton.mp hactionable
        have hpolicy : ∀ tag ∈ decisionTags c, tagPolicy options tag = value :=
          fun tag htag => hall _ (List.mem_map_of_mem htag)
        obtain ⟨first,hfirst⟩ := List.exists_mem_of_ne_nil _ (decisionTags_ne_nil c)
        have hknown : value = "allow" ∨ value = "deny" := by
          have hvalid := List.filter_eq_nil_iff.mp (not_not.mp hinvalid) first hfirst
          have hnot := List.filter_eq_nil_iff.mp (not_not.mp hmanual) first hfirst
          simp only [hpolicy first hfirst,List.mem_cons,List.not_mem_nil,or_false,
            decide_eq_true_eq,not_not] at hvalid hnot
          tauto
        have hvalue : (if value = "allow" then Policy.allow else .deny).value = value := by
          rcases hknown with rfl | rfl <;> decide
        have hact : (if value = "allow" then Policy.allow else .deny) = .allow ∨
            (if value = "allow" then Policy.allow else .deny) = .deny := by
          rcases hknown with rfl | rfl <;> decide
        generalize (if value = "allow" then Policy.allow else .deny) = policy at h hvalue hact
        have hne : policy.value ≠ "manual_review" := value_ne_manualReview hact
        have htags : ∀ tag ∈ decisionTags c, options.tagPolicies.lookup tag = some policy.value :=
          fun tag htag => (tagPolicy_eq hne).mp ((hpolicy tag htag).trans hvalue.symm)
        split at h
        · cases h
        · rename_i hevidence
          have hpositive : options.requireResearchForAutoAction = true → 0 < n :=
            fun hrequired => not_le.mp fun hnone => hevidence ⟨hrequired,hnone⟩
          split at h
          · rename_i hauto
            obtain rfl := Option.some.inj h
            exact ⟨hact,htags,hpositive,fun hmode => absurd hauto hmode⟩
          · split at h
            · rename_i hagreed
              obtain rfl := Option.some.inj h
              exact ⟨hact,htags,hpositive,fun _ => hagreed⟩
            · cases h
      · cases h

theorem resolveAutomaticDecision_action {options : AutomationOptions} {n : ℤ} {c : Classification}
    {p : Policy} : (resolveAutomaticDecision options n c).action = some p ↔
      parseMode options.automationMode ≠ .manual ∧ c.needsReview = false ∧
      options.autoActionMinConfidence ≤ c.confidence ∧
      (c.serviceRole ≠ .core ∧ c.serviceRole ≠ .shared) ∧ c.breakageRisk < 50 ∧
      TagsPermit options n c p := by
  have hresolve : (resolveTags options n c).action = some p ↔ TagsPermit options n c p :=
    ⟨tagsPermit_of_resolveTags,TagsPermit.resolveTags⟩
  rw [← hresolve,resolveAutomaticDecision]
  by_cases hmode : parseMode options.automationMode = .manual
  · simp [hmode]
  · by_cases hreview : c.needsReview = true
    · simp [hmode,hreview]
    · by_cases hconfidence : c.confidence < options.autoActionMinConfidence
      · simp [hmode,hreview,hconfidence]
      · by_cases hrole : c.serviceRole = .core ∨ c.serviceRole = .shared
        · simp only [hmode,hreview,hconfidence,hrole,if_true,if_false]
          rcases hrole with hrole | hrole <;> simp [hrole]
        · by_cases hbreakage : c.breakageRisk ≥ 50
          · simp [hmode,hreview,hconfidence,hrole,hbreakage]
          · simp only [hmode,hreview,hconfidence,hrole,hbreakage,if_false,Bool.false_eq_true]
            rw [not_or] at hrole
            simp [hmode,not_lt.mp hconfidence,hrole,not_le.mp hbreakage]

/-- A decision has an action or a reason, not both. -/
theorem resolveTags_exclusive (options : AutomationOptions) (n : ℤ) (c : Classification) :
    (resolveTags options n c).action = none ∨
      (resolveTags options n c).reviewReason = "" := by
  unfold resolveTags
  dsimp only
  split
  · exact .inl rfl
  split
  · exact .inl rfl
  split
  · rename_i value _
    generalize (if value = "allow" then Policy.allow else Policy.deny) = policy
    split
    · exact .inl rfl
    split
    · exact .inr rfl
    split
    · exact .inr rfl
    · exact .inl rfl
  · exact .inl rfl

theorem resolveAutomaticDecision_exclusive (options : AutomationOptions) (n : ℤ)
    (c : Classification) :
    (resolveAutomaticDecision options n c).action = none ∨
      (resolveAutomaticDecision options n c).reviewReason = "" := by
  unfold resolveAutomaticDecision
  split_ifs
  · exact .inl rfl
  · exact .inl rfl
  · exact .inl rfl
  · exact .inl rfl
  · exact .inl rfl
  · exact resolveTags_exclusive options n c

theorem unlockedAction_eq_some {lock : Option Queue.LockRow} {action : Option Policy} {p : Policy} :
    unlockedAction lock action = some p ↔
      action = some p ∧ ∀ row, lock = some row → listPolicy row.listType = p := by
  cases lock with
  | none => simp [unlockedAction]
  | some row =>
    cases action with
    | none => simp [unlockedAction]
    | some policy =>
      simp only [unlockedAction,Option.some.injEq,forall_eq']
      split
      · rename_i hsame
        rw [Option.some.injEq]
        exact ⟨fun heq => ⟨heq,hsame.trans heq⟩,fun h => h.1⟩
      · rename_i hother
        refine ⟨fun h => (by cases h),?_⟩
        rintro ⟨rfl,hsame⟩
        exact absurd hsame hother

theorem mem_actionEffects {options : AutomationOptions} {c : Classification} {policy p : Policy}
    {d s : String} : .addExactDomain d p s ∈ (actionEffects options c policy).1 ↔
      options.simulationMode = false ∧ d = c.domain ∧ p = policy ∧ s = c.short := by
  unfold actionEffects
  cases options.simulationMode <;> simp

theorem notMem_policyTask (c : Classification) (decision : AutomaticActionDecision) (d : String)
    (p : Policy) (s : String) : .addExactDomain d p s ∉ policyTask c decision := by
  unfold policyTask
  split <;> simp

theorem notMem_lockTask (c : Classification) (conflict : Bool) (d : String) (p : Policy)
    (s : String) : .addExactDomain d p s ∉ lockTask c conflict := by
  unfold lockTask
  split <;> simp

theorem notMem_reviewTask (c : Classification) (d : String) (p : Policy) (s : String) :
    .addExactDomain d p s ∉ reviewTask c := by
  unfold reviewTask
  split <;> simp

theorem mem_act {options : AutomationOptions} {c : Classification} {conflict : Bool}
    {action : Option Policy} {d : String} {p : Policy} {s : String} :
    .addExactDomain d p s ∈ (act options c conflict action).1 ↔
      action = some p ∧ options.simulationMode = false ∧ d = c.domain ∧ s = c.short := by
  cases action with
  | none => simp [act]
  | some policy =>
    simp only [act,mem_actionEffects,Option.some.injEq]
    constructor
    · rintro ⟨hlive,hd,rfl,hs⟩
      exact ⟨rfl,hlive,hd,hs⟩
    · rintro ⟨rfl,hlive,hd,hs⟩
      exact ⟨hlive,hd,rfl,hs⟩

/-! The gate. -/

section Gate

variable [CaseTables]

/-- The tags the decision goes by: a manual override, else the classification's own, else
its category. -/
def effectiveTags (tagRows : List TagRow) (c : Classification) : List String :=
  if manualTags tagRows c.domain ≠ [] then manualTags tagRows c.domain
  else if c.tags ≠ [] then c.tags
  else [c.category]

/-- Everything that has to hold for an automatic change to `p`. -/
structure Permitted (options : AutomationOptions) (records : Records) (dossier : Dossier)
    (queueSource : String) (c : Classification) (p : Policy) : Prop where
  live : options.simulationMode = false
  automated : parseMode options.automationMode ≠ .manual
  reviewed : (adjusted options records queueSource c).needsReview = false
  confident : options.autoActionMinConfidence ≤ c.confidence
  role : (adjusted options records queueSource c).serviceRole ≠ .core ∧
    (adjusted options records queueSource c).serviceRole ≠ .shared
  breakage : (adjusted options records queueSource c).breakageRisk < 50
  actionable : p = .allow ∨ p = .deny
  tags : ∀ tag ∈ effectiveTags records.tagRows c, options.tagPolicies.lookup tag = some p.value
  evidence : options.requireResearchForAutoAction = true → 0 < evidenceCount dossier
  agreed : parseMode options.automationMode ≠ .auto → c.policy = p
  unlocked : ∀ lock, Queue.getDomainLock c.domain records.queue = some lock →
    listPolicy lock.listType = p

theorem adjusted_sameVerdict (options : AutomationOptions) (records : Records)
    (queueSource : String) (c : Classification) :
    Compatibility.SameVerdict c (adjusted options records queueSource c) := by
  have h := Compatibility.applyCompatibilityProfile_sameVerdict records.profiles records.runs
    (flagManual options queueSource c)
  exact ⟨h.domain,h.policy,h.short,h.tags,h.category,h.confidence⟩

theorem mem_decisionTags_override {tagRows : List TagRow} {c c' : Classification}
    (h : Compatibility.SameVerdict c c') {tag : String} :
    tag ∈ decisionTags (applyManualTagOverride tagRows c') ↔ tag ∈ effectiveTags tagRows c := by
  rw [mem_decisionTags]
  simp only [applyManualTagOverride,effectiveTags,h.domain]
  by_cases hmanual : manualTags tagRows c.domain = []
  · by_cases htags : c.tags = []
    · simp [hmanual,h.tags,h.category,htags]
    · simp [hmanual,h.tags,htags]
  · simp [hmanual]

/-- The decision in terms of the classification that came in. -/
theorem automaticDecision_action {options : AutomationOptions} {records : Records}
    {dossier : Dossier} {queueSource : String} {c : Classification} {p : Policy} :
    (automaticDecision options records dossier queueSource c).action = some p ↔
      parseMode options.automationMode ≠ .manual ∧
      (adjusted options records queueSource c).needsReview = false ∧
      options.autoActionMinConfidence ≤ c.confidence ∧
      ((adjusted options records queueSource c).serviceRole ≠ .core ∧
        (adjusted options records queueSource c).serviceRole ≠ .shared) ∧
      (adjusted options records queueSource c).breakageRisk < 50 ∧
      (p = .allow ∨ p = .deny) ∧
      (∀ tag ∈ effectiveTags records.tagRows c,
        options.tagPolicies.lookup tag = some p.value) ∧
      (options.requireResearchForAutoAction = true → 0 < evidenceCount dossier) ∧
      (parseMode options.automationMode ≠ .auto → c.policy = p) := by
  have hsame := adjusted_sameVerdict options records queueSource c
  have hoverride : ∀ c' : Classification,
      (applyManualTagOverride records.tagRows c').needsReview = c'.needsReview ∧
      (applyManualTagOverride records.tagRows c').confidence = c'.confidence ∧
      (applyManualTagOverride records.tagRows c').serviceRole = c'.serviceRole ∧
      (applyManualTagOverride records.tagRows c').breakageRisk = c'.breakageRisk ∧
      (applyManualTagOverride records.tagRows c').policy = c'.policy := by
    intro c'
    simp only [applyManualTagOverride]
    split <;> exact ⟨rfl,rfl,rfl,rfl,rfl⟩
  obtain ⟨hreview,hconfidence,hrole,hbreakage,hpolicy⟩ :=
    hoverride (adjusted options records queueSource c)
  rw [automaticDecision,resolveAutomaticDecision_action,hreview,hconfidence,hrole,hbreakage,
    hsame.confidence]
  have htags : TagsPermit options (evidenceCount dossier)
      (applyManualTagOverride records.tagRows (adjusted options records queueSource c)) p ↔
      (p = .allow ∨ p = .deny) ∧ (∀ tag ∈ effectiveTags records.tagRows c,
        options.tagPolicies.lookup tag = some p.value) ∧
      (options.requireResearchForAutoAction = true → 0 < evidenceCount dossier) ∧
      (parseMode options.automationMode ≠ .auto → c.policy = p) := by
    rw [← hsame.policy,← hpolicy]
    constructor
    · intro h
      exact ⟨h.actionable,fun tag htag => h.tags tag ((mem_decisionTags_override hsame).mpr htag),
        h.evidence,h.agreed⟩
    · rintro ⟨hact,hlookup,hevidence,hagreed⟩
      exact ⟨hact,fun tag htag => hlookup tag ((mem_decisionTags_override hsame).mp htag),
        hevidence,hagreed⟩
  rw [htags]

/-- The handler calls `add_exact_domain` when the decision and the lock agree on it and
simulation is off. -/
theorem mem_handleClassification {options : AutomationOptions} {records : Records}
    {dossier : Dossier} {queueSource : String} {c : Classification} {d : String} {p : Policy}
    {s : String} :
    .addExactDomain d p s ∈ handleClassification options records dossier queueSource c ↔
      ((automaticDecision options records dossier queueSource c).action = some p ∧
        ∀ lock, Queue.getDomainLock c.domain records.queue = some lock →
          listPolicy lock.listType = p) ∧
      options.simulationMode = false ∧ d = c.domain ∧ s = c.short := by
  have hsame := adjusted_sameVerdict options records queueSource c
  simp only [handleClassification,List.mem_append,notMem_policyTask,notMem_lockTask,
    notMem_reviewTask,false_or,or_false,List.mem_singleton,reduceCtorEq]
  rw [mem_act,unlockedAction_eq_some,hsame.domain,hsame.short]

/-- The handler calls `add_exact_domain` exactly when every veto is silent, and then for
its own domain, with the policy of the tags and the short text. -/
theorem handleClassification_adds_iff (options : AutomationOptions) (records : Records)
    (dossier : Dossier) (queueSource : String) (c : Classification) (d : String) (p : Policy)
    (s : String) :
    .addExactDomain d p s ∈ handleClassification options records dossier queueSource c ↔
      Permitted options records dossier queueSource c p ∧ d = c.domain ∧ s = c.short := by
  rw [mem_handleClassification,automaticDecision_action]
  constructor
  · rintro ⟨⟨⟨hmode,hreview,hconfidence,hrole,hbreakage,hact,htags,hevidence,hagreed⟩,hlock⟩,
      hlive,hd,hs⟩
    exact ⟨⟨hlive,hmode,hreview,hconfidence,hrole,hbreakage,hact,htags,hevidence,hagreed,hlock⟩,
      hd,hs⟩
  · rintro ⟨h,hd,hs⟩
    exact ⟨⟨⟨h.automated,h.reviewed,h.confident,h.role,h.breakage,h.actionable,h.tags,h.evidence,
      h.agreed⟩,h.unlocked⟩,h.live,hd,hs⟩

end Gate
end Automation
end WormholeObservatory
