import WormholeObservatory.AutomationGate
import WormholeObservatory.Letters
import WormholeObservatory.ResponseChecks

/-! What the classification keeps of the verdict of a model, with tags in the form in which the
configuration has them. -/
namespace WormholeObservatory
namespace Responses

open Automation (AutomationOptions decisionTags tagPolicy)
open JsonValues (Value ValueTexts field)

/-- The tags that the model returned. -/
def returnedTags (item : Fields) : List String := (entries (field item "tags")).filterMap textOf

/-- The classification says what the result said; last, the automatic decision asks for the
policies of just the tags that were returned. -/
structure Preserved (item : Fields) (c : Classification) : Prop where
  policy : field item "policy" = .str c.policy.value
  category : field item "category" = .str c.category
  tags : ∀ tag, tag ∈ c.tags ↔ tag ∈ returnedTags item
  serviceRole : field item "service_role" = .str c.serviceRole.value
  privacyRisk : field item "privacy_risk" = .int c.privacyRisk
  securityRisk : field item "security_risk" = .int c.securityRisk
  breakageRisk : field item "breakage_risk" = .int c.breakageRisk
  needsReview : field item "needs_review" = .bool true → c.needsReview = true
  policies : ∀ (options : AutomationOptions) (policy : String),
    (∃ tag ∈ decisionTags c, tagPolicy options tag = policy) ↔
      ∃ tag ∈ returnedTags item, tagPolicy options tag = policy

section Words

variable [LetterTables]

theorem normalizePolicy_value (p : Policy) : normalizePolicy p.value = p := by
  have hword : ∀ p : Policy, lowered p.value = p.value := fun p =>
    lowered_of_plain (by cases p <;> decide) (by cases p <;> decide)
  have hvalue : normalizePolicy p.value =
      if replaceChar ' ' '_' p.value ∈ ["allow","allowed","permit","permitted","whitelist"] then .allow
      else if replaceChar ' ' '_' p.value ∈ ["deny","denied","block","blocked","blacklist"] then .deny
      else if replaceChar ' ' '_' p.value ∈ ["manual","review","manual_review","needs_review"]
      then .manualReview
      else .unknown := by
    rw [normalizePolicy,← lowered,hword]
  rw [hvalue]
  cases p <;> decide

theorem normalizeServiceRole_value [ValueTexts] (r : ServiceRole) :
    normalizeServiceRole (.str r.value) = r := by
  have hword : ∀ r : ServiceRole, lowered r.value = r.value := fun r =>
    lowered_of_plain (by cases r <;> decide) (by cases r <;> decide)
  have hvalue : (Value.str r.value).textOr "unknown" = r.value := by
    cases r <;> rfl
  rw [normalizeServiceRole,hvalue,← lowered,hword]
  cases r <;> rfl

/-- With tags in configuration form an allowed tag is settled. -/
theorem allowed_settled {tags : List String} (htags : ∀ tag ∈ tags, normalizeTag tag = tag)
    {tag : String} (h : tag ∈ allowedTags tags) : normalizeTag tag = tag ∧ tag ≠ "" := by
  rw [allowedTags,List.mem_append,List.mem_map] at h
  rcases h with ⟨t,ht,rfl⟩ | h
  · obtain ⟨hmem,hstrip⟩ := List.mem_filter.mp ht
    have hsame : lowered t = t := by
      rw [← htags t hmem,lowered_normalizeTag]
    rw [← lowered,hsame]
    refine ⟨htags t hmem,?_⟩
    rintro rfl
    exact absurd hstrip (by decide)
  · obtain rfl := List.mem_singleton.mp h
    have hword : lowered "unknown" = "unknown" :=
      lowered_of_plain (by decide) (by decide)
    refine ⟨?_,by decide⟩
    rw [normalizeTag,hword]
    decide

variable [ValueTexts]

theorem normalizeTagValue_allowed {tags : List String} (htags : ∀ tag ∈ tags, normalizeTag tag = tag)
    {tag : String} (h : tag ∈ allowedTags tags) :
    normalizeTagValue (.str tag) (allowedTags tags) = tag := by
  obtain ⟨hsettled,hne⟩ := allowed_settled htags h
  rw [normalizeTagValue,JsonValues.Value.textOr_str,if_neg hne,← lowered,← normalizeTag,hsettled,if_pos h]

end Words

section Tags

variable [LetterTables] [ValueTexts] {tags : List String} {item : Fields}

/-- The tags of a classification: those returned but `unknown`, and the category. -/
theorem mem_classificationTags (htags : ∀ tag ∈ tags, normalizeTag tag = tag)
    (h : Leading (allowedTags tags) item) (tag : String) :
    tag ∈ classificationTags item (allowedTags tags) ↔
      tag = text item "category" ∨ tag ∈ returnedTags item ∧ tag ≠ "unknown" := by
  obtain ⟨names,hnames,-,hall,-⟩ := h.tags
  have hcategory : normalizeTagValue (field item "category") (allowedTags tags) = text item "category" := by
    rw [field_text h (by decide),normalizeTagValue_allowed htags h.category]
  have hmap : (names.map Value.str).map (fun value => normalizeTagValue value (allowedTags tags)) =
      names := by
    rw [List.map_map]
    exact (List.map_congr_left fun t ht => normalizeTagValue_allowed htags (hall t ht)).trans
      (List.map_id names)
  have hreturned : returnedTags item = names := by
    rw [returnedTags,hnames,entries,filterMap_names]
  have hmem : tag ∈ (names.filter (· ≠ "unknown")).eraseDups ↔ tag ∈ names ∧ tag ≠ "unknown" := by
    rw [List.mem_eraseDups,List.mem_filter,decide_eq_true_eq]
  rw [classificationTags,hcategory,hnames,tagValues,hmap,hreturned,← hmem]
  split_ifs with hin
  · exact ⟨Or.inr,fun h => h.elim (fun heq => heq ▸ hin) id⟩
  · exact List.mem_cons

omit [LetterTables] [ValueTexts] in
theorem mem_decisionTags {c : Classification} (h : c.tags ≠ []) (tag : String) :
    tag ∈ decisionTags c ↔ tag ∈ c.tags := by
  rw [decisionTags,if_neg h,List.mem_eraseDups]

/-- The classification of an accepted result says what the result said exactly if `unknown` is not
one of several tags it is no category of. -/
theorem verdict_preserved_iff {host : Host} {payload : Fields}
    (htags : ∀ tag ∈ tags, normalizeTag tag = tag)
    (hpayload : validateBatchPayload host payload tags = .ok ())
    (hitem : Value.dict item ∈ entries (field payload "results"))
    (domain provider rawText : String) (options : ReviewOptions) :
    (∃ c, classificationFromPayload item tags domain provider rawText options = .ok c ∧
      Preserved item c) ↔ ("unknown" ∈ returnedTags item → text item "category" = "unknown") := by
  obtain ⟨results,⟨-,-,hresults⟩,hsound⟩ := validateBatchPayload_ok_iff.mp hpayload
  rw [hresults] at hitem
  have hdoc : Documented (allowedTags tags) item := (sound_dict.mp (hsound _ hitem)).2
  obtain ⟨c,hc,-,hpolicy,hcategory,hctags,hrole,hprivacy,hsecurity,hbreakage,hneeds⟩ :=
    classificationFromPayload_documented hdoc tags domain provider rawText options
  have hmem : ∀ tag, tag ∈ c.tags ↔
      tag = text item "category" ∨ tag ∈ returnedTags item ∧ tag ≠ "unknown" := by
    rw [hctags]
    exact mem_classificationTags htags hdoc.toLeading
  have hown : text item "category" ∈ returnedTags item := by
    obtain ⟨names,hnames,-,-,hin⟩ := hdoc.tags
    rw [returnedTags,hnames,entries,filterMap_names]
    exact hin
  constructor
  · rintro ⟨c',hc',hkept⟩ hunknown
    obtain rfl := Except.ok.inj (hc.symm.trans hc')
    rcases (hmem "unknown").mp ((hkept.tags "unknown").mpr hunknown) with heq | ⟨-,hne⟩
    · exact heq.symm
    · exact absurd rfl hne
  · intro hunknown
    have hsame : ∀ tag, tag ∈ c.tags ↔ tag ∈ returnedTags item := by
      intro tag
      rw [hmem]
      constructor
      · rintro (rfl | ⟨hin,-⟩)
        · exact hown
        · exact hin
      · intro hin
        by_cases heq : tag = "unknown"
        · subst heq
          exact .inl (hunknown hin).symm
        · exact .inr ⟨hin,heq⟩
    have hne : c.tags ≠ [] := List.ne_nil_of_mem ((hsame _).mpr hown)
    refine ⟨c,hc,⟨?_,?_,hsame,?_,hprivacy,hsecurity,hbreakage,hneeds,fun options policy => ?_⟩⟩
    · rw [field_text hdoc.toLeading (by decide),hpolicy]
      have hword : ∃ p : Policy, text item "policy" = p.value := by
        have hpolicies := hdoc.policy
        simp only [List.mem_cons,List.not_mem_nil,or_false] at hpolicies
        rcases hpolicies with h | h | h
        · exact ⟨.allow,h⟩
        · exact ⟨.deny,h⟩
        · exact ⟨.manualReview,h⟩
      obtain ⟨p,hp⟩ := hword
      rw [hp,normalizePolicy_value]
    · rw [hcategory,field_text hdoc.toLeading (by decide),
        normalizeTagValue_allowed htags hdoc.category]
    · rw [hrole,field_text hdoc.toLeading (by decide)]
      have hword : ∃ r : ServiceRole, text item "service_role" = r.value := by
        have hroles := hdoc.serviceRole
        simp only [List.mem_cons,List.not_mem_nil,or_false] at hroles
        rcases hroles with h | h | h | h
        · exact ⟨.core,h⟩
        · exact ⟨.optional,h⟩
        · exact ⟨.shared,h⟩
        · exact ⟨.unknown,h⟩
      obtain ⟨r,hr⟩ := hword
      rw [hr,normalizeServiceRole_value]
    · exact exists_congr fun tag => and_congr_left' ((mem_decisionTags hne tag).trans (hsame tag))

end Tags

/-- A result with two tags. -/
def doubted (tags : List String) : Fields :=
  [("domain",.str "ads.example.com"),("policy",.str "deny"),("category",.str "advertising"),
    ("tags",.list (tags.map .str)),("service",.str ""),("service_role",.str "optional"),
    ("privacy_risk",.int 80),("security_risk",.int 0),("breakage_risk",.int 10),
    ("confidence",.float (.finite (49/50))),("needs_review",.bool false),("review_reason",.str ""),
    ("recheck_after_days",.int 30),("short",.str "An ad server."),("details",.str "It serves ads.")]

def answer (item : Fields) : Fields := [("schema_version",.int 1),("results",.list [.dict item])]

/-- The host that decodes nothing, for payloads that are decoded already. -/
def closedHost : Host := ⟨fun _ => .decodeError,stringFieldNames,.refl _⟩

theorem verdict_preserved_iff_single :
    ∃ c, classificationFromPayload (doubted ["advertising"]) ["advertising"] "ads.example.com" "" "" {} =
      .ok c ∧ Preserved (doubted ["advertising"]) c :=
  have haccepted : validateBatchPayload closedHost (answer (doubted ["advertising"])) ["advertising"] =
      .ok () := by
    decide +kernel
  (verdict_preserved_iff (by decide) haccepted (List.mem_singleton.mpr rfl) _ _ _ _).mpr
    (by decide)

/-- The policies of a configuration in which `unknown` is for manual review. -/
def cautious : AutomationOptions where
  tagPolicies := AList.insert "unknown" "manual_review" (AList.insert "advertising" "deny" ∅)

/-- The second tag is lost, and with it the veto it stands for. -/
theorem doubt_dropped :
    validateBatchPayload closedHost (answer (doubted ["advertising","unknown"])) ["advertising"] = .ok () ∧
      (∃ tag ∈ returnedTags (doubted ["advertising","unknown"]), tagPolicy cautious tag = "manual_review") ∧
      (classificationFromPayload (doubted ["advertising","unknown"]) ["advertising"] "ads.example.com"
          "" "" {}).map (fun c => (c.tags,(Automation.resolveAutomaticDecision cautious 1 c).action)) =
        .ok (["advertising"],some .deny) ∧
      ¬ ∃ c, classificationFromPayload (doubted ["advertising","unknown"]) ["advertising"]
        "ads.example.com" "" "" {} = .ok c ∧ Preserved (doubted ["advertising","unknown"]) c := by
  have hrun : (classificationFromPayload (doubted ["advertising","unknown"]) ["advertising"]
      "ads.example.com" "" "" {}).map (fun c => (c.tags,(Automation.resolveAutomaticDecision cautious 1
        c).action)) = .ok (["advertising"],some .deny) := by
    decide +kernel
  refine ⟨by decide +kernel,⟨"unknown",by decide +kernel,by decide +kernel⟩,hrun,?_⟩
  rintro ⟨c,hc,hkept⟩
  rw [hc] at hrun
  have htags : c.tags = ["advertising"] := congrArg Prod.fst (Except.ok.inj hrun)
  have hunknown := (hkept.tags "unknown").mpr (by decide)
  rw [htags] at hunknown
  exact absurd hunknown (by decide)

end Responses
end WormholeObservatory
