import WormholeObservatory.BehaviorChange
import WormholeObservatory.Letters
import WormholeObservatory.OrderedDict

/-! The guard over the runs that were saved. `save_classification_run` writes its own snapshot of
a classification; the guard compares the current one with the latest primary run of its domain and
with nothing else. -/
namespace WormholeObservatory
namespace Behavior

/-- Lists are compared as texts are. -/
theorem cons_le_cons_iff {α : Type*} [LinearOrder α] {a b : α} {l l' : List α} :
    a::l ≤ b::l' ↔ a < b ∨ a = b ∧ l ≤ l' := by
  rw [← not_lt,List.cons_lt_cons_iff,← not_lt]
  constructor
  · intro h
    rcases lt_trichotomy a b with hlt | heq | hgt
    · exact .inl hlt
    · exact .inr ⟨heq,fun hl => h (.inr ⟨heq.symm,hl⟩)⟩
    · exact absurd (.inl hgt) h
  · rintro (h | ⟨rfl,h⟩) (h' | ⟨h',hl⟩)
    · exact absurd h (not_lt.mpr h'.le)
    · exact absurd h' h.ne'
    · exact lt_irrefl _ h'
    · exact h hl

section Saving

variable [CaseTables]

/-- `_normalize_tags` on a list. -/
def normalizeTags (tags : List String) : List String :=
  ((tags.filter fun tag => strip tag ≠ "").map fun tag =>
    replaceChar ' ' '_' (CaseTables.lower (strip tag))).eraseDups

/-- `_risk`. -/
def risk (value : ℤ) : ℤ := min 100 (max 0 value)

/-- `classification.tags or (classification.category,)`. -/
def ownTags (c : Classification) : List String := if c.tags = [] then [c.category] else c.tags

/-- The tags a run is saved with. -/
def savedTags (c : Classification) : List String :=
  let tags := normalizeTags (ownTags c)
  if c.category ≠ "" ∧ c.category ∉ tags then c.category::tags else tags

/-- The columns of a saved run that are compared later. -/
def savedSnapshot (c : Classification) : Snapshot where
  policy := c.policy.value
  primaryTag := c.category
  tags := savedTags c
  service := c.service
  serviceRole := c.serviceRole.value
  privacyRisk := risk c.privacyRisk
  securityRisk := risk c.securityRisk
  breakageRisk := risk c.breakageRisk

/-- A call of `save_classification_run` that writes a row: a classification without a name is
refused. -/
structure Saving where
  classification : Classification
  named : normalizeDomain classification.domain ≠ ""
  now : ℤ
  isPrimary : Bool
  model : String := ""
  profile : String := ""

def Saving.domain (s : Saving) : String := normalizeDomain s.classification.domain

def Saving.row (s : Saving) (id : ℤ) : RunRow where
  id := id
  domain := s.domain
  isPrimary := s.isPrimary
  createdAt := s.now
  snapshot := savedSnapshot s.classification
  provider := s.classification.provider
  model := s.model
  profile := s.profile

/-- The table after a history of savings, `last` being the id given last. -/
def rowsFrom (last : ℤ) : List Saving → List RunRow
  | [] => []
  | s::savings => s.row (last+1)::rowsFrom (last+1) savings

/-- `classification_runs` after a history of savings. -/
def runsOf (savings : List Saving) : List RunRow := rowsFrom 0 savings

/-- `s` is the latest primary run of `domain`: none is younger, and among those of the same second
it was saved last. -/
def Latest (savings : List Saving) (domain : String) (s : Saving) : Prop :=
  s.isPrimary = true ∧ s.domain = domain ∧ ∃ before after, savings = before++s::after ∧
    (∀ x ∈ before, x.isPrimary = true → x.domain = domain → x.now ≤ s.now) ∧
    ∀ x ∈ after, x.isPrimary = true → x.domain = domain → x.now < s.now

/-! The head of the history is the latest run. -/

theorem mem_rowsFrom {last : ℤ} {savings : List Saving} {row : RunRow} (h : row ∈ rowsFrom last savings) :
    last < row.id ∧ row.id ≤ last+savings.length ∧ ∃ s ∈ savings, row = s.row row.id := by
  induction savings generalizing last with
  | nil => simp [rowsFrom] at h
  | cons s savings ih =>
    rcases List.mem_cons.mp h with rfl | h
    · refine ⟨by simp [Saving.row],?_,s,by simp,rfl⟩
      simp only [Saving.row,List.length_cons]
      push_cast
      omega
    · obtain ⟨hlow,hhigh,x,hx,hrow⟩ := ih h
      refine ⟨by omega,?_,x,List.mem_cons_of_mem _ hx,hrow⟩
      simp only [List.length_cons]
      push_cast
      omega

theorem rowsFrom_append (last : ℤ) (savings rest : List Saving) :
    rowsFrom last (savings++rest) = rowsFrom last savings++rowsFrom (last+savings.length) rest := by
  induction savings generalizing last with
  | nil => simp [rowsFrom]
  | cons s savings ih =>
    simp only [List.cons_append,rowsFrom,ih,List.length_cons]
    have hlast : last+1+(savings.length : ℤ) = last+((savings.length+1 : ℕ) : ℤ) := by
      push_cast
      ring
    rw [hlast]

/-- The order in which the history lists its rows. -/
def rowKey (row : RunRow) : List ℤ := [-row.createdAt,-row.id]

omit [CaseTables] in
theorem rowKey_le {a b : RunRow} :
    rowKey a ≤ rowKey b ↔ b.createdAt < a.createdAt ∨ b.createdAt = a.createdAt ∧ b.id ≤ a.id := by
  rw [rowKey,rowKey,cons_le_cons_iff,cons_le_cons_iff]
  simp only [neg_lt_neg_iff,neg_inj,le_refl,and_true]
  constructor
  · rintro (h | ⟨h,h'⟩)
    · exact .inl h
    · exact .inr ⟨h.symm,h'.elim le_of_lt Eq.ge⟩
  · rintro (h | ⟨h,h'⟩)
    · exact .inl h
    · exact .inr ⟨h.symm,h'.lt_or_eq.imp id Eq.symm⟩

/-- The first row of a domain's history is that of its latest primary run. -/
theorem primaryHistory_head {savings : List Saving} {domain : String} {s : Saving}
    (h : Latest savings domain s) :
    ∃ id rest, primaryHistory (runsOf savings) domain historyLimit = s.row id::rest := by
  obtain ⟨hprimary,rfl,before,after,rfl,hbefore,hafter⟩ := h
  set id : ℤ := before.length+1 with hid
  set rows := (runsOf (before++s::after)).filter fun row => row.domain = s.domain && row.isPrimary
    with hrows
  have hruns : runsOf (before++s::after) =
      rowsFrom 0 before++s.row id::rowsFrom id after := by
    rw [runsOf,rowsFrom_append,rowsFrom,zero_add]
  have hmem : s.row id ∈ rows := by
    rw [hrows,List.mem_filter,hruns]
    simp [Saving.row,hprimary]
  have hfirst : ∀ row ∈ rows, row ≠ s.row id → ¬ rowKey row ≤ rowKey (s.row id) := by
    intro row hrow hne
    rw [hrows,List.mem_filter,hruns] at hrow
    obtain ⟨hrow,hselect⟩ := hrow
    simp only [Bool.and_eq_true,decide_eq_true_eq] at hselect
    rw [rowKey_le]
    rcases List.mem_append.mp hrow with hrow | hrow
    · obtain ⟨-,hold,x,hx,hxrow⟩ := mem_rowsFrom hrow
      rw [hxrow] at hselect
      have hnow := hbefore x hx hselect.2 hselect.1
      rw [hxrow]
      simp only [Saving.row]
      omega
    · rcases List.mem_cons.mp hrow with heq | hrow
      · exact absurd heq hne
      · obtain ⟨-,-,x,hx,hxrow⟩ := mem_rowsFrom hrow
        rw [hxrow] at hselect
        have hnow := hafter x hx hselect.2 hselect.1
        rw [hxrow]
        simp only [Saving.row]
        omega
  have hhead : ∃ rest, (rows.insertionSort fun a b => rowKey a ≤ rowKey b) = s.row id::rest := by
    have hsorted := List.pairwise_insertionSort (fun a b : RunRow => rowKey a ≤ rowKey b) rows
    have hperm := List.perm_insertionSort (fun a b : RunRow => rowKey a ≤ rowKey b) rows
    cases hlist : rows.insertionSort fun a b => rowKey a ≤ rowKey b with
    | nil =>
      rw [hlist] at hperm
      exact absurd (hperm.mem_iff.mpr hmem) (by simp)
    | cons first rest =>
      rw [hlist] at hsorted hperm
      by_cases hfirst' : first = s.row id
      · exact ⟨rest,by rw [hfirst']⟩
      · have hlater : s.row id ∈ rest :=
          (List.mem_cons.mp (hperm.mem_iff.mpr hmem)).resolve_left (Ne.symm hfirst')
        exact absurd ((List.pairwise_cons.mp hsorted).1 _ hlater)
          (hfirst first (hperm.mem_iff.mp (List.mem_cons_self ..)) hfirst')
  obtain ⟨rest,hrest⟩ := hhead
  refine ⟨id,rest.take 5,?_⟩
  rw [primaryHistory,if_neg (show s.domain ≠ "" from s.named)]
  show ((rows.insertionSort fun a b => rowKey a ≤ rowKey b).take _) = _
  rw [hrest]
  rfl

/-- A comparison run, a run of another domain or an older one leaves the latest run the latest,
wherever in the history it stands. -/
theorem Latest.insert {before after : List Saving} {domain : String} {s x : Saving}
    (h : Latest (before++after) domain s)
    (hx : x.isPrimary = true → x.domain = domain → x.now < s.now) :
    Latest (before++x::after) domain s := by
  obtain ⟨hprimary,hdomain,b,a,hsplit,hb,ha⟩ := h
  refine ⟨hprimary,hdomain,?_⟩
  rcases List.append_eq_append_iff.mp hsplit with ⟨m,rfl,rfl⟩ | ⟨m,rfl,hrest⟩
  · refine ⟨before++x::m,a,by simp,fun y hy hp hd => ?_,ha⟩
    rcases List.mem_append.mp hy with hy | hy
    · exact hb y (List.mem_append_left _ hy) hp hd
    · rcases List.mem_cons.mp hy with rfl | hy
      · exact (hx hp hd).le
      · exact hb y (List.mem_append_right _ hy) hp hd
  · cases m with
    | nil =>
      obtain rfl : s::a = after := hrest
      refine ⟨b++[x],a,by simp,fun y hy hp hd => ?_,ha⟩
      rcases List.mem_append.mp hy with hy | hy
      · exact hb y hy hp hd
      · obtain rfl := List.mem_singleton.mp hy
        exact (hx hp hd).le
    | cons first m =>
      obtain ⟨rfl,rfl⟩ := List.cons.inj hrest
      refine ⟨b,m++x::after,by simp,hb,fun y hy hp hd => ?_⟩
      rcases List.mem_append.mp hy with hy | hy
      · exact ha y (List.mem_append_left _ hy) hp hd
      · rcases List.mem_cons.mp hy with rfl | hy
        · exact hx hp hd
        · exact ha y (List.mem_append_right _ hy) hp hd

/-- No primary run of the domain was saved. -/
def Unseen (savings : List Saving) (domain : String) : Prop :=
  ∀ s ∈ savings, s.isPrimary = true → s.domain ≠ domain

/-- Two histories with the same latest primary run of a domain, or none in either. -/
def SameLatest (savings savings' : List Saving) (domain : String) : Prop :=
  Unseen savings domain ∧ Unseen savings' domain ∨
    ∃ s s', Latest savings domain s ∧ Latest savings' domain s' ∧
      s.classification = s'.classification

/-- What of a report calls for review. -/
structure SameOutcome (r r' : BehaviorChangeReport) : Prop where
  score : r.score = r'.score
  signals : r.signals = r'.signals
  requiresReview : r.requiresReview = r'.requiresReview

theorem primaryHistory_unseen {savings : List Saving} {domain : String} (h : Unseen savings domain) :
    primaryHistory (runsOf savings) domain historyLimit = [] := by
  have hnone : (runsOf savings).filter (fun row => row.domain = domain && row.isPrimary) = [] := by
    refine List.filter_eq_nil_iff.mpr fun row hrow => ?_
    obtain ⟨-,-,s,hs,heq⟩ := mem_rowsFrom hrow
    rw [heq]
    simp only [Saving.row,Bool.and_eq_true,not_and]
    exact fun hdomain hprimary => h s hs hprimary (of_decide_eq_true hdomain)
  simp only [primaryHistory,hnone,List.insertionSort_nil,List.take_nil,ite_self]

/-- The outcome of a comparison depends on the latest primary run alone. -/
theorem outcome_of_sameLatest {savings savings' : List Saving} {c : Classification}
    (h : SameLatest savings savings' (normalizeDomain c.domain)) :
    SameOutcome (behaviorChangeForClassification (runsOf savings) c)
      (behaviorChangeForClassification (runsOf savings') c) := by
  rcases h with ⟨hnone,hnone'⟩ | ⟨s,s',hs,hs',hsame⟩
  · simp only [behaviorChangeForClassification,primaryHistory_unseen hnone,
      primaryHistory_unseen hnone']
    exact ⟨rfl,rfl,rfl⟩
  · obtain ⟨id,rest,hhead⟩ := primaryHistory_head hs
    obtain ⟨id',rest',hhead'⟩ := primaryHistory_head hs'
    simp only [behaviorChangeForClassification,hhead,hhead',compareSnapshots,Saving.row,hsame]
    exact ⟨rfl,rfl,rfl⟩

end Saving

/-! Saving a classification and comparing it with itself. -/

section Neutral

variable [LetterTables]

theorem mem_normalizeTags {tags : List String} {x : String} :
    x ∈ normalizeTags tags ↔ ∃ t ∈ tags, strip t ≠ "" ∧ normalizeTag t = x := by
  simp only [normalizeTags,List.mem_eraseDups,List.mem_map,List.mem_filter,decide_eq_true_eq,
    and_assoc]
  rfl

theorem mem_normalizeTags_again {tags : List String} {x : String} :
    x ∈ normalizeTags (normalizeTags tags) ↔ x ∈ normalizeTags tags := by
  rw [mem_normalizeTags]
  constructor
  · rintro ⟨t,ht,-,rfl⟩
    obtain ⟨u,hu,hblank,rfl⟩ := mem_normalizeTags.mp ht
    rwa [normalizeTag_normalizeTag]
  · intro hx
    obtain ⟨u,hu,hblank,rfl⟩ := mem_normalizeTags.mp hx
    refine ⟨_,hx,?_,normalizeTag_normalizeTag u⟩
    rw [strip_normalizeTag]
    exact fun h => hblank (normalizeTag_eq_empty.mp h)

/-- Tag sets with the same members give no signal. -/
theorem tagsSignal_eq_nil {previous current : Snapshot}
    (h : ∀ x, x ∈ snapshotTags previous ↔ x ∈ snapshotTags current) :
    tagsSignal previous current = [] := by
  have hperm : (snapshotTags previous).Perm (snapshotTags current) :=
    (List.perm_ext_iff_of_nodup (OrderedDict.nodup_eraseDups _) (OrderedDict.nodup_eraseDups _)).mpr h
  have hshared : (snapshotTags previous).filter (· ∈ snapshotTags current) = snapshotTags previous :=
    List.filter_eq_self.mpr fun x hx => decide_eq_true ((h x).mp hx)
  have hlength := hperm.length_eq
  simp only [tagsSignal,hshared]
  rw [if_neg]
  omega

omit [LetterTables] in
theorem risk_eq {value : ℤ} (hlow : 0 ≤ value) (hhigh : value ≤ 100) : risk value = value := by
  rw [risk,max_eq_right hlow,min_eq_right hhigh]

/-- Risks that the database keeps as they are. -/
def RisksInRange (c : Classification) : Prop :=
  (0 ≤ c.privacyRisk ∧ c.privacyRisk ≤ 100) ∧ (0 ≤ c.securityRisk ∧ c.securityRisk ≤ 100) ∧
    (0 ≤ c.breakageRisk ∧ c.breakageRisk ≤ 100)

/-- What was saved of a classification does not differ from it. -/
theorem changeSignals_saved {c : Classification} (hcategory : c.category ∈ normalizeTags (ownTags c))
    (hrisks : RisksInRange c) : changeSignals (savedSnapshot c) (classificationSnapshot c) = [] := by
  obtain ⟨⟨hp,hp'⟩,⟨hs,hs'⟩,⟨hb,hb'⟩⟩ := hrisks
  have hsaved : savedTags c = normalizeTags (ownTags c) := by
    rw [savedTags]
    exact if_neg fun h => h.2 hcategory
  have htags : tagsSignal (savedSnapshot c) (classificationSnapshot c) = [] := by
    refine tagsSignal_eq_nil fun x => ?_
    show x ∈ normalizeTags (savedTags c) ↔ x ∈ normalizeTags (ownTags c).eraseDups
    rw [hsaved,mem_normalizeTags_again,mem_normalizeTags,mem_normalizeTags]
    simp only [List.mem_eraseDups]
  have hrisk : ∀ (field : String) (value high medium : ℤ), 0 < medium →
      riskSignal field value value high medium = [] := by
    intro field value high medium hmedium
    simp [riskSignal,hmedium]
  simp only [changeSignals,htags,List.append_nil]
  simp [policySignal,serviceSignal,roleSignal,primaryTagSignal,savedSnapshot,classificationSnapshot,
    risk_eq hp hp',risk_eq hs hs',risk_eq hb hb',hrisk]

theorem outcome_of_saved {savings : List Saving} {c : Classification} {s : Saving}
    (hs : Latest savings (normalizeDomain c.domain) s) (hsame : s.classification = c)
    (hcategory : c.category ∈ normalizeTags (ownTags c)) (hrisks : RisksInRange c) :
    (behaviorChangeForClassification (runsOf savings) c).score = 0 ∧
      (behaviorChangeForClassification (runsOf savings) c).requiresReview = false := by
  obtain ⟨id,rest,hhead⟩ := primaryHistory_head hs
  have hsignals := changeSignals_saved hcategory hrisks
  simp only [behaviorChangeForClassification,hhead,compareSnapshots,Saving.row,hsame,hsignals]
  exact ⟨by decide,by decide⟩

/-- The guard changes nothing but the call for review, which it only turns on, and the reason,
which it only adds to. -/
theorem applyBehaviorChangeGuard_adds (runs : List RunRow) (c : Classification) :
    ∃ added, applyBehaviorChangeGuard runs c =
      { c with
        needsReview := c.needsReview || (behaviorChangeForClassification runs c).requiresReview
        reviewReason := c.reviewReason++added } := by
  simp only [applyBehaviorChangeGuard]
  split
  · rename_i hreview
    by_cases hempty : c.reviewReason = ""
    · refine ⟨(behaviorChangeForClassification runs c).reviewReason,?_⟩
      simp [hreview,joinReason,hempty]
    · by_cases hpart : contains c.reviewReason
          (behaviorChangeForClassification runs c).reviewReason = true
      · exact ⟨"",by simp [hreview,joinReason,hempty,hpart]⟩
      · refine ⟨" "++(behaviorChangeForClassification runs c).reviewReason,?_⟩
        simp [hreview,joinReason,hempty,hpart,String.append_assoc]
  · rename_i hreview
    exact ⟨"",by simp [hreview]⟩

/-- The guard over every history: only the latest primary run counts, a classification that was
saved is no change to itself, and a call for review is never withdrawn. -/
theorem behavior_change_guard (savings : List Saving) (c : Classification) :
    (∀ savings', SameLatest savings savings' (normalizeDomain c.domain) →
      SameOutcome (behaviorChangeForClassification (runsOf savings) c)
        (behaviorChangeForClassification (runsOf savings') c)) ∧
    (∀ before after x s, savings = before++after → Latest savings (normalizeDomain c.domain) s →
      (x.isPrimary = true → x.domain = normalizeDomain c.domain → x.now < s.now) →
      SameOutcome (behaviorChangeForClassification (runsOf savings) c)
        (behaviorChangeForClassification (runsOf (before++x::after)) c)) ∧
    (∀ s, Latest savings (normalizeDomain c.domain) s → s.classification = c →
      c.category ∈ normalizeTags (ownTags c) → RisksInRange c →
      (behaviorChangeForClassification (runsOf savings) c).score = 0 ∧
        (behaviorChangeForClassification (runsOf savings) c).requiresReview = false) ∧
    ∃ added, applyBehaviorChangeGuard (runsOf savings) c =
      { c with
        needsReview := c.needsReview ||
          (behaviorChangeForClassification (runsOf savings) c).requiresReview
        reviewReason := c.reviewReason++added } := by
  refine ⟨fun savings' h => outcome_of_sameLatest h,fun before after x s hsplit hs hx => ?_,
    fun s hs hsame hcategory hrisks => outcome_of_saved hs hsame hcategory hrisks,
    applyBehaviorChangeGuard_adds _ c⟩
  subst hsplit
  exact outcome_of_sameLatest (.inr ⟨s,s,hs,hs.insert hx,rfl⟩)

end Neutral

def savedClassification : Classification where
  domain := "Ads.example.com."
  policy := .deny
  category := "advertising"
  short := "ads"
  details := "ads"
  provider := "p1"
  tags := ["advertising","Ad Network"]
  service := "Example"
  needsReview := false

/-- A primary run of `savedClassification` and a comparison run that disagrees with it. -/
def sampleSavings : List Saving :=
  [⟨savedClassification,by decide,100,true,"",""⟩,
   ⟨{ savedClassification with policy := .allow, tags := ["payments"] },by decide,200,false,"",""⟩]

theorem behavior_change_guard_saved :
    (behaviorChangeForClassification (runsOf sampleSavings) savedClassification).score = 0 ∧
    (behaviorChangeForClassification (runsOf sampleSavings) savedClassification).requiresReview =
      false := by
  have hlatest : Latest sampleSavings (normalizeDomain savedClassification.domain)
      ⟨savedClassification,by decide,100,true,"",""⟩ := by
    refine ⟨rfl,rfl,[],_,rfl,by simp,fun x hx hprimary => ?_⟩
    obtain rfl := List.mem_singleton.mp hx
    exact absurd hprimary (by decide)
  exact (behavior_change_guard sampleSavings savedClassification).2.2.1 _ hlatest rfl
    (by decide) ⟨by decide,by decide,by decide⟩

end Behavior
end WormholeObservatory
