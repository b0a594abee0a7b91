import WormholeObservatory.WorkerHandling

/-! Whether what needs a human is listed. An open task and the `needs_review` flag of the
`review` row are two records of the same fact; `review_queue_get` reads the second one. -/
namespace WormholeObservatory
namespace Review

open Transition
open Automation (Effect)

/-! The listing shows every flagged row. -/

section Listing

variable {s : Store}

/-- The domains the listing draws on. -/
def involved (s : Store) : List String :=
  ((s.review.select fun _ row => row.needsReview).map Prod.fst++
    (s.queue.staging.select fun _ _ => true).map Prod.fst).dedup

/-- The number of rows the listing involves. -/
def rowsInvolved (s : Store) : ℕ := (involved s).length

theorem length_le_rowsInvolved {domains : List String} (hnodup : domains.Nodup)
    (hsub : ∀ d ∈ domains, d ∈ involved s) : domains.length ≤ rowsInvolved s :=
  (List.subperm_of_subset hnodup hsub).length_le

theorem le_toNat_max {limit : ℤ} {n : ℕ} (h : (n : ℤ) ≤ limit) : n ≤ (max 1 limit).toNat := by
  omega

theorem reviewGet_domains {limit : ℤ} (h : (rowsInvolved s : ℤ) ≤ limit) :
    ((reviewGet limit s).map ReviewItem.domain).Perm
      ((s.review.select fun _ row => row.needsReview).map Prod.fst) := by
  have hlength : (s.review.select fun _ row => row.needsReview).length ≤ (max 1 limit).toNat := by
    have hrows := length_le_rowsInvolved (s := s)
      (Table.nodup_select (fun _ row => row.needsReview) s.review)
      fun d hd => List.mem_dedup.mpr (List.mem_append_left _ hd)
    rw [List.length_map] at hrows
    exact hrows.trans (le_toNat_max h)
  simp only [reviewGet]
  rw [List.take_of_length_le (by rwa [List.length_insertionSort]),List.map_map]
  exact (List.perm_insertionSort _ _).map _

theorem mergeQueued_domains (items : List ReviewItem) (queued : String × Queue.StagingRow) :
    (mergeQueued items queued).map ReviewItem.domain =
      if queued.1 ∈ items.map ReviewItem.domain then items.map ReviewItem.domain
      else items.map ReviewItem.domain++[queued.1] := by
  have hany : (items.any (·.domain = queued.1)) = true ↔ queued.1 ∈ items.map ReviewItem.domain := by
    simp only [List.any_eq_true,decide_eq_true_eq,List.mem_map]
  simp only [mergeQueued,hany]
  split
  · rw [List.map_map]
    refine List.map_congr_left fun item _ => ?_
    simp only [Function.comp_apply]
    split <;> rfl
  · simp [queuedItem,ReviewItem.enqueued]

/-- What merging the queue into a listing does to the domains it shows. -/
theorem merged_domains (queue : List (String × Queue.StagingRow)) (items : List ReviewItem)
    (hnodup : (items.map ReviewItem.domain).Nodup) :
    ((queue.foldl mergeQueued items).map ReviewItem.domain).Nodup ∧
      ∀ d, d ∈ (queue.foldl mergeQueued items).map ReviewItem.domain ↔
        d ∈ items.map ReviewItem.domain ∨ d ∈ queue.map Prod.fst := by
  induction queue generalizing items with
  | nil => exact ⟨hnodup,fun d => by simp⟩
  | cons queued queue ih =>
    have hdomains := mergeQueued_domains items queued
    have hmerged : ((mergeQueued items queued).map ReviewItem.domain).Nodup ∧
        ∀ d, d ∈ (mergeQueued items queued).map ReviewItem.domain ↔
          d ∈ items.map ReviewItem.domain ∨ d = queued.1 := by
      rw [hdomains]
      split
      · rename_i hmem
        exact ⟨hnodup,fun d => ⟨.inl,fun h => h.elim id fun heq => heq ▸ hmem⟩⟩
      · rename_i hnot
        refine ⟨List.nodup_append.mpr ⟨hnodup,List.nodup_singleton _,fun a ha b hb hab => ?_⟩,
          fun d => by simp [List.mem_append]⟩
        rw [List.mem_singleton.mp hb] at hab
        exact hnot (hab ▸ ha)
    obtain ⟨hrest,horigin⟩ := ih _ hmerged.1
    refine ⟨hrest,fun d => ?_⟩
    rw [List.foldl_cons,horigin d,hmerged.2 d,List.map_cons,List.mem_cons,or_assoc]

/-- A flagged row that is not silenced is listed. -/
theorem listed_of_flagged [CaseTables] {d : String} {row : ReviewRow} {now limit : ℤ}
    (hrow : s.review.lookup d = some row) (hflag : row.needsReview = true)
    (hfree : preferenceBlocksReview now d s = false) (hlimit : (rowsInvolved s : ℤ) ≤ limit) :
    d ∈ (reviewQueueGet now limit s).map ReviewItem.domain := by
  have hget := reviewGet_domains hlimit
  have hnodup : ((reviewGet limit s).map ReviewItem.domain).Nodup :=
    hget.nodup_iff.mpr (Table.nodup_select _ _)
  obtain ⟨hcombined,horigin⟩ := merged_domains (stagingList limit s) (reviewGet limit s) hnodup
  have hlength : (combinedRows limit s).length ≤ (max 1 limit).toNat := by
    have hrows := length_le_rowsInvolved (s := s) hcombined fun d' hd' => by
      refine List.mem_dedup.mpr (List.mem_append.mpr (((horigin d').mp hd').imp hget.mem_iff.mp ?_))
      intro hqueued
      obtain ⟨queued,hmem,rfl⟩ := List.mem_map.mp hqueued
      exact List.mem_map_of_mem ((List.perm_insertionSort _ _).mem_iff.mp (List.mem_of_mem_take hmem))
    rw [List.length_map] at hrows
    exact hrows.trans (le_toNat_max hlimit)
  have hmem : d ∈ (combinedRows limit s).map ReviewItem.domain := by
    refine (horigin d).mpr (.inl (hget.mem_iff.mpr ?_))
    exact List.mem_map.mpr ⟨(d,row),Table.mem_select.mpr ⟨hrow,hflag⟩,rfl⟩
  obtain ⟨item,hitem,rfl⟩ := List.mem_map.mp hmem
  refine List.mem_map_of_mem ?_
  have hrows : reviewQueueRows limit s =
      (combinedRows limit s).insertionSort fun a b => a.sortKey ≤ b.sortKey :=
    List.take_of_length_le (by rwa [List.length_insertionSort])
  have hshort : ((reviewQueueRows limit s).filter fun item =>
      !preferenceBlocksReview now item.domain s).length ≤ (max 1 limit).toNat := by
    refine (List.length_filter_le _ _).trans ?_
    rwa [hrows,List.length_insertionSort]
  rw [reviewQueueGet,List.take_of_length_le hshort,List.mem_filter,hrows]
  exact ⟨(List.perm_insertionSort _ _).mem_iff.mpr hitem,by simp [hfree]⟩

end Listing

/-! The calls that write tasks and rows. -/

section Tracking

/-- Every open task has a row that is flagged. -/
def Tracked (s : Store) : Prop :=
  ∀ t ∈ s.tasks, t.status = .opened →
    ∃ row, s.review.lookup t.domain = some row ∧ row.needsReview = true

theorem Tracked.of_eq {s s' : Store} (h : Tracked s) (htasks : s'.tasks = s.tasks)
    (hreview : s'.review = s.review) : Tracked s' := by
  rw [Tracked,htasks,hreview]
  exact h

/-- Clearing flags and resolving the open tasks of the same domains. -/
theorem Tracked.resolve {s s' : Store} (h : Tracked s) (now : ℤ) (decision : String)
    (p : String → Bool) (htasks : s'.tasks = resolveTasks now decision p s.tasks)
    (hreview : ∀ d, p d = false → s'.review.lookup d = s.review.lookup d) : Tracked s' := by
  intro t ht hopen
  rw [htasks] at ht
  obtain ⟨t₀,ht₀,rfl⟩ := List.mem_map.mp ht
  by_cases hp : t₀.status = .opened ∧ p t₀.domain = true
  · rw [if_pos (by simpa using hp)] at hopen
    cases hopen
  · have hkeep : ¬((decide (t₀.status = .opened) && p t₀.domain) = true) := by simpa using hp
    rw [if_neg hkeep] at hopen ⊢
    have hother : p t₀.domain = false := by
      by_contra hne
      exact hp ⟨hopen,by simpa using hne⟩
    rw [hreview _ hother]
    exact h t₀ ht₀ hopen

theorem resolveOpenReviewTasks_tracked (now : ℤ) (domain decision : String) :
    Keeping Tracked (resolveOpenReviewTasks now domain decision) :=
  fun _ hs => hs.resolve now decision (fun d => decide (d = domain)) rfl fun _ _ => rfl

theorem service_tracked {α : Type} (x : PiHole.Service α) : Keeping Tracked (service x) :=
  Keeping.service fun _ hs => hs.of_eq rfl rfl

variable [CaseTables]

theorem markActionApplied_tracked (now : ℤ) (domain action : String) :
    Keeping Tracked (markActionApplied now domain action) := by
  intro s hs
  simp only [markActionApplied]
  split
  · exact hs
  · refine hs.resolve now ("applied_"++normalizePlannedAction action)
      (fun d => decide (d = normalizeDomain domain)) rfl fun d hd => ?_
    have hother : d ≠ normalizeDomain domain := of_decide_eq_false hd
    simp only [after,Table.lookup_update_ne hother]

theorem reviewResolve_tracked (now : ℤ) (domains : List String) (decision : String) :
    Keeping Tracked (reviewResolve now domains decision) := by
  intro s hs
  refine hs.resolve now (orElse (strip decision) "dismissed")
    (fun d => decide (d ∈ (domains.map normalizeDomain).filter (· ≠ ""))) rfl fun d hd => ?_
  have hnot := of_decide_eq_false hd
  simp only [after,reviewResolve,Table.lookup_updateWhere]
  cases s.review.lookup d with
  | none => rfl
  | some row => simp only [Option.map_some,decide_eq_true_eq,if_neg hnot]

theorem setReviewPreference_tracked (now : ℤ) (domain : String) (neverAsk : Bool)
    (postponedUntil : Option ℤ) (lastDecision : String) :
    Keeping Tracked (setReviewPreference now domain neverAsk postponedUntil lastDecision) := by
  intro s hs
  simp only [setReviewPreference]
  split
  · exact hs
  · exact hs.of_eq rfl rfl

/-- A decision keeps what each of its calls keeps. -/
theorem executeDecision_keeping {P : Store → Prop}
    (happly : ∀ call domain comment t,
      Keeping P (service (PiHole.applyDecision call domain comment t)))
    (hleave : ∀ domain, Keeping P (service (PiHole.leaveQueue domain)))
    (hmark : ∀ now domain action, Keeping P (markActionApplied now domain action))
    (hresolve : ∀ now domains decision, Keeping P (reviewResolve now domains decision))
    (hclose : ∀ now domain decision, Keeping P (resolveOpenReviewTasks now domain decision))
    (hprefer : ∀ now domain neverAsk postponedUntil lastDecision,
      Keeping P (setReviewPreference now domain neverAsk postponedUntil lastDecision))
    (call : PiHole.Call) (command : PiHole.ReviewDecisionCommand) :
    Keeping P (executeDecision call command) := by
  have hconclude : ∀ now domain t, Keeping P (concludeDecision now domain t) := fun now domain t =>
    (hmark _ _ _).bind fun _ => (hleave _).bind fun _ => hprefer _ _ _ _ _
  have hvalidated : ∀ domain decision, Keeping P
      (executeValidated call domain command.postponeUntil command.comment decision) := by
    intro domain decision
    cases decision with
    | allow => exact (happly _ _ _ _).bind fun _ => hconclude _ _ _
    | deny => exact (happly _ _ _ _).bind fun _ => hconclude _ _ _
    | ignore =>
      exact (hleave _).bind fun _ => (hresolve _ _ _).bind fun _ => hprefer _ _ _ _ _
    | neverAsk =>
      exact (hleave _).bind fun _ => (hclose _ _ _).bind fun _ => hprefer _ _ _ _ _
    | postpone =>
      simp only [executeValidated]
      split
      · exact Keeping.throw _
      · split
        · exact Keeping.throw _
        · exact (hleave _).bind fun _ => (hclose _ _ _).bind fun _ => hprefer _ _ _ _ _
  intro s hs
  simp only [executeDecision]
  split
  · exact hs
  · cases hparse : PiHole.parseDecision (CaseTables.lower (strip command.decision)) with
    | none => exact hs
    | some decision =>
      have h := hvalidated (normalizeDomain command.domain) decision s hs
      cases hresult : executeValidated call (normalizeDomain command.domain)
          command.postponeUntil command.comment decision s with
      | ok a s' =>
        simp only [hresult] at h ⊢
        exact h
      | error fault s' =>
        simp only [hresult] at h ⊢
        cases fault <;> exact h

theorem executeDecision_tracked (call : PiHole.Call) (command : PiHole.ReviewDecisionCommand) :
    Keeping Tracked (executeDecision call command) :=
  executeDecision_keeping (fun _ _ _ _ => service_tracked _) (fun _ => service_tracked _)
    markActionApplied_tracked reviewResolve_tracked resolveOpenReviewTasks_tracked
    setReviewPreference_tracked call command

end Tracking

/-! Handled classifications. -/

section Handled

variable [CaseTables]

/-- What the calls before the save leave of the review tables: at most new tasks about `d`,
and none unless `p`. -/
structure Asked (d : String) (p : Prop) (s s' : Store) : Prop where
  review : s'.review = s.review
  preferences : s'.preferences = s.preferences
  tasks : ∃ added, s'.tasks = s.tasks++added ∧ ∀ t ∈ added, t.domain = normalizeDomain d ∧ p

theorem Asked.refl (d : String) (p : Prop) (s : Store) : Asked d p s s :=
  ⟨rfl,rfl,[],by simp,by simp⟩

def isTask : Effect → Bool
  | .reviewTask _ _ _ _ => true
  | _ => false

/-- `d` may be asked about at `now`, and `effects` asks. -/
def Asks (now : ℤ) (d : String) (s : Store) (effects : List Effect) : Prop :=
  preferenceBlocksReview now d s = false ∧ ∃ effect ∈ effects, isTask effect = true

theorem preferenceBlocksReview_congr {s s' : Store} (h : s'.preferences = s.preferences) (now : ℤ)
    (d : String) : preferenceBlocksReview now d s' = preferenceBlocksReview now d s := by
  simp only [preferenceBlocksReview,h]

theorem createReviewTask_asked {now : ℤ} {d reason source : String} {s : Store}
    {priority : Automation.ReviewPriority} {effects : List Effect}
    (htask : .reviewTask d reason priority source ∈ effects) :
    Keeping (Asked d (Asks now d s effects) s) (createReviewTask now d reason priority source) := by
  intro s' h
  simp only [createReviewTask]
  split
  · exact h
  · rename_i hfree
    have hfree' : preferenceBlocksReview now d s = false := by
      rw [← preferenceBlocksReview_congr h.preferences]
      simpa using hfree
    simp only [insertReviewTask]
    cases hensured : ensured now d s' with
    | error fault => exact h
    | ok pair =>
      obtain ⟨key,s₁⟩ := pair
      obtain ⟨rfl,domains,rfl⟩ := ensured_ok hensured
      obtain ⟨added,hadded,hall⟩ := h.tasks
      simp only
      split
      · exact ⟨h.review,h.preferences,added,hadded,hall⟩
      · refine ⟨h.review,h.preferences,added++[⟨normalizeDomain d,strip reason,priority,.opened,
          strip source,"",now⟩],?_,fun t ht => ?_⟩
        · rw [← List.append_assoc,← hadded]
          rfl
        · rcases List.mem_append.mp ht with ht | ht
          · exact hall t ht
          · rw [List.mem_singleton.mp ht]
            exact ⟨rfl,hfree',_,htask,rfl⟩

theorem performEffect_asked {d : String} {s : Store} {call : PiHole.Call} {effects : List Effect}
    {effect : Effect} (hmem : effect ∈ effects) (hprepares : Prepares d effect) :
    Keeping (Asked d (Asks call.now d s effects) s) (performEffect call effect) := by
  cases effect with
  | reviewTask domain reason priority source =>
    obtain rfl : domain = d := hprepares
    exact createReviewTask_asked hmem
  | notify title message => exact Keeping.pure ()
  | addExactDomain domain policy comment =>
    exact Keeping.service fun _ h => ⟨h.review,h.preferences,h.tasks⟩
  | saveClassification c status planned actionStatus => cases hprepares

theorem performEffects_asked {d : String} (handling : Handling) (s : Store) {effects : List Effect}
    (hprepares : ∀ effect ∈ effects, Prepares d effect) (i : ℕ) :
    Asked d (Asks handling.call.now d s effects) s (after (performEffects handling i effects s)) :=
  performEffects_keeping (fun _ hmem => performEffect_asked hmem (hprepares _ hmem)) i s
    (Asked.refl _ _ s)

theorem performEffects_append {handling : Handling} (i : ℕ) (effects rest : List Effect) :
    performEffects handling i (effects++rest) =
      performEffects handling i effects >>= fun _ =>
        performEffects handling (i+effects.length) rest := by
  induction effects generalizing i with
  | nil => rfl
  | cons effect effects ih =>
    simp only [List.cons_append,performEffects]
    cases handling.fault i with
    | some fault => rfl
    | none =>
      simp only [ih,bind_assoc,List.length_cons]
      rw [show i+1+effects.length = i+(effects.length+1) by omega]

/-- An automatic action was vetoed with a reason for a human. -/
def Vetoes (input : PiHole.WorkerInput) (w : PiHole.World) : Prop :=
  (decisionOf input w).reviewReason ≠ "" ∨ conflictOf input w = true

/-- The policy is left to a human. -/
def Unsure (c : Classification) : Prop := c.policy = .manualReview ∨ c.policy = .unknown

/-- The row that is saved asks for a review. -/
def Flags (input : PiHole.WorkerInput) (w : PiHole.World) : Prop :=
  (adjustedOf input w).needsReview = true ∨
    input.options.simulationMode = true ∧ actionOf input w ≠ none

/-- What makes a handled classification ask. -/
theorem preparation_task {input : PiHole.WorkerInput} {w : PiHole.World} {effect : Effect}
    (h : effect ∈ preparation input w) (htask : isTask effect = true) :
    Vetoes input w ∨ Unsure input.classification ∨ Flags input w := by
  simp only [preparation,List.mem_append] at h
  rcases h with ((h | h) | h) | h
  · simp only [Automation.policyTask] at h
    split at h
    · cases h
    · rename_i hreason
      exact .inl (.inl hreason)
  · simp only [Automation.lockTask] at h
    split at h
    · rename_i hconflict
      exact .inl (.inr hconflict)
    · cases h
  · cases haction : actionOf input w with
    | none => simp [actedOf,haction,Automation.act] at h
    | some policy =>
      simp only [actedOf,haction,Automation.act,Automation.actionEffects] at h
      split at h
      · rename_i hsimulation
        exact .inr (.inr (.inr ⟨hsimulation,by simp [haction]⟩))
      · rcases List.mem_cons.mp h with rfl | h
        · cases htask
        · rw [List.mem_singleton.mp h] at htask
          cases htask
  · simp only [Automation.reviewTask] at h
    split at h
    · rename_i hneeds
      rw [(adjustedOf_sameVerdict input w).policy,Bool.or_eq_true,decide_eq_true_eq] at hneeds
      rcases hneeds with hneeds | hunsure
      · exact .inr (.inr (.inl hneeds))
      · exact .inr (.inl hunsure)
    · cases h

theorem normalizeActionStatus_ascii {status : String}
    (hascii : (strip status).toList.all (·.toNat < 128) = true) :
    normalizeActionStatus status =
      if asciiLower (strip status) ∈ ["none","simulated","applied","dismissed"] then
        asciiLower (strip status) else "none" := by
  simp only [normalizeActionStatus]
  rw [CaseTables.lower_ascii _ fun c hc => of_decide_eq_true (List.all_eq_true.mp hascii c hc)]

theorem simulated_iff (input : PiHole.WorkerInput) (w : PiHole.World) :
    normalizeActionStatus (actedOf input w).2.2 = "simulated" ↔
      input.options.simulationMode = true ∧ actionOf input w ≠ none := by
  cases haction : actionOf input w with
  | none =>
    simp only [actedOf,haction,Automation.act]
    rw [normalizeActionStatus_ascii (by decide)]
    simp only [ne_eq,not_true_eq_false,and_false,iff_false]
    decide
  | some policy =>
    simp only [actedOf,haction,Automation.act,Automation.actionEffects]
    split
    · rename_i hsimulation
      dsimp only
      rw [normalizeActionStatus_ascii (by decide)]
      simp only [hsimulation,ne_eq,reduceCtorEq,not_false_eq_true,and_self,iff_true]
      decide
    · rename_i hsimulation
      dsimp only
      rw [normalizeActionStatus_ascii (by decide)]
      simp only [hsimulation,false_and,iff_false,Bool.false_eq_true]
      decide

theorem currentRow_flags {input : PiHole.WorkerInput} {w : PiHole.World} {now : ℤ}
    {status planned : String} :
    (currentRow now (adjustedOf input w) ⟨status,planned,(actedOf input w).2.2,true,true⟩).needsReview =
      true ↔ Flags input w := by
  simp only [currentRow,Bool.or_eq_true,decide_eq_true_eq,simulated_iff]
  rfl

/-! A handling that nothing interrupts. -/

def isAdd : Effect → Bool
  | .addExactDomain _ _ _ => true
  | _ => false

theorem createReviewTask_ok {now : ℤ} {d reason source : String}
    {priority : Automation.ReviewPriority} (hkey : normalizeDomain d ≠ "") (s : Store) :
    ∃ s', createReviewTask now d reason priority source s = .ok () s' := by
  obtain ⟨domains,hensured⟩ := ensured_eq now hkey s
  simp only [createReviewTask,insertReviewTask,hensured]
  split
  · exact ⟨_,rfl⟩
  · split <;> exact ⟨_,rfl⟩

theorem performEffects_ok {d : String} {handling : Handling} {effects : List Effect}
    (hfault : ∀ i, handling.fault i = none) (hkey : normalizeDomain d ≠ "")
    (hprepares : ∀ effect ∈ effects, Prepares d effect) (hadd : ∀ effect ∈ effects, isAdd effect = false)
    (i : ℕ) (s : Store) : ∃ s', performEffects handling i effects s = .ok () s' := by
  induction effects generalizing i s with
  | nil => exact ⟨s,rfl⟩
  | cons effect rest ih =>
    have hfirst : ∃ s', performEffect handling.call effect s = .ok () s' := by
      have h := hprepares effect (by simp)
      cases effect with
      | reviewTask domain reason priority source =>
        obtain rfl : domain = d := h
        exact createReviewTask_ok hkey s
      | notify title message => exact ⟨s,rfl⟩
      | addExactDomain domain policy comment => cases hadd _ (List.mem_cons_self)
      | saveClassification c status planned actionStatus => cases h
    obtain ⟨s',hs'⟩ := hfirst
    obtain ⟨s'',hs''⟩ := ih (fun e he => hprepares e (by simp [he])) (fun e he => hadd e (by simp [he]))
      (i+1) s'
    refine ⟨s'',?_⟩
    simp only [performEffects,hfault]
    change EStateM.bind _ _ s = _
    simp only [EStateM.bind,hs']
    exact hs''

/-- An action is only taken if nothing was asked before. -/
theorem preparation_adds (input : PiHole.WorkerInput) (w : PiHole.World) :
    (∀ effect ∈ preparation input w, isAdd effect = false) ∨
      ∃ effect rest, preparation input w = effect::rest ∧ isTask effect = false ∧
        ∀ effect ∈ rest, isAdd effect = false := by
  have hpolicy : ∀ effect ∈ Automation.policyTask (adjustedOf input w) (decisionOf input w),
      isAdd effect = false := by
    intro effect h
    simp only [Automation.policyTask] at h
    split at h
    · cases h
    · rw [List.mem_singleton.mp h]
      rfl
  have hlock : ∀ effect ∈ Automation.lockTask (adjustedOf input w) (conflictOf input w),
      isAdd effect = false := by
    intro effect h
    simp only [Automation.lockTask] at h
    split at h
    · rw [List.mem_singleton.mp h]
      rfl
    · cases h
  have hreview : ∀ effect ∈ Automation.reviewTask (adjustedOf input w), isAdd effect = false := by
    intro effect h
    simp only [Automation.reviewTask] at h
    split at h
    · rw [List.mem_singleton.mp h]
      rfl
    · cases h
  cases haction : actionOf input w with
  | none =>
    left
    intro effect h
    simp only [preparation,actedOf,haction,Automation.act,List.append_nil,List.mem_append] at h
    rcases h with (h | h) | h
    · exact hpolicy effect h
    · exact hlock effect h
    · exact hreview effect h
  | some policy =>
    have hdecision : (decisionOf input w).action ≠ none := by
      have h := (Automation.unlockedAction_eq_some.mp haction).1
      simp [h]
    have hreason : (decisionOf input w).reviewReason = "" :=
      (Automation.resolveAutomaticDecision_exclusive _ _ _).resolve_left hdecision
    have hconflict : conflictOf input w = false := by simp [conflictOf,haction]
    have hsplit : preparation input w =
        (Automation.actionEffects input.options (adjustedOf input w) policy).1++
          Automation.reviewTask (adjustedOf input w) := by
      simp [preparation,actedOf,haction,Automation.act,Automation.policyTask,hreason,
        Automation.lockTask,hconflict]
    rw [hsplit]
    simp only [Automation.actionEffects]
    split
    · left
      intro effect h
      rcases List.mem_append.mp h with h | h
      · rcases List.mem_cons.mp h with rfl | h
        · rfl
        · rw [List.mem_singleton.mp h]
          rfl
      · exact hreview effect h
    · right
      refine ⟨_,_,rfl,rfl,fun effect h => ?_⟩
      rcases List.mem_cons.mp h with rfl | h
      · rfl
      · exact hreview effect h

/-- A blank name is never asked about. -/
theorem performEffects_blank {d : String} (handling : Handling) {effects : List Effect}
    (hkey : normalizeDomain d = "") (hprepares : ∀ effect ∈ effects, Prepares d effect) (i : ℕ)
    (s : Store) : (after (performEffects handling i effects s)).tasks = s.tasks := by
  refine performEffects_keeping (P := fun s' => s'.tasks = s.tasks) (fun effect hmem s' h => ?_) i s rfl
  have hprepare := hprepares effect hmem
  cases effect with
  | reviewTask domain reason priority source =>
    obtain rfl : domain = d := hprepare
    simp only [performEffect,createReviewTask,insertReviewTask,ensured_blank hkey]
    split <;> exact h
  | notify title message => exact h
  | addExactDomain domain policy comment => exact Keeping.service (fun _ h => h) s' h
  | saveClassification c status planned actionStatus => cases hprepare

/-- Without a database or notifier error a handling asks and saves, or does not ask. -/
theorem preparation_uninterrupted {input : PiHole.WorkerInput} {handling : Handling} {s s' : Store}
    {fault : PiHole.Fault} (hfault : ∀ i, handling.fault i = none)
    (herror : performEffects handling 0 (preparation input s.world) s = .error fault s') :
    s'.tasks = s.tasks := by
  have hprepares : ∀ effect ∈ preparation input s.world, Prepares input.classification.domain effect :=
    fun _ h => preparation_prepares h
  by_cases hkey : normalizeDomain input.classification.domain = ""
  · have h := performEffects_blank handling hkey hprepares 0 s
    rwa [herror] at h
  rcases preparation_adds input s.world with hadd | ⟨effect,rest,hsplit,htask,hadd⟩
  · obtain ⟨s'',hok⟩ := performEffects_ok hfault hkey hprepares hadd 0 s
    cases herror.symm.trans hok
  · rw [hsplit] at herror hprepares
    simp only [performEffects,hfault] at herror
    change EStateM.bind _ _ s = _ at herror
    simp only [EStateM.bind] at herror
    have hfirst : (after (performEffect handling.call effect s)).tasks = s.tasks := by
      have hprepare := hprepares effect (by simp)
      cases effect with
      | reviewTask domain reason priority source => cases htask
      | notify title message => rfl
      | addExactDomain domain policy comment =>
        exact Keeping.service (P := fun s' => s'.tasks = s.tasks) (fun _ h => h) s rfl
      | saveClassification c status planned actionStatus => cases hprepare
    cases hcall : performEffect handling.call effect s with
    | error fault' s₁ =>
      rw [hcall] at herror hfirst
      obtain ⟨-,rfl⟩ := EStateM.Result.error.inj herror
      exact hfirst
    | ok _ s₁ =>
      rw [hcall] at herror
      obtain ⟨s'',hok⟩ := performEffects_ok hfault hkey (fun e he => hprepares e (by simp [he])) hadd
        1 s₁
      cases herror.symm.trans hok

/-- What a handled classification leaves: some tasks, and a row unless it was interrupted. -/
theorem handleClassification_cases (handling : Handling) (input : PiHole.WorkerInput) (s : Store) :
    ∃ s₁, Asked input.classification.domain (Asks handling.call.now input.classification.domain s
        (preparation input s.world)) s s₁ ∧
      ((∃ fault, handleClassification handling input s = .error fault s₁ ∧
          ((∀ i, handling.fault i = none) → s₁.tasks = s.tasks)) ∨
        ∃ queue row, handleClassification handling input s = .ok () { s₁.setQueue queue with
            review := s₁.review.insert (normalizeDomain input.classification.domain) row } ∧
          (row.needsReview = true ↔ Flags input s.world)) := by
  have hprepares : ∀ effect ∈ preparation input s.world, Prepares input.classification.domain effect :=
    fun _ h => preparation_prepares h
  have hasked := performEffects_asked handling s hprepares 0
  have hdomain := (adjustedOf_sameVerdict input s.world).domain
  simp only [handleClassification,effects_eq,performEffects_append]
  change ∃ s₁, _ ∧ ((∃ fault, EStateM.bind _ _ s = _ ∧ _) ∨ ∃ queue row, EStateM.bind _ _ s = _ ∧ _)
  simp only [EStateM.bind]
  cases hinit : performEffects handling 0 (preparation input s.world) s with
  | error fault s₁ =>
    rw [hinit] at hasked
    exact ⟨s₁,hasked,.inl ⟨fault,rfl,fun hfault => preparation_uninterrupted hfault hinit⟩⟩
  | ok _ s₁ =>
    rw [hinit] at hasked
    refine ⟨s₁,hasked,?_⟩
    simp only [performEffects]
    cases hfault : handling.fault (0+(preparation input s.world).length) with
    | some fault =>
      refine .inl ⟨fault,rfl,fun hnone => ?_⟩
      cases hfault.symm.trans (hnone _)
    | none =>
      change (∃ fault, EStateM.bind _ _ s₁ = _ ∧ _) ∨ ∃ queue row, EStateM.bind _ _ s₁ = _ ∧ _
      simp only [EStateM.bind,performEffect,saveClassificationRun]
      by_cases hkey : normalizeDomain input.classification.domain = ""
      · rw [ensured_blank (by rw [hdomain]; exact hkey)]
        refine .inl ⟨_,rfl,fun _ => ?_⟩
        have h := performEffects_blank handling hkey hprepares 0 s
        rwa [hinit] at h
      · obtain ⟨domains,hensured⟩ := ensured_eq handling.call.now
          (d := (adjustedOf input s.world).domain) (by rw [hdomain]; exact hkey) s₁
        rw [hensured,hdomain]
        exact .inr ⟨_,_,rfl,currentRow_flags⟩

/-- When a handled classification keeps its tasks visible: what it asks about is flagged, what
it does not flag has no open task, and no database or notifier error comes between the task
and the row. -/
structure Heeds (handling : Handling) (input : PiHole.WorkerInput) (s : Store) : Prop where
  flagged : Vetoes input s.world ∨ Unsure input.classification →
    preferenceBlocksReview handling.call.now input.classification.domain s = false →
    Flags input s.world
  settled : ¬Flags input s.world → ∀ t ∈ s.tasks, t.status = .opened →
    t.domain ≠ normalizeDomain input.classification.domain
  unbroken : Flags input s.world →
    preferenceBlocksReview handling.call.now input.classification.domain s = false →
    (∃ row, s.review.lookup (normalizeDomain input.classification.domain) = some row ∧
      row.needsReview = true) ∨ ∀ i, handling.fault i = none

theorem Heeds.flags {handling : Handling} {input : PiHole.WorkerInput} {s : Store}
    (h : Heeds handling input s) (hasks : Asks handling.call.now input.classification.domain s
      (preparation input s.world)) : Flags input s.world := by
  obtain ⟨hfree,effect,hmem,htask⟩ := hasks
  rcases preparation_task hmem htask with hveto | hunsure | hflags
  · exact h.flagged (.inl hveto) hfree
  · exact h.flagged (.inr hunsure) hfree
  · exact hflags

theorem handleClassification_tracked {handling : Handling} {input : PiHole.WorkerInput} {s : Store}
    (hheeds : Heeds handling input s) (hs : Tracked s) :
    Tracked (after (handleClassification handling input s)) := by
  obtain ⟨s₁,⟨hreview,hpreferences,added,htasks,hadded⟩,hcase⟩ :=
    handleClassification_cases handling input s
  rcases hcase with ⟨fault,herror,hquiet⟩ | ⟨queue,row,hok,hflag⟩
  · rw [herror]
    intro t ht hopen
    simp only [after] at ht ⊢
    rw [htasks,List.mem_append] at ht
    rw [hreview]
    rcases ht with ht | ht
    · exact hs t ht hopen
    · obtain ⟨hdomain,hasks⟩ := hadded t ht
      rcases hheeds.unbroken (hheeds.flags hasks) hasks.1 with hrow | hnone
      · rw [hdomain]
        exact hrow
      · have hnil : added = [] := by
          have h := hquiet hnone
          rw [htasks] at h
          simpa using h
        rw [hnil] at ht
        cases ht
  · rw [hok]
    intro t ht hopen
    simp only [after,Store.setQueue] at ht ⊢
    rw [htasks,List.mem_append] at ht
    by_cases hdomain : t.domain = normalizeDomain input.classification.domain
    · refine ⟨row,by rw [hdomain,AList.lookup_insert],hflag.mpr ?_⟩
      rcases ht with ht | ht
      · by_contra hnot
        exact hheeds.settled hnot t ht hopen hdomain
      · exact hheeds.flags (hadded t ht).2
    · rcases ht with ht | ht
      · rw [AList.lookup_insert_ne hdomain,hreview]
        exact hs t ht hopen
      · exact absurd (hadded t ht).1 hdomain

end Handled

/-! Runs. -/

section Runs

variable [CaseTables]

/-- The calls that write what a human is to look at, and those of the queue. -/
inductive Op
  | handle (handling : Handling) (input : PiHole.WorkerInput)
  | compare (now : ℤ) (c : Classification)
  | decide (call : PiHole.Call) (command : PiHole.ReviewDecisionCommand)
  | resolve (now : ℤ) (domains : List String) (decision : String)
  | markApplied (now : ℤ) (domain action : String)
  | setPreference (now : ℤ) (domain : String) (neverAsk : Bool) (postponedUntil : Option ℤ)
      (lastDecision : String)
  | clearPreference (domain : String)
  | queue (context : Queue.Context) (op : Queue.Op)

def Op.exec : Op → Task Unit
  | .handle handling input => handleClassification handling input
  | .compare now c => saveClassificationRun now c ⟨"compared","","none",false,false⟩
  | .decide call command => executeDecision call command
  | .resolve now domains decision => reviewResolve now domains decision
  | .markApplied now domain action => markActionApplied now domain action
  | .setPreference now domain neverAsk postponedUntil lastDecision =>
    setReviewPreference now domain neverAsk postponedUntil lastDecision
  | .clearPreference domain => clearReviewPreference domain
  | .queue context op => fun s => .ok () (s.setQueue (op.exec context s.queue))

def Op.Step (s : Store) (op : Op) (s' : Store) : Prop := after (op.exec s) = s'

def Op.Heeds (s : Store) : Op → Prop
  | .handle handling input => Review.Heeds handling input s
  | _ => True

def HeedfulStep (s : Store) (op : Op) (s' : Store) : Prop := op.Heeds s ∧ op.Step s s'

/-- Unless it is silenced, `d` is listed at every limit that leaves room for all rows. -/
def Shown (s : Store) (d : String) : Prop :=
  ∀ now limit : ℤ, preferenceBlocksReview now d s = false → (rowsInvolved s : ℤ) ≤ limit →
    d ∈ (reviewQueueGet now limit s).map ReviewItem.domain

def TasksShown (s : Store) : Prop := ∀ t ∈ s.tasks, t.status = .opened → Shown s t.domain

/-- A vetoed classification is listed when its handling is over. -/
def VetoShown (s : Store) (handling : Handling) (input : PiHole.WorkerInput) : Prop :=
  Vetoes input s.world →
    preferenceBlocksReview handling.call.now input.classification.domain s = false →
    ∀ s', handleClassification handling input s = .ok () s' →
      Shown s' (normalizeDomain input.classification.domain)

theorem Tracked.shown {s : Store} (h : Tracked s) : TasksShown s := by
  intro t ht hopen now limit hfree hlimit
  obtain ⟨row,hrow,hflag⟩ := h t ht hopen
  exact listed_of_flagged hrow hflag hfree hlimit

theorem saveClassificationRun_compared (now : ℤ) (c : Classification) (status : String) :
    Keeping Tracked (saveClassificationRun now c ⟨status,"","none",false,false⟩) := by
  intro s hs
  simp only [saveClassificationRun]
  cases hensured : ensured now c.domain s with
  | error fault => exact hs
  | ok pair =>
    obtain ⟨key,s'⟩ := pair
    obtain ⟨-,domains,rfl⟩ := ensured_ok hensured
    exact hs.of_eq rfl rfl

theorem exec_tracked {s : Store} {op : Op} (hheeds : op.Heeds s) (hs : Tracked s) :
    Tracked (after (op.exec s)) := by
  cases op with
  | handle handling input => exact handleClassification_tracked hheeds hs
  | compare now c => exact saveClassificationRun_compared now c "compared" s hs
  | decide call command => exact executeDecision_tracked call command s hs
  | resolve now domains decision => exact reviewResolve_tracked now domains decision s hs
  | markApplied now domain action => exact markActionApplied_tracked now domain action s hs
  | setPreference now domain neverAsk postponedUntil lastDecision =>
    exact setReviewPreference_tracked now domain neverAsk postponedUntil lastDecision s hs
  | clearPreference domain => exact hs.of_eq rfl rfl
  | queue context op => exact hs.of_eq rfl rfl

theorem heeds_vetoShown {s : Store} {handling : Handling} {input : PiHole.WorkerInput}
    (hheeds : Heeds handling input s) : VetoShown s handling input := by
  intro hveto hfree s' hok now limit hshown hlimit
  obtain ⟨s₁,-,⟨fault,herror,-⟩ | ⟨queue,row,hsaved,hflag⟩⟩ :=
    handleClassification_cases handling input s
  · cases herror.symm.trans hok
  · obtain ⟨-,rfl⟩ := EStateM.Result.ok.inj (hsaved.symm.trans hok)
    exact listed_of_flagged (AList.lookup_insert _) (hflag.mpr (hheeds.flagged (.inl hveto) hfree))
      hshown hlimit

/-- In a run of heedful calls every open task is listed, and so is every vetoed classification
once it is handled. -/
theorem open_tasks_shown {s s' : Store} {ops : List Op} (hstart : s.tasks = [])
    (hrun : Run HeedfulStep s ops s') :
    TasksShown s' ∧ ∀ handling input, Heeds handling input s' → VetoShown s' handling input := by
  have htracked : Tracked s := by
    intro t ht
    rw [hstart] at ht
    cases ht
  have hend : Tracked s' := hrun.invariant Tracked (fun s op t hs hstep => by
    obtain ⟨hheeds,rfl⟩ := hstep
    exact exec_tracked hheeds hs) htracked
  exact ⟨hend.shown,fun _ _ hheeds => heeds_vetoShown hheeds⟩

end Runs

/-! A scanned domain whose breakage risk is too high for an automatic change. -/

def undisturbed : Handling := ⟨⟨20,fun _ => ⟨.answered,""⟩,none⟩,fun _ => none⟩

def risky : Classification :=
  { domain := "cdn.example"
    policy := .allow
    category := "cdn"
    short := "CDN"
    details := ""
    provider := "p"
    breakageRisk := 60
    confidence := 99/100
    needsReview := false }

def scannedRisky (c : Classification) : List Op :=
  [.queue ⟨10,[]⟩ (.needingAnalysis ["cdn.example"] false),
    .queue ⟨11,[]⟩ (.claim 5 "background"),
    .handle undisturbed ⟨{},[],[],{},"scanner",c⟩,
    .queue ⟨21,[]⟩ (.ack "cdn.example")]

def afterAll (s : Store) (ops : List Op) : Store := ops.foldl (fun s op => after (op.exec s)) s

theorem run_afterAll (s : Store) (ops : List Op) : Run Op.Step s ops (afterAll s ops) :=
  Run.foldl _ s ops

/-- The veto leaves an open task, and the listing is empty. -/
theorem vetoed_not_shown :
    Store.empty.tasks = [] ∧ Run Op.Step Store.empty (scannedRisky risky)
        (afterAll Store.empty (scannedRisky risky)) ∧
      ¬TasksShown (afterAll Store.empty (scannedRisky risky)) := by
  refine ⟨rfl,run_afterAll _ _,fun h => ?_⟩
  have hshown : Shown (afterAll Store.empty (scannedRisky risky)) "cdn.example" :=
    h ⟨"cdn.example","Breakage risk is too high for an automatic Pi-hole change.",.normal,.opened,
      "policy","",20⟩ (by decide +kernel) rfl
  have hlisted := hshown 22 100 (by decide +kernel) (by decide +kernel)
  have hempty : (reviewQueueGet 22 100 (afterAll Store.empty (scannedRisky risky))).map
      ReviewItem.domain = [] := by decide +kernel
  rw [hempty] at hlisted
  cases hlisted

/-- The model asks for a review itself, so the row is flagged. -/
def cautious : Classification := { risky with needsReview := true }

theorem cautious_heeds (s : Store) : Heeds undisturbed ⟨{},[],[],{},"scanner",cautious⟩ s := by
  have hneeds : (Automation.flagManual {} "scanner" cautious).needsReview = true := by
    simp [Automation.flagManual,cautious]
  have hflags : Flags ⟨{},[],[],{},"scanner",cautious⟩ s.world := by
    refine .inl ?_
    rw [adjustedOf,Automation.adjusted]
    exact Compatibility.applyCompatibilityProfile_needsReview _ _ hneeds
  exact ⟨fun _ _ => hflags,fun h => absurd hflags h,fun _ _ => .inr fun _ => rfl⟩

theorem heedful_run {ops : List Op} (h : ∀ op ∈ ops, ∀ s, op.Heeds s) (s : Store) :
    Run HeedfulStep s ops (afterAll s ops) := by
  induction ops generalizing s with
  | nil => exact .nil s
  | cons op ops ih =>
    exact .cons ⟨h op (by simp) s,rfl⟩ (ih (fun op' hmem => h op' (by simp [hmem])) _)

theorem open_tasks_shown_cautious :
    Store.empty.tasks = [] ∧ TasksShown (afterAll Store.empty (scannedRisky cautious)) ∧
      VetoShown Store.empty undisturbed ⟨{},[],[],{},"scanner",cautious⟩ := by
  have hheeds : ∀ op ∈ scannedRisky cautious, ∀ s, op.Heeds s := by
    intro op hmem s
    simp only [scannedRisky,List.mem_cons,List.not_mem_nil,or_false] at hmem
    rcases hmem with rfl | rfl | rfl | rfl
    · trivial
    · trivial
    · exact cautious_heeds s
    · trivial
  exact ⟨rfl,(open_tasks_shown rfl (heedful_run hheeds Store.empty)).1,
    (open_tasks_shown rfl (.nil Store.empty)).2 _ _ (cautious_heeds Store.empty)⟩

end Review
end WormholeObservatory
