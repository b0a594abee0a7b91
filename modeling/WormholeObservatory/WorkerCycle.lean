import WormholeObservatory.QueueRuns
import WormholeObservatory.FallbackResults
import WormholeObservatory.WorkerHandling

/-! One cycle of `Classifier.run`: a batch is claimed, analysed and handled, and every
domain of it leaves the cycle acknowledged, deferred or failed. -/
namespace WormholeObservatory
namespace Review

open Dispatch (AnalysisError Outcome latestRetry)
open Queue (StagingRow)

/-- `str(exc)` of what leaves `dispatch_analysis`. -/
def analysisMessage : AnalysisError → String
  | .noDomains => "At least one domain is required for analysis."
  | .noUsableProviders poolName => "Analysis pool "++poolName++" has no usable providers."
  | .unavailable message _ => message
  -- the dispatcher is not reached without candidates
  | .dispatch .noCandidate => "list index out of range"
  | .dispatch (.execution e) => e.message

def faultMessage : PiHole.Fault → String
  | .valueError message => message
  | .runtimeError message => message
  | .invalidReviewDecision message => message
  | .reviewDecisionConflict message => message

/-- What becomes of a claimed domain. -/
inductive Verdict
  | ack
  | defer (error : String) (retryAt : ℚ)
  | fail (error : String)

/-- What one cycle meets: the analysis of the batch (dossiers and dispatch), the handling of
its result, and the clock when a domain's turn comes at the end. -/
structure Cycle where
  claimedAt : ℤ
  batchSize : ℤ
  pool : Queue.Pool
  stopped : Bool
  analyse : List String → Except AnalysisError Outcome
  handler : Handler
  look : String → ℚ
  finishedAt : String → ℤ

/-- An exact rule of `d` that is there now and was not before. -/
def Written (s s' : Store) (d : String) (t : Queue.ListType) : Prop :=
  s.world.pihole.lookup (.exactDomain t d) = none ∧ s'.world.pihole.lookup (.exactDomain t d) ≠ none

/-- The rules that are new since `s` are about `names`. -/
def WritesOnly (s : Store) (names : List String) (s' : Store) : Prop :=
  ∀ d t, Written s s' d t → d ∈ names

theorem WritesOnly.refl (s : Store) (names : List String) : WritesOnly s names s :=
  fun _ _ h => absurd h.1 h.2

theorem WritesOnly.of_pihole {s s' s'' : Store} {names : List String} (h : WritesOnly s names s')
    (heq : s''.world.pihole = s'.world.pihole) : WritesOnly s names s'' := by
  intro d t hwritten
  rw [Written,heq] at hwritten
  exact h d t hwritten

section Cycle

variable [CaseTables]

/-- The claimed domains. -/
def Cycle.claimed (cycle : Cycle) (s : Store) : List String :=
  (Queue.stagingClaimItems cycle.claimedAt cycle.batchSize (some cycle.pool) s.queue).1.map
    Queue.ClaimedItem.domain

def Cycle.afterClaim (cycle : Cycle) (s : Store) : Store :=
  s.setQueue (Queue.stagingClaimItems cycle.claimedAt cycle.batchSize (some cycle.pool) s.queue).2

/-- The loop that acknowledges protected domains and keeps the others. -/
def skipProtected : List String → Store → List String × Store
  | [], s => ([],s)
  | d::domains, s =>
    if (Queue.getDomainLock d s.queue).isSome then
      skipProtected domains (s.setQueue (Queue.stagingAck d s.queue))
    else
      let (unlocked,s') := skipProtected domains s
      (d::unlocked,s')

/-- The domains that are analysed. -/
def Cycle.unlocked (cycle : Cycle) (s : Store) : List String :=
  (skipProtected (cycle.claimed s) (cycle.afterClaim s)).1

/-- The store the analysis starts from. -/
def Cycle.begun (cycle : Cycle) (s : Store) : Store :=
  (skipProtected (cycle.claimed s) (cycle.afterClaim s)).2

def Cycle.outcome (cycle : Cycle) (s : Store) : Except AnalysisError Outcome :=
  cycle.analyse (cycle.unlocked s)

/-- `_handle_dispatch_result`. -/
def Cycle.handled (cycle : Cycle) (s : Store) : Handled :=
  match cycle.outcome s with
  | .ok (results,_) => cycle.handler.handleItems 0 (cycle.handler.items results) (cycle.begun s)
  | .error _ => ⟨cycle.begun s,[],none⟩

/-- `completed`. -/
def Handled.names (handled : Handled) : List String :=
  handled.completed.map fun item => item.classification.domain

/-- Which of the branches and handlers at the end of the cycle `d` falls to. -/
def Cycle.verdict (cycle : Cycle) (s : Store) (d : String) : Verdict :=
  match cycle.outcome s with
  | .error (.dispatch (.execution .cancelled)) => .defer "Classification cancelled" (cycle.look d)
  | .error (.unavailable message retryAt) =>
    if cycle.look d < max 0 retryAt then .defer message (max 0 retryAt) else .fail message
  | .error e => .fail (analysisMessage e)
  | .ok (_,errors) =>
    match (cycle.handled s).failure with
    | some fault => .fail (faultMessage fault)
    | none =>
      if d ∈ (cycle.handled s).names then .ack
      else if cycle.look d < latestRetry errors then
        .defer "Assigned provider is temporarily unavailable." (latestRetry errors)
      else .fail "No provider returned a classification."

def Verdict.apply (now : ℤ) (d : String) (db : Queue.Database) : Verdict → Queue.Database
  | .ack => Queue.stagingAck d db
  | .defer error retryAt => Queue.stagingDefer now d error retryAt db
  | .fail error => Queue.stagingFail now d error 1 db

/-- The loop that lets go of the domains. -/
def Cycle.release (cycle : Cycle) (verdict : String → Verdict) (domains : List String)
    (db : Queue.Database) : Queue.Database :=
  domains.foldl (fun db d => (verdict d).apply (cycle.finishedAt d) d db) db

/-- A turn of the loop of `Classifier.run` that finds the pool enabled and ready. -/
def Cycle.run (cycle : Cycle) (s : Store) : Store :=
  if cycle.stopped then
    let s' := cycle.afterClaim s
    s'.setQueue (cycle.release (fun d => .defer "Classifier stopped before processing" (cycle.look d))
      (cycle.claimed s) s'.queue)
  else if cycle.unlocked s = [] then cycle.begun s
  else
    let s' := (cycle.handled s).store
    s'.setQueue (cycle.release (cycle.verdict s) (cycle.unlocked s) s'.queue)

/-! What a cycle does to the row of one domain. -/

/-- What a verdict makes of a row. -/
def Verdict.onRow (now : ℤ) : Verdict → Option StagingRow → Option StagingRow
  | .ack => fun _ => none
  | .defer error retryAt => Option.map (StagingRow.defer now error retryAt)
  | .fail error => Option.map (StagingRow.fail now 1 error)

theorem lookup_apply (now : ℤ) {d : String} (hd : normalizeDomain d = d) (db : Queue.Database)
    (verdict : Verdict) (d' : String) : (verdict.apply now d db).staging.lookup d' =
      if d' = d then verdict.onRow now (db.staging.lookup d') else db.staging.lookup d' := by
  by_cases h : d' = d
  · subst h
    cases verdict <;>
      simp [Verdict.apply,Verdict.onRow,Queue.stagingAck,Queue.stagingDefer,Queue.stagingFail,hd]
  · cases verdict <;>
      simp [Verdict.apply,Queue.stagingAck,Queue.stagingDefer,Queue.stagingFail,hd,h,
        AList.lookup_erase_ne,Table.lookup_update_ne]

theorem lookup_release (cycle : Cycle) (verdict : String → Verdict) {domains : List String}
    (hsettled : ∀ d ∈ domains, normalizeDomain d = d) (hnodup : domains.Nodup)
    (db : Queue.Database) (d : String) :
    (cycle.release verdict domains db).staging.lookup d =
      if d ∈ domains then (verdict d).onRow (cycle.finishedAt d) (db.staging.lookup d)
      else db.staging.lookup d := by
  induction domains generalizing db with
  | nil => rfl
  | cons d₀ domains ih =>
    obtain ⟨hnot,hnodup⟩ := List.nodup_cons.mp hnodup
    have hrest := ih (fun d' hd' => hsettled d' (by simp [hd'])) hnodup
      ((verdict d₀).apply (cycle.finishedAt d₀) d₀ db)
    have hfirst := lookup_apply (cycle.finishedAt d₀) (hsettled d₀ (by simp)) db (verdict d₀) d
    simp only [Cycle.release,List.foldl_cons] at hrest ⊢
    rw [hrest,hfirst]
    by_cases h : d = d₀
    · subst h
      simp [hnot]
    · simp [h]

/-! What handling leaves alone. -/

theorem saveClassificationRun_staging (now : ℤ) (c : Classification) (info : RunInfo)
    (staging : Table String StagingRow) :
    Keeping (fun s => s.queue.staging = staging) (saveClassificationRun now c info) := by
  intro s hs
  simp only [saveClassificationRun]
  cases hensured : ensured now c.domain s with
  | error fault => exact hs
  | ok pair =>
    obtain ⟨key,s'⟩ := pair
    obtain ⟨-,domains,rfl⟩ := ensured_ok hensured
    dsimp only
    split <;> exact hs

theorem performEffect_staging (call : PiHole.Call) (effect : Automation.Effect)
    (staging : Table String StagingRow) :
    Keeping (fun s => s.queue.staging = staging) (performEffect call effect) := by
  cases effect with
  | reviewTask domain reason priority source =>
    intro s hs
    simp only [performEffect,createReviewTask]
    split
    · exact hs
    · simp only [insertReviewTask]
      cases hensured : ensured call.now domain s with
      | error fault => exact hs
      | ok pair =>
        obtain ⟨key,s'⟩ := pair
        obtain ⟨-,domains,rfl⟩ := ensured_ok hensured
        dsimp only
        split <;> exact hs
  | notify title message => exact Keeping.pure ()
  | addExactDomain domain policy comment =>
    refine Keeping.service fun s hs => ?_
    rw [← hs]
    exact congrArg Queue.Database.staging (PiHole.addExactDomain_queue _ _ _ _ _ _)
  | saveClassification c status planned actionStatus =>
    exact saveClassificationRun_staging _ _ _ _

theorem handleItem_staging (handler : Handler) (i : ℕ) (item : Item) (s : Store) :
    (after (handler.handleItem i item s)).queue.staging = s.queue.staging := by
  simp only [Handler.handleItem]
  split
  · exact performEffects_keeping (fun effect _ => performEffect_staging _ effect _) 0 s rfl
  · cases (handler.handling i).fault 0 with
    | some fault => rfl
    | none => exact saveClassificationRun_staging _ _ _ _ s rfl

theorem handleItems_staging (handler : Handler) (i : ℕ) (items : List Item) (s : Store) :
    (handler.handleItems i items s).store.queue.staging = s.queue.staging := by
  induction items generalizing i s with
  | nil => rfl
  | cons item items ih =>
    have hitem := handleItem_staging handler i item s
    simp only [Handler.handleItems]
    cases hresult : handler.handleItem i item s with
    | error fault s' =>
      rw [hresult] at hitem
      exact hitem
    | ok _ s' =>
      rw [hresult] at hitem
      exact (ih (i+1) s').trans hitem

theorem saveClassificationRun_pihole (now : ℤ) (c : Classification) (info : RunInfo) (s : Store) :
    (after (saveClassificationRun now c info s)).world.pihole = s.world.pihole := by
  simp only [saveClassificationRun]
  cases hensured : ensured now c.domain s with
  | error fault => rfl
  | ok pair =>
    obtain ⟨key,s'⟩ := pair
    obtain ⟨-,domains,rfl⟩ := ensured_ok hensured
    dsimp only
    split <;> rfl

theorem createReviewTask_pihole (now : ℤ) (d reason source : String)
    (priority : Automation.ReviewPriority) (s : Store) :
    (after (createReviewTask now d reason priority source s)).world.pihole = s.world.pihole := by
  simp only [createReviewTask]
  split
  · rfl
  · simp only [insertReviewTask]
    cases hensured : ensured now d s with
    | error fault => rfl
    | ok pair =>
      obtain ⟨key,s'⟩ := pair
      obtain ⟨-,domains,rfl⟩ := ensured_ok hensured
      dsimp only
      split <;> rfl

theorem addExactDomain_writesOnly {s : Store} {names : List String} {call : PiHole.Call}
    {domain policy comment : String} (hmem : domain ∈ names) :
    Keeping (WritesOnly s names) (service (PiHole.addExactDomain call domain policy comment false)) := by
  refine Keeping.service fun s' hs' => ?_
  intro d t hwritten
  rcases PiHole.addExactDomain_pihole call domain policy comment false s'.world with hsame | hadd
  · rw [Written,hsame] at hwritten
    exact hs' d t hwritten
  · obtain ⟨t',rule,-,happly⟩ := hadd
    by_cases hkey : (.exactDomain t d : PiHole.Resource) = .exactDomain t' domain
    · obtain ⟨-,rfl⟩ := PiHole.Resource.exactDomain.inj hkey
      exact hmem
    · rw [Written,PiHole.lookup_add_ne happly hkey] at hwritten
      exact hs' d t hwritten

theorem handleItem_writesOnly (handler : Handler) (i : ℕ) {item : Item} {s s' : Store}
    {names : List String} (hmem : item.classification.domain ∈ names) (hs' : WritesOnly s names s') :
    WritesOnly s names (after (handler.handleItem i item s')) := by
  simp only [Handler.handleItem]
  split
  · simp only [handleClassification,effects_eq]
    refine performEffects_keeping (fun effect heffect s₁ hs₁ => ?_) 0 s' hs'
    rcases List.mem_append.mp heffect with heffect | heffect
    · have hprepares := preparation_prepares heffect
      cases effect with
      | reviewTask domain reason priority source =>
        exact hs₁.of_pihole (createReviewTask_pihole _ _ _ _ _ _)
      | notify title message => exact hs₁
      | addExactDomain domain policy comment =>
        obtain rfl : domain = item.classification.domain := hprepares
        exact addExactDomain_writesOnly hmem s₁ hs₁
      | saveClassification c status planned actionStatus => cases hprepares
    · rw [List.mem_singleton.mp heffect]
      exact hs₁.of_pihole (saveClassificationRun_pihole _ _ _ _)
  · cases (handler.handling i).fault 0 with
    | some fault => exact hs'
    | none => exact hs'.of_pihole (saveClassificationRun_pihole _ _ _ _)

theorem handleItems_writesOnly (handler : Handler) (i : ℕ) (items : List Item) (names : List String)
    {s s' : Store} (hmem : ∀ item ∈ items, item.classification.domain ∈ names)
    (hs' : WritesOnly s names s') :
    WritesOnly s names (handler.handleItems i items s').store := by
  induction items generalizing i s' with
  | nil => exact hs'
  | cons item items ih =>
    have hitem := handleItem_writesOnly handler i (hmem item (by simp)) hs'
    simp only [Handler.handleItems]
    cases hresult : handler.handleItem i item s' with
    | error fault s₁ =>
      rw [hresult] at hitem
      exact hitem
    | ok _ s₁ =>
      rw [hresult] at hitem
      exact ih (i+1) (fun item' h => hmem item' (by simp [h])) hitem

/-- Without a failure every item is completed. -/
theorem handleItems_completed {handler : Handler} {i : ℕ} {items : List Item} {s : Store}
    (h : (handler.handleItems i items s).failure = none) :
    (handler.handleItems i items s).completed = items := by
  induction items generalizing i s with
  | nil => rfl
  | cons item items ih =>
    simp only [Handler.handleItems] at h ⊢
    cases hresult : handler.handleItem i item s with
    | error fault s₁ =>
      rw [hresult] at h
      cases h
    | ok _ s₁ =>
      rw [hresult] at h
      exact congrArg (item::·) (ih h)

theorem completed_subset (handler : Handler) (i : ℕ) (items : List Item) (s : Store) :
    ∀ item ∈ (handler.handleItems i items s).completed, item ∈ items := by
  induction items generalizing i s with
  | nil => exact fun _ h => h
  | cons first items ih =>
    simp only [Handler.handleItems]
    cases handler.handleItem i first s with
    | error fault s' =>
      intro item h
      cases h
    | ok _ s' =>
      intro item h
      rcases List.mem_cons.mp h with rfl | h
      · exact List.mem_cons_self
      · exact List.mem_cons_of_mem _ (ih (i+1) s' item h)

/-! What a cycle starts from. -/

theorem skipProtected_spec (domains : List String) (s : Store)
    (hsettled : ∀ d ∈ domains, normalizeDomain d = d) :
    (skipProtected domains s).1 = domains.filter (fun d => !(Queue.getDomainLock d s.queue).isSome) ∧
      ∃ staging, (skipProtected domains s).2 = s.setQueue { s.queue with staging } ∧
        ∀ d, normalizeDomain d = d → (Queue.getDomainLock d s.queue).isSome = false →
          staging.lookup d = s.queue.staging.lookup d := by
  induction domains generalizing s with
  | nil => exact ⟨rfl,_,rfl,fun _ _ _ => rfl⟩
  | cons d₀ domains ih =>
    have hrest : ∀ d ∈ domains, normalizeDomain d = d := fun d hd => hsettled d (by simp [hd])
    simp only [skipProtected]
    by_cases hlocked : (Queue.getDomainLock d₀ s.queue).isSome
    · obtain ⟨hnames,staging,hstore,hlookup⟩ := ih (s.setQueue (Queue.stagingAck d₀ s.queue)) hrest
      rw [if_pos hlocked]
      refine ⟨?_,staging,hstore,fun d hd hfree => ?_⟩
      · rw [hnames,List.filter_cons_of_neg (by simp [hlocked])]
        rfl
      · have hne : d ≠ d₀ := by
          rintro rfl
          rw [hlocked] at hfree
          cases hfree
        rw [hlookup d hd hfree]
        refine AList.lookup_erase_ne ?_
        rwa [hsettled d₀ (by simp)]
    · obtain ⟨hnames,staging,hstore,hlookup⟩ := ih s hrest
      rw [if_neg hlocked]
      refine ⟨?_,staging,hstore,hlookup⟩
      rw [List.filter_cons_of_pos (by simp [hlocked]),hnames]

/-- The batch as the analysis gets it: its rows are held, and each has been tried once. -/
structure Begun (domains : List String) (s : Store) : Prop where
  settled : ∀ d ∈ domains, normalizeDomain d = d
  nodup : domains.Nodup
  held : ∀ d ∈ domains, ∃ row, s.queue.staging.lookup d = some row ∧ row.state = .processing ∧
    1 ≤ row.attempts

theorem begun_spec {cycle : Cycle} {s : Store} (hcounted : Queue.Counted s.queue)
    (hsettled : ∀ d ∈ cycle.claimed s, normalizeDomain d = d) :
    Begun (cycle.unlocked s) (cycle.begun s) ∧
      (cycle.begun s).world.pihole = s.world.pihole := by
  obtain ⟨hnames,staging,hstore,hlookup⟩ :=
    skipProtected_spec (cycle.claimed s) (cycle.afterClaim s) hsettled
  have hsub : ∀ d ∈ cycle.unlocked s, d ∈ cycle.claimed s ∧
      (Queue.getDomainLock d (cycle.afterClaim s).queue).isSome = false := by
    intro d hd
    rw [Cycle.unlocked,hnames] at hd
    obtain ⟨hmem,hfree⟩ := List.mem_filter.mp hd
    exact ⟨hmem,by simpa using hfree⟩
  refine ⟨⟨fun d hd => hsettled d (hsub d hd).1,?_,fun d hd => ?_⟩,?_⟩
  · rw [Cycle.unlocked,hnames]
    exact (Queue.claimedItems_nodup _ _ _ _).filter _
  · obtain ⟨hmem,hfree⟩ := hsub d hd
    obtain ⟨row,hrow,-,-⟩ := Queue.claimed_row hmem
    have hclaimed := Queue.lookup_stagingClaimItems cycle.claimedAt cycle.batchSize (some cycle.pool)
      s.queue d
    rw [hrow,Option.map_some,if_pos (by rwa [Cycle.claimed] at hmem)] at hclaimed
    refine ⟨row.claim cycle.claimedAt,?_,rfl,?_⟩
    · rw [Cycle.begun,hstore]
      exact (hlookup d (hsettled d hmem) hfree).trans hclaimed
    · have hattempts := hcounted d row hrow
      simp only [StagingRow.claim]
      omega
  · rw [Cycle.begun,hstore]
    rfl

/-- What a whole cycle leaves of the row of a domain it analysed. -/
theorem lookup_run {cycle : Cycle} {s : Store} (hrunning : cycle.stopped = false)
    (hbegun : Begun (cycle.unlocked s) (cycle.begun s)) {d : String} (hd : d ∈ cycle.unlocked s) :
    (cycle.run s).queue.staging.lookup d =
      (cycle.verdict s d).onRow (cycle.finishedAt d) ((cycle.begun s).queue.staging.lookup d) := by
  have hne : cycle.unlocked s ≠ [] := List.ne_nil_of_mem hd
  have hstaging : (cycle.handled s).store.queue.staging = (cycle.begun s).queue.staging := by
    simp only [Cycle.handled]
    split
    · exact handleItems_staging _ _ _ _
    · rfl
  simp only [Cycle.run,hrunning,Bool.false_eq_true,if_false,if_neg hne]
  change (cycle.release _ _ _).staging.lookup d = _
  rw [lookup_release cycle _ hbegun.settled hbegun.nodup,if_pos hd,hstaging]

theorem run_pihole {cycle : Cycle} {s : Store} (hrunning : cycle.stopped = false)
    (hne : cycle.unlocked s ≠ []) :
    (cycle.run s).world.pihole = (cycle.handled s).store.world.pihole := by
  simp only [Cycle.run,hrunning,Bool.false_eq_true,if_false,if_neg hne]
  rfl

/-! Failure isolation. -/

/-- The classification of `d` was saved in this cycle, and its row says that `t` was applied. -/
def Recorded (cycle : Cycle) (s : Store) (d : String) (t : Queue.ListType) : Prop :=
  (∃ item ∈ (cycle.handled s).completed, item.isPrimary = true ∧ item.classification.domain = d) ∧
    ∃ row, (cycle.run s).review.lookup (normalizeDomain d) = some row ∧
      row.actionStatus = "applied" ∧ row.plannedAction = PiHole.typeName t

/-- What a failure in the middle of a batch must not do. -/
structure Isolated (cycle : Cycle) (s : Store) : Prop where
  acknowledged : ∀ item ∈ (cycle.handled s).completed, item.isPrimary = true →
    (cycle.run s).queue.staging.lookup item.classification.domain = none
  recorded : ∀ d t, Written s (cycle.run s) d t →
    ∀ row, (cycle.run s).queue.staging.lookup d = some row → row.state = .failed →
      Recorded cycle s d t
  unhandled : ∀ d ∈ cycle.unlocked s, ∀ row, (cycle.run s).queue.staging.lookup d = some row →
    row.state ≠ .processing → d ∉ (cycle.handled s).names

section Isolation

variable {cycle : Cycle} {s : Store} {results : List Dispatch.ProviderAnalysisResult}
  {errors : List Dispatch.ProviderAnalysisError}

theorem handled_ok (hresult : cycle.outcome s = .ok (results,errors)) :
    cycle.handled s = cycle.handler.handleItems 0 (cycle.handler.items results) (cycle.begun s) := by
  simp only [Cycle.handled,hresult]

theorem verdict_failure {fault : PiHole.Fault} (hresult : cycle.outcome s = .ok (results,errors))
    (hfailure : (cycle.handled s).failure = some fault) (d : String) :
    cycle.verdict s d = .fail (faultMessage fault) := by
  simp only [Cycle.verdict,hresult,hfailure]

theorem verdict_handled (hresult : cycle.outcome s = .ok (results,errors))
    (hfailure : (cycle.handled s).failure = none) {d : String} (hd : d ∈ (cycle.handled s).names) :
    cycle.verdict s d = .ack := by
  simp only [Cycle.verdict,hresult,hfailure,if_pos hd]

/-- After a failure every row of the batch is failed. -/
theorem failed_of_failure {fault : PiHole.Fault} (hrunning : cycle.stopped = false)
    (hbegun : Begun (cycle.unlocked s) (cycle.begun s))
    (hresult : cycle.outcome s = .ok (results,errors))
    (hfailure : (cycle.handled s).failure = some fault) {d : String} (hd : d ∈ cycle.unlocked s) :
    ∃ row, (cycle.run s).queue.staging.lookup d = some row ∧ row.state = .failed := by
  obtain ⟨row,hrow,-,hattempts⟩ := hbegun.held d hd
  have hrun := lookup_run hrunning hbegun hd
  rw [verdict_failure hresult hfailure,hrow] at hrun
  refine ⟨_,hrun,?_⟩
  simp only [StagingRow.fail]
  exact if_pos hattempts

theorem acked_of_handled (hrunning : cycle.stopped = false)
    (hbegun : Begun (cycle.unlocked s) (cycle.begun s))
    (hresult : cycle.outcome s = .ok (results,errors)) (hfailure : (cycle.handled s).failure = none)
    {d : String} (hd : d ∈ cycle.unlocked s) (hnames : d ∈ (cycle.handled s).names) :
    (cycle.run s).queue.staging.lookup d = none := by
  rw [lookup_run hrunning hbegun hd,verdict_handled hresult hfailure hnames]
  rfl

/-- The rules a cycle writes are about domains its dispatch named. -/
theorem written_named (hpihole : (cycle.begun s).world.pihole = s.world.pihole)
    (hresult : cycle.outcome s = .ok (results,errors)) {d : String} {t : Queue.ListType}
    (hwritten : Written s (cycle.handled s).store d t) :
    ∃ item ∈ cycle.handler.items results, item.classification.domain = d := by
  have h := handleItems_writesOnly cycle.handler 0 (cycle.handler.items results)
    ((cycle.handler.items results).map fun item => item.classification.domain)
    (fun item hitem => List.mem_map_of_mem hitem)
    (WritesOnly.of_pihole (WritesOnly.refl s _) hpihole)
  rw [← handled_ok hresult] at h
  exact List.mem_map.mp (h d t hwritten)

/-- A cycle keeps a failure to the domains it concerns exactly when handling does not fail at
all, or fails at its first classification without having written a rule. -/
theorem cycle_isolates_iff {labels : List (Queue.Context × Queue.Op)}
    (hreach : Transition.Run Queue.Op.Step Queue.Database.empty labels s.queue)
    (hsettled : ∀ d ∈ cycle.claimed s, normalizeDomain d = d) (hrunning : cycle.stopped = false)
    (hresult : cycle.outcome s = .ok (results,errors))
    (hnamed : ∀ item ∈ cycle.handler.items results,
      item.classification.domain ∈ cycle.unlocked s) :
    Isolated cycle s ↔ (cycle.handled s).failure = none ∨
      (cycle.handled s).completed = [] ∧ ∀ d t, ¬Written s (cycle.handled s).store d t := by
  obtain ⟨hbegun,hpihole⟩ := begun_spec (Queue.counted hreach) hsettled
  have hcompleted : ∀ item ∈ (cycle.handled s).completed,
      item.classification.domain ∈ cycle.unlocked s := by
    intro item hitem
    rw [handled_ok hresult] at hitem
    exact hnamed item (completed_subset _ _ _ _ item hitem)
  have hwritten : ∀ d t, Written s (cycle.handled s).store d t → d ∈ cycle.unlocked s := by
    intro d t h
    obtain ⟨item,hitem,rfl⟩ := written_named hpihole hresult h
    exact hnamed item hitem
  have hrun : ∀ d t, Written s (cycle.run s) d t ↔ Written s (cycle.handled s).store d t := by
    intro d t
    by_cases hne : cycle.unlocked s = []
    · have hbare : (cycle.run s).world.pihole = s.world.pihole := by
        simp only [Cycle.run,hrunning,Bool.false_eq_true,if_false,if_pos hne]
        exact hpihole
      constructor
      · intro h
        rw [Written,hbare] at h
        exact absurd h.1 h.2
      · intro h
        have hmem := hwritten d t h
        rw [hne] at hmem
        cases hmem
    · rw [Written,Written,run_pihole hrunning hne]
  constructor
  · intro h
    cases hfailure : (cycle.handled s).failure with
    | none => exact .inl rfl
    | some fault =>
      refine .inr ⟨?_,fun d t hnew => ?_⟩
      · by_contra hne
        obtain ⟨item,hitem⟩ := List.exists_mem_of_ne_nil _ hne
        obtain ⟨row,hrow,hstate⟩ := failed_of_failure hrunning hbegun hresult hfailure
          (hcompleted item hitem)
        refine h.unhandled _ (hcompleted item hitem) row hrow ?_ (List.mem_map_of_mem hitem)
        rw [hstate]
        simp
      · obtain ⟨row,hrow,hstate⟩ := failed_of_failure hrunning hbegun hresult hfailure
          (hwritten d t hnew)
        obtain ⟨⟨item,hitem,-,rfl⟩,-⟩ := h.recorded d t ((hrun d t).mpr hnew) row hrow hstate
        refine h.unhandled _ (hcompleted item hitem) row hrow ?_ (List.mem_map_of_mem hitem)
        rw [hstate]
        simp
  · rintro (hfailure | ⟨hempty,hquiet⟩)
    · have hall : (cycle.handled s).completed = cycle.handler.items results := by
        rw [handled_ok hresult] at hfailure ⊢
        exact handleItems_completed hfailure
      have hacked : ∀ item ∈ (cycle.handled s).completed,
          (cycle.run s).queue.staging.lookup item.classification.domain = none := fun item hitem =>
        acked_of_handled hrunning hbegun hresult hfailure (hcompleted item hitem)
          (List.mem_map_of_mem hitem)
      refine ⟨fun item hitem _ => hacked item hitem,fun d t hnew row hrow _ => ?_,
        fun d _ row hrow _ hmem => ?_⟩
      · obtain ⟨item,hitem,rfl⟩ := written_named hpihole hresult ((hrun d t).mp hnew)
        rw [← hall] at hitem
        cases (hacked item hitem).symm.trans hrow
      · obtain ⟨item,hitem,rfl⟩ := List.mem_map.mp hmem
        cases (hacked item hitem).symm.trans hrow
    · refine ⟨fun item hitem => ?_,fun d t hnew => ?_,fun d _ row _ _ hmem => ?_⟩
      · rw [hempty] at hitem
        cases hitem
      · exact absurd ((hrun d t).mp hnew) (hquiet d t)
      · rw [Handled.names,hempty] at hmem
        cases hmem

end Isolation

end Cycle

/-! Two scanned domains that are both to be denied. -/

def scannedPair : Store :=
  Store.empty.setQueue ((Queue.Op.needingAnalysis ["a.com","b.com"] false).exec ⟨10,[]⟩
    Queue.Database.empty)

theorem scannedPair_reached :
    Transition.Run Queue.Op.Step Queue.Database.empty
      [(⟨10,[]⟩,.needingAnalysis ["a.com","b.com"] false)] scannedPair.queue :=
  .single rfl

def tracker (d : String) : Classification :=
  { domain := d
    policy := .deny
    category := "ads"
    short := "Tracker"
    details := ""
    provider := "p"
    breakageRisk := 0
    confidence := 1
    needsReview := false }

def denyTrackers : Automation.AutomationOptions :=
  { automationMode := "auto"
    simulationMode := false
    requireResearchForAutoAction := false
    tagPolicies := (∅ : Table String String).insert "ads" "deny" }

/-- Both are classified; the Pi-hole answers the `i`-th item as `delivery i` says. -/
def pairCycle (delivery : ℕ → PiHole.Delivery) : Cycle where
  claimedAt := 11
  batchSize := 5
  pool := .background
  stopped := false
  analyse _ := .ok ([⟨"p","P","m","default","",[tracker "a.com",tracker "b.com"],0,⟨0,0,0,0⟩,true⟩],[])
  handler :=
    { options := denyTrackers
      runs := []
      tagRows := []
      dossier := fun _ => {}
      queueSource := fun _ => "scanner"
      knownProvider := fun _ => true
      handling := fun i => ⟨⟨20,fun _ => ⟨delivery i,"Pi-hole is not reachable"⟩,none⟩,fun _ => none⟩ }
  look _ := 20
  finishedAt _ := 20

/-- The rule for `b.com` is refused after `a.com` was denied and saved. -/
def refusesSecond : ℕ → PiHole.Delivery := fun i => if i = 1 then .unsent else .answered

theorem refused_second_not_isolated :
    (pairCycle refusesSecond).unlocked scannedPair = ["a.com","b.com"] ∧
      ¬Isolated (pairCycle refusesSecond) scannedPair := by
  refine ⟨by decide,fun h => ?_⟩
  have hstate : (((pairCycle refusesSecond).run scannedPair).queue.staging.lookup "a.com").map
      StagingRow.state = some .failed := by decide +kernel
  obtain ⟨row,hrow,hfailed⟩ := Option.map_eq_some_iff.mp hstate
  exact h.unhandled "a.com" (by decide +kernel) row hrow (by simp [hfailed]) (by decide +kernel)

theorem cycle_isolates_pair : Isolated (pairCycle fun _ => .answered) scannedPair := by
  refine (cycle_isolates_iff scannedPair_reached (by decide) rfl rfl ?_).mpr
    (.inl (by decide +kernel))
  have hnamed : ((pairCycle fun _ => .answered).handler.items
      [⟨"p","P","m","default","",[tracker "a.com",tracker "b.com"],0,⟨0,0,0,0⟩,true⟩]).all
      (fun item => decide (item.classification.domain ∈
        (pairCycle fun _ => .answered).unlocked scannedPair)) = true := by decide
  exact fun item hitem => of_decide_eq_true (List.all_eq_true.mp hnamed item hitem)

end Review
end WormholeObservatory
