import WormholeObservatory.PiHoleService

/-! What is kept for a human to look at: the `review` table with one row a domain, the
`review_tasks`, and the preferences that silence a domain. The calls of
`database_review`, `database_features` and `review_preferences` on them, the listing of
`database.review_queue_get`, and the review decisions with all they write. -/
namespace WormholeObservatory
namespace Review

open Queue (RowState StagingRow)
open PiHole (Fault World)

/-- A row of `review`, without its key. -/
structure ReviewRow where
  short : String
  details : String
  status : String
  needsReview : Bool
  reviewReason : String
  plannedAction : String
  actionStatus : String
  updatedAt : ℤ

inductive TaskStatus
  | opened
  | resolved
  deriving DecidableEq

structure ReviewTask where
  domain : String
  reason : String
  priority : Automation.ReviewPriority
  status : TaskStatus
  source : String
  decision : String
  updatedAt : ℤ
  deriving DecidableEq

/-- A row of `review_preferences`, without its key. -/
structure Preference where
  neverAsk : Bool
  postponedUntil : Option ℤ
  lastDecision : String
  updatedAt : ℤ

structure Store where
  world : World
  review : Table String ReviewRow
  tasks : List ReviewTask
  preferences : Table String Preference

def Store.empty : Store :=
  ⟨⟨Queue.Database.empty,[],"http://pi.hole",⟨[],""⟩,∅,.empty⟩,∅,[],∅⟩

def Store.queue (s : Store) : Queue.Database := s.world.queue

def Store.setQueue (s : Store) (queue : Queue.Database) : Store :=
  { s with world := { s.world with queue } }

/-- A call that raises keeps what it has done so far. -/
abbrev Task := EStateM Fault Store

/-- A call of the Pi-hole service, from a place that also has the review tables. -/
def service {α : Type} (call : PiHole.Service α) : Task α := fun s =>
  match call s.world with
  | .ok a w => .ok a { s with world := w }
  | .error fault w => .error fault { s with world := w }

def emptyDomainFault : Fault := .valueError "domain must not be empty"

section Calls

variable [CaseTables]

/-- `_ensure_domain`, as the first statement of a transaction: the key and the tables with
its row. -/
def ensured (now : ℤ) (domain : String) (s : Store) : Except Fault (String × Store) :=
  match Queue.ensureDomain now domain s.queue with
  | .error _ => .error emptyDomainFault
  | .ok (key,queue) => .ok (key,s.setQueue queue)

/-! Preferences. -/

/-- Whether a preference silences its domain at `now`. -/
def Preference.blocks (now : ℤ) (p : Preference) : Bool :=
  p.neverAsk || p.postponedUntil.any (now < ·)

/-- `preference_blocks_review`. -/
def preferenceBlocksReview (now : ℤ) (domain : String) (s : Store) : Bool :=
  decide (normalizeDomain domain ≠ "") &&
    (s.preferences.lookup (normalizeDomain domain)).any (Preference.blocks now)

/-- `set_review_preference`. -/
def setReviewPreference (now : ℤ) (domain : String) (neverAsk : Bool) (postponedUntil : Option ℤ)
    (lastDecision : String) : Task Unit := fun s =>
  let key := normalizeDomain domain
  if key = "" then .error emptyDomainFault s
  else
    let row : Preference := ⟨neverAsk,postponedUntil,CaseTables.lower (strip lastDecision),now⟩
    .ok () { s with preferences := s.preferences.insert key row }

/-- `clear_review_preference`. -/
def clearReviewPreference (domain : String) : Task Unit := fun s =>
  .ok () { s with preferences := s.preferences.erase (normalizeDomain domain) }

/-! Tasks and rows. -/

/-- `database_features.create_review_task`. An open task with the same reason stays as it is. -/
def insertReviewTask (now : ℤ) (domain reason : String) (priority : Automation.ReviewPriority)
    (source : String) : Task Unit := fun s =>
  match ensured now domain s with
  | .error fault => .error fault s
  | .ok (key,s) =>
    if s.tasks.any fun t => t.domain = key && t.reason = strip reason && t.status = .opened then
      .ok () s
    else
      let task : ReviewTask := ⟨key,strip reason,priority,.opened,strip source,"",now⟩
      .ok () { s with tasks := s.tasks++[task] }

/-- `database.create_review_task`: nothing is asked about a silenced domain. -/
def createReviewTask (now : ℤ) (domain reason : String) (priority : Automation.ReviewPriority)
    (source : String) : Task Unit := fun s =>
  if preferenceBlocksReview now domain s then .ok () s
  else insertReviewTask now domain reason priority source s

/-- `_normalize_planned_action`. -/
def normalizePlannedAction (value : String) : String :=
  let normalized := CaseTables.lower (strip value)
  if normalized ∈ ["allow","deny"] then normalized else ""

/-- `_normalize_action_status`. -/
def normalizeActionStatus (value : String) : String :=
  let normalized := CaseTables.lower (strip value)
  if normalized ∈ ["none","simulated","applied","dismissed"] then normalized else "none"

/-- What `save_classification_run` is told besides the classification. -/
structure RunInfo where
  status : String
  plannedAction : String := ""
  actionStatus : String := "none"
  isPrimary : Bool := true
  updateCurrent : Bool := true

/-- `expires_at` of a run saved at `now`. -/
def expiresAt (now : ℤ) (c : Classification) : ℤ := now+max 1 c.recheckAfterDays*86400

/-- The `review` row a run that is current leaves. -/
def currentRow (now : ℤ) (c : Classification) (info : RunInfo) : ReviewRow where
  short := strip c.short
  details := strip c.details
  status := orElse (strip info.status) "edited"
  needsReview := c.needsReview || decide (normalizeActionStatus info.actionStatus = "simulated")
  reviewReason := strip (if normalizeActionStatus info.actionStatus = "simulated" then
    "Simulation mode prevented automatic "++info.plannedAction++"." else c.reviewReason)
  plannedAction := normalizePlannedAction info.plannedAction
  actionStatus := normalizeActionStatus info.actionStatus
  updatedAt := now

/-- `save_classification_run`. -/
def saveClassificationRun (now : ℤ) (c : Classification) (info : RunInfo) : Task Unit := fun s =>
  match ensured now c.domain s with
  | .error fault => .error fault s
  | .ok (key,s) =>
    let run : Queue.ClassificationRow := ⟨key,info.isPrimary,expiresAt now c⟩
    let queue := { s.queue with classifications := s.queue.classifications++[run] }
    if info.updateCurrent then
      let classified : Queue.DomainRow → Queue.DomainRow := fun row =>
        { row with lastClassifiedAt := some now, nextRecheckAt := some (expiresAt now c) }
      let s := s.setQueue { queue with domains := queue.domains.update key classified }
      .ok () { s with review := s.review.insert key (currentRow now c info) }
    else .ok () (s.setQueue queue)

def ReviewTask.resolve (now : ℤ) (decision : String) (t : ReviewTask) : ReviewTask :=
  { t with status := .resolved, decision, updatedAt := now }

/-- `UPDATE review_tasks SET status = 'resolved' .. WHERE status = 'open' AND p domain`. -/
def resolveTasks (now : ℤ) (decision : String) (p : String → Bool) (tasks : List ReviewTask) :
    List ReviewTask :=
  tasks.map fun t => if t.status = .opened && p t.domain then t.resolve now decision else t

/-- `mark_action_applied`. -/
def markActionApplied (now : ℤ) (domain action : String) : Task Unit := fun s =>
  let key := normalizeDomain domain
  let planned := normalizePlannedAction action
  if key = "" ∨ planned = "" then .error (.valueError "domain and action must be valid") s
  else
    let applied : ReviewRow → ReviewRow := fun row =>
      { row with
        plannedAction := planned
        actionStatus := "applied"
        needsReview := false
        reviewReason := ""
        status := "manually_applied"
        updatedAt := now }
    .ok () { s with
      review := s.review.update key applied
      tasks := resolveTasks now ("applied_"++planned) (fun d => decide (d = key)) s.tasks }

/-- `review_resolve`. -/
def reviewResolve (now : ℤ) (domains : List String) (decision : String) : Task Unit := fun s =>
  let keys := (domains.map normalizeDomain).filter (· ≠ "")
  let reviewed : ReviewRow → ReviewRow := fun row =>
    { row with
      needsReview := false
      reviewReason := ""
      status := "reviewed"
      actionStatus := if row.actionStatus = "simulated" then "dismissed" else row.actionStatus
      updatedAt := now }
  .ok () { s with
    review := s.review.updateWhere (fun d _ => decide (d ∈ keys)) reviewed
    tasks := resolveTasks now (orElse (strip decision) "dismissed") (fun d => decide (d ∈ keys))
      s.tasks }

/-- `_resolve_open_review_tasks`. -/
def resolveOpenReviewTasks (now : ℤ) (domain decision : String) : Task Unit := fun s =>
  .ok () { s with tasks := resolveTasks now decision (fun d => decide (d = domain)) s.tasks }

/-! Decisions. -/

/-- The last statements of an `allow` or `deny` decision. -/
def concludeDecision (now : ℤ) (domain : String) (t : Queue.ListType) : Task Unit := do
  markActionApplied now domain (PiHole.typeName t)
  service (PiHole.leaveQueue domain)
  setReviewPreference now domain false none (PiHole.typeName t)

/-- `_execute_validated`. -/
def executeValidated (call : PiHole.Call) (domain : String) (postponeUntil : Option ℤ)
    (comment : String) : PiHole.Decision → Task Unit
  | .allow => do
    service (PiHole.applyDecision call domain comment .allow)
    concludeDecision call.now domain .allow
  | .deny => do
    service (PiHole.applyDecision call domain comment .deny)
    concludeDecision call.now domain .deny
  | .ignore => do
    service (PiHole.leaveQueue domain)
    reviewResolve call.now [domain] "ignored"
    setReviewPreference call.now domain false none "ignore"
  | .postpone =>
    match postponeUntil with
    | none => throw (.invalidReviewDecision "postpone_until is required for postpone")
    | some postponed =>
      if postponed ≤ call.now then
        throw (.invalidReviewDecision "postpone_until must be in the future")
      else do
        service (PiHole.leaveQueue domain)
        resolveOpenReviewTasks call.now domain "postponed"
        setReviewPreference call.now domain false (some postponed) "postpone"
  | .neverAsk => do
    service (PiHole.leaveQueue domain)
    resolveOpenReviewTasks call.now domain "never_ask"
    setReviewPreference call.now domain true none "never_ask"

/-- `ReviewDecisionApplicationService.execute`. -/
def executeDecision (call : PiHole.Call) (command : PiHole.ReviewDecisionCommand) : Task Unit :=
  fun s =>
    let normalized := normalizeDomain command.domain
    if normalized = "" then .error (.invalidReviewDecision "domain must not be empty") s
    else
      match PiHole.parseDecision (CaseTables.lower (strip command.decision)) with
      | none => .error (.invalidReviewDecision
          "decision must be allow, deny, postpone, ignore, or never_ask") s
      | some decision =>
        match executeValidated call normalized command.postponeUntil command.comment decision s with
        | .error (.runtimeError message) s => .error (.reviewDecisionConflict message) s
        | result => result

end Calls

/-! The listing. -/

/-- An entry of the listing: the columns of a `review` row, and those of a queued item. -/
structure ReviewItem where
  domain : String
  short : String
  details : String
  status : String
  needsReview : Bool
  reviewReason : String
  plannedAction : String
  actionStatus : String
  updatedAt : ℤ := 0
  queueState : Option RowState := none
  queueSource : String := ""
  queueError : String := ""
  queuePriority : ℤ := 0
  queueCreatedAt : ℤ := 0

def stateName : RowState → String
  | .queued => "queued"
  | .processing => "processing"
  | .failed => "failed"

/-- `_queue_summary`. -/
def queueSummary : RowState → String
  | .processing => "Analysis in progress."
  | .failed => "Analysis failed. Queue the domain again after correcting the error."
  | .queued => "Not analyzed."

def ReviewRow.item (domain : String) (row : ReviewRow) : ReviewItem :=
  ⟨domain,row.short,row.details,row.status,row.needsReview,row.reviewReason,row.plannedAction,
    row.actionStatus,row.updatedAt,none,"","",0,0⟩

/-- `database_review.review_get(limit, needs_review=True)`. -/
def reviewGet (limit : ℤ) (s : Store) : List ReviewItem :=
  let rows := (s.review.select fun _ row => row.needsReview).insertionSort
    fun a b => b.2.updatedAt ≤ a.2.updatedAt
  (rows.take (max 1 limit).toNat).map fun (domain,row) => row.item domain

/-- `staging_list`. -/
def stagingList (limit : ℤ) (s : Store) : List (String × StagingRow) :=
  ((s.queue.staging.select fun _ _ => true).insertionSort Queue.claimOrder).take (max 1 limit).toNat

/-- The columns of a queued item. -/
def ReviewItem.enqueued (item : ReviewItem) (row : StagingRow) : ReviewItem :=
  { item with
    queueState := some row.state
    queueSource := row.source
    queueError := row.lastError
    queuePriority := row.priority
    queueCreatedAt := row.createdAt }

/-- The entry of a queued item without a `review` row. -/
def queuedItem (domain : String) (row : StagingRow) : ReviewItem :=
  { domain := domain
    short := orElse row.lastError (queueSummary row.state)
    details := row.lastError
    status := stateName row.state
    needsReview := true
    reviewReason := ""
    plannedAction := ""
    actionStatus := "none" }

def ReviewItem.queued (item : ReviewItem) (row : StagingRow) : ReviewItem :=
  { item with
    status := stateName row.state
    short := orElse row.lastError item.short
    details := orElse row.lastError item.details }

/-- One turn of the loop over the queued items. -/
def mergeQueued (items : List ReviewItem) (queued : String × StagingRow) : List ReviewItem :=
  if items.any (·.domain = queued.1) then
    items.map fun item =>
      if item.domain = queued.1 then (item.queued queued.2).enqueued queued.2 else item
  else items++[(queuedItem queued.1 queued.2).enqueued queued.2]

def stateRank : Option RowState → ℤ
  | some .failed => 0
  | some .processing => 1
  | some .queued => 2
  | none => 3

/-- `sort_key`. -/
def ReviewItem.sortKey (item : ReviewItem) : List ℤ :=
  let createdAt := if item.queueCreatedAt = 0 then item.updatedAt else item.queueCreatedAt
  stateRank item.queueState::-item.queuePriority::createdAt::codes item.domain

def combinedRows (limit : ℤ) (s : Store) : List ReviewItem :=
  (stagingList limit s).foldl mergeQueued (reviewGet limit s)

/-- `database_review.review_queue_get`. -/
def reviewQueueRows (limit : ℤ) (s : Store) : List ReviewItem :=
  ((combinedRows limit s).insertionSort fun a b => a.sortKey ≤ b.sortKey).take (max 1 limit).toNat

/-- `database.review_queue_get`: without the silenced domains. -/
def reviewQueueGet [CaseTables] (now limit : ℤ) (s : Store) : List ReviewItem :=
  ((reviewQueueRows limit s).filter fun item =>
    !preferenceBlocksReview now item.domain s).take (max 1 limit).toNat

end Review
end WormholeObservatory
