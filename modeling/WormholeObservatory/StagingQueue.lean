import WormholeObservatory.Runs
import WormholeObservatory.Tables
import WormholeObservatory.Letters

/-! The analysis queue of `database_core`: the tables it reads and writes and the
calls that change it. A call is a transaction, so one that raises leaves the
database as it found it. -/
namespace WormholeObservatory
namespace Queue

inductive Pool
  | realtime
  | background
  deriving DecidableEq, Repr

inductive RowState
  | queued
  | processing
  | failed
  deriving DecidableEq, Repr

/-- A row of `staging_domains`, without its key. -/
structure StagingRow where
  state : RowState
  attempts : ℤ
  createdAt : ℤ
  updatedAt : ℤ
  lastError : String
  priority : ℤ
  source : String
  poolId : Pool
  availableAt : ℤ
  deriving DecidableEq

structure DomainRow where
  firstSeen : ℤ
  lastSeen : ℤ
  queryCount : ℤ
  lastClassifiedAt : Option ℤ
  nextRecheckAt : Option ℤ
  deriving DecidableEq

inductive ListType
  | allow
  | deny
  deriving DecidableEq, Repr

def ListType.opposite : ListType → ListType
  | .allow => .deny
  | .deny => .allow

structure LockRow where
  listType : ListType
  reason : String
  createdAt : ℤ
  updatedAt : ℤ
  deriving DecidableEq

/-- The columns of `classification_runs` the queue reads. -/
structure ClassificationRow where
  domain : String
  isPrimary : Bool
  expiresAt : ℤ
  deriving DecidableEq

structure Database where
  staging : Table String StagingRow
  domains : Table String DomainRow
  locks : Table String LockRow
  classifications : List ClassificationRow

def Database.empty : Database := ⟨∅,∅,∅,[]⟩

inductive QueueError
  | emptyDomain
  | listType
  deriving DecidableEq

/-- What a call reads besides its arguments: `int(time.time())` and the configured
`excluded_domain_suffixes`. -/
structure Context where
  now : ℤ
  excludedSuffixes : List String

section Calls

variable [CaseTables]

/-- A pool argument; text that names no pool counts as none. -/
def parsePool (poolId : String) : Option Pool :=
  let normalized := CaseTables.lower (strip poolId)
  if normalized = "realtime" then some .realtime
  else if normalized = "background" then some .background
  else none

/-- `_queue_pool_id`. -/
def queuePoolId (poolId : String) (priority : ℤ) (source : String) : Pool :=
  match parsePool poolId with
  | some pool => pool
  | none =>
    if priority ≥ 100 ∨ startsWith (CaseTables.lower (strip source)) "manual_" = true then .realtime
    else .background

/-- `_ensure_domain`. -/
def ensureDomain (seenAt : ℤ) (domain : String) (db : Database) :
    Except QueueError (String × Database) :=
  let normalized := normalizeDomain domain
  if normalized = "" then .error .emptyDomain
  else
    let row : DomainRow := match db.domains.lookup normalized with
      | none => ⟨seenAt,seenAt,0,none,none⟩
      | some row => { row with
          firstSeen := min row.firstSeen seenAt
          lastSeen := max row.lastSeen seenAt }
    .ok (normalized,{ db with domains := db.domains.insert normalized row })

/-- The arguments of `staging_enqueue_detailed` once they are normalised. -/
structure Request where
  now : ℤ
  priority : ℤ
  source : String
  pool : Pool
  requeueExisting : Bool

inductive Outcome
  | queued
  | requeued
  | alreadyPending
  | skippedLocked
  deriving DecidableEq

/-- What a request makes of the row of an unlocked domain. -/
def Request.stage (r : Request) : Option StagingRow → Outcome × StagingRow
  | none => (.queued,
      { state := .queued, attempts := 0, createdAt := r.now, updatedAt := r.now, lastError := ""
        priority := r.priority, source := r.source, poolId := r.pool, availableAt := 0 })
  | some row =>
    if row.state = .processing then (.alreadyPending,row)
    else if row.state = .queued then
      (.alreadyPending,{ row with
        priority := max row.priority r.priority
        source := if r.priority ≥ row.priority ∧ r.source ≠ "" then r.source else row.source
        poolId := if r.priority ≥ row.priority then r.pool else row.poolId
        availableAt := 0 })
    else if row.state = .failed ∨ r.requeueExisting = true then
      (.requeued,{ row with
        state := .queued
        attempts := 0
        updatedAt := r.now
        lastError := ""
        priority := max row.priority r.priority
        source := if r.source ≠ "" then r.source else row.source
        poolId := r.pool
        availableAt := 0 })
    else (.alreadyPending,row)

/-- One turn of the loop of `staging_enqueue_detailed`. -/
def Request.enqueueOne (r : Request) (value : String) (db : Database) :
    Except QueueError ((String × Outcome) × Database) :=
  match ensureDomain r.now value db with
  | .error e => .error e
  | .ok (domain,db) =>
    match db.locks.lookup domain with
    | some _ => .ok ((domain,.skippedLocked),db)
    | none =>
      let (outcome,row) := r.stage (db.staging.lookup domain)
      .ok ((domain,outcome),{ db with staging := db.staging.insert domain row })

/-- The loop, with the outcome of each domain in turn. -/
def Request.enqueueAll (r : Request) : List String → Database →
    Except QueueError (List (String × Outcome) × Database)
  | [], db => .ok ([],db)
  | value::values, db =>
    match r.enqueueOne value db with
    | .error e => .error e
    | .ok (outcome,db) =>
      match r.enqueueAll values db with
      | .error e => .error e
      | .ok (outcomes,db) => .ok (outcome::outcomes,db)

structure EnqueueResult where
  requested : ℕ
  queued : ℕ
  requeued : ℕ
  alreadyPending : ℕ
  skippedLocked : ℕ
  skippedFiltered : ℕ
  deriving DecidableEq

def EnqueueResult.accepted (r : EnqueueResult) : ℕ := r.queued+r.requeued+r.alreadyPending

/-- The normalised names of a call, first occurrences in order. -/
def uniqueDomains (values : List String) : List String :=
  ((values.map normalizeDomain).filter (· ≠ "")).eraseDups

/-- The names of a call that reach its loop. -/
def Context.admitted (c : Context) (values : List String) : List String :=
  (uniqueDomains values).filter fun d => !domainMatchesSuffix d c.excludedSuffixes

def Context.request (c : Context) (priority : ℤ) (source poolId : String) (requeueExisting : Bool) :
    Request where
  now := c.now
  priority := max 0 priority
  source := strip source
  pool := queuePoolId poolId (max 0 priority) (strip source)
  requeueExisting := requeueExisting

/-- `staging_enqueue_detailed`. -/
def stagingEnqueueDetailed (c : Context) (values : List String) (priority : ℤ)
    (source poolId : String) (requeueExisting : Bool) (db : Database) :
    Except QueueError (EnqueueResult × Database) :=
  match (c.request priority source poolId requeueExisting).enqueueAll (c.admitted values) db with
  | .error e => .error e
  | .ok (outcomes,db) =>
    let count := fun o => outcomes.countP (·.2 = o)
    .ok ({ requested := (uniqueDomains values).length
           queued := count .queued
           requeued := count .requeued
           alreadyPending := count .alreadyPending
           skippedLocked := count .skippedLocked
           skippedFiltered := (uniqueDomains values).countP
             fun d => domainMatchesSuffix d c.excludedSuffixes },db)

/-- `staging_enqueue`. -/
def stagingEnqueue (c : Context) (values : List String) (priority : ℤ) (source poolId : String)
    (db : Database) : Except QueueError (ℕ × Database) :=
  match stagingEnqueueDetailed c values priority source poolId false db with
  | .error e => .error e
  | .ok (result,db) => .ok (result.queued+result.requeued,db)

/-- `queue_domains_for_review`. -/
def queueDomainsForReview (c : Context) (values : List String) (source : String) (db : Database) :
    Except QueueError (EnqueueResult × Database) :=
  stagingEnqueueDetailed c values 100 source "realtime" true db

/-- Whether `queue_domains_needing_analysis` passes a domain on. -/
def needsAnalysis (c : Context) (domain : String) (db : Database) : Bool :=
  match db.locks.lookup domain, db.domains.lookup domain with
  | some _, _ => false
  | none, none => true
  | none, some row =>
    !(db.classifications.any fun run =>
        run.domain = domain && !run.isPrimary && decide (run.expiresAt > c.now)) &&
      (row.lastClassifiedAt.isNone || row.nextRecheckAt.any (· ≤ c.now))

/-- The first transaction of `queue_domains_needing_analysis`. -/
def analysisCandidates (c : Context) (force : Bool) : List String → Database →
    Except QueueError (List String × Database)
  | [], db => .ok ([],db)
  | value::values, db =>
    match ensureDomain c.now value db with
    | .error e => .error e
    | .ok (domain,db) =>
      match analysisCandidates c force values db with
      | .error e => .error e
      | .ok (candidates,db') =>
        .ok (if force || needsAnalysis c domain db then domain::candidates else candidates,db')

/-- A transaction that raises is rolled back. -/
def commit {α : Type*} (db : Database) : Except QueueError (α × Database) → Database
  | .error _ => db
  | .ok (_,db') => db'

/-- `queue_domains_needing_analysis`: two transactions, the second an enqueue. -/
def queueDomainsNeedingAnalysis (c : Context) (values : List String) (force : Bool)
    (db : Database) : Database :=
  match analysisCandidates c force values db with
  | .error _ => db
  | .ok (candidates,db) =>
    commit db (stagingEnqueue c candidates (if force then 100 else 0)
      (if force then "manual" else "live_query") (if force then "realtime" else "background") db)

/-- The rows `queue_due_rechecks` selects, oldest due date first. -/
def dueRechecks (c : Context) (limit : ℤ) (db : Database) : List String :=
  let due := db.domains.select fun domain row =>
    row.nextRecheckAt.any (· ≤ c.now) && (db.locks.lookup domain).isNone
  let ordered := due.insertionSort fun a b =>
    toLex (a.2.nextRecheckAt.getD 0,-a.2.lastSeen) ≤ toLex (b.2.nextRecheckAt.getD 0,-b.2.lastSeen)
  (ordered.take (max 1 limit).toNat).map Prod.fst

/-- `queue_due_rechecks`. -/
def queueDueRechecks (c : Context) (limit : ℤ) (db : Database) :
    Except QueueError (ℕ × Database) :=
  stagingEnqueue c (dueRechecks c limit db) 10 "scheduled_recheck" "background" db

/-- What `staging_claim_items` returns of a row. -/
structure ClaimedItem where
  domain : String
  source : String
  priority : ℤ
  attempts : ℤ
  createdAt : ℤ
  poolId : Pool
  deriving DecidableEq

def claimable (now : ℤ) (pool : Option Pool) (row : StagingRow) : Bool :=
  decide (row.state = .queued) && decide (row.availableAt ≤ now) &&
    pool.all fun p => decide (row.poolId = p)

/-- `ORDER BY priority DESC, created_at, domain`. -/
def claimOrder (a b : String × StagingRow) : Prop :=
  a.2.priority > b.2.priority ∨ a.2.priority = b.2.priority ∧
    (a.2.createdAt < b.2.createdAt ∨ a.2.createdAt = b.2.createdAt ∧
      codes a.1 ≤ codes b.1)

instance : DecidableRel claimOrder := fun _ _ => inferInstanceAs (Decidable (_ ∨ _))

def claimedRows (now limit : ℤ) (pool : Option Pool) (db : Database) :
    List (String × StagingRow) :=
  ((db.staging.select fun _ row => claimable now pool row).insertionSort claimOrder).take
    (max 1 limit).toNat

def StagingRow.claim (now : ℤ) (row : StagingRow) : StagingRow :=
  { row with state := .processing, attempts := row.attempts+1, updatedAt := now }

/-- `staging_claim_items`. -/
def stagingClaimItems (now limit : ℤ) (pool : Option Pool) (db : Database) :
    List ClaimedItem × Database :=
  let rows := claimedRows now limit pool db
  let items := rows.map fun (domain,row) =>
    ⟨domain,row.source,row.priority,row.attempts,row.createdAt,row.poolId⟩
  let domains := rows.map Prod.fst
  let staging := db.staging.updateWhere (fun domain _ => decide (domain ∈ domains))
    (StagingRow.claim now)
  (items,{ db with staging := staging })

/-- `staging_ack`. -/
def stagingAck (domain : String) (db : Database) : Database :=
  { db with staging := db.staging.erase (normalizeDomain domain) }

/-- `staging_remove`. -/
def stagingRemove (domains : List String) (db : Database) : Database :=
  let normalized := (domains.map normalizeDomain).filter (· ≠ "")
  { db with staging := db.staging.deleteWhere fun domain _ => decide (domain ∈ normalized) }

def truncateError (error : String) : String := String.ofList (error.toList.take 1000)

def StagingRow.fail (now maxAttempts : ℤ) (error : String) (row : StagingRow) : StagingRow :=
  { row with
    state := if row.attempts ≥ maxAttempts then .failed else .queued
    updatedAt := now
    lastError := truncateError error
    availableAt := 0 }

/-- `staging_fail`. -/
def stagingFail (now : ℤ) (domain error : String) (maxAttempts : ℤ) (db : Database) : Database :=
  { db with staging :=
      db.staging.update (normalizeDomain domain) (StagingRow.fail now maxAttempts error) }

/-- `int(x)`: drop the fraction. -/
def truncate (x : ℚ) : ℤ := if 0 ≤ x then ⌊x⌋ else ⌈x⌉

def StagingRow.defer (now : ℤ) (error : String) (retryAt : ℚ) (row : StagingRow) : StagingRow :=
  { row with
    state := .queued
    attempts := max 0 (row.attempts-1)
    updatedAt := now
    lastError := truncateError error
    availableAt := max (now+1) (truncate retryAt) }

/-- `staging_defer`. -/
def stagingDefer (now : ℤ) (domain error : String) (retryAt : ℚ) (db : Database) : Database :=
  { db with staging :=
      db.staging.update (normalizeDomain domain) (StagingRow.defer now error retryAt) }

def StagingRow.requeue (now : ℤ) (row : StagingRow) : StagingRow :=
  { row with state := .queued, updatedAt := now, availableAt := 0 }

/-- `staging_requeue_processing`. -/
def stagingRequeueProcessing (now : ℤ) (pool : Option Pool) (db : Database) : Database :=
  let staging := db.staging.updateWhere
    (fun _ row => decide (row.state = .processing) && pool.all fun p => decide (row.poolId = p))
    (StagingRow.requeue now)
  { db with staging := staging }

def parseListType (listType : String) : Option ListType :=
  if listType = "allow" then some .allow else if listType = "deny" then some .deny else none

/-- `set_domain_lock`. -/
def setDomainLock (now : ℤ) (domain listType reason : String) (db : Database) :
    Except QueueError (Unit × Database) :=
  match parseListType listType with
  | none => .error .listType
  | some listType =>
    match ensureDomain now domain db with
    | .error e => .error e
    | .ok (normalized,db) =>
      let row : LockRow := match db.locks.lookup normalized with
        | none => ⟨listType,strip reason,now,now⟩
        | some row => ⟨listType,strip reason,row.createdAt,now⟩
      .ok ((),{ db with
        locks := db.locks.insert normalized row
        staging := db.staging.erase normalized })

/-- `remove_domain_lock`. -/
def removeDomainLock (domain : String) (db : Database) : Database :=
  { db with locks := db.locks.erase (normalizeDomain domain) }

/-- `get_domain_lock`. -/
def getDomainLock (domain : String) (db : Database) : Option LockRow :=
  db.locks.lookup (normalizeDomain domain)

/-- The calls that change the queue. `other` stands for what the rest of the program
writes to the tables the queue only reads. -/
inductive Op
  | enqueue (values : List String) (priority : ℤ) (source poolId : String) (requeueExisting : Bool)
  | review (values : List String) (source : String)
  | needingAnalysis (values : List String) (force : Bool)
  | dueRechecks (limit : ℤ)
  | claim (limit : ℤ) (poolId : String)
  | ack (domain : String)
  | fail (domain error : String) (maxAttempts : ℤ)
  | defer (domain error : String) (retryAt : ℚ)
  | requeueProcessing (poolId : String)
  | remove (domains : List String)
  | setLock (domain listType reason : String)
  | removeLock (domain : String)
  | other (domains : Table String DomainRow) (classifications : List ClassificationRow)

def Op.exec (c : Context) (db : Database) : Op → Database
  | .enqueue values priority source poolId requeueExisting =>
    commit db (stagingEnqueueDetailed c values priority source poolId requeueExisting db)
  | .review values source => commit db (queueDomainsForReview c values source db)
  | .needingAnalysis values force => queueDomainsNeedingAnalysis c values force db
  | .dueRechecks limit => commit db (queueDueRechecks c limit db)
  | .claim limit poolId => (stagingClaimItems c.now limit (parsePool poolId) db).2
  | .ack domain => stagingAck domain db
  | .fail domain error maxAttempts => stagingFail c.now domain error maxAttempts db
  | .defer domain error retryAt => stagingDefer c.now domain error retryAt db
  | .requeueProcessing poolId => stagingRequeueProcessing c.now (parsePool poolId) db
  | .remove domains => stagingRemove domains db
  | .setLock domain listType reason => commit db (setDomainLock c.now domain listType reason db)
  | .removeLock domain => removeDomainLock domain db
  | .other domains classifications =>
    { db with domains := domains, classifications := classifications }

/-- Calls in sequence, each at its own time and with its own configuration. -/
def Op.Step (db : Database) (l : Context × Op) (db' : Database) : Prop := l.2.exec l.1 db = db'

end Calls

end Queue
end WormholeObservatory
