import WormholeObservatory.StagingQueue
import WormholeObservatory.Upserts

/-! `record_query_observations`: the rows of a call are grouped by domain, client, type,
status and hour, and every group is added to the row of its domain and to its own row of
`query_observations`. -/
namespace WormholeObservatory
namespace Observations

open Aggregation (Dict Span)
open Queue (DomainRow)

/-- A row of the query log, each field as `str(row.get(..) or "")` and `row.get("time") or 0`. -/
structure QueryRow where
  domain : String
  client : String
  queryType : String
  status : String
  time : ℚ
  deriving DecidableEq

/-- The primary key of `query_observations`. -/
structure ObservationKey where
  domain : String
  client : String
  queryType : String
  status : String
  bucketStart : ℤ
  deriving DecidableEq

/-- The tables of `database_core` with the observations. -/
structure Database where
  queue : Queue.Database
  observations : Table ObservationKey (Span ℤ)

def Database.empty : Database := ⟨.empty,∅⟩

inductive RecordError
  | emptyDomain
  | foreignKey
  deriving DecidableEq

/-- `int(row.get("time") or time.time())`. -/
def QueryRow.timestamp (now : ℤ) (row : QueryRow) : ℤ :=
  if row.time = 0 then now else Queue.truncate row.time

def bucketOf (timestamp : ℤ) : ℤ := timestamp-timestamp%3600

/-- What `_ensure_domain` makes of the row of a domain. -/
def seenRow (seenAt increment : ℤ) : Option DomainRow → DomainRow
  | none => ⟨seenAt,seenAt,increment,none,none⟩
  | some row => { row with
      firstSeen := min row.firstSeen seenAt
      lastSeen := max row.lastSeen seenAt
      queryCount := row.queryCount+increment }

/-- What `_ensure_domain` keeps of the times a domain was seen. -/
def span (row : DomainRow) : Span ℤ := ⟨row.queryCount,row.firstSeen,row.lastSeen⟩

section Record

variable [CaseTables]

def QueryRow.key (now : ℤ) (row : QueryRow) : ObservationKey :=
  ⟨normalizeDomain row.domain,row.client,row.queryType,row.status,bucketOf (row.timestamp now)⟩

/-- One turn of the loop over the rows. -/
def groupRow (now : ℤ) (grouped : Dict ObservationKey (Span ℤ)) (row : QueryRow) :
    Dict ObservationKey (Span ℤ) :=
  if normalizeDomain row.domain = "" then grouped
  else grouped.upsert (row.key now) (.single (row.timestamp now))

/-- `grouped` and `first_last`. -/
def groupRows (now : ℤ) (rows : List QueryRow) : Dict ObservationKey (Span ℤ) :=
  rows.foldl (groupRow now) []

/-- `_ensure_domain` with a `query_increment`. -/
def ensureQueriedDomain (seenAt queryIncrement : ℤ) (domain : String) (db : Queue.Database) :
    Except RecordError (String × Queue.Database) :=
  let normalized := normalizeDomain domain
  if normalized = "" then .error .emptyDomain
  else
    let row := seenRow seenAt (max 0 queryIncrement) (db.domains.lookup normalized)
    .ok (normalized,{ db with domains := db.domains.insert normalized row })

/-- One turn of the loop over the groups. The observation refers to a domain that must exist. -/
def recordGroup (now : ℤ) (db : Database) (group : ObservationKey × Span ℤ) :
    Except RecordError Database :=
  let (key,seen) := group
  let seenAt := if seen.last = 0 then now else seen.last
  match ensureQueriedDomain seenAt seen.count key.domain db.queue with
  | .error e => .error e
  | .ok (_,queue) =>
    if key.domain ∈ queue.domains then .ok ⟨queue,db.observations.upsert key seen⟩
    else .error .foreignKey

/-- `record_query_observations`: the number of rows recorded, and the tables. -/
def recordQueryObservations (now : ℤ) (rows : List QueryRow) (db : Database) :
    Except RecordError (ℤ × Database) := do
  let grouped := groupRows now rows
  let db ← grouped.foldlM (recordGroup now) db
  pure ((grouped.map fun group => group.2.count).sum,db)

/-- A call, with the clock it reads. -/
structure Batch where
  now : ℤ
  rows : List QueryRow

/-- What a call leaves: one that raises is rolled back. -/
def Database.record (db : Database) (batch : Batch) : Database :=
  match recordQueryObservations batch.now batch.rows db with
  | .ok (_,db') => db'
  | .error _ => db

/-- The tables after calls on an empty database. -/
def recorded (batches : List Batch) : Database := batches.foldl Database.record .empty

theorem ensureQueriedDomain_zero (seenAt : ℤ) (domain : String) (db : Queue.Database) :
    (ensureQueriedDomain seenAt 0 domain db).toOption = (Queue.ensureDomain seenAt domain db).toOption := by
  simp only [ensureQueriedDomain,Queue.ensureDomain]
  split
  · rfl
  · cases db.domains.lookup (normalizeDomain domain) <;> simp [Except.toOption,seenRow]

end Record

end Observations
end WormholeObservatory
