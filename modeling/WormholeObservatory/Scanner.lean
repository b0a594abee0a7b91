import WormholeObservatory.ObservationTotals

/-! One turn of `Scanner.run`: the rows of a page that are later than the cursor are recorded,
their domains queued, and the cursor moved past them. Each of these is a transaction of its
own, and what raises ends the turn where it is. Times are rationals; the text the cursor is
stored as has six decimals. -/
namespace WormholeObservatory
namespace Observations

open Queue (QueueError)

inductive ScanFailure
  | record (e : RecordError)
  | queue (e : QueueError)
  deriving DecidableEq

/-- To the nearest integer, halves to the even one. -/
def roundHalfEven (x : ℚ) : ℤ :=
  if x-⌊x⌋ < 1/2 then ⌊x⌋
  else if 1/2 < x-⌊x⌋ then ⌊x⌋+1
  else if ⌊x⌋%2 = 0 then ⌊x⌋ else ⌊x⌋+1

/-- `float(f"{x:.6f}")`. -/
def sixDecimals (x : ℚ) : ℚ := roundHalfEven (x*1000000)/1000000

/-- `max(timestamps)`. -/
def latest (row : QueryRow) (rows : List QueryRow) : ℚ :=
  rows.foldl (fun time row => max time row.time) row.time

/-- The scanner: the tables, `_from_ts`, the stored `scanner_from_ts`, and the positions in the
log of the rows that were recorded, in the order of the calls. -/
structure Scanner where
  db : Database
  cursor : ℚ
  stored : Option ℚ
  counted : List ℕ

/-- What a turn finds: the clock and the configuration of the queue, the batch size, the page
`fetch_queries` returns as positions in the log, each listed once, and, when it is time for the
history, the page that is fetched of it. -/
structure ScanCycle where
  context : Queue.Context
  batchSize : ℤ
  fetch : ℤ → ℚ → List ℕ
  once : ∀ length fromTs, (fetch length fromTs).Nodup
  history : Option (List QueryRow)

/-- `float(max(0, int(self._from_ts)))`. -/
def Scanner.requestFrom (s : Scanner) : ℚ := max 0 (Queue.truncate s.cursor)

/-- The positions of the rows that are later than the cursor. -/
def Scanner.page (s : Scanner) (log : ℕ → QueryRow) (cycle : ScanCycle) : List ℕ :=
  (cycle.fetch cycle.batchSize s.requestFrom).filter fun i => decide (s.cursor < (log i).time)

/-- The cursor moves past the rows of a page. -/
def Scanner.advance (s : Scanner) : List QueryRow → Scanner
  | [] => s
  | row::rows =>
    let cursor := max s.cursor (latest row rows+1/1000)
    { s with cursor, stored := some (sixDecimals cursor) }

/-- `Scanner.__init__` on what an earlier process stored. -/
def Scanner.restart (s : Scanner) (now lookback : ℚ) : Scanner :=
  let fallback := now-lookback
  let stored := s.stored.getD fallback
  { s with cursor := if stored ≤ 0 ∨ now+60 < stored then fallback else stored }

section Scan

variable [CaseTables]

/-- The set of names a page is queued under. -/
def scannedDomains (rows : List QueryRow) : List String :=
  ((rows.filter fun row => decide (strip row.domain ≠ "")).map fun row =>
    CaseTables.lower (strip row.domain)).dedup

/-- `queue_domains_needing_analysis`, with what it raises. -/
def needingAnalysis (c : Queue.Context) (values : List String) (db : Queue.Database) :
    Option QueueError × Queue.Database :=
  match Queue.analysisCandidates c false values db with
  | .error e => (some e,db)
  | .ok (candidates,db) =>
    match Queue.stagingEnqueue c candidates 0 "live_query" "background" db with
    | .error e => (some e,db)
    | .ok (_,db) => (none,db)

/-- The entry of a name in `discovered`. -/
def discoveredAt (now : ℤ) (rows : List QueryRow) (d : String) : ℤ :=
  ((rows.filter fun row => normalizeDomain row.domain = d).map (QueryRow.timestamp now)).foldl max 0

/-- `record_discovered_domains`. -/
def recordDiscoveredDomains (now : ℤ) (rows : List QueryRow) (db : Queue.Database) :
    Except QueueError Queue.Database :=
  let names := ((rows.map fun row => normalizeDomain row.domain).filter (· ≠ "")).eraseDups
  let seenAt := fun d => if discoveredAt now rows d = 0 then now else discoveredAt now rows d
  names.foldlM (fun db d => (Queue.ensureDomain (seenAt d) d db).map Prod.snd) db

/-- `_run_history_backfill`, as far as it writes these tables. -/
def runHistoryBackfill (c : Queue.Context) (rows : List QueryRow) (db : Queue.Database) :
    Option QueueError × Queue.Database :=
  if rows = [] then (none,db)
  else
    match recordDiscoveredDomains c.now rows db with
    | .error e => (some e,db)
    | .ok db => needingAnalysis c (scannedDomains rows) db

def Scanner.setQueue (s : Scanner) (queue : Queue.Database) : Scanner :=
  { s with db := { s.db with queue } }

/-- The end of a turn: the cursor, or the history if there was nothing new, and the rechecks. -/
def Scanner.finish (s : Scanner) (cycle : ScanCycle) (rows : List QueryRow) :
    Option ScanFailure × Scanner :=
  let s := s.advance rows
  let (failure,queue) :=
    if rows = [] then runHistoryBackfill cycle.context (cycle.history.getD []) s.db.queue
    else (none,s.db.queue)
  match failure with
  | some e => (some (.queue e),s.setQueue queue)
  | none =>
    match Queue.queueDueRechecks cycle.context cycle.batchSize queue with
    | .error e => (some (.queue e),s.setQueue queue)
    | .ok (_,queue) => (none,s.setQueue queue)

/-- The rows of a page that are recorded: those with a name. -/
def recordedAt (log : ℕ → QueryRow) (page : List ℕ) : List ℕ := page.filter fun i => (log i).named

/-- A turn of `Scanner.run` with the Pi-hole in reach; what it raises, if it does. -/
def Scanner.cycle (s : Scanner) (log : ℕ → QueryRow) (cycle : ScanCycle) :
    Option ScanFailure × Scanner :=
  let page := s.page log cycle
  let rows := page.map log
  match recordQueryObservations cycle.context.now rows s.db with
  | .error e => (some (.record e),s)
  | .ok (_,db) =>
    let s := { s with db, counted := s.counted++recordedAt log page }
    match needingAnalysis cycle.context (scannedDomains rows) db.queue with
    | (some e,queue) => (some (.queue e),s.setQueue queue)
    | (none,queue) => (s.setQueue queue).finish cycle rows

theorem needingAnalysis_eq (c : Queue.Context) (values : List String) (db : Queue.Database) :
    (needingAnalysis c values db).2 = Queue.queueDomainsNeedingAnalysis c values false db := by
  simp only [needingAnalysis,Queue.queueDomainsNeedingAnalysis]
  cases Queue.analysisCandidates c false values db with
  | error e => rfl
  | ok pair =>
    obtain ⟨candidates,db₁⟩ := pair
    simp only [Bool.false_eq_true,if_false]
    cases Queue.stagingEnqueue c candidates 0 "live_query" "background" db₁ with
    | error e => rfl
    | ok pair => rfl

end Scan

end Observations
end WormholeObservatory
