import WormholeObservatory.EnqueueAccounts
import WormholeObservatory.ListExtraction
import WormholeObservatory.Loops
import WormholeObservatory.Urls

/-! The audit of the subscribed lists: every enabled list is read, and what has not been classified
is put into the background queue a batch at a time, with a pause before every batch but the first.
Whatever the other threads do, they do between the calls of the cycle. -/
namespace WormholeObservatory
namespace ListAudit

open WormholeObservatory.Lists (IdnaCodec Line ListFetchResult extractDomainsFromLines)
open Queue (Context QueueError)
open Urls (NetlocTables)

/-- The options a cycle reads. -/
structure ListAuditOptions where
  batchSize : ℤ
  rateLimitSec : ℚ
  maxDomainsPerList : ℤ

/-- A subscribed list. -/
structure SubscribedList where
  enabled : Bool
  address : String

/-- The columns of `review` that tell whether a domain has been looked at. -/
structure ReviewNote where
  status : String
  policy : String
  short : String
  details : String
  categories : String

structure Store where
  queue : Queue.Database
  review : Table String ReviewNote

/-- What a cycle meets at its `n`-th call: whether it is to stop, what a server answers, what the
other threads have done by then, and what a transaction reads. -/
structure Surroundings where
  stop : ℕ → Bool
  pause : ℕ → Bool
  lines : ℕ → Option (List Line)
  meanwhile : ℕ → Store → Store
  context : ℕ → Context

inductive Event
  | fetched (address : String) (result : Option ListFetchResult)
  | filtered (names : List String) (store : Store) (eligible : List String)
  | paused (seconds : ℚ)
  | enqueued (batch : List String) (context : Context) (before after : Queue.Database) (queued : ℕ)

/-- `ListAuditSummary`. -/
structure ListAuditSummary where
  listsSeen : ℕ
  listsAudited : ℕ
  listsFailed : ℕ
  domainsSeen : ℕ
  domainsQueued : ℕ
  batches : ℕ
  truncatedLists : ℕ
  cancelled : Bool
  deriving DecidableEq

/-- A cycle under way. -/
structure Cycle where
  store : Store
  moves : ℕ
  events : List Event
  firstBatch : Bool
  summary : ListAuditSummary

/-- How a cycle is left before its end: cancelled, or by an exception. -/
structure Exit where
  raised : Option QueueError
  cycle : Cycle

def Cycle.start (store : Store) (rows : List SubscribedList) : Cycle :=
  ⟨store,0,[],true,⟨rows.length,0,0,0,0,0,0,false⟩⟩

/-- `return ListAuditSummary(..., True)`. -/
def Cycle.cancel (c : Cycle) : Exit :=
  ⟨none,{ c with summary := { c.summary with cancelled := true } }⟩

/-- The list counts as failed. -/
def Cycle.fail (c : Cycle) : Cycle :=
  { c with summary := { c.summary with listsFailed := c.summary.listsFailed+1 } }

/-- Whether a classification or a review of the domain is there. -/
def ReviewNote.done (note : ReviewNote) : Bool :=
  decide (note.status ∉ ["queued","processing","failed"]) &&
    (decide (note.policy ≠ "unknown") || decide (note.short ≠ "") || decide (note.details ≠ "") ||
      decide (note.categories ≠ ""))

def Store.classified (s : Store) (d : String) : Bool :=
  (s.queue.domains.lookup d).any fun row =>
    row.lastClassifiedAt.isSome || (s.review.lookup d).any ReviewNote.done

section Cycles

variable [CaseTables]

/-- `filter_unclassified_domains`. -/
def filterUnclassifiedDomains (values : List String) (s : Store) : List String :=
  (Queue.uniqueDomains values).filter fun d => !s.classified d

variable (w : Surroundings) (audit : ListAuditOptions)

/-- The pause before a batch, and whether it is cut short. -/
def Cycle.hold (c : Cycle) : Bool × Cycle :=
  if ¬c.firstBatch = true ∧ 0 < audit.rateLimitSec then
    (w.pause c.moves,
      { c with moves := c.moves+1, events := c.events++[.paused audit.rateLimitSec] })
  else (false,c)

/-- `enqueue(batch, priority=0, source="list_audit", pool_id="background")`. -/
def Cycle.enqueue (c : Cycle) (batch : List String) : Except Exit Cycle :=
  let store := w.meanwhile c.moves c.store
  let context := w.context c.moves
  match Queue.stagingEnqueue context batch 0 "list_audit" "background" store.queue with
  | .error e => .error ⟨some e,{ c with store, moves := c.moves+1 }⟩
  | .ok (queued,queue) => .ok { c with
      store := { store with queue }
      moves := c.moves+1
      events := c.events++[.enqueued batch context store.queue queue queued]
      firstBatch := false
      summary := { c.summary with
        domainsQueued := c.summary.domainsQueued+queued
        batches := c.summary.batches+1 } }

/-- One turn of the inner loop of `run_list_audit_cycle`. -/
def Cycle.batch (c : Cycle) (batch : List String) : Except Exit Cycle :=
  if w.stop c.moves then .error c.cancel
  else
    match { c with moves := c.moves+1 }.hold w audit with
    | (true,c) => .error c.cancel
    | (false,c) => c.enqueue w batch

variable [IdnaCodec] [NetlocTables] (decode : List UInt8 → String)

/-- `fetch_domains_from_list`, by what the server answers; none if it raises. -/
def fetchDomainsFromList (address : String) (answer : Option (List Line)) (maxDomains : ℤ) :
    Option ListFetchResult :=
  match Urls.urlsplit (strip address).toList with
  | none => none
  | some parts =>
    if String.ofList parts.scheme ∈ ["http","https"] ∧ parts.netloc ≠ [] then
      answer.map fun lines => extractDomainsFromLines decode lines maxDomains (32*1024*1024)
    else none

/-- The list has been read, and its names are filtered. -/
def Cycle.read (c : Cycle) (address : String) (fetched : ListFetchResult) : Cycle × List String :=
  let store := w.meanwhile c.moves c.store
  let eligible := filterUnclassifiedDomains fetched.domains store
  ({ c with
      store
      moves := c.moves+1
      events := c.events++[.fetched address (some fetched),.filtered fetched.domains store eligible]
      summary := { c.summary with
        listsAudited := c.summary.listsAudited+1
        domainsSeen := c.summary.domainsSeen+fetched.domains.length
        truncatedLists := c.summary.truncatedLists+if fetched.truncated then 1 else 0 } },eligible)

/-- One turn of the outer loop. -/
def Cycle.row (c : Cycle) (row : SubscribedList) : Except Exit Cycle :=
  if w.stop c.moves then .error c.cancel
  else
    let c := { c with moves := c.moves+1 }
    let address := strip row.address
    if address = "" then .ok c.fail
    else
      let answer := fetchDomainsFromList decode address (w.lines c.moves) audit.maxDomainsPerList
      let c := { c with moves := c.moves+1 }
      match answer with
      | none => .ok { c.fail with events := c.events++[.fetched address none] }
      | some fetched =>
        let (c,eligible) := c.read w address fetched
        (Loops.pieces (max 1 audit.batchSize).toNat eligible).foldlM (Cycle.batch w audit) c

/-- `run_list_audit_cycle`, once the lists are there. -/
def runListAuditCycle (lists : List SubscribedList) (store : Store) : Except Exit Cycle :=
  let rows := lists.filter SubscribedList.enabled
  rows.foldlM (Cycle.row w audit decode) (Cycle.start store rows)

end Cycles

end ListAudit
end WormholeObservatory
