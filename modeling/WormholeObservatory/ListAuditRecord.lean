import WormholeObservatory.ListAudit

/-! What the record of an audit cycle says, however the cycle ends: which lists were read, that the
batches are the names found, in turn, that pauses and batches alternate, and that the counts are
right. -/
namespace WormholeObservatory
namespace ListAudit

open WormholeObservatory.Lists (IdnaCodec Line ListFetchResult extractDomainsFromLines)
open Queue (Context QueueError)
open Urls (NetlocTables)

section Genuine

variable [CaseTables] [IdnaCodec] [NetlocTables] (w : Surroundings) (audit : ListAuditOptions)
  (decode : List UInt8 → String)

/-- An event is what the call gave that it is the record of. -/
def Event.Genuine : Event → Prop
  | .fetched address result =>
    ∃ n, result = fetchDomainsFromList decode address (w.lines n) audit.maxDomainsPerList
  | .filtered names store eligible => eligible = filterUnclassifiedDomains names store
  | .paused seconds => seconds = audit.rateLimitSec
  | .enqueued batch context before after queued =>
    Queue.stagingEnqueue context batch 0 "list_audit" "background" before = .ok (queued,after)

end Genuine

/-! What a record says of each kind of call. -/

def Event.address : Event → Option String
  | .fetched address _ => some address
  | _ => none

def Event.result : Event → Option ListFetchResult
  | .fetched _ result => result
  | _ => none

def Event.names : Event → Option (List String)
  | .filtered names _ _ => some names
  | _ => none

def Event.eligible : Event → Option (List String)
  | .filtered _ _ eligible => some eligible
  | _ => none

def Event.batch : Event → Option (List String)
  | .enqueued batch _ _ _ _ => some batch
  | _ => none

def Event.queued : Event → Option ℕ
  | .enqueued _ _ _ _ queued => some queued
  | _ => none

/-- Whether it is a pause or a batch. -/
def Event.beat : Event → Option Bool
  | .paused _ => some true
  | .enqueued _ _ _ _ _ => some false
  | _ => none

/-- Between two batches is one pause, and none is before the first one; without a limit there is
none at all. -/
def Paced (audit : ListAuditOptions) (events : List Event) : Prop :=
  if 0 < audit.rateLimitSec then (true::events.filterMap Event.beat).IsChain (· ≠ ·)
  else ∀ beat ∈ events.filterMap Event.beat, beat = false

/-- The counts of a summary are those of its record. -/
structure Tallied (summary : ListAuditSummary) (events : List Event) : Prop where
  audited : summary.listsAudited = (events.filterMap Event.result).length
  seen : summary.domainsSeen = ((events.filterMap Event.result).map fun r => r.domains.length).sum
  truncated : summary.truncatedLists =
    (events.filterMap Event.result).countP ListFetchResult.truncated
  queued : summary.domainsQueued = (events.filterMap Event.queued).sum
  batches : summary.batches = (events.filterMap Event.batch).length

/-- The addresses a cycle reads. -/
def addressesOf (rows : List SubscribedList) : List String :=
  (rows.map fun row => strip row.address).filter (· ≠ "")

section Records

variable [CaseTables] [IdnaCodec] [NetlocTables] (w : Surroundings) (audit : ListAuditOptions)
  (decode : List UInt8 → String)

/-- What holds of a record whenever it is looked at. -/
structure Recorded (c : Cycle) : Prop where
  genuine : ∀ e ∈ c.events, e.Genuine w audit decode
  tallied : Tallied c.summary c.events
  filtered : c.events.filterMap Event.names =
    (c.events.filterMap Event.result).map ListFetchResult.domains
  sized : ∀ batch ∈ c.events.filterMap Event.batch,
    1 ≤ batch.length ∧ batch.length ≤ (max 1 audit.batchSize).toNat
  paced : Paced audit c.events

/-- How far a cycle has come. -/
structure Standing (total done : ℕ) (asked : List String) (found : List (List String))
    (queued : List String) (c : Cycle) : Prop extends Recorded w audit decode c where
  addresses : c.events.filterMap Event.address = asked
  eligible : c.events.filterMap Event.eligible = found
  worked : (c.events.filterMap Event.batch).flatten = queued
  turned : c.summary.listsAudited+c.summary.listsFailed = done
  total : c.summary.listsSeen = total
  running : c.summary.cancelled = false

/-- Between two turns of a loop the last of the pauses and batches is a batch. -/
def Rested (c : Cycle) : Prop :=
  if c.firstBatch = true then c.events.filterMap Event.beat = []
  else (c.events.filterMap Event.beat).getLast? = some false

/-- The record that a cycle is left with, of which so many lists had their turn. -/
structure Stopped (total done : ℕ) (asked : List String) (found : List (List String)) (e : Exit) :
    Prop extends Recorded w audit decode e.cycle where
  addresses : e.cycle.events.filterMap Event.address = asked
  eligible : e.cycle.events.filterMap Event.eligible = found
  worked : (e.cycle.events.filterMap Event.batch).flatten <+: found.flatten
  turned : e.cycle.summary.listsAudited+e.cycle.summary.listsFailed = done
  total : e.cycle.summary.listsSeen = total
  cancelled : e.cycle.summary.cancelled = e.raised.isNone

/-- The record that a cycle is left with. -/
structure Broken (rows : List SubscribedList) (e : Exit) : Prop
    extends Recorded w audit decode e.cycle where
  addresses : e.cycle.events.filterMap Event.address <+: addressesOf rows
  worked : (e.cycle.events.filterMap Event.batch).flatten <+:
    (e.cycle.events.filterMap Event.eligible).flatten
  turned : e.cycle.summary.listsAudited+e.cycle.summary.listsFailed ≤ rows.length
  total : e.cycle.summary.listsSeen = rows.length
  cancelled : e.cycle.summary.cancelled = e.raised.isNone

/-- The record of a cycle that ends by itself. -/
structure Complete (rows : List SubscribedList) (c : Cycle) : Prop
    extends Recorded w audit decode c where
  addresses : c.events.filterMap Event.address = addressesOf rows
  worked : (c.events.filterMap Event.batch).flatten = (c.events.filterMap Event.eligible).flatten
  turned : c.summary.listsAudited+c.summary.listsFailed = rows.length
  total : c.summary.listsSeen = rows.length
  running : c.summary.cancelled = false

end Records

/-! Taking a record on. -/

theorem Paced.quiet {audit : ListAuditOptions} {events : List Event} {e : Event}
    (h : Paced audit events) (he : e.beat = none) : Paced audit (events++[e]) := by
  rw [Paced,List.filterMap_append,List.filterMap_cons_none he,List.filterMap_nil,List.append_nil]
  exact h

theorem Paced.snoc {audit : ListAuditOptions} {events : List Event} {e : Event} {beat : Bool}
    (h : Paced audit events) (he : e.beat = some beat)
    (hnext : if 0 < audit.rateLimitSec then
      (events.filterMap Event.beat).getLast?.getD true ≠ beat else beat = false) :
    Paced audit (events++[e]) := by
  rw [Paced] at h ⊢
  rw [List.filterMap_append,List.filterMap_cons_some he,List.filterMap_nil]
  split at h
  · rename_i hlimit
    rw [if_pos hlimit] at hnext ⊢
    rw [← List.cons_append,List.isChain_append]
    refine ⟨h,List.isChain_singleton _,fun x hx y hy => ?_⟩
    rw [List.getLast?_cons] at hx
    simp only [Option.mem_def,Option.some.injEq,List.head?_cons] at hx hy
    rw [← hx,← hy]
    exact hnext
  · rename_i hlimit
    rw [if_neg hlimit] at hnext ⊢
    intro x hx
    rcases List.mem_append.mp hx with hx | hx
    · exact h x hx
    · rw [List.mem_singleton.mp hx,hnext]

section Steps

variable [CaseTables] [IdnaCodec] [NetlocTables] {w : Surroundings} {audit : ListAuditOptions}
  {decode : List UInt8 → String} {c : Cycle} {total done : ℕ} {asked : List String}
  {found : List (List String)} {queued : List String}

/-- The record after a pause. -/
theorem Recorded.pause (h : Recorded w audit decode c) (hlimit : 0 < audit.rateLimitSec)
    (hlast : (c.events.filterMap Event.beat).getLast? = some false) (moves : ℕ) :
    Recorded w audit decode
      { c with moves, events := c.events++[.paused audit.rateLimitSec] } where
  genuine e he := by
    rcases List.mem_append.mp he with he | he
    · exact h.genuine e he
    · rw [List.mem_singleton.mp he,Event.Genuine]
  tallied := by
    obtain ⟨haudited,hseen,htruncated,hqueued,hbatches⟩ := h.tallied
    constructor <;> simpa [Event.result,Event.queued,Event.batch]
  filtered := by simpa [List.filterMap_cons,Event.names,Event.result] using h.filtered
  sized := by simpa [Event.batch] using h.sized
  paced := by
    refine h.paced.snoc rfl ?_
    rw [if_pos hlimit,hlast]
    decide

/-- The record after a batch. -/
theorem Recorded.enqueue (h : Recorded w audit decode c) {batch : List String} {context : Context}
    {store : Store} {queue : Queue.Database} {n : ℕ} (moves : ℕ)
    (hsize : 1 ≤ batch.length ∧ batch.length ≤ (max 1 audit.batchSize).toNat)
    (hlast : 0 < audit.rateLimitSec → (c.events.filterMap Event.beat).getLast?.getD true = true)
    (hrun : Queue.stagingEnqueue context batch 0 "list_audit" "background" store.queue =
      .ok (n,queue)) :
    Recorded w audit decode { c with
      store := { store with queue }
      moves
      events := c.events++[.enqueued batch context store.queue queue n]
      firstBatch := false
      summary := { c.summary with
        domainsQueued := c.summary.domainsQueued+n
        batches := c.summary.batches+1 } } where
  genuine e he := by
    rcases List.mem_append.mp he with he | he
    · exact h.genuine e he
    · rw [List.mem_singleton.mp he]
      exact hrun
  tallied := by
    obtain ⟨haudited,hseen,htruncated,hqueued,hbatches⟩ := h.tallied
    constructor <;> simpa [Event.result,Event.queued,Event.batch]
  filtered := by simpa [List.filterMap_cons,Event.names,Event.result] using h.filtered
  sized piece hpiece := by
    simp only [List.filterMap_append,List.mem_append] at hpiece
    rcases hpiece with hpiece | hpiece
    · exact h.sized piece hpiece
    · simp only [Event.batch,List.filterMap_cons,List.filterMap_nil,List.mem_singleton] at hpiece
      rw [hpiece]
      exact hsize
  paced := by
    refine h.paced.snoc rfl ?_
    split
    · rename_i hlimit
      rw [hlast hlimit]
      decide
    · rfl

/-- The record after a list has been read. -/
theorem Recorded.read (h : Recorded w audit decode c) {address : String} {fetched : ListFetchResult}
    {n : ℕ} (hfetched : some fetched =
      fetchDomainsFromList decode address (w.lines n) audit.maxDomainsPerList) :
    Recorded w audit decode (c.read w address fetched).1 where
  genuine e he := by
    simp only [Cycle.read,List.mem_append,List.mem_cons,List.not_mem_nil,or_false] at he
    rcases he with he | rfl | rfl
    · exact h.genuine e he
    · exact ⟨n,hfetched⟩
    · exact rfl
  tallied := by
    obtain ⟨haudited,hseen,htruncated,hqueued,hbatches⟩ := h.tallied
    constructor <;>
      simp [Cycle.read,List.filterMap_cons,Event.result,Event.queued,Event.batch,haudited,hseen,
        htruncated,hqueued,hbatches]
  filtered := by simpa [Cycle.read,List.filterMap_cons,Event.names,Event.result] using h.filtered
  sized := by simpa [Cycle.read,Event.batch] using h.sized
  paced := by
    have htwo := (h.paced.quiet (e := .fetched address (some fetched)) rfl).quiet
      (e := .filtered fetched.domains (w.meanwhile c.moves c.store)
        (filterUnclassifiedDomains fetched.domains (w.meanwhile c.moves c.store))) rfl
    rw [List.append_assoc] at htwo
    exact htwo

/-! The loops. -/

/-- A cycle that is cancelled. -/
theorem Standing.cancel (h : Standing w audit decode total done asked found queued c)
    (hfront : queued <+: found.flatten) : Stopped w audit decode total done asked found c.cancel where
  genuine := h.genuine
  tallied := ⟨h.tallied.audited,h.tallied.seen,h.tallied.truncated,h.tallied.queued,h.tallied.batches⟩
  filtered := h.filtered
  sized := h.sized
  paced := h.paced
  addresses := h.addresses
  eligible := h.eligible
  worked := by
    rw [← h.worked] at hfront
    exact hfront
  turned := h.turned
  total := h.total
  cancelled := rfl

/-- The pause is made before every batch but the first. -/
theorem Standing.hold (h : Standing w audit decode total done asked found queued c) (hc : Rested c) :
    Standing w audit decode total done asked found queued (c.hold w audit).2 ∧
      (0 < audit.rateLimitSec →
        ((c.hold w audit).2.events.filterMap Event.beat).getLast?.getD true = true) := by
  rw [Rested] at hc
  by_cases hpause : ¬c.firstBatch = true ∧ 0 < audit.rateLimitSec
  · rw [if_neg hpause.1] at hc
    have hrecorded := h.toRecorded.pause hpause.2 hc (c.moves+1)
    simp only [Cycle.hold,if_pos hpause]
    refine ⟨⟨hrecorded,?_,?_,?_,h.turned,h.total,h.running⟩,fun _ => ?_⟩
    · simpa [List.filterMap_cons,Event.address] using h.addresses
    · simpa [List.filterMap_cons,Event.eligible] using h.eligible
    · simpa [List.filterMap_cons,Event.batch] using h.worked
    · simp [Event.beat]
  · simp only [Cycle.hold,if_neg hpause]
    refine ⟨h,fun hlimit => ?_⟩
    have hfirst : c.firstBatch = true := by
      by_contra hfirst
      exact hpause ⟨hfirst,hlimit⟩
    rw [if_pos hfirst] at hc
    rw [hc]
    rfl

/-- A batch is queued, or the cycle is left by an exception. -/
theorem Standing.enqueue {piece : List String}
    (h : Standing w audit decode total done asked found queued c)
    (hlast : 0 < audit.rateLimitSec → (c.events.filterMap Event.beat).getLast?.getD true = true)
    (hsize : 1 ≤ piece.length ∧ piece.length ≤ (max 1 audit.batchSize).toNat)
    (hfront : queued <+: found.flatten) :
    Loops.Ends (c.enqueue w piece)
      (fun c' => Standing w audit decode total done asked found (queued++piece) c' ∧ Rested c')
      (Stopped w audit decode total done asked found) := by
  rw [Cycle.enqueue]
  simp only
  cases hrun : Queue.stagingEnqueue (w.context c.moves) piece 0 "list_audit" "background"
      (w.meanwhile c.moves c.store).queue with
  | error e =>
    rw [← h.worked] at hfront
    exact ⟨⟨h.genuine,h.tallied,h.filtered,h.sized,h.paced⟩,h.addresses,h.eligible,hfront,h.turned,
      h.total,h.running⟩
  | ok pair =>
    obtain ⟨n,queue⟩ := pair
    refine ⟨⟨h.toRecorded.enqueue (c.moves+1) hsize hlast hrun,?_,?_,?_,h.turned,h.total,h.running⟩,?_⟩
    · simpa [List.filterMap_cons,Event.address] using h.addresses
    · simpa [List.filterMap_cons,Event.eligible] using h.eligible
    · simp [Event.batch,h.worked]
    · simp [Rested,Event.beat]

/-- One turn of the inner loop. -/
theorem Standing.batch {piece : List String}
    (h : Standing w audit decode total done asked found queued c) (hc : Rested c)
    (hsize : 1 ≤ piece.length ∧ piece.length ≤ (max 1 audit.batchSize).toNat)
    (hfront : queued <+: found.flatten) :
    Loops.Ends (c.batch w audit piece)
      (fun c' => Standing w audit decode total done asked found (queued++piece) c' ∧ Rested c')
      (Stopped w audit decode total done asked found) := by
  rw [Cycle.batch]
  split
  · exact h.cancel hfront
  have hmoved : Standing w audit decode total done asked found queued { c with moves := c.moves+1 } :=
    ⟨⟨h.genuine,h.tallied,h.filtered,h.sized,h.paced⟩,h.addresses,h.eligible,h.worked,h.turned,
      h.total,h.running⟩
  obtain ⟨hheld,hlast⟩ := hmoved.hold hc
  cases hcut : { c with moves := c.moves+1 }.hold w audit with
  | mk cut c' =>
    rw [hcut] at hheld hlast
    cases cut with
    | true => exact hheld.cancel hfront
    | false => exact hheld.enqueue hlast hsize hfront

/-- Where a cycle is between two lists: all that was found is queued. -/
def Between (w : Surroundings) (audit : ListAuditOptions) (decode : List UInt8 → String)
    (total : ℕ) (rows : List SubscribedList) (c : Cycle) : Prop :=
  (∃ found, Standing w audit decode total rows.length (addressesOf rows) found found.flatten c) ∧
    Rested c

/-- A list whose names are found is worked off, unless the cycle is left. -/
theorem Standing.list {address : String} {fetched : ListFetchResult} {n : ℕ}
    (h : Standing w audit decode total done asked found found.flatten c) (hc : Rested c)
    (hfetched : some fetched =
      fetchDomainsFromList decode address (w.lines n) audit.maxDomainsPerList) :
    Loops.Ends ((Loops.pieces (max 1 audit.batchSize).toNat (c.read w address fetched).2).foldlM
        (Cycle.batch w audit) (c.read w address fetched).1)
      (fun c' => Standing w audit decode total (done+1) (asked++[address])
        (found++[(c.read w address fetched).2]) (found++[(c.read w address fetched).2]).flatten c' ∧
          Rested c')
      (Stopped w audit decode total (done+1) (asked++[address])
        (found++[(c.read w address fetched).2])) := by
  have hsize : 0 < (max 1 audit.batchSize).toNat := by omega
  set eligible := (c.read w address fetched).2 with heligible
  have hflatten : (found++[eligible]).flatten = found.flatten++eligible := by simp
  have hstart : Standing w audit decode total (done+1) (asked++[address]) (found++[eligible])
      found.flatten (c.read w address fetched).1 ∧ Rested (c.read w address fetched).1 := by
    refine ⟨⟨h.toRecorded.read hfetched,?_,?_,?_,?_,h.total,h.running⟩,?_⟩
    · simp [Cycle.read,List.filterMap_cons,Event.address,h.addresses]
    · rw [heligible]
      simp [Cycle.read,List.filterMap_cons,Event.eligible,h.eligible]
    · simp [Cycle.read,List.filterMap_cons,Event.batch,h.worked]
    · have hturned := h.turned
      simp only [Cycle.read]
      omega
    · simpa [Rested,Cycle.read,List.filterMap_cons,Event.beat] using hc
  have hloop := Loops.foldlM_ends (f := Cycle.batch w audit)
    (l := Loops.pieces (max 1 audit.batchSize).toNat eligible) (s := (c.read w address fetched).1)
    (I := fun turns c' => Standing w audit decode total (done+1) (asked++[address])
      (found++[eligible]) (found.flatten++turns.flatten) c' ∧ Rested c')
    (E := Stopped w audit decode total (done+1) (asked++[address]) (found++[eligible]))
    (by simpa using hstart) ?_
  · rw [Loops.flatten_pieces hsize,← hflatten] at hloop
    exact hloop
  intro turns piece rest c' hpieces hturn
  have hpiece : piece ∈ Loops.pieces (max 1 audit.batchSize).toNat eligible := by simp [hpieces]
  have hwhole := Loops.flatten_pieces hsize eligible
  rw [hpieces,List.flatten_append] at hwhole
  have hfront : found.flatten++turns.flatten <+: (found++[eligible]).flatten := by
    rw [hflatten,← hwhole]
    exact (List.prefix_append_right_inj _).mpr (List.prefix_append _ _)
  have hone := hturn.1.batch hturn.2 (Loops.length_pieces hsize hpiece) hfront
  simpa [List.flatten_append,List.append_assoc] using hone

omit [CaseTables] [IdnaCodec] [NetlocTables] in
theorem addressesOf_append (front rest : List SubscribedList) :
    addressesOf (front++rest) = addressesOf front++addressesOf rest := by
  simp [addressesOf]

omit [CaseTables] [IdnaCodec] [NetlocTables] in
theorem addressesOf_blank (front : List SubscribedList) {row : SubscribedList}
    (h : strip row.address = "") : addressesOf (front++[row]) = addressesOf front := by
  rw [addressesOf_append]
  simp [addressesOf,h]

omit [CaseTables] [IdnaCodec] [NetlocTables] in
theorem addressesOf_named (front : List SubscribedList) {row : SubscribedList}
    (h : strip row.address ≠ "") :
    addressesOf (front++[row]) = addressesOf front++[strip row.address] := by
  rw [addressesOf_append]
  simp [addressesOf,h]

/-- What a cycle is left with on the way through the lists. -/
theorem Stopped.broken {rows front rest : List SubscribedList} {row : SubscribedList} {e : Exit}
    (h : Stopped w audit decode rows.length done asked found e) (hrows : rows = front++row::rest)
    (hdone : done ≤ front.length+1)
    (hasked : asked = addressesOf front ∨ asked = addressesOf (front++[row])) :
    Broken w audit decode rows e where
  toRecorded := h.toRecorded
  addresses := by
    rw [h.addresses,hrows]
    rcases hasked with rfl | rfl
    · rw [addressesOf_append]
      exact List.prefix_append _ _
    · have hsplit : front++row::rest = (front++[row])++rest := by simp
      rw [hsplit,addressesOf_append (front++[row])]
      exact List.prefix_append _ _
  worked := by
    rw [h.eligible]
    exact h.worked
  turned := by
    rw [h.turned,hrows,List.length_append,List.length_cons]
    omega
  total := h.total
  cancelled := h.cancelled

/-- One turn of the outer loop. -/
theorem Between.row {rows front rest : List SubscribedList} {row : SubscribedList}
    (h : Between w audit decode rows.length front c) (hrows : rows = front++row::rest) :
    Loops.Ends (c.row w audit decode row) (Between w audit decode rows.length (front++[row]))
      (Broken w audit decode rows) := by
  obtain ⟨⟨found,hstanding⟩,hc⟩ := h
  rw [Cycle.row]
  split
  · exact (hstanding.cancel List.prefix_rfl).broken hrows (Nat.le_succ _) (.inl rfl)
  have hmoved : ∀ n, Standing w audit decode rows.length front.length (addressesOf front) found
      found.flatten { c with moves := n } := fun n =>
    ⟨⟨hstanding.genuine,hstanding.tallied,hstanding.filtered,hstanding.sized,hstanding.paced⟩,
      hstanding.addresses,hstanding.eligible,hstanding.worked,hstanding.turned,hstanding.total,
      hstanding.running⟩
  have hturned := hstanding.turned
  by_cases haddress : strip row.address = ""
  · simp only [if_pos haddress]
    refine ⟨⟨found,⟨hstanding.genuine,?_,hstanding.filtered,hstanding.sized,
      hstanding.paced⟩,?_,hstanding.eligible,hstanding.worked,?_,hstanding.total,
      hstanding.running⟩,hc⟩
    · obtain ⟨haudited,hseen,htruncated,hqueued,hbatches⟩ := hstanding.tallied
      exact ⟨haudited,hseen,htruncated,hqueued,hbatches⟩
    · rw [addressesOf_blank _ haddress]
      exact hstanding.addresses
    · rw [List.length_append,List.length_singleton,← hturned]
      exact (Nat.add_assoc _ _ _).symm
  simp only [if_neg haddress]
  cases hfetched : fetchDomainsFromList decode (strip row.address) (w.lines (c.moves+1))
      audit.maxDomainsPerList with
  | none =>
    refine ⟨⟨found,⟨?_,?_,?_,?_,?_⟩,?_,?_,?_,?_,hstanding.total,hstanding.running⟩,?_⟩
    · intro e he
      rcases List.mem_append.mp he with he | he
      · exact hstanding.genuine e he
      · rw [List.mem_singleton.mp he]
        exact ⟨c.moves+1,hfetched.symm⟩
    · obtain ⟨haudited,hseen,htruncated,hqueued,hbatches⟩ := hstanding.tallied
      constructor <;> simpa [Cycle.fail,Event.result,Event.queued,Event.batch]
    · simpa [List.filterMap_cons,Event.names,Event.result] using hstanding.filtered
    · simpa [Event.batch] using hstanding.sized
    · exact hstanding.paced.quiet rfl
    · rw [addressesOf_named _ haddress]
      simp [Event.address,hstanding.addresses]
    · simpa [Cycle.fail,List.filterMap_cons,Event.eligible] using hstanding.eligible
    · simpa [Cycle.fail,List.filterMap_cons,Event.batch] using hstanding.worked
    · simp only [Cycle.fail,List.length_append,List.length_singleton]
      omega
    · simpa [Rested,Cycle.fail,List.filterMap_cons,Event.beat] using hc
  | some fetched =>
    have hlist := (hmoved (c.moves+1+1)).list hc hfetched.symm
    refine hlist.mono ?_ ?_
    · rintro c' ⟨hc',hrested⟩
      rw [Between,addressesOf_named _ haddress,List.length_append,List.length_singleton]
      exact ⟨⟨_,hc'⟩,hrested⟩
    · intro e he
      refine he.broken hrows (le_refl _) (.inr ?_)
      rw [addressesOf_named _ haddress]

end Steps

end ListAudit
end WormholeObservatory
