import WormholeObservatory.ScannerCoverage
import WormholeObservatory.Sweeps

/-! The backfill of the history: when the live log is quiet, a page of older rows is read, and
the next page ends a millisecond before the oldest row of it. A sweep is over when a page
reaches the start of the window or is not full, and the next one waits six hours. -/
namespace WormholeObservatory
namespace Observations

open Queue (QueueError)
open Sweeping (PageOf Swept InGap)
open Transition (Run)

/-- `options.scans`, as far as the backfill reads it, with the bounds the configuration has. -/
structure HistoryOptions where
  enabled : Bool
  idleAfterSec : ℤ
  lookbackDays : ℤ
  batchSize : ℤ
  idle_le : 30 ≤ idleAfterSec
  lookback_pos : 1 ≤ lookbackDays
  batch_le : 10 ≤ batchSize

/-- The tables, `history_backfill_completed_at`, `history_backfill_until_ts` and the time of the
last live activity on the monotonic clock. -/
structure History where
  queue : Queue.Database
  completedAt : ℤ
  untilTs : Option ℚ
  lastLiveActivity : ℚ

inductive BackfillError
  | fetch
  | queue (e : QueueError)
  deriving DecidableEq

/-- What a call finds: both clocks, the configuration, and what `fetch_queries` returns, if it
returns. -/
structure BackfillCall where
  now : ℚ
  monotonic : ℚ
  context : Queue.Context
  options : HistoryOptions
  rows : Option (List QueryRow)

/-- `start_ts`. -/
def BackfillCall.start (call : BackfillCall) : ℚ := call.now-call.options.lookbackDays*86400

/-- `until_ts`: the stored one, or now if that is behind the window or ahead of the clock. -/
def History.windowEnd (h : History) (call : BackfillCall) : ℚ :=
  let untilTs := h.untilTs.getD call.now
  if untilTs ≤ call.start ∨ call.now+60 < untilTs then call.now else untilTs

/-- `[float(row.get("time") or 0) for row in rows if row.get("time")]`. -/
def timestamps (rows : List QueryRow) : List ℚ := (rows.map QueryRow.time).filter (· ≠ 0)

/-- `min(timestamps)`. -/
def earliest (rows : List QueryRow) : Option ℚ := (timestamps rows).min?

/-- `next_until`. -/
def nextUntil (start : ℚ) (rows : List QueryRow) : ℚ :=
  match earliest rows with
  | none => start
  | some time => time-1/1000

/-- The end of a sweep. -/
def History.complete (h : History) (call : BackfillCall) : History :=
  { h with
    completedAt := Queue.truncate call.now
    untilTs := some call.now
    lastLiveActivity := call.monotonic }

/-- Whether a page is the last one of its sweep. -/
def BackfillCall.lastPage (call : BackfillCall) (rows : List QueryRow) : Bool :=
  decide (nextUntil call.start rows ≤ call.start) ||
    decide ((rows.length : ℤ) < call.options.batchSize)

/-- No name is lost. -/
def Grows (db db' : Queue.Database) : Prop := ∀ d ∈ db.domains, d ∈ db'.domains

theorem Grows.refl (db : Queue.Database) : Grows db db := fun _ h => h

theorem Grows.trans {db₁ db₂ db₃ : Queue.Database} (h : Grows db₁ db₂) (h' : Grows db₂ db₃) :
    Grows db₁ db₃ :=
  fun d hd => h' d (h d hd)

section Backfill

variable [CaseTables]

/-- `_run_history_backfill`; what it raises, if it does. -/
def History.backfill (h : History) (call : BackfillCall) : Option BackfillError × History :=
  if call.now-h.completedAt < 21600 then (none,h)
  else
    match call.rows with
    | none => (some .fetch,h)
    | some [] => (none,h.complete call)
    | some rows =>
      match runHistoryBackfill call.context rows h.queue with
      | (some e,queue) => (some (.queue e),{ h with queue })
      | (none,queue) =>
        let h := { h with queue, untilTs := some (sixDecimals (nextUntil call.start rows)) }
        (none,if call.lastPage rows then h.complete call else h)

/-- Whether a turn of `Scanner.run` that saw `live` rows goes on to the history. -/
def History.due (h : History) (live : ℕ) (call : BackfillCall) : Bool :=
  decide (live = 0) && call.options.enabled &&
    decide ((call.options.idleAfterSec : ℚ) ≤ call.monotonic-h.lastLiveActivity)

/-- The end of such a turn. -/
def History.turn (h : History) (live : ℕ) (call : BackfillCall) : Option BackfillError × History :=
  if live ≠ 0 then (none,{ h with lastLiveActivity := call.monotonic })
  else if h.due live call = true then h.backfill call
  else (none,h)

/-- The name a row is stored under. -/
def QueryRow.storedName (row : QueryRow) : String := normalizeDomain (normalizeDomain row.domain)

/-- The domain of a row is in the table, if the row has one. -/
def Discovered (db : Queue.Database) (row : QueryRow) : Prop :=
  row.named = true → row.storedName ∈ db.domains

/-! What the calls of the queue do to the names. -/

theorem ensureDomain_grows {seenAt : ℤ} {value d : String} {db db' : Queue.Database}
    (h : Queue.ensureDomain seenAt value db = .ok (d,db')) :
    d = normalizeDomain value ∧ d ∈ db'.domains ∧ Grows db db' := by
  simp only [Queue.ensureDomain] at h
  split at h
  · cases h
  · simp only [Except.ok.injEq,Prod.mk.injEq] at h
    obtain ⟨rfl,rfl⟩ := h
    refine ⟨rfl,(AList.mem_insert _).mpr (.inl rfl),?_⟩
    intro d hd
    exact (AList.mem_insert _).mpr (.inr hd)

theorem analysisCandidates_grows {c : Queue.Context} {force : Bool} {values candidates : List String}
    {db db' : Queue.Database}
    (h : Queue.analysisCandidates c force values db = .ok (candidates,db')) : Grows db db' := by
  induction values generalizing db candidates db' with
  | nil =>
    cases h
    exact Grows.refl db
  | cons value values ih =>
    simp only [Queue.analysisCandidates] at h
    cases hensure : Queue.ensureDomain c.now value db with
    | error e =>
      rw [hensure] at h
      cases h
    | ok pair =>
      obtain ⟨d,db₁⟩ := pair
      simp only [hensure] at h
      cases hrest : Queue.analysisCandidates c force values db₁ with
      | error e =>
        rw [hrest] at h
        cases h
      | ok pair =>
        obtain ⟨rest,db₂⟩ := pair
        simp only [hrest] at h
        cases h
        exact (ensureDomain_grows hensure).2.2.trans (ih hrest)

theorem enqueueOne_grows {r : Queue.Request} {value : String} {outcome : String × Queue.Outcome}
    {db db' : Queue.Database} (h : r.enqueueOne value db = .ok (outcome,db')) : Grows db db' := by
  simp only [Queue.Request.enqueueOne] at h
  cases hensure : Queue.ensureDomain r.now value db with
  | error e =>
    rw [hensure] at h
    cases h
  | ok pair =>
    obtain ⟨d,db₁⟩ := pair
    have hgrows := (ensureDomain_grows hensure).2.2
    simp only [hensure] at h
    split at h <;> cases h <;> exact hgrows

theorem enqueueAll_grows {r : Queue.Request} {values : List String}
    {outcomes : List (String × Queue.Outcome)} {db db' : Queue.Database}
    (h : r.enqueueAll values db = .ok (outcomes,db')) : Grows db db' := by
  induction values generalizing db outcomes db' with
  | nil =>
    cases h
    exact Grows.refl db
  | cons value values ih =>
    simp only [Queue.Request.enqueueAll] at h
    cases hone : r.enqueueOne value db with
    | error e =>
      rw [hone] at h
      cases h
    | ok pair =>
      obtain ⟨outcome,db₁⟩ := pair
      simp only [hone] at h
      cases hrest : r.enqueueAll values db₁ with
      | error e =>
        rw [hrest] at h
        cases h
      | ok pair =>
        obtain ⟨rest,db₂⟩ := pair
        simp only [hrest] at h
        cases h
        exact (enqueueOne_grows hone).trans (ih hrest)

theorem stagingEnqueue_grows {c : Queue.Context} {values : List String} {priority : ℤ}
    {source poolId : String} {n : ℕ} {db db' : Queue.Database}
    (h : Queue.stagingEnqueue c values priority source poolId db = .ok (n,db')) : Grows db db' := by
  simp only [Queue.stagingEnqueue,Queue.stagingEnqueueDetailed] at h
  cases hall : (c.request priority source poolId false).enqueueAll (c.admitted values) db with
  | error e =>
    rw [hall] at h
    cases h
  | ok pair =>
    obtain ⟨outcomes,db₁⟩ := pair
    rw [hall] at h
    cases h
    exact enqueueAll_grows hall

theorem needingAnalysis_grows (c : Queue.Context) (values : List String) (db : Queue.Database) :
    Grows db (needingAnalysis c values db).2 := by
  simp only [needingAnalysis]
  cases hcandidates : Queue.analysisCandidates c false values db with
  | error e => exact Grows.refl db
  | ok pair =>
    obtain ⟨candidates,db₁⟩ := pair
    have hgrows := analysisCandidates_grows hcandidates
    cases henqueue : Queue.stagingEnqueue c candidates 0 "live_query" "background" db₁ with
    | error e => simpa [henqueue] using hgrows
    | ok pair =>
      obtain ⟨n,db₂⟩ := pair
      simpa [henqueue] using hgrows.trans (stagingEnqueue_grows henqueue)

theorem ensureAll_grows {seenAt : String → ℤ} {names : List String} {db db' : Queue.Database}
    (h : names.foldlM (fun db d => (Queue.ensureDomain (seenAt d) d db).map Prod.snd) db = .ok db') :
    Grows db db' ∧ ∀ d ∈ names, normalizeDomain d ∈ db'.domains := by
  induction names generalizing db with
  | nil =>
    cases h
    exact ⟨Grows.refl _,by simp⟩
  | cons d names ih =>
    rw [List.foldlM_cons] at h
    cases hensure : Queue.ensureDomain (seenAt d) d db with
    | error e =>
      rw [hensure] at h
      cases h
    | ok pair =>
      obtain ⟨d',db₁⟩ := pair
      rw [hensure] at h
      obtain ⟨rfl,hmem,hgrows⟩ := ensureDomain_grows hensure
      obtain ⟨hrest,hnames⟩ := ih h
      refine ⟨hgrows.trans hrest,?_⟩
      intro name hname
      rcases List.mem_cons.mp hname with rfl | hname
      · exact hrest _ hmem
      · exact hnames name hname

/-- A page that is recorded is discovered. -/
theorem recordDiscoveredDomains_grows {now : ℤ} {rows : List QueryRow} {db db' : Queue.Database}
    (h : recordDiscoveredDomains now rows db = .ok db') :
    Grows db db' ∧ ∀ row ∈ rows, Discovered db' row := by
  obtain ⟨hgrows,hnames⟩ := ensureAll_grows h
  refine ⟨hgrows,?_⟩
  intro row hrow hnamed
  apply hnames
  simp only [List.mem_eraseDups,List.mem_filter,List.mem_map]
  exact ⟨⟨row,hrow,rfl⟩,by simpa [QueryRow.named] using hnamed⟩

theorem Discovered.grows {db db' : Queue.Database} {row : QueryRow} (h : Discovered db row)
    (hgrows : Grows db db') : Discovered db' row :=
  fun hnamed => hgrows _ (h hnamed)

theorem runHistoryBackfill_grows (c : Queue.Context) (rows : List QueryRow) (db : Queue.Database) :
    Grows db (runHistoryBackfill c rows db).2 ∧ ((runHistoryBackfill c rows db).1 = none →
      ∀ row ∈ rows, Discovered (runHistoryBackfill c rows db).2 row) := by
  simp only [runHistoryBackfill]
  split
  · rename_i hrows
    subst hrows
    exact ⟨Grows.refl db,by simp⟩
  · cases hrecord : recordDiscoveredDomains c.now rows db with
    | error e => exact ⟨Grows.refl db,by simp⟩
    | ok db₁ =>
      obtain ⟨hgrows,hdiscovered⟩ := recordDiscoveredDomains_grows hrecord
      have hqueue := needingAnalysis_grows c (scannedDomains rows) db₁
      exact ⟨hgrows.trans hqueue,fun _ row hrow => (hdiscovered row hrow).grows hqueue⟩

/-! One call. -/

omit [CaseTables] in
/-- The oldest row of a page sets the end of the next one. -/
theorem nextUntil_of_dated (start : ℚ) {rows : List QueryRow} (hne : rows ≠ [])
    (hdated : ∀ row ∈ rows, 0 < row.time) :
    ∃ row ∈ rows, earliest rows = some row.time ∧ nextUntil start rows = row.time-1/1000 := by
  have htimes : timestamps rows = rows.map QueryRow.time := by
    refine List.filter_eq_self.mpr ?_
    intro time htime
    obtain ⟨row,hrow,rfl⟩ := List.mem_map.mp htime
    simpa using (hdated row hrow).ne'
  cases hmin : earliest rows with
  | none =>
    rw [earliest,htimes,List.min?_eq_none_iff,List.map_eq_nil_iff] at hmin
    exact absurd hmin hne
  | some time =>
    have hmem : time ∈ timestamps rows := List.min?_mem hmin
    rw [htimes] at hmem
    obtain ⟨row,hrow,rfl⟩ := List.mem_map.mp hmem
    exact ⟨row,hrow,rfl,by rw [nextUntil,hmin]⟩

/-- A page is read and recorded, and what is then left. -/
structure History.Reads (h : History) (call : BackfillCall) (rows : List QueryRow)
    (queue : Queue.Database) (h' : History) : Prop where
  answered : call.rows = some rows
  waited : h.completedAt+21600 ≤ call.now
  grows : Grows h.queue queue
  discovered : ∀ row ∈ rows, Discovered queue row
  left : h' = if call.lastPage rows then { h with queue }.complete call
    else { h with queue, untilTs := some (sixDecimals (nextUntil call.start rows)) }

/-- A call waits or fails and keeps what it had stored, or it reads a page. -/
theorem backfill_cases (h : History) (call : BackfillCall) :
    ((∃ queue, Grows h.queue queue ∧ (h.backfill call).2 = { h with queue }) ∧
      (call.now-h.completedAt < 21600 ∨ (h.backfill call).1 ≠ none)) ∨
    ¬call.now-h.completedAt < 21600 ∧ (h.backfill call).1 = none ∧
      ∃ rows queue, h.Reads call rows queue (h.backfill call).2 := by
  by_cases hwait : call.now-h.completedAt < 21600
  · left
    rw [History.backfill,if_pos hwait]
    exact ⟨⟨h.queue,Grows.refl _,rfl⟩,.inl hwait⟩
  have hwaited : h.completedAt+21600 ≤ call.now := by linarith
  simp only [History.backfill,if_neg hwait]
  cases hrows : call.rows with
  | none => exact .inl ⟨⟨h.queue,Grows.refl _,rfl⟩,.inr (by simp)⟩
  | some rows =>
    cases rows with
    | nil =>
      right
      have hlast : call.lastPage [] = true := by simp [BackfillCall.lastPage,nextUntil,earliest,timestamps]
      refine ⟨hwait,rfl,[],h.queue,⟨hrows,hwaited,Grows.refl _,by simp,?_⟩⟩
      rw [if_pos hlast]
    | cons row rows =>
      obtain ⟨hgrows,hseen⟩ := runHistoryBackfill_grows call.context (row::rows) h.queue
      dsimp only
      generalize runHistoryBackfill call.context (row::rows) h.queue = result at hgrows hseen ⊢
      obtain ⟨failure,queue⟩ := result
      cases failure with
      | some e => exact .inl ⟨⟨queue,hgrows,rfl⟩,.inr (by simp)⟩
      | none => exact .inr ⟨hwait,rfl,row::rows,queue,⟨hrows,hwaited,hgrows,hseen rfl,rfl⟩⟩

/-! Sweeps of the history. -/

end Backfill

/-- How far a row can lie below the oldest row of a page and be passed over. -/
def gap : ℚ := 1/1000+1/2000000

/-- A sweep: the window it was over, the oldest times of its pages, newest page last, and when it
was completed. -/
structure Sweep where
  start : ℚ
  top : ℚ
  edges : List ℚ
  completedAt : ℤ

/-- The log, the clock of the last turn, what the scanner has stored, the current sweep, and
those before it, newest first. -/
structure Archive where
  log : List QueryRow
  clock : ℚ
  history : History
  top : ℚ
  edges : List ℚ
  finished : List Sweep

/-- The sweep a page belongs to: the current one, or a new one if the window was set back. -/
def Archive.begun (a : Archive) (call : BackfillCall) : ℚ × List ℚ :=
  let windowEnd := a.history.windowEnd call
  if a.history.untilTs = some windowEnd then (a.top,a.edges) else (windowEnd,[])

/-- The sweeps after a page. -/
def Archive.read (a : Archive) (call : BackfillCall) (rows : List QueryRow) : Archive :=
  let (top,edges) := a.begun call
  let edges := (earliest rows).toList++edges
  if call.lastPage rows then { a with
    top := call.now
    edges := []
    finished := ⟨call.start,top,edges,Queue.truncate call.now⟩::a.finished }
  else { a with top, edges }

/-- A turn, with the sweeps beside what it stores. -/
def Archive.turn [CaseTables] (a : Archive) (live : ℕ) (call : BackfillCall) : Archive :=
  let (failure,history) := a.history.turn live call
  let read := a.history.due live call = true ∧ ¬call.now-a.history.completedAt < 21600 ∧
    failure = none
  { (if read then a.read call (call.rows.getD []) else a) with clock := call.now, history }

inductive ArchiveOp
  | append (row : QueryRow)
  | forget (log : List QueryRow)
  | write (queue : Queue.Database)
  | turn (live : ℕ) (call : BackfillCall)

section Archives

variable [CaseTables]

/-- A row appears that is later than the last turn, rows go, another worker writes the tables of
the queue, or the scanner takes a turn in which `fetch_queries` has the newest rows of the window. -/
inductive Archive.Step : Archive → ArchiveOp → Archive → Prop
  | append {a : Archive} {row : QueryRow} (hrow : a.clock < row.time) :
    Archive.Step a (.append row) { a with log := a.log++[row] }
  | forget {a : Archive} {log : List QueryRow} (hlog : ∀ row ∈ log, row ∈ a.log) :
    Archive.Step a (.forget log) { a with log }
  | write {a : Archive} {queue : Queue.Database} (hgrows : Grows a.history.queue queue) :
    Archive.Step a (.write queue) { a with history := { a.history with queue } }
  | turn {a : Archive} {live : ℕ} {call : BackfillCall} (hclock : a.clock ≤ call.now)
    (hpage : ∀ rows, call.rows = some rows → PageOf a.log QueryRow.time
      call.options.batchSize.toNat call.start (a.history.windowEnd call) rows) :
    Archive.Step a (.turn live call) (a.turn live call)

/-- What a sweep has seen of the log. -/
def Archive.Covers (a : Archive) (edges : List ℚ) (low top : ℚ) : Prop :=
  Swept a.log QueryRow.time (Discovered a.history.queue) gap edges low top

/-- What holds of the sweeps after every step. -/
structure Archive.Sound (a : Archive) : Prop where
  clock : 0 ≤ a.clock
  dated : ∀ row ∈ a.log, 0 < row.time
  top : ∀ u, a.history.untilTs = some u → a.top ≤ a.clock
  current : ∀ u, a.history.untilTs = some u → a.Covers a.edges u a.top
  tops : ∀ sweep ∈ a.finished, sweep.top ≤ a.clock
  finished : ∀ sweep ∈ a.finished, a.Covers sweep.edges sweep.start sweep.top
  last : ∀ sweep ∈ a.finished, sweep.completedAt ≤ a.history.completedAt
  spaced : a.finished.Pairwise fun later earlier => earlier.completedAt+21600 ≤ later.completedAt

omit [CaseTables] in
theorem sixDecimals_ge (x : ℚ) : x-1/2000000 ≤ sixDecimals x := by
  have hround : x*1000000-1/2 ≤ roundHalfEven (x*1000000) := by
    simp only [roundHalfEven]
    have hlt := Int.lt_floor_add_one (x*1000000)
    split
    · linarith
    · split
      · push_cast
        linarith
      · split <;> push_cast <;> linarith
  rw [sixDecimals]
  linarith

omit [CaseTables] in
theorem windowEnd_cases (h : History) (call : BackfillCall) :
    h.untilTs = some (h.windowEnd call) ∨ h.windowEnd call = call.now := by
  simp only [History.windowEnd]
  split
  · exact .inr rfl
  · cases huntil : h.untilTs with
    | none => exact .inr rfl
    | some u => exact .inl rfl

/-- A turn changes no sweep, or it reads a page. -/
theorem turn_cases (a : Archive) (live : ℕ) (call : BackfillCall) :
    (∃ queue lastLiveActivity, Grows a.history.queue queue ∧ a.turn live call =
      { a with clock := call.now, history := { a.history with queue, lastLiveActivity } }) ∨
    ∃ rows queue history, a.history.Reads call rows queue history ∧
      a.turn live call = { a.read call rows with clock := call.now, history } := by
  by_cases hlive : live = 0
  · by_cases hdue : a.history.due live call = true
    · have hturn : a.history.turn live call = a.history.backfill call := by
        rw [History.turn,if_neg (not_not.mpr hlive),if_pos hdue]
      rcases backfill_cases a.history call with ⟨⟨queue,hgrows,hleft⟩,hkept⟩ | ⟨hwait,hok,hread⟩
      · left
        refine ⟨queue,a.history.lastLiveActivity,hgrows,?_⟩
        have hread : ¬(a.history.due live call = true ∧ ¬call.now-a.history.completedAt < 21600 ∧
            (a.history.backfill call).1 = none) := by
          rintro ⟨-,hdue,hnone⟩
          exact hkept.elim hdue fun h => h hnone
        simp only [Archive.turn,hturn,if_neg hread,hleft]
      · right
        obtain ⟨rows,queue,hreads⟩ := hread
        refine ⟨rows,queue,_,hreads,?_⟩
        simp only [Archive.turn,hturn,hdue,hok,hwait,hreads.answered,not_false_eq_true,and_self,
          if_true,Option.getD_some]
    · left
      refine ⟨a.history.queue,a.history.lastLiveActivity,Grows.refl _,?_⟩
      simp [Archive.turn,History.turn,hlive,show ¬a.history.due 0 call = true by rwa [← hlive]]
  · left
    refine ⟨a.history.queue,call.monotonic,Grows.refl _,?_⟩
    simp [Archive.turn,History.turn,History.due,hlive]

namespace Archive.Sound

variable {a : Archive}

/-- The clock moves on, entries come after it or go, and more is discovered. -/
theorem mono {b : Archive} (h : a.Sound) (hclock : a.clock ≤ b.clock)
    (hlog : ∀ row ∈ b.log, row ∈ a.log ∨ a.clock < row.time)
    (hgrows : Grows a.history.queue b.history.queue) (hcompleted : b.history.completedAt = a.history.completedAt)
    (huntil : b.history.untilTs = a.history.untilTs) (htop : b.top = a.top) (hedges : b.edges = a.edges)
    (hfinished : b.finished = a.finished) : b.Sound where
  clock := h.clock.trans hclock
  dated row hrow := (hlog row hrow).elim (h.dated row) h.clock.trans_lt
  top u hu := by
    rw [htop]
    exact (h.top u (huntil ▸ hu)).trans hclock
  current u hu := by
    rw [huntil] at hu
    rw [hedges,htop]
    refine (h.current u hu).mono ?_ fun row hseen => hseen.grows hgrows
    intro row hrow
    exact (hlog row hrow).imp_right (h.top u hu).trans_lt
  tops sweep hsweep := (h.tops sweep (hfinished ▸ hsweep)).trans hclock
  finished sweep hsweep := by
    rw [hfinished] at hsweep
    refine (h.finished sweep hsweep).mono ?_ fun row hseen => hseen.grows hgrows
    intro row hrow
    exact (hlog row hrow).imp_right (h.tops sweep hsweep).trans_lt
  last sweep hsweep := by
    rw [hcompleted]
    exact h.last sweep (hfinished ▸ hsweep)
  spaced := by
    rw [hfinished]
    exact h.spaced

/-- A sweep a page belongs to has seen what is later than the window of the page. -/
theorem begun {call : BackfillCall} (h : a.Sound) (hclock : a.clock ≤ call.now) :
    (a.begun call).1 ≤ call.now ∧
      a.Covers (a.begun call).2 (a.history.windowEnd call) (a.begun call).1 := by
  simp only [Archive.begun]
  split
  · rename_i huntil
    exact ⟨(h.top _ huntil).trans hclock,h.current _ huntil⟩
  · rename_i hnew
    have hnow := (windowEnd_cases a.history call).resolve_left hnew
    exact ⟨hnow.le,Swept.nil⟩

/-- What the sweep has seen with the page. -/
theorem read {call : BackfillCall} {rows : List QueryRow} {queue : Queue.Database}
    {history : History} (h : a.Sound) (hclock : a.clock ≤ call.now)
    (hreads : a.history.Reads call rows queue history)
    (hpage : PageOf a.log QueryRow.time call.options.batchSize.toNat call.start
      (a.history.windowEnd call) rows) :
    Swept a.log QueryRow.time (Discovered queue) gap ((earliest rows).toList++(a.begun call).2)
      (if call.lastPage rows then call.start else sixDecimals (nextUntil call.start rows))
      (a.begun call).1 := by
  obtain ⟨-,hbegun⟩ := h.begun hclock
  have hsofar : Swept a.log QueryRow.time (Discovered queue) gap (a.begun call).2
      (a.history.windowEnd call) (a.begun call).1 :=
    hbegun.mono (fun row hrow => .inl hrow) fun row hseen => hseen.grows hreads.grows
  have hbatch : 0 < call.options.batchSize.toNat := by
    have := call.options.batch_le
    omega
  by_cases hne : rows = []
  · subst hne
    have hlast : call.lastPage [] = true := by
      simp [BackfillCall.lastPage,nextUntil,earliest,timestamps]
    rw [if_pos hlast]
    exact hsofar.short hpage (by simp) hbatch
  have hdated : ∀ row ∈ rows, 0 < row.time := fun row hrow => h.dated row (hpage.listed row hrow)
  obtain ⟨row,hrow,hedge,hnext⟩ := nextUntil_of_dated call.start hne hdated
  rw [hedge,hnext]
  split
  · rename_i hlast
    simp only [BackfillCall.lastPage,Bool.or_eq_true,decide_eq_true_eq,hnext] at hlast
    rcases hlast with hlow | hshort
    · refine (hsofar.next hpage hreads.discovered hrow ?_).raise hlow
      rw [gap]
      linarith
    · refine (hsofar.short hpage hreads.discovered ?_).cons row.time
      omega
  · refine hsofar.next hpage hreads.discovered hrow ?_
    have hround := sixDecimals_ge (row.time-1/1000)
    rw [gap]
    linarith

/-- A page that is read keeps the sweeps sound. -/
theorem page {call : BackfillCall} {rows : List QueryRow} {queue : Queue.Database}
    {history : History} (h : a.Sound) (hclock : a.clock ≤ call.now)
    (hreads : a.history.Reads call rows queue history)
    (hpage : PageOf a.log QueryRow.time call.options.batchSize.toNat call.start
      (a.history.windowEnd call) rows) :
    { a.read call rows with clock := call.now, history : Archive }.Sound := by
  obtain ⟨htop,-⟩ := h.begun hclock
  have hread := h.read hclock hreads hpage
  have hnow := h.clock.trans hclock
  have hkeep : ∀ {edges low top}, a.Covers edges low top →
      Swept a.log QueryRow.time (Discovered queue) gap edges low top := by
    intro edges low top hcovers
    exact hcovers.mono (fun row hrow => .inl hrow) fun row hseen => hseen.grows hreads.grows
  have hleft := hreads.left
  by_cases hlast : call.lastPage rows = true
  · rw [if_pos hlast] at hleft hread
    subst hleft
    have htruncate : Queue.truncate call.now = ⌊call.now⌋ := if_pos hnow
    have hwaited : a.history.completedAt+21600 ≤ Queue.truncate call.now := by
      rw [htruncate,Int.le_floor]
      push_cast
      exact hreads.waited
    simp only [Archive.read,if_pos hlast]
    refine ⟨hnow,h.dated,fun u _ => le_refl _,fun u hu => ?_,?_,?_,?_,?_⟩
    · obtain rfl := Option.some.inj hu
      exact Swept.nil
    · simp only [List.forall_mem_cons]
      exact ⟨htop,fun sweep hsweep => (h.tops sweep hsweep).trans hclock⟩
    · simp only [List.forall_mem_cons]
      exact ⟨hread,fun sweep hsweep => hkeep (h.finished sweep hsweep)⟩
    · simp only [List.forall_mem_cons,History.complete]
      refine ⟨le_refl _,fun sweep hsweep => ?_⟩
      have := h.last sweep hsweep
      omega
    · refine List.pairwise_cons.mpr ⟨fun sweep hsweep => ?_,h.spaced⟩
      have := h.last sweep hsweep
      change sweep.completedAt+21600 ≤ Queue.truncate call.now
      omega
  · rw [if_neg hlast] at hleft hread
    subst hleft
    simp only [Archive.read,if_neg hlast]
    refine ⟨hnow,h.dated,fun u _ => htop,fun u hu => ?_,fun sweep hsweep => ?_,fun sweep hsweep => ?_,
      h.last,h.spaced⟩
    · obtain rfl := Option.some.inj hu
      exact hread
    · exact (h.tops sweep hsweep).trans hclock
    · exact hkeep (h.finished sweep hsweep)

theorem step {b : Archive} {op : ArchiveOp} (h : a.Sound) (hstep : Archive.Step a op b) :
    b.Sound := by
  cases hstep with
  | append hrow =>
    refine h.mono (le_refl _) (fun row' hrow' => ?_) (Grows.refl _) rfl rfl rfl rfl rfl
    rcases List.mem_append.mp hrow' with hold | hnew
    · exact .inl hold
    · obtain rfl := List.mem_singleton.mp hnew
      exact .inr hrow
  | forget hlog =>
    exact h.mono (le_refl _) (fun row hrow => .inl (hlog row hrow)) (Grows.refl _) rfl rfl rfl rfl rfl
  | write hgrows =>
    exact h.mono (le_refl _) (fun row hrow => .inl hrow) hgrows rfl rfl rfl rfl rfl
  | @turn live call hclock hpage =>
    rcases turn_cases a live call with ⟨queue,last,hgrows,hturn⟩ | ⟨rows,queue,history,hreads,hturn⟩
    · rw [hturn]
      exact h.mono hclock (fun row hrow => .inl hrow) hgrows rfl rfl rfl rfl rfl
    · rw [hturn]
      exact h.page hclock hreads (hpage rows hreads.answered)

end Archive.Sound

/-- In every run of turns, while rows come and go and other workers write, each completed sweep
leaves only such rows of its window undiscovered as lie at most 1.0005 milliseconds below the
oldest row of one of its pages, and sweeps are completed six hours apart. -/
theorem history_sweeps {a₀ a : Archive} {ops : List ArchiveOp} (hclock : 0 ≤ a₀.clock)
    (hdated : ∀ row ∈ a₀.log, 0 < row.time) (huntil : a₀.history.untilTs = none)
    (hfinished : a₀.finished = []) (hrun : Run Archive.Step a₀ ops a) :
    (∀ sweep ∈ a.finished, ∀ row ∈ a.log, row.named = true → sweep.start < row.time →
      row.time ≤ sweep.top → row.storedName ∈ a.history.queue.domains ∨
        ∃ edge ∈ sweep.edges, edge-(1/1000+1/2000000) < row.time ∧ row.time ≤ edge) ∧
      a.finished.Pairwise fun later earlier => earlier.completedAt+21600 ≤ later.completedAt := by
  have hstart : a₀.Sound := by
    refine ⟨hclock,hdated,?_,?_,?_,?_,?_,?_⟩ <;> simp [huntil,hfinished]
  have hsound := hrun.invariant Archive.Sound (fun a op b ha hb => ha.step hb) hstart
  refine ⟨fun sweep hsweep row hrow hnamed hlow htop => ?_,hsound.spaced⟩
  rcases hsound.finished sweep hsweep row hrow hlow htop with hseen | hgap
  · exact .inl (hseen hnamed)
  · exact .inr hgap

end Archives

/-! A quiet log with two rows. -/

def quietArchive : Archive :=
  ⟨[query 2000000,query 2000100],2000200,⟨.empty,0,none,0⟩,0,[],[]⟩

def readHistory : BackfillCall where
  now := 2000300
  monotonic := 400
  context := ⟨2000300,[]⟩
  options := ⟨true,300,1,10,by decide,by decide,by decide⟩
  rows := some [query 2000100,query 2000000]

theorem readHistory_page : PageOf quietArchive.log QueryRow.time
    readHistory.options.batchSize.toNat readHistory.start
    (quietArchive.history.windowEnd readHistory) [query 2000100,query 2000000] := by
  have hall : ∀ row ∈ quietArchive.log, row ∈ [query 2000100,query 2000000] := by decide
  refine ⟨by decide,by decide +kernel,by decide +kernel,fun row hrow _ _ hmissed => ?_,?_⟩
  · exact absurd (hall row hrow) hmissed
  · exact fun _ row hrow _ _ => hall row hrow

/-- One page completes a sweep, and it leaves nothing out. -/
theorem history_swept : (quietArchive.turn 0 readHistory).finished.length = 1 ∧
    ∀ sweep ∈ (quietArchive.turn 0 readHistory).finished, ∀ row ∈ quietArchive.log,
      row.named = true → sweep.start < row.time → row.time ≤ sweep.top →
      row.storedName ∈ (quietArchive.turn 0 readHistory).history.queue.domains ∨
        ∃ edge ∈ sweep.edges, edge-(1/1000+1/2000000) < row.time ∧ row.time ≤ edge := by
  have hrun : Run Archive.Step quietArchive [.turn 0 readHistory] (quietArchive.turn 0 readHistory) := by
    refine .single (.turn (by decide +kernel) fun rows hrows => ?_)
    obtain rfl := Option.some.inj hrows
    exact readHistory_page
  refine ⟨by decide +kernel,fun sweep hsweep row hrow => ?_⟩
  have hlog : row ∈ (quietArchive.turn 0 readHistory).log := by
    have hkept : (quietArchive.turn 0 readHistory).log = quietArchive.log := by decide +kernel
    rwa [hkept]
  exact (history_sweeps (by decide +kernel) (by decide +kernel) rfl rfl hrun).1 sweep hsweep row hlog

end Observations
end WormholeObservatory
