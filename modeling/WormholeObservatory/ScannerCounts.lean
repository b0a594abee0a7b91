import WormholeObservatory.Scanner

/-! How often a row of the log is counted. A turn that gets to its end moves the cursor past
the rows it recorded; a name that some step of the turn refuses stops it before that. -/
namespace WormholeObservatory
namespace Observations

open Aggregation (Dict Span)
open Queue (QueueError)
open Transition (Run)

/-- `domains.query_count`. -/
def domainCount (db : Queue.Database) (d : String) : ℤ :=
  ((db.domains.lookup d).map fun row => row.queryCount).getD 0

/-- `SELECT SUM(query_count) FROM query_observations WHERE domain = d`. -/
def observedCount (db : Database) (d : String) : ℤ :=
  db.observations.sumOf fun key seen => if ofDomain d key then seen.count else 0

section Counts

variable [CaseTables]

/-- All domains that are known have settled names. -/
def Sound (db : Queue.Database) : Prop := ∀ d ∈ db.domains, Settled d

/-- The names stay settled and nothing is counted. -/
structure Keeps (db db' : Queue.Database) : Prop where
  sound : Sound db'
  counts : ∀ d, domainCount db' d = domainCount db d

theorem Keeps.refl {db : Queue.Database} (h : Sound db) : Keeps db db := ⟨h,fun _ => rfl⟩

theorem Keeps.trans {db₁ db₂ db₃ : Queue.Database} (h : Keeps db₁ db₂) (h' : Keeps db₂ db₃) :
    Keeps db₁ db₃ :=
  ⟨h'.sound,fun d => (h'.counts d).trans (h.counts d)⟩

theorem Keeps.of_domains {db db₁ db₂ : Queue.Database} (h : Keeps db db₁)
    (heq : db₂.domains = db₁.domains) : Keeps db db₂ := by
  refine ⟨?_,fun d => ?_⟩
  · rw [Sound,heq]
    exact h.sound
  · rw [domainCount,heq]
    exact h.counts d

/-! The calls of the queue. -/

theorem ensureDomain_keeps (seenAt : ℤ) {value : String} {db : Queue.Database} (h : Sound db)
    (hvalue : Settled (normalizeDomain value)) :
    ∃ db', Queue.ensureDomain seenAt value db = .ok (normalizeDomain value,db') ∧ Keeps db db' := by
  simp only [Queue.ensureDomain,if_neg hvalue.1]
  refine ⟨_,rfl,fun d hd => ?_,fun d => ?_⟩
  · rcases (AList.mem_insert _).mp hd with rfl | hd
    · exact hvalue
    · exact h d hd
  · simp only [domainCount]
    by_cases hd : d = normalizeDomain value
    · subst hd
      rw [AList.lookup_insert]
      cases db.domains.lookup (normalizeDomain value) <;> rfl
    · rw [AList.lookup_insert_ne hd]

theorem analysisCandidates_keeps (c : Queue.Context) (force : Bool) {values : List String}
    (hvalues : ∀ value ∈ values, Settled (normalizeDomain value)) {db : Queue.Database}
    (h : Sound db) :
    ∃ candidates db', Queue.analysisCandidates c force values db = .ok (candidates,db') ∧
      (∀ d ∈ candidates, Settled d) ∧ Keeps db db' := by
  induction values generalizing db with
  | nil => exact ⟨[],db,rfl,by simp,Keeps.refl h⟩
  | cons value values ih =>
    have hvalue := hvalues value (by simp)
    obtain ⟨db₁,hensure,hkeeps₁⟩ := ensureDomain_keeps c.now h hvalue
    obtain ⟨candidates,db₂,hrest,hsettled,hkeeps₂⟩ :=
      ih (fun v hv => hvalues v (by simp [hv])) hkeeps₁.sound
    simp only [Queue.analysisCandidates,hensure,hrest]
    refine ⟨_,_,rfl,?_,hkeeps₁.trans hkeeps₂⟩
    split
    · intro d hd
      rcases List.mem_cons.mp hd with rfl | hd
      · exact hvalue
      · exact hsettled d hd
    · exact hsettled

theorem enqueueAll_keeps {r : Queue.Request} {values : List String}
    (hvalues : ∀ d ∈ values, Settled d) {db : Queue.Database} (h : Sound db) :
    ∃ outcomes db', r.enqueueAll values db = .ok (outcomes,db') ∧ Keeps db db' := by
  induction values generalizing db with
  | nil => exact ⟨[],db,rfl,Keeps.refl h⟩
  | cons value values ih =>
    have hvalue := hvalues value (by simp)
    have hone : ∃ outcome db₁, r.enqueueOne value db = .ok (outcome,db₁) ∧ Keeps db db₁ := by
      obtain ⟨db₁,hensure,hkeeps⟩ := ensureDomain_keeps r.now h (by rwa [hvalue.2])
      simp only [Queue.Request.enqueueOne,hensure]
      split
      · exact ⟨_,db₁,rfl,hkeeps⟩
      · exact ⟨_,_,rfl,hkeeps.of_domains rfl⟩
    obtain ⟨outcome,db₁,hone,hkeeps₁⟩ := hone
    obtain ⟨outcomes,db₂,hrest,hkeeps₂⟩ := ih (fun d hd => hvalues d (by simp [hd])) hkeeps₁.sound
    simp only [Queue.Request.enqueueAll,hone,hrest]
    exact ⟨_,_,rfl,hkeeps₁.trans hkeeps₂⟩

theorem stagingEnqueue_keeps (c : Queue.Context) {values : List String} (priority : ℤ)
    (source poolId : String) (hvalues : ∀ d ∈ values, Settled d) {db : Queue.Database}
    (h : Sound db) :
    ∃ n db', Queue.stagingEnqueue c values priority source poolId db = .ok (n,db') ∧ Keeps db db' := by
  have hadmitted : ∀ d ∈ c.admitted values, Settled d := by
    intro d hd
    have hmem := List.mem_of_mem_filter hd
    simp only [Queue.uniqueDomains,List.mem_eraseDups,List.mem_filter,List.mem_map] at hmem
    obtain ⟨⟨value,hvalue,rfl⟩,-⟩ := hmem
    rw [(hvalues value hvalue).2]
    exact hvalues value hvalue
  obtain ⟨outcomes,db',hall,hkeeps⟩ := enqueueAll_keeps
    (r := c.request priority source poolId false) hadmitted h
  simp only [Queue.stagingEnqueue,Queue.stagingEnqueueDetailed,hall]
  exact ⟨_,db',rfl,hkeeps⟩

theorem needingAnalysis_keeps (c : Queue.Context) {values : List String}
    (hvalues : ∀ value ∈ values, Settled (normalizeDomain value)) {db : Queue.Database}
    (h : Sound db) :
    (needingAnalysis c values db).1 = none ∧ Keeps db (needingAnalysis c values db).2 := by
  obtain ⟨candidates,db₁,hcandidates,hsettled,hkeeps₁⟩ := analysisCandidates_keeps c false hvalues h
  obtain ⟨n,db₂,henqueue,hkeeps₂⟩ := stagingEnqueue_keeps c 0 "live_query" "background"
    hsettled hkeeps₁.sound
  simp only [needingAnalysis,hcandidates,henqueue]
  exact ⟨trivial,hkeeps₁.trans hkeeps₂⟩

theorem queueDueRechecks_keeps (c : Queue.Context) (limit : ℤ) {db : Queue.Database}
    (h : Sound db) : ∃ n db', Queue.queueDueRechecks c limit db = .ok (n,db') ∧ Keeps db db' := by
  refine stagingEnqueue_keeps c 10 "scheduled_recheck" "background" (fun d hd => ?_) h
  simp only [Queue.dueRechecks,List.mem_map] at hd
  obtain ⟨⟨d',row⟩,hmem,rfl⟩ := hd
  have hrow := (List.mem_insertionSort _).mp (List.mem_of_mem_take hmem)
  have hlookup := (Table.mem_select.mp hrow).1
  exact h d' (AList.lookup_isSome.mp (by simp [hlookup]))

/-! Recording a page. -/

/-- A row no step of a turn refuses: it has no name at all, or one that stays as it is. -/
def QueryRow.Harmless (row : QueryRow) : Prop :=
  strip row.domain = "" ∨ Settled (normalizeDomain row.domain) ∧
    Settled (normalizeDomain (CaseTables.lower (strip row.domain)))

theorem QueryRow.Harmless.settled {row : QueryRow} (h : row.Harmless) (hnamed : row.named = true) :
    Settled (normalizeDomain row.domain) := by
  rcases h with hblank | h
  · have hname : normalizeDomain row.domain = "" := by
      simp only [normalizeDomain,hblank]
      rw [CaseTables.lower_ascii "" (by simp)]
      rfl
    exact absurd hname (of_decide_eq_true hnamed)
  · exact h.1

theorem scannedDomains_settled {rows : List QueryRow} (h : ∀ row ∈ rows, row.Harmless) :
    ∀ value ∈ scannedDomains rows, Settled (normalizeDomain value) := by
  intro value hvalue
  simp only [scannedDomains,List.mem_dedup,List.mem_map,List.mem_filter,decide_eq_true_eq] at hvalue
  obtain ⟨row,⟨hrow,hname⟩,rfl⟩ := hvalue
  exact ((h row hrow).resolve_left hname).2

/-- How many of the rows are about `d`. -/
def rowCount (d : String) (rows : List QueryRow) : ℤ :=
  (rows.countP fun row => row.named && decide (normalizeDomain row.domain = d) : ℕ)

/-- The counts of the groups of `d`. -/
def groupCount (d : String) (groups : Dict ObservationKey (Span ℤ)) : ℤ :=
  Dict.total (ofDomain d) (groups.map fun group => (group.1,group.2.count))

theorem groupRows_count (now : ℤ) (rows : List QueryRow) (d : String) :
    groupCount d (groupRows now rows) = rowCount d rows := by
  simp only [groupRows]
  suffices hfold : ∀ groups : Dict ObservationKey (Span ℤ),
      groupCount d (rows.foldl (groupRow now) groups) = groupCount d groups+rowCount d rows by
    simpa [groupCount,Dict.total] using hfold []
  induction rows with
  | nil => simp [rowCount]
  | cons row rows ih =>
    intro groups
    have hrow : groupCount d (groupRow now groups row) =
        groupCount d groups+if row.named && decide (normalizeDomain row.domain = d) then 1 else 0 := by
      simp only [groupRow,QueryRow.named]
      by_cases hname : normalizeDomain row.domain = ""
      · simp [hname]
      · rw [if_neg hname,groupCount,Dict.map_upsert (fun _ _ => rfl),Dict.total_upsert]
        by_cases hd : normalizeDomain row.domain = d
        · subst hd
          simp [hname,ofDomain,QueryRow.key,Aggregation.Span.single,groupCount]
        · simp [hd,ofDomain,QueryRow.key,groupCount]
    rw [List.foldl_cons,ih,hrow,rowCount,rowCount,List.countP_cons]
    push_cast
    ring

/-- What a group of a page is about. -/
theorem groupRows_mem (now : ℤ) (rows : List QueryRow) :
    ∀ group ∈ groupRows now rows, (∃ row ∈ rows, row.named = true ∧ row.key now = group.1) ∧
      0 ≤ group.2.count := by
  simp only [groupRows]
  suffices hfold : ∀ (rest : List QueryRow) (groups : Dict ObservationKey (Span ℤ)),
      (∀ row ∈ rest, row ∈ rows) →
      (∀ group ∈ groups, (∃ row ∈ rows, row.named = true ∧ row.key now = group.1) ∧
        0 ≤ group.2.count) →
      ∀ group ∈ rest.foldl (groupRow now) groups,
        (∃ row ∈ rows, row.named = true ∧ row.key now = group.1) ∧ 0 ≤ group.2.count from
    hfold rows [] (fun _ h => h) (by simp)
  intro rest
  induction rest with
  | nil => exact fun groups _ h => h
  | cons row rest ih =>
    intro groups hsub h
    refine ih _ (fun row' hrow' => hsub row' (by simp [hrow'])) ?_
    simp only [groupRow]
    split
    · exact h
    · rename_i hname
      have hrow : ∃ row' ∈ rows, row'.named = true ∧ row'.key now = row.key now :=
        ⟨row,hsub row (by simp),decide_eq_true hname,rfl⟩
      refine Dict.forall_mem_upsert (P := fun key (seen : Span ℤ) =>
        (∃ row ∈ rows, row.named = true ∧ row.key now = key) ∧ 0 ≤ seen.count)
        ⟨hrow,zero_le_one⟩ (fun seen hseen => ⟨hrow,?_⟩) h
      exact add_nonneg hseen.2 zero_le_one

theorem recordGroup_keeps (now : ℤ) {db : Database} {key : ObservationKey} {seen : Span ℤ}
    (h : Sound db.queue) (hkey : Settled key.domain) (hcount : 0 ≤ seen.count) :
    ∃ db', recordGroup now db (key,seen) = .ok db' ∧ Sound db'.queue ∧ ∀ d,
      domainCount db'.queue d = domainCount db.queue d+(if ofDomain d key then seen.count else 0) ∧
      observedCount db' d = observedCount db d+if ofDomain d key then seen.count else 0 := by
  have hok : ∃ db', recordGroup now db (key,seen) = .ok db' := by
    simp only [recordGroup,ensureQueriedDomain_settled hkey hcount,AList.mem_insert,true_or,if_true]
    exact ⟨_,rfl⟩
  obtain ⟨db',hok⟩ := hok
  obtain ⟨seenAt,row,hrow,-,rfl⟩ := recordGroup_ok hok
  rw [hkey.2] at hrow hok
  refine ⟨_,hok,fun d hd => ?_,fun d => ⟨?_,?_⟩⟩
  · rcases (AList.mem_insert _).mp hd with rfl | hd
    · exact hkey
    · exact h d hd
  · simp only [domainCount]
    by_cases hd : d = key.domain
    · subst hd
      rw [AList.lookup_insert,hrow,max_eq_right hcount]
      cases db.queue.domains.lookup key.domain <;> simp [seenRow,ofDomain]
    · rw [AList.lookup_insert_ne hd]
      simp [ofDomain,Ne.symm hd]
  · exact Table.sumOf_upsert (fun k v w => by split <;> rfl) key seen db.observations

theorem recordGroups_keeps (now : ℤ) {groups : Dict ObservationKey (Span ℤ)}
    (hgroups : ∀ group ∈ groups, Settled group.1.domain ∧ 0 ≤ group.2.count) {db : Database}
    (h : Sound db.queue) :
    ∃ db', groups.foldlM (recordGroup now) db = .ok db' ∧ Sound db'.queue ∧ ∀ d,
      domainCount db'.queue d = domainCount db.queue d+groupCount d groups ∧
      observedCount db' d = observedCount db d+groupCount d groups := by
  induction groups generalizing db with
  | nil => exact ⟨db,rfl,h,fun d => ⟨(add_zero _).symm,(add_zero _).symm⟩⟩
  | cons group groups ih =>
    obtain ⟨key,seen⟩ := group
    obtain ⟨hkey,hcount⟩ := hgroups (key,seen) (by simp)
    obtain ⟨db₁,hok,hsound,hcounts⟩ := recordGroup_keeps now h hkey hcount
    obtain ⟨db₂,hok₂,hsound₂,hcounts₂⟩ := ih (fun g hg => hgroups g (by simp [hg])) hsound
    refine ⟨db₂,?_,hsound₂,fun d => ?_⟩
    · rw [List.foldlM_cons,hok]
      exact hok₂
    · obtain ⟨hdomain,hobserved⟩ := hcounts d
      obtain ⟨hdomain₂,hobserved₂⟩ := hcounts₂ d
      simp only [groupCount,List.map_cons,Dict.total_cons] at hdomain₂ hobserved₂ ⊢
      rw [hdomain₂,hobserved₂,hdomain,hobserved]
      exact ⟨add_assoc _ _ _,add_assoc _ _ _⟩

/-- A page of harmless rows is recorded, each row once. -/
theorem recordQueryObservations_keeps (now : ℤ) {rows : List QueryRow}
    (hrows : ∀ row ∈ rows, row.Harmless) {db : Database} (h : Sound db.queue) :
    ∃ n db', recordQueryObservations now rows db = .ok (n,db') ∧ Sound db'.queue ∧ ∀ d,
      domainCount db'.queue d = domainCount db.queue d+rowCount d rows ∧
      observedCount db' d = observedCount db d+rowCount d rows := by
  have hgroups : ∀ group ∈ groupRows now rows, Settled group.1.domain ∧ 0 ≤ group.2.count := by
    intro group hgroup
    obtain ⟨⟨row,hrow,hnamed,hkey⟩,hcount⟩ := groupRows_mem now rows group hgroup
    rw [← hkey]
    exact ⟨(hrows row hrow).settled hnamed,hcount⟩
  obtain ⟨db',hok,hsound,hcounts⟩ := recordGroups_keeps now hgroups h
  simp only [groupRows_count] at hcounts
  refine ⟨((groupRows now rows).map fun group => group.2.count).sum,db',?_,hsound,hcounts⟩
  simp only [recordQueryObservations,hok]
  rfl

/-! The rest of a turn. -/

theorem ensureAll_keeps (seenAt : String → ℤ) {names : List String}
    (hnames : ∀ d ∈ names, Settled d) {db : Queue.Database} (h : Sound db) :
    ∃ db', names.foldlM (fun db d => (Queue.ensureDomain (seenAt d) d db).map Prod.snd) db = .ok db' ∧
      Keeps db db' := by
  induction names generalizing db with
  | nil => exact ⟨db,rfl,Keeps.refl h⟩
  | cons d names ih =>
    have hd := hnames d (by simp)
    have hnormal : Settled (normalizeDomain d) := by rwa [hd.2]
    obtain ⟨db₁,hensure,hkeeps₁⟩ := ensureDomain_keeps (seenAt d) h hnormal
    obtain ⟨db₂,hrest,hkeeps₂⟩ := ih (fun d' hd' => hnames d' (by simp [hd'])) hkeeps₁.sound
    refine ⟨db₂,?_,hkeeps₁.trans hkeeps₂⟩
    rw [List.foldlM_cons,hensure]
    exact hrest

theorem recordDiscoveredDomains_keeps (now : ℤ) {rows : List QueryRow}
    (hrows : ∀ row ∈ rows, row.Harmless) {db : Queue.Database} (h : Sound db) :
    ∃ db', recordDiscoveredDomains now rows db = .ok db' ∧ Keeps db db' := by
  refine ensureAll_keeps _ (fun d hd => ?_) h
  simp only [List.mem_eraseDups,List.mem_filter,List.mem_map] at hd
  obtain ⟨⟨row,hrow,rfl⟩,hname⟩ := hd
  exact (hrows row hrow).settled hname

theorem runHistoryBackfill_keeps (c : Queue.Context) {rows : List QueryRow}
    (hrows : ∀ row ∈ rows, row.Harmless) {db : Queue.Database} (h : Sound db) :
    (runHistoryBackfill c rows db).1 = none ∧ Keeps db (runHistoryBackfill c rows db).2 := by
  simp only [runHistoryBackfill]
  split
  · exact ⟨rfl,Keeps.refl h⟩
  · obtain ⟨db₁,hdiscovered,hkeeps₁⟩ := recordDiscoveredDomains_keeps c.now hrows h
    obtain ⟨hok,hkeeps₂⟩ := needingAnalysis_keeps c (scannedDomains_settled hrows) hkeeps₁.sound
    simp only [hdiscovered]
    exact ⟨hok,hkeeps₁.trans hkeeps₂⟩

/-- The end of a turn moves the cursor and counts nothing. -/
theorem finish_keeps {s : Scanner} {cycle : ScanCycle} (rows : List QueryRow)
    (hhistory : ∀ row ∈ cycle.history.getD [], row.Harmless) (h : Sound s.db.queue) :
    (s.finish cycle rows).1 = none ∧ ∃ queue,
      (s.finish cycle rows).2 = (s.advance rows).setQueue queue ∧ Keeps s.db.queue queue := by
  have hdb : (s.advance rows).db = s.db := by cases rows <;> rfl
  have hhist : ∃ queue, (if rows = [] then runHistoryBackfill cycle.context (cycle.history.getD [])
      (s.advance rows).db.queue else (none,(s.advance rows).db.queue)) = (none,queue) ∧
      Keeps s.db.queue queue := by
    rw [hdb]
    split
    · obtain ⟨hok,hkeeps⟩ := runHistoryBackfill_keeps cycle.context hhistory h
      exact ⟨_,Prod.ext hok rfl,hkeeps⟩
    · exact ⟨_,rfl,Keeps.refl h⟩
  obtain ⟨queue,hqueue,hkeeps⟩ := hhist
  obtain ⟨n,queue',hdue,hkeeps'⟩ := queueDueRechecks_keeps cycle.context cycle.batchSize hkeeps.sound
  simp only [Scanner.finish,hqueue,hdue]
  exact ⟨trivial,queue',rfl,hkeeps.trans hkeeps'⟩

/-- What a turn that records `page` and gets to its end leaves. -/
structure Turned (log : ℕ → QueryRow) (page : List ℕ) (s s' : Scanner) : Prop where
  cursor : s'.cursor = (s.advance (page.map log)).cursor
  stored : s'.stored = (s.advance (page.map log)).stored
  counted : s'.counted = s.counted++recordedAt log page
  sound : Sound s'.db.queue
  domains : ∀ d, domainCount s'.db.queue d = domainCount s.db.queue d+rowCount d (page.map log)
  observed : ∀ d, observedCount s'.db d = observedCount s.db d+rowCount d (page.map log)

/-- A turn on harmless rows gets to its end. -/
theorem cycle_turned {s : Scanner} {log : ℕ → QueryRow} {cycle : ScanCycle}
    (hrows : ∀ i ∈ s.page log cycle, (log i).Harmless)
    (hhistory : ∀ row ∈ cycle.history.getD [], row.Harmless) (h : Sound s.db.queue) :
    (s.cycle log cycle).1 = none ∧ Turned log (s.page log cycle) s (s.cycle log cycle).2 := by
  have hpage : ∀ row ∈ (s.page log cycle).map log, row.Harmless := by
    intro row hrow
    obtain ⟨i,hi,rfl⟩ := List.mem_map.mp hrow
    exact hrows i hi
  obtain ⟨n,db,hrecord,hsound,hcounts⟩ := recordQueryObservations_keeps cycle.context.now hpage h
  obtain ⟨hneeding,hkeeps⟩ := needingAnalysis_keeps cycle.context (scannedDomains_settled hpage) hsound
  generalize hresult : needingAnalysis cycle.context (scannedDomains ((s.page log cycle).map log))
    db.queue = result at hneeding hkeeps
  obtain ⟨failure,queue⟩ := result
  obtain rfl : failure = none := hneeding
  simp only [Scanner.cycle,hrecord,hresult]
  generalize s.page log cycle = page at hcounts ⊢
  let s₁ : Scanner := { s with db := { db with queue }, counted := s.counted++recordedAt log page }
  obtain ⟨hok,queue',hfinish,hkeeps'⟩ := finish_keeps (s := s₁) (page.map log) hhistory hkeeps.sound
  change (s₁.finish cycle (page.map log)).1 = none ∧
    Turned log page s (s₁.finish cycle (page.map log)).2
  rw [hfinish]
  have hcursor : (s₁.advance (page.map log)).cursor = (s.advance (page.map log)).cursor := by
    cases page <;> rfl
  have hstored : (s₁.advance (page.map log)).stored = (s.advance (page.map log)).stored := by
    cases page <;> rfl
  have hcounted : (s₁.advance (page.map log)).counted = s₁.counted := by cases page <;> rfl
  have hobservations : (s₁.advance (page.map log)).db.observations = db.observations := by
    cases page <;> rfl
  refine ⟨hok,hcursor,hstored,hcounted,hkeeps'.sound,fun d => ?_,fun d => ?_⟩
  · exact ((hkeeps'.counts d).trans (hkeeps.counts d)).trans (hcounts d).1
  · refine Eq.trans ?_ (hcounts d).2
    exact congrArg (fun t => Table.sumOf (fun key (seen : Span ℤ) =>
      if ofDomain d key then seen.count else 0) t) hobservations

/-! The cursor. -/

omit [CaseTables] in
theorem time_le_latest {row : QueryRow} {rows : List QueryRow} :
    ∀ row' ∈ row::rows, row'.time ≤ latest row rows := by
  have hfold : ∀ (rows : List QueryRow) (time : ℚ),
      time ≤ rows.foldl (fun time row => max time row.time) time ∧
        ∀ row' ∈ rows, row'.time ≤ rows.foldl (fun time row => max time row.time) time := by
    intro rows
    induction rows with
    | nil => exact fun time => ⟨le_refl time,by simp⟩
    | cons row rows ih =>
      intro time
      obtain ⟨hstart,hrest⟩ := ih (max time row.time)
      refine ⟨(le_max_left _ _).trans hstart,fun row' hrow' => ?_⟩
      rcases List.mem_cons.mp hrow' with rfl | hrow'
      · exact (le_max_right _ _).trans hstart
      · exact hrest row' hrow'
  intro row' hrow'
  rcases List.mem_cons.mp hrow' with rfl | hrow'
  · exact (hfold rows row'.time).1
  · exact (hfold rows row.time).2 row' hrow'

omit [CaseTables] in
/-- Six decimals are enough not to fall back behind a millisecond. -/
theorem lt_sixDecimals {x y : ℚ} (h : x+1/1000 ≤ y) : x < sixDecimals y := by
  have hround : y*1000000-1/2 ≤ roundHalfEven (y*1000000) := by
    have hfloor := Int.lt_floor_add_one (y*1000000)
    simp only [roundHalfEven]
    split_ifs <;> push_cast <;> linarith
  rw [sixDecimals,lt_div_iff₀ (by norm_num)]
  linarith

/-- What the rows that were counted have to do with the cursor. -/
structure Behind (log : ℕ → QueryRow) (s : Scanner) : Prop where
  cursor : ∀ i ∈ s.counted, (log i).time < s.cursor
  stored : ∀ i ∈ s.counted, ∃ c, s.stored = some c ∧ (log i).time < c

omit [CaseTables] in
/-- The rows of a page, and those before the cursor, are behind it once it has moved. -/
theorem advance_behind {log : ℕ → QueryRow} {s : Scanner} {page : List ℕ} (hpage : page ≠ [])
    (hlate : ∀ i ∈ page, s.cursor < (log i).time) {i : ℕ}
    (hi : i ∈ page ∨ (log i).time < s.cursor) :
    (log i).time < (s.advance (page.map log)).cursor ∧
      ∃ c, (s.advance (page.map log)).stored = some c ∧ (log i).time < c := by
  obtain ⟨j,page,rfl⟩ := List.exists_cons_of_ne_nil hpage
  have hle : (log i).time ≤ latest (log j) (page.map log) := by
    rcases hi with hi | hi
    · exact time_le_latest (log i) (List.mem_map_of_mem hi)
    · have hj := hlate j (by simp)
      exact (hi.trans hj).le.trans (time_le_latest (log j) (by simp))
  have hadvance : (log i).time+1/1000 ≤ max s.cursor (latest (log j) (page.map log)+1/1000) :=
    le_max_of_le_right (by linarith)
  exact ⟨lt_of_lt_of_le (by linarith) hadvance,_,rfl,lt_sixDecimals hadvance⟩

theorem Turned.behind {log : ℕ → QueryRow} {page : List ℕ} {s s' : Scanner}
    (h : Turned log page s s') (hlate : ∀ i ∈ page, s.cursor < (log i).time) (hs : Behind log s) :
    Behind log s' := by
  by_cases hpage : page = []
  · subst hpage
    obtain ⟨hcursor,hstored,hcounted,-,-,-⟩ := h
    rw [recordedAt,List.filter_nil,List.append_nil] at hcounted
    refine ⟨fun i hi => ?_,fun i hi => ?_⟩
    · rw [hcounted] at hi
      rw [hcursor]
      exact hs.cursor i hi
    · rw [hcounted] at hi
      rw [hstored]
      exact hs.stored i hi
  · have hbehind : ∀ i ∈ s'.counted, i ∈ page ∨ (log i).time < s.cursor := by
      intro i hi
      rw [h.counted] at hi
      rcases List.mem_append.mp hi with hi | hi
      · exact .inr (hs.cursor i hi)
      · exact .inl (List.mem_of_mem_filter hi)
    refine ⟨fun i hi => ?_,fun i hi => ?_⟩
    · rw [h.cursor]
      exact (advance_behind hpage hlate (hbehind i hi)).1
    · rw [h.stored]
      exact (advance_behind hpage hlate (hbehind i hi)).2

/-! Every run. -/

inductive ScanOp
  | cycle (turn : ScanCycle)
  | restart (now lookback : ℚ)

def ScanOp.exec (log : ℕ → QueryRow) (s : Scanner) : ScanOp → Scanner
  | .cycle turn => (s.cycle log turn).2
  | .restart now lookback => s.restart now lookback

/-- The rows a turn looks at are harmless; a restart does not go back behind the stored cursor. -/
def ScanOp.Heeds (log : ℕ → QueryRow) (s : Scanner) : ScanOp → Prop
  | .cycle turn => (∀ i ∈ s.page log turn, (log i).Harmless) ∧
      ∀ row ∈ turn.history.getD [], row.Harmless
  | .restart now lookback => ∀ c, s.stored = some c → c ≤ (s.restart now lookback).cursor

def HeedfulScan (log : ℕ → QueryRow) (s : Scanner) (op : ScanOp) (s' : Scanner) : Prop :=
  op.Heeds log s ∧ op.exec log s = s'

/-- How many of the positions hold a row about `d`. -/
def positionCount (log : ℕ → QueryRow) (d : String) (positions : List ℕ) : ℤ :=
  (positions.countP fun i => decide (normalizeDomain (log i).domain = d) : ℕ)

/-- What was counted since `s₀`, every row once. -/
structure CountsOnce (log : ℕ → QueryRow) (s₀ s : Scanner) : Prop where
  once : s.counted.Nodup
  domains : ∀ d, domainCount s.db.queue d = domainCount s₀.db.queue d+positionCount log d s.counted
  observed : ∀ d, observedCount s.db d = observedCount s₀.db d+positionCount log d s.counted

theorem rowCount_map (log : ℕ → QueryRow) (d : String) (page : List ℕ) :
    rowCount d (page.map log) = positionCount log d (recordedAt log page) := by
  simp only [rowCount,positionCount,recordedAt,List.countP_map,List.countP_filter]
  rw [Nat.cast_inj]
  refine List.countP_congr fun i _ => ?_
  simp [and_comm]

theorem Turned.countsOnce {log : ℕ → QueryRow} {page : List ℕ} {s₀ s s' : Scanner}
    (h : Turned log page s s') (honce : page.Nodup) (hlate : ∀ i ∈ page, s.cursor < (log i).time)
    (hs : Behind log s) (hcounts : CountsOnce log s₀ s) : CountsOnce log s₀ s' := by
  have happend : ∀ d, positionCount log d s'.counted =
      positionCount log d s.counted+positionCount log d (recordedAt log page) := by
    intro d
    simp only [positionCount,h.counted,List.countP_append]
    push_cast
    rfl
  refine ⟨?_,fun d => ?_,fun d => ?_⟩
  · rw [h.counted]
    refine hcounts.once.append (honce.filter _) fun i hi hi' => ?_
    exact absurd (hs.cursor i hi) (hlate i (List.mem_of_mem_filter hi')).not_gt
  · rw [h.domains,hcounts.domains,happend,rowCount_map,add_assoc]
  · rw [h.observed,hcounts.observed,happend,rowCount_map,add_assoc]

/-- What every heedful step preserves. -/
structure Scanned (log : ℕ → QueryRow) (s₀ s : Scanner) : Prop where
  sound : Sound s.db.queue
  behind : Behind log s
  counts : CountsOnce log s₀ s

omit [CaseTables] in
theorem page_late (s : Scanner) (log : ℕ → QueryRow) (cycle : ScanCycle) :
    ∀ i ∈ s.page log cycle, s.cursor < (log i).time := by
  intro i hi
  exact of_decide_eq_true (List.mem_filter.mp hi).2

theorem Scanned.step {log : ℕ → QueryRow} {s₀ s : Scanner} (h : Scanned log s₀ s) {op : ScanOp}
    (hheeds : op.Heeds log s) : Scanned log s₀ (op.exec log s) := by
  cases op with
  | cycle turn =>
    obtain ⟨-,hturned⟩ := cycle_turned hheeds.1 hheeds.2 h.sound
    have hlate := page_late s log turn
    have honce : (s.page log turn).Nodup := (turn.once _ _).filter _
    exact ⟨hturned.sound,hturned.behind hlate h.behind,
      hturned.countsOnce honce hlate h.behind h.counts⟩
  | restart now lookback =>
    refine ⟨h.sound,⟨fun i hi => ?_,h.behind.stored⟩,
      ⟨h.counts.once,h.counts.domains,h.counts.observed⟩⟩
    obtain ⟨c,hstored,hlt⟩ := h.behind.stored i hi
    exact hlt.trans_le (hheeds c hstored)

/-- A restart takes up a stored cursor that is positive and not a minute ahead of the clock. -/
theorem restart_heeds {log : ℕ → QueryRow} {s : Scanner} {now lookback : ℚ}
    (h : ∀ c, s.stored = some c → 0 < c ∧ c ≤ now+60) :
    (ScanOp.restart now lookback).Heeds log s := by
  intro c hc
  obtain ⟨hpos,hnear⟩ := h c hc
  have husable : ¬(c ≤ 0 ∨ now+60 < c) := by
    rintro (hle | hlt)
    · exact absurd hpos hle.not_gt
    · exact absurd hnear hlt.not_ge
  simp only [Scanner.restart,hc,Option.getD_some,if_neg husable]
  exact le_refl c

end Counts

/-! A query for the root name. -/

def freshScanner : Scanner := ⟨.empty,100,none,[]⟩

/-- The log has two rows, and a page holds them both. -/
def readBoth : ScanCycle where
  context := ⟨1000,[]⟩
  batchSize := 200
  fetch _ _ := [1,0]
  once _ _ := by decide
  history := none

def rootLog : ℕ → QueryRow
  | 0 => query 101
  | _ => { query 102 with domain := "." }

def plainLog (i : ℕ) : QueryRow := query (101+i)

theorem plainLog_harmless (i : ℕ) : (plainLog i).Harmless := by
  have hname : Settled (normalizeDomain "a.com") := ⟨by decide,by decide⟩
  have hlower : Settled (normalizeDomain (CaseTables.lower (strip "a.com"))) :=
    ⟨by decide,by decide⟩
  exact .inr ⟨hname,hlower⟩

end Observations
end WormholeObservatory
