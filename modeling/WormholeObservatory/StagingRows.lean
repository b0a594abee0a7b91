import WormholeObservatory.StagingQueue

/-! What each queue call does to the row of one domain. Every invariant of the
queue is derived from these lemmas; no later proof unfolds a call. -/
namespace WormholeObservatory
namespace Queue

section Claims

variable {db : Database}

theorem mem_claimedRows {now limit : ℤ} {pool : Option Pool} {d : String} {row : StagingRow}
    (h : (d,row) ∈ claimedRows now limit pool db) :
    db.staging.lookup d = some row ∧ claimable now pool row = true :=
  Table.mem_select.mp ((List.mem_insertionSort _).mp (List.mem_of_mem_take h))

theorem claimedItems_domain (now limit : ℤ) (pool : Option Pool) (db : Database) :
    (stagingClaimItems now limit pool db).1.map ClaimedItem.domain =
      (claimedRows now limit pool db).map Prod.fst := by
  simp only [stagingClaimItems,List.map_map,Function.comp_def]

theorem mem_claimedItems {now limit : ℤ} {pool : Option Pool} {item : ClaimedItem}
    (h : item ∈ (stagingClaimItems now limit pool db).1) :
    ∃ row, db.staging.lookup item.domain = some row ∧ claimable now pool row = true ∧
      item.source = row.source := by
  simp only [stagingClaimItems,List.mem_map] at h
  obtain ⟨⟨d,row⟩,hrow,rfl⟩ := h
  obtain ⟨hlookup,hclaim⟩ := mem_claimedRows hrow
  exact ⟨row,hlookup,hclaim,rfl⟩

theorem claimedItems_nodup (now limit : ℤ) (pool : Option Pool) (db : Database) :
    ((stagingClaimItems now limit pool db).1.map ClaimedItem.domain).Nodup := by
  have hselect := Table.nodup_select (fun _ row => claimable now pool row) db.staging
  have hsort : ((((db.staging.select fun _ row => claimable now pool row).insertionSort
      claimOrder)).map Prod.fst).Nodup :=
    ((List.perm_insertionSort claimOrder _).map Prod.fst).nodup_iff.mpr hselect
  rw [claimedItems_domain]
  exact hsort.sublist ((List.take_sublist (max 1 limit).toNat _).map Prod.fst)

/-- A claim marks the rows it returns and no others. -/
theorem lookup_stagingClaimItems (now limit : ℤ) (pool : Option Pool) (db : Database)
    (d : String) :
    (stagingClaimItems now limit pool db).2.staging.lookup d =
      (db.staging.lookup d).map fun row =>
        if d ∈ (stagingClaimItems now limit pool db).1.map ClaimedItem.domain then row.claim now
        else row := by
  rw [claimedItems_domain]
  simp only [stagingClaimItems,Table.lookup_updateWhere,decide_eq_true_eq]

theorem lookup_stagingRequeueProcessing (now : ℤ) (pool : Option Pool) (db : Database)
    (d : String) : (stagingRequeueProcessing now pool db).staging.lookup d =
      (db.staging.lookup d).map fun row =>
        if row.state = .processing ∧ ∀ p ∈ pool, row.poolId = p then row.requeue now else row := by
  simp only [stagingRequeueProcessing,Table.lookup_updateWhere,Bool.and_eq_true,decide_eq_true_eq,
    Option.all_eq_true,Option.mem_def]

/-- A claimed row was queued, in the pool of the worker that claimed it. -/
theorem claimed_row {now limit : ℤ} {pool : Pool} {db : Database} {d : String}
    (hd : d ∈ (stagingClaimItems now limit (some pool) db).1.map ClaimedItem.domain) :
    ∃ row, db.staging.lookup d = some row ∧ row.state = .queued ∧ row.poolId = pool := by
  obtain ⟨item,hitem,rfl⟩ := List.mem_map.mp hd
  obtain ⟨row,hrow,hclaim,-⟩ := mem_claimedItems hitem
  simp only [claimable,Option.all_some,Bool.and_eq_true,decide_eq_true_eq] at hclaim
  exact ⟨row,hrow,hclaim.1.1,hclaim.2⟩

end Claims

section Stage

variable {r : Request}

/-- Rows a request can reach from a row by staging it once or more often. -/
def Request.Staged (r : Request) : Option StagingRow → Option StagingRow → Prop :=
  Relation.TransGen fun row row' => row' = some (r.stage row).2

/-- Staging keeps what holds of a row whatever the request makes of it. -/
theorem Request.Staged.rule {row row' : Option StagingRow} (P : Option StagingRow → Prop)
    (hstep : ∀ row, P row → P (some (r.stage row).2)) (h : r.Staged row row') (hrow : P row) :
    P row' := by
  induction h with
  | single heq => exact heq ▸ hstep _ hrow
  | tail _ heq ih => exact heq ▸ hstep _ ih

theorem Request.stage_processing (r : Request) {row : StagingRow} (h : row.state = .processing) :
    (r.stage (some row)).2 = row := by
  simp [Request.stage,h]

/-- A row a worker holds is never staged over. -/
theorem Request.Staged.processing {row : StagingRow} {row' : Option StagingRow}
    (h : r.Staged (some row) row') (hrow : row.state = .processing) : row' = some row := by
  refine h.rule (· = some row) ?_ rfl
  rintro _ rfl
  rw [r.stage_processing hrow]

/-- Staging neither takes a row from a worker nor hands one out. -/
theorem Request.Staged.state {r : Request} {row row' : Option StagingRow} (h : r.Staged row row')
    (hrow : ∀ x, row = some x → x.state ≠ .processing) :
    ∀ x, row' = some x → x.state ≠ .processing := by
  refine h.rule (fun row => ∀ x, row = some x → x.state ≠ .processing) ?_ hrow
  rintro row hrow x hx
  obtain rfl := Option.some.inj hx
  cases row with
  | none => simp [Request.stage]
  | some row₀ =>
    have hstate := hrow row₀ rfl
    simp only [Request.stage,if_neg hstate]
    split
    · rename_i hqueued
      simp [hqueued]
    · split
      · simp
      · exact hstate

end Stage

variable [CaseTables]

section Enqueue

variable {r : Request} {db db' : Database} {values : List String}

theorem ensureDomain_ok {seenAt : ℤ} {value key : String}
    (h : ensureDomain seenAt value db = .ok (key,db')) :
    key = normalizeDomain value ∧ key ≠ "" ∧ db'.staging = db.staging ∧ db'.locks = db.locks := by
  simp only [ensureDomain] at h
  split at h
  · cases h
  · rename_i hne
    simp only [Except.ok.injEq,Prod.mk.injEq] at h
    obtain ⟨rfl,rfl⟩ := h
    exact ⟨rfl,hne,rfl,rfl⟩

/-- One turn of the loop either meets a lock or stages the row of its key. -/
theorem enqueueOne_ok {value key : String} {o : Outcome}
    (h : r.enqueueOne value db = .ok ((key,o),db')) :
    key = normalizeDomain value ∧ db'.locks = db.locks ∧
      (((∃ row, db.locks.lookup key = some row) ∧ o = .skippedLocked ∧ db'.staging = db.staging) ∨
        (db.locks.lookup key = none ∧ o = (r.stage (db.staging.lookup key)).1 ∧
          db'.staging = db.staging.insert key (r.stage (db.staging.lookup key)).2)) := by
  simp only [Request.enqueueOne] at h
  cases hensure : ensureDomain r.now value db with
  | error e => simp [hensure] at h
  | ok pair =>
    obtain ⟨domain,mid⟩ := pair
    obtain ⟨hkey,-,hstaging,hlocks⟩ := ensureDomain_ok hensure
    simp only [hensure] at h
    cases hlock : mid.locks.lookup domain with
    | some row =>
      simp only [hlock,Except.ok.injEq,Prod.mk.injEq] at h
      obtain ⟨⟨rfl,rfl⟩,rfl⟩ := h
      exact ⟨hkey,hlocks,.inl ⟨⟨row,hlocks ▸ hlock⟩,rfl,hstaging⟩⟩
    | none =>
      simp only [hlock,Except.ok.injEq,Prod.mk.injEq] at h
      obtain ⟨⟨rfl,rfl⟩,rfl⟩ := h
      exact ⟨hkey,hlocks,.inr ⟨hlocks ▸ hlock,by rw [hstaging],by simp only [hstaging]⟩⟩

/-- A domain's row after one turn: untouched, or staged under its own key. -/
theorem enqueueOne_staging {value key : String} {o : Outcome}
    (h : r.enqueueOne value db = .ok ((key,o),db')) (d : String) :
    db'.staging.lookup d = db.staging.lookup d ∨ d = key ∧ db.locks.lookup d = none ∧
      r.Staged (db.staging.lookup d) (db'.staging.lookup d) := by
  obtain ⟨-,-,hmove⟩ := enqueueOne_ok h
  rcases hmove with ⟨-,-,hsame⟩ | ⟨hfree,-,hinsert⟩
  · exact .inl (by rw [hsame])
  · by_cases hd : d = key
    · subst hd
      exact .inr ⟨rfl,hfree,.single (by rw [hinsert,AList.lookup_insert])⟩
    · exact .inl (by rw [hinsert,AList.lookup_insert_ne hd])

/-- The loop over a nonempty list is one turn and the loop over the rest. -/
theorem enqueueAll_cons {value : String} {outcomes : List (String × Outcome)}
    (h : r.enqueueAll (value::values) db = .ok (outcomes,db')) :
    ∃ key o mid rest, r.enqueueOne value db = .ok ((key,o),mid) ∧
      r.enqueueAll values mid = .ok (rest,db') ∧ outcomes = (key,o)::rest := by
  simp only [Request.enqueueAll] at h
  cases hone : r.enqueueOne value db with
  | error e => simp [hone] at h
  | ok pair =>
    obtain ⟨⟨key,o⟩,mid⟩ := pair
    simp only [hone] at h
    cases hall : r.enqueueAll values mid with
    | error e => simp [hall] at h
    | ok pair =>
      obtain ⟨rest,last⟩ := pair
      simp only [hall,Except.ok.injEq,Prod.mk.injEq] at h
      obtain ⟨rfl,rfl⟩ := h
      exact ⟨key,o,mid,rest,rfl,hall,rfl⟩

/-- A domain's row after the loop: untouched, or staged where the domain was named and
is not locked. -/
theorem enqueueAll_ok {outcomes : List (String × Outcome)}
    (h : r.enqueueAll values db = .ok (outcomes,db')) :
    db'.locks = db.locks ∧ ∀ d, (db'.staging.lookup d = db.staging.lookup d ∨
      d ∈ values.map normalizeDomain ∧ db.locks.lookup d = none ∧
        r.Staged (db.staging.lookup d) (db'.staging.lookup d)) := by
  induction values generalizing db outcomes with
  | nil =>
    simp only [Request.enqueueAll,Except.ok.injEq,Prod.mk.injEq] at h
    obtain ⟨-,rfl⟩ := h
    exact ⟨rfl,fun d => .inl rfl⟩
  | cons value values ih =>
    obtain ⟨key,o,mid,rest,hone,hall,-⟩ := enqueueAll_cons h
    obtain ⟨hkey,hlocks,-⟩ := enqueueOne_ok hone
    obtain ⟨hlocks',hrest⟩ := ih hall
    refine ⟨hlocks'.trans hlocks,fun d => ?_⟩
    rcases enqueueOne_staging hone d with hsame | ⟨hd,hfree,hstaged⟩
    · rcases hrest d with hrest | ⟨hmem,hfree,hstaged⟩
      · exact .inl (hrest.trans hsame)
      · exact .inr ⟨List.mem_cons_of_mem _ hmem,hlocks ▸ hfree,hsame ▸ hstaged⟩
    · have hmem : d ∈ (value::values).map normalizeDomain := by simp [hd,hkey]
      refine .inr ⟨hmem,hfree,?_⟩
      rcases hrest d with hrest | ⟨-,-,hstaged'⟩
      · rwa [hrest]
      · exact hstaged.trans hstaged'

end Enqueue

/-- The request an enqueueing call makes. -/
def Op.request (c : Context) : Op → Option Request
  | .enqueue _ priority source poolId requeueExisting =>
    some (c.request priority source poolId requeueExisting)
  | .review _ source => some (c.request 100 source "realtime" true)
  | .needingAnalysis _ force =>
    some (c.request (if force then 100 else 0) (if force then "manual" else "live_query")
      (if force then "realtime" else "background") false)
  | .dueRechecks _ => some (c.request 10 "scheduled_recheck" "background" false)
  | _ => none

/-- The names an enqueueing call hands to `staging_enqueue_detailed`. -/
def Op.names (c : Context) (db : Database) : Op → List String
  | .enqueue values _ _ _ _ => values
  | .review values _ => values
  | .needingAnalysis values force =>
    match analysisCandidates c force values db with
    | .error _ => []
    | .ok (candidates,_) => candidates
  | .dueRechecks limit => Queue.dueRechecks c limit db
  | _ => []

/-- The keys under which these names are staged: those that pass the suffix filter,
normalised once more by `_ensure_domain`. -/
def Op.staged (c : Context) (db : Database) (op : Op) : List String :=
  (c.admitted (op.names c db)).map normalizeDomain

/-- The keys whose row a call deletes. -/
def Op.removed : Op → List String
  | .ack domain => [normalizeDomain domain]
  | .remove domains => domains.map normalizeDomain
  | .setLock domain _ _ => [normalizeDomain domain]
  | _ => []

/-- Every way a call can move the row of a domain. -/
inductive RowMove (c : Context) (db : Database) (d : String) :
    Op → Option StagingRow → Option StagingRow → Prop
  | keep {op row} : RowMove c db d op row row
  | staged {op r row row'} : op.request c = some r → d ∈ op.staged c db →
      db.locks.lookup d = none → r.Staged row row' → RowMove c db d op row row'
  | claimed {limit poolId row} : claimable c.now (parsePool poolId) row = true →
      RowMove c db d (.claim limit poolId) (some row) (some (row.claim c.now))
  | removed {op row} : d ∈ op.removed → RowMove c db d op row none
  | failed {domain error maxAttempts row} : normalizeDomain domain = d →
      RowMove c db d (.fail domain error maxAttempts) (some row)
        (some (row.fail c.now maxAttempts error))
  | deferred {domain error retryAt row} : normalizeDomain domain = d →
      RowMove c db d (.defer domain error retryAt) (some row) (some (row.defer c.now error retryAt))
  | requeued {poolId row} : row.state = .processing → (∀ p ∈ parsePool poolId, row.poolId = p) →
      RowMove c db d (.requeueProcessing poolId) (some row) (some (row.requeue c.now))

section Specs

variable {c : Context} {db db' : Database}

/-- What an enqueue that commits does, in the words of the loop. -/
theorem stagingEnqueueDetailed_row {values : List String} {priority : ℤ} {source poolId : String}
    {requeueExisting : Bool} {result : EnqueueResult}
    (h : stagingEnqueueDetailed c values priority source poolId requeueExisting db =
      .ok (result,db')) :
    db'.locks = db.locks ∧ ∀ d, (db'.staging.lookup d = db.staging.lookup d ∨
      d ∈ (c.admitted values).map normalizeDomain ∧ db.locks.lookup d = none ∧
        (c.request priority source poolId requeueExisting).Staged (db.staging.lookup d)
          (db'.staging.lookup d)) := by
  simp only [stagingEnqueueDetailed] at h
  cases hall : (c.request priority source poolId requeueExisting).enqueueAll (c.admitted values)
      db with
  | error e => simp [hall] at h
  | ok pair =>
    simp only [hall,Except.ok.injEq,Prod.mk.injEq] at h
    obtain ⟨-,rfl⟩ := h
    exact enqueueAll_ok hall

theorem stagingEnqueue_row {values : List String} {priority : ℤ} {source poolId : String} {n : ℕ}
    (h : stagingEnqueue c values priority source poolId db = .ok (n,db')) :
    db'.locks = db.locks ∧ ∀ d, (db'.staging.lookup d = db.staging.lookup d ∨
      d ∈ (c.admitted values).map normalizeDomain ∧ db.locks.lookup d = none ∧
        (c.request priority source poolId false).Staged (db.staging.lookup d)
          (db'.staging.lookup d)) := by
  simp only [stagingEnqueue] at h
  cases hdetailed : stagingEnqueueDetailed c values priority source poolId false db with
  | error e => simp [hdetailed] at h
  | ok pair =>
    simp only [hdetailed,Except.ok.injEq,Prod.mk.injEq] at h
    obtain ⟨-,rfl⟩ := h
    exact stagingEnqueueDetailed_row hdetailed

theorem analysisCandidates_ok {force : Bool} {values candidates : List String}
    (h : analysisCandidates c force values db = .ok (candidates,db')) :
    db'.staging = db.staging ∧ db'.locks = db.locks := by
  induction values generalizing db db' candidates with
  | nil =>
    simp only [analysisCandidates,Except.ok.injEq,Prod.mk.injEq] at h
    obtain ⟨-,rfl⟩ := h
    exact ⟨rfl,rfl⟩
  | cons value values ih =>
    simp only [analysisCandidates] at h
    cases hensure : ensureDomain c.now value db with
    | error e => simp [hensure] at h
    | ok pair =>
      obtain ⟨domain,mid⟩ := pair
      simp only [hensure] at h
      cases hrest : analysisCandidates c force values mid with
      | error e => simp [hrest] at h
      | ok pair =>
        obtain ⟨rest,last⟩ := pair
        simp only [hrest,Except.ok.injEq,Prod.mk.injEq] at h
        obtain ⟨-,rfl⟩ := h
        obtain ⟨-,-,hstaging,hlocks⟩ := ensureDomain_ok hensure
        obtain ⟨hstaging',hlocks'⟩ := ih hrest
        exact ⟨hstaging'.trans hstaging,hlocks'.trans hlocks⟩

/-- An enqueueing call keeps the locks, and a row it changes is staged by its request. -/
theorem exec_request {op : Op} {r : Request} (hop : op.request c = some r) (db : Database) :
    (op.exec c db).locks = db.locks ∧
      ∀ d, ((op.exec c db).staging.lookup d = db.staging.lookup d ∨
        d ∈ op.staged c db ∧ db.locks.lookup d = none ∧
          r.Staged (db.staging.lookup d) ((op.exec c db).staging.lookup d)) := by
  cases op with
  | enqueue values priority source poolId requeueExisting =>
    obtain rfl := Option.some.inj hop
    simp only [Op.exec]
    cases h : stagingEnqueueDetailed c values priority source poolId requeueExisting db with
    | error e => exact ⟨rfl,fun d => .inl rfl⟩
    | ok pair => exact stagingEnqueueDetailed_row h
  | review values source =>
    obtain rfl := Option.some.inj hop
    simp only [Op.exec]
    cases h : queueDomainsForReview c values source db with
    | error e => exact ⟨rfl,fun d => .inl rfl⟩
    | ok pair => exact stagingEnqueueDetailed_row h
  | needingAnalysis values force =>
    obtain rfl := Option.some.inj hop
    simp only [Op.exec,queueDomainsNeedingAnalysis]
    cases hfirst : analysisCandidates c force values db with
    | error e => exact ⟨rfl,fun d => .inl rfl⟩
    | ok pair =>
      obtain ⟨candidates,mid⟩ := pair
      obtain ⟨hstaging,hlocks⟩ := analysisCandidates_ok hfirst
      cases hsecond : stagingEnqueue c candidates (if force then 100 else 0)
          (if force then "manual" else "live_query") (if force then "realtime" else "background")
          mid with
      | error e =>
        simp only [hsecond,commit]
        exact ⟨hlocks,fun d => .inl (congrArg (AList.lookup d) hstaging)⟩
      | ok pair =>
        obtain ⟨hlocks',hrow⟩ := stagingEnqueue_row hsecond
        simp only [hsecond,commit]
        refine ⟨hlocks'.trans hlocks,fun d => ?_⟩
        simp only [Op.staged,Op.names,hfirst]
        rw [← hstaging,← hlocks]
        exact hrow d
  | dueRechecks limit =>
    obtain rfl := Option.some.inj hop
    simp only [Op.exec]
    cases h : queueDueRechecks c limit db with
    | error e => exact ⟨rfl,fun d => .inl rfl⟩
    | ok pair => exact stagingEnqueue_row h
  | _ => cases hop

theorem lookup_stagingFail (now : ℤ) (domain error : String) (maxAttempts : ℤ) (db : Database)
    (d : String) : (stagingFail now domain error maxAttempts db).staging.lookup d =
      if d = normalizeDomain domain then (db.staging.lookup d).map (StagingRow.fail now maxAttempts error)
      else db.staging.lookup d := by
  split
  · rename_i h
    subst h
    exact Table.lookup_update_self _ _ _
  · rename_i h
    exact Table.lookup_update_ne h _ _

theorem lookup_stagingDefer (now : ℤ) (domain error : String) (retryAt : ℚ) (db : Database)
    (d : String) : (stagingDefer now domain error retryAt db).staging.lookup d =
      if d = normalizeDomain domain then (db.staging.lookup d).map (StagingRow.defer now error retryAt)
      else db.staging.lookup d := by
  split
  · rename_i h
    subst h
    exact Table.lookup_update_self _ _ _
  · rename_i h
    exact Table.lookup_update_ne h _ _

theorem lookup_stagingAck (domain : String) (db : Database) (d : String) :
    (stagingAck domain db).staging.lookup d =
      if d = normalizeDomain domain then none else db.staging.lookup d := by
  split
  · rename_i h
    subst h
    exact AList.lookup_erase _ _
  · rename_i h
    exact AList.lookup_erase_ne h

theorem lookup_stagingRemove (domains : List String) (db : Database) (d : String) :
    (stagingRemove domains db).staging.lookup d = none ∧ d ∈ domains.map normalizeDomain ∨
      (stagingRemove domains db).staging.lookup d = db.staging.lookup d := by
  simp only [stagingRemove,Table.lookup_deleteWhere]
  by_cases h : d ∈ (domains.map normalizeDomain).filter (· ≠ "")
  · refine .inl ⟨?_,(List.mem_filter.mp h).1⟩
    rw [decide_eq_true h]
    cases db.staging.lookup d <;> rfl
  · refine .inr ?_
    rw [decide_eq_false h]
    cases db.staging.lookup d <;> rfl

/-- `set_domain_lock` either fails or swaps the queue row of its domain for a lock. -/
theorem setDomainLock_row (now : ℤ) (domain listType reason : String) (db : Database) :
    commit db (setDomainLock now domain listType reason db) = db ∨
      ∃ row, (commit db (setDomainLock now domain listType reason db)).locks =
          db.locks.insert (normalizeDomain domain) row ∧
        (commit db (setDomainLock now domain listType reason db)).staging =
          db.staging.erase (normalizeDomain domain) := by
  simp only [setDomainLock]
  cases parseListType listType with
  | none => exact .inl rfl
  | some type =>
    cases hensure : ensureDomain now domain db with
    | error e => exact .inl rfl
    | ok pair =>
      obtain ⟨key,mid⟩ := pair
      obtain ⟨rfl,-,hstaging,hlocks⟩ := ensureDomain_ok hensure
      simp only [commit,hstaging,hlocks]
      exact .inr ⟨_,rfl,trivial⟩

/-- Only the two lock calls change the locks. -/
theorem exec_locks (c : Context) (op : Op) (db : Database) :
    (op.exec c db).locks = db.locks ∨
      (∃ domain row listType reason, op = .setLock domain listType reason ∧
        (op.exec c db).locks = db.locks.insert (normalizeDomain domain) row ∧
        (op.exec c db).staging = db.staging.erase (normalizeDomain domain)) ∨
      ∃ domain, op = .removeLock domain ∧
        (op.exec c db).locks = db.locks.erase (normalizeDomain domain) := by
  cases hop : op.request c with
  | some r => exact .inl (exec_request hop db).1
  | none =>
    cases op with
    | setLock domain listType reason =>
      rcases setDomainLock_row c.now domain listType reason db with h | ⟨row,hlocks,hstaging⟩
      · exact .inl (congrArg Database.locks h)
      · exact .inr (.inl ⟨domain,row,listType,reason,rfl,hlocks,hstaging⟩)
    | removeLock domain => exact .inr (.inr ⟨domain,rfl,rfl⟩)
    | enqueue => cases hop
    | review => cases hop
    | needingAnalysis => cases hop
    | dueRechecks => cases hop
    | _ => exact .inl rfl

/-- The inversion lemma of the queue: how any call moves the row of any domain. -/
theorem exec_row (c : Context) (op : Op) (db : Database) (d : String) :
    RowMove c db d op (db.staging.lookup d) ((op.exec c db).staging.lookup d) := by
  cases hop : op.request c with
  | some r =>
    rcases (exec_request hop db).2 d with hsame | ⟨hmem,hfree,hstaged⟩
    · rw [hsame]
      exact .keep
    · exact .staged hop hmem hfree hstaged
  | none =>
    cases op with
    | enqueue => cases hop
    | review => cases hop
    | needingAnalysis => cases hop
    | dueRechecks => cases hop
    | removeLock domain => exact .keep
    | other domains classifications => exact .keep
    | claim limit poolId =>
      simp only [Op.exec,lookup_stagingClaimItems]
      cases hrow : db.staging.lookup d with
      | none => exact .keep
      | some row =>
        simp only [Option.map_some]
        split
        · rename_i hmem
          obtain ⟨item,hitem,rfl⟩ := List.mem_map.mp hmem
          obtain ⟨row',hrow',hclaim,-⟩ := mem_claimedItems hitem
          obtain rfl : row = row' := Option.some.inj (hrow.symm.trans hrow')
          exact .claimed hclaim
        · exact .keep
    | ack domain =>
      simp only [Op.exec,lookup_stagingAck]
      split
      · rename_i hd
        exact .removed (by simp [Op.removed,hd])
      · exact .keep
    | fail domain error maxAttempts =>
      simp only [Op.exec,lookup_stagingFail]
      split
      · rename_i hd
        cases db.staging.lookup d with
        | none => exact .keep
        | some row => exact .failed hd.symm
      · exact .keep
    | defer domain error retryAt =>
      simp only [Op.exec,lookup_stagingDefer]
      split
      · rename_i hd
        cases db.staging.lookup d with
        | none => exact .keep
        | some row => exact .deferred hd.symm
      · exact .keep
    | requeueProcessing poolId =>
      simp only [Op.exec,lookup_stagingRequeueProcessing]
      cases db.staging.lookup d with
      | none => exact .keep
      | some row =>
        simp only [Option.map_some]
        split
        · rename_i hmatch
          exact .requeued hmatch.1 hmatch.2
        · exact .keep
    | remove domains =>
      rcases lookup_stagingRemove domains db d with ⟨hnone,hmem⟩ | hsame
      · simp only [Op.exec,hnone]
        exact .removed hmem
      · simp only [Op.exec,hsame]
        exact .keep
    | setLock domain listType reason =>
      simp only [Op.exec]
      rcases setDomainLock_row c.now domain listType reason db with h | ⟨row,-,hstaging⟩
      · rw [h]
        exact .keep
      · rw [hstaging]
        by_cases hd : d = normalizeDomain domain
        · subst hd
          rw [AList.lookup_erase]
          exact .removed (by simp [Op.removed])
        · rw [AList.lookup_erase_ne hd]
          exact .keep

end Specs

end Queue
end WormholeObservatory
