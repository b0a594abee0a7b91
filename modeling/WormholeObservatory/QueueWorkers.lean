import WormholeObservatory.Leases
import WormholeObservatory.StagingRows

/-! The queue with its two workers. A worker requeues its pool's rows when it starts,
then claims a batch and releases what it claimed before it claims again; it may
crash at any point. Enqueues of the rest of the program come in between. -/
namespace WormholeObservatory
namespace Queue

open Transition Lease

/-- How a worker gives a claimed domain back. -/
inductive Release
  | ack
  | fail (error : String) (maxAttempts : ℤ)
  | defer (error : String) (retryAt : ℚ)

inductive Act
  | start (pool : Pool)
  | crash (pool : Pool)
  | claim (pool : Pool) (limit : ℤ)
  | release (pool : Pool) (domain : String) (how : Release)
  | scan (values : List String)
  | recheck (limit : ℤ)
  | audit (values : List String)
  | request (values : List String) (source : String)
  | other (domains : Table String DomainRow) (classifications : List ClassificationRow)

/-- The database, what each running worker holds (domain and `queue_sources` entry) and
the history of claims, releases and starts. -/
structure System where
  db : Database
  held : Pool → Option (List (String × String))
  log : List (Event Pool String)

def System.initial : System := ⟨Database.empty,fun _ => none,[]⟩

def System.Holds (s : System) (pool : Pool) (d source : String) : Prop :=
  ∃ items, s.held pool = some items ∧ (d,source) ∈ items

section Steps

variable [CaseTables]

def Release.exec (now : ℤ) (domain : String) (db : Database) : Release → Database
  | .ack => stagingAck domain db
  | .fail error maxAttempts => stagingFail now domain error maxAttempts db
  | .defer error retryAt => stagingDefer now domain error retryAt db

/-- The queue call behind an act that is not a worker's: the scanner, due rechecks, the
list audit and manual requests. -/
def Act.op : Act → Option Op
  | .scan values => some (.needingAnalysis values false)
  | .recheck limit => some (.dueRechecks limit)
  | .audit values => some (.enqueue values 0 "list_audit" "background" false)
  | .request values source => some (.review values source)
  | .other domains classifications => some (.other domains classifications)
  | _ => none

/-- One step; `none` where the worker is not in a position to take it. -/
def System.next (s : System) (c : Context) : Act → Option System
  | .start pool =>
    match s.held pool with
    | some _ => none
    | none => some
      { db := stagingRequeueProcessing c.now (some pool) s.db
        held := Function.update s.held pool (some [])
        log := .restarted pool::s.log }
  | .crash pool => some { s with held := Function.update s.held pool none }
  | .claim pool limit =>
    match s.held pool with
    | some [] =>
      let (items,db) := stagingClaimItems c.now limit (some pool) s.db
      some { db := db
             held := Function.update s.held pool (some (items.map fun i => (i.domain,i.source)))
             log := grantAll pool (items.map ClaimedItem.domain) s.log }
    | _ => none
  | .release pool domain how =>
    match s.held pool with
    | none => none
    | some items =>
      if domain ∈ items.map Prod.fst then
        some { db := how.exec c.now domain s.db
               held := Function.update s.held pool (some (items.filter (·.1 ≠ domain)))
               log := .released pool domain::s.log }
      else none
  | act => act.op.map fun op => { s with db := op.exec c s.db }

def System.Step (s : System) (l : Context × Act) (t : System) : Prop := s.next l.1 l.2 = some t

/-- Every step of the system, with what it requires and what it leaves. -/
inductive System.Move (s : System) (c : Context) : Act → System → Prop
  | start {pool} : s.held pool = none → Move s c (.start pool)
      { db := stagingRequeueProcessing c.now (some pool) s.db
        held := Function.update s.held pool (some [])
        log := .restarted pool::s.log }
  | crash {pool} : Move s c (.crash pool) { s with held := Function.update s.held pool none }
  | claim {pool limit items db} : s.held pool = some [] →
      stagingClaimItems c.now limit (some pool) s.db = (items,db) → Move s c (.claim pool limit)
      { db := db
        held := Function.update s.held pool (some (items.map fun i => (i.domain,i.source)))
        log := grantAll pool (items.map ClaimedItem.domain) s.log }
  | release {pool domain how items} : s.held pool = some items → domain ∈ items.map Prod.fst →
      Move s c (.release pool domain how)
      { db := how.exec c.now domain s.db
        held := Function.update s.held pool (some (items.filter (·.1 ≠ domain)))
        log := .released pool domain::s.log }
  | call {act op} : act.op = some op → Move s c act { s with db := op.exec c s.db }

theorem next_move {s t : System} {c : Context} {act : Act} (h : s.next c act = some t) :
    s.Move c act t := by
  cases act with
  | start pool =>
    simp only [System.next] at h
    cases hheld : s.held pool with
    | some items => simp [hheld] at h
    | none =>
      simp only [hheld,Option.some.injEq] at h
      exact h ▸ .start hheld
  | crash pool => exact Option.some.inj h ▸ .crash
  | claim pool limit =>
    simp only [System.next] at h
    split at h
    · rename_i hheld
      exact Option.some.inj h ▸ .claim hheld rfl
    · cases h
  | release pool domain how =>
    simp only [System.next] at h
    cases hheld : s.held pool with
    | none => simp [hheld] at h
    | some items =>
      simp only [hheld] at h
      split at h
      · rename_i hmem
        exact Option.some.inj h ▸ .release hheld hmem
      · cases h
  | scan | recheck | audit | request | other => exact Option.some.inj h ▸ .call rfl

end Steps

/-! Exclusivity. -/

section Exclusivity

variable [CaseTables]

/-- The keys an act stages. -/
def Act.staged (c : Context) (s : System) (act : Act) : List String :=
  match act.op with
  | some op => op.staged c s.db
  | none => []

/-- Steps that stage settled names only: keys that normalise to themselves, so that a
release meets the row that was claimed. -/
def settledStep (s : System) (l : Context × Act) (t : System) : Prop :=
  s.Step l t ∧ ∀ d ∈ l.2.staged l.1 s, normalizeDomain d = d

/-- What binds rows, workers and history together. -/
structure Consistent (s : System) : Prop where
  processing : ∀ d pool, holder s.log d = some pool ↔
    ∃ row, s.db.staging.lookup d = some row ∧ row.state = .processing ∧ row.poolId = pool
  held : ∀ pool items, s.held pool = some items → (items.map Prod.fst).Nodup ∧
    ∀ d ∈ items.map Prod.fst, holder s.log d = some pool
  settled : ∀ d row, s.db.staging.lookup d = some row → normalizeDomain d = d
  sound : Sound s.log

theorem consistent_initial : Consistent System.initial where
  processing d pool := by simp [System.initial,holder,Database.empty]
  held pool items h := by simp [System.initial] at h
  settled d row h := by simp [System.initial,Database.empty] at h
  sound := trivial

theorem Consistent.not_processing {s : System} (h : Consistent s) {d : String} {row : StagingRow}
    (hrow : s.db.staging.lookup d = some row) (hstate : row.state ≠ .processing) :
    holder s.log d = none := by
  cases hholder : holder s.log d with
  | none => rfl
  | some pool =>
    obtain ⟨row',hrow',hstate',-⟩ := (h.processing d pool).mp hholder
    obtain rfl : row = row' := Option.some.inj (hrow.symm.trans hrow')
    exact absurd hstate' hstate

theorem Consistent.start {s : System} (h : Consistent s) {pool : Pool} (now : ℤ) : Consistent
    { db := stagingRequeueProcessing now (some pool) s.db
      held := Function.update s.held pool (some [])
      log := .restarted pool::s.log } where
  processing d q := by
    simp only [holder,lookup_stagingRequeueProcessing,Option.map_eq_some_iff]
    constructor
    · intro hholder
      split at hholder
      · cases hholder
      · rename_i hother
        obtain ⟨row,hrow,hstate,hpool⟩ := (h.processing d q).mp hholder
        refine ⟨row,⟨row,hrow,if_neg ?_⟩,hstate,hpool⟩
        rintro ⟨-,hsame⟩
        exact hother ((h.processing d pool).mpr ⟨row,hrow,hstate,hsame pool rfl⟩)
    · rintro ⟨row',⟨row,hrow,rfl⟩,hstate,hpool⟩
      split at hstate
      · cases hstate
      · rename_i hkept
        rw [if_neg hkept] at hpool
        have hholder := (h.processing d q).mpr ⟨row,hrow,hstate,hpool⟩
        have hne : holder s.log d ≠ some pool := by
          intro hp
          obtain rfl : q = pool := Option.some.inj (hholder.symm.trans hp)
          exact hkept ⟨hstate,fun p hp => hpool.trans (Option.mem_some.mp hp)⟩
        rw [if_neg hne,hholder]
  held q items hitems := by
    by_cases hq : q = pool
    · subst hq
      simp only [Function.update_self,Option.some.injEq] at hitems
      simp [← hitems]
    · simp only [Function.update_of_ne hq] at hitems
      obtain ⟨hnodup,hmem⟩ := h.held q items hitems
      refine ⟨hnodup,fun d hd => ?_⟩
      have hholder := hmem d hd
      have hne : holder s.log d ≠ some pool := by
        rw [hholder]
        exact fun heq => hq (Option.some.inj heq)
      rw [holder,if_neg hne,hholder]
  settled d row hrow := by
    simp only [lookup_stagingRequeueProcessing,Option.map_eq_some_iff] at hrow
    obtain ⟨row,hrow,-⟩ := hrow
    exact h.settled d row hrow
  sound := h.sound

theorem Consistent.crash {s : System} (h : Consistent s) (pool : Pool) :
    Consistent { s with held := Function.update s.held pool none } where
  processing := h.processing
  held q items hitems := by
    by_cases hq : q = pool
    · subst hq
      simp at hitems
    · exact h.held q items (by simpa [Function.update_of_ne hq] using hitems)
  settled := h.settled
  sound := h.sound

theorem Consistent.claim {s : System} (h : Consistent s) {now limit : ℤ} {pool : Pool}
    {items : List ClaimedItem} {db : Database}
    (hclaim : stagingClaimItems now limit (some pool) s.db = (items,db)) : Consistent
    { db := db
      held := Function.update s.held pool (some (items.map fun i => (i.domain,i.source)))
      log := grantAll pool (items.map ClaimedItem.domain) s.log } := by
  have hitems : (stagingClaimItems now limit (some pool) s.db).1 = items := by rw [hclaim]
  have hdb : (stagingClaimItems now limit (some pool) s.db).2 = db := by rw [hclaim]
  have hfree : ∀ d ∈ items.map ClaimedItem.domain, holder s.log d = none := by
    intro d hd
    obtain ⟨row,hrow,hstate,-⟩ := claimed_row (hitems.symm ▸ hd)
    exact h.not_processing hrow (by simp [hstate])
  have hlookup := lookup_stagingClaimItems now limit (some pool) s.db
  rw [hitems,hdb] at hlookup
  have hnodup := claimedItems_nodup now limit (some pool) s.db
  rw [hitems] at hnodup
  refine ⟨fun d q => ?_,fun q held hq => ?_,fun d row hrow => ?_,
    sound_grantAll pool hnodup hfree h.sound⟩
  · rw [holder_grantAll]
    simp only [hlookup]
    by_cases hd : d ∈ items.map ClaimedItem.domain
    · obtain ⟨row,hrow,-,hpool⟩ := claimed_row (hitems.symm ▸ hd)
      simp only [if_pos hd,hrow,Option.map_some,Option.some.injEq,exists_eq_left']
      exact ⟨fun heq => ⟨rfl,hpool.trans heq⟩,fun hclaimed => hpool.symm.trans hclaimed.2⟩
    · simp only [if_neg hd,Option.map_id']
      exact h.processing d q
  · by_cases hqp : q = pool
    · subst hqp
      simp only [Function.update_self,Option.some.injEq] at hq
      subst hq
      simp only [List.map_map,Function.comp_def]
      refine ⟨hnodup,fun d hd => ?_⟩
      rw [holder_grantAll]
      exact if_pos hd
    · simp only [Function.update_of_ne hqp] at hq
      obtain ⟨hnodup',hmem⟩ := h.held q held hq
      refine ⟨hnodup',fun d hd => ?_⟩
      have hother : d ∉ items.map ClaimedItem.domain := by
        intro hd'
        exact absurd (hmem d hd) (by simp [hfree d hd'])
      rw [holder_grantAll,if_neg hother]
      exact hmem d hd
  · simp only [hlookup,Option.map_eq_some_iff] at hrow
    obtain ⟨row,hrow,-⟩ := hrow
    exact h.settled d row hrow

/-- After a release no worker's mark is left on the row, and other rows are untouched. -/
theorem Release.lookup_exec (how : Release) (now : ℤ) {domain : String}
    (hsettled : normalizeDomain domain = domain) (db : Database) (d : String) :
    if d = domain then ∀ row, (how.exec now domain db).staging.lookup d = some row →
        row.state ≠ .processing ∧ ∃ row₀, db.staging.lookup d = some row₀
    else (how.exec now domain db).staging.lookup d = db.staging.lookup d := by
  cases how with
  | ack =>
    simp only [Release.exec,lookup_stagingAck,hsettled]
    split
    · intro row hrow
      cases hrow
    · rfl
  | fail error maxAttempts =>
    simp only [Release.exec,lookup_stagingFail,hsettled]
    split
    · intro row hrow
      obtain ⟨row₀,hrow₀,rfl⟩ := Option.map_eq_some_iff.mp hrow
      refine ⟨?_,row₀,hrow₀⟩
      simp only [StagingRow.fail]
      split <;> decide
    · rfl
  | defer error retryAt =>
    simp only [Release.exec,lookup_stagingDefer,hsettled]
    split
    · intro row hrow
      obtain ⟨row₀,hrow₀,rfl⟩ := Option.map_eq_some_iff.mp hrow
      exact ⟨by simp [StagingRow.defer],row₀,hrow₀⟩
    · rfl

theorem Consistent.release {s : System} (h : Consistent s) {pool : Pool} {domain : String}
    {items : List (String × String)} (hheld : s.held pool = some items)
    (hmem : domain ∈ items.map Prod.fst) (how : Release) (now : ℤ) : Consistent
    { db := how.exec now domain s.db
      held := Function.update s.held pool (some (items.filter (·.1 ≠ domain)))
      log := .released pool domain::s.log } := by
  obtain ⟨hnodup,hall⟩ := h.held pool items hheld
  have hholder := hall domain hmem
  obtain ⟨row,hrow,-,-⟩ := (h.processing domain pool).mp hholder
  have hexec := how.lookup_exec now (h.settled domain row hrow) s.db
  have hlog : ∀ d, holder (.released pool domain::s.log) d =
      if d = domain then none else holder s.log d := by
    intro d
    rw [holder]
    by_cases hd : d = domain
    · subst hd
      simp [hholder]
    · simp [hd]
  refine ⟨fun d q => ?_,fun q held hq => ?_,fun d row hrow => ?_,h.sound⟩
  · have hrow' := hexec d
    rw [hlog]
    by_cases hd : d = domain
    · simp only [if_pos hd] at hrow' ⊢
      refine ⟨fun hnone => (by cases hnone),?_⟩
      rintro ⟨row,hrow,hstate,-⟩
      exact absurd hstate (hrow' row hrow).1
    · simp only [if_neg hd] at hrow' ⊢
      rw [hrow']
      exact h.processing d q
  · by_cases hqp : q = pool
    · subst hqp
      simp only [Function.update_self,Option.some.injEq] at hq
      subst hq
      have hsub : ((items.filter (·.1 ≠ domain)).map Prod.fst).Sublist (items.map Prod.fst) :=
        List.filter_sublist.map Prod.fst
      refine ⟨hnodup.sublist hsub,fun d hd => ?_⟩
      obtain ⟨item,hitem,rfl⟩ := List.mem_map.mp hd
      have hne : item.1 ≠ domain := by simpa using (List.mem_filter.mp hitem).2
      rw [hlog,if_neg hne]
      exact hall item.1 (hsub.subset hd)
    · simp only [Function.update_of_ne hqp] at hq
      obtain ⟨hnodup',hall'⟩ := h.held q held hq
      refine ⟨hnodup',fun d hd => ?_⟩
      have hne : d ≠ domain := by
        rintro rfl
        exact hqp (Option.some.inj ((hall' d hd).symm.trans hholder))
      rw [hlog,if_neg hne]
      exact hall' d hd
  · have hrow' := hexec d
    split at hrow'
    · obtain ⟨-,row₀,hrow₀⟩ := hrow' row hrow
      exact h.settled d row₀ hrow₀
    · exact h.settled d row (hrow' ▸ hrow)

theorem Consistent.call {s : System} (h : Consistent s) {c : Context} {act : Act} {op : Op}
    (hop : act.op = some op) (hsettled : ∀ d ∈ op.staged c s.db, normalizeDomain d = d) :
    Consistent { s with db := op.exec c s.db } := by
  have hmove : ∀ d, (op.exec c s.db).staging.lookup d = s.db.staging.lookup d ∨
      ∃ r, d ∈ op.staged c s.db ∧
        Request.Staged r (s.db.staging.lookup d) ((op.exec c s.db).staging.lookup d) := by
    intro d
    cases hr : op.request c with
    | some r =>
      exact ((exec_request hr s.db).2 d).imp_right fun ⟨hmem,_,hstaged⟩ => ⟨r,hmem,hstaged⟩
    | none =>
      -- the one call of the program that is no request leaves the queue alone
      cases act with
      | other domains classifications =>
        obtain rfl := Option.some.inj hop
        exact .inl rfl
      | scan | recheck | audit | request =>
        obtain rfl := Option.some.inj hop
        cases hr
      | _ => cases hop
  refine ⟨fun d q => ?_,h.held,fun d row hrow => ?_,h.sound⟩
  · rcases hmove d with hsame | ⟨r,-,hstaged⟩
    · rw [hsame]
      exact h.processing d q
    · rw [h.processing d q]
      by_cases hrow : ∃ row, s.db.staging.lookup d = some row ∧ row.state = .processing
      · obtain ⟨row,hrow,hstate⟩ := hrow
        rw [hrow] at hstaged
        rw [hrow,hstaged.processing hstate]
      · have hnone : ∀ x, s.db.staging.lookup d = some x → x.state ≠ .processing :=
          fun x hx hstate => hrow ⟨x,hx,hstate⟩
        refine ⟨fun ⟨x,hx,hstate,_⟩ => absurd hstate (hnone x hx),?_⟩
        exact fun ⟨x,hx,hstate,_⟩ => absurd hstate (hstaged.state hnone x hx)
  · rcases hmove d with hsame | ⟨r,hmem,-⟩
    · exact h.settled d row (hsame ▸ hrow)
    · exact hsettled d hmem

theorem settledStep_consistent {s t : System} {l : Context × Act} (h : Consistent s)
    (hstep : settledStep s l t) : Consistent t := by
  obtain ⟨c,act⟩ := l
  obtain ⟨hnext,hsettled⟩ := hstep
  cases next_move hnext with
  | start => exact h.start c.now
  | crash => exact h.crash _
  | claim _ hclaim => exact h.claim hclaim
  | release hheld hmem => exact h.release hheld hmem _ c.now
  | call hop =>
    refine h.call hop fun d hd => hsettled d ?_
    simpa only [Act.staged,hop] using hd

/-- What the queue promises its workers. -/
structure ClaimExclusivity (s : System) : Prop where
  oneHolder : ∀ d p q source source', s.Holds p d source → s.Holds q d source' → p = q
  poolOfClaimer : ∀ d row, s.db.staging.lookup d = some row → row.state = .processing →
    lastGrantee s.log d = some row.poolId
  releasedBetween : ∀ d p q later between earlier,
    s.log = later++.granted q d::(between++.granted p d::earlier) →
      ∃ e ∈ between, e = .released p d ∨ e = .restarted p

theorem Consistent.claimExclusivity {s : System} (h : Consistent s) : ClaimExclusivity s where
  oneHolder := by
    rintro d p q source source' ⟨items,hitems,hmem⟩ ⟨items',hitems',hmem'⟩
    have hp := (h.held p items hitems).2 d (List.mem_map_of_mem hmem)
    have hq := (h.held q items' hitems').2 d (List.mem_map_of_mem hmem')
    exact Option.some.inj (hp.symm.trans hq)
  poolOfClaimer d row hrow hstate :=
    lastGrantee_of_holder ((h.processing d row.poolId).mpr ⟨row,hrow,hstate,rfl⟩)
  releasedBetween d p q later between earlier hlog := by
    have hsound := h.sound
    rw [hlog] at hsound
    exact hsound.between_grants

/-- Claims are exclusive in every run that stages settled names only. -/
theorem claim_exclusivity {labels : List (Context × Act)} {s : System}
    (h : Run settledStep System.initial labels s) : ClaimExclusivity s :=
  (h.invariant Consistent (fun _ _ _ hs hst => settledStep_consistent hs hst)
    consistent_initial).claimExclusivity

/-- Run a schedule as long as each step is possible and passes a check. -/
def System.play (check : System → Context × Act → Bool) (s : System) :
    List (Context × Act) → Option System
  | [] => some s
  | l::labels =>
    if check s l then
      match s.next l.1 l.2 with
      | none => none
      | some t => t.play check labels
    else none

theorem System.run_play {check : System → Context × Act → Bool} {s t : System}
    {labels : List (Context × Act)} (h : s.play check labels = some t) :
    Run (fun s l t => s.Step l t ∧ check s l = true) s labels t := by
  induction labels generalizing s with
  | nil => exact Option.some.inj h ▸ .nil s
  | cons l labels ih =>
    simp only [System.play] at h
    split at h
    · rename_i hcheck
      cases hnext : s.next l.1 l.2 with
      | none => simp [hnext] at h
      | some u =>
        simp only [hnext] at h
        exact .cons ⟨hnext,hcheck⟩ (ih h)
    · cases h

def settledCheck (s : System) (l : Context × Act) : Bool :=
  (l.2.staged l.1 s).all fun d => normalizeDomain d = d

theorem run_settledCheck {s t : System} {labels : List (Context × Act)}
    (h : s.play settledCheck labels = some t) : Run settledStep s labels t := by
  refine (System.run_play h).mono ?_
  rintro s l t ⟨hstep,hcheck⟩
  refine ⟨hstep,fun d hd => ?_⟩
  simpa using List.all_eq_true.mp hcheck d hd

end Exclusivity

/-- A domain scanned and claimed in the background, lost in a crash and claimed again. -/
def crashSchedule : List (Context × Act) :=
  [(⟨10,[]⟩,.scan ["a.com."]),(⟨11,[]⟩,.start .background),(⟨12,[]⟩,.claim .background 5),
    (⟨13,[]⟩,.request ["a.com"] "manual_history"),(⟨14,[]⟩,.crash .background),
    (⟨15,[]⟩,.start .background),(⟨16,[]⟩,.claim .background 5)]

theorem claim_exclusivity_crashSchedule : ∃ s, System.initial.play settledCheck crashSchedule = some s ∧
    ClaimExclusivity s := by
  obtain ⟨s,hs⟩ := Option.isSome_iff_exists.mp
    (show (System.initial.play settledCheck crashSchedule).isSome = true by decide +kernel)
  exact ⟨s,hs,claim_exclusivity (run_settledCheck hs)⟩

/-- The key of `a. . .` is `a. `, and its release meets the row of `a`. -/
def doubleClaimSchedule : List (Context × Act) :=
  [(⟨10,[]⟩,.scan ["a"]),(⟨11,[]⟩,.start .background),(⟨12,[]⟩,.claim .background 5),
    (⟨13,[]⟩,.request ["a. . ."] "manual_history"),(⟨14,[]⟩,.start .realtime),
    (⟨15,[]⟩,.claim .realtime 5),(⟨16,[]⟩,.release .realtime "a. " (.defer "quota" 16)),
    (⟨17,[]⟩,.request ["a"] "manual_history"),(⟨20,[]⟩,.claim .realtime 5)]

/-- Both workers end up holding `a`. -/
theorem doubleClaimSchedule_two_holders :
    ∃ s, Run System.Step System.initial doubleClaimSchedule s ∧
      s.Holds .background "a" "live_query" ∧ s.Holds .realtime "a" "manual_history" ∧
      ¬ ClaimExclusivity s := by
  let check : System → Context × Act → Bool := fun _ _ => true
  obtain ⟨s,hs⟩ := Option.isSome_iff_exists.mp
    (show (System.initial.play check doubleClaimSchedule).isSome = true by decide)
  have hheld : (System.initial.play check doubleClaimSchedule).map
      (fun s => (s.held .background,s.held .realtime)) =
        some (some [("a","live_query")],some [("a","manual_history")]) := by
    decide
  rw [hs] at hheld
  obtain ⟨hback,hreal⟩ := Prod.mk.inj (Option.some.inj hheld)
  have hb : s.Holds .background "a" "live_query" := ⟨_,hback,by simp⟩
  have hr : s.Holds .realtime "a" "manual_history" := ⟨_,hreal,by simp⟩
  refine ⟨s,(System.run_play hs).mono fun _ _ _ h => h.1,hb,hr,fun h => ?_⟩
  exact absurd (h.oneHolder "a" _ _ _ _ hb hr) (by decide)

end Queue
end WormholeObservatory
