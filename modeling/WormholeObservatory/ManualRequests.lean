import WormholeObservatory.QueueWorkers

/-! What becomes of a manual request once `queue_domains_for_review` has counted it
as accepted. A request lives on its row: priority 100, the realtime pool and a
source that starts with `manual_`. -/
namespace WormholeObservatory
namespace Queue

open Transition Lease

/-- The row of a manual request. -/
def StagingRow.Carries (row : StagingRow) : Prop :=
  100 ≤ row.priority ∧ row.poolId = .realtime ∧ startsWith row.source "manual_" = true

/-- Rows that agree on what enqueues decide. -/
def StagingRow.SameTicket (row row' : StagingRow) : Prop :=
  row'.priority = row.priority ∧ row'.poolId = row.poolId ∧ row'.source = row.source

theorem StagingRow.Carries.of_sameTicket {row row' : StagingRow} (h : row.Carries)
    (hsame : row.SameTicket row') : row'.Carries := by
  obtain ⟨hpriority,hpool,hsource⟩ := hsame
  rw [StagingRow.Carries,hpriority,hpool,hsource]
  exact h

/-- The domain keeps a row with its manual request. -/
def Kept (d : String) (s : System) : Prop :=
  ∃ row, s.db.staging.lookup d = some row ∧ row.Carries

section Stage

variable {r : Request}

/-- A manual request makes a row carry it, unless a worker holds the row or a higher
priority stands in its way. -/
theorem Request.stage_manual (hpriority : r.priority = 100) (hpool : r.pool = .realtime)
    (hsource : startsWith r.source "manual_" = true) (row : Option StagingRow)
    (hheld : ∀ x, row = some x → x.state = .processing → x.Carries)
    (hhigh : ∀ x, row = some x → x.Carries ∨ x.priority ≤ 100) : (r.stage row).2.Carries := by
  have hne : r.source ≠ "" := by
    rintro hempty
    rw [hempty] at hsource
    revert hsource
    decide
  cases row with
  | none => exact ⟨hpriority.ge,hpool,hsource⟩
  | some x =>
    simp only [Request.stage]
    split
    · rename_i hstate
      exact hheld x rfl hstate
    · split
      · refine ⟨le_max_of_le_right hpriority.ge,?_,?_⟩
        · simp only [hpool]
          rcases hhigh x rfl with hcarries | hlow
          · simp [hcarries.2.1]
          · simp [hpriority,hlow]
        · simp only [hne,ne_eq,not_false_eq_true,and_true]
          split
          · exact hsource
          · rename_i hhigher
            rcases hhigh x rfl with hcarries | hlow
            · exact hcarries.2.2
            · exact absurd (hpriority ▸ hlow) hhigher
      · split
        · refine ⟨le_max_of_le_right hpriority.ge,hpool,?_⟩
          simpa [hne] using hsource
        · rename_i hprocessing hqueued hother
          cases hx : x.state with
          | queued => exact absurd hx hqueued
          | processing => exact absurd hx hprocessing
          | failed => exact absurd (.inl hx) hother

theorem Request.Staged.carries_manual (hpriority : r.priority = 100) (hpool : r.pool = .realtime)
    (hsource : startsWith r.source "manual_" = true) {row row' : Option StagingRow}
    (h : r.Staged row row') (hheld : ∀ x, row = some x → x.state = .processing → x.Carries)
    (hhigh : ∀ x, row = some x → x.Carries ∨ x.priority ≤ 100) :
    ∃ x, row' = some x ∧ x.Carries := by
  induction h with
  | single heq => exact ⟨_,heq,r.stage_manual hpriority hpool hsource row hheld hhigh⟩
  | tail _ heq ih =>
    obtain ⟨x,hx,hcarries⟩ := ih
    refine ⟨_,heq,r.stage_manual hpriority hpool hsource _ ?_ ?_⟩
    · rintro y hy -
      obtain rfl : x = y := Option.some.inj (hx.symm.trans hy)
      exact hcarries
    · intro y hy
      obtain rfl : x = y := Option.some.inj (hx.symm.trans hy)
      exact .inl hcarries

/-- An automatic enqueue cannot demote a request whose row has not failed. -/
theorem Request.Staged.carries_automatic (hpriority : r.priority < 100) {x : StagingRow}
    {row' : Option StagingRow} (h : r.Staged (some x) row') (hcarries : x.Carries)
    (hstate : x.state ≠ .failed) : ∃ y, row' = some y ∧ y.Carries := by
  have hkeep : ∃ y, row' = some y ∧ y.Carries ∧ y.state ≠ .failed := by
    refine h.rule (fun row => ∃ y, row = some y ∧ y.Carries ∧ y.state ≠ .failed) ?_
      ⟨x,rfl,hcarries,hstate⟩
    rintro _ ⟨y,rfl,hy,hy'⟩
    refine ⟨_,rfl,?_⟩
    have hlow : ¬ r.priority ≥ y.priority := by
      have := hy.1
      omega
    cases hcase : y.state with
    | processing =>
      rw [r.stage_processing hcase,hcase]
      exact ⟨hy,by decide⟩
    | queued =>
      simp only [Request.stage,hcase,reduceCtorEq,if_false,if_true,hlow,false_and]
      exact ⟨⟨le_max_of_le_left hy.1,hy.2⟩,by simp⟩
    | failed => exact absurd hcase hy'
  obtain ⟨y,hy,hcarries,-⟩ := hkeep
  exact ⟨y,hy,hcarries⟩

theorem Request.Staged.priority_le {n : ℤ} (hpriority : r.priority ≤ n)
    {row row' : Option StagingRow} (h : r.Staged row row')
    (hrow : ∀ x, row = some x → x.priority ≤ n) : ∀ x, row' = some x → x.priority ≤ n := by
  refine h.rule (fun row => ∀ x, row = some x → x.priority ≤ n) ?_ hrow
  rintro row hrow x hx
  obtain rfl := Option.some.inj hx
  cases row with
  | none => exact hpriority
  | some y =>
    have hy := hrow y rfl
    simp only [Request.stage]
    split
    · exact hy
    · split
      · exact max_le hy hpriority
      · split
        · exact max_le hy hpriority
        · exact hy

end Stage

section System

variable [CaseTables]

/-- How a step of the system moves the row of a domain, as far as its ticket goes. -/
inductive TicketMove (s : System) (c : Context) (d : String) :
    Act → Option StagingRow → Option StagingRow → Prop
  | none {act} : TicketMove s c d act none none
  | same {act row row'} : row.SameTicket row' → TicketMove s c d act (some row) (some row')
  | acked {pool domain row} : normalizeDomain domain = d →
      TicketMove s c d (.release pool domain .ack) row none
  | staged {act op r row row'} : act.op = some op → op.request c = some r →
      d ∈ op.staged c s.db → r.Staged row row' → TicketMove s c d act row row'

theorem TicketMove.refl {s : System} {c : Context} {d : String} {act : Act}
    (row : Option StagingRow) : TicketMove s c d act row row := by
  cases row with
  | none => exact .none
  | some row => exact .same ⟨rfl,rfl,rfl⟩

theorem TicketMove.map {s : System} {c : Context} {d : String} {act : Act}
    (row : Option StagingRow) {f : StagingRow → StagingRow} (hf : ∀ x : StagingRow, x.SameTicket (f x)) :
    TicketMove s c d act row (row.map f) := by
  cases row with
  | none => exact .none
  | some row => exact .same (hf row)

theorem move_ticket {s t : System} {c : Context} {act : Act} (h : s.Move c act t) (d : String) :
    TicketMove s c d act (s.db.staging.lookup d) (t.db.staging.lookup d) := by
  cases h with
  | start =>
    rw [lookup_stagingRequeueProcessing]
    refine .map _ fun x => ?_
    split <;> exact ⟨rfl,rfl,rfl⟩
  | crash => exact .refl _
  | @claim pool limit items db _ hclaim =>
    have hlookup := lookup_stagingClaimItems c.now limit (some pool) s.db d
    simp only [hclaim] at hlookup
    rw [hlookup]
    refine .map _ fun x => ?_
    split <;> exact ⟨rfl,rfl,rfl⟩
  | @release pool domain how items _ _ =>
    cases how with
    | ack =>
      simp only [Release.exec,lookup_stagingAck]
      split
      · rename_i hd
        exact .acked hd.symm
      · exact .refl _
    | fail error maxAttempts =>
      simp only [Release.exec,lookup_stagingFail]
      split
      · exact .map _ fun x => ⟨rfl,rfl,rfl⟩
      · exact .refl _
    | defer error retryAt =>
      simp only [Release.exec,lookup_stagingDefer]
      split
      · exact .map _ fun x => ⟨rfl,rfl,rfl⟩
      · exact .refl _
  | @call _ op hop =>
    cases hr : op.request c with
    | some r =>
      rcases (exec_request hr s.db).2 d with hsame | ⟨hmem,-,hstaged⟩
      · simp only [hsame]
        exact .refl _
      · exact .staged hop hr hmem hstaged
    | none =>
      cases act with
      | other domains classifications =>
        obtain rfl := Option.some.inj hop
        exact .refl _
      | scan | recheck | audit | request =>
        obtain rfl := Option.some.inj hop
        cases hr
      | _ => cases hop

theorem act_priority {c : Context} {act : Act} {op : Op} {r : Request} (hop : act.op = some op)
    (hr : op.request c = some r) :
    r.priority < 100 ∨ ∃ values source, act = .request values source ∧
      r = c.request 100 source "realtime" true := by
  cases act with
  | request values source =>
    obtain rfl := Option.some.inj hop
    exact .inr ⟨values,source,rfl,(Option.some.inj hr).symm⟩
  | other domains classifications =>
    obtain rfl := Option.some.inj hop
    cases hr
  | scan | recheck | audit =>
    obtain rfl := Option.some.inj hop
    obtain rfl := Option.some.inj hr
    exact .inl (by simp [Context.request])
  | _ => cases hop

/-- No row of a reachable queue has a priority above 100. -/
theorem priority_le_hundred {labels : List (Context × Act)} {s : System}
    (h : Run System.Step System.initial labels s) (d : String) :
    ∀ x, s.db.staging.lookup d = some x → x.priority ≤ 100 := by
  refine h.invariant (fun s => ∀ x, s.db.staging.lookup d = some x → x.priority ≤ 100) ?_ ?_
  · rintro s ⟨c,act⟩ t hs hstep
    have hmove := move_ticket (next_move hstep) d
    generalize t.db.staging.lookup d = after at hmove
    generalize s.db.staging.lookup d = before at hmove hs
    cases hmove with
    | none => exact hs
    | same hsame =>
      rintro x hx
      obtain rfl := Option.some.inj hx
      exact hsame.1 ▸ hs _ rfl
    | acked => simp
    | staged hop hr _ hstaged =>
      refine hstaged.priority_le ?_ hs
      rcases act_priority hop hr with hlow | ⟨values,source,-,rfl⟩
      · exact hlow.le
      · exact le_refl (100 : ℤ)
  · intro x hx
    cases hx

/-! Acceptance. -/

/-- The domains a review request counts as accepted, one entry for each count. -/
def acceptedForReview (c : Context) (values : List String) (source : String) (db : Database) :
    List String :=
  match (c.request 100 source "realtime" true).enqueueAll (c.admitted values) db with
  | .error _ => []
  | .ok (outcomes,_) => (outcomes.filter (·.2 ≠ .skippedLocked)).map Prod.fst

theorem accepted_eq_length {c : Context} {values : List String} {source : String}
    {db db' : Database} {result : EnqueueResult}
    (h : queueDomainsForReview c values source db = .ok (result,db')) :
    result.accepted = (acceptedForReview c values source db).length := by
  simp only [queueDomainsForReview,stagingEnqueueDetailed] at h
  simp only [acceptedForReview]
  cases hall : (c.request 100 source "realtime" true).enqueueAll (c.admitted values) db with
  | error e => simp [hall] at h
  | ok pair =>
    obtain ⟨outcomes,last⟩ := pair
    simp only [hall,Except.ok.injEq,Prod.mk.injEq] at h
    obtain ⟨rfl,-⟩ := h
    simp only [EnqueueResult.accepted,List.length_map]
    clear hall
    induction outcomes with
    | nil => rfl
    | cons o outcomes ih =>
      obtain ⟨d,o⟩ := o
      cases o <;> simp at ih ⊢ <;> omega

/-- Every domain that is not skipped was staged at least once. -/
theorem enqueueAll_staged {r : Request} {values : List String} {db db' : Database}
    {outcomes : List (String × Outcome)} (h : r.enqueueAll values db = .ok (outcomes,db'))
    {d : String} {o : Outcome} (hmem : (d,o) ∈ outcomes) (ho : o ≠ .skippedLocked) :
    r.Staged (db.staging.lookup d) (db'.staging.lookup d) := by
  induction values generalizing db outcomes with
  | nil =>
    simp only [Request.enqueueAll,Except.ok.injEq,Prod.mk.injEq] at h
    obtain ⟨rfl,-⟩ := h
    cases hmem
  | cons value values ih =>
    obtain ⟨key,o',mid,rest,hone,hall,rfl⟩ := enqueueAll_cons h
    rcases List.mem_cons.mp hmem with heq | hrest
    · -- the turn that reports this outcome staged the row itself
      obtain ⟨rfl,rfl⟩ := Prod.mk.inj heq
      obtain ⟨-,-,⟨-,hskipped,-⟩ | ⟨-,-,hinsert⟩⟩ := enqueueOne_ok hone
      · exact absurd hskipped ho
      · have hstaged : r.Staged (db.staging.lookup d) (mid.staging.lookup d) :=
          .single (by rw [hinsert,AList.lookup_insert])
        rcases (enqueueAll_ok hall).2 d with hsame | ⟨-,-,hlater⟩
        · rwa [hsame]
        · exact hstaged.trans hlater
    · have hlater := ih hall hrest
      rcases enqueueOne_staging hone d with hsame | ⟨-,-,hstaged⟩
      · rwa [hsame] at hlater
      · exact hstaged.trans hlater

theorem parsePool_realtime : parsePool "realtime" = some .realtime := by
  have hstrip : strip "realtime" = "realtime" := by decide
  have hascii : ("realtime".toList.all fun c => decide (c.toNat < 128)) = true := by
    decide
  have hlower : CaseTables.lower "realtime" = "realtime" := by
    rw [CaseTables.lower_ascii _ fun c hc => of_decide_eq_true (List.all_eq_true.mp hascii c hc)]
    decide
  simp [parsePool,hstrip,hlower]

theorem request_manual {c : Context} {source : String}
    (hsource : startsWith source "manual_" = true) :
    (c.request 100 source "realtime" true).priority = 100 ∧
      (c.request 100 source "realtime" true).pool = .realtime ∧
      startsWith (c.request 100 source "realtime" true).source "manual_" = true := by
  refine ⟨rfl,?_,startsWith_strip hsource ⟨'m',_,rfl,by decide⟩
    ⟨['m','a','n','u','a','l'],'_',by decide,by decide⟩⟩
  simp [Context.request,queuePoolId,parsePool_realtime]

/-! The life of an accepted request. -/

/-- When a request is made, nobody works on the domain except on behalf of a manual
request. -/
structure Heard (d : String) (s : System) : Prop where
  row : ∀ x, s.db.staging.lookup d = some x → x.state = .processing → x.Carries
  holders : ∀ pool source, s.Holds pool d source → startsWith source "manual_" = true

/-- The steps a request has to survive: all but the release that follows a handled
classification of it; later review requests come from the same callers. -/
structure Survives (d : String) (s : System) (l : Context × Act) : Prop where
  handled : ∀ pool source, l.2 = .release pool d .ack → s.Holds pool d source →
    startsWith source "manual_" = false
  requests : ∀ values source, l.2 = .request values source → startsWith source "manual_" = true

/-- No automatic enqueue names the domain while its row is failed, and no worker
acknowledges another name that normalises to it. -/
structure Undisturbed (d : String) (s : System) (l : Context × Act) : Prop where
  failed : ∀ x, d ∈ l.2.staged l.1 s → s.db.staging.lookup d = some x → x.state = .failed →
    ∃ values source, l.2 = .request values source
  otherAck : ∀ pool domain, l.2 = .release pool domain .ack → domain ≠ d → normalizeDomain domain ≠ d

def requestStep (d : String) (s : System) (l : Context × Act) (t : System) : Prop :=
  s.Step l t ∧ Survives d s l ∧ Undisturbed d s l

/-- The request is on its row, and whoever holds the row knows of it. -/
structure Remembered (d : String) (s : System) : Prop where
  kept : Kept d s
  holders : ∀ pool source, s.Holds pool d source → startsWith source "manual_" = true

/-- Nobody comes to hold a domain but by a claim of its row. -/
theorem move_holds {s t : System} {c : Context} {act : Act} (h : s.Move c act t) {pool : Pool}
    {d source : String} (hholds : t.Holds pool d source) :
    s.Holds pool d source ∨ ∃ row, s.db.staging.lookup d = some row ∧ source = row.source := by
  obtain ⟨items,hitems,hmem⟩ := hholds
  cases h with
  | @start p =>
    by_cases hp : pool = p
    · subst hp
      simp only [Function.update_self,Option.some.injEq] at hitems
      subst hitems
      cases hmem
    · exact .inl ⟨items,by simpa [Function.update_of_ne hp] using hitems,hmem⟩
  | @crash p =>
    by_cases hp : pool = p
    · subst hp
      simp at hitems
    · exact .inl ⟨items,by simpa [Function.update_of_ne hp] using hitems,hmem⟩
  | @claim p limit claimed db _ hclaim =>
    by_cases hp : pool = p
    · subst hp
      simp only [Function.update_self,Option.some.injEq] at hitems
      subst hitems
      obtain ⟨item,hitem,heq⟩ := List.mem_map.mp hmem
      obtain ⟨rfl,rfl⟩ := Prod.mk.inj heq
      obtain ⟨row,hrow,-,hsource⟩ := mem_claimedItems (by rw [hclaim]; exact hitem)
      exact .inr ⟨row,hrow,hsource⟩
    · exact .inl ⟨items,by simpa [Function.update_of_ne hp] using hitems,hmem⟩
  | @release p domain how held hheld _ =>
    by_cases hp : pool = p
    · subst hp
      simp only [Function.update_self,Option.some.injEq] at hitems
      subst hitems
      exact .inl ⟨held,hheld,(List.mem_filter.mp hmem).1⟩
    · exact .inl ⟨items,by simpa [Function.update_of_ne hp] using hitems,hmem⟩
  | call => exact .inl ⟨items,hitems,hmem⟩

theorem requestStep_remembered {d : String} {s t : System} {l : Context × Act}
    (h : Remembered d s) (hstep : requestStep d s l t) : Remembered d t := by
  obtain ⟨c,act⟩ := l
  obtain ⟨hnext,hsurvives,hcond⟩ := hstep
  have hmove := next_move hnext
  obtain ⟨row,hrow,hcarries⟩ := h.kept
  have hticket := move_ticket hmove d
  rw [hrow] at hticket
  generalize hafter : t.db.staging.lookup d = after at hticket
  refine ⟨?_,fun pool source hholds => ?_⟩
  · cases hticket with
    | same hsame => exact ⟨_,hafter,hcarries.of_sameTicket hsame⟩
    | @acked pool domain _ hdomain =>
      by_cases hd : domain = d
      · -- the holder's source is a manual one, so this is the release that ends the request
        subst hd
        cases hmove with
        | release hheld hmem =>
          obtain ⟨⟨e,source⟩,hitem,rfl⟩ := List.mem_map.mp hmem
          have hholds : s.Holds pool e source := ⟨_,hheld,hitem⟩
          exact absurd (h.holders pool source hholds)
            (by simp [hsurvives.handled pool source rfl hholds])
        | call hop => cases hop
      · exact absurd hdomain (hcond.otherAck pool domain rfl hd)
    | @staged _ op r _ _ hop hr hmem hstaged =>
      have hstagedAct : d ∈ Act.staged c s act := by simpa only [Act.staged,hop] using hmem
      rcases act_priority hop hr with hlow | ⟨values,source,rfl,rfl⟩
      · have hstate : row.state ≠ .failed := by
          intro hfailed
          obtain ⟨values,source,hact⟩ := hcond.failed row hstagedAct hrow hfailed
          simp only at hact
          subst hact
          obtain rfl := Option.some.inj hop
          obtain rfl := Option.some.inj hr
          exact absurd hlow (by simp [Context.request])
        obtain ⟨x,hx,hcarries'⟩ := hstaged.carries_automatic hlow hcarries hstate
        exact ⟨x,hafter.trans hx,hcarries'⟩
      · obtain ⟨hpriority,hpool,hmanual⟩ :=
          request_manual (c := c) (hsurvives.requests values source rfl)
        have hown : ∀ x, some row = some x → x.Carries := by
          rintro x hx
          exact Option.some.inj hx ▸ hcarries
        obtain ⟨x,hx,hcarries'⟩ := hstaged.carries_manual hpriority hpool hmanual
          (fun x hx _ => hown x hx) (fun x hx => .inl (hown x hx))
        exact ⟨x,hafter.trans hx,hcarries'⟩
  · rcases move_holds hmove hholds with hbefore | ⟨row',hrow',rfl⟩
    · exact h.holders pool source hbefore
    · obtain rfl : row = row' := Option.some.inj (hrow.symm.trans hrow')
      exact hcarries.2.2

theorem request_remembered {s t : System} {c : Context} {values : List String} {source d : String}
    (hsource : startsWith source "manual_" = true)
    (hstep : s.Step (c,.request values source) t)
    (haccepted : d ∈ acceptedForReview c values source s.db) (hheard : Heard d s)
    (hhigh : ∀ x, s.db.staging.lookup d = some x → x.priority ≤ 100) : Remembered d t := by
  obtain rfl : { s with db := (Op.review values source).exec c s.db } = t :=
    Option.some.inj hstep
  refine ⟨?_,hheard.holders⟩
  simp only [acceptedForReview] at haccepted
  cases hall : (c.request 100 source "realtime" true).enqueueAll (c.admitted values) s.db with
  | error e => simp [hall] at haccepted
  | ok pair =>
    obtain ⟨outcomes,last⟩ := pair
    simp only [hall] at haccepted
    obtain ⟨⟨d,o⟩,hmem,rfl⟩ := List.mem_map.mp haccepted
    obtain ⟨hmem,ho⟩ := List.mem_filter.mp hmem
    have hstaged := enqueueAll_staged hall hmem (by simpa using ho)
    obtain ⟨hpriority,hpool,hmanual⟩ := request_manual (c := c) hsource
    obtain ⟨x,hx,hcarries⟩ := hstaged.carries_manual hpriority hpool hmanual hheard.row
      fun x hx => .inr (hhigh x hx)
    refine ⟨x,?_,hcarries⟩
    simp only [Op.exec,queueDomainsForReview,stagingEnqueueDetailed,hall,commit]
    exact hx

/-- An accepted manual request keeps its row, its priority, its pool and its source until
it is handled, provided it was heard and the run leaves it undisturbed. -/
theorem manual_request_kept {before after : List (Context × Act)} {s₀ s₁ s : System} {c : Context}
    {values : List String} {source d : String}
    (hreach : Run System.Step System.initial before s₀)
    (hsource : startsWith source "manual_" = true)
    (hrequest : s₀.Step (c,.request values source) s₁)
    (haccepted : d ∈ acceptedForReview c values source s₀.db) (hheard : Heard d s₀)
    (hrun : Run (requestStep d) s₁ after s) : Kept d s := by
  have hfirst : Remembered d s₁ :=
    request_remembered hsource hrequest haccepted hheard (priority_le_hundred hreach d)
  exact (hrun.invariant (Remembered d) (fun _ _ _ hs hst => requestStep_remembered hs hst)
    hfirst).kept

/-! Schedules that can be run. -/

def requestCheck (d : String) (s : System) (l : Context × Act) : Bool :=
  match l.2 with
  | .release _ domain .ack => normalizeDomain domain ≠ d && domain ≠ d
  | .request _ source => startsWith source "manual_"
  | act => decide (d ∉ act.staged l.1 s) ||
      (s.db.staging.lookup d).all fun row => decide (row.state ≠ .failed)

theorem requestStep_of_check {d : String} {s t : System} {l : Context × Act}
    (hstep : s.Step l t) (hcheck : requestCheck d s l = true) : requestStep d s l t := by
  obtain ⟨c,act⟩ := l
  refine ⟨hstep,⟨?_,?_⟩,⟨?_,?_⟩⟩
  · rintro pool source rfl
    simp [requestCheck] at hcheck
  · rintro values source rfl
    exact hcheck
  · intro x hmem hx hfailed
    cases act with
    | request values source => exact ⟨values,source,rfl⟩
    | scan | recheck | audit | other =>
      simp only [requestCheck,hx,Option.all_some,Bool.or_eq_true,decide_eq_true_eq] at hcheck
      rcases hcheck with hnot | hstate
      · exact absurd hmem hnot
      · exact absurd hfailed hstate
    | _ => cases hmem
  · rintro pool domain rfl -
    simp only [requestCheck,Bool.and_eq_true,decide_eq_true_eq] at hcheck
    exact hcheck.1

end System

def heardCheck (d : String) (s : System) : Bool :=
  (s.db.staging.lookup d).all (fun row => decide (row.state ≠ .processing)) &&
    [Pool.realtime,.background].all fun pool => (s.held pool).all fun items =>
      d ∉ items.map Prod.fst

theorem heard_of_check {d : String} {s : System} (h : heardCheck d s = true) : Heard d s := by
  simp only [heardCheck,Bool.and_eq_true] at h
  obtain ⟨hrow,hheld⟩ := h
  refine ⟨fun x hx hstate => ?_,?_⟩
  · simp [hx,hstate] at hrow
  · rintro pool source ⟨items,hitems,hmem⟩
    have hpool := List.all_eq_true.mp hheld pool (by cases pool <;> simp)
    simp only [hitems,Option.all_some,decide_eq_true_eq] at hpool
    exact absurd (List.mem_map_of_mem hmem) hpool

/-- After the request: a realtime claim that fails, a second scan and a second claim. -/
def retrySchedule : List (Context × Act) :=
  [(⟨12,[]⟩,.start .realtime),(⟨13,[]⟩,.claim .realtime 5),
    (⟨14,[]⟩,.release .realtime "a.com" (.fail "timeout" 3)),(⟨15,[]⟩,.scan ["a.com"]),
    (⟨16,[]⟩,.claim .realtime 5)]

/-- Before the request: the scanner has queued the domain. -/
def scannedSystem : System :=
  { System.initial with db := (Op.needingAnalysis ["a.com"] false).exec ⟨10,[]⟩ Database.empty }

def requestedSystem : System :=
  { scannedSystem with db := (Op.review ["A.com"] "manual_history").exec ⟨11,[]⟩ scannedSystem.db }

theorem manual_request_kept_sample :
    ∃ s, requestedSystem.play (requestCheck "a.com") retrySchedule = some s ∧ Kept "a.com" s := by
  obtain ⟨s,hs⟩ := Option.isSome_iff_exists.mp (show (requestedSystem.play (requestCheck "a.com")
    retrySchedule).isSome = true by decide +kernel)
  have hrun : Run (requestStep "a.com") requestedSystem retrySchedule s :=
    (System.run_play hs).mono fun _ _ _ h => requestStep_of_check h.1 h.2
  have hscan : System.initial.Step (⟨10,[]⟩,.scan ["a.com"]) scannedSystem := rfl
  have hrequest : scannedSystem.Step (⟨11,[]⟩,.request ["A.com"] "manual_history")
      requestedSystem := rfl
  exact ⟨s,hs,manual_request_kept (.single hscan) (by decide +kernel) hrequest (by decide +kernel)
    (heard_of_check (by decide)) hrun⟩

/-- A request for a domain that the background worker is working on. -/
def unheardSchedule : List (Context × Act) :=
  [(⟨10,[]⟩,.scan ["a.com"]),(⟨11,[]⟩,.start .background),(⟨12,[]⟩,.claim .background 5)]

/-- It is counted as accepted, and leaves no trace on the row. -/
theorem unheard_request_lost : ∃ s₀ s₁, Run System.Step System.initial unheardSchedule s₀ ∧
    s₀.Step (⟨13,[]⟩,.request ["a.com"] "manual_history") s₁ ∧
      "a.com" ∈ acceptedForReview ⟨13,[]⟩ ["a.com"] "manual_history" s₀.db ∧
      ¬ Kept "a.com" s₁ := by
  let check : System → Context × Act → Bool := fun _ _ => true
  obtain ⟨s₀,hs₀⟩ := Option.isSome_iff_exists.mp
    (show (System.initial.play check unheardSchedule).isSome = true by decide)
  have haccepted : (System.initial.play check unheardSchedule).map (fun s =>
      acceptedForReview ⟨13,[]⟩ ["a.com"] "manual_history" s.db) = some ["a.com"] := by
    decide
  have hsource : (System.initial.play check unheardSchedule).map (fun s =>
      (((Op.review ["a.com"] "manual_history").exec ⟨13,[]⟩ s.db).staging.lookup "a.com").map
        StagingRow.source) = some (some "live_query") := by
    decide
  rw [hs₀] at haccepted hsource
  have hlist := Option.some.inj haccepted
  refine ⟨s₀,_,(System.run_play hs₀).mono fun _ _ _ h => h.1,rfl,by simp [hlist],?_⟩
  rintro ⟨row,hrow,-,-,hmanual⟩
  have hrow' := Option.some.inj hsource
  simp only at hrow hrow'
  rw [hrow] at hrow'
  obtain hlive : row.source = "live_query" := Option.some.inj hrow'
  rw [hlive] at hmanual
  revert hmanual
  decide

end Queue
end WormholeObservatory
