import WormholeObservatory.WorkerCycle

/-! When a domain is due for another analysis. A primary run moves the recheck date of the
domain, a comparison leaves it and counts by its own expiry; the two automatic enqueues look
at these dates in different ways. -/
namespace WormholeObservatory
namespace Queue

open Transition

/-! The dates of a domain. -/

def recheckAt (db : Database) (d : String) : Option ℤ :=
  (db.domains.lookup d).bind DomainRow.nextRecheckAt

def classifiedAt (db : Database) (d : String) : Option ℤ :=
  (db.domains.lookup d).bind DomainRow.lastClassifiedAt

/-- Nothing happened to the dates and the runs. -/
structure SameDates (db db' : Database) : Prop where
  recheck : ∀ d, recheckAt db' d = recheckAt db d
  classified : ∀ d, classifiedAt db' d = classifiedAt db d
  rows : ∀ d, (db.domains.lookup d).isSome → (db'.domains.lookup d).isSome
  runs : db'.classifications = db.classifications

theorem SameDates.refl (db : Database) : SameDates db db :=
  ⟨fun _ => rfl,fun _ => rfl,fun _ h => h,rfl⟩

theorem SameDates.trans {db₁ db₂ db₃ : Database} (h₁ : SameDates db₁ db₂) (h₂ : SameDates db₂ db₃) :
    SameDates db₁ db₃ :=
  ⟨fun d => (h₂.recheck d).trans (h₁.recheck d),fun d => (h₂.classified d).trans (h₁.classified d),
    fun d h => h₂.rows d (h₁.rows d h),h₂.runs.trans h₁.runs⟩

theorem SameDates.of_eq {db db' : Database} (hdomains : db'.domains = db.domains)
    (hruns : db'.classifications = db.classifications) : SameDates db db' := by
  refine ⟨fun d => ?_,fun d => ?_,fun d h => ?_,hruns⟩
  · rw [recheckAt,recheckAt,hdomains]
  · rw [classifiedAt,classifiedAt,hdomains]
  · rwa [hdomains]

section Calls

variable [CaseTables] {db db' : Database}

/-- `_ensure_domain` only looks after when a domain was seen. -/
theorem ensureDomain_dates {seenAt : ℤ} {value key : String}
    (h : ensureDomain seenAt value db = .ok (key,db')) : SameDates db db' := by
  simp only [ensureDomain] at h
  split at h
  · cases h
  · obtain ⟨-,rfl⟩ := Prod.mk.inj (Except.ok.inj h)
    have hkept : ∀ d (f : DomainRow → Option ℤ) row,
        f row = (db.domains.lookup (normalizeDomain value)).bind f →
        ((db.domains.insert (normalizeDomain value) row).lookup d).bind f =
          (db.domains.lookup d).bind f := by
      intro d f row hrow
      by_cases hd : d = normalizeDomain value
      · subst hd
        rw [AList.lookup_insert]
        exact hrow
      · rw [AList.lookup_insert_ne hd]
    refine ⟨fun d => hkept d _ _ ?_,fun d => hkept d _ _ ?_,fun d hd => ?_,rfl⟩
    · cases db.domains.lookup (normalizeDomain value) <;> rfl
    · cases db.domains.lookup (normalizeDomain value) <;> rfl
    · by_cases hkey : d = normalizeDomain value
      · rw [hkey,AList.lookup_insert]
        rfl
      · rwa [AList.lookup_insert_ne hkey]

theorem enqueueAll_dates {r : Request} {values : List String} {outcomes : List (String × Outcome)}
    (h : r.enqueueAll values db = .ok (outcomes,db')) : SameDates db db' := by
  induction values generalizing db outcomes with
  | nil =>
    obtain ⟨-,rfl⟩ := Prod.mk.inj (Except.ok.inj h)
    exact SameDates.refl db
  | cons value values ih =>
    obtain ⟨key,o,mid,rest,hone,hall,-⟩ := enqueueAll_cons h
    refine SameDates.trans ?_ (ih hall)
    simp only [Request.enqueueOne] at hone
    cases hensure : ensureDomain r.now value db with
    | error e => simp [hensure] at hone
    | ok pair =>
      obtain ⟨domain,mid'⟩ := pair
      have hdates := ensureDomain_dates hensure
      simp only [hensure] at hone
      cases hlock : mid'.locks.lookup domain with
      | some row =>
        simp only [hlock,Except.ok.injEq,Prod.mk.injEq] at hone
        obtain ⟨-,rfl⟩ := hone
        exact hdates
      | none =>
        simp only [hlock,Except.ok.injEq,Prod.mk.injEq] at hone
        obtain ⟨-,rfl⟩ := hone
        exact hdates.trans (SameDates.of_eq rfl rfl)

theorem stagingEnqueueDetailed_dates (c : Context) (values : List String) (priority : ℤ)
    (source poolId : String) (requeueExisting : Bool) (db : Database) :
    SameDates db (commit db (stagingEnqueueDetailed c values priority source poolId requeueExisting db)) := by
  simp only [stagingEnqueueDetailed]
  cases hall : (c.request priority source poolId requeueExisting).enqueueAll (c.admitted values) db with
  | error e => exact SameDates.refl db
  | ok pair => exact enqueueAll_dates hall

theorem stagingEnqueue_dates (c : Context) (values : List String) (priority : ℤ)
    (source poolId : String) (db : Database) :
    SameDates db (commit db (stagingEnqueue c values priority source poolId db)) := by
  have h := stagingEnqueueDetailed_dates c values priority source poolId false db
  simp only [stagingEnqueue]
  cases hdetailed : stagingEnqueueDetailed c values priority source poolId false db with
  | error e => exact SameDates.refl db
  | ok pair =>
    rw [hdetailed] at h
    exact h

/-- What the first transaction of `queue_domains_needing_analysis` passes on, it found due. -/
theorem analysisCandidates_due {c : Context} {force : Bool} {values candidates : List String}
    (h : analysisCandidates c force values db = .ok (candidates,db')) :
    SameDates db db' ∧ ∀ d ∈ candidates, force = false →
      ∃ mid, SameDates db mid ∧ mid.locks = db.locks ∧ needsAnalysis c d mid = true := by
  induction values generalizing db db' candidates with
  | nil =>
    obtain ⟨rfl,rfl⟩ := Prod.mk.inj (Except.ok.inj h)
    exact ⟨SameDates.refl db,fun d hd => absurd hd List.not_mem_nil⟩
  | cons value values ih =>
    simp only [analysisCandidates] at h
    cases hensure : ensureDomain c.now value db with
    | error e => simp [hensure] at h
    | ok pair =>
      obtain ⟨domain,mid⟩ := pair
      have hdates := ensureDomain_dates hensure
      obtain ⟨-,-,-,hlocks⟩ := ensureDomain_ok hensure
      simp only [hensure] at h
      cases hrest : analysisCandidates c force values mid with
      | error e => simp [hrest] at h
      | ok pair =>
        obtain ⟨rest,last⟩ := pair
        obtain ⟨hlast,hdue⟩ := ih hrest
        simp only [hrest,Except.ok.injEq,Prod.mk.injEq] at h
        obtain ⟨rfl,rfl⟩ := h
        refine ⟨hdates.trans hlast,fun d hd hforce => ?_⟩
        have hlater : d ∈ rest → ∃ mid, SameDates db mid ∧ mid.locks = db.locks ∧
            needsAnalysis c d mid = true := by
          intro hmem
          obtain ⟨mid',hsame,hlocks',hneeds⟩ := hdue d hmem hforce
          exact ⟨mid',hdates.trans hsame,hlocks'.trans hlocks,hneeds⟩
        split at hd
        · rename_i hneeds
          rw [hforce,Bool.false_or] at hneeds
          rcases List.mem_cons.mp hd with rfl | hmem
          · exact ⟨mid,hdates,hlocks,hneeds⟩
          · exact hlater hmem
        · exact hlater hd

/-- The queue's own calls, without the stand-in for what others write. -/
def Op.own : Op → Bool
  | .other _ _ => false
  | _ => true

theorem exec_dates {op : Op} (hown : op.own = true) (c : Context) (db : Database) :
    SameDates db (op.exec c db) := by
  cases op with
  | enqueue values priority source poolId requeueExisting =>
    exact stagingEnqueueDetailed_dates _ _ _ _ _ _ _
  | review values source => exact stagingEnqueueDetailed_dates _ _ _ _ _ _ _
  | needingAnalysis values force =>
    simp only [Op.exec,queueDomainsNeedingAnalysis]
    cases hfirst : analysisCandidates c force values db with
    | error e => exact SameDates.refl db
    | ok pair => exact (analysisCandidates_due hfirst).1.trans (stagingEnqueue_dates _ _ _ _ _ _)
  | dueRechecks limit => exact stagingEnqueue_dates _ _ _ _ _ _
  | setLock domain listType reason =>
    simp only [Op.exec,setDomainLock]
    cases parseListType listType with
    | none => exact SameDates.refl db
    | some t =>
      cases hensure : ensureDomain c.now domain db with
      | error e => exact SameDates.refl db
      | ok pair => exact (ensureDomain_dates hensure).trans (SameDates.of_eq rfl rfl)
  | other domains classifications => cases hown
  | _ => exact SameDates.of_eq rfl rfl

/-! A domain that is not due. -/

/-- Neither date nor run calls for an analysis of `d` before `due`. -/
structure Fresh (d : String) (due : ℤ) (db : Database) : Prop where
  recheck : ∀ r, recheckAt db d = some r → due ≤ r
  known : (classifiedAt db d).isSome ∨ (db.domains.lookup d).isSome ∧
    ∃ run ∈ db.classifications, run.domain = d ∧ run.isPrimary = false ∧ due ≤ run.expiresAt

omit [CaseTables] in
theorem Fresh.same {d : String} {due : ℤ} (h : Fresh d due db) (hsame : SameDates db db') :
    Fresh d due db' := by
  refine ⟨fun r hr => h.recheck r (hsame.recheck d ▸ hr),?_⟩
  rw [hsame.classified,hsame.runs]
  exact h.known.imp id fun ⟨hrow,hrun⟩ => ⟨hsame.rows d hrow,hrun⟩

omit [CaseTables] in
theorem Fresh.not_needed {d : String} {due : ℤ} {c : Context} (h : Fresh d due db)
    (hearly : c.now < due) : needsAnalysis c d db = false := by
  simp only [needsAnalysis]
  split
  · rfl
  · rename_i hrow
    -- without a row the domain was never saved
    rcases h.known with hknown | ⟨hknown,-⟩
    · simp [classifiedAt,hrow] at hknown
    · simp [hrow] at hknown
  · rename_i row _ hrow
    have hlate : row.nextRecheckAt.any (· ≤ c.now) = false := by
      cases hrecheck : row.nextRecheckAt with
      | none => rfl
      | some r =>
        have hdue := h.recheck r (by simp [recheckAt,hrow,hrecheck])
        have hnot : ¬r ≤ c.now := by omega
        simp [hnot]
    rcases h.known with hknown | ⟨-,run,hrun,hdomain,hsecondary,hexpires⟩
    · have hnone : row.lastClassifiedAt.isNone = false := by
        simp only [classifiedAt,hrow,Option.bind_some] at hknown
        cases hlast : row.lastClassifiedAt with
        | none => simp [hlast] at hknown
        | some t => rfl
      rw [hnone,hlate,Bool.or_self,Bool.and_false]
    · have hrecent : (db.classifications.any fun run =>
          run.domain = d && !run.isPrimary && decide (run.expiresAt > c.now)) = true := by
        refine List.any_eq_true.mpr ⟨run,hrun,?_⟩
        have hlater : run.expiresAt > c.now := by omega
        simp [hdomain,hsecondary,hlater]
      rw [hrecent,Bool.not_true,Bool.false_and]

omit [CaseTables] in
theorem Fresh.not_due {d : String} {due limit : ℤ} {c : Context} (h : Fresh d due db)
    (hearly : c.now < due) : d ∉ dueRechecks c limit db := by
  intro hmem
  obtain ⟨⟨d',row⟩,hrow,rfl⟩ := List.mem_map.mp hmem
  obtain ⟨hlookup,hdue⟩ := Table.mem_select.mp
    ((List.mem_insertionSort _).mp (List.mem_of_mem_take hrow))
  rw [Bool.and_eq_true] at hdue
  cases hrecheck : row.nextRecheckAt with
  | none => simp [hrecheck] at hdue
  | some r =>
    have hlate := h.recheck r (by simp [recheckAt,hlookup,hrecheck])
    have hpast : r ≤ c.now := by simpa [hrecheck] using hdue.1
    omega

/-- The enqueues nobody asked for. -/
def Op.automatic : Op → Bool
  | .needingAnalysis _ force => !force
  | .dueRechecks _ => true
  | _ => false

/-- No other name an enqueue passes on ends up as `d`. -/
def Op.Sole (d : String) (c : Context) (db : Database) (op : Op) : Prop :=
  ∀ k ∈ op.names c db, normalizeDomain (normalizeDomain k) = d → k = d

/-- Before it is due, a domain is left alone by the automatic enqueues. -/
theorem Fresh.not_staged {d : String} {due : ℤ} {c : Context} {op : Op} (h : Fresh d due db)
    (hautomatic : op.automatic = true) (hearly : c.now < due) (hsole : op.Sole d c db) :
    (op.exec c db).staging.lookup d = db.staging.lookup d := by
  have hnot : d ∉ op.staged c db := by
    intro hstaged
    obtain ⟨key,hkey,hd⟩ := List.mem_map.mp hstaged
    have hunique := List.mem_eraseDups.mp (List.mem_filter.mp hkey).1
    obtain ⟨k,hk,rfl⟩ := List.mem_map.mp (List.mem_filter.mp hunique).1
    obtain rfl := hsole k hk hd
    cases op with
    | needingAnalysis values force =>
      have hforce : force = false := by simpa [Op.automatic] using hautomatic
      simp only [Op.names] at hk
      cases hfirst : analysisCandidates c force values db with
      | error e => simp [hfirst] at hk
      | ok pair =>
        obtain ⟨candidates,last⟩ := pair
        simp only [hfirst] at hk
        obtain ⟨mid,hsame,-,hneeds⟩ := (analysisCandidates_due hfirst).2 k hk hforce
        rw [(h.same hsame).not_needed hearly] at hneeds
        cases hneeds
    | dueRechecks limit => exact h.not_due hearly hk
    | _ => cases hautomatic
  obtain ⟨r,hr⟩ : ∃ r, op.request c = some r := by
    cases op with
    | needingAnalysis values force => exact ⟨_,rfl⟩
    | dueRechecks limit => exact ⟨_,rfl⟩
    | _ => cases hautomatic
  rcases (exec_request hr db).2 d with hsame | ⟨hmem,-,-⟩
  · exact hsame
  · exact absurd hmem hnot

/-! Runs that are saved. -/

/-- `db'` is `db` with the runs `added`. A primary one moves the dates of its domain. -/
structure Saves (db db' : Database) (added : List ClassificationRow) : Prop where
  runs : db'.classifications = db.classifications++added
  rows : ∀ d, (db.domains.lookup d).isSome → (db'.domains.lookup d).isSome
  saved : ∀ run ∈ added, (db'.domains.lookup run.domain).isSome
  dates : ∀ d,
    (recheckAt db' d = recheckAt db d ∧ classifiedAt db' d = classifiedAt db d ∧
      ∀ run ∈ added, run.domain = d → run.isPrimary = false) ∨
    ∃ run ∈ added, run.domain = d ∧ run.isPrimary = true ∧ recheckAt db' d = some run.expiresAt ∧
      (classifiedAt db' d).isSome

omit [CaseTables] in
theorem SameDates.saves (h : SameDates db db') : Saves db db' [] where
  runs := by rw [h.runs,List.append_nil]
  rows := h.rows
  saved := fun _ hrun => absurd hrun List.not_mem_nil
  dates := fun d => .inl ⟨h.recheck d,h.classified d,fun _ hrun => absurd hrun List.not_mem_nil⟩

omit [CaseTables] in
theorem Saves.trans {db₁ db₂ db₃ : Database} {added added' : List ClassificationRow}
    (h₁ : Saves db₁ db₂ added) (h₂ : Saves db₂ db₃ added') : Saves db₁ db₃ (added++added') where
  runs := by rw [h₂.runs,h₁.runs,List.append_assoc]
  rows := fun d h => h₂.rows d (h₁.rows d h)
  saved := fun run hrun =>
    (List.mem_append.mp hrun).elim (fun h => h₂.rows _ (h₁.saved run h)) (h₂.saved run)
  dates := by
    intro d
    rcases h₂.dates d with ⟨hrecheck,hclassified,hsecondary⟩ | ⟨run,hrun,hdates⟩
    · rcases h₁.dates d with ⟨hrecheck',hclassified',hsecondary'⟩ | ⟨run,hrun,hdomain,hprimary,hdates⟩
      · refine .inl ⟨hrecheck.trans hrecheck',hclassified.trans hclassified',fun run hrun => ?_⟩
        exact (List.mem_append.mp hrun).elim (hsecondary' run) (hsecondary run)
      · refine .inr ⟨run,List.mem_append_left _ hrun,hdomain,hprimary,?_⟩
        rw [hrecheck,hclassified]
        exact hdates
    · exact .inr ⟨run,List.mem_append_right _ hrun,hdates⟩

omit [CaseTables] in
/-- Saving a run makes its domain fresh, if the recheck date is not in the way. -/
theorem Saves.fresh {added : List ClassificationRow} {d : String} {due : ℤ}
    (h : Saves db db' added) (hsaved : ∃ run ∈ added, run.domain = d)
    (hdue : ∀ run ∈ added, run.domain = d → due ≤ run.expiresAt)
    (hclear : (∃ run ∈ added, run.domain = d ∧ run.isPrimary = true) ∨
      ∀ r, recheckAt db d = some r → due ≤ r) : Fresh d due db' := by
  rcases h.dates d with ⟨hrecheck,hclassified,hsecondary⟩ | ⟨run,hrun,hdomain,-,hrecheck,hclassified⟩
  · have hold : ∀ r, recheckAt db d = some r → due ≤ r := by
      refine hclear.resolve_left ?_
      rintro ⟨run,hrun,hdomain,hprimary⟩
      rw [hsecondary run hrun hdomain] at hprimary
      cases hprimary
    obtain ⟨run,hrun,hdomain⟩ := hsaved
    refine ⟨fun r hr => hold r (hrecheck ▸ hr),.inr ⟨hdomain ▸ h.saved run hrun,run,?_,hdomain,
      hsecondary run hrun hdomain,hdue run hrun hdomain⟩⟩
    rw [h.runs]
    exact List.mem_append_right _ hrun
  · refine ⟨fun r hr => ?_,.inl hclassified⟩
    obtain rfl := Option.some.inj (hrecheck.symm.trans hr)
    exact hdue run hrun hdomain

omit [CaseTables] in
/-- Later runs keep it fresh, if the primary ones among them do not expire earlier. -/
theorem Fresh.saves {added : List ClassificationRow} {d : String} {due : ℤ} (h : Fresh d due db)
    (hsaves : Saves db db' added)
    (hlate : ∀ run ∈ added, run.domain = d → run.isPrimary = true → due ≤ run.expiresAt) :
    Fresh d due db' := by
  rcases hsaves.dates d with ⟨hrecheck,hclassified,-⟩ | ⟨run,hrun,hdomain,hprimary,hrecheck,hclassified⟩
  · refine ⟨fun r hr => h.recheck r (hrecheck ▸ hr),?_⟩
    rw [hclassified,hsaves.runs]
    refine h.known.imp id fun ⟨hrow,run,hrun,hrest⟩ => ⟨hsaves.rows d hrow,run,?_,hrest⟩
    exact List.mem_append_left _ hrun
  · refine ⟨fun r hr => ?_,.inl hclassified⟩
    obtain rfl := Option.some.inj (hrecheck.symm.trans hr)
    exact hlate run hrun hdomain hprimary

end Calls

end Queue

namespace Review

open Transition
open Queue (SameDates Saves Fresh recheckAt classifiedAt ClassificationRow)

section Saving

variable [CaseTables] {s : Store}

theorem ensured_dates {now : ℤ} {d key : String} {s' : Store} (h : ensured now d s = .ok (key,s')) :
    SameDates s.queue s'.queue ∧ (s'.queue.domains.lookup key).isSome := by
  simp only [ensured] at h
  cases hensure : Queue.ensureDomain now d s.queue with
  | error e => simp [hensure] at h
  | ok pair =>
    simp only [hensure] at h
    obtain ⟨rfl,rfl⟩ := Prod.mk.inj (Except.ok.inj h)
    refine ⟨Queue.ensureDomain_dates hensure,?_⟩
    simp only [Queue.ensureDomain] at hensure
    split at hensure
    · cases hensure
    · obtain ⟨hkey,hdb⟩ := Prod.mk.inj (Except.ok.inj hensure)
      change (pair.2.domains.lookup pair.1).isSome
      rw [← hdb,← hkey,AList.lookup_insert]
      rfl

/-- Some runs have been saved since `s`. -/
def SavesSome (s s' : Store) : Prop := ∃ added, Saves s.queue s'.queue added

omit [CaseTables] in
theorem SavesSome.same {s' s'' : Store} (h : SavesSome s s') (hsame : SameDates s'.queue s''.queue) :
    SavesSome s s'' := by
  obtain ⟨added,hsaves⟩ := h
  exact ⟨_,hsaves.trans hsame.saves⟩

theorem saveClassificationRun_saves (now : ℤ) (c : Classification)
    (status planned actionStatus : String) (current : Bool) :
    Keeping (SavesSome s)
      (saveClassificationRun now c ⟨status,planned,actionStatus,current,current⟩) := by
  intro s' hs'
  simp only [saveClassificationRun]
  cases hensured : ensured now c.domain s' with
  | error fault => exact hs'
  | ok pair =>
    obtain ⟨key,s₁⟩ := pair
    obtain ⟨hdates,hrow⟩ := ensured_dates hensured
    obtain ⟨added,hsaves⟩ := hs'.same hdates
    refine ⟨added++[⟨key,current,expiresAt now c⟩],hsaves.trans ?_⟩
    cases current with
    | false =>
      refine ⟨rfl,fun _ h => h,fun run hrun => ?_,fun d => .inl ⟨rfl,rfl,fun run hrun _ => ?_⟩⟩
      · rw [List.mem_singleton.mp hrun]
        exact hrow
      · rw [List.mem_singleton.mp hrun]
    | true =>
      have hdomains : ∀ (f : Queue.DomainRow → Queue.DomainRow) (d : String),
          ((s₁.queue.domains.update key f).lookup d).isSome = (s₁.queue.domains.lookup d).isSome := by
        intro f d
        by_cases hd : d = key
        · rw [hd,Table.lookup_update_self,Option.isSome_map]
        · rw [Table.lookup_update_ne hd]
      refine ⟨rfl,fun d h => ?_,fun run hrun => ?_,fun d => ?_⟩
      · exact (hdomains _ d).trans h
      · rw [List.mem_singleton.mp hrun]
        exact (hdomains _ key).trans hrow
      · by_cases hd : d = key
        · subst hd
          obtain ⟨row,hlookup⟩ := Option.isSome_iff_exists.mp hrow
          refine .inr ⟨_,List.mem_singleton_self _,rfl,rfl,?_,?_⟩
          · simp only [recheckAt,after,Store.queue,Store.setQueue,if_true] at hlookup ⊢
            rw [Table.lookup_update_self,hlookup]
            rfl
          · simp only [classifiedAt,after,Store.queue,Store.setQueue,if_true] at hlookup ⊢
            rw [Table.lookup_update_self,hlookup]
            rfl
        · refine .inl ⟨?_,?_,fun run hrun hdomain => ?_⟩
          · simp only [recheckAt,after,Store.queue,Store.setQueue,if_true]
            rw [Table.lookup_update_ne hd]
          · simp only [classifiedAt,after,Store.queue,Store.setQueue,if_true]
            rw [Table.lookup_update_ne hd]
          · rw [List.mem_singleton.mp hrun] at hdomain
            exact absurd hdomain.symm hd

theorem performEffect_saves (call : PiHole.Call) (effect : Automation.Effect) :
    Keeping (SavesSome s) (performEffect call effect) := by
  cases effect with
  | reviewTask domain reason priority source =>
    intro s' hs'
    simp only [performEffect,createReviewTask]
    split
    · exact hs'
    · simp only [insertReviewTask]
      cases hensured : ensured call.now domain s' with
      | error fault => exact hs'
      | ok pair =>
        obtain ⟨key,s₁⟩ := pair
        have hsaves := hs'.same (ensured_dates hensured).1
        dsimp only
        split <;> exact hsaves
  | notify title message => exact Keeping.pure ()
  | addExactDomain domain policy comment =>
    refine Keeping.service fun s' hs' => hs'.same (SameDates.of_eq ?_ ?_)
    · exact congrArg Queue.Database.domains (PiHole.addExactDomain_queue _ _ _ _ _ _)
    · exact congrArg Queue.Database.classifications (PiHole.addExactDomain_queue _ _ _ _ _ _)
  | saveClassification c status planned actionStatus =>
    exact saveClassificationRun_saves _ _ _ _ _ true

theorem handleItems_saves (handler : Handler) (i : ℕ) (items : List Item) {s' : Store}
    (hs' : SavesSome s s') : SavesSome s (handler.handleItems i items s').store := by
  induction items generalizing i s' with
  | nil => exact hs'
  | cons item items ih =>
    have hitem : SavesSome s (after (handler.handleItem i item s')) := by
      simp only [Handler.handleItem]
      split
      · exact performEffects_keeping (fun effect _ => performEffect_saves _ effect) 0 s' hs'
      · cases (handler.handling i).fault 0 with
        | some fault => exact hs'
        | none => exact saveClassificationRun_saves _ _ _ _ _ false s' hs'
    simp only [Handler.handleItems]
    cases hresult : handler.handleItem i item s' with
    | error fault s₁ =>
      rw [hresult] at hitem
      exact hitem
    | ok _ s₁ =>
      rw [hresult] at hitem
      exact ih (i+1) hitem

theorem skipProtected_dates (domains : List String) (s : Store) :
    SameDates s.queue (skipProtected domains s).2.queue := by
  induction domains generalizing s with
  | nil => exact SameDates.refl _
  | cons d domains ih =>
    simp only [skipProtected]
    split
    · have hack : SameDates s.queue (s.setQueue (Queue.stagingAck d s.queue)).queue :=
        SameDates.of_eq rfl rfl
      exact hack.trans (ih _)
    · exact ih s

theorem release_dates (cycle : Cycle) (verdict : String → Verdict) (domains : List String)
    (db : Queue.Database) : SameDates db (cycle.release verdict domains db) := by
  induction domains generalizing db with
  | nil => exact SameDates.refl db
  | cons d domains ih =>
    have hfirst : SameDates db ((verdict d).apply (cycle.finishedAt d) d db) := by
      cases verdict d <;> exact SameDates.of_eq rfl rfl
    exact hfirst.trans (ih _)

theorem run_saves (cycle : Cycle) (s : Store) : SavesSome s (cycle.run s) := by
  have hclaim : SameDates s.queue (cycle.afterClaim s).queue := SameDates.of_eq rfl rfl
  have hbegun : SameDates s.queue (cycle.begun s).queue := hclaim.trans (skipProtected_dates _ _)
  have hhandled : SavesSome s (cycle.handled s).store := by
    simp only [Cycle.handled]
    split
    · exact handleItems_saves _ _ _ ⟨[],hbegun.saves⟩
    · exact ⟨[],hbegun.saves⟩
  simp only [Cycle.run]
  split
  · exact ⟨[],(hclaim.trans (release_dates _ _ _ _)).saves⟩
  · split
    · exact ⟨[],hbegun.saves⟩
    · exact hhandled.same (release_dates _ _ _ _)

/-- The classification runs a cycle saves. -/
def Cycle.savedRuns (cycle : Cycle) (s : Store) : List ClassificationRow :=
  (cycle.run s).queue.classifications.drop s.queue.classifications.length

theorem savedRuns_spec (cycle : Cycle) (s : Store) :
    Saves s.queue (cycle.run s).queue (cycle.savedRuns s) := by
  obtain ⟨added,hsaves⟩ := run_saves cycle s
  have hadded : cycle.savedRuns s = added := by
    rw [Cycle.savedRuns,hsaves.runs,List.drop_left]
  rw [hadded]
  exact hsaves

end Saving

section Runs

variable [CaseTables]

/-- What writes the queue, the dates and the runs: the calls of the queue, worker cycles, and
the `_ensure_domain` other calls start with. -/
inductive CadenceOp
  | queue (context : Queue.Context) (op : Queue.Op)
  | cycle (worker : Cycle)
  | touch (seenAt : ℤ) (domain : String)

def CadenceOp.exec (s : Store) : CadenceOp → Store
  | .queue context op => s.setQueue (op.exec context s.queue)
  | .cycle worker => worker.run s
  | .touch seenAt domain =>
    match ensured seenAt domain s with
    | .ok (_,s') => s'
    | .error _ => s

/-- A later primary run of `d` does not expire before `due`. -/
def CadenceOp.Heeds (d : String) (due : ℤ) (s : Store) : CadenceOp → Prop
  | .queue _ op => op.own = true
  | .cycle worker => ∀ run ∈ worker.savedRuns s, run.domain = d → run.isPrimary = true →
      due ≤ run.expiresAt
  | .touch _ _ => True

def CadenceStep (d : String) (due : ℤ) (s : Store) (op : CadenceOp) (s' : Store) : Prop :=
  op.Heeds d due s ∧ op.exec s = s'

theorem exec_fresh {d : String} {due : ℤ} {s : Store} {op : CadenceOp} (hheeds : op.Heeds d due s)
    (h : Fresh d due s.queue) : Fresh d due (op.exec s).queue := by
  cases op with
  | queue context op => exact h.same (Queue.exec_dates hheeds context s.queue)
  | cycle worker => exact h.saves (savedRuns_spec worker s) hheeds
  | touch seenAt domain =>
    simp only [CadenceOp.exec]
    cases hensured : ensured seenAt domain s with
    | error fault => exact h
    | ok pair => exact h.same (ensured_dates hensured).1

/-- After a cycle that saved a run for `d`, no automatic enqueue before the first of its runs
expires touches the row of `d`, provided the cycle saved a primary run or found no earlier
recheck date. -/
theorem cadence_kept (cycle : Cycle) (s : Store) {s' : Store} (d : String) (due : ℤ)
    {ops : List CadenceOp}
    (hsaved : ∃ run ∈ cycle.savedRuns s, run.domain = d)
    (hdue : ∀ run ∈ cycle.savedRuns s, run.domain = d → due ≤ run.expiresAt)
    (hclear : (∃ run ∈ cycle.savedRuns s, run.domain = d ∧ run.isPrimary = true) ∨
      ∀ r, recheckAt s.queue d = some r → due ≤ r)
    (hrun : Run (CadenceStep d due) (cycle.run s) ops s') (c : Queue.Context) (op : Queue.Op)
    (hautomatic : op.automatic = true) (hearly : c.now < due) (hsole : op.Sole d c s'.queue) :
    (op.exec c s'.queue).staging.lookup d = s'.queue.staging.lookup d := by
  have hfresh : Fresh d due s'.queue := by
    refine hrun.invariant (fun s => Fresh d due s.queue) (fun s op t h hstep => ?_)
      ((savedRuns_spec cycle s).fresh hsaved hdue hclear)
    obtain ⟨hheeds,rfl⟩ := hstep
    exact exec_fresh hheeds h
  exact hfresh.not_staged hautomatic hearly hsole

end Runs

/-! A domain whose recheck is overdue, analysed in compare mode. -/

/-- Analysed at 100 with a recheck after one day, and scheduled again at 90000. -/
def overdue : Store :=
  after (saveClassificationRun 100 { tracker "a.com" with recheckAfterDays := 1 }
    ⟨"classified","","none",true,true⟩ Store.empty)

def scheduled : Store :=
  overdue.setQueue ((Queue.Op.dueRechecks 10).exec ⟨90000,[]⟩ overdue.queue)

/-- One provider answers; `isPrimary` is `false` in compare mode. -/
def recheckCycle (isPrimary : Bool) : Cycle where
  claimedAt := 90001
  batchSize := 5
  pool := .background
  stopped := false
  analyse _ := .ok ([⟨"p","P","m","default","",[tracker "a.com"],0,⟨0,0,0,0⟩,isPrimary⟩],[])
  handler :=
    { options := {}
      runs := []
      tagRows := []
      dossier := fun _ => {}
      queueSource := fun _ => "scheduled_recheck"
      knownProvider := fun _ => true
      handling := fun _ => ⟨⟨90002,fun _ => ⟨.answered,""⟩,none⟩,fun _ => none⟩ }
  look _ := 90003
  finishedAt _ := 90003

/-- The comparison lasts thirty days, yet the next scan schedules the domain again. -/
theorem compared_scheduled_again :
    (recheckCycle false).savedRuns scheduled = [⟨"a.com",false,90002+30*86400⟩] ∧
      ((recheckCycle false).run scheduled).queue.staging.lookup "a.com" = none ∧
      ((Queue.Op.dueRechecks 10).exec ⟨90010,[]⟩
        ((recheckCycle false).run scheduled).queue).staging.lookup "a.com" ≠ none := by
  decide

theorem cadence_kept_primary :
    ((Queue.Op.dueRechecks 10).exec ⟨90010,[]⟩
      ((recheckCycle true).run scheduled).queue).staging.lookup "a.com" =
        ((recheckCycle true).run scheduled).queue.staging.lookup "a.com" := by
  have hruns : (recheckCycle true).savedRuns scheduled = [⟨"a.com",true,90002+30*86400⟩] := by
    decide +kernel
  have hnames : (Queue.Op.dueRechecks 10).names ⟨90010,[]⟩
      ((recheckCycle true).run scheduled).queue = [] := by decide +kernel
  refine cadence_kept (recheckCycle true) scheduled "a.com" (90002+30*86400)
    (by simp [hruns]) (by simp [hruns]) (.inl (by simp [hruns])) (.nil _) ⟨90010,[]⟩
    (.dueRechecks 10) rfl (by decide) ?_
  intro k hk
  rw [hnames] at hk
  cases hk

end Review
end WormholeObservatory
