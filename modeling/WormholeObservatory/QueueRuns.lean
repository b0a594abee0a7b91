import WormholeObservatory.StagingRows

/-! Invariants of the queue over whole runs of calls: a domain is never locked and
queued at once, and how long a deferral lasts. -/
namespace WormholeObservatory
namespace Queue

open Transition

section Deferred

/-- The row of `d` is out of reach of claims before `due`. -/
def Deferred (d : String) (due : ℤ) (db : Database) : Prop :=
  ∃ row, db.staging.lookup d = some row ∧
    (row.state = .processing ∨ row.state = .queued ∧ due ≤ row.availableAt)

theorem Deferred.not_claimed {d : String} {due now limit : ℤ} {pool : Option Pool} {db : Database}
    (h : Deferred d due db) (hearly : now < due) :
    d ∉ (stagingClaimItems now limit pool db).1.map ClaimedItem.domain := by
  intro hmem
  obtain ⟨item,hitem,rfl⟩ := List.mem_map.mp hmem
  obtain ⟨row',hrow',hclaim,-⟩ := mem_claimedItems hitem
  obtain ⟨row,hrow,hstate⟩ := h
  obtain rfl : row = row' := Option.some.inj (hrow.symm.trans hrow')
  simp only [claimable,Bool.and_eq_true,decide_eq_true_eq] at hclaim
  rcases hstate with hheld | ⟨-,hdue⟩
  · simp [hheld] at hclaim
  · omega

theorem floor_le_truncate (x : ℚ) : ⌊x⌋ ≤ truncate x := by
  unfold truncate
  split
  · exact le_refl _
  · exact Int.floor_le_ceil x

end Deferred

section Runs

variable [CaseTables]

/-! Locks and queue rows. -/

/-- No domain has a row in both tables. -/
def Exclusive (db : Database) : Prop :=
  ∀ d row, db.locks.lookup d = some row → db.staging.lookup d = none

/-- No call gives a locked domain a queue row. -/
theorem RowMove.none_of_locked {c : Context} {db : Database} {d : String} {op : Op}
    {row' : Option StagingRow} (h : RowMove c db d op none row') {lock : LockRow}
    (hlock : db.locks.lookup d = some lock) : row' = none := by
  cases h with
  | keep => rfl
  | removed => rfl
  | staged _ _ hfree _ => simp [hlock] at hfree

theorem exec_exclusive (c : Context) (op : Op) {db : Database} (h : Exclusive db) :
    Exclusive (op.exec c db) := by
  intro d row hd
  have hkeep : ∀ lock, db.locks.lookup d = some lock →
      (op.exec c db).staging.lookup d = none := by
    intro lock hlock
    have hmove := exec_row c op db d
    rw [h d lock hlock] at hmove
    exact hmove.none_of_locked hlock
  rcases exec_locks c op db with hlocks | ⟨domain,lock,_,_,_,hlocks,hstaging⟩ | ⟨domain,_,hlocks⟩
  · exact hkeep row (hlocks ▸ hd)
  · by_cases hdomain : d = normalizeDomain domain
    · rw [hstaging,hdomain,AList.lookup_erase]
    · rw [hlocks,AList.lookup_insert_ne hdomain] at hd
      exact hkeep row hd
  · by_cases hdomain : d = normalizeDomain domain
    · rw [hlocks,hdomain,AList.lookup_erase] at hd
      cases hd
    · rw [hlocks,AList.lookup_erase_ne hdomain] at hd
      exact hkeep row hd

/-- In every reachable state no domain is both locked and queued. -/
theorem lock_queue_exclusive {labels : List (Context × Op)} {db : Database}
    (h : Run Op.Step Database.empty labels db) (d : String) : ¬ (d ∈ db.locks ∧ d ∈ db.staging) := by
  have hexclusive : Exclusive db := by
    refine h.invariant Exclusive ?_ ?_
    · rintro s l t hs rfl
      exact exec_exclusive l.1 l.2 hs
    · intro d row hd
      cases hd
  rintro ⟨hlock,hstaged⟩
  obtain ⟨row,hrow⟩ := Option.isSome_iff_exists.mp (AList.lookup_isSome.mpr hlock)
  have hnone := hexclusive d row hrow
  rw [← AList.lookup_isSome,hnone] at hstaged
  cases hstaged

/-! Attempts. -/

/-- No row has a negative number of attempts. -/
def Counted (db : Database) : Prop :=
  ∀ d row, db.staging.lookup d = some row → 0 ≤ row.attempts

omit [CaseTables] in
theorem Request.Staged.counted {r : Request} {row row' : Option StagingRow} (h : r.Staged row row')
    (hrow : ∀ x, row = some x → 0 ≤ x.attempts) : ∀ x, row' = some x → 0 ≤ x.attempts := by
  refine h.rule (fun row => ∀ x, row = some x → 0 ≤ x.attempts) ?_ hrow
  rintro row hrow x hx
  obtain rfl := Option.some.inj hx
  cases row with
  | none => exact le_refl _
  | some row₀ =>
    have hattempts := hrow row₀ rfl
    simp only [Request.stage]
    split
    · exact hattempts
    split
    · exact hattempts
    split
    · exact le_refl _
    · exact hattempts

theorem RowMove.counted {c : Context} {db : Database} {d : String} {op : Op}
    {row row' : Option StagingRow} (h : RowMove c db d op row row')
    (hrow : ∀ x, row = some x → 0 ≤ x.attempts) : ∀ x, row' = some x → 0 ≤ x.attempts := by
  cases h with
  | keep => exact hrow
  | staged _ _ _ hstaged => exact hstaged.counted hrow
  | removed =>
    intro x hx
    cases hx
  | @claimed _ _ row₀ =>
    rintro x hx
    obtain rfl := Option.some.inj hx
    have hattempts := hrow row₀ rfl
    simp only [StagingRow.claim]
    omega
  | @failed _ _ _ row₀ =>
    rintro x hx
    obtain rfl := Option.some.inj hx
    exact hrow row₀ rfl
  | @deferred _ _ _ row₀ =>
    rintro x hx
    obtain rfl := Option.some.inj hx
    exact le_max_left _ _
  | @requeued _ row₀ =>
    rintro x hx
    obtain rfl := Option.some.inj hx
    exact hrow row₀ rfl

theorem counted {labels : List (Context × Op)} {db : Database}
    (h : Run Op.Step Database.empty labels db) : Counted db := by
  refine h.invariant Counted ?_ ?_
  · rintro s l t hs rfl d
    exact (exec_row l.1 l.2 s d).counted (hs d)
  · intro d row hd
    cases hd

/-! Deferrals. -/

/-- The calls a deferral of `d` has to outlast: automatic enqueues, claims and whatever
concerns other domains. -/
structure Outlasts (d : String) (db : Database) (l : Context × Op) : Prop where
  manual : ∀ r, l.2.request l.1 = some r → d ∈ l.2.staged l.1 db → r.priority < 100
  removed : d ∉ l.2.removed
  restarted : ∀ poolId row, l.2 = .requeueProcessing poolId → db.staging.lookup d = some row →
    row.state ≠ .processing
  failed : ∀ domain error maxAttempts, l.2 = .fail domain error maxAttempts →
    normalizeDomain domain ≠ d
  deferred : ∀ domain error retryAt, l.2 = .defer domain error retryAt →
    normalizeDomain domain ≠ d

/-- An enqueue that names `d` while its row is queued, which resets `available_at`. -/
def RenewsQueued (d : String) (db : Database) (l : Context × Op) : Prop :=
  d ∈ l.2.staged l.1 db ∧ ∃ row, db.staging.lookup d = some row ∧ row.state = .queued

def deferredStep (d : String) (db : Database) (l : Context × Op) (db' : Database) : Prop :=
  Op.Step db l db' ∧ Outlasts d db l ∧ ¬ RenewsQueued d db l

theorem stagingDefer_deferred {d domain error : String} {retryAt : ℚ} {now : ℤ} {db : Database}
    {row : StagingRow} (hdomain : normalizeDomain domain = d)
    (hrow : db.staging.lookup d = some row) :
    Deferred d (truncate retryAt) (stagingDefer now domain error retryAt db) := by
  refine ⟨row.defer now error retryAt,?_,.inr ⟨rfl,le_max_right _ _⟩⟩
  rw [lookup_stagingDefer,if_pos hdomain.symm,hrow]
  rfl

theorem deferredStep_deferred {d : String} {due : ℤ} {db db' : Database} {l : Context × Op}
    (h : Deferred d due db) (hstep : deferredStep d db l db') : Deferred d due db' := by
  obtain ⟨c,op⟩ := l
  obtain ⟨rfl,hscope,hnot⟩ := hstep
  obtain ⟨row,hrow,hstate⟩ := h
  have hmove := exec_row c op db d
  rw [hrow] at hmove
  generalize hafter : (op.exec c db).staging.lookup d = after at hmove
  cases hmove with
  | keep => exact ⟨row,hafter,hstate⟩
  | staged hrequest hmem _ hstaged =>
    -- a queued row would have been renewed, so the row is held and stays as it is
    rcases hstate with hheld | ⟨hqueued,-⟩
    · exact ⟨row,hafter.trans (hstaged.processing hheld),.inl hheld⟩
    · exact absurd ⟨hmem,row,hrow,hqueued⟩ hnot
  | claimed _ => exact ⟨_,hafter,.inl rfl⟩
  | removed hmem => exact absurd hmem hscope.removed
  | failed hd => exact absurd hd (hscope.failed _ _ _ rfl)
  | deferred hd => exact absurd hd (hscope.deferred _ _ _ rfl)
  | requeued hheld _ => exact absurd hheld (hscope.restarted _ _ rfl hrow)

/-- A deferral keeps its domain from every claim before its time, through every run in
which no enqueue names the domain while its row is queued. -/
theorem deferral_respected {d domain error : String} {retryAt : ℚ} {now : ℤ}
    {db₀ db : Database} {row : StagingRow} {labels : List (Context × Op)}
    (hdomain : normalizeDomain domain = d) (hrow : db₀.staging.lookup d = some row)
    (hrun : Run (deferredStep d) (stagingDefer now domain error retryAt db₀) labels db)
    {t limit : ℤ} {pool : Option Pool} (hearly : t < ⌊retryAt⌋) :
    d ∉ (stagingClaimItems t limit pool db).1.map ClaimedItem.domain := by
  have hdeferred : Deferred d (truncate retryAt) db :=
    hrun.invariant _ (fun _ _ _ hs hst => deferredStep_deferred hs hst)
      (stagingDefer_deferred hdomain hrow)
  exact hdeferred.not_claimed (lt_of_lt_of_le hearly (floor_le_truncate retryAt))

end Runs

/-! Sample runs. -/

/-- A domain that is queued, claimed, locked while it is held, failed and queued again. -/
theorem lock_queue_exclusive_sample :
    let labels : List (Context × Op) :=
      [(⟨10,[]⟩,.review ["A.com. "] "manual_history"),(⟨11,[]⟩,.claim 5 "realtime"),
        (⟨12,[]⟩,.setLock "a.com" "deny" "kept"),(⟨13,[]⟩,.fail "a.com" "timeout" 1),
        (⟨14,[]⟩,.needingAnalysis ["a.com."] true)]
    let db := labels.foldl (fun db l => l.2.exec l.1 db) Database.empty
    (db.locks.lookup "a.com").isSome = true ∧ ¬ ("a.com" ∈ db.locks ∧ "a.com" ∈ db.staging) := by
  intro labels db
  have hrun : Run Op.Step Database.empty labels db := Run.foldl _ _ _
  exact ⟨by decide,lock_queue_exclusive hrun "a.com"⟩

/-- A claimed row, as the queue leaves it before it is deferred. -/
def claimedSample : Database :=
  [(⟨100,[]⟩,.needingAnalysis ["a.com"] false),(⟨101,[]⟩,.claim 5 "background")].foldl
    (fun db (l : Context × Op) => l.2.exec l.1 db) Database.empty

theorem outlasts_needingAnalysis (d : String) (db : Database) (c : Context)
    (values : List String) : Outlasts d db (c,.needingAnalysis values false) where
  manual r hr _ := by
    obtain rfl := Option.some.inj hr
    exact (by decide : max 0 (0 : ℤ) < 100)
  removed := List.not_mem_nil
  restarted poolId row h _ := by cases h
  failed domain error maxAttempts h := by cases h
  deferred domain error retryAt h := by cases h

theorem deferral_respected_sample :
    let deferred := stagingDefer 102 "a.com" "quota" (500 : ℚ) claimedSample
    "a.com" ∉ (stagingClaimItems 300 5 none
      ((Op.needingAnalysis ["b.com"] false).exec ⟨200,[]⟩ deferred)).1.map ClaimedItem.domain := by
  intro deferred
  obtain ⟨row,hrow⟩ : ∃ row, claimedSample.staging.lookup "a.com" = some row :=
    Option.isSome_iff_exists.mp (by decide)
  have hother : ¬ RenewsQueued "a.com" deferred (⟨200,[]⟩,.needingAnalysis ["b.com"] false) :=
    fun h => absurd h.1 (by decide)
  have hrun : Run (deferredStep "a.com") deferred [(⟨200,[]⟩,.needingAnalysis ["b.com"] false)]
      ((Op.needingAnalysis ["b.com"] false).exec ⟨200,[]⟩ deferred) :=
    .single ⟨rfl,outlasts_needingAnalysis _ _ _ _,hother⟩
  exact deferral_respected (by decide) hrow hrun (by norm_num)

/-- The scanner sees a deferred domain again: its row becomes available at once. -/
theorem deferral_lost_on_rescan :
    let deferred := stagingDefer 102 "a.com" "quota" (500 : ℚ) claimedSample
    let rescan : Context × Op := (⟨200,[]⟩,.needingAnalysis ["a.com"] false)
    (claimedSample.staging.lookup "a.com").isSome = true ∧ Outlasts "a.com" deferred rescan ∧
      (300 : ℤ) < ⌊(500 : ℚ)⌋ ∧
      (stagingClaimItems 300 5 none (rescan.2.exec rescan.1 deferred)).1.map ClaimedItem.domain =
        ["a.com"] := by
  refine ⟨by decide,outlasts_needingAnalysis _ _ _ _,by norm_num,by decide⟩

end Queue
end WormholeObservatory
