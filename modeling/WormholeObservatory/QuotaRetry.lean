import WormholeObservatory.QuotaWindows

/-! The retry time of a quota refusal. Every limit names the moment its window has drained far
enough; the refusal names the latest of these, so the request fits at it and ever after, and
while all windows roll it does not fit before. -/
namespace WormholeObservatory
namespace Quota

/-! The scan of one rolling limit. -/

section Drain

variable {metric : Metric} {candidate cap : ℚ} {windowSeconds : ℤ}

/-- The use a rolling window still holds at `t`. -/
def remaining (metric : Metric) (windowSeconds : ℤ) (t : ℚ) (rows : List QuotaRow) : ℚ :=
  metricSum (rows.filter fun r => decide (t-windowSeconds < r.createdAt)) metric

theorem remaining_cons (t : ℚ) (row : QuotaRow) (rows : List QuotaRow) :
    remaining metric windowSeconds t (row::rows) =
      (if t-windowSeconds < row.createdAt then rowMetricValue row metric else 0)
        +remaining metric windowSeconds t rows := by
  by_cases h : t-windowSeconds < row.createdAt <;> simp [remaining,metricSum,h]

theorem metricSum_cons (row : QuotaRow) (rows : List QuotaRow) :
    metricSum (row::rows) metric = rowMetricValue row metric+metricSum rows metric := by
  simp [metricSum]

theorem remaining_le (t : ℚ) {rows : List QuotaRow}
    (hnonneg : ∀ r ∈ rows, 0 ≤ rowMetricValue r metric) :
    remaining metric windowSeconds t rows ≤ metricSum rows metric := by
  induction rows with
  | nil => simp [remaining,metricSum]
  | cons row rows ih =>
    have hrow := hnonneg row (by simp)
    have hrows := ih fun r hr => hnonneg r (by simp [hr])
    rw [remaining_cons,metricSum_cons]
    split <;> linarith

theorem remaining_eq {t : ℚ} {rows : List QuotaRow}
    (hin : ∀ r ∈ rows, t-windowSeconds < r.createdAt) :
    remaining metric windowSeconds t rows = metricSum rows metric := by
  rw [remaining,List.filter_eq_self.mpr fun r hr => decide_eq_true (hin r hr)]

/-- The scan never goes below the first row it releases. -/
theorem le_drainUntil {first : ℚ} {rows : List QuotaRow} {reduced retryAt : ℚ}
    (hretry : first+windowSeconds ≤ retryAt) (hrows : ∀ r ∈ rows, first ≤ r.createdAt) :
    first+windowSeconds ≤ drainUntil metric candidate cap windowSeconds rows reduced retryAt := by
  induction rows generalizing reduced retryAt with
  | nil => simpa [drainUntil] using hretry
  | cons row rows ih =>
    have hrow := hrows row (by simp)
    simp only [drainUntil]
    split
    · linarith
    · exact ih (by linarith) fun r hr => hrows r (by simp [hr])

/-- From the moment the scan returns, the request fits beside what the window still holds. -/
theorem drainUntil_fits {rows : List QuotaRow} {retryAt t : ℚ} (hcap : candidate ≤ cap)
    (hsorted : rows.Pairwise fun a b => a.createdAt ≤ b.createdAt)
    (hnonneg : ∀ r ∈ rows, 0 ≤ rowMetricValue r metric)
    (ht : drainUntil metric candidate cap windowSeconds rows (metricSum rows metric) retryAt ≤ t) :
    remaining metric windowSeconds t rows+candidate ≤ cap := by
  induction rows generalizing retryAt with
  | nil => simpa [remaining,metricSum] using hcap
  | cons row rows ih =>
    obtain ⟨hfirst,hrest⟩ := List.pairwise_cons.mp hsorted
    have htail : ∀ r ∈ rows, 0 ≤ rowMetricValue r metric := fun r hr => hnonneg r (by simp [hr])
    have hreduced : metricSum (row::rows) metric-rowMetricValue row metric = metricSum rows metric := by
      rw [metricSum_cons]
      ring
    simp only [drainUntil,hreduced] at ht
    have hout : ¬ t-windowSeconds < row.createdAt := by
      split at ht
      · linarith
      · have hlow := (le_drainUntil (le_refl _) hfirst).trans ht
        linarith
    rw [remaining_cons,if_neg hout,zero_add]
    split at ht
    · rename_i hfits
      have hle : remaining metric windowSeconds t rows ≤ metricSum rows metric :=
        remaining_le t htail
      linarith
    · exact ih hrest htail ht

/-- Before the scan returns, the window holds too much. -/
theorem lt_drainUntil {rows : List QuotaRow} {retryAt t : ℚ} (hcap : candidate ≤ cap)
    (hsorted : rows.Pairwise fun a b => a.createdAt ≤ b.createdAt)
    (hnonneg : ∀ r ∈ rows, 0 ≤ rowMetricValue r metric)
    (hfull : cap < metricSum rows metric+candidate)
    (ht : t < drainUntil metric candidate cap windowSeconds rows (metricSum rows metric) retryAt) :
    cap < remaining metric windowSeconds t rows+candidate := by
  induction rows generalizing retryAt with
  | nil => simp [metricSum] at hfull; linarith
  | cons row rows ih =>
    obtain ⟨hfirst,hrest⟩ := List.pairwise_cons.mp hsorted
    have hrow := hnonneg row (by simp)
    have htail : ∀ r ∈ rows, 0 ≤ rowMetricValue r metric := fun r hr => hnonneg r (by simp [hr])
    have hreduced : metricSum (row::rows) metric-rowMetricValue row metric = metricSum rows metric := by
      rw [metricSum_cons]
      ring
    simp only [drainUntil,hreduced] at ht
    split at ht
    · -- the row that makes room is the oldest left, so nothing has left the window yet
      have hin : ∀ r ∈ row::rows, t-windowSeconds < r.createdAt := by
        intro r hr
        rcases List.mem_cons.mp hr with rfl | hr
        · linarith
        · linarith [hfirst r hr]
      rwa [remaining_eq hin]
    · rename_i hnot
      have hlater := ih hrest htail (not_le.mp hnot) ht
      rw [remaining_cons]
      split <;> linarith

end Drain

/-! One limit. -/

section Limits

variable {rows : List QuotaRow} {estimate : QuotaEstimate} {poolId : String}
  {reserve margin now t : ℚ} {limit : ProviderLimit} {limits : List ProviderLimit}

/-- The request fits a limit at `t` beside the rows that count. -/
def Fits (rows : List QuotaRow) (estimate : QuotaEstimate) (poolId : String)
    (reserve margin t : ℚ) (limit : ProviderLimit) : Prop :=
  0 < metricValue estimate limit.metric →
    metricSum (rows.filter fun r => inWindow limit t r.createdAt) limit.metric
      +metricValue estimate limit.metric ≤ poolCap limit poolId reserve margin

/-- The moment one limit names, zero if it asks for no wait. -/
abbrev limitWait (rows : List QuotaRow) (estimate : QuotaEstimate) (poolId : String)
    (reserve margin now : ℚ) (limit : ProviderLimit) : ℚ :=
  retryAtOfLimit rows estimate poolId reserve margin now 0 limit

theorem retryAtOfLimit_eq {retryAt : ℚ} (h : 0 ≤ retryAt) :
    retryAtOfLimit rows estimate poolId reserve margin now retryAt limit =
      max retryAt (limitWait rows estimate poolId reserve margin now limit) := by
  simp only [limitWait,retryAtOfLimit]
  split
  · exact (max_eq_left h).symm
  · cases limit.resetPolicy with
    | utcDay =>
      dsimp only
      split
      · rw [← max_assoc,max_eq_left h]
      · exact (max_eq_left h).symm
    | rolling =>
      dsimp only
      rw [← max_assoc,max_eq_left h]

theorem limitRetryAt_le_iff :
    limitRetryAt rows limits estimate poolId reserve margin now ≤ t ↔
      0 ≤ t ∧ ∀ limit ∈ limits, limitWait rows estimate poolId reserve margin now limit ≤ t := by
  have hfold : ∀ (ls : List ProviderLimit) (retryAt : ℚ), 0 ≤ retryAt →
      (ls.foldl (retryAtOfLimit rows estimate poolId reserve margin now) retryAt ≤ t ↔
        retryAt ≤ t ∧ ∀ limit ∈ ls, limitWait rows estimate poolId reserve margin now limit ≤ t) := by
    intro ls
    induction ls with
    | nil => simp
    | cons l ls ih =>
      intro retryAt h
      rw [List.foldl_cons,retryAtOfLimit_eq h,ih _ (h.trans (le_max_left _ _)),max_le_iff]
      simp only [List.mem_cons,forall_eq_or_imp,and_assoc]
  exact hfold limits 0 (le_refl 0)

/-- The next day starts after every moment of this one. -/
theorem utcDayStart_next (h : utcDayStart now+86400 ≤ t) : utcDayStart now+86400 ≤ utcDayStart t := by
  have hfloor : ⌊now/86400⌋+1 ≤ ⌊t/86400⌋ := by
    rw [Int.le_floor]
    simp only [utcDayStart] at h
    push_cast
    linarith
  have hcast : (⌊now/86400⌋ : ℚ)+1 ≤ ⌊t/86400⌋ := by exact_mod_cast hfloor
  simp only [utcDayStart]
  linarith

theorem inWindow_of_later {createdAt : ℚ} (hnow : now ≤ t)
    (h : inWindow limit t createdAt = true) : inWindow limit now createdAt = true := by
  cases hp : limit.resetPolicy with
  | utcDay =>
    simp only [inWindow,hp,decide_eq_true_eq] at h ⊢
    exact (utcDayStart_mono hnow).trans h
  | rolling =>
    simp only [inWindow,hp,decide_eq_true_eq] at h ⊢
    linarith

section Wait

variable (hsorted : rows.Pairwise fun a b => a.createdAt ≤ b.createdAt)
  (hnonneg : ∀ r ∈ rows, ∀ m, 0 ≤ rowMetricValue r m)

include hnonneg

theorem metricSum_filter_nonneg (p : QuotaRow → Bool) (m : Metric) :
    0 ≤ metricSum (rows.filter p) m := by
  refine List.sum_nonneg fun x hx => ?_
  obtain ⟨r,hr,rfl⟩ := List.mem_map.mp hx
  exact hnonneg r (List.mem_filter.mp hr).1 m

/-- A limit the request fits asks for no wait. -/
theorem limitWait_of_fits (h : Fits rows estimate poolId reserve margin now limit) :
    limitWait rows estimate poolId reserve margin now limit = 0 := by
  simp only [limitWait,retryAtOfLimit]
  split
  · rfl
  · rename_i hpos
    have hfits := h (not_le.mp hpos)
    have hsum := metricSum_filter_nonneg hnonneg (fun r => inWindow limit now r.createdAt) limit.metric
    cases hp : limit.resetPolicy with
    | utcDay => simp only [if_neg (not_lt.mpr hfits)]
    | rolling =>
      have hcap : ¬ metricValue estimate limit.metric > poolCap limit poolId reserve margin := by
        linarith
      simp only [retryAtForLimit,if_neg hcap,if_pos hfits,max_self]

/-- What fits once fits later. -/
theorem Fits.later (h : Fits rows estimate poolId reserve margin now limit) (hnow : now ≤ t) :
    Fits rows estimate poolId reserve margin t limit := by
  intro hpos
  have hle : metricSum (rows.filter fun r => inWindow limit t r.createdAt) limit.metric ≤
      metricSum (rows.filter fun r => inWindow limit now r.createdAt) limit.metric :=
    sum_filter_le rows (fun r _ hr => ⟨inWindow_of_later hnow hr,le_refl _⟩)
      fun r hr _ => hnonneg r hr _
  linarith [h hpos]

include hsorted

/-- What a rolling limit that is too full names, in terms of the scan. -/
theorem limitWait_rolling (hp : limit.resetPolicy = .rolling)
    (hcap : metricValue estimate limit.metric ≤ poolCap limit poolId reserve margin)
    (hnow : now ≤ t) (ht : 0 ≤ t) :
    limitWait rows estimate poolId reserve margin now limit ≤ t ↔
      Fits rows estimate poolId reserve margin t limit := by
  by_cases hfits : Fits rows estimate poolId reserve margin now limit
  · rw [limitWait_of_fits hnonneg hfits]
    exact ⟨fun _ => hfits.later hnonneg hnow,fun _ => ht⟩
  · simp only [Fits,Classical.not_imp,not_le] at hfits
    obtain ⟨hpos,hfull⟩ := hfits
    set relevant := rows.filter fun r => inWindow limit now r.createdAt with hrelevant
    have hsorted' := hsorted.sublist (List.filter_sublist (p := fun r => inWindow limit now r.createdAt))
    have hnonneg' : ∀ r ∈ relevant, 0 ≤ rowMetricValue r limit.metric :=
      fun r hr => hnonneg r (List.mem_filter.mp hr).1 _
    have hwindow : metricSum (rows.filter fun r => inWindow limit t r.createdAt) limit.metric =
        remaining limit.metric limit.windowSeconds t relevant := by
      rw [remaining,hrelevant,List.filter_filter]
      congr 1
      refine List.filter_congr fun r _ => ?_
      have hlater : inWindow limit t r.createdAt = true → inWindow limit now r.createdAt = true :=
        inWindow_of_later hnow
      simp only [inWindow,hp,decide_eq_true_eq] at hlater ⊢
      by_cases hr : t-limit.windowSeconds < r.createdAt
      · simp [hr,hlater hr]
      · simp [hr]
    have hwait : limitWait rows estimate poolId reserve margin now limit ≤ t ↔
        drainUntil limit.metric (metricValue estimate limit.metric)
          (poolCap limit poolId reserve margin) limit.windowSeconds relevant
          (metricSum relevant limit.metric) (now+max 1 limit.windowSeconds) ≤ t := by
      simp only [limitWait,retryAtOfLimit,if_neg (not_le.mpr hpos),hp,retryAtForLimit,
        if_neg (not_lt.mpr hcap),← hrelevant,if_neg (not_le.mpr hfull),max_le_iff]
      exact ⟨fun h => h.2.2,fun h => ⟨ht,hnow,h⟩⟩
    simp only [Fits,hwindow,hpos,true_imp_iff]
    rw [hwait]
    constructor
    · exact drainUntil_fits hcap hsorted' hnonneg'
    · intro hfit
      by_contra hlt
      exact absurd (lt_drainUntil hcap hsorted' hnonneg' hfull (not_le.mp hlt)) (not_lt.mpr hfit)

/-- From the moment a limit names, the request fits it. -/
theorem limitWait_fits
    (hcap : metricValue estimate limit.metric ≤ poolCap limit poolId reserve margin)
    (hpast : ∀ r ∈ rows, r.createdAt ≤ now) (hnow : now ≤ t) (ht : 0 ≤ t)
    (h : limitWait rows estimate poolId reserve margin now limit ≤ t) :
    Fits rows estimate poolId reserve margin t limit := by
  cases hp : limit.resetPolicy with
  | rolling => exact (limitWait_rolling hsorted hnonneg hp hcap hnow ht).mp h
  | utcDay =>
    by_cases hfits : Fits rows estimate poolId reserve margin now limit
    · exact hfits.later hnonneg hnow
    · simp only [Fits,Classical.not_imp,not_le] at hfits
      obtain ⟨hpos,hfull⟩ := hfits
      simp only [limitWait,retryAtOfLimit,if_neg (not_le.mpr hpos),hp,gt_iff_lt,if_pos hfull] at h
      have hday := utcDayStart_next ((le_max_right _ _).trans h)
      have hempty : (rows.filter fun r => inWindow limit t r.createdAt) = [] := by
        refine List.filter_eq_nil_iff.mpr fun r hr => ?_
        have hold := (hpast r hr).trans_lt (lt_utcDayStart_add now)
        simp only [inWindow,hp,decide_eq_true_eq,not_le]
        linarith
      intro _
      simpa [hempty,metricSum] using hcap

end Wait

end Limits

/-! The rows a reservation reads, as time passes over an unchanged ledger. -/

section Ledger

variable {rows : List QuotaRow} {scopeKey : String} {limit : ProviderLimit} {now t : ℚ}

theorem activeRows_sorted (scopeKey : String) (rows : List QuotaRow) :
    (activeRows scopeKey rows).Pairwise fun a b => a.createdAt ≤ b.createdAt := by
  have htotal : Std.Total fun a b : QuotaRow =>
      a.createdAt < b.createdAt ∨ (a.createdAt = b.createdAt ∧ a.id ≤ b.id) := by
    refine ⟨fun a b => ?_⟩
    rcases lt_trichotomy a.createdAt b.createdAt with h | h | h
    · exact .inl (.inl h)
    · exact (String.le_total a.id b.id).imp (fun hid => .inr ⟨h,hid⟩) fun hid => .inr ⟨h.symm,hid⟩
    · exact .inr (.inl h)
  have htrans : IsTrans QuotaRow fun a b : QuotaRow =>
      a.createdAt < b.createdAt ∨ (a.createdAt = b.createdAt ∧ a.id ≤ b.id) := by
    refine ⟨fun a b c hab hbc => ?_⟩
    rcases hab with hab | ⟨hab,hid⟩
    · rcases hbc with hbc | ⟨hbc,-⟩
      · exact .inl (hab.trans hbc)
      · exact .inl (hbc ▸ hab)
    · rcases hbc with hbc | ⟨hbc,hid'⟩
      · exact .inl (hab ▸ hbc)
      · exact .inr ⟨hab.trans hbc,String.le_trans hid hid'⟩
  refine (List.pairwise_insertionSort _ _).imp fun h => ?_
  rcases h with h | ⟨h,-⟩
  · exact h.le
  · exact h.le

/-- A reservation that was never settled and is dropped at `now`. -/
def overdue (now : ℚ) (r : QuotaRow) : Bool := decide (r.state = .reserved ∧ r.expiresAt ≤ now)

theorem expireReservations_eq (now : ℚ) (rows : List QuotaRow) :
    expireReservations now rows = rows.map fun r =>
      if overdue now r then { r with state := .cancelled, completedAt := some now } else r := by
  simp only [expireReservations,overdue,decide_eq_true_eq]

/-- What a window counts once overdue reservations are dropped. -/
theorem windowUsage_expire (scopeKey : String) (limit : ProviderLimit) (now t : ℚ)
    (rows : List QuotaRow) : windowUsage scopeKey limit t (expireReservations now rows) =
      metricSum (rows.filter fun r => counts scopeKey r && countedAt limit t r.createdAt &&
        !overdue now r) limit.metric := by
  rw [expireReservations_eq]
  simp only [windowUsage,metricSum,List.filter_map,List.map_map]
  have hselect : ∀ r ∈ rows, ((fun r => counts scopeKey r && countedAt limit t r.createdAt) ∘
      fun r => if overdue now r then { r with state := .cancelled, completedAt := some now } else r) r =
      (counts scopeKey r && countedAt limit t r.createdAt && !overdue now r) := by
    intro r _
    cases h : overdue now r <;> simp [h,counts]
  rw [List.filter_congr hselect]
  congr 1
  refine List.map_congr_left fun r hr => ?_
  have hkept : overdue now r = false := by
    have h := (List.mem_filter.mp hr).2
    simp only [Bool.and_eq_true,Bool.not_eq_true'] at h
    exact h.2
  simp [hkept]

theorem overdue_later {r : QuotaRow} (hnow : now ≤ t) (h : overdue t r = false) :
    overdue now r = false := by
  simp only [overdue,decide_eq_false_iff_not,not_and,not_le] at h ⊢
  exact fun hstate => hnow.trans_lt (h hstate)

/-- Dropping more reservations frees room. -/
theorem windowUsage_expire_le (hnonneg : ∀ r ∈ rows, ∀ m, 0 ≤ rowMetricValue r m) (hnow : now ≤ t) :
    windowUsage scopeKey limit t (expireReservations t rows) ≤
      windowUsage scopeKey limit t (expireReservations now rows) := by
  rw [windowUsage_expire,windowUsage_expire]
  refine sum_filter_le rows (fun r _ hr => ?_) fun r hr _ => hnonneg r hr _
  simp only [Bool.and_eq_true,Bool.not_eq_true'] at hr ⊢
  exact ⟨⟨hr.1,overdue_later hnow hr.2⟩,le_refl _⟩

/-- A reservation of the scope stays until the windows of the limits have passed it. -/
def Outlasts (scopeKey : String) (limits : List ProviderLimit) (r : QuotaRow) : Prop :=
  r.scopeKey = scopeKey → r.state = .reserved →
    ∀ limit ∈ limits, r.createdAt+limit.windowSeconds ≤ r.expiresAt

/-- Rows that outlast a rolling window leave it before they are dropped. -/
theorem windowUsage_expire_eq {limits : List ProviderLimit}
    (hlong : ∀ r ∈ rows, Outlasts scopeKey limits r) (hmem : limit ∈ limits)
    (hp : limit.resetPolicy = .rolling) (hnow : now ≤ t) :
    windowUsage scopeKey limit t (expireReservations t rows) =
      windowUsage scopeKey limit t (expireReservations now rows) := by
  rw [windowUsage_expire,windowUsage_expire]
  congr 1
  refine List.filter_congr fun r hr => ?_
  by_cases hcount : (counts scopeKey r && countedAt limit t r.createdAt) = true
  · have hkept : overdue t r = false := by
      simp only [Bool.and_eq_true,counts,countedAt,hp,decide_eq_true_eq] at hcount
      simp only [overdue,decide_eq_false_iff_not,not_and,not_le]
      intro hstate
      linarith [hlong r hr hcount.1.1 hstate limit hmem,hcount.2.1]
    rw [hkept,overdue_later hnow hkept]
  · simp only [hcount,Bool.false_and]

theorem fits_activeRows {estimate : QuotaEstimate} {poolId : String} {reserve margin : ℚ}
    (hpast : ∀ r ∈ rows, r.createdAt ≤ t) :
    Fits (activeRows scopeKey (expireReservations now rows)) estimate poolId reserve margin t limit ↔
      (0 < metricValue estimate limit.metric →
        windowUsage scopeKey limit t (expireReservations now rows)+metricValue estimate limit.metric ≤
          poolCap limit poolId reserve margin) := by
  have hpast' : ∀ r ∈ expireReservations now rows, r.createdAt ≤ t := by
    intro r hr
    obtain ⟨r₀,hr₀,rfl⟩ := List.mem_map.mp hr
    rw [(expire_shrinks now r₀).createdAt]
    exact hpast r₀ hr₀
  rw [Fits,metricSum_activeRows hpast']

end Ledger

/-! Reservations without live headers. -/

section Reserve

variable [CaseTables] {caller : QuotaCaller} {estimate : QuotaEstimate} {poolId : String}
  {ledger : QuotaLedger} {now t : ℚ}

/-- The rows a reservation at `now` counts. -/
abbrev countedRows (caller : QuotaCaller) (ledger : QuotaLedger) (now : ℚ) : List QuotaRow :=
  activeRows caller.scopeKey (expireReservations now ledger.reservations)

/-- The limits in force while no live header is. -/
abbrev offlineLimits (caller : QuotaCaller) : List ProviderLimit :=
  limitsWithLiveState [] (effectiveLimits caller.profile caller.options) caller.profile

/-- The moment a reservation at `now` has to wait for. -/
def waitUntil (caller : QuotaCaller) (estimate : QuotaEstimate) (poolId : String)
    (ledger : QuotaLedger) (now : ℚ) : ℚ :=
  limitRetryAt (countedRows caller ledger now) (offlineLimits caller) estimate
    (normalizedPool poolId) caller.options.realtimeQuotaReservePercent
    caller.profile.safetyMarginPercent now

theorem waitUntil_nonneg : 0 ≤ waitUntil caller estimate poolId ledger now :=
  (limitRetryAt_le_iff.mp (le_refl _)).1

omit [CaseTables] in
/-- Live states that are over stay over. -/
theorem liveStates_later (hlive : liveStates ledger.runtime caller.scopeKey now = []) (hnow : now ≤ t) :
    liveStates ledger.runtime caller.scopeKey t = [] := by
  simp only [liveStates,Table.select,List.map_eq_nil_iff,List.filter_eq_nil_iff,
    decide_eq_true_eq] at hlive ⊢
  exact fun e he h => hlive e he ⟨h.1,hnow.trans_lt h.2⟩

theorem reserveQuota_refused (hlive : liveStates ledger.runtime caller.scopeKey now = [])
    (h : now < waitUntil caller estimate poolId ledger now) (id : String) :
    reserveQuota caller estimate poolId now id ledger =
      .error (.unavailable (waitUntil caller estimate poolId ledger now)) := by
  have hzero : (0 : ℚ) ≤ waitUntil caller estimate poolId ledger now := waitUntil_nonneg
  simp only [waitUntil] at h hzero ⊢
  simp only [reserveQuota,hlive,liveLimitRetryAt,List.foldl_nil,max_eq_left hzero,gt_iff_lt,h,if_true,
    max_eq_right hzero]

theorem reserveQuota_granted (hlive : liveStates ledger.runtime caller.scopeKey now = [])
    (h : waitUntil caller estimate poolId ledger now ≤ now) {id : String}
    (hfresh : ∀ r ∈ ledger.reservations, r.id ≠ id) :
    ∃ granted, reserveQuota caller estimate poolId now id ledger = .ok granted := by
  have hzero : (0 : ℚ) ≤ waitUntil caller estimate poolId ledger now := waitUntil_nonneg
  have hnew : ¬ (expireReservations now ledger.reservations).any (·.id = id) = true := by
    simp only [List.any_eq_true,not_exists,not_and,decide_eq_true_eq]
    intro r hr
    obtain ⟨r₀,hr₀,rfl⟩ := List.mem_map.mp hr
    split
    · exact hfresh r₀ hr₀
    · exact hfresh r₀ hr₀
  simp only [waitUntil] at h hzero
  simp only [reserveQuota,hlive,liveLimitRetryAt,List.foldl_nil,max_eq_left hzero,gt_iff_lt,
    not_lt.mpr h,if_false,if_neg hnew,Except.ok.injEq,exists_eq']

omit [CaseTables] in
/-- Merging no live state adds no limit. -/
theorem effective_of_offline {limit : ProviderLimit} (h : limit ∈ offlineLimits caller) :
    limit ∈ effectiveLimits caller.profile caller.options := by
  have hfold : ∀ (ls : List ProviderLimit) (table : Table (Metric × ℤ) ProviderLimit) (k : Metric × ℤ)
      (l : ProviderLimit), (ls.foldl (fun t l => t.insert (limitKey l) l) table).lookup k = some l →
      table.lookup k = some l ∨ l ∈ ls := by
    intro ls
    induction ls with
    | nil => exact fun table k l h => .inl h
    | cons first ls ih =>
      intro table k l h
      rcases ih _ k l h with h | h
      · by_cases hk : k = limitKey first
        · rw [hk,AList.lookup_insert] at h
          exact .inr (by simp [Option.some.inj h])
        · rw [AList.lookup_insert_ne hk] at h
          exact .inl h
      · exact .inr (List.mem_cons_of_mem _ h)
  simp only [limitsWithLiveState,List.foldl_nil] at h
  split at h
  · exact h
  · rw [List.mem_insertionSort] at h
    obtain ⟨⟨k,l⟩,hmem,rfl⟩ := List.mem_map.mp h
    rcases hfold _ ∅ k l (Table.lookup_eq_some.mpr hmem) with h | h
    · simp at h
    · exact h

/-- A refusal carries the moment the reservation has to wait for. -/
theorem reserveQuota_unavailable (hlive : liveStates ledger.runtime caller.scopeKey now = [])
    {id : String} {retryAt : ℚ}
    (h : reserveQuota caller estimate poolId now id ledger = .error (.unavailable retryAt)) :
    now < retryAt ∧ retryAt = waitUntil caller estimate poolId ledger now := by
  by_cases hwait : now < waitUntil caller estimate poolId ledger now
  · rw [reserveQuota_refused hlive hwait] at h
    obtain rfl : waitUntil caller estimate poolId ledger now = retryAt := by simpa using h
    exact ⟨hwait,rfl⟩
  · have hzero : (0 : ℚ) ≤ waitUntil caller estimate poolId ledger now := waitUntil_nonneg
    simp only [waitUntil] at hwait hzero
    simp only [reserveQuota,hlive,liveLimitRetryAt,List.foldl_nil,max_eq_left hzero,gt_iff_lt,
      hwait,if_false] at h
    split at h <;> simp at h

/-- The reservation succeeds at `t`, whatever fresh identifier it draws. -/
def Granted (caller : QuotaCaller) (estimate : QuotaEstimate) (poolId : String)
    (ledger : QuotaLedger) (t : ℚ) : Prop :=
  ∀ id, (∀ r ∈ ledger.reservations, r.id ≠ id) →
    ∃ granted, reserveQuota caller estimate poolId t id ledger = .ok granted

/-- The reservation is refused at `t`. -/
def Refused (caller : QuotaCaller) (estimate : QuotaEstimate) (poolId : String)
    (ledger : QuotaLedger) (t : ℚ) : Prop :=
  ∀ id, ∃ retryAt, reserveQuota caller estimate poolId t id ledger = .error (.unavailable retryAt)

/-- No limit of the caller is smaller than the request. -/
def WithinCaps (caller : QuotaCaller) (estimate : QuotaEstimate) (poolId : String) : Prop :=
  ∀ limit ∈ effectiveLimits caller.profile caller.options, metricValue estimate limit.metric ≤
    poolCap limit (normalizedPool poolId) caller.options.realtimeQuotaReservePercent
      caller.profile.safetyMarginPercent

section Unchanged

variable (hlive : liveStates ledger.runtime caller.scopeKey now = [])
  (hpast : ∀ r ∈ ledger.reservations, r.createdAt ≤ now)
  (hnonneg : ∀ r ∈ ledger.reservations, ∀ m, 0 ≤ rowMetricValue r m)

include hpast hnonneg

omit [CaseTables] in
/-- The rows a reservation counts are of the past and nonnegative. -/
theorem countedRows_plain : (∀ r ∈ countedRows caller ledger now, r.createdAt ≤ now) ∧
    ∀ r ∈ countedRows caller ledger now, ∀ m, 0 ≤ rowMetricValue r m := by
  have horigin : ∀ r ∈ countedRows caller ledger now, r.createdAt ≤ now ∧
      ∀ m, 0 ≤ rowMetricValue r m := by
    intro r hr
    have hmem := List.mem_of_mem_filter ((List.mem_insertionSort _).mp hr)
    obtain ⟨r₀,hr₀,rfl⟩ := List.mem_map.mp hmem
    split
    · exact ⟨hpast r₀ hr₀,fun m => hnonneg r₀ hr₀ m⟩
    · exact ⟨hpast r₀ hr₀,hnonneg r₀ hr₀⟩
  exact ⟨fun r hr => (horigin r hr).1,fun r hr => (horigin r hr).2⟩

include hlive

/-- From the moment a refusal names, the reservation succeeds. -/
theorem granted_after (hcaps : WithinCaps caller estimate poolId) (hnow : now ≤ t)
    (ht : waitUntil caller estimate poolId ledger now ≤ t) :
    Granted caller estimate poolId ledger t := by
  intro id hfresh
  have hpast' : ∀ r ∈ countedRows caller ledger now, r.createdAt ≤ now :=
    (countedRows_plain hpast hnonneg).1
  have hnonneg' : ∀ r ∈ countedRows caller ledger now, ∀ m, 0 ≤ rowMetricValue r m :=
    (countedRows_plain hpast hnonneg).2
  obtain ⟨hzero,hwaits⟩ := limitRetryAt_le_iff.mp ht
  have hpast_t : ∀ r ∈ ledger.reservations, r.createdAt ≤ t := fun r hr => (hpast r hr).trans hnow
  refine reserveQuota_granted (liveStates_later hlive hnow) ?_ hfresh
  refine limitRetryAt_le_iff.mpr ⟨hzero,fun limit hlimit => ?_⟩
  have hfits := limitWait_fits (activeRows_sorted _ _) hnonneg'
    (hcaps limit (effective_of_offline hlimit)) hpast' hnow hzero (hwaits limit hlimit)
  have hfits_t : Fits (countedRows caller ledger t) estimate (normalizedPool poolId)
      caller.options.realtimeQuotaReservePercent caller.profile.safetyMarginPercent t limit := by
    rw [fits_activeRows hpast_t] at hfits ⊢
    intro hpos
    have hfreed : windowUsage caller.scopeKey limit t (expireReservations t ledger.reservations) ≤
        windowUsage caller.scopeKey limit t (expireReservations now ledger.reservations) :=
      windowUsage_expire_le hnonneg hnow
    linarith [hfits hpos]
  rw [limitWait_of_fits (countedRows_plain hpast_t hnonneg).2 hfits_t]
  exact hzero

/-- While all windows roll, the reservation is refused until then. -/
theorem refused_before (hcaps : WithinCaps caller estimate poolId)
    (hrolling : ∀ limit ∈ effectiveLimits caller.profile caller.options,
      limit.resetPolicy = .rolling)
    (hlong : ∀ r ∈ ledger.reservations,
      Outlasts caller.scopeKey (effectiveLimits caller.profile caller.options) r)
    (hnow : now ≤ t) (ht : t < waitUntil caller estimate poolId ledger now) :
    Refused caller estimate poolId ledger t := by
  intro id
  have hnonneg' : ∀ r ∈ countedRows caller ledger now, ∀ m, 0 ≤ rowMetricValue r m :=
    (countedRows_plain hpast hnonneg).2
  have hpast_t : ∀ r ∈ ledger.reservations, r.createdAt ≤ t := fun r hr => (hpast r hr).trans hnow
  refine ⟨_,reserveQuota_refused (liveStates_later hlive hnow) ?_ id⟩
  by_contra hsoon
  obtain ⟨hzero,hwaits⟩ := limitRetryAt_le_iff.mp (not_lt.mp hsoon)
  refine absurd (limitRetryAt_le_iff.mpr ⟨hzero,fun limit hlimit => ?_⟩) (not_le.mpr ht)
  have hmem := effective_of_offline hlimit
  have hroll := hrolling limit hmem
  rw [limitWait_rolling (activeRows_sorted _ _) hnonneg' hroll (hcaps limit hmem) hnow hzero]
  have hfits := (limitWait_rolling (activeRows_sorted _ _) (countedRows_plain hpast_t hnonneg).2 hroll
    (hcaps limit hmem) (le_refl t) hzero).mp (hwaits limit hlimit)
  rw [fits_activeRows hpast_t] at hfits ⊢
  rwa [← windowUsage_expire_eq hlong hmem hroll hnow]

end Unchanged

/-- The moment a refusal names lies ahead; a request no limit is too small for succeeds from then
on, and while all windows roll and no reservation is dropped inside its window, not before. -/
theorem quota_refusal_names_retry {id : String} {retryAt : ℚ}
    (hlive : liveStates ledger.runtime caller.scopeKey now = [])
    (hpast : ∀ r ∈ ledger.reservations, r.createdAt ≤ now)
    (hnonneg : ∀ r ∈ ledger.reservations, ∀ m, 0 ≤ rowMetricValue r m)
    (hrefused : reserveQuota caller estimate poolId now id ledger = .error (.unavailable retryAt)) :
    now < retryAt ∧
    (WithinCaps caller estimate poolId →
      (∀ t, retryAt ≤ t → Granted caller estimate poolId ledger t) ∧
      ((∀ limit ∈ effectiveLimits caller.profile caller.options, limit.resetPolicy = .rolling) →
        (∀ r ∈ ledger.reservations,
          Outlasts caller.scopeKey (effectiveLimits caller.profile caller.options) r) →
        ∀ t, now ≤ t → t < retryAt → Refused caller estimate poolId ledger t)) := by
  obtain ⟨hahead,rfl⟩ := reserveQuota_unavailable hlive hrefused
  refine ⟨hahead,fun hcaps => ⟨fun t ht => ?_,fun hrolling hlong t hnow ht => ?_⟩⟩
  · exact granted_after hlive hpast hnonneg hcaps (hahead.le.trans ht) ht
  · exact refused_before hlive hpast hnonneg hcaps hrolling hlong hnow ht

end Reserve

/-! A reservation that is dropped inside a window. -/

/-- One request a day. -/
def dailyCaller : QuotaCaller where
  providerId := "p1"
  scopeKey := "group:account:model"
  profile := { source := "bundled_registry", safetyMarginPercent := 0, limits := [
    { metric := .requests, amount := 1, windowSeconds := 86400 }] }
  options := {}

def reservedRow (expiresAt : ℚ) : QuotaRow where
  id := "r1"
  scopeKey := "group:account:model"
  providerId := "p1"
  poolId := "realtime"
  state := .reserved
  domainCount := 1
  requestCount := 1
  inputTokens := 0
  outputTokens := 0
  units := 0
  createdAt := 1000
  expiresAt := expiresAt
  completedAt := none

/-- A reservation made while the longest window was an hour. -/
def shortLedger : QuotaLedger := ⟨[reservedRow 4600],∅⟩

/-- It is dropped after that hour, although a window of a day still holds it. -/
theorem dropped_reservation_frees_early :
    reserveQuota dailyCaller {} "realtime" 1100 "r2" shortLedger = .error (.unavailable 87400) ∧
    (∀ r ∈ shortLedger.reservations, r.createdAt ≤ 1100 ∧ ∀ m, 0 ≤ rowMetricValue r m) ∧
    WithinCaps dailyCaller {} "realtime" ∧
    (∀ limit ∈ effectiveLimits dailyCaller.profile dailyCaller.options,
      limit.resetPolicy = .rolling) ∧
    Granted dailyCaller {} "realtime" shortLedger 4600 := by
  have hwait : waitUntil dailyCaller {} "realtime" shortLedger 1100 = 87400 := by decide +kernel
  refine ⟨?_,?_,?_,by decide,fun id hfresh => ?_⟩
  · rw [reserveQuota_refused (by decide) (by rw [hwait]; norm_num) "r2",hwait]
  · intro r hr
    obtain rfl := List.mem_singleton.mp hr
    exact ⟨by decide,fun m => by cases m <;> simp [rowMetricValue,reservedRow]⟩
  · intro limit hlimit
    obtain rfl := List.mem_singleton.mp hlimit
    decide +kernel
  · exact reserveQuota_granted (by decide +kernel) (by decide +kernel) hfresh

/-- A reservation that outlasts the window of a day. -/
def fullLedger : QuotaLedger := ⟨[reservedRow 87400],∅⟩

theorem quota_refusal_names_retry_daily :
    Granted dailyCaller {} "realtime" fullLedger 87400 ∧
    Refused dailyCaller {} "realtime" fullLedger 87399 := by
  have hwait : waitUntil dailyCaller {} "realtime" fullLedger 1100 = 87400 := by decide +kernel
  have hrefused : reserveQuota dailyCaller {} "realtime" 1100 "r2" fullLedger =
      .error (.unavailable 87400) := by
    rw [reserveQuota_refused (by decide) (by rw [hwait]; norm_num) "r2",hwait]
  have hpast : ∀ r ∈ fullLedger.reservations, r.createdAt ≤ 1100 := by decide
  have hnonneg : ∀ r ∈ fullLedger.reservations, ∀ m, 0 ≤ rowMetricValue r m := by
    intro r hr m
    obtain rfl := List.mem_singleton.mp hr
    cases m <;> simp [rowMetricValue,reservedRow]
  have hcaps : WithinCaps dailyCaller {} "realtime" := by
    intro limit hlimit
    obtain rfl := List.mem_singleton.mp hlimit
    decide +kernel
  have hlong : ∀ r ∈ fullLedger.reservations,
      Outlasts dailyCaller.scopeKey (effectiveLimits dailyCaller.profile dailyCaller.options) r := by
    intro r hr _ _ limit hlimit
    obtain rfl := List.mem_singleton.mp hr
    obtain rfl := List.mem_singleton.mp hlimit
    decide +kernel
  obtain ⟨-,hnames⟩ := quota_refusal_names_retry (by decide) hpast hnonneg hrefused
  obtain ⟨hgranted,hbefore⟩ := hnames hcaps
  exact ⟨hgranted _ (le_refl _),hbefore (by decide) hlong _ (by norm_num) (by norm_num)⟩

end Quota
end WormholeObservatory
