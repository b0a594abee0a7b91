import WormholeObservatory.Quota
import WormholeObservatory.Runs

/-! Window safety of the quota ledger: no run of reservations, completions and
cancellations lets a window of a limit fill beyond its cap. -/
namespace WormholeObservatory
namespace Quota

open Transition

/-- A sum over selected entries grows when the selection and the entries grow. -/
theorem sum_filter_le {α : Type*} (l : List α) {p q : α → Bool} {f g : α → ℚ}
    (hpq : ∀ x ∈ l, p x = true → q x = true ∧ f x ≤ g x)
    (hg : ∀ x ∈ l, q x = true → 0 ≤ g x) :
    ((l.filter p).map f).sum ≤ ((l.filter q).map g).sum := by
  induction l with
  | nil => simp
  | cons x l ih =>
    have ht := ih (fun y hy => hpq y (by simp [hy])) (fun y hy => hg y (by simp [hy]))
    have hx := hpq x (by simp)
    have hx' := hg x (by simp)
    cases hp : p x with
    | true =>
      obtain ⟨hq,hle⟩ := hx hp
      simp only [List.filter_cons,hp,hq,if_true,List.map_cons,List.sum_cons]
      linarith
    | false =>
      cases hq : q x with
      | true =>
        have := hx' hq
        simp only [List.filter_cons,hp,hq,if_true,List.map_cons,List.sum_cons]
        simp only [Bool.false_eq_true,if_false]
        linarith
      | false => simpa [List.filter_cons,hp,hq] using ht

/-- The rows whose use falls in the window of a limit that ends at `t`. -/
def countedAt (limit : ProviderLimit) (t createdAt : ℚ) : Bool :=
  match limit.resetPolicy with
  | .utcDay => utcDayStart t ≤ createdAt
  | .rolling => t-limit.windowSeconds < createdAt && createdAt ≤ t

/-- Use of a limit's metric, by all rows of the scope that are reserved or
completed, in the window that ends at `t`. -/
def windowUsage (scopeKey : String) (limit : ProviderLimit) (t : ℚ) (rows : List QuotaRow) : ℚ :=
  metricSum (rows.filter fun r => counts scopeKey r && countedAt limit t r.createdAt) limit.metric

def NonnegEstimate (e : QuotaEstimate) : Prop :=
  0 ≤ e.requestCount ∧ 0 ≤ e.inputTokens ∧ 0 ≤ e.outputTokens ∧ 0 ≤ e.units

inductive QuotaCall
  | reserve (caller : QuotaCaller) (estimate : QuotaEstimate) (poolId : String) (now : ℚ)
      (id : String)
  | complete (reservation : QuotaReservation) (usage : Option ProviderUsage)
      (profile : Option ProviderLimitProfile) (now : ℚ)
  | cancel (reservation : QuotaReservation) (now : ℚ)

def QuotaCall.now : QuotaCall → ℚ
  | .reserve _ _ _ now _ => now
  | .complete _ _ _ now => now
  | .cancel _ now => now

/-- The ledger after a call; a refused reservation leaves it as it was. -/
def exec [CaseTables] (ledger : QuotaLedger) : QuotaCall → QuotaLedger
  | .reserve caller estimate poolId now id =>
    match reserveQuota caller estimate poolId now id ledger with
    | .ok (_,ledger') => ledger'
    | .error _ => ledger
  | .complete reservation usage profile now => completeQuota reservation usage profile [] now ledger
  | .cancel reservation now => cancelQuota reservation now ledger

/-- The calls a run may make: those of the scope share its profile and options,
estimates are nonnegative, and a completion books at most what its row reserved. -/
def Admissible (c : QuotaCaller) (ledger : QuotaLedger) : QuotaCall → Prop
  | .reserve caller estimate _ _ _ => NonnegEstimate estimate ∧
      (caller.scopeKey = c.scopeKey → caller.profile = c.profile ∧ caller.options = c.options)
  | .complete reservation usage profile _ => NonnegEstimate reservation.estimate ∧
      ∀ r ∈ ledger.reservations, r.id = reservation.reservationId → r.state = .reserved →
        let booked := normalizedUsage usage reservation.estimate profile
        booked.inputTokens ≤ r.inputTokens ∧ booked.outputTokens ≤ r.outputTokens ∧
          booked.units ≤ r.units
  | .cancel _ _ => True

structure Clocked where
  ledger : QuotaLedger
  clock : ℚ

/-- One call under a clock that never goes back. -/
def Step [CaseTables] (c : QuotaCaller) (w : Clocked) (call : QuotaCall) (w' : Clocked) : Prop :=
  w.clock ≤ call.now ∧ Admissible c w.ledger call ∧ w' = ⟨exec w.ledger call,call.now⟩

structure Invariant (c : QuotaCaller) (w : Clocked) : Prop where
  past : ∀ r ∈ w.ledger.reservations, r.createdAt ≤ w.clock
  nonneg : ∀ r ∈ w.ledger.reservations, ∀ m, 0 ≤ rowMetricValue r m
  offline : w.ledger.runtime = ∅
  bound : ∀ limit ∈ effectiveLimits c.profile c.options, ∀ t, w.clock ≤ t →
    windowUsage c.scopeKey limit t w.ledger.reservations ≤
      safeCap limit c.profile.safetyMarginPercent

/-! What an accepted reservation has checked. -/

theorem drainUntil_gt (metric : Metric) (candidate cap : ℚ) (windowSeconds : ℤ) {now : ℚ}
    (rows : List QuotaRow) (reduced retryAt : ℚ) (hretry : now < retryAt)
    (hrows : ∀ r ∈ rows, now < r.createdAt+windowSeconds) :
    now < drainUntil metric candidate cap windowSeconds rows reduced retryAt := by
  induction rows generalizing reduced retryAt with
  | nil => simpa [drainUntil] using hretry
  | cons row rows ih =>
    have hrow := hrows row (by simp)
    have htail : ∀ r ∈ rows, now < r.createdAt+windowSeconds :=
      fun r hr => hrows r (by simp [hr])
    simp only [drainUntil]
    split
    · exact hrow
    · exact ih _ _ hrow htail

/-- A rolling limit that asks for no wait has room for the candidate. -/
theorem retryAtForLimit_fits {rows : List QuotaRow} {metric : Metric} {candidate cap now : ℚ}
    {windowSeconds : ℤ} (hrows : ∀ r ∈ rows, now-windowSeconds < r.createdAt)
    (h : retryAtForLimit rows metric candidate cap windowSeconds now ≤ now) :
    metricSum rows metric+candidate ≤ cap := by
  have hwait : now < now+max 1 windowSeconds := by
    have hone : (1 : ℚ) ≤ max 1 (windowSeconds : ℚ) := le_max_left _ _
    push_cast
    linarith
  by_contra hfull
  simp only [retryAtForLimit] at h
  split_ifs at h with hbig
  · linarith
  · have hdrain := drainUntil_gt metric candidate cap windowSeconds rows
      (metricSum rows metric) _ hwait (fun r hr => by linarith [hrows r hr])
    exact absurd ((le_max_right _ _).trans h) (not_le.mpr hdrain)

theorem lt_utcDayStart_add (t : ℚ) : t < utcDayStart t+86400 := by
  have h := Int.lt_floor_add_one (t/86400)
  simp only [utcDayStart]
  linarith

theorem utcDayStart_mono {s t : ℚ} (h : s ≤ t) : utcDayStart s ≤ utcDayStart t := by
  have hdiv : s/86400 ≤ t/86400 := by linarith
  have hfloor : (⌊s/86400⌋ : ℚ) ≤ ⌊t/86400⌋ := by exact_mod_cast Int.floor_le_floor hdiv
  simp only [utcDayStart]
  linarith

section Checks

variable {rows : List QuotaRow} {estimate : QuotaEstimate} {poolId : String}
  {reserve margin now : ℚ}

theorem le_retryAtOfLimit (retryAt : ℚ) (limit : ProviderLimit) :
    retryAt ≤ retryAtOfLimit rows estimate poolId reserve margin now retryAt limit := by
  simp only [retryAtOfLimit]
  split
  · exact le_refl _
  · cases limit.resetPolicy with
    | utcDay => dsimp only; split <;> simp
    | rolling => simp

theorem retryAtOfLimit_fits {retryAt : ℚ} {limit : ProviderLimit}
    (hpos : 0 < metricValue estimate limit.metric)
    (h : retryAtOfLimit rows estimate poolId reserve margin now retryAt limit ≤ now) :
    metricSum (rows.filter fun r => inWindow limit now r.createdAt) limit.metric
      +metricValue estimate limit.metric ≤ poolCap limit poolId reserve margin := by
  simp only [retryAtOfLimit,not_le.mpr hpos,if_false] at h
  cases hp : limit.resetPolicy with
  | utcDay =>
    simp only [hp] at h
    split at h
    · have hday := lt_utcDayStart_add now
      have hmax := le_max_right retryAt (utcDayStart now+86400)
      linarith
    · rename_i hfit
      exact not_lt.mp hfit
  | rolling =>
    simp only [hp] at h
    have hle := (le_max_right _ _).trans h
    apply retryAtForLimit_fits _ hle
    intro r hr
    have hw := (List.mem_filter.mp hr).2
    simpa [inWindow,hp] using hw

/-- The accumulating loop asks for no wait only if no limit does. -/
theorem limitRetryAt_fits {limits : List ProviderLimit} {limit : ProviderLimit}
    (hmem : limit ∈ limits) (hpos : 0 < metricValue estimate limit.metric)
    (h : limitRetryAt rows limits estimate poolId reserve margin now ≤ now) :
    metricSum (rows.filter fun r => inWindow limit now r.createdAt) limit.metric
      +metricValue estimate limit.metric ≤ poolCap limit poolId reserve margin := by
  have hgrow : ∀ (ls : List ProviderLimit) (retryAt : ℚ),
      retryAt ≤ ls.foldl (retryAtOfLimit rows estimate poolId reserve margin now) retryAt := by
    intro ls
    induction ls with
    | nil => intro retryAt; simp
    | cons l ls ih => intro retryAt; exact (le_retryAtOfLimit retryAt l).trans (ih _)
  obtain ⟨before,after,rfl⟩ := List.append_of_mem hmem
  simp only [limitRetryAt,List.foldl_append,List.foldl_cons] at h
  exact retryAtOfLimit_fits hpos ((hgrow after _).trans h)

end Checks

/-- Inserting limits with pairwise different keys keeps every one of them. -/
theorem lookup_foldl_insert (limits : List ProviderLimit)
    (hkeys : (limits.map limitKey).Nodup) (t : Table (Metric × ℤ) ProviderLimit)
    {limit : ProviderLimit} (hmem : limit ∈ limits) :
    (limits.foldl (fun t limit => t.insert (limitKey limit) limit) t).lookup (limitKey limit) =
      some limit := by
  have hskip : ∀ (ls : List ProviderLimit) (t : Table (Metric × ℤ) ProviderLimit) (k : Metric × ℤ),
      k ∉ ls.map limitKey →
      (ls.foldl (fun t limit => t.insert (limitKey limit) limit) t).lookup k = t.lookup k := by
    intro ls
    induction ls with
    | nil => intro t k _; rfl
    | cons l ls ih =>
      intro t k hk
      simp only [List.map_cons,List.mem_cons,not_or] at hk
      rw [List.foldl_cons,ih _ _ hk.2,AList.lookup_insert_ne hk.1]
  induction limits generalizing t with
  | nil => simp at hmem
  | cons l limits ih =>
    simp only [List.map_cons,List.nodup_cons] at hkeys
    rcases List.mem_cons.mp hmem with rfl | hmem
    · rw [List.foldl_cons,hskip _ _ _ hkeys.1,AList.lookup_insert]
    · exact ih hkeys.2 _ hmem

/-- Without live states the limits in force are the profile's own. -/
theorem mem_limitsWithLiveState {limits : List ProviderLimit} (profile : ProviderLimitProfile)
    (hkeys : (limits.map limitKey).Nodup) {limit : ProviderLimit} (hmem : limit ∈ limits) :
    limit ∈ limitsWithLiveState [] limits profile := by
  simp only [limitsWithLiveState,List.foldl_nil]
  split
  · exact hmem
  · have hlook := lookup_foldl_insert limits hkeys ∅ hmem
    rw [List.mem_insertionSort]
    exact List.mem_map.mpr ⟨_,Table.lookup_eq_some.mp hlook,rfl⟩

/-! How window use changes. -/

theorem metricSum_perm {rows rows' : List QuotaRow} (h : rows.Perm rows') (metric : Metric) :
    metricSum rows metric = metricSum rows' metric :=
  (h.map _).sum_eq

/-- At a time no row lies ahead of, the check reads exactly the window use. -/
theorem metricSum_activeRows {scopeKey : String} {limit : ProviderLimit} {now : ℚ}
    {rows : List QuotaRow} (hpast : ∀ r ∈ rows, r.createdAt ≤ now) :
    metricSum ((activeRows scopeKey rows).filter fun r => inWindow limit now r.createdAt)
      limit.metric = windowUsage scopeKey limit now rows := by
  have hperm : ((activeRows scopeKey rows).filter fun r => inWindow limit now r.createdAt).Perm
      ((rows.filter (counts scopeKey)).filter fun r => inWindow limit now r.createdAt) :=
    (List.perm_insertionSort _ _).filter _
  rw [metricSum_perm hperm,windowUsage,List.filter_filter]
  congr 1
  apply List.filter_congr
  intro r hr
  have hr' := hpast r hr
  cases hp : limit.resetPolicy <;> simp [inWindow,countedAt,hp,hr',Bool.and_comm]

/-- A row update that can only give use back. -/
structure Shrinks (r' r : QuotaRow) : Prop where
  createdAt : r'.createdAt = r.createdAt
  scopeKey : r'.scopeKey = r.scopeKey
  live : r'.state ≠ .cancelled → r.state ≠ .cancelled
  metric : ∀ m, rowMetricValue r' m ≤ rowMetricValue r m

theorem Shrinks.refl (r : QuotaRow) : Shrinks r r := ⟨rfl,rfl,id,fun _ => le_refl _⟩

theorem Shrinks.counts {r' r : QuotaRow} (h : Shrinks r' r) {scopeKey : String}
    (hr : counts scopeKey r' = true) : Quota.counts scopeKey r = true := by
  simp only [Quota.counts,Bool.and_eq_true,decide_eq_true_eq] at hr ⊢
  exact ⟨h.scopeKey ▸ hr.1,h.live hr.2⟩

theorem windowUsage_map_le {scopeKey : String} {limit : ProviderLimit} {t : ℚ}
    {rows : List QuotaRow} {g : QuotaRow → QuotaRow} (hg : ∀ r ∈ rows, Shrinks (g r) r)
    (hnonneg : ∀ r ∈ rows, ∀ m, 0 ≤ rowMetricValue r m) :
    windowUsage scopeKey limit t (rows.map g) ≤ windowUsage scopeKey limit t rows := by
  simp only [windowUsage,metricSum,List.filter_map,List.map_map]
  apply sum_filter_le
  · intro r hr hcount
    have hs := hg r hr
    simp only [Function.comp_apply,Bool.and_eq_true,hs.createdAt] at hcount ⊢
    exact ⟨⟨hs.counts hcount.1,hcount.2⟩,hs.metric _⟩
  · intro r hr _
    exact hnonneg r hr _

/-- As the window moves on it only loses rows. -/
theorem windowUsage_anti (scopeKey : String) (limit : ProviderLimit) {now t : ℚ}
    {rows : List QuotaRow} (hnow : now ≤ t) (hpast : ∀ r ∈ rows, r.createdAt ≤ now)
    (hnonneg : ∀ r ∈ rows, ∀ m, 0 ≤ rowMetricValue r m) :
    windowUsage scopeKey limit t rows ≤ windowUsage scopeKey limit now rows := by
  apply sum_filter_le
  · intro r hr hcount
    simp only [Bool.and_eq_true] at hcount ⊢
    refine ⟨⟨hcount.1,?_⟩,le_refl _⟩
    have hr' := hpast r hr
    cases hp : limit.resetPolicy with
    | utcDay =>
      have hday := utcDayStart_mono hnow
      simp only [countedAt,hp,decide_eq_true_eq] at hcount ⊢
      linarith [hcount.2]
    | rolling =>
      simp only [countedAt,hp,Bool.and_eq_true,decide_eq_true_eq] at hcount ⊢
      exact ⟨by linarith [hcount.2.1],hr'⟩
  · intro r hr _
    exact hnonneg r hr _

theorem windowUsage_snoc (scopeKey : String) (limit : ProviderLimit) (t : ℚ)
    (rows : List QuotaRow) (r : QuotaRow) :
    windowUsage scopeKey limit t (rows++[r]) = windowUsage scopeKey limit t rows
      +if counts scopeKey r && countedAt limit t r.createdAt then rowMetricValue r limit.metric
        else 0 := by
  simp only [windowUsage,metricSum,List.filter_append,List.map_append,List.sum_append]
  congr 1
  cases hc : (counts scopeKey r && countedAt limit t r.createdAt) <;> simp [hc]

theorem windowUsage_snoc_le (scopeKey : String) {limit : ProviderLimit} (t : ℚ)
    (rows : List QuotaRow) {r : QuotaRow} (hr : 0 ≤ rowMetricValue r limit.metric) :
    windowUsage scopeKey limit t (rows++[r]) ≤
      windowUsage scopeKey limit t rows+rowMetricValue r limit.metric := by
  rw [windowUsage_snoc]
  split <;> linarith

theorem windowUsage_snoc_other {scopeKey : String} {limit : ProviderLimit} (t : ℚ)
    {rows : List QuotaRow} {r : QuotaRow} (hr : r.scopeKey ≠ scopeKey) :
    windowUsage scopeKey limit t (rows++[r]) = windowUsage scopeKey limit t rows := by
  simp [windowUsage_snoc,counts,hr]

/-! The three row updates of the ledger give use back. -/

theorem expire_shrinks (now : ℚ) (r : QuotaRow) :
    Shrinks (if r.state = .reserved ∧ r.expiresAt ≤ now then
      { r with state := .cancelled, completedAt := some now } else r) r := by
  split
  · exact ⟨rfl,rfl,by simp,fun m => by cases m <;> simp [rowMetricValue]⟩
  · exact .refl r

theorem complete_shrinks {selected : ProviderUsage} {r : QuotaRow} (now : ℚ)
    (hstate : r.state = .reserved) (hin : selected.inputTokens ≤ r.inputTokens)
    (hout : selected.outputTokens ≤ r.outputTokens) (hunits : selected.units ≤ r.units) :
    Shrinks (completeRow selected now r) r := by
  have hin' : (selected.inputTokens : ℚ) ≤ r.inputTokens := by exact_mod_cast hin
  have hout' : (selected.outputTokens : ℚ) ≤ r.outputTokens := by exact_mod_cast hout
  refine ⟨rfl,rfl,by simp [hstate],fun m => ?_⟩
  cases m <;> simp only [rowMetricValue,completeRow] <;> linarith

theorem cancel_shrinks (id : String) (now : ℚ) (r : QuotaRow) :
    Shrinks (if r.id = id ∧ r.state = .reserved then
      { r with state := .cancelled, completedAt := some now } else r) r := by
  split
  · exact ⟨rfl,rfl,by simp,fun m => by cases m <;> simp [rowMetricValue]⟩
  · exact .refl r

/-- What a completion books is never negative. -/
theorem completeRow_nonneg {usage : Option ProviderUsage} {estimate : QuotaEstimate}
    {profile : Option ProviderLimitProfile} (hest : NonnegEstimate estimate) {r : QuotaRow}
    (hr : ∀ m, 0 ≤ rowMetricValue r m) (now : ℚ) (m : Metric) :
    0 ≤ rowMetricValue (completeRow (normalizedUsage usage estimate profile) now r) m := by
  obtain ⟨_,hin,hout,hunits⟩ := hest
  have hprice : ∀ (i o : ℤ) (p : ProviderLimitProfile), 0 ≤ unitsForUsage i o p := by
    intro i o p
    have hi : (0 : ℚ) ≤ max 0 (i : ℚ) := le_max_left _ _
    have ho : (0 : ℚ) ≤ max 0 (o : ℚ) := le_max_left _ _
    have hpi : (0 : ℚ) ≤ p.inputUnitsPerMillionTokens := p.inputUnitsPerMillionTokens.2
    have hpo : (0 : ℚ) ≤ p.outputUnitsPerMillionTokens := p.outputUnitsPerMillionTokens.2
    unfold unitsForUsage
    positivity
  have htokens : 0 ≤ (normalizedUsage usage estimate profile).inputTokens ∧
      0 ≤ (normalizedUsage usage estimate profile).outputTokens := by
    cases usage with
    | none => exact ⟨hin,hout⟩
    | some u => simp only [normalizedUsage]; constructor <;> split <;> simp [hin,hout]
  have hbooked : 0 ≤ (normalizedUsage usage estimate profile).units := by
    cases usage with
    | none => exact hunits
    | some u =>
      cases profile with
      | none => simp [normalizedUsage]
      | some p =>
        simp only [normalizedUsage]
        split
        · exact hprice _ _ _
        · exact le_max_left _ _
  have hin' : (0 : ℚ) ≤ (normalizedUsage usage estimate profile).inputTokens := by
    exact_mod_cast htokens.1
  have hout' : (0 : ℚ) ≤ (normalizedUsage usage estimate profile).outputTokens := by
    exact_mod_cast htokens.2
  cases m with
  | requests => exact hr .requests
  | inputTokens => exact hin'
  | outputTokens => exact hout'
  | totalTokens => exact add_nonneg hin' hout'
  | units => exact hbooked
  | other name => exact le_refl _

/-- The row a reservation inserts. -/
structure Inserts (caller : QuotaCaller) (estimate : QuotaEstimate) (now : ℚ) (row : QuotaRow) :
    Prop where
  scopeKey : row.scopeKey = caller.scopeKey
  createdAt : row.createdAt = now
  metric : NonnegEstimate estimate → ∀ m, rowMetricValue row m = metricValue estimate m

/-- An accepted reservation drops what is overdue, found no reason to wait, and
adds one row. -/
theorem reserveQuota_ok [CaseTables] {caller : QuotaCaller} {estimate : QuotaEstimate}
    {poolId id : String} {now : ℚ} {ledger ledger' : QuotaLedger} {reservation : QuotaReservation}
    (h : reserveQuota caller estimate poolId now id ledger = .ok (reservation,ledger')) :
    ledger'.runtime = ledger.runtime ∧
    (∃ row, ledger'.reservations = expireReservations now ledger.reservations++[row] ∧
      Inserts caller estimate now row) ∧
    limitRetryAt (activeRows caller.scopeKey (expireReservations now ledger.reservations))
      (limitsWithLiveState (liveStates ledger.runtime caller.scopeKey now)
        (effectiveLimits caller.profile caller.options) caller.profile) estimate
      (normalizedPool poolId) caller.options.realtimeQuotaReservePercent
      caller.profile.safetyMarginPercent now ≤ now := by
  simp only [reserveQuota] at h
  split_ifs at h with hwait hdup
  simp only [Except.ok.injEq,Prod.mk.injEq] at h
  obtain ⟨-,rfl⟩ := h
  refine ⟨rfl,⟨_,rfl,rfl,rfl,?_⟩,(le_max_left _ _).trans (not_lt.mp hwait)⟩
  rintro ⟨hreq,hin,hout,hunits⟩ m
  cases m <;> simp [rowMetricValue,metricValue,QuotaEstimate.totalTokens,hreq,hin,hout,hunits]

theorem poolCap_le_safeCap {limit : ProviderLimit} (hamount : 0 < limit.amount) (poolId : String)
    (reserve margin : ℚ) : poolCap limit poolId reserve margin ≤ safeCap limit margin := by
  have hsafe : 0 ≤ safeCap limit margin := by
    have hm : min 50 (max 0 margin) ≤ 50 := min_le_left _ _
    unfold safeCap
    apply mul_nonneg hamount.le
    linarith
  have hr : 0 ≤ min 90 (max 0 reserve) := le_min (by norm_num) (le_max_left _ _)
  unfold poolCap
  split
  · nlinarith
  · exact le_refl _

/-- The limits a claim about a profile is made for. -/
structure WellFormed (profile : ProviderLimitProfile) : Prop where
  keys : (profile.limits.map limitKey).Nodup
  amount : ∀ limit ∈ profile.limits, 0 < limit.amount
  day : ∀ limit ∈ profile.limits, limit.resetPolicy = .utcDay → limit.windowSeconds = 86400

theorem effectiveLimits_keys {profile : ProviderLimitProfile} (h : WellFormed profile)
    (options : LLMOptions) : ((effectiveLimits profile options).map limitKey).Nodup := by
  simp only [effectiveLimits]
  split
  · exact h.keys
  · simp

theorem effectiveLimits_amount {profile : ProviderLimitProfile} (h : WellFormed profile)
    {options : LLMOptions} {limit : ProviderLimit} (hmem : limit ∈ effectiveLimits profile options) :
    0 < limit.amount := by
  simp only [effectiveLimits] at hmem
  split at hmem
  · exact h.amount limit hmem
  · obtain rfl := List.mem_singleton.mp hmem
    have : (1 : ℚ) ≤ max 1 (options.unknownRemoteRequestsPerMinute : ℚ) := le_max_left _ _
    dsimp only
    linarith

section Steps

variable {c : QuotaCaller} {w : Clocked}

theorem expired_past {now : ℚ} (hi : Invariant c w) (hnow : w.clock ≤ now) :
    ∀ r ∈ expireReservations now w.ledger.reservations, r.createdAt ≤ now := by
  intro r hr
  obtain ⟨r₀,hr₀,rfl⟩ := List.mem_map.mp hr
  rw [(expire_shrinks now r₀).createdAt]
  exact (hi.past r₀ hr₀).trans hnow

theorem expired_nonneg {now : ℚ} (hi : Invariant c w) :
    ∀ r ∈ expireReservations now w.ledger.reservations, ∀ m, 0 ≤ rowMetricValue r m := by
  intro r hr m
  obtain ⟨r₀,hr₀,rfl⟩ := List.mem_map.mp hr
  split
  · exact hi.nonneg r₀ hr₀ m
  · exact hi.nonneg r₀ hr₀ m

theorem expired_bound {now : ℚ} (hi : Invariant c w) (hnow : w.clock ≤ now)
    {limit : ProviderLimit} (hmem : limit ∈ effectiveLimits c.profile c.options) {t : ℚ}
    (ht : now ≤ t) :
    windowUsage c.scopeKey limit t (expireReservations now w.ledger.reservations) ≤
      safeCap limit c.profile.safetyMarginPercent :=
  (windowUsage_map_le (fun r _ => expire_shrinks now r) hi.nonneg).trans
    (hi.bound limit hmem t (hnow.trans ht))

/-- Row updates that give use back keep the invariant. -/
theorem Invariant.shrink (hi : Invariant c w) {g : QuotaRow → QuotaRow} {now : ℚ}
    (hnow : w.clock ≤ now) (hg : ∀ r ∈ w.ledger.reservations, Shrinks (g r) r)
    (hnonneg : ∀ r ∈ w.ledger.reservations, ∀ m, 0 ≤ rowMetricValue (g r) m)
    {ledger' : QuotaLedger} (hrows : ledger'.reservations = w.ledger.reservations.map g)
    (hruntime : ledger'.runtime = w.ledger.runtime) : Invariant c ⟨ledger',now⟩ where
  past r hr := by
    obtain ⟨r₀,hr₀,rfl⟩ := List.mem_map.mp (hrows ▸ hr)
    rw [(hg r₀ hr₀).createdAt]
    exact (hi.past r₀ hr₀).trans hnow
  nonneg r hr m := by
    obtain ⟨r₀,hr₀,rfl⟩ := List.mem_map.mp (hrows ▸ hr)
    exact hnonneg r₀ hr₀ m
  offline := hruntime.trans hi.offline
  bound limit hmem t ht := by
    rw [hrows]
    exact (windowUsage_map_le hg hi.nonneg).trans (hi.bound limit hmem t (hnow.trans ht))

/-- Later moments of an unchanged ledger. -/
theorem Invariant.later (hi : Invariant c w) {now : ℚ} (hnow : w.clock ≤ now) :
    Invariant c ⟨w.ledger,now⟩ :=
  hi.shrink hnow (fun r _ => .refl r) hi.nonneg (List.map_id' _).symm rfl

theorem invariant_empty (hwf : WellFormed c.profile) (clock : ℚ) :
    Invariant c ⟨.empty,clock⟩ where
  past := by simp [QuotaLedger.empty]
  nonneg := by simp [QuotaLedger.empty]
  offline := rfl
  bound limit hmem t _ := by
    have hm : min 50 (max 0 c.profile.safetyMarginPercent) ≤ 50 := min_le_left _ _
    simp only [windowUsage,metricSum,QuotaLedger.empty,List.filter_nil,List.map_nil,List.sum_nil,
      safeCap]
    apply mul_nonneg (effectiveLimits_amount hwf hmem).le
    linarith

variable [CaseTables]

/-- An accepted request for a metric fits beside what its window already holds. -/
theorem accepted_fits (hwf : WellFormed c.profile) (hi : Invariant c w) {estimate : QuotaEstimate}
    {poolId id : String} {now : ℚ} {ledger' : QuotaLedger} {reservation : QuotaReservation}
    {caller : QuotaCaller} (hscope : caller.scopeKey = c.scopeKey)
    (hprofile : caller.profile = c.profile) (hoptions : caller.options = c.options)
    (hnow : w.clock ≤ now)
    (hok : reserveQuota caller estimate poolId now id w.ledger = .ok (reservation,ledger'))
    {limit : ProviderLimit} (hmem : limit ∈ effectiveLimits c.profile c.options)
    (hpos : 0 < metricValue estimate limit.metric) :
    windowUsage c.scopeKey limit now (expireReservations now w.ledger.reservations)
      +metricValue estimate limit.metric ≤ poolCap limit (normalizedPool poolId)
        c.options.realtimeQuotaReservePercent c.profile.safetyMarginPercent := by
  obtain ⟨-,-,hretry⟩ := reserveQuota_ok hok
  have hlive : liveStates w.ledger.runtime caller.scopeKey now = [] := by
    simp [hi.offline,liveStates,Table.select]
  rw [hlive,hscope,hprofile,hoptions] at hretry
  have hactive := mem_limitsWithLiveState c.profile (effectiveLimits_keys hwf c.options) hmem
  have hfit := limitRetryAt_fits hactive hpos hretry
  rwa [metricSum_activeRows (expired_past hi hnow)] at hfit

theorem reserve_invariant (hwf : WellFormed c.profile) (hi : Invariant c w) {caller : QuotaCaller}
    {estimate : QuotaEstimate} {poolId id : String} {now : ℚ} {ledger' : QuotaLedger}
    {reservation : QuotaReservation} (hest : NonnegEstimate estimate)
    (hcaller : caller.scopeKey = c.scopeKey → caller.profile = c.profile ∧ caller.options = c.options)
    (hnow : w.clock ≤ now)
    (hok : reserveQuota caller estimate poolId now id w.ledger = .ok (reservation,ledger')) :
    Invariant c ⟨ledger',now⟩ := by
  obtain ⟨hruntime,⟨row,hrows,hrow⟩,-⟩ := reserveQuota_ok hok
  have hvalue := hrow.metric hest
  have hest_nonneg : ∀ m, 0 ≤ metricValue estimate m := by
    obtain ⟨hreq,hin,hout,hunits⟩ := hest
    intro m
    cases m <;> simp only [metricValue,QuotaEstimate.totalTokens] <;> first
      | exact_mod_cast hreq | exact_mod_cast hin | exact_mod_cast hout
      | exact_mod_cast add_nonneg hin hout | exact hunits | exact le_refl _
  refine ⟨?_,?_,hruntime.trans hi.offline,?_⟩
  · intro r hr
    rw [hrows] at hr
    rcases List.mem_append.mp hr with hr | hr
    · exact expired_past hi hnow r hr
    · rw [List.mem_singleton.mp hr,hrow.createdAt]
  · intro r hr m
    rw [hrows] at hr
    rcases List.mem_append.mp hr with hr | hr
    · exact expired_nonneg hi r hr m
    · rw [List.mem_singleton.mp hr,hvalue]
      exact hest_nonneg m
  · intro limit hmem t ht
    dsimp only at ht ⊢
    rw [hrows]
    by_cases hscope : caller.scopeKey = c.scopeKey
    · obtain ⟨hprofile,hoptions⟩ := hcaller hscope
      have hrow_nonneg : 0 ≤ rowMetricValue row limit.metric := hvalue _ ▸ hest_nonneg _
      have hsnoc := windowUsage_snoc_le c.scopeKey t
        (expireReservations now w.ledger.reservations) hrow_nonneg
      rw [hvalue] at hsnoc
      by_cases hpos : 0 < metricValue estimate limit.metric
      · have hfit := accepted_fits hwf hi hscope hprofile hoptions hnow hok hmem hpos
        have hanti := windowUsage_anti c.scopeKey limit ht
          (expired_past hi hnow) (expired_nonneg hi)
        have hcap := poolCap_le_safeCap (effectiveLimits_amount hwf hmem) (normalizedPool poolId)
          c.options.realtimeQuotaReservePercent c.profile.safetyMarginPercent
        linarith
      · have hbound := expired_bound hi hnow hmem ht
        linarith
    · rw [windowUsage_snoc_other t (by rw [hrow.scopeKey]; exact hscope)]
      exact expired_bound hi hnow hmem ht

theorem step_invariant (hwf : WellFormed c.profile) {w' : Clocked} {call : QuotaCall}
    (hi : Invariant c w) (h : Step c w call w') : Invariant c w' := by
  obtain ⟨hnow,hadm,rfl⟩ := h
  cases call with
  | reserve caller estimate poolId now id =>
    simp only [exec]
    cases hok : reserveQuota caller estimate poolId now id w.ledger with
    | error e => exact hi.later hnow
    | ok r =>
      obtain ⟨reservation,ledger'⟩ := r
      exact reserve_invariant hwf hi hadm.1 hadm.2 hnow hok
  | complete reservation usage profile now =>
    refine hi.shrink hnow (fun r hr => ?_) (fun r hr m => ?_) rfl (by simp [exec,completeQuota])
    · split
      · rename_i hrow
        obtain ⟨hin,hout,hunits⟩ := hadm.2 r hr hrow.1 hrow.2
        exact complete_shrinks now hrow.2 hin hout hunits
      · exact .refl r
    · split
      · exact completeRow_nonneg hadm.1 (hi.nonneg r hr) now m
      · exact hi.nonneg r hr m
  | cancel reservation now =>
    refine hi.shrink hnow (fun r _ => cancel_shrinks _ now r) (fun r hr m => ?_) rfl rfl
    split
    · exact hi.nonneg r hr m
    · exact hi.nonneg r hr m

end Steps

/-- A provider that reports no more than was reserved is booked no more than was
reserved, when the estimate priced its own tokens as the profile does. -/
theorem normalizedUsage_le {estimate : QuotaEstimate} {profile : ProviderLimitProfile}
    {usage : ProviderUsage} (hest : NonnegEstimate estimate)
    (hpriced : unitsForUsage estimate.inputTokens estimate.outputTokens profile ≤ estimate.units)
    (hin : usage.inputTokens ≤ estimate.inputTokens)
    (hout : usage.outputTokens ≤ estimate.outputTokens) (hunits : usage.units ≤ estimate.units) :
    let booked := normalizedUsage (some usage) estimate (some profile)
    booked.inputTokens ≤ estimate.inputTokens ∧ booked.outputTokens ≤ estimate.outputTokens ∧
      booked.units ≤ estimate.units := by
  obtain ⟨-,hi,ho,hu⟩ := hest
  have hmono : ∀ i o : ℤ, i ≤ estimate.inputTokens → o ≤ estimate.outputTokens →
      unitsForUsage i o profile ≤ estimate.units := by
    intro i o hi' ho'
    have hi'' : max 0 (i : ℚ) ≤ max 0 (estimate.inputTokens : ℚ) :=
      max_le_max_left _ (by exact_mod_cast hi')
    have ho'' : max 0 (o : ℚ) ≤ max 0 (estimate.outputTokens : ℚ) :=
      max_le_max_left _ (by exact_mod_cast ho')
    have hpi : (0 : ℚ) ≤ profile.inputUnitsPerMillionTokens := profile.inputUnitsPerMillionTokens.2
    have hpo : (0 : ℚ) ≤ profile.outputUnitsPerMillionTokens := profile.outputUnitsPerMillionTokens.2
    refine le_trans ?_ hpriced
    unfold unitsForUsage
    gcongr
  have hin' : (if max 0 usage.inputTokens = 0 ∧ max 0 usage.outputTokens = 0 then
      estimate.inputTokens else max 0 usage.inputTokens) ≤ estimate.inputTokens := by
    split
    · exact le_refl _
    · exact max_le hi hin
  have hout' : (if max 0 usage.inputTokens = 0 ∧ max 0 usage.outputTokens = 0 then
      estimate.outputTokens else max 0 usage.outputTokens) ≤ estimate.outputTokens := by
    split
    · exact le_refl _
    · exact max_le ho hout
  refine ⟨hin',hout',?_⟩
  simp only [normalizedUsage]
  split
  · exact hmono _ _ hin' hout'
  · exact max_le hu hunits

/-- In every run, at every moment, every window of every limit stays within its
safe cap; and a background request that is accepted leaves each window it uses
within the share background work may fill. -/
theorem quota_window_safety [CaseTables] {c : QuotaCaller} (hwf : WellFormed c.profile)
    {clock : ℚ} {calls : List QuotaCall} {w : Clocked}
    (hrun : Run (Step c) ⟨.empty,clock⟩ calls w) :
    (∀ limit ∈ effectiveLimits c.profile c.options, ∀ t, w.clock ≤ t →
      windowUsage c.scopeKey limit t w.ledger.reservations ≤
        safeCap limit c.profile.safetyMarginPercent) ∧
    ∀ estimate poolId now id reservation ledger', w.clock ≤ now → NonnegEstimate estimate →
      normalizedPool poolId = "background" →
      reserveQuota c estimate poolId now id w.ledger = .ok (reservation,ledger') →
      ∀ limit ∈ effectiveLimits c.profile c.options, 0 < metricValue estimate limit.metric →
        windowUsage c.scopeKey limit now ledger'.reservations ≤
          safeCap limit c.profile.safetyMarginPercent
            *(1-min 90 (max 0 c.options.realtimeQuotaReservePercent)/100) := by
  have hi : Invariant c w :=
    hrun.invariant (Invariant c) (fun _ _ _ hi h => step_invariant hwf hi h)
      (invariant_empty hwf clock)
  refine ⟨hi.bound,?_⟩
  intro estimate poolId now id reservation ledger' hnow hest hpool hok limit hmem hpos
  have hfit := accepted_fits hwf hi rfl rfl rfl hnow hok hmem hpos
  obtain ⟨-,⟨row,hrows,hrow⟩,-⟩ := reserveQuota_ok hok
  have hvalue := hrow.metric hest limit.metric
  have hsnoc := windowUsage_snoc_le c.scopeKey now
    (expireReservations now w.ledger.reservations) (hvalue ▸ hpos.le)
  rw [hpool,poolCap,if_pos rfl] at hfit
  rw [hrows]
  linarith

/-- One account with a rolling and a daily limit. -/
def sampleCaller : QuotaCaller where
  providerId := "p1"
  scopeKey := "group:account:model"
  profile := { source := "bundled_registry", limits := [
    { metric := .requests, amount := 2, windowSeconds := 60 },
    { metric := .totalTokens, amount := 1000, windowSeconds := 86400, resetPolicy := .utcDay }] }
  options := {}

def sampleCall : QuotaCall :=
  .reserve sampleCaller { inputTokens := 100, outputTokens := 50 } "realtime" 1000 "r1"

theorem quota_window_safety_sample :
    (exec .empty sampleCall).reservations.length = 1 ∧
    windowUsage sampleCaller.scopeKey { metric := .requests, amount := 2, windowSeconds := 60 } 1030
      (exec .empty sampleCall).reservations ≤
        safeCap { metric := .requests, amount := 2, windowSeconds := 60 } 10 := by
  have hwf : WellFormed sampleCaller.profile :=
    ⟨by decide,by simp [sampleCaller],by simp [sampleCaller]⟩
  have hadm : Admissible sampleCaller .empty sampleCall :=
    ⟨by simp [NonnegEstimate],fun _ => ⟨rfl,rfl⟩⟩
  have hrun : Run (Step sampleCaller) ⟨.empty,0⟩ [sampleCall] ⟨exec .empty sampleCall,1000⟩ :=
    .single ⟨by simp [sampleCall,QuotaCall.now],hadm,rfl⟩
  refine ⟨by decide +kernel,?_⟩
  exact (quota_window_safety hwf hrun).1 _ (by simp [effectiveLimits,sampleCaller]) 1030
    (by norm_num)

end Quota
end WormholeObservatory
