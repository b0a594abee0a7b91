import WormholeObservatory.Runs
import WormholeObservatory.Tables

/-! The health reports of providers. Each report reads the provider's row in one transaction and
writes it in another, and workers report at the same time. -/
namespace WormholeObservatory
namespace Health

open Transition

/-- A row of `provider_health`. -/
structure HealthRow where
  state : String
  cooldownUntil : ℚ
  consecutiveFailures : ℤ
  lastError : String
  lastSuccessAt : ℚ
  lastFailureAt : ℚ
  latencyEwmaMs : ℚ
  updatedAt : ℚ

/-- `ProviderHealthState`. -/
structure ProviderHealthState where
  providerId : String
  state : String := "unknown"
  cooldownUntil : ℚ := 0
  consecutiveFailures : ℤ := 0
  lastError : String := ""
  lastSuccessAt : ℚ := 0
  lastFailureAt : ℚ := 0
  latencyEwmaMs : ℚ := 0

abbrev HealthTable := Table String HealthRow

/-- `provider_health_get`. -/
def providerHealthGet (providerId : String) (health : HealthTable) : ProviderHealthState :=
  match health.lookup providerId with
  | none => { providerId := providerId }
  | some row =>
    { providerId := providerId
      state := row.state
      cooldownUntil := row.cooldownUntil
      consecutiveFailures := row.consecutiveFailures
      lastError := row.lastError
      lastSuccessAt := row.lastSuccessAt
      lastFailureAt := row.lastFailureAt
      latencyEwmaMs := row.latencyEwmaMs }

/-- A call of `provider_health_success` or `provider_health_failure`, with its `time.time()`. -/
inductive Report
  | success (providerId : String) (latencyMs : ℤ) (now : ℚ)
  | failure (providerId error : String) (cooldownUntil now : ℚ)

def Report.providerId : Report → String
  | .success providerId _ _ => providerId
  | .failure providerId _ _ _ => providerId

/-- The second transaction of `provider_health_success`. -/
def writeSuccess (providerId : String) (latencyMs : ℤ) (now : ℚ) (previous : ProviderHealthState)
    (health : HealthTable) : HealthTable :=
  let latency : ℚ := max 0 latencyMs
  let average :=
    if 0 < previous.latencyEwmaMs then previous.latencyEwmaMs*(8/10)+latency*(2/10) else latency
  health.insert providerId
    { state := "healthy"
      cooldownUntil := 0
      consecutiveFailures := 0
      lastError := ""
      lastSuccessAt := now
      lastFailureAt := ((health.lookup providerId).map HealthRow.lastFailureAt).getD
        previous.lastFailureAt
      latencyEwmaMs := average
      updatedAt := now }

/-- The second transaction of `provider_health_failure`. -/
def writeFailure (providerId error : String) (cooldownUntil now : ℚ)
    (previous : ProviderHealthState) (health : HealthTable) : HealthTable :=
  let failures := previous.consecutiveFailures+1
  let state := if now < cooldownUntil then "cooldown" else "unavailable"
  health.insert providerId
    { state := state
      cooldownUntil := max 0 cooldownUntil
      consecutiveFailures := failures
      lastError := String.ofList (error.toList.take 2000)
      lastSuccessAt := ((health.lookup providerId).map HealthRow.lastSuccessAt).getD
        previous.lastSuccessAt
      lastFailureAt := now
      latencyEwmaMs := ((health.lookup providerId).map HealthRow.latencyEwmaMs).getD
        previous.latencyEwmaMs
      updatedAt := now }

def Report.write (previous : ProviderHealthState) (health : HealthTable) : Report → HealthTable
  | .success providerId latencyMs now => writeSuccess providerId latencyMs now previous health
  | .failure providerId error cooldownUntil now =>
    writeFailure providerId error cooldownUntil now previous health

/-- Where a worker is in its report. -/
inductive Phase
  | idle
  | read (report : Report) (previous : ProviderHealthState)
  | written (report : Report)

structure World where
  health : HealthTable
  phase : ℕ → Phase

def World.enter (s : World) (worker : ℕ) (phase : Phase) : World :=
  { s with phase := Function.update s.phase worker phase }

inductive Label
  | read (worker : ℕ) (report : Report)
  | write (worker : ℕ) (report : Report)
  | fetch (worker : ℕ)
  | stop (worker : ℕ)

/-- One transaction of one worker, or its end by an exception. -/
inductive Step : World → Label → World → Prop
  | read {s : World} {w : ℕ} (report : Report) (h : s.phase w = .idle) :
    Step s (.read w report)
      (s.enter w (.read report (providerHealthGet report.providerId s.health)))
  | write {s : World} {w : ℕ} {report : Report} {previous : ProviderHealthState}
    (h : s.phase w = .read report previous) :
    Step s (.write w report)
      ({ s with health := report.write previous s.health }.enter w (.written report))
  | fetch {s : World} {w : ℕ} {report : Report} (h : s.phase w = .written report) :
    Step s (.fetch w) (s.enter w .idle)
  | stop {s : World} (w : ℕ) : Step s (.stop w) (s.enter w .idle)

/-- No report yet. -/
def start : World := ⟨∅,fun _ => .idle⟩

def Quiescent (s : World) : Prop := ∀ w, s.phase w = .idle

/-- The counter of a provider. -/
def failures (providerId : String) (s : World) : ℤ :=
  (providerHealthGet providerId s.health).consecutiveFailures

def Report.succeeds (providerId : String) : Report → Bool
  | .success id _ _ => decide (id = providerId)
  | .failure _ _ _ _ => false

def Report.fails (providerId : String) : Report → Bool
  | .success _ _ _ => false
  | .failure id _ _ _ => decide (id = providerId)

/-- Writes a success of the provider. -/
def Label.succeeds (providerId : String) : Label → Bool
  | .write _ report => report.succeeds providerId
  | _ => false

/-- Writes a failure of the provider. -/
def Label.fails (providerId : String) : Label → Bool
  | .write _ report => report.fails providerId
  | _ => false

/-- The number of failures written after the last success. -/
def tally (providerId : String) (labels : List Label) : ℕ :=
  (labels.reverse.takeWhile fun l => !l.succeeds providerId).countP (Label.fails providerId)

/-- What a failure of the provider has read is what the table still says when it is written. -/
def Current (providerId : String) (s : World) (l : Label) : Prop :=
  ∀ w report previous, l = .write w report → report.fails providerId = true →
    s.phase w = .read report previous → previous.consecutiveFailures = failures providerId s

theorem Current.of_write {providerId : String} {s : World} {w : ℕ} {report : Report}
    {previous : ProviderHealthState} (h : s.phase w = .read report previous)
    (hcurrent : previous.consecutiveFailures = failures providerId s) :
    Current providerId s (.write w report) := by
  intro w' report' previous' hl _ hphase
  cases hl
  cases h.symm.trans hphase
  exact hcurrent

theorem Current.of_quiet {providerId : String} {s : World} {l : Label}
    (h : ∀ w report, l ≠ .write w report) : Current providerId s l :=
  fun w report _ hl => absurd hl (h w report)

@[simp]
theorem failures_enter (providerId : String) (s : World) (w : ℕ) (phase : Phase) :
    failures providerId (s.enter w phase) = failures providerId s := rfl

theorem providerHealthGet_insert_self (id : String) (row : HealthRow) (health : HealthTable) :
    (providerHealthGet id (health.insert id row)).consecutiveFailures = row.consecutiveFailures := by
  simp only [providerHealthGet,AList.lookup_insert]

theorem providerHealthGet_insert_ne {id other : String} (h : id ≠ other) (row : HealthRow)
    (health : HealthTable) :
    providerHealthGet id (health.insert other row) = providerHealthGet id health := by
  simp only [providerHealthGet,AList.lookup_insert_ne h]

/-- What a report leaves in the counter. -/
theorem failures_write (providerId : String) (report : Report) (previous : ProviderHealthState)
    (health : HealthTable) :
    (providerHealthGet providerId (report.write previous health)).consecutiveFailures =
      if report.succeeds providerId then 0
      else if report.fails providerId then previous.consecutiveFailures+1
      else (providerHealthGet providerId health).consecutiveFailures := by
  cases report with
  | success id latencyMs now =>
    simp only [Report.write,writeSuccess,Report.succeeds,Report.fails,decide_eq_true_eq]
    by_cases hid : id = providerId
    · subst hid
      rw [if_pos rfl,providerHealthGet_insert_self]
    · rw [if_neg hid,providerHealthGet_insert_ne (Ne.symm hid)]
      rfl
  | failure id error cooldownUntil now =>
    simp only [Report.write,writeFailure,Report.succeeds,Report.fails,decide_eq_true_eq]
    by_cases hid : id = providerId
    · subst hid
      simp only [providerHealthGet_insert_self,Bool.false_eq_true,if_false,if_true]
    · rw [if_neg hid,providerHealthGet_insert_ne (Ne.symm hid)]
      rfl

theorem tally_concat (providerId : String) (labels : List Label) (l : Label) :
    tally providerId (labels++[l]) =
      if l.succeeds providerId then 0
      else tally providerId labels+if l.fails providerId then 1 else 0 := by
  simp only [tally,List.reverse_append,List.reverse_singleton,List.singleton_append]
  by_cases hsuccess : l.succeeds providerId = true
  · simp [hsuccess]
  · simp [hsuccess,List.countP_cons]

section Counting

variable {providerId : String} {s t : World} {l : Label} {labels : List Label}

/-- One step keeps the count, exactly if a failure it writes is current. -/
theorem step_counts (hs : failures providerId s = tally providerId labels) (hstep : Step s l t) :
    failures providerId t = tally providerId (labels++[l]) ↔ Current providerId s l := by
  rw [tally_concat]
  cases hstep with
  | read report h => exact iff_of_true (by simpa [Label.succeeds,Label.fails] using hs) (.of_quiet nofun)
  | fetch h => exact iff_of_true (by simpa [Label.succeeds,Label.fails] using hs) (.of_quiet nofun)
  | stop w => exact iff_of_true (by simpa [Label.succeeds,Label.fails] using hs) (.of_quiet nofun)
  | @write w report previous h =>
    have hcurrent : Current providerId s (.write w report) ↔
        (report.fails providerId = true → previous.consecutiveFailures = failures providerId s) := by
      constructor
      · exact fun hc hfails => hc w report previous rfl hfails h
      · rintro hc w' report' previous' hl hfails hphase
        cases hl
        cases h.symm.trans hphase
        exact hc hfails
    rw [hcurrent]
    have hwrite : failures providerId { s with health := report.write previous s.health } =
        if report.succeeds providerId then 0
        else if report.fails providerId then previous.consecutiveFailures+1
        else failures providerId s := failures_write providerId report previous s.health
    rw [failures_enter,hwrite,hs]
    simp only [Label.succeeds,Label.fails]
    by_cases hsuccess : report.succeeds providerId = true
    · have hfails : report.fails providerId = false := by
        cases report with
        | success => rfl
        | failure => cases hsuccess
      simp [hsuccess,hfails]
    · by_cases hfails : report.fails providerId = true
      · simp [hsuccess,hfails]
      · simp [hsuccess,hfails]

/-- In a run whose failures are all written while what they read is current, the counter is the
number of failures since the last success, in every state and so in every quiescent one. A
failure that is not current breaks it. -/
theorem consecutive_failures_counted
    (hrun : Run (fun s l t => Step s l t ∧ Current providerId s l) start labels s) :
    failures providerId s = tally providerId labels ∧
      ∀ l t, Step s l t →
        (failures providerId t = tally providerId (labels++[l]) ↔ Current providerId s l) := by
  have hcount : failures providerId s = tally providerId labels := by
    induction labels using List.reverseRecOn generalizing s with
    | nil =>
      cases hrun
      rfl
    | append_singleton labels l ih =>
      obtain ⟨u,hbefore,hlast⟩ := hrun.split
      cases hlast with
      | cons hstep hnil =>
        cases hnil
        exact (step_counts (ih hbefore) hstep.1).mpr hstep.2
  exact ⟨hcount,fun l t hstep => step_counts hcount hstep⟩

/-- Two failures one after the other count two. -/
theorem failures_in_turn_counted : ∃ labels s,
    Run (fun s l t => Step s l t ∧ Current "llm" s l) start labels s ∧
      failures "llm" s = tally "llm" labels ∧ tally "llm" labels = 2 := by
  let report := Report.failure "llm" "timeout" 30 0
  have hrun : Run (fun s l t => Step s l t ∧ Current "llm" s l) start _ _ :=
    .cons ⟨.read (w := 1) report rfl,.of_quiet nofun⟩
    (.cons ⟨.write (w := 1) rfl,.of_write rfl rfl⟩ (.cons ⟨.read (w := 2) report rfl,.of_quiet nofun⟩
    (.cons ⟨.write (w := 2) rfl,.of_write rfl rfl⟩ (.nil _))))
  exact ⟨_,_,hrun,(consecutive_failures_counted hrun).1,by decide⟩

/-- Two failures reported at once count one. -/
theorem interleaved_failures_lost :
    ¬∀ labels s, Run Step start labels s → Quiescent s →
      ∀ providerId, failures providerId s = tally providerId labels := by
  intro h
  let report := Report.failure "llm" "timeout" 30 0
  have hlost := h _ _ (.cons (.read (w := 1) report rfl) (.cons (.read (w := 2) report rfl)
    (.cons (.write (w := 1) rfl) (.cons (.write (w := 2) rfl) (.cons (.fetch (w := 1) rfl)
    (.cons (.fetch (w := 2) rfl) (.nil _))))))) ?_ "llm"
  · exact absurd hlost (by decide)
  · intro w
    by_cases h₁ : w = 1
    · subst h₁
      rfl
    · by_cases h₂ : w = 2
      · subst h₂
        rfl
      · simp [World.enter,start,h₁,h₂]

end Counting

end Health
end WormholeObservatory
