import WormholeObservatory.ProviderProfile
import WormholeObservatory.RateLimits

/-! `_request_with_retries`: the attempts of one request to a provider, with the calls to the
quota ledger and the rate limiter around each. A reservation is settled by what the attempt
meets, and some exceptions are met by no handler. -/
namespace WormholeObservatory
namespace ProviderApi

/-- A response, as far as the retries read it. `usage` is what `_response_usage` makes of its
body, unless reading or storing that raises. -/
structure Response where
  status : ℤ
  message : String
  retryDelay : Option ℚ
  usage : Option ProviderUsage
  deriving DecidableEq

/-- How the HTTP call ends; `raised` is every exception that is none of the others. -/
inductive Outcome
  | response (r : Response)
  | cancelled
  | connectionError
  | timeout
  | raised (message : String)
  deriving DecidableEq

inductive RequestError
  | cancelled
  | quota (message : String)
  | connectionError
  | timeout
  | rateLimit (message : String) (retryAfter : ℚ)
  | httpError (status : ℤ)
  | usage
  | raised (message : String)
  | noResponse
  deriving DecidableEq

/-- What one attempt meets: the token at its start and while it waits for its slot, the
exception `wait_for_quota` raises, if it does, the token before the call, the call, and the
token after it. -/
structure Attempt where
  cancelledFirst : Bool
  cancelledInSlot : Bool
  quotaRefusal : Option RequestError
  cancelledThen : Bool
  outcome : Outcome
  cancelledAfter : Bool

/-- The calls that leave a trace, with the number of the attempt whose reservation they are
about. -/
inductive Event
  | slot
  | reserve (attempt : ℕ)
  | complete (attempt : ℕ) (usage : ProviderUsage)
  | cancel (attempt : ℕ)
  | backOff (delay : ℚ) (rateLimited : Bool)
  | success
  deriving DecidableEq

/-- How the body of the loop is left. -/
inductive Exit
  | retry (lastError : Option RequestError)
  | returned (r : Response)
  | raised (e : RequestError)
  deriving DecidableEq

/-- `_RETRYABLE_STATUS_CODES`. -/
def Response.retryable (r : Response) : Bool := r.status ∈ [408,429,500,502,503,504]

/-- `raise_for_status` raises. -/
def Response.fails (r : Response) : Bool := decide (400 ≤ r.status ∧ r.status < 600)

section Requests

variable (context : Option QuotaEstimate) (attempts : ℕ)

/-- What a call that failed is charged with. -/
def chargedUsage (estimate : QuotaEstimate) : ProviderUsage :=
  { inputTokens := estimate.inputTokens, totalTokens := estimate.inputTokens }

/-- `complete_quota` for a failed call, if there is a reservation. -/
def charge (i : ℕ) : List Event :=
  (context.map fun estimate => Event.complete i (chargedUsage estimate)).toList

/-- `cancel_quota`, if there is a reservation. -/
def release (i : ℕ) : List Event := (context.map fun _ => Event.cancel i).toList

/-- A response that is not retried. The usage is read for a reservation only. -/
def concludeResponse (i : ℕ) (attempt : Attempt) (r : Response) : List Event × Exit :=
  if r.fails then (charge context i,.raised (.httpError r.status))
  else
    match context,r.usage with
    | some _,none => ([],.raised .usage)
    | some _,some usage =>
      if attempt.cancelledAfter then ([.complete i usage],.raised .cancelled)
      else ([.complete i usage,.success],.returned r)
    | none,_ => if attempt.cancelledAfter then ([],.raised .cancelled) else ([.success],.returned r)

def handleResponse (i : ℕ) (attempt : Attempt) (r : Response) : List Event × Exit :=
  if r.retryable then
    let delay := r.retryDelay.getD (attemptDelay i)
    let events := charge context i++[.backOff delay (decide (r.status = 429))]
    if attempt.cancelledAfter then (events,.raised .cancelled)
    else if i+1 < attempts then (events,.retry none)
    else if r.status = 429 then
      (events,.raised (.rateLimit (orElse r.message "LLM provider rate limit exceeded") delay))
    else if r.fails then (events,.raised (.httpError r.status))
    else
      let (rest,exit) := concludeResponse context i attempt r
      (events++rest,exit)
  else concludeResponse context i attempt r

/-- `except (requests.ConnectionError, requests.Timeout)`. -/
def handleFailure (i : ℕ) (attempt : Attempt) (e : RequestError) : List Event × Exit :=
  if attempt.cancelledAfter then (release context i,.raised .cancelled)
  else
    let events := release context i++[.backOff (attemptDelay i) false]
    if attempts ≤ i+1 then (events,.raised e) else (events,.retry (some e))

/-- From the `try` on. -/
def performRequest (i : ℕ) (attempt : Attempt) : List Event × Exit :=
  if attempt.cancelledThen then (release context i,.raised .cancelled)
  else
    match attempt.outcome with
    | .cancelled => (release context i,.raised .cancelled)
    | .connectionError => handleFailure context attempts i attempt .connectionError
    | .timeout => handleFailure context attempts i attempt .timeout
    | .raised message => ([],.raised (.raised message))
    | .response r => handleResponse context attempts i attempt r

/-- The body of the loop. -/
def attemptRequest (i : ℕ) (attempt : Attempt) : List Event × Exit :=
  if attempt.cancelledFirst || attempt.cancelledInSlot then ([],.raised .cancelled)
  else
    match context,attempt.quotaRefusal with
    | some _,some e => ([.slot],.raised e)
    | some _,none =>
      let (events,exit) := performRequest context attempts i attempt
      (.slot::.reserve i::events,exit)
    | none,_ =>
      let (events,exit) := performRequest context attempts i attempt
      (.slot::events,exit)

/-- `fuel` more turns of the loop, from attempt `i` on. -/
def retryLoop (meets : ℕ → Attempt) : ℕ → ℕ → Option RequestError →
    List Event × Except RequestError Response
  | 0,_,lastError => ([],.error (lastError.getD .noResponse))
  | fuel+1,i,lastError =>
    match attemptRequest context attempts i (meets i) with
    | (events,.returned r) => (events,.ok r)
    | (events,.raised e) => (events,.error e)
    | (events,.retry e) =>
      let (rest,result) := retryLoop meets fuel (i+1) (e.or lastError)
      (events++rest,result)

end Requests

/-- The number of attempts. -/
def attemptCount (maxRetries : ℤ) : ℕ := (max 1 (maxRetries+1)).toNat

/-- `_request_with_retries`. -/
def requestWithRetries (context : Option QuotaEstimate) (maxRetries : ℤ) (meets : ℕ → Attempt) :
    List Event × Except RequestError Response :=
  let attempts := attemptCount maxRetries
  retryLoop context attempts meets attempts 0 none

/-! What an attempt settles. -/

/-- The attempt whose reservation an event is about. -/
def Event.about : Event → Option ℕ
  | .reserve i => some i
  | .complete i _ => some i
  | .cancel i => some i
  | _ => none

def Event.concerns (i : ℕ) (e : Event) : Bool := decide (e.about = some i)

/-- Nothing keeps the attempt from getting its reservation. -/
def Attempt.Ready (attempt : Attempt) : Prop :=
  attempt.cancelledFirst = false ∧ attempt.cancelledInSlot = false ∧ attempt.quotaRefusal = none

/-- The provider answers. -/
def Attempt.Answered (attempt : Attempt) : Prop :=
  attempt.cancelledThen = false ∧ ∃ r, attempt.outcome = .response r

/-- The call is left by an exception that nothing catches, or its usage cannot be booked. -/
def Attempt.Dangles (attempt : Attempt) : Prop :=
  attempt.cancelledThen = false ∧
    ((∃ message, attempt.outcome = .raised message) ∨
      ∃ r, attempt.outcome = .response r ∧ r.fails = false ∧ r.usage = none)

/-- Another attempt follows. -/
def Attempt.Retried (attempts i : ℕ) (attempt : Attempt) : Prop :=
  attempt.Ready ∧ attempt.cancelledThen = false ∧ attempt.cancelledAfter = false ∧ i+1 < attempts ∧
    (attempt.outcome = .connectionError ∨ attempt.outcome = .timeout ∨
      ∃ r, attempt.outcome = .response r ∧ r.retryable = true)

/-- The reservation of attempt `i` is made once and then settled once: completed if the provider
answered, cancelled if not. -/
def SettledOnce (i : ℕ) (attempt : Attempt) (events : List Event) : Prop :=
  (attempt.Answered ∧
    ∃ usage, events.filter (Event.concerns i) = [.reserve i,.complete i usage]) ∨
  (¬attempt.Answered ∧ events.filter (Event.concerns i) = [.reserve i,.cancel i])

theorem retryable_fails {r : Response} (h : r.retryable = true) : r.fails = true := by
  simp only [Response.retryable,Response.fails,decide_eq_true_eq,List.mem_cons,List.not_mem_nil,
    or_false] at h ⊢
  omega

section Settling

variable {estimate : QuotaEstimate} {attempts i : ℕ} {attempt : Attempt}

/-- Events that are about no reservation. -/
def Quiet (events : List Event) : Prop := ∀ e ∈ events, e.about = none

/-- What is left of a reservation at the end of its attempt. -/
inductive Settles (i : ℕ) (attempt : Attempt) : List Event → Prop
  | completed (usage : ProviderUsage) {quiet : List Event} (hquiet : Quiet quiet)
    (hanswered : attempt.Answered) (hdone : ¬attempt.Dangles) :
    Settles i attempt (.complete i usage::quiet)
  | cancelled {quiet : List Event} (hquiet : Quiet quiet) (hanswered : ¬attempt.Answered)
    (hdone : ¬attempt.Dangles) : Settles i attempt (.cancel i::quiet)
  | dangling {quiet : List Event} (hquiet : Quiet quiet) (hdangles : attempt.Dangles) :
    Settles i attempt quiet

theorem concludeResponse_settles {r : Response} (hthen : attempt.cancelledThen = false)
    (hr : attempt.outcome = .response r) :
    Settles i attempt (concludeResponse (some estimate) i attempt r).1 := by
  have hanswered : attempt.Answered := ⟨hthen,r,hr⟩
  simp only [concludeResponse]
  by_cases hfails : r.fails = true
  · rw [if_pos hfails]
    refine .completed _ (by simp [Quiet]) hanswered ?_
    rintro ⟨-,⟨message,hraised⟩ | ⟨r',hr',hok,-⟩⟩
    · cases hr.symm.trans hraised
    · cases hr.symm.trans hr'
      rw [hfails] at hok
      cases hok
  · rw [if_neg hfails]
    cases husage : r.usage with
    | none =>
      exact .dangling (by simp [Quiet]) ⟨hthen,.inr ⟨r,hr,by simpa using hfails,husage⟩⟩
    | some usage =>
      have hdone : ¬attempt.Dangles := by
        rintro ⟨-,⟨message,hraised⟩ | ⟨r',hr',-,hnone⟩⟩
        · cases hr.symm.trans hraised
        · cases hr.symm.trans hr'
          cases husage.symm.trans hnone
      dsimp only
      split
      · exact .completed usage (by simp [Quiet]) hanswered hdone
      · exact .completed usage (by simp [Quiet,Event.about]) hanswered hdone

/-- A status that is retried is always an error, also for `raise_for_status`. -/
theorem handleResponse_settles {r : Response} (hthen : attempt.cancelledThen = false)
    (hr : attempt.outcome = .response r) :
    Settles i attempt (handleResponse (some estimate) attempts i attempt r).1 := by
  simp only [handleResponse]
  by_cases hretryable : r.retryable = true
  · have hfails := retryable_fails hretryable
    have hanswered : attempt.Answered := ⟨hthen,r,hr⟩
    have hdone : ¬attempt.Dangles := by
      rintro ⟨-,⟨message,hraised⟩ | ⟨r',hr',hok,-⟩⟩
      · cases hr.symm.trans hraised
      · cases hr.symm.trans hr'
        rw [hfails] at hok
        cases hok
    have hcharged : Settles i attempt (charge (some estimate) i++
        [.backOff (r.retryDelay.getD (attemptDelay i)) (decide (r.status = 429))]) :=
      .completed _ (by simp [Quiet,Event.about]) hanswered hdone
    rw [if_pos hretryable]
    split
    · exact hcharged
    · split
      · exact hcharged
      · split
        · exact hcharged
        · exact hcharged
  · rw [if_neg hretryable]
    exact concludeResponse_settles hthen hr

theorem handleFailure_settles {e : RequestError} (hanswered : ¬attempt.Answered)
    (hdone : ¬attempt.Dangles) :
    Settles i attempt (handleFailure (some estimate) attempts i attempt e).1 := by
  simp only [handleFailure]
  split
  · exact .cancelled (by simp [Quiet]) hanswered hdone
  · split
    · exact .cancelled (by simp [Quiet,Event.about]) hanswered hdone
    · exact .cancelled (by simp [Quiet,Event.about]) hanswered hdone

theorem performRequest_settles :
    Settles i attempt (performRequest (some estimate) attempts i attempt).1 := by
  simp only [performRequest]
  by_cases hthen : attempt.cancelledThen = true
  · rw [if_pos hthen]
    refine .cancelled (by simp [Quiet]) (fun h => ?_) fun h => ?_
    · exact absurd (hthen.symm.trans h.1) (by decide)
    · exact absurd (hthen.symm.trans h.1) (by decide)
  · rw [if_neg hthen]
    rw [Bool.not_eq_true] at hthen
    have hunanswered : (∀ r, attempt.outcome ≠ .response r) → ¬attempt.Answered :=
      fun h hanswered => hanswered.2.elim h
    have hcaught : (∀ r, attempt.outcome ≠ .response r) → (∀ m, attempt.outcome ≠ .raised m) →
        ¬attempt.Dangles := by
      rintro h h' ⟨-,⟨message,hraised⟩ | ⟨r,hr,-⟩⟩
      · exact h' message hraised
      · exact h r hr
    cases houtcome : attempt.outcome with
    | response r => exact handleResponse_settles hthen houtcome
    | raised message => exact .dangling (by simp [Quiet]) ⟨hthen,.inl ⟨message,houtcome⟩⟩
    | cancelled =>
      rw [houtcome] at hunanswered hcaught
      exact .cancelled (by simp [Quiet]) (hunanswered nofun) (hcaught nofun nofun)
    | connectionError =>
      rw [houtcome] at hunanswered hcaught
      exact handleFailure_settles (hunanswered nofun) (hcaught nofun nofun)
    | timeout =>
      rw [houtcome] at hunanswered hcaught
      exact handleFailure_settles (hunanswered nofun) (hcaught nofun nofun)

theorem attemptRequest_ready (h : attempt.Ready) :
    attemptRequest (some estimate) attempts i attempt =
      (.slot::.reserve i::(performRequest (some estimate) attempts i attempt).1,
        (performRequest (some estimate) attempts i attempt).2) := by
  obtain ⟨hfirst,hslot,hquota⟩ := h
  simp only [attemptRequest,hfirst,hslot,hquota,Bool.or_self,Bool.false_eq_true,if_false]

theorem attemptRequest_unready (h : ¬attempt.Ready) :
    Quiet (attemptRequest (some estimate) attempts i attempt).1 ∧
      ∃ e, (attemptRequest (some estimate) attempts i attempt).2 = .raised e := by
  simp only [attemptRequest]
  by_cases hcancelled : (attempt.cancelledFirst || attempt.cancelledInSlot) = true
  · rw [if_pos hcancelled]
    exact ⟨by simp [Quiet],_,rfl⟩
  · rw [if_neg hcancelled]
    rw [Bool.or_eq_true,not_or,Bool.not_eq_true,Bool.not_eq_true] at hcancelled
    cases hquota : attempt.quotaRefusal with
    | none => exact absurd ⟨hcancelled.1,hcancelled.2,hquota⟩ h
    | some e => exact ⟨by simp [Quiet,Event.about],e,rfl⟩

theorem concludeResponse_ends (r : Response) :
    ∀ e, (concludeResponse (some estimate) i attempt r).2 ≠ .retry e := by
  intro e
  simp only [concludeResponse]
  split
  · nofun
  · cases r.usage with
    | none => nofun
    | some usage =>
      dsimp only
      split <;> nofun

theorem performRequest_retries :
    (∃ e, (performRequest (some estimate) attempts i attempt).2 = .retry e) ↔
    attempt.cancelledThen = false ∧ attempt.cancelledAfter = false ∧ i+1 < attempts ∧
      (attempt.outcome = .connectionError ∨ attempt.outcome = .timeout ∨
        ∃ r, attempt.outcome = .response r ∧ r.retryable = true) := by
  have hfailure : ∀ error,
      (∃ e, (handleFailure (some estimate) attempts i attempt error).2 = .retry e) ↔
      attempt.cancelledAfter = false ∧ i+1 < attempts := by
    intro error
    simp only [handleFailure]
    by_cases hafter : attempt.cancelledAfter = true
    · simp [hafter]
    · by_cases hlast : attempts ≤ i+1
      · simp [hafter,hlast]
      · simp [hafter,hlast,Nat.lt_of_not_le hlast]
  have hresponse : ∀ r, (∃ e, (handleResponse (some estimate) attempts i attempt r).2 = .retry e) ↔
      attempt.cancelledAfter = false ∧ i+1 < attempts ∧ r.retryable = true := by
    intro r
    simp only [handleResponse]
    by_cases hretryable : r.retryable = true
    · have hfails := retryable_fails hretryable
      by_cases hafter : attempt.cancelledAfter = true
      · simp [hretryable,hafter]
      · by_cases hnext : i+1 < attempts
        · simp [hretryable,hafter,hnext]
        · by_cases hlimit : r.status = 429
          · simp [hretryable,hafter,hnext,hlimit]
          · simp [hretryable,hafter,hnext,hlimit,hfails]
    · rw [if_neg hretryable]
      exact ⟨fun ⟨e,he⟩ => absurd he (concludeResponse_ends r e),fun h => absurd h.2.2 hretryable⟩
  simp only [performRequest]
  by_cases hthen : attempt.cancelledThen = true
  · simp [hthen]
  · rw [if_neg hthen]
    cases houtcome : attempt.outcome with
    | response r => simp [hresponse,hthen]
    | raised message => simp
    | cancelled => simp
    | connectionError => simp [hfailure,hthen]
    | timeout => simp [hfailure,hthen]

theorem attemptRequest_retries :
    (∃ e, (attemptRequest (some estimate) attempts i attempt).2 = .retry e) ↔
      attempt.Retried attempts i := by
  by_cases hready : attempt.Ready
  · rw [attemptRequest_ready hready]
    exact performRequest_retries.trans ⟨fun h => ⟨hready,h⟩,fun h => h.2⟩
  · obtain ⟨e,he⟩ : ∃ e, (attemptRequest (some estimate) attempts i attempt).2 = .raised e :=
      (attemptRequest_unready hready).2
    refine ⟨fun ⟨e',he'⟩ => ?_,fun h => absurd h.1 hready⟩
    cases he.symm.trans he'

/-- An attempt is about its own reservation only. -/
theorem attemptRequest_about :
    ∀ e ∈ (attemptRequest (some estimate) attempts i attempt).1,
      e.about = none ∨ e.about = some i := by
  by_cases hready : attempt.Ready
  · rw [attemptRequest_ready hready]
    have hsettles : Settles i attempt (performRequest (some estimate) attempts i attempt).1 :=
      performRequest_settles
    have hrest : ∀ e ∈ (performRequest (some estimate) attempts i attempt).1,
        e.about = none ∨ e.about = some i := by
      generalize (performRequest (some estimate) attempts i attempt).1 = rest at hsettles
      intro e he
      cases hsettles with
      | completed usage hquiet =>
        rcases List.mem_cons.mp he with rfl | he
        · exact .inr rfl
        · exact .inl (hquiet e he)
      | cancelled hquiet =>
        rcases List.mem_cons.mp he with rfl | he
        · exact .inr rfl
        · exact .inl (hquiet e he)
      | dangling hquiet => exact .inl (hquiet e he)
    intro e he
    rcases List.mem_cons.mp he with rfl | he
    · exact .inl rfl
    · rcases List.mem_cons.mp he with rfl | he
      · exact .inr rfl
      · exact hrest e he
  · exact fun e he => .inl ((attemptRequest_unready hready).1 e he)

theorem filter_quiet {events : List Event} (hquiet : Quiet events) :
    events.filter (Event.concerns i) = [] := by
  refine List.filter_eq_nil_iff.mpr fun e he => ?_
  simp [Event.concerns,hquiet e he]

theorem attemptRequest_elsewhere {j : ℕ} (hne : i ≠ j) :
    (attemptRequest (some estimate) attempts i attempt).1.filter (Event.concerns j) = [] := by
  refine List.filter_eq_nil_iff.mpr fun e he => ?_
  rcases attemptRequest_about e he with h | h
  · simp [Event.concerns,h]
  · simpa [Event.concerns,h] using hne

/-- A reservation that is obtained is settled in its attempt, unless the call dangles. -/
theorem attemptRequest_settled (hready : attempt.Ready) :
    SettledOnce i attempt (attemptRequest (some estimate) attempts i attempt).1 ↔
      ¬attempt.Dangles := by
  rw [attemptRequest_ready hready]
  have hsettles : Settles i attempt (performRequest (some estimate) attempts i attempt).1 :=
    performRequest_settles
  generalize (performRequest (some estimate) attempts i attempt).1 = rest at hsettles
  have hopening : ∀ rest, (Event.slot::.reserve i::rest).filter (Event.concerns i) =
      .reserve i::rest.filter (Event.concerns i) := by
    intro rest
    simp [Event.concerns,Event.about]
  simp only [SettledOnce,hopening]
  cases hsettles with
  | completed usage hquiet hanswered hdone =>
    refine ⟨fun _ => hdone,fun _ => .inl ⟨hanswered,usage,?_⟩⟩
    rw [List.filter_cons_of_pos (by simp [Event.concerns,Event.about]),filter_quiet hquiet]
  | cancelled hquiet hanswered hdone =>
    refine ⟨fun _ => hdone,fun _ => .inr ⟨hanswered,?_⟩⟩
    rw [List.filter_cons_of_pos (by simp [Event.concerns,Event.about]),filter_quiet hquiet]
  | dangling hquiet hdangles =>
    rw [filter_quiet hquiet]
    refine ⟨fun h => ?_,fun h => absurd hdangles h⟩
    rcases h with ⟨-,usage,h⟩ | ⟨-,h⟩
    · cases h
    · cases h

theorem reserve_mem_attemptRequest :
    Event.reserve i ∈ (attemptRequest (some estimate) attempts i attempt).1 ↔ attempt.Ready := by
  by_cases hready : attempt.Ready
  · rw [attemptRequest_ready hready]
    exact iff_of_true (by simp) hready
  · refine iff_of_false (fun h => ?_) hready
    have := (attemptRequest_unready hready).1 _ h
    cases this

/-! The loop. -/

/-- The attempts from `i` on before `j` are all followed by another one. -/
def Reaches (attempts : ℕ) (meets : ℕ → Attempt) (i j : ℕ) : Prop :=
  ∀ k, i ≤ k → k < j → (meets k).Retried attempts k

section Loop

variable {meets : ℕ → Attempt}

theorem reaches_cons {i j : ℕ} (hij : i < j) : Reaches attempts meets i j ↔
    (meets i).Retried attempts i ∧ Reaches attempts meets (i+1) j := by
  constructor
  · intro h
    exact ⟨h i (Nat.le_refl i) hij,fun k hk => h k (Nat.le_of_succ_le hk)⟩
  · rintro ⟨hfirst,hrest⟩ k hk hkj
    rcases Nat.eq_or_lt_of_le hk with rfl | hlt
    · exact hfirst
    · exact hrest k hlt hkj

/-- One turn of the loop, and the others if the attempt is retried. -/
theorem retryLoop_succ (fuel : ℕ) (i : ℕ) (lastError : Option RequestError) :
    (¬(meets i).Retried attempts i ∧
      (retryLoop (some estimate) attempts meets (fuel+1) i lastError).1 =
        (attemptRequest (some estimate) attempts i (meets i)).1) ∨
    ((meets i).Retried attempts i ∧ ∃ lastError',
      (retryLoop (some estimate) attempts meets (fuel+1) i lastError).1 =
        (attemptRequest (some estimate) attempts i (meets i)).1++
          (retryLoop (some estimate) attempts meets fuel (i+1) lastError').1) := by
  have hretries : (∃ e, (attemptRequest (some estimate) attempts i (meets i)).2 = .retry e) ↔
      (meets i).Retried attempts i := attemptRequest_retries
  simp only [retryLoop]
  generalize attemptRequest (some estimate) attempts i (meets i) = result at hretries
  obtain ⟨events,exit⟩ := result
  cases exit with
  | retry e => exact .inr ⟨hretries.mp ⟨e,rfl⟩,_,rfl⟩
  | returned r => exact .inl ⟨fun h => (hretries.mpr h).elim nofun,rfl⟩
  | raised e => exact .inl ⟨fun h => (hretries.mpr h).elim nofun,rfl⟩

/-- Nothing more is about a reservation that is never obtained. -/
theorem retryLoop_unreached (estimate : QuotaEstimate) {j : ℕ} :
    ∀ (fuel i : ℕ) (lastError : Option RequestError),
    ¬(i ≤ j ∧ j < i+fuel ∧ Reaches attempts meets i j) →
    (retryLoop (some estimate) attempts meets fuel i lastError).1.filter (Event.concerns j) = [] := by
  intro fuel
  induction fuel with
  | zero => exact fun _ _ _ => rfl
  | succ fuel ih =>
    intro i lastError hmisses
    have hne : i ≠ j := by
      rintro rfl
      exact hmisses ⟨Nat.le_refl i,by omega,fun k hk hki => absurd hki (Nat.not_lt.mpr hk)⟩
    rcases retryLoop_succ fuel i lastError with ⟨-,hloop⟩ | ⟨hretried,lastError',hloop⟩
    · rw [hloop,attemptRequest_elsewhere hne]
    · rw [hloop,List.filter_append,attemptRequest_elsewhere hne,List.nil_append]
      refine ih (i+1) lastError' fun ⟨hij,hj,hrest⟩ => hmisses ⟨by omega,by omega,?_⟩
      exact (reaches_cons hij).mpr ⟨hretried,hrest⟩

/-- The loop does about a reservation what its attempt does, if it gets there. -/
theorem retryLoop_reached (estimate : QuotaEstimate) {j : ℕ} :
    ∀ (fuel i : ℕ) (lastError : Option RequestError), i ≤ j →
    j < i+fuel → Reaches attempts meets i j →
    (retryLoop (some estimate) attempts meets fuel i lastError).1.filter (Event.concerns j) =
      (attemptRequest (some estimate) attempts j (meets j)).1.filter (Event.concerns j) := by
  intro fuel
  induction fuel with
  | zero =>
    intro i _ hij hj
    omega
  | succ fuel ih =>
    intro i lastError hij hj hreaches
    rcases Nat.eq_or_lt_of_le hij with rfl | hlt
    · rcases retryLoop_succ fuel i lastError with ⟨-,hloop⟩ | ⟨-,lastError',hloop⟩
      · rw [hloop]
      · rw [hloop,List.filter_append,retryLoop_unreached estimate fuel (i+1) lastError' (by omega),
          List.append_nil]
    · obtain ⟨hretried,hrest⟩ := (reaches_cons hlt).mp hreaches
      rcases retryLoop_succ fuel i lastError with ⟨hend,-⟩ | ⟨-,lastError',hloop⟩
      · exact absurd hretried hend
      · rw [hloop,List.filter_append,attemptRequest_elsewhere (Nat.ne_of_lt hlt),List.nil_append]
        exact ih (i+1) lastError' hlt (by omega) hrest

/-- Without a context there is no reservation. -/
theorem attemptRequest_uncontrolled :
    Quiet (attemptRequest none attempts i attempt).1 := by
  have hconclude : ∀ r, Quiet (concludeResponse none i attempt r).1 := by
    intro r
    simp only [concludeResponse]
    split
    · simp [Quiet,charge]
    · split <;> simp [Quiet,Event.about]
  have hfailure : ∀ e, Quiet (handleFailure none attempts i attempt e).1 := by
    intro e
    simp only [handleFailure]
    split
    · simp [Quiet,release]
    · split <;> simp [Quiet,release,Event.about]
  have hresponse : ∀ r, Quiet (handleResponse none attempts i attempt r).1 := by
    intro r
    have hbackOff : Quiet (charge none i++
        [.backOff (r.retryDelay.getD (attemptDelay i)) (decide (r.status = 429))]) := by
      simp [Quiet,charge,Event.about]
    simp only [handleResponse]
    split
    · split
      · exact hbackOff
      · split
        · exact hbackOff
        · split
          · exact hbackOff
          · split
            · exact hbackOff
            · exact fun e he => (List.mem_append.mp he).elim (hbackOff e) (hconclude r e)
    · exact hconclude r
  have hperform : Quiet (performRequest none attempts i attempt).1 := by
    simp only [performRequest]
    split
    · simp [Quiet,release]
    · cases attempt.outcome with
      | response r => exact hresponse r
      | raised message => simp [Quiet]
      | cancelled => simp [Quiet,release]
      | connectionError => exact hfailure _
      | timeout => exact hfailure _
  simp only [attemptRequest]
  split
  · simp [Quiet]
  · intro e he
    rcases List.mem_cons.mp he with rfl | he
    · rfl
    · exact hperform e he

theorem retryLoop_uncontrolled : ∀ (fuel i : ℕ) (lastError : Option RequestError),
    Quiet (retryLoop none attempts meets fuel i lastError).1 := by
  intro fuel
  induction fuel with
  | zero => simp [Quiet,retryLoop]
  | succ fuel ih =>
    intro i lastError
    have hquiet : Quiet (attemptRequest none attempts i (meets i)).1 := attemptRequest_uncontrolled
    simp only [retryLoop]
    generalize attemptRequest none attempts i (meets i) = result at hquiet
    obtain ⟨events,exit⟩ := result
    cases exit with
    | returned r => exact hquiet
    | raised e => exact hquiet
    | retry e => exact fun e he => (List.mem_append.mp he).elim (hquiet e) (ih _ _ e)

end Loop

end Settling

section Outcome

variable (context : Option QuotaEstimate) (maxRetries : ℤ) (meets : ℕ → Attempt)

/-- Attempt `i` is made and gets a reservation from `wait_for_quota`. -/
def Obtains (i : ℕ) : Prop :=
  context.isSome = true ∧ i < attemptCount maxRetries ∧
    Reaches (attemptCount maxRetries) meets 0 i ∧ (meets i).Ready

variable {context maxRetries meets}

theorem mem_concerns {i : ℕ} {events : List Event} :
    Event.reserve i ∈ events ↔ Event.reserve i ∈ events.filter (Event.concerns i) := by
  simp [Event.concerns,Event.about]

theorem obtains_settled {i : ℕ} (hobtains : Obtains context maxRetries meets i) :
    Event.reserve i ∈ (requestWithRetries context maxRetries meets).1 ∧
      (SettledOnce i (meets i) (requestWithRetries context maxRetries meets).1 ↔
        ¬(meets i).Dangles) := by
  obtain ⟨hcontext,hi,hreaches,hready⟩ := hobtains
  obtain ⟨estimate,rfl⟩ := Option.isSome_iff_exists.mp hcontext
  have hloop := retryLoop_reached estimate (attemptCount maxRetries) 0 none
    (Nat.zero_le i) (by omega) hreaches
  constructor
  · refine mem_concerns.mpr ?_
    rw [requestWithRetries,hloop]
    exact mem_concerns.mp (reserve_mem_attemptRequest.mpr hready)
  · have hattempt : SettledOnce i (meets i)
          (attemptRequest (some estimate) (attemptCount maxRetries) i (meets i)).1 ↔
        ¬(meets i).Dangles := attemptRequest_settled hready
    rw [← hattempt]
    simp only [SettledOnce,requestWithRetries,hloop]

theorem reserve_mem_obtains {i : ℕ}
    (hmem : Event.reserve i ∈ (requestWithRetries context maxRetries meets).1) :
    Obtains context maxRetries meets i := by
  cases context with
  | none =>
    have := retryLoop_uncontrolled _ _ _ _ hmem
    cases this
  | some estimate =>
    by_cases hreaches : i < attemptCount maxRetries ∧ Reaches (attemptCount maxRetries) meets 0 i
    · have hloop := retryLoop_reached estimate (attemptCount maxRetries) 0 none
        (Nat.zero_le i) (by omega) hreaches.2
      have hmem := mem_concerns.mp hmem
      rw [requestWithRetries,hloop] at hmem
      exact ⟨rfl,hreaches.1,hreaches.2,reserve_mem_attemptRequest.mp (mem_concerns.mpr hmem)⟩
    · have hmisses : ¬(0 ≤ i ∧ i < 0+attemptCount maxRetries ∧
          Reaches (attemptCount maxRetries) meets 0 i) :=
        fun ⟨_,hi,h⟩ => hreaches ⟨by omega,h⟩
      have hloop := retryLoop_unreached estimate (attemptCount maxRetries) 0 none hmisses
      have hmem := mem_concerns.mp hmem
      rw [requestWithRetries,hloop] at hmem
      cases hmem

/-- The reservations obtained are all settled exactly when no call for one of them is left by an
exception that is neither a cancellation, a connection error nor a timeout, and no accepted
response has a usage that cannot be booked. -/
theorem reservations_settled_iff (context : Option QuotaEstimate) (maxRetries : ℤ)
    (meets : ℕ → Attempt) :
    (∀ i, Event.reserve i ∈ (requestWithRetries context maxRetries meets).1 →
      SettledOnce i (meets i) (requestWithRetries context maxRetries meets).1) ↔
    ∀ i, Obtains context maxRetries meets i → ¬(meets i).Dangles := by
  constructor
  · intro h i hobtains
    obtain ⟨hmem,hsettled⟩ := obtains_settled hobtains
    exact hsettled.mp (h i hmem)
  · intro h i hmem
    have hobtains := reserve_mem_obtains hmem
    exact (obtains_settled hobtains).2.mpr (h i hobtains)

/-- A call that ends in another exception of `requests`: the reservation stays. -/
theorem reservation_left_dangling :
    ¬∀ (context : Option QuotaEstimate) (maxRetries : ℤ) (meets : ℕ → Attempt) (i : ℕ),
      Event.reserve i ∈ (requestWithRetries context maxRetries meets).1 →
      SettledOnce i (meets i) (requestWithRetries context maxRetries meets).1 := by
  intro h
  have hsettled := h (some { inputTokens := 100, outputTokens := 50, units := 1 }) 2
    (fun _ => ⟨false,false,none,false,.raised "Response ended prematurely",false⟩) 0 (by decide)
  rcases hsettled with ⟨-,usage,hevents⟩ | ⟨-,hevents⟩
  · have hlength : 1 = 2 := congrArg List.length hevents
    omega
  · have hlength : 1 = 2 := congrArg List.length hevents
    omega

end Outcome

end ProviderApi
end WormholeObservatory
