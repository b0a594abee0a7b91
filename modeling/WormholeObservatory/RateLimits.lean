import WormholeObservatory.Pacing
import WormholeObservatory.Letters

/-! The rate limiters of the LLM providers and of the evidence sources. Both keep a table of
states by provider key, every step is atomic under the module's lock, and the time is read under
the lock. A thread that may not go yet sleeps outside the lock and comes back for another turn. -/
namespace WormholeObservatory

/-- What both kinds of `_ProviderRateState` have. -/
structure RateState where
  nextRequestAt : ℚ := 0
  adaptiveInterval : ℚ := 0

namespace RateState

/-- The interval a grant keeps. -/
def interval (configured : ℚ) (s : RateState) : ℚ := max (max 0 configured) s.adaptiveInterval

/-- One turn of the waiting loop: a grant, or how long to sleep. -/
def slotTurn (configured now : ℚ) (s : RateState) : Except ℚ RateState :=
  let delay := max 0 (s.nextRequestAt-now)
  if delay ≤ 0 then .ok { s with nextRequestAt := now+s.interval configured }
  else .error delay

/-- The adaptive interval after a failure. -/
def increased (configured : ℚ) (s : RateState) : ℚ :=
  let adaptive := if s.adaptiveInterval ≠ 0 then s.adaptiveInterval*2 else max 1 configured
  min 60 (max configured adaptive)

def registerFailure (configured now delay : ℚ) (s : RateState) : RateState :=
  { nextRequestAt := max s.nextRequestAt (now+max delay (s.increased (max 0 configured)))
    adaptiveInterval := s.increased (max 0 configured) }

def registerSuccess (configured : ℚ) (s : RateState) : RateState :=
  { s with adaptiveInterval := max (max 0 configured) (s.adaptiveInterval/2) }

/-- The time and the interval of a grant. -/
def granted (configured now : ℚ) (s : RateState) : Option (ℚ × ℚ) :=
  match s.slotTurn configured now with
  | .ok _ => some (now,s.interval configured)
  | .error _ => none

/-- The deadline a failure sets. -/
def deadline (configured now delay : ℚ) (s : RateState) : ℚ :=
  now+max delay (s.registerFailure configured now delay).adaptiveInterval

theorem slotTurn_of_open {configured now : ℚ} {s : RateState} (h : s.nextRequestAt ≤ now) :
    s.slotTurn configured now = .ok { s with nextRequestAt := now+s.interval configured } := by
  simp only [slotTurn]
  rw [if_pos (by simpa using h)]

theorem slotTurn_of_shut {configured now : ℚ} {s : RateState} (h : ¬s.nextRequestAt ≤ now) :
    s.slotTurn configured now = .error (max 0 (s.nextRequestAt-now)) := by
  simp only [slotTurn]
  rw [if_neg (by simpa using h)]

theorem granted_eq_some {configured now : ℚ} {s : RateState} {grant : ℚ × ℚ} :
    s.granted configured now = some grant ↔
      s.nextRequestAt ≤ now ∧ grant = (now,s.interval configured) := by
  simp only [granted]
  by_cases hopen : s.nextRequestAt ≤ now
  · simp [slotTurn_of_open hopen,hopen,eq_comm]
  · simp [slotTurn_of_shut hopen,hopen]

theorem interval_nonneg (configured : ℚ) (s : RateState) : 0 ≤ s.interval configured :=
  (le_max_left 0 configured).trans (le_max_left _ _)

/-- What one turn of a thread does to the state of its key. -/
structure Turn (s s' : RateState) (grant : Option (ℚ × ℚ)) (hold : Option ℚ) : Prop where
  keeps : s.nextRequestAt ≤ s'.nextRequestAt
  grants : ∀ t d, grant = some (t,d) → s.nextRequestAt ≤ t ∧ t+d ≤ s'.nextRequestAt
  holds : ∀ t, hold = some t → t ≤ s'.nextRequestAt

theorem Turn.idle (s : RateState) : Turn s s none none := ⟨le_rfl,nofun,nofun⟩

theorem Turn.slot {configured now : ℚ} {s s' : RateState} (h : s.slotTurn configured now = .ok s') :
    Turn s s' (s.granted configured now) none := by
  by_cases hopen : s.nextRequestAt ≤ now
  · cases (slotTurn_of_open hopen).symm.trans h
    refine ⟨hopen.trans (le_add_of_nonneg_right (s.interval_nonneg configured)),fun t d hgrant => ?_,
      nofun⟩
    obtain ⟨-,hgrant⟩ := granted_eq_some.mp hgrant
    cases hgrant
    exact ⟨hopen,le_rfl⟩
  · cases (slotTurn_of_shut hopen).symm.trans h

theorem Turn.sleep {configured now delay : ℚ} {s : RateState}
    (h : s.slotTurn configured now = .error delay) : Turn s s (s.granted configured now) none := by
  refine ⟨le_rfl,fun t d hgrant => ?_,nofun⟩
  simp only [granted,h] at hgrant
  cases hgrant

theorem Turn.failure (configured now delay : ℚ) (s : RateState) :
    Turn s (s.registerFailure configured now delay) none (some (s.deadline configured now delay)) := by
  refine ⟨le_max_left _ _,nofun,fun t hdeadline => ?_⟩
  cases hdeadline
  exact le_max_right _ _

theorem Turn.success (configured : ℚ) (s : RateState) :
    Turn s (s.registerSuccess configured) none none := ⟨le_rfl,nofun,nofun⟩

/-- A table whose steps are turns of one state in it is a lawful gate. -/
theorem lawful_of_turns {σ ε : Type*} {g : Pacing.Gate σ ε ℚ} (state : σ → RateState)
    (hopens : ∀ s, g.opensAt s = (state s).nextRequestAt)
    (hturn : ∀ s e, Turn (state s) (state (g.step s e)) (g.passes s e) (g.holds s e)) :
    g.Lawful where
  keeps s e := by
    rw [hopens,hopens]
    exact (hturn s e).keeps
  waits s e t d h := by
    rw [hopens]
    exact ((hturn s e).grants t d h).1
  shuts s e t d h := by
    rw [hopens]
    exact ((hturn s e).grants t d h).2
  holdsUntil s e t h := by
    rw [hopens]
    exact (hturn s e).holds t h

end RateState

/-- The delay that grows with the attempts. -/
def attemptDelay (attempt : ℕ) : ℚ := min 300 (max 1 (2^attempt))

namespace ProviderApi

/-- `_ProviderRateState` of the LLM providers. -/
structure ProviderRateState extends RateState where
  consecutiveLimits : ℕ := 0

/-- `_RATE_STATES`; a key that is missing has the default. -/
abbrev RateStates := String → ProviderRateState

/-- The fields of a provider its key is made of. -/
structure Endpoint where
  apiStyle : String
  baseUrl : String
  name : String

/-- `_provider_key`. -/
def providerKey [CaseTables] (provider : Endpoint) : String :=
  joinWith "|" [CaseTables.lower (strip provider.apiStyle),
    rstripSlashes (CaseTables.lower (strip provider.baseUrl)),CaseTables.lower (strip provider.name)]

/-- The body of the loop of `_wait_for_request_slot`. -/
def waitForRequestSlot [CaseTables] (provider : Endpoint) (configuredMinimum now : ℚ)
    (states : RateStates) : Except ℚ RateStates :=
  let key := providerKey provider
  match (states key).slotTurn configuredMinimum now with
  | .ok state => .ok (Function.update states key { states key with toRateState := state })
  | .error delay => .error delay

/-- `_increase_backoff`. -/
def increaseBackoff [CaseTables] (provider : Endpoint) (configured now delay : ℚ)
    (rateLimited : Bool) (states : RateStates) : RateStates :=
  let key := providerKey provider
  let state := states key
  Function.update states key
    { toRateState := state.registerFailure configured now delay
      consecutiveLimits := state.consecutiveLimits+if rateLimited then 1 else 0 }

/-- `_register_transient_failure`. -/
def registerTransientFailure [CaseTables] (provider : Endpoint) (configured now : ℚ)
    (attempt : ℕ) (states : RateStates) : RateStates :=
  increaseBackoff provider configured now (attemptDelay attempt) false states

/-- `_register_response_failure`. -/
def registerResponseFailure [CaseTables] (provider : Endpoint) (configured now : ℚ)
    (retryDelay : Option ℚ) (status : ℤ) (attempt : ℕ) (states : RateStates) : RateStates :=
  increaseBackoff provider configured now (retryDelay.getD (attemptDelay attempt))
    (decide (status = 429)) states

/-- `_register_success`. -/
def registerSuccess [CaseTables] (provider : Endpoint) (configured : ℚ) (states : RateStates) :
    RateStates :=
  let key := providerKey provider
  Function.update states key
    { toRateState := (states key).toRateState.registerSuccess configured, consecutiveLimits := 0 }

/-- What threads do under the lock. `configured` is what the caller reads from the options. -/
inductive RateCall
  | slot (provider : Endpoint) (configuredMinimum now : ℚ)
  | transientFailure (provider : Endpoint) (configured now : ℚ) (attempt : ℕ)
  | responseFailure (provider : Endpoint) (configured now : ℚ) (retryDelay : Option ℚ) (status : ℤ)
    (attempt : ℕ)
  | success (provider : Endpoint) (configured : ℚ)

def RateCall.provider : RateCall → Endpoint
  | .slot provider _ _ => provider
  | .transientFailure provider _ _ _ => provider
  | .responseFailure provider _ _ _ _ _ => provider
  | .success provider _ => provider

/-- A turn that grants nothing leaves the table alone. -/
def RateCall.run [CaseTables] (states : RateStates) : RateCall → RateStates
  | .slot provider configuredMinimum now =>
    (waitForRequestSlot provider configuredMinimum now states).toOption.getD states
  | .transientFailure provider configured now attempt =>
    registerTransientFailure provider configured now attempt states
  | .responseFailure provider configured now retryDelay status attempt =>
    registerResponseFailure provider configured now retryDelay status attempt states
  | .success provider configured => registerSuccess provider configured states

/-- The grant of a turn. -/
def RateCall.grants (state : RateState) : RateCall → Option (ℚ × ℚ)
  | .slot _ configuredMinimum now => state.granted configuredMinimum now
  | _ => none

/-- The deadline of a failure. -/
def RateCall.deadline (state : RateState) : RateCall → Option ℚ
  | .transientFailure _ configured now attempt =>
    some (state.deadline configured now (attemptDelay attempt))
  | .responseFailure _ configured now retryDelay _ attempt =>
    some (state.deadline configured now (retryDelay.getD (attemptDelay attempt)))
  | _ => none

/-- The threads that use one key, as a gate. -/
def gate [CaseTables] (key : String) : Pacing.Gate RateStates RateCall ℚ where
  step := RateCall.run
  opensAt states := (states key).nextRequestAt
  passes states call :=
    if providerKey call.provider = key then call.grants (states key).toRateState else none
  holds states call :=
    if providerKey call.provider = key then call.deadline (states key).toRateState else none

section Gate

variable [CaseTables] {states : RateStates} {call : RateCall} {key : String}

/-- A call for another key leaves the state alone. -/
theorem run_elsewhere (h : providerKey call.provider ≠ key) : call.run states key = states key := by
  cases call with
  | slot provider configuredMinimum now =>
    simp only [RateCall.run,waitForRequestSlot]
    split
    · exact Function.update_of_ne (Ne.symm h) _ _
    · rfl
  | transientFailure => exact Function.update_of_ne (Ne.symm h) _ _
  | responseFailure => exact Function.update_of_ne (Ne.symm h) _ _
  | success => exact Function.update_of_ne (Ne.symm h) _ _

theorem run_here : RateState.Turn (states (providerKey call.provider)).toRateState
    (call.run states (providerKey call.provider)).toRateState
    (call.grants (states (providerKey call.provider)).toRateState)
    (call.deadline (states (providerKey call.provider)).toRateState) := by
  cases call with
  | slot provider configuredMinimum now =>
    cases hturn : (states (providerKey provider)).slotTurn configuredMinimum now with
    | ok state =>
      have hrun : ((RateCall.slot provider configuredMinimum now).run states
          (providerKey provider)).toRateState = state := by
        simp [RateCall.run,waitForRequestSlot,hturn,Except.toOption]
      rw [RateCall.provider,hrun]
      exact .slot hturn
    | error delay =>
      have hrun : (RateCall.slot provider configuredMinimum now).run states = states := by
        simp [RateCall.run,waitForRequestSlot,hturn,Except.toOption]
      rw [RateCall.provider,hrun]
      exact .sleep hturn
  | transientFailure provider configured now attempt =>
    simp only [RateCall.run,registerTransientFailure,increaseBackoff,RateCall.provider,
      Function.update_self]
    exact .failure _ _ _ _
  | responseFailure provider configured now retryDelay status attempt =>
    simp only [RateCall.run,registerResponseFailure,increaseBackoff,RateCall.provider,
      Function.update_self]
    exact .failure _ _ _ _
  | success provider configured =>
    simp only [RateCall.run,registerSuccess,RateCall.provider,Function.update_self]
    exact .success _ _

theorem gate_lawful (key : String) : (gate key).Lawful := by
  refine RateState.lawful_of_turns (fun states => (states key).toRateState) (fun _ => rfl)
    fun states call => ?_
  simp only [gate]
  by_cases hkey : providerKey call.provider = key
  · subst hkey
    rw [if_pos rfl,if_pos rfl]
    exact run_here
  · rw [if_neg hkey,if_neg hkey,run_elsewhere hkey]
    exact .idle _

end Gate

end ProviderApi

namespace Research

/-- `_RATE_STATES` of the evidence sources. -/
abbrev RateStates := String → RateState

/-- The fields of an evidence source the limiter reads. -/
structure ResearchProviderOptions where
  kind : String
  name : String
  minIntervalSec : ℚ

/-- `_provider_key`. -/
def providerKey [CaseTables] (provider : ResearchProviderOptions) : String :=
  CaseTables.lower (strip provider.kind)++":"++CaseTables.lower (strip provider.name)

/-- The body of the loop of `wait_for_provider`. -/
def waitForProvider [CaseTables] (provider : ResearchProviderOptions) (now : ℚ)
    (states : RateStates) : Except ℚ RateStates :=
  let key := providerKey provider
  match (states key).slotTurn provider.minIntervalSec now with
  | .ok state => .ok (Function.update states key state)
  | .error delay => .error delay

/-- `register_provider_failure`. -/
def registerProviderFailure [CaseTables] (provider : ResearchProviderOptions) (now : ℚ)
    (attempt : ℕ) (retryDelay : Option ℚ) (states : RateStates) : RateStates :=
  let delay := retryDelay.getD (attemptDelay attempt)
  let key := providerKey provider
  Function.update states key ((states key).registerFailure provider.minIntervalSec now delay)

/-- `register_provider_success`. -/
def registerProviderSuccess [CaseTables] (provider : ResearchProviderOptions)
    (states : RateStates) : RateStates :=
  let key := providerKey provider
  Function.update states key ((states key).registerSuccess provider.minIntervalSec)

/-- What threads do under the lock. -/
inductive RateCall
  | slot (provider : ResearchProviderOptions) (now : ℚ)
  | failure (provider : ResearchProviderOptions) (now : ℚ) (attempt : ℕ) (retryDelay : Option ℚ)
  | success (provider : ResearchProviderOptions)

def RateCall.provider : RateCall → ResearchProviderOptions
  | .slot provider _ => provider
  | .failure provider _ _ _ => provider
  | .success provider => provider

def RateCall.run [CaseTables] (states : RateStates) : RateCall → RateStates
  | .slot provider now => (waitForProvider provider now states).toOption.getD states
  | .failure provider now attempt retryDelay =>
    registerProviderFailure provider now attempt retryDelay states
  | .success provider => registerProviderSuccess provider states

def RateCall.grants (state : RateState) : RateCall → Option (ℚ × ℚ)
  | .slot provider now => state.granted provider.minIntervalSec now
  | _ => none

def RateCall.deadline (state : RateState) : RateCall → Option ℚ
  | .failure provider now attempt retryDelay =>
    some (state.deadline provider.minIntervalSec now (retryDelay.getD (attemptDelay attempt)))
  | _ => none

def gate [CaseTables] (key : String) : Pacing.Gate RateStates RateCall ℚ where
  step := RateCall.run
  opensAt states := (states key).nextRequestAt
  passes states call := if providerKey call.provider = key then call.grants (states key) else none
  holds states call := if providerKey call.provider = key then call.deadline (states key) else none

section Gate

variable [CaseTables] {states : RateStates} {call : RateCall} {key : String}

theorem run_elsewhere (h : providerKey call.provider ≠ key) : call.run states key = states key := by
  cases call with
  | slot provider now =>
    simp only [RateCall.run,waitForProvider]
    split
    · exact Function.update_of_ne (Ne.symm h) _ _
    · rfl
  | failure => exact Function.update_of_ne (Ne.symm h) _ _
  | success => exact Function.update_of_ne (Ne.symm h) _ _

theorem run_here : RateState.Turn (states (providerKey call.provider))
    (call.run states (providerKey call.provider))
    (call.grants (states (providerKey call.provider)))
    (call.deadline (states (providerKey call.provider))) := by
  cases call with
  | slot provider now =>
    cases hturn : (states (providerKey provider)).slotTurn provider.minIntervalSec now with
    | ok state =>
      have hrun : (RateCall.slot provider now).run states (providerKey provider) = state := by
        simp [RateCall.run,waitForProvider,hturn,Except.toOption]
      rw [RateCall.provider,hrun]
      exact .slot hturn
    | error delay =>
      have hrun : (RateCall.slot provider now).run states = states := by
        simp [RateCall.run,waitForProvider,hturn,Except.toOption]
      rw [RateCall.provider,hrun]
      exact .sleep hturn
  | failure provider now attempt retryDelay =>
    simp only [RateCall.run,registerProviderFailure,RateCall.provider,Function.update_self]
    exact .failure _ _ _ _
  | success provider =>
    simp only [RateCall.run,registerProviderSuccess,RateCall.provider,Function.update_self]
    exact .success _ _

theorem gate_lawful (key : String) : (gate key).Lawful := by
  refine RateState.lawful_of_turns (fun states => states key) (fun _ => rfl) fun states call => ?_
  simp only [gate]
  by_cases hkey : providerKey call.provider = key
  · subst hkey
    rw [if_pos rfl,if_pos rfl]
    exact run_here
  · rw [if_neg hkey,if_neg hkey,run_elsewhere hkey]
    exact .idle _

end Gate

end Research

end WormholeObservatory
