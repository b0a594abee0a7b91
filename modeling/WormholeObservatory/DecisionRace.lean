import WormholeObservatory.DecisionSteps

/-! A review decision for a domain and a worker cycle that may hold it, in any order of their
statements. What the decision leaves in place depends on whether the worker adds the opposite
rule after the decision has looked for it. -/
namespace WormholeObservatory
namespace Review

open PiHole (Accepts Fault Resource)
open Queue (ListType)
open Transition (Run)

structure Race where
  store : Store
  user : DecisionPhase
  worker : WorkerPhase

inductive Actor
  | user
  | worker
  deriving DecidableEq

def Store.rules (s : Store) : PiHole.Rules := s.world.pihole

def Ruling.desired (r : Ruling) : Resource := .exactDomain r.listType r.domain

def Ruling.opposite (r : Ruling) : Resource := .exactDomain r.listType.opposite r.domain

theorem Ruling.desired_ne (r : Ruling) : r.desired ≠ r.opposite := by
  intro h
  exact PiHole.opposite_ne r.listType (Resource.exactDomain.inj h).1

/-- The decision stands. -/
structure Wins (r : Ruling) (s : Store) : Prop where
  desired : r.desired ∈ s.rules
  opposite : r.opposite ∉ s.rules
  unqueued : s.queue.staging.lookup r.domain = none

/-! What a statement of the decision does. -/

/-- The ways on, with the rules each leaves. -/
inductive Ruling.Moves (r : Ruling) : DecisionPhase → Store → DecisionPhase → Store → Prop
  | look (s : Store) : r.Moves .start s (.desiredKnown (decide (r.desired ∈ s.rules))) s
  | lookOpposite (desired : Bool) (s : Store) :
    r.Moves (.desiredKnown desired) s (.bothKnown desired (decide (r.opposite ∈ s.rules))) s
  | keep (opposite : Bool) (s : Store) : r.Moves (.bothKnown true opposite) s (.added opposite) s
  | add (opposite : Bool) {s s' : Store}
    (h : ∀ other, other ∈ s'.rules ↔ other ∈ s.rules ∨ other = r.desired) :
    r.Moves (.bothKnown false opposite) s (.added opposite) s'
  | skip (s : Store) : r.Moves (.added false) s .cleared s
  | clear {s s' : Store} (h : ∀ other, other ∈ s'.rules ↔ other ≠ r.opposite ∧ other ∈ s.rules) :
    r.Moves (.added true) s .cleared s'
  | mark {s s' : Store} (h : s'.world = s.world) : r.Moves .cleared s .marked s'
  | unqueue {s s' : Store} (h : s'.rules = s.rules)
    (hrow : s'.queue.staging.lookup r.domain = none) : r.Moves .marked s .unqueued s'
  | prefer {s s' : Store} (h : s'.world = s.world) : r.Moves .unqueued s .done s'
  | stay (s : Store) : r.Moves .done s .done s
  | fail (phase : DecisionPhase) (fault : Fault) (s s' : Store) : r.Moves phase s (.failed fault) s'

/-- The decision knows that its rule is there. -/
def DecisionPhase.ensured : DecisionPhase → Bool
  | .desiredKnown desired => desired
  | .bothKnown desired _ => desired
  | .added _ => true
  | .cleared => true
  | .marked => true
  | .unqueued => true
  | .done => true
  | _ => false

/-- The decision will not remove the opposite rule any more. -/
def DecisionPhase.past : DecisionPhase → Bool
  | .bothKnown _ opposite => !opposite
  | .added opposite => !opposite
  | .cleared => true
  | .marked => true
  | .unqueued => true
  | .done => true
  | _ => false

def DecisionPhase.left : DecisionPhase → Bool
  | .unqueued => true
  | .done => true
  | _ => false

section Moves

variable {r : Ruling} {user user' : DecisionPhase} {s s' : Store}

theorem Ruling.Moves.ensured (hmoves : r.Moves user s user' s')
    (h : user.ensured = true → r.desired ∈ s.rules) :
    user'.ensured = true → r.desired ∈ s'.rules := by
  intro huser
  cases hmoves with
  | look => exact of_decide_eq_true huser
  | lookOpposite desired => exact h huser
  | keep opposite => exact h rfl
  | add opposite hrules => exact (hrules r.desired).mpr (.inr rfl)
  | skip => exact h rfl
  | clear hrules => exact (hrules r.desired).mpr ⟨r.desired_ne,h rfl⟩
  | mark hworld =>
    rw [Store.rules,hworld]
    exact h rfl
  | unqueue hrules hrow =>
    rw [hrules]
    exact h rfl
  | prefer hworld =>
    rw [Store.rules,hworld]
    exact h rfl
  | stay => exact h rfl
  | fail phase fault => cases huser

theorem Ruling.Moves.left (hmoves : r.Moves user s user' s')
    (h : user.left = true → s.queue.staging.lookup r.domain = none) :
    user'.left = true → s'.queue.staging.lookup r.domain = none := by
  intro huser
  cases hmoves with
  | unqueue hrules hrow => exact hrow
  | prefer hworld =>
    rw [Store.queue,hworld]
    exact h rfl
  | stay => exact h rfl
  | _ => cases huser

/-- Once nothing will be removed any more, there is nothing to remove. -/
theorem Ruling.Moves.past_absent (hmoves : r.Moves user s user' s')
    (h : user.past = true → r.opposite ∉ s.rules) :
    user'.past = true → r.opposite ∉ s'.rules := by
  intro huser
  cases hmoves with
  | look => cases huser
  | lookOpposite desired =>
    simp only [DecisionPhase.past,Bool.not_eq_true',decide_eq_false_iff_not] at huser
    exact huser
  | keep opposite => exact h huser
  | add opposite hrules =>
    intro hmem
    exact ((hrules r.opposite).mp hmem).elim (h huser) r.desired_ne.symm
  | skip => exact h rfl
  | clear hrules => exact fun hmem => ((hrules r.opposite).mp hmem).1 rfl
  | mark hworld =>
    rw [Store.rules,hworld]
    exact h rfl
  | unqueue hrules hrow =>
    rw [hrules]
    exact h rfl
  | prefer hworld =>
    rw [Store.rules,hworld]
    exact h rfl
  | stay => exact h rfl
  | fail phase fault => cases huser

/-- The decision has failed, or has passed over an opposite rule. -/
def Lost (r : Ruling) (user : DecisionPhase) (s : Store) : Prop :=
  (∃ fault, user = .failed fault) ∨ user.past = true ∧ r.opposite ∈ s.rules

theorem Ruling.Moves.past_present (hmoves : r.Moves user s user' s') (hpast : user.past = true)
    (hmem : r.opposite ∈ s.rules) : Lost r user' s' := by
  cases hmoves with
  | look => cases hpast
  | lookOpposite desired => cases hpast
  | keep opposite => exact .inr ⟨hpast,hmem⟩
  | add opposite hrules => exact .inr ⟨hpast,(hrules r.opposite).mpr (.inl hmem)⟩
  | skip => exact .inr ⟨rfl,hmem⟩
  | clear hrules => cases hpast
  | mark hworld => exact .inr ⟨rfl,by rwa [Store.rules,hworld]⟩
  | unqueue hrules hrow => exact .inr ⟨rfl,by rwa [hrules]⟩
  | prefer hworld => exact .inr ⟨rfl,by rwa [Store.rules,hworld]⟩
  | stay => exact .inr ⟨rfl,hmem⟩
  | fail phase fault => exact .inl ⟨fault,rfl⟩

theorem Ruling.Moves.lost (hmoves : r.Moves user s user' s') (h : Lost r user s) :
    Lost r user' s' := by
  obtain ⟨fault,rfl⟩ | ⟨hpast,hmem⟩ := h
  · cases hmoves with
    | fail phase fault' => exact .inl ⟨fault',rfl⟩
  · exact hmoves.past_present hpast hmem

end Moves

section Race

variable [CaseTables]

def Race.step (r : Ruling) (cycle : Cycle) (race : Race) : Actor → Race
  | .user =>
    let (user,store) := r.step (race.user,race.store)
    { race with user, store }
  | .worker =>
    let (worker,store) := cycle.step (race.worker,race.store)
    { race with worker, store }

def Race.Step (r : Ruling) (cycle : Cycle) (race : Race) (actor : Actor) (race' : Race) : Prop :=
  race.step r cycle actor = race'

/-! The statements of the decision move it so. -/

/-- A statement that raises fails the decision; one that returns leads to the next. -/
theorem moves_of_call {α : Type} {r : Ruling} {phase : DecisionPhase} {s : Store} {x : Task α}
    {next : α → DecisionPhase} (hnext : r.next phase = x >>= fun a => pure (next a))
    (hok : ∀ a s', x s = .ok a s' → r.Moves phase s (next a) s') :
    r.Moves phase s (r.step (phase,s)).1 (r.step (phase,s)).2 := by
  have hstep : r.step (phase,s) = settle (EStateM.bind x (fun a => pure (next a)) s) := by
    simp only [Ruling.step,hnext]
    rfl
  rw [hstep]
  simp only [EStateM.bind]
  cases hx : x s with
  | error fault s' => exact .fail phase fault s s'
  | ok a s' => exact hok a s' hx

omit [CaseTables] in
theorem lookUpRule_ok {exchange : PiHole.Exchange} {d : String} {t : ListType} {s s' : Store}
    {found : Bool} (hd : d ≠ "") (h : lookUpRule exchange d t s = .ok found s') :
    found = decide (.exactDomain t d ∈ s.rules) ∧ s' = s := by
  simp only [lookUpRule,PiHole.exactRuleExists,PiHole.fetchRow] at h
  split at h
  · rename_i hfound
    cases h
    refine ⟨?_,rfl⟩
    split at hfound
    · cases hfound
      simp only [Resource.key,hd,if_false]
      refine Bool.eq_iff_iff.mpr ?_
      rw [decide_eq_true_iff]
      exact AList.lookup_isSome
    · cases hfound
  · cases h

omit [CaseTables] in
theorem service_ok {α : Type} {x : PiHole.Service α} {s s' : Store} {a : α}
    (h : service x s = .ok a s') : ∃ w, x s.world = .ok a w ∧ s' = { s with world := w } := by
  simp only [service] at h
  cases hx : x s.world with
  | error fault w =>
    rw [hx] at h
    cases h
  | ok b w =>
    rw [hx] at h
    cases h
    exact ⟨w,rfl,rfl⟩

theorem moves (r : Ruling) (hd : normalizeDomain r.domain = r.domain) (phase : DecisionPhase)
    (s : Store) : r.Moves phase s (r.step (phase,s)).1 (r.step (phase,s)).2 := by
  cases phase with
  | start =>
    refine moves_of_call rfl fun found s' h => ?_
    obtain ⟨rfl,rfl⟩ := lookUpRule_ok r.named h
    exact .look s'
  | desiredKnown desired =>
    refine moves_of_call rfl fun found s' h => ?_
    obtain ⟨rfl,rfl⟩ := lookUpRule_ok r.named h
    exact .lookOpposite desired s'
  | bothKnown desired opposite =>
    refine moves_of_call rfl fun a s' h => ?_
    obtain ⟨w,hw,rfl⟩ := service_ok h
    cases desired with
    | true =>
      cases hw
      exact .keep opposite s
    | false =>
      exact .add opposite (PiHole.addExactDomain_ok (PiHole.parseListType_typeName _) hw)
  | added opposite =>
    refine moves_of_call rfl fun a s' h => ?_
    obtain ⟨w,hw,rfl⟩ := service_ok h
    cases opposite with
    | false =>
      cases hw
      exact .skip s
    | true => exact .clear (PiHole.deleteExactDomain_ok (PiHole.parseListType_typeName _) hw)
  | cleared =>
    refine moves_of_call rfl fun a s' h => .mark ?_
    simp only [markActionApplied] at h
    split at h
    · cases h
    · cases h
      rfl
  | marked =>
    refine moves_of_call rfl fun a s' h => ?_
    obtain ⟨w,hw,rfl⟩ := service_ok h
    cases hw
    refine .unqueue rfl ?_
    simp [Store.queue,Queue.stagingRemove,hd,r.named]
  | unqueued =>
    refine moves_of_call rfl fun a s' h => .prefer ?_
    simp only [setReviewPreference] at h
    split at h
    · cases h
    · cases h
      rfl
  | done => exact .stay s
  | failed fault => exact .fail _ fault s s

/-! What a statement of the worker does. -/

/-- A call that adds `rule`, and that the Pi-hole gets to see. -/
def AddsRule (call : PiHole.Call) (s : Store) (rule : Resource) : Automation.Effect → Prop
  | .addExactDomain domain policy _ => ∃ t, Queue.parseListType policy.value = some t ∧
      rule = .exactDomain t domain ∧ Accepts call domain t s.world
  | _ => False

/-- The worker is about to add `rule`. -/
def Cycle.Writes (cycle : Cycle) (s : Store) (rule : Resource) : WorkerPhase → Prop
  | .performing progress _ i (effect::_) =>
    (cycle.handler.handling progress.index).fault i = none ∧
      AddsRule (cycle.handler.handling progress.index).call s rule effect
  | _ => False

/-- A worker removes no rule and queues no domain. -/
structure Works (cycle : Cycle) (phase : WorkerPhase) (s s' : Store) : Prop where
  rules : ∀ rule, rule ∈ s'.rules ↔ rule ∈ s.rules ∨ cycle.Writes s rule phase
  unqueued : ∀ d, s.queue.staging.lookup d = none → s'.queue.staging.lookup d = none

theorem Works.of_rules {cycle : Cycle} {phase : WorkerPhase} {s s' : Store}
    (hquiet : ∀ rule, ¬cycle.Writes s rule phase) (hrules : s'.rules = s.rules)
    (hrow : ∀ d, s.queue.staging.lookup d = none → s'.queue.staging.lookup d = none) :
    Works cycle phase s s' := by
  refine ⟨fun rule => ?_,hrow⟩
  rw [hrules]
  exact ⟨.inl,fun h => h.resolve_right (hquiet rule)⟩

omit [CaseTables] in
theorem proceed_store (progress : Progress) (next : WorkerPhase)
    (result : EStateM.Result Fault Store Unit) : (proceed progress next result).2 = after result := by
  cases result <;> rfl

theorem apply_unqueued (now : ℤ) (d : String) {d' : String} {db : Queue.Database}
    (verdict : Verdict) (h : db.staging.lookup d' = none) :
    (verdict.apply now d db).staging.lookup d' = none := by
  cases verdict with
  | ack =>
    by_cases hkey : d' = normalizeDomain d
    · subst hkey
      exact AList.lookup_erase _ _
    · exact (AList.lookup_erase_ne hkey).trans h
  | defer error retryAt => simp [Verdict.apply,Queue.stagingDefer,Table.update,h]
  | fail error => simp [Verdict.apply,Queue.stagingFail,Table.update,h]

theorem performEffect_rules (call : PiHole.Call) (effect : Automation.Effect) (s : Store)
    (rule : Resource) :
    rule ∈ (after (performEffect call effect s)).rules ↔
      rule ∈ s.rules ∨ AddsRule call s rule effect := by
  cases effect with
  | reviewTask domain reason priority source =>
    have hsame : (after (performEffect call (.reviewTask domain reason priority source) s)).rules =
        s.rules := createReviewTask_pihole _ _ _ _ _ _
    rw [hsame]
    simp only [AddsRule,or_false]
  | notify title message => simp only [AddsRule,or_false,performEffect,after,pure,EStateM.pure]
  | saveClassification c status planned actionStatus =>
    have hsame : (after (performEffect call
        (.saveClassification c status planned actionStatus) s)).rules = s.rules :=
      saveClassificationRun_pihole _ _ _ _
    rw [hsame]
    simp only [AddsRule,or_false]
  | addExactDomain domain policy comment =>
    simp only [performEffect,after_service,Store.rules,AddsRule]
    cases htype : Queue.parseListType policy.value with
    | none =>
      simp only [PiHole.addExactDomain,htype,PiHole.refuse,PiHole.final]
      simp
    | some t =>
      rw [PiHole.addExactDomain_mem htype]
      simp

theorem works (cycle : Cycle) (phase : WorkerPhase) (s : Store) :
    Works cycle phase s (cycle.step (phase,s)).2 := by
  cases phase with
  | ready =>
    have hstore : (cycle.step (.ready,s)).2 = cycle.afterClaim s := by
      simp only [Cycle.step]
      split <;> rfl
    rw [hstore]
    refine .of_rules (fun _ h => h) rfl fun d h => ?_
    have hclaim := Queue.lookup_stagingClaimItems cycle.claimedAt cycle.batchSize (some cycle.pool)
      s.queue d
    rw [h] at hclaim
    exact hclaim
  | skipping todo unlocked =>
    have hstore : (cycle.step (.skipping todo unlocked,s)).2 = s := by
      cases todo with
      | nil => rfl
      | cons d todo =>
        simp only [Cycle.step]
        split <;> rfl
    rw [hstore]
    exact .of_rules (fun _ h => h) rfl fun _ h => h
  | protecting d todo unlocked =>
    exact .of_rules (fun _ h => h) rfl fun d' h => apply_unqueued 0 d .ack h
  | analysing unlocked =>
    have hstore : (cycle.step (.analysing unlocked,s)).2 = s := by
      simp only [Cycle.step]
      split <;> rfl
    rw [hstore]
    exact .of_rules (fun _ h => h) rfl fun _ h => h
  | handling progress =>
    simp only [Cycle.step]
    split
    · exact .of_rules (fun _ h => h) rfl fun _ h => h
    · rename_i item items hitems
      split
      · exact .of_rules (fun _ h => h) rfl fun _ h => h
      · rename_i hcompared
        rw [proceed_store]
        refine .of_rules (fun _ h => h) ?_ fun d h => ?_
        · simp only [Handler.handleItem,if_neg hcompared]
          cases (cycle.handler.handling progress.index).fault 0 with
          | some fault => rfl
          | none => exact saveClassificationRun_pihole _ _ _ _
        · rw [handleItem_staging]
          exact h
  | performing progress item i effects =>
    cases effects with
    | nil => exact .of_rules (fun _ h => h) rfl fun _ h => h
    | cons effect effects =>
      cases hfault : (cycle.handler.handling progress.index).fault i with
      | some fault =>
        have hstore : (cycle.step (.performing progress item i (effect::effects),s)).2 = s := by
          simp only [Cycle.step,hfault]
        rw [hstore]
        refine .of_rules (fun rule h => ?_) rfl fun _ h => h
        cases hfault.symm.trans h.1
      | none =>
        have hstore : (cycle.step (.performing progress item i (effect::effects),s)).2 =
            after (performEffect (cycle.handler.handling progress.index).call effect s) := by
          simp only [Cycle.step,hfault,proceed_store]
        rw [hstore]
        refine ⟨fun rule => ?_,fun d h => ?_⟩
        · rw [performEffect_rules]
          simp only [Cycle.Writes,hfault,true_and]
        · have hstaging := performEffect_staging (cycle.handler.handling progress.index).call effect
            s.queue.staging s rfl
          rw [hstaging]
          exact h
  | releasing verdict todo =>
    cases todo with
    | nil => exact .of_rules (fun _ h => h) rfl fun _ h => h
    | cons d todo => exact .of_rules (fun _ h => h) rfl fun d' h => apply_unqueued _ d (verdict d) h
  | finished => exact .of_rules (fun _ h => h) rfl fun _ h => h

/-! Every interleaving. -/

/-- What holds whatever the worker does. -/
structure Established (r : Ruling) (race : Race) : Prop where
  desired : race.user.ensured = true → r.desired ∈ race.store.rules
  unqueued : race.user.left = true → race.store.queue.staging.lookup r.domain = none

/-- The worker adds the opposite rule after the decision has looked for it. -/
def Overrides (r : Ruling) (cycle : Cycle) (race : Race) : Actor → Prop
  | .user => False
  | .worker => race.user.past = true ∧ cycle.Writes race.store r.opposite race.worker

def HeedfulRaceStep (r : Ruling) (cycle : Cycle) (race : Race) (actor : Actor) (race' : Race) : Prop :=
  ¬Overrides r cycle race actor ∧ Race.Step r cycle race actor race'

section Interleaving

variable {r : Ruling} {cycle : Cycle}

theorem Established.step (hd : normalizeDomain r.domain = r.domain) {race : Race}
    (h : Established r race) (actor : Actor) : Established r (race.step r cycle actor) := by
  cases actor with
  | user =>
    have hmoves := moves r hd race.user race.store
    exact ⟨hmoves.ensured h.desired,hmoves.left h.unqueued⟩
  | worker =>
    have hworks := works cycle race.worker race.store
    exact ⟨fun huser => (hworks.rules r.desired).mpr (.inl (h.desired huser)),
      fun huser => hworks.unqueued r.domain (h.unqueued huser)⟩

/-- Without an override, what the decision has not seen is not there. -/
theorem past_absent_step (hd : normalizeDomain r.domain = r.domain) {race : Race} {actor : Actor}
    (hheeds : ¬Overrides r cycle race actor)
    (h : race.user.past = true → r.opposite ∉ race.store.rules) :
    (race.step r cycle actor).user.past = true →
      r.opposite ∉ (race.step r cycle actor).store.rules := by
  cases actor with
  | user => exact (moves r hd race.user race.store).past_absent h
  | worker =>
    intro hpast hmem
    rcases ((works cycle race.worker race.store).rules r.opposite).mp hmem with hold | hwrites
    · exact h hpast hold
    · exact hheeds ⟨hpast,hwrites⟩

theorem lost_step (hd : normalizeDomain r.domain = r.domain) {race : Race} (actor : Actor)
    (h : Lost r race.user race.store) :
    Lost r (race.step r cycle actor).user (race.step r cycle actor).store := by
  cases actor with
  | user => exact (moves r hd race.user race.store).lost h
  | worker =>
    have hrules := (works cycle race.worker race.store).rules r.opposite
    exact h.imp id fun hpast => ⟨hpast.1,hrules.mpr (.inl hpast.2)⟩

theorem lost_of_override {race : Race} {actor : Actor} (h : Overrides r cycle race actor) :
    Lost r (race.step r cycle actor).user (race.step r cycle actor).store := by
  cases actor with
  | user => cases h
  | worker =>
    have hrules := (works cycle race.worker race.store).rules r.opposite
    exact .inr ⟨h.1,hrules.mpr (.inr h.2)⟩

/-- A run either is heedful or loses the decision. -/
theorem heedful_or_lost (hd : normalizeDomain r.domain = r.domain) {race race' : Race}
    {actors : List Actor} (h : Run (Race.Step r cycle) race actors race') :
    Run (HeedfulRaceStep r cycle) race actors race' ∨ Lost r race'.user race'.store := by
  induction h with
  | nil race => exact .inl (.nil race)
  | @cons race actor next actors race' hstep hrun ih =>
    by_cases hoverrides : Overrides r cycle race actor
    · right
      have hlost := lost_of_override hoverrides
      rw [show race.step r cycle actor = next from hstep] at hlost
      refine hrun.invariant (fun race => Lost r race.user race.store) (fun a actor b ha hb => ?_) hlost
      obtain rfl := hb
      exact lost_step hd actor ha
    · exact ih.imp (fun htail => .cons ⟨hoverrides,hstep⟩ htail) id

/-- Whatever the order of their statements, a decision that completes stands at the end exactly
when the worker adds no opposite rule after the decision has looked for it. -/
theorem decision_wins_iff (hd : normalizeDomain r.domain = r.domain) {s : Store} {race : Race}
    {actors : List Actor} (h : Run (Race.Step r cycle) ⟨s,.start,.ready⟩ actors race)
    (hdone : race.user = .done) :
    Wins r race.store ↔ Run (HeedfulRaceStep r cycle) ⟨s,.start,.ready⟩ actors race := by
  constructor
  · intro hwins
    refine (heedful_or_lost hd h).resolve_right fun hlost => ?_
    obtain ⟨fault,hfault⟩ | ⟨-,hmem⟩ := hlost
    · cases hdone.symm.trans hfault
    · exact hwins.opposite hmem
  · intro hheedful
    have hestablished : Established r race := by
      refine h.invariant (Established r) (fun a actor b ha hb => ?_) ⟨nofun,nofun⟩
      obtain rfl := hb
      exact ha.step hd actor
    have habsent : race.user.past = true → r.opposite ∉ race.store.rules := by
      refine hheedful.invariant (fun race => race.user.past = true → r.opposite ∉ race.store.rules)
        (fun a actor b ha hb => ?_) nofun
      obtain ⟨hheeds,rfl⟩ := hb
      exact past_absent_step hd hheeds ha
    rw [hdone] at habsent
    refine ⟨hestablished.desired ?_,habsent rfl,hestablished.unqueued ?_⟩
    · rw [hdone]
      rfl
    · rw [hdone]
      rfl

end Interleaving

end Race

/-! A scanned domain that the user allows while a worker is about to deny it. -/

def allowTracker : Ruling where
  domain := "a.com"
  named := by decide
  listType := .allow
  comment := ""
  call := ⟨30,fun _ => ⟨.answered,""⟩,none⟩

def racePair (actors : List Actor) : Race :=
  actors.foldl (Race.step allowTracker (pairCycle fun _ => .answered)) ⟨scannedPair,.start,.ready⟩

theorem racePair_run (actors : List Actor) :
    Run (Race.Step allowTracker (pairCycle fun _ => .answered)) ⟨scannedPair,.start,.ready⟩ actors
      (racePair actors) :=
  Run.foldl _ _ actors

/-- The worker has resolved `a.com`, the user decides, the worker goes on. -/
def lateWorker : List Actor :=
  List.replicate 6 .worker++List.replicate 7 .user++List.replicate 13 .worker

/-- The worker is done before the user decides. -/
def earlyWorker : List Actor := List.replicate 19 .worker++List.replicate 7 .user

def DecisionPhase.isDone : DecisionPhase → Bool
  | .done => true
  | _ => false

theorem DecisionPhase.eq_done {user : DecisionPhase} (h : user.isDone = true) : user = .done := by
  cases user <;> first | rfl | cases h

def WorkerPhase.isFinished : WorkerPhase → Bool
  | .finished => true
  | _ => false

theorem WorkerPhase.eq_finished {worker : WorkerPhase} (h : worker.isFinished = true) :
    worker = .finished := by
  cases worker <;> first | rfl | cases h

/-- Both are done, and both rules are there. -/
theorem late_worker_overrides : ∃ race, Run (Race.Step allowTracker (pairCycle fun _ => .answered))
      ⟨scannedPair,.start,.ready⟩ lateWorker race ∧
    race.user = .done ∧ race.worker = .finished ∧
    (.exactDomain .allow "a.com") ∈ race.store.rules ∧
    (.exactDomain .deny "a.com") ∈ race.store.rules ∧ ¬Wins allowTracker race.store := by
  obtain ⟨hdone,hfinished,hdesired,hopposite⟩ : (racePair lateWorker).user.isDone = true ∧
      (racePair lateWorker).worker.isFinished = true ∧
      (.exactDomain .allow "a.com") ∈ (racePair lateWorker).store.rules ∧
      (.exactDomain .deny "a.com") ∈ (racePair lateWorker).store.rules := by
    decide +kernel
  exact ⟨racePair lateWorker,racePair_run lateWorker,DecisionPhase.eq_done hdone,
    WorkerPhase.eq_finished hfinished,hdesired,hopposite,fun h => h.opposite hopposite⟩

theorem decision_wins_early : ∃ race, race.user = .done ∧ race.worker = .finished ∧
    Run (HeedfulRaceStep allowTracker (pairCycle fun _ => .answered)) ⟨scannedPair,.start,.ready⟩
      earlyWorker race ∧ Wins allowTracker race.store := by
  have hwins : Wins allowTracker (racePair earlyWorker).store :=
    ⟨by decide +kernel,by decide +kernel,by decide +kernel⟩
  obtain ⟨hdone,hfinished⟩ : (racePair earlyWorker).user.isDone = true ∧
      (racePair earlyWorker).worker.isFinished = true := by
    decide +kernel
  have hheedful := (decision_wins_iff (by decide) (racePair_run earlyWorker)
    (DecisionPhase.eq_done hdone)).mp hwins
  exact ⟨racePair earlyWorker,DecisionPhase.eq_done hdone,WorkerPhase.eq_finished hfinished,
    hheedful,hwins⟩

end Review
end WormholeObservatory
