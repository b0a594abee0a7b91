import WormholeObservatory.LockProtection
import WormholeObservatory.WorkerCycle

/-! A review decision and a worker cycle, statement by statement. Each is a step function on
its own position and the store they share; left alone, the steps of a decision make up
`_execute_validated` and those of a worker make up one turn of `Classifier.run`. -/
namespace WormholeObservatory
namespace Review

open Automation (Effect)
open Dispatch (AnalysisError ProviderAnalysisError latestRetry)
open PiHole (Fault)
open Queue (ListType)

/-- An `allow` or `deny` decision that `execute` has let through to `_execute_validated`. -/
structure Ruling where
  domain : String
  named : domain ≠ ""
  listType : ListType
  comment : String
  call : PiHole.Call

/-- Where a decision is: what its next statement knows. -/
inductive DecisionPhase
  | start
  | desiredKnown (desiredExists : Bool)
  | bothKnown (desiredExists oppositeExists : Bool)
  | added (oppositeExists : Bool)
  | cleared
  | marked
  | unqueued
  | done
  | failed (fault : Fault)

/-- `_exact_rule_exists`, as a call. -/
def lookUpRule (exchange : PiHole.Exchange) (domain : String) (t : ListType) : Task Bool := fun s =>
  match PiHole.exactRuleExists exchange domain t s.world with
  | .ok found => .ok found s
  | .error fault => .error fault s

/-- Where a worker is within the results of its dispatch. -/
structure Progress where
  unlocked : List String
  errors : List ProviderAnalysisError
  index : ℕ
  items : List Item
  completed : List Item

/-- The item at hand is done. -/
def Progress.complete (progress : Progress) (item : Item) : Progress :=
  { progress with index := progress.index+1, completed := progress.completed++[item] }

inductive WorkerPhase
  | ready
  | skipping (todo unlocked : List String)
  | protecting (domain : String) (todo unlocked : List String)
  | analysing (unlocked : List String)
  | handling (progress : Progress)
  | performing (progress : Progress) (item : Item) (index : ℕ) (effects : List Effect)
  | releasing (verdict : String → Verdict) (todo : List String)
  | finished

/-- The handlers for what leaves `dispatch_analysis`. -/
def Cycle.refused (cycle : Cycle) (e : AnalysisError) (d : String) : Verdict :=
  match e with
  | .dispatch (.execution .cancelled) => .defer "Classification cancelled" (cycle.look d)
  | .unavailable message retryAt =>
    if cycle.look d < max 0 retryAt then .defer message (max 0 retryAt) else .fail message
  | e => .fail (analysisMessage e)

/-- The loop at the end of the `try` block. -/
def Cycle.concluded (cycle : Cycle) (errors : List ProviderAnalysisError) (completed : List Item)
    (d : String) : Verdict :=
  if d ∈ completed.map (fun item => item.classification.domain) then .ack
  else if cycle.look d < latestRetry errors then
    .defer "Assigned provider is temporarily unavailable." (latestRetry errors)
  else .fail "No provider returned a classification."

/-- `except Exception`, for a call that raised while the results were handled. -/
def aborted (fault : Fault) (_ : String) : Verdict := .fail (faultMessage fault)

section Steps

variable [CaseTables]

/-- `if not desired_exists`. -/
def Ruling.ensureRule (r : Ruling) (desiredExists : Bool) : PiHole.Service Unit :=
  if desiredExists then pure ()
  else PiHole.addExactDomain (r.call.skip 2) r.domain (PiHole.typeName r.listType)
    (orElse (strip r.comment) ("Review decision: "++PiHole.typeName r.listType)) false

/-- `if opposite_exists`. -/
def Ruling.clearOpposite (r : Ruling) (oppositeExists : Bool) : PiHole.Service Unit :=
  if oppositeExists then
    PiHole.deleteExactDomain (r.call.skip 3) r.domain (PiHole.typeName r.listType.opposite)
  else pure ()

/-- The next statement of a decision, and where it leads. -/
def Ruling.next (r : Ruling) : DecisionPhase → Task DecisionPhase
  | .start => do
    let found ← lookUpRule (r.call.exchange 0) r.domain r.listType
    pure (.desiredKnown found)
  | .desiredKnown desired => do
    let found ← lookUpRule (r.call.exchange 1) r.domain r.listType.opposite
    pure (.bothKnown desired found)
  | .bothKnown desired opposite => do
    service (r.ensureRule desired)
    pure (.added opposite)
  | .added opposite => do
    service (r.clearOpposite opposite)
    pure .cleared
  | .cleared => do
    markActionApplied r.call.now r.domain (PiHole.typeName r.listType)
    pure .marked
  | .marked => do
    service (PiHole.leaveQueue r.domain)
    pure .unqueued
  | .unqueued => do
    setReviewPreference r.call.now r.domain false none (PiHole.typeName r.listType)
    pure .done
  | .done => pure .done
  | .failed fault => pure (.failed fault)

/-- A decision whose statement raises has failed there. -/
def settle : EStateM.Result Fault Store DecisionPhase → DecisionPhase × Store
  | .ok phase s => (phase,s)
  | .error fault s => (.failed fault,s)

def Ruling.step (r : Ruling) (here : DecisionPhase × Store) : DecisionPhase × Store :=
  settle (r.next here.1 here.2)

/-- What follows a call of the worker: its next position, or the handler. -/
def proceed (progress : Progress) (next : WorkerPhase) :
    EStateM.Result Fault Store Unit → WorkerPhase × Store
  | .ok _ s => (next,s)
  | .error fault s => (.releasing (aborted fault) progress.unlocked,s)

/-- The next statement of a worker. -/
def Cycle.step (cycle : Cycle) : WorkerPhase × Store → WorkerPhase × Store
  | (.ready,s) =>
    if cycle.stopped then
      (.releasing (fun d => .defer "Classifier stopped before processing" (cycle.look d))
        (cycle.claimed s),cycle.afterClaim s)
    else (.skipping (cycle.claimed s) [],cycle.afterClaim s)
  | (.skipping [] unlocked,s) => (if unlocked = [] then .finished else .analysing unlocked,s)
  | (.skipping (d::todo) unlocked,s) =>
    if (Queue.getDomainLock d s.queue).isSome then (.protecting d todo unlocked,s)
    else (.skipping todo (unlocked++[d]),s)
  | (.protecting d todo unlocked,s) =>
    (.skipping todo unlocked,s.setQueue (Queue.stagingAck d s.queue))
  | (.analysing unlocked,s) =>
    match cycle.analyse unlocked with
    | .error e => (.releasing (cycle.refused e) unlocked,s)
    | .ok (results,errors) =>
      (.handling ⟨unlocked,errors,0,cycle.handler.items results,[]⟩,s)
  | (.handling progress,s) =>
    match progress.items with
    | [] => (.releasing (cycle.concluded progress.errors progress.completed) progress.unlocked,s)
    | item::items =>
      let progress := { progress with items }
      if item.isPrimary then
        (.performing progress item 0
          ((cycle.handler.input item.classification).effects s.world),s)
      else
        proceed progress (.handling (progress.complete item))
          (cycle.handler.handleItem progress.index item s)
  | (.performing progress item _ [],s) => (.handling (progress.complete item),s)
  | (.performing progress item i (effect::effects),s) =>
    let handling := cycle.handler.handling progress.index
    match handling.fault i with
    | some fault => (.releasing (aborted fault) progress.unlocked,s)
    | none =>
      proceed progress (.performing progress item (i+1) effects) (performEffect handling.call effect s)
  | (.releasing _ [],s) => (.finished,s)
  | (.releasing verdict (d::todo),s) =>
    (.releasing verdict todo,s.setQueue ((verdict d).apply (cycle.finishedAt d) d s.queue))
  | (.finished,s) => (.finished,s)

/-! The steps of one of them alone. -/

/-- What leads to a decision of type `t`. -/
def rulingDecision : ListType → PiHole.Decision
  | .allow => .allow
  | .deny => .deny

theorem failed_alone (r : Ruling) (n : ℕ) (fault : Fault) (s : Store) :
    r.step^[n] (.failed fault,s) = (.failed fault,s) :=
  Function.iterate_fixed rfl n

/-- The statements that reach the Pi-hole. -/
theorem apply_alone (r : Ruling) (s : Store) :
    r.step^[4] (.start,s) = settle (((fun _ => DecisionPhase.cleared) <$>
      service (PiHole.applyDecision r.call r.domain r.comment r.listType) : Task _) s) := by
  simp only [Function.iterate_succ,Function.iterate_zero,Function.comp_apply,id_eq]
  simp only [Functor.map,EStateM.map,service]
  cases hdesired : PiHole.exactRuleExists (r.call.exchange 0) r.domain r.listType s.world with
  | error fault =>
    have hlook : r.step (.start,s) = (.failed fault,s) := by
      simp only [Ruling.step,Ruling.next,lookUpRule,bind,EStateM.bind,hdesired,settle]
    have happly : PiHole.applyDecision r.call r.domain r.comment r.listType s.world =
        .error fault s.world := by
      simp only [PiHole.applyDecision,hdesired,PiHole.refuse]
    rw [hlook,happly]
    rfl
  | ok desired =>
    have hlook : r.step (.start,s) = (.desiredKnown desired,s) := by
      simp only [Ruling.step,Ruling.next,lookUpRule,bind,EStateM.bind,hdesired,settle]
      rfl
    rw [hlook]
    cases hopposite : PiHole.exactRuleExists (r.call.exchange 1) r.domain r.listType.opposite
        s.world with
    | error fault =>
      have hlook' : r.step (.desiredKnown desired,s) = (.failed fault,s) := by
        simp only [Ruling.step,Ruling.next,lookUpRule,bind,EStateM.bind,hopposite,settle]
      have happly : PiHole.applyDecision r.call r.domain r.comment r.listType s.world =
          .error fault s.world := by
        simp only [PiHole.applyDecision,hdesired,hopposite,PiHole.refuse]
      rw [hlook',happly]
      rfl
    | ok opposite =>
      have hlook' : r.step (.desiredKnown desired,s) = (.bothKnown desired opposite,s) := by
        simp only [Ruling.step,Ruling.next,lookUpRule,bind,EStateM.bind,hopposite,settle]
        rfl
      have happly : PiHole.applyDecision r.call r.domain r.comment r.listType s.world =
          EStateM.bind (r.ensureRule desired) (fun _ => r.clearOpposite opposite) s.world := by
        simp only [PiHole.applyDecision,hdesired,hopposite]
        rfl
      have hadd : r.step (.bothKnown desired opposite,s) = settle (EStateM.bind
          (service (r.ensureRule desired)) (fun _ => pure (.added opposite)) s) := rfl
      rw [hlook',happly,hadd]
      simp only [EStateM.bind,service]
      cases r.ensureRule desired s.world with
      | error fault w => rfl
      | ok _ w =>
        change settle (EStateM.bind (service (r.clearOpposite opposite))
          (fun _ => pure DecisionPhase.cleared) { s with world := w }) = _
        simp only [EStateM.bind,service]
        rfl

/-- The statements after those. -/
theorem conclude_alone (r : Ruling) (s : Store) :
    r.step^[3] (.cleared,s) = settle (((fun _ => DecisionPhase.done) <$>
      concludeDecision r.call.now r.domain r.listType : Task _) s) := by
  simp only [Function.iterate_succ,Function.iterate_zero,Function.comp_apply,id_eq]
  change _ = settle (EStateM.map _ (EStateM.bind _ _) s)
  simp only [EStateM.map,EStateM.bind]
  have hmark : r.step (.cleared,s) = settle (EStateM.bind
    (markActionApplied r.call.now r.domain (PiHole.typeName r.listType))
      (fun _ => pure DecisionPhase.marked) s) := rfl
  rw [hmark]
  simp only [EStateM.bind]
  cases markActionApplied r.call.now r.domain (PiHole.typeName r.listType) s with
  | error fault s' => rfl
  | ok _ s' =>
    change settle (EStateM.bind (setReviewPreference _ _ _ _ _) (fun _ => pure DecisionPhase.done)
      (after (service (PiHole.leaveQueue r.domain) s'))) = settle (EStateM.map _
        (setReviewPreference _ _ _ _ _) (after (service (PiHole.leaveQueue r.domain) s')))
    simp only [EStateM.map,EStateM.bind]
    rfl

/-- A ruling alone carries out `_execute_validated`. -/
theorem ruling_alone (r : Ruling) (s : Store) :
    r.step^[7] (.start,s) = settle (((fun _ => DecisionPhase.done) <$>
      executeValidated r.call r.domain none r.comment (rulingDecision r.listType) : Task _) s) := by
  have hvalidated : executeValidated r.call r.domain none r.comment (rulingDecision r.listType) =
      (do
        service (PiHole.applyDecision r.call r.domain r.comment r.listType)
        concludeDecision r.call.now r.domain r.listType) := by
    cases hr : r.listType <;> rfl
  rw [hvalidated,Function.iterate_add_apply r.step 3 4,apply_alone]
  change _ = settle (EStateM.map _ (EStateM.bind _ _) s)
  change r.step^[3] (settle (EStateM.map _ _ s)) = _
  simp only [EStateM.map,EStateM.bind]
  cases service (PiHole.applyDecision r.call r.domain r.comment r.listType) s with
  | error fault s' => exact failed_alone r 3 fault s'
  | ok _ s' => exact conclude_alone r s'

/-- One worker step after another. -/
abbrev Cycle.Reaches (cycle : Cycle) : WorkerPhase × Store → WorkerPhase × Store → Prop :=
  Relation.ReflTransGen fun a b => cycle.step a = b

variable (cycle : Cycle)

theorem skip_alone (todo unlocked : List String) (s : Store) :
    cycle.Reaches (.skipping todo unlocked,s)
      (.skipping [] (unlocked++(skipProtected todo s).1),(skipProtected todo s).2) := by
  induction todo generalizing unlocked s with
  | nil =>
    rw [skipProtected,List.append_nil]
  | cons d todo ih =>
    by_cases hlocked : (Queue.getDomainLock d s.queue).isSome
    · have hlook : cycle.step (.skipping (d::todo) unlocked,s) = (.protecting d todo unlocked,s) := by
        simp only [Cycle.step,if_pos hlocked]
      have hack : cycle.step (.protecting d todo unlocked,s) =
          (.skipping todo unlocked,s.setQueue (Queue.stagingAck d s.queue)) := rfl
      have hrest := ih unlocked (s.setQueue (Queue.stagingAck d s.queue))
      simp only [skipProtected,if_pos hlocked]
      exact .head hlook (.head hack hrest)
    · have hlook : cycle.step (.skipping (d::todo) unlocked,s) =
          (.skipping todo (unlocked++[d]),s) := by
        simp only [Cycle.step,if_neg hlocked]
      have hrest := ih (unlocked++[d]) s
      rw [List.append_assoc] at hrest
      simp only [skipProtected,if_neg hlocked]
      exact .head hlook hrest

theorem perform_alone (progress : Progress) (item : Item) (i : ℕ) (effects : List Effect)
    (s : Store) :
    cycle.Reaches (.performing progress item i effects,s)
      (proceed progress (.handling (progress.complete item))
        (performEffects (cycle.handler.handling progress.index) i effects s)) := by
  induction effects generalizing i s with
  | nil => exact .single rfl
  | cons effect effects ih =>
    simp only [performEffects]
    cases hfault : (cycle.handler.handling progress.index).fault i with
    | some fault =>
      refine .single ?_
      simp only [Cycle.step,hfault]
      rfl
    | none =>
      change cycle.Reaches _ (proceed progress _ (EStateM.bind _ _ s))
      simp only [EStateM.bind]
      cases hresult : performEffect (cycle.handler.handling progress.index).call effect s with
      | error fault s' =>
        refine .single ?_
        simp only [Cycle.step,hfault,hresult]
        rfl
      | ok _ s' =>
        refine .head ?_ (ih (i+1) s')
        simp only [Cycle.step,hfault,hresult]
        rfl

/-- The verdicts that follow the handling of the results. -/
def Cycle.ending (progress : Progress) (handled : Handled) : String → Verdict :=
  match handled.failure with
  | some fault => aborted fault
  | none => cycle.concluded progress.errors (progress.completed++handled.completed)

theorem handle_alone (progress : Progress) (s : Store) :
    cycle.Reaches (.handling progress,s)
      (.releasing (cycle.ending progress
          (cycle.handler.handleItems progress.index progress.items s)) progress.unlocked,
        (cycle.handler.handleItems progress.index progress.items s).store) := by
  obtain ⟨unlocked,errors,index,items,completed⟩ := progress
  induction items generalizing index completed s with
  | nil =>
    refine .single ?_
    simp only [Cycle.step,Handler.handleItems,Cycle.ending,List.append_nil]
  | cons item items ih =>
    have hitem : cycle.Reaches (.handling ⟨unlocked,errors,index,item::items,completed⟩,s)
        (proceed ⟨unlocked,errors,index,items,completed⟩
          (.handling ⟨unlocked,errors,index+1,items,completed++[item]⟩)
          (cycle.handler.handleItem index item s)) := by
      by_cases hprimary : item.isPrimary
      · have hresolve : cycle.step (.handling ⟨unlocked,errors,index,item::items,completed⟩,s) =
            (.performing ⟨unlocked,errors,index,items,completed⟩ item 0
              ((cycle.handler.input item.classification).effects s.world),s) := by
          simp only [Cycle.step,if_pos hprimary]
        have hperform := perform_alone cycle ⟨unlocked,errors,index,items,completed⟩ item 0
          ((cycle.handler.input item.classification).effects s.world) s
        simp only [Handler.handleItem,if_pos hprimary]
        exact .head hresolve hperform
      · refine .single ?_
        simp only [Cycle.step,if_neg hprimary]
        rfl
    refine hitem.trans ?_
    simp only [Handler.handleItems]
    cases cycle.handler.handleItem index item s with
    | error fault s' => exact .refl
    | ok _ s' =>
      have hrest := ih s' (index+1) (completed++[item])
      simp only [Cycle.ending,List.append_assoc] at hrest
      exact hrest

theorem release_alone (verdict : String → Verdict) (todo : List String) (s : Store) :
    cycle.Reaches (.releasing verdict todo,s)
      (.finished,s.setQueue (cycle.release verdict todo s.queue)) := by
  induction todo generalizing s with
  | nil => exact .single rfl
  | cons d todo ih =>
    exact .head rfl (ih (s.setQueue ((verdict d).apply (cycle.finishedAt d) d s.queue)))

theorem verdict_refused {s : Store} {e : AnalysisError} (h : cycle.outcome s = .error e) :
    cycle.verdict s = cycle.refused e := by
  funext d
  simp only [Cycle.verdict,h,Cycle.refused]
  cases e with
  | noDomains => rfl
  | noUsableProviders poolName => rfl
  | unavailable message retryAt => rfl
  | dispatch e =>
    cases e with
    | noCandidate => rfl
    | execution e => cases e <;> rfl

theorem verdict_ending {s : Store} {results : List Dispatch.ProviderAnalysisResult}
    {errors : List ProviderAnalysisError} (h : cycle.outcome s = .ok (results,errors))
    (items : List Item) :
    cycle.verdict s =
      cycle.ending ⟨cycle.unlocked s,errors,0,items,[]⟩ (cycle.handled s) := by
  funext d
  simp only [Cycle.verdict,Cycle.ending,h]
  cases (cycle.handled s).failure <;> rfl

/-- A worker alone takes one turn of the loop. -/
theorem worker_alone (s : Store) : cycle.Reaches (.ready,s) (.finished,cycle.run s) := by
  simp only [Cycle.run]
  by_cases hstopped : cycle.stopped
  · rw [if_pos hstopped]
    refine .head ?_ (release_alone cycle _ (cycle.claimed s) (cycle.afterClaim s))
    simp only [Cycle.step,if_pos hstopped]
  · rw [if_neg hstopped]
    have hclaim : cycle.step (.ready,s) = (.skipping (cycle.claimed s) [],cycle.afterClaim s) := by
      simp only [Cycle.step,if_neg hstopped]
    have hskip := skip_alone cycle (cycle.claimed s) [] (cycle.afterClaim s)
    have hbegun : cycle.step (.skipping [] (cycle.unlocked s),cycle.begun s) =
        (if cycle.unlocked s = [] then .finished else .analysing (cycle.unlocked s),
          cycle.begun s) := rfl
    have hfront : cycle.Reaches (.ready,s)
        (if cycle.unlocked s = [] then .finished else .analysing (cycle.unlocked s),
          cycle.begun s) := .head hclaim (hskip.tail hbegun)
    by_cases hnone : cycle.unlocked s = []
    · rw [if_pos hnone] at hfront ⊢
      exact hfront
    · rw [if_neg hnone] at hfront ⊢
      refine hfront.trans ?_
      cases hresult : cycle.analyse (cycle.unlocked s) with
      | error e =>
        have hhandled : (cycle.handled s).store = cycle.begun s := by
          simp only [Cycle.handled,Cycle.outcome,hresult]
        rw [verdict_refused cycle hresult,hhandled]
        refine .head ?_ (release_alone cycle _ _ _)
        simp only [Cycle.step,hresult]
      | ok pair =>
        obtain ⟨results,errors⟩ := pair
        have hdispatch : cycle.step (.analysing (cycle.unlocked s),cycle.begun s) =
            (.handling ⟨cycle.unlocked s,errors,0,cycle.handler.items results,[]⟩,
              cycle.begun s) := by
          simp only [Cycle.step,hresult]
        have hhandle := handle_alone cycle
          ⟨cycle.unlocked s,errors,0,cycle.handler.items results,[]⟩ (cycle.begun s)
        rw [← handled_ok hresult] at hhandle
        rw [verdict_ending cycle hresult (cycle.handler.items results)]
        exact .head hdispatch (hhandle.trans (release_alone cycle _ _ _))

end Steps

end Review
end WormholeObservatory
