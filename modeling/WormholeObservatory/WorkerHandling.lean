import WormholeObservatory.DispatchModes
import WormholeObservatory.ReviewStore
import WormholeObservatory.RuleKeeping

/-! `Classifier._handle_dispatch_result`: the classifications of a dispatch, one after the
other, each with the calls it leads to. A call that raises ends the handling where it is. -/
namespace WormholeObservatory
namespace Review

open Automation (Effect)
open PiHole (Fault)

/-- The store a call leaves behind, whether it returns or raises. -/
def after {α : Type} : EStateM.Result Fault Store α → Store
  | .ok _ s => s
  | .error _ s => s

/-! What a call leaves true. -/

/-- Whatever a call does, `P` stays true. -/
def Keeping {α : Type} (P : Store → Prop) (x : Task α) : Prop := ∀ s, P s → P (after (x s))

theorem Keeping.bind {α β : Type} {P : Store → Prop} {x : Task α} {f : α → Task β}
    (hx : Keeping P x) (hf : ∀ a, Keeping P (f a)) : Keeping P (x >>= f) := by
  intro s hs
  have hafter := hx s hs
  change P (after (EStateM.bind x f s))
  simp only [EStateM.bind]
  cases hxs : x s with
  | ok a s' =>
    rw [hxs] at hafter
    exact hf a s' hafter
  | error fault s' =>
    rw [hxs] at hafter
    exact hafter

theorem Keeping.throw {α : Type} {P : Store → Prop} (fault : Fault) :
    Keeping P (throw fault : Task α) := fun _ hs => hs

theorem Keeping.pure {α : Type} {P : Store → Prop} (a : α) : Keeping P (pure a : Task α) :=
  fun _ hs => hs

theorem after_service {α : Type} (x : PiHole.Service α) (s : Store) :
    after (service x s) = { s with world := PiHole.final (x s.world) } := by
  simp only [service]
  cases x s.world <;> rfl

/-- A property that does not look at the Pi-hole and its log is kept by every call of the
service that leaves the queue alone. -/
theorem Keeping.service {α : Type} {P : Store → Prop} {x : PiHole.Service α}
    (hx : ∀ s, P s → P { s with world := PiHole.final (x s.world) }) :
    Keeping P (service x) := by
  intro s hs
  rw [after_service]
  exact hx s hs

/-- What handling one classification meets: the time and the Pi-hole of its calls, and the
exception its `i`-th call raises before it does anything, if it does (a database or a
notifier error). -/
structure Handling where
  call : PiHole.Call
  fault : ℕ → Option Fault

section Handle

variable [CaseTables]

def performEffect (call : PiHole.Call) : Effect → Task Unit
  | .reviewTask domain reason priority source =>
    createReviewTask call.now domain reason priority source
  | .notify _ _ => pure ()
  | .addExactDomain domain policy comment =>
    service (PiHole.addExactDomain call domain policy.value comment false)
  | .saveClassification c status plannedAction actionStatus =>
    saveClassificationRun call.now c ⟨status,plannedAction,actionStatus,true,true⟩

/-- The calls of a handled classification, from the `i`-th on. -/
def performEffects (handling : Handling) : ℕ → List Effect → Task Unit
  | _, [] => pure ()
  | i, effect::rest =>
    match handling.fault i with
    | some fault => throw fault
    | none => do
      performEffect handling.call effect
      performEffects handling (i+1) rest

/-- `Classifier._handle_classification`. -/
def handleClassification (handling : Handling) (input : PiHole.WorkerInput) : Task Unit := fun s =>
  performEffects handling 0 (input.effects s.world) s

/-- A classification a dispatch returned, and whether it is a primary one. -/
structure Item where
  classification : Classification
  isPrimary : Bool

/-- What `_handle_dispatch_result` has besides the result. -/
structure Handler where
  options : Automation.AutomationOptions
  runs : List Behavior.RunRow
  tagRows : List Automation.TagRow
  dossier : String → Automation.Dossier
  queueSource : String → String
  knownProvider : String → Bool
  handling : ℕ → Handling

/-- The items of a dispatch, without those of a provider that is no longer configured. -/
def Handler.items (handler : Handler) (results : List Dispatch.ProviderAnalysisResult) : List Item :=
  (results.filter (handler.knownProvider ·.providerId)).flatMap fun result =>
    result.classifications.map fun c => ⟨c,result.isPrimary⟩

def Handler.input (handler : Handler) (c : Classification) : PiHole.WorkerInput where
  options := handler.options
  runs := handler.runs
  tagRows := handler.tagRows
  dossier := handler.dossier c.domain
  queueSource := handler.queueSource c.domain
  classification := c

/-- One turn of the inner loop: a primary classification is acted on, another one saved. -/
def Handler.handleItem (handler : Handler) (i : ℕ) (item : Item) : Task Unit :=
  if item.isPrimary then handleClassification (handler.handling i) (handler.input item.classification)
  else
    match (handler.handling i).fault 0 with
    | some fault => throw fault
    | none => saveClassificationRun (handler.handling i).call.now item.classification
        ⟨"compared","","none",false,false⟩

/-- Where the loop got to. -/
structure Handled where
  store : Store
  completed : List Item
  failure : Option Fault

/-- The loop, from the `i`-th item on. -/
def Handler.handleItems (handler : Handler) : ℕ → List Item → Store → Handled
  | _, [], s => ⟨s,[],none⟩
  | i, item::items, s =>
    match handler.handleItem i item s with
    | .error fault s' => ⟨s',[],some fault⟩
    | .ok _ s' =>
      let rest := handler.handleItems (i+1) items s'
      { rest with completed := item::rest.completed }

/-! The domain row every transaction starts with. -/

theorem ensured_ok {now : ℤ} {d key : String} {s s' : Store}
    (h : ensured now d s = .ok (key,s')) :
    key = normalizeDomain d ∧ ∃ domains, s' = s.setQueue { s.queue with domains } := by
  simp only [ensured,Queue.ensureDomain] at h
  split at h
  · cases h
  · rename_i hensure
    obtain ⟨rfl,rfl⟩ := Prod.mk.inj (Except.ok.inj h)
    split at hensure
    · cases hensure
    · obtain ⟨rfl,rfl⟩ := Prod.mk.inj (Except.ok.inj hensure)
      exact ⟨rfl,_,rfl⟩

theorem ensured_eq (now : ℤ) {d : String} (hkey : normalizeDomain d ≠ "") (s : Store) :
    ∃ domains, ensured now d s = .ok (normalizeDomain d,s.setQueue { s.queue with domains }) := by
  simp only [ensured,Queue.ensureDomain,if_neg hkey]
  exact ⟨_,rfl⟩

theorem ensured_blank {now : ℤ} {d : String} (hkey : normalizeDomain d = "") (s : Store) :
    ensured now d s = .error emptyDomainFault := by
  simp only [ensured,Queue.ensureDomain,if_pos hkey]

/-! What the calls of a handled classification leave true. -/

theorem performEffects_keeping {P : Store → Prop} {handling : Handling} {effects : List Effect}
    (h : ∀ effect ∈ effects, Keeping P (performEffect handling.call effect)) (i : ℕ) :
    Keeping P (performEffects handling i effects) := by
  induction effects generalizing i with
  | nil => exact Keeping.pure ()
  | cons effect rest ih =>
    simp only [performEffects]
    cases handling.fault i with
    | some fault => exact Keeping.throw fault
    | none =>
      exact (h effect (by simp)).bind fun _ =>
        ih (fun effect' hmem => h effect' (by simp [hmem])) (i+1)

/-- The calls that come before the classification is saved, all about one domain. -/
def Prepares (d : String) : Effect → Prop
  | .reviewTask domain _ _ _ => domain = d
  | .notify _ _ => True
  | .addExactDomain domain _ _ => domain = d
  | .saveClassification _ _ _ _ => False

omit [CaseTables] in
theorem prepares_act {options : Automation.AutomationOptions} {c : Classification}
    {conflict : Bool} {action : Option Policy} {effect : Effect}
    (h : effect ∈ (Automation.act options c conflict action).1) : Prepares c.domain effect := by
  cases action with
  | none => simp [Automation.act] at h
  | some policy =>
    simp only [Automation.act,Automation.actionEffects] at h
    split at h
    · rcases List.mem_cons.mp h with rfl | h
      · rfl
      · rw [List.mem_singleton.mp h]
        trivial
    · rcases List.mem_cons.mp h with rfl | h
      · rfl
      · rw [List.mem_singleton.mp h]
        trivial

/-! A handled classification is prepared and then saved. -/

def recordsOf (input : PiHole.WorkerInput) (w : PiHole.World) : Automation.Records :=
  ⟨input.runs,input.tagRows,w.queue,w.profiles⟩

/-- The classification that is saved. -/
def adjustedOf (input : PiHole.WorkerInput) (w : PiHole.World) : Classification :=
  Automation.adjusted input.options (recordsOf input w) input.queueSource input.classification

/-- The decision before the lock is looked at. -/
def decisionOf (input : PiHole.WorkerInput) (w : PiHole.World) : Automation.AutomaticActionDecision :=
  Automation.automaticDecision input.options (recordsOf input w) input.dossier input.queueSource
    input.classification

/-- The action that is taken, if any. -/
def actionOf (input : PiHole.WorkerInput) (w : PiHole.World) : Option Policy :=
  Automation.unlockedAction (Queue.getDomainLock input.classification.domain w.queue)
    (decisionOf input w).action

/-- Whether the lock vetoes the action. -/
def conflictOf (input : PiHole.WorkerInput) (w : PiHole.World) : Bool :=
  decide ((decisionOf input w).action ≠ none ∧ actionOf input w = none)

/-- The calls of the action, the status and the action status. -/
def actedOf (input : PiHole.WorkerInput) (w : PiHole.World) : List Effect × String × String :=
  Automation.act input.options (adjustedOf input w) (conflictOf input w) (actionOf input w)

/-- The calls before the save. -/
def preparation (input : PiHole.WorkerInput) (w : PiHole.World) : List Effect :=
  Automation.policyTask (adjustedOf input w) (decisionOf input w)++
    Automation.lockTask (adjustedOf input w) (conflictOf input w)++(actedOf input w).1++
    Automation.reviewTask (adjustedOf input w)

theorem adjustedOf_sameVerdict (input : PiHole.WorkerInput) (w : PiHole.World) :
    Compatibility.SameVerdict input.classification (adjustedOf input w) :=
  Automation.adjusted_sameVerdict _ _ _ _

theorem effects_eq (input : PiHole.WorkerInput) (w : PiHole.World) :
    input.effects w = preparation input w++[.saveClassification (adjustedOf input w)
      (actedOf input w).2.1 (((actionOf input w).map Policy.value).getD "")
      (actedOf input w).2.2] := by
  have hdomain := (adjustedOf_sameVerdict input w).domain
  have heffects : input.effects w = Automation.handleClassification input.options
      (recordsOf input w) input.dossier input.queueSource input.classification := rfl
  rw [heffects]
  simp only [Automation.handleClassification,preparation,actedOf,conflictOf,actionOf,← hdomain]
  rfl

theorem preparation_prepares {input : PiHole.WorkerInput} {w : PiHole.World} {effect : Effect}
    (h : effect ∈ preparation input w) : Prepares input.classification.domain effect := by
  rw [← (adjustedOf_sameVerdict input w).domain]
  simp only [preparation,List.mem_append] at h
  rcases h with ((h | h) | h) | h
  · simp only [Automation.policyTask] at h
    split at h
    · cases h
    · rw [List.mem_singleton.mp h]
      rfl
  · simp only [Automation.lockTask] at h
    split at h
    · rw [List.mem_singleton.mp h]
      rfl
    · cases h
  · exact prepares_act h
  · simp only [Automation.reviewTask] at h
    split at h
    · rw [List.mem_singleton.mp h]
      rfl
    · cases h

end Handle

end Review
end WormholeObservatory
