import WormholeObservatory.AutomationGate
import WormholeObservatory.PiHoleAudit

/-! The calls that change exact rules: `pihole_service`, the review decisions built on it and
the automatic action of a worker, together with the rollback of the audit log. -/
namespace WormholeObservatory
namespace PiHole

open Queue (ListType)

/-- What `raise` does: nothing more. -/
def refuse {α : Type} (fault : Fault) : Service α := fun w => .error fault w

/-- What a mutation does once it may: the request, then its audit entry. -/
def mutate (call : Call) (exchange : Exchange) (request : Request) (operation : Operation)
    (resource : Resource) (before after : Option Snapshot) : Service Unit := fun w =>
  match send exchange request w with
  | .error fault w => .error fault w
  | .ok _ w => .ok () (recordPiholeChange call operation resource before after w)

def domainTypeFault : Fault := .valueError "domain_type must be 'allow' or 'deny'"

/-- `update_exact_domain_groups`. -/
def updateExactDomainGroups (call : Call) (domain domainType : String) (groups : List ℤ)
    (comment : String) (enabled : Bool) : Service Unit := fun w =>
  match Queue.parseListType domainType with
  | none => refuse domainTypeFault w
  | some t =>
    let resource := Resource.exactDomain t domain
    let before := capturePiholeSnapshot (call.exchange 0) resource w.pihole
    mutate call (call.exchange 1) (.update resource ⟨comment,enabled,normalizeGroups groups⟩) .update
      resource before (some ⟨domain,domainType,comment,enabled,some (normalizeGroups groups)⟩) w

section Locked

variable [CaseTables]

/-- The refusal of `add_exact_domain` on account of a lock. -/
def addConflict (domain : String) (t : ListType) (w : World) : Option Fault :=
  match Queue.getDomainLock domain w.queue with
  | some lock =>
    if lock.listType ≠ t then
      some (.runtimeError ("Domain is protected in the "++typeName lock.listType++
        " list and cannot be added to "++typeName t++"."))
    else none
  | none => none

/-- The refusal of `add_exact_domain` on account of a compatibility profile. -/
def compatibilityConflict (domain : String) (t : ListType) (compatibilityOverride : Bool)
    (w : World) : Option Fault :=
  match Compatibility.compatibilityMatchForDomain domain w.profiles with
  | some m =>
    if t = .deny ∧ ¬compatibilityOverride then
      some (.runtimeError ("Domain matches protected compatibility profile '"++m.profile.name++
        "' ("++m.matchedPattern++"). Blocking requires an explicit compatibility override. "++
        m.profile.reason))
    else none
  | none => none

/-- `add_exact_domain`. -/
def addExactDomain (call : Call) (domain policy comment : String) (compatibilityOverride : Bool) :
    Service Unit := fun w =>
  match Queue.parseListType policy with
  | none => refuse (.valueError "policy must be allow or deny") w
  | some t =>
    match addConflict domain t w with
    | some fault => refuse fault w
    | none =>
      match compatibilityConflict domain t compatibilityOverride w with
      | some fault => refuse fault w
      | none =>
        let resource := Resource.exactDomain t domain
        mutate call (call.exchange 0) (.add resource ⟨comment,true,[]⟩) .add resource none
          (some ⟨domain,policy,comment,true,none⟩) w

/-- `delete_exact_domain`. -/
def deleteExactDomain (call : Call) (domain domainType : String) : Service Unit := fun w =>
  match Queue.parseListType domainType with
  | none => refuse domainTypeFault w
  | some t =>
    let resource := Resource.exactDomain t domain
    let delete : Service Unit := mutate call (call.exchange 1) (.delete resource) .delete resource
      (capturePiholeSnapshot (call.exchange 0) resource w.pihole) none
    match Queue.getDomainLock domain w.queue with
    | some lock =>
      if lock.listType = t then
        refuse (.runtimeError "Domain is protected and cannot be removed until it is unlocked.") w
      else delete w
    | none => delete w

inductive Decision
  | allow
  | deny
  | postpone
  | ignore
  | neverAsk
  deriving DecidableEq

/-- `VALID_REVIEW_DECISIONS`. -/
def parseDecision (decision : String) : Option Decision :=
  if decision = "allow" then some .allow
  else if decision = "deny" then some .deny
  else if decision = "postpone" then some .postpone
  else if decision = "ignore" then some .ignore
  else if decision = "never_ask" then some .neverAsk
  else none

structure ReviewDecisionCommand where
  domain : String
  decision : String
  postponeUntil : Option ℤ := none
  comment : String := ""

structure ReviewDecisionResult where
  domain : String
  decision : Decision
  postponeUntil : Option ℤ := none

/-- `_exact_rule_exists`. -/
def exactRuleExists (exchange : Exchange) (domain : String) (t : ListType) (w : World) :
    Except Fault Bool :=
  (fetchRow exchange (.exactDomain t domain) w.pihole).map Option.isSome

/-- The Pi-hole part of an `allow` or `deny` decision. -/
def applyDecision (call : Call) (domain comment : String) (t : ListType) : Service Unit := fun w =>
  match exactRuleExists (call.exchange 0) domain t w with
  | .error fault => refuse fault w
  | .ok desiredExists =>
    match exactRuleExists (call.exchange 1) domain t.opposite w with
    | .error fault => refuse fault w
    | .ok oppositeExists =>
      let add : Service Unit :=
        if desiredExists then pure ()
        else addExactDomain (call.skip 2) domain (typeName t)
          (orElse (strip comment) ("Review decision: "++typeName t)) false
      let delete : Service Unit :=
        if oppositeExists then deleteExactDomain (call.skip 3) domain (typeName t.opposite)
        else pure ()
      (do add; delete : Service Unit) w

/-- The queue part every decision ends with. -/
def leaveQueue (domain : String) : Service Unit := fun w =>
  .ok () { w with queue := Queue.stagingRemove [domain] w.queue }

/-- `_execute_validated`. -/
def executeValidated (call : Call) (domain : String) (decision : Decision)
    (postponeUntil : Option ℤ) (comment : String) : Service ReviewDecisionResult :=
  match decision with
  | .allow => do
    applyDecision call domain comment .allow
    leaveQueue domain
    pure ⟨domain,decision,none⟩
  | .deny => do
    applyDecision call domain comment .deny
    leaveQueue domain
    pure ⟨domain,decision,none⟩
  | .postpone =>
    match postponeUntil with
    | none => refuse (.invalidReviewDecision "postpone_until is required for postpone")
    | some postponed =>
      if postponed ≤ call.now then
        refuse (.invalidReviewDecision "postpone_until must be in the future")
      else do
        leaveQueue domain
        pure ⟨domain,decision,some postponed⟩
  | _ => do
    leaveQueue domain
    pure ⟨domain,decision,none⟩

/-- `ReviewDecisionApplicationService.execute`. -/
def executeReviewDecision (call : Call) (command : ReviewDecisionCommand) :
    Service ReviewDecisionResult := fun w =>
  let normalized := normalizeDomain command.domain
  if normalized = "" then refuse (.invalidReviewDecision "domain must not be empty") w
  else
    match parseDecision (CaseTables.lower (strip command.decision)) with
    | none => refuse (.invalidReviewDecision
        "decision must be allow, deny, postpone, ignore, or never_ask") w
    | some decision =>
      match executeValidated call normalized decision command.postponeUntil command.comment w with
      | .error (.runtimeError message) w => .error (.reviewDecisionConflict message) w
      | result => result

/-- The part of a worker's effects that reaches the Pi-hole; the result is the status the
classification is saved under. -/
def performEffects (call : Call) : List Automation.Effect → Service String
  | [] => pure ""
  | .addExactDomain domain policy comment::rest => do
    addExactDomain call domain policy.value comment false
    performEffects call rest
  | .saveClassification _ status _ _::_ => pure status
  | _::rest => performEffects call rest

/-- What a worker has before it when it handles a classification. -/
structure WorkerInput where
  options : Automation.AutomationOptions
  runs : List Behavior.RunRow
  tagRows : List Automation.TagRow
  dossier : Automation.Dossier
  queueSource : String
  classification : Classification

def WorkerInput.effects (input : WorkerInput) (w : World) : List Automation.Effect :=
  Automation.handleClassification input.options ⟨input.runs,input.tagRows,w.queue,w.profiles⟩
    input.dossier input.queueSource input.classification

/-- `Classifier._handle_classification`, with its effects carried out. -/
def workerAction (call : Call) (input : WorkerInput) : Service String := fun w =>
  performEffects call (input.effects w) w

/-- The calls that change exact rules, and those that change the queue and its locks. -/
inductive Op
  | addExactDomain (domain policy comment : String) (compatibilityOverride : Bool)
  | deleteExactDomain (domain domainType : String)
  | updateExactDomainGroups (domain domainType : String) (groups : List ℤ) (comment : String)
      (enabled : Bool)
  | reviewDecision (command : ReviewDecisionCommand)
  | workerAction (input : WorkerInput)
  | rollback (entryId : ℤ)
  | queue (context : Queue.Context) (op : Queue.Op)

/-- What a caller learns. A worker does not raise on a lock; it says so in the status. -/
inductive Answer
  | done
  | saved (status : String)
  | rollbackEntry (id : ℤ)

def Op.exec (call : Call) : Op → Service Answer
  | .addExactDomain domain policy comment compatibilityOverride => do
    PiHole.addExactDomain call domain policy comment compatibilityOverride
    pure .done
  | .deleteExactDomain domain domainType => do
    PiHole.deleteExactDomain call domain domainType
    pure .done
  | .updateExactDomainGroups domain domainType groups comment enabled => do
    PiHole.updateExactDomainGroups call domain domainType groups comment enabled
    pure .done
  | .reviewDecision command => do
    let _ ← executeReviewDecision call command
    pure .done
  | .workerAction input => do
    let status ← PiHole.workerAction call input
    pure (.saved status)
  | .rollback entryId => do
    let id ← rollbackPiholeAudit call entryId
    pure (.rollbackEntry id)
  | .queue context op => fun w => .ok .done { w with queue := op.exec context w.queue }

/-- Calls in sequence, each with its own surroundings. -/
def Op.Step (w : World) (l : Call × Op) (w' : World) : Prop := final (l.2.exec l.1 w) = w'

end Locked
end PiHole
end WormholeObservatory
