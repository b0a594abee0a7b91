import WormholeObservatory.Compatibility
import WormholeObservatory.StagingQueue

/-! The rules of a Pi-hole as a keyed store, the requests the client sends to it, and the
audit log of `pihole_audit` with its snapshots and its rollback. -/
namespace WormholeObservatory
namespace PiHole

open Queue (ListType)

def typeName : ListType → String
  | .allow => "allow"
  | .deny => "deny"

inductive SubscriptionType
  | allow
  | block
  deriving DecidableEq

/-- The kind, the type and the key of one rule. -/
inductive Resource
  | exactDomain (domainType : ListType) (domain : String)
  | regexDomain (domainType : ListType) (pattern : String)
  | subscribedList (listType : SubscriptionType) (address : String)
  deriving DecidableEq

def Resource.key : Resource → String
  | .exactDomain _ domain => domain
  | .regexDomain _ pattern => pattern
  | .subscribedList _ address => address

def Resource.resourceType : Resource → String
  | .exactDomain domainType _ => typeName domainType
  | .regexDomain domainType _ => typeName domainType
  | .subscribedList .allow _ => "allow"
  | .subscribedList .block _ => "block"

structure Rule where
  comment : String
  enabled : Bool
  groups : List ℤ
  deriving DecidableEq

abbrev Rules := Table Resource Rule

/-- A rule that names no group goes to the default group. The client sends the empty
list for `groups=None` as well as for `groups=[]`. -/
def storedGroups (groups : List ℤ) : List ℤ := if groups = [] then [0] else groups

inductive Request
  | add (resource : Resource) (rule : Rule)
  | update (resource : Resource) (rule : Rule)
  | delete (resource : Resource)

/-- What the Pi-hole makes of a request; `none` when it answers with an error. -/
def Request.apply (rules : Rules) : Request → Option Rules
  | .add resource rule =>
    match rules.lookup resource with
    | none => some (rules.insert resource { rule with groups := storedGroups rule.groups })
    | some _ => some rules
  | .update resource rule =>
    match rules.lookup resource with
    | none => none
    | some _ => some (rules.insert resource { rule with groups := storedGroups rule.groups })
  | .delete resource =>
    match rules.lookup resource with
    | none => none
    | some _ => some (rules.erase resource)

/-- How far a request gets: it may never arrive, and its answer may be lost. -/
inductive Delivery
  | answered
  | unanswered
  | unsent
  deriving DecidableEq

/-- One request and its answer; `message` is the text of the `PiHole6Error`, if there is one. -/
structure Exchange where
  delivery : Delivery
  message : String

/-- What a call finds: the time, the exchanges with the Pi-hole by their number, and the
error that opening the audit database raises. -/
structure Call where
  now : ℤ
  exchange : ℕ → Exchange
  auditFault : Option String

def Call.skip (n : ℕ) (call : Call) : Call :=
  { call with exchange := fun i => call.exchange (n+i) }

inductive Operation
  | add
  | update
  | delete
  | rollback
  deriving DecidableEq

/-- The state of a rule as the log keeps it. Missing groups are not compared. -/
structure Snapshot where
  key : String
  type : String
  comment : String
  enabled : Bool
  groups : Option (List ℤ)
  deriving DecidableEq

/-- A row of `pihole_audit_log`, without its key. -/
structure AuditEntry where
  instanceId : String
  instanceName : String
  instanceUrl : String
  operation : Operation
  resource : Resource
  before : Option Snapshot
  after : Option Snapshot
  reversible : Bool
  relatedEntryId : Option ℤ
  rolledBackAt : Option ℤ
  rollbackError : String
  createdAt : ℤ

/-- The log. Ids are handed out in order and never again. -/
structure AuditLog where
  entries : Table ℤ AuditEntry
  lastId : ℤ
  fresh : ∀ id, lastId < id → entries.lookup id = none

def AuditLog.empty : AuditLog := ⟨∅,0,fun _ _ => rfl⟩

def AuditLog.append (entry : AuditEntry) (log : AuditLog) : AuditLog where
  entries := log.entries.insert (log.lastId+1) entry
  lastId := log.lastId+1
  fresh id hid := by
    rw [AList.lookup_insert_ne (by omega)]
    exact log.fresh id (by omega)

def AuditLog.update (id : ℤ) (f : AuditEntry → AuditEntry) (log : AuditLog) : AuditLog where
  entries := log.entries.update id f
  lastId := log.lastId
  fresh id' hid := by
    by_cases h : id' = id
    · subst h
      rw [Table.lookup_update_self,log.fresh id' hid]
      rfl
    · rw [Table.lookup_update_ne h]
      exact log.fresh id' hid

structure PiHoleInstance where
  instanceId : String
  name : String
  baseUrl : String

/-- The registry of instances, as far as the audit log reads it. -/
structure Registry where
  instances : List PiHoleInstance
  activeInstanceId : String

structure World where
  queue : Queue.Database
  profiles : List Compatibility.CompatibilityProfile
  baseUrl : String
  registry : Registry
  pihole : Rules
  audit : AuditLog

/-- The exceptions that reach a caller. `PiHole6Error` is a `RuntimeError`. -/
inductive Fault
  | valueError (message : String)
  | runtimeError (message : String)
  | invalidReviewDecision (message : String)
  | reviewDecisionConflict (message : String)
  deriving DecidableEq

def Fault.message : Fault → String
  | .valueError message => message
  | .runtimeError message => message
  | .invalidReviewDecision message => message
  | .reviewDecisionConflict message => message

/-- A call that raises keeps what it has done so far. -/
abbrev Service := EStateM Fault World

/-- The world a call leaves behind, whether it returns or raises. -/
def final {α : Type} : EStateM.Result Fault World α → World
  | .ok _ w => w
  | .error _ w => w

/-- One request of the client. -/
def send (exchange : Exchange) (request : Request) : Service Unit := fun w =>
  match exchange.delivery,request.apply w.pihole with
  | .answered,some rules => .ok () { w with pihole := rules }
  | .unanswered,some rules => .error (.runtimeError exchange.message) { w with pihole := rules }
  | _,_ => .error (.runtimeError exchange.message) w

/-- The row of one rule in the collection a `fetch_*` call returns. Rows without a name
are dropped from it. -/
def fetchRow (exchange : Exchange) (resource : Resource) (rules : Rules) :
    Except Fault (Option Rule) :=
  if exchange.delivery = .answered then
    .ok (if resource.key = "" then none else rules.lookup resource)
  else .error (.runtimeError exchange.message)

/-- `_normalize_groups`. -/
def normalizeGroups (groups : List ℤ) : List ℤ := groups.dedup.insertionSort (· ≤ ·)

/-- `normalize_snapshot`. -/
def normalizeSnapshot (resource : Resource) (snapshot : Snapshot) : Snapshot where
  key := orElse snapshot.key resource.key
  type := orElse snapshot.type resource.resourceType
  comment := snapshot.comment
  enabled := snapshot.enabled
  groups := snapshot.groups.map normalizeGroups

/-- `capture_pihole_snapshot`. A failed fetch looks like a missing rule. -/
def capturePiholeSnapshot (exchange : Exchange) (resource : Resource) (rules : Rules) :
    Option Snapshot :=
  match fetchRow exchange resource rules with
  | .error _ => none
  | .ok row => row.map fun rule =>
    normalizeSnapshot resource ⟨resource.key,"",rule.comment,rule.enabled,some rule.groups⟩

/-- `_snapshot_matches`. -/
def snapshotMatches : Option Snapshot → Option Snapshot → Bool
  | none,none => true
  | some current,some expected =>
    current.key = expected.key && current.type = expected.type &&
      current.comment = expected.comment && current.enabled = expected.enabled &&
      (expected.groups = none || current.groups = expected.groups)
  | _,_ => false

/-- `_instance_context`: the id, the name and the address of the active instance. -/
def instanceContext (baseUrl : String) (registry : Registry) : String × String × String :=
  let activeUrl := rstripSlashes (strip baseUrl)
  let named := registry.instances.filter fun item => rstripSlashes (strip item.baseUrl) = activeUrl
  let selected :=
    match named.find? fun item => item.instanceId = registry.activeInstanceId with
    | some item => some item
    | none => if named.length = 1 then named.head? else none
  match selected with
  | some item => (item.instanceId,orElse item.name (orElse activeUrl "Pi-hole"),activeUrl)
  | none => ("",orElse activeUrl "Pi-hole",activeUrl)

/-- The default of `reversible`. -/
def isReversible (operation : Operation) (before : Option Snapshot) : Bool :=
  match operation with
  | .add => true
  | .update => before.isSome
  | .delete => before.isSome
  | .rollback => false

/-- `record_pihole_change`. An audit database that cannot be opened is logged and passed over. -/
def recordPiholeChange (call : Call) (operation : Operation) (resource : Resource)
    (before after : Option Snapshot) (w : World) : World :=
  let before := before.map (normalizeSnapshot resource)
  let after := after.map (normalizeSnapshot resource)
  let (instanceId,instanceName,instanceUrl) := instanceContext w.baseUrl w.registry
  let entry : AuditEntry :=
    { instanceId, instanceName, instanceUrl, operation, resource, before, after
      reversible := isReversible operation before
      relatedEntryId := none
      rolledBackAt := none
      rollbackError := ""
      createdAt := call.now }
  match call.auditFault with
  | some _ => w
  | none => { w with audit := w.audit.append entry }

/-- The request that undoes an entry; `none` when there is no previous state to restore. -/
def undoRequest (entry : AuditEntry) : Option Request :=
  match entry.operation,entry.before with
  | .add,_ => some (.delete entry.resource)
  | _,none => none
  | .delete,some snapshot => some (.add entry.resource
      ⟨snapshot.comment,snapshot.enabled,normalizeGroups (snapshot.groups.getD [])⟩)
  | _,some snapshot => some (.update entry.resource
      ⟨snapshot.comment,snapshot.enabled,normalizeGroups (snapshot.groups.getD [])⟩)

/-- `_apply_rollback`. -/
def applyRollback (exchange : Exchange) (entry : AuditEntry) : Service Unit :=
  match undoRequest entry with
  | some request => send exchange request
  | none => throw (.runtimeError "The audit entry has no previous state to restore.")

def switchInstance (entry : AuditEntry) : Fault :=
  .runtimeError ("Switch to Pi-hole instance '"++entry.instanceName++
    "' before rolling this change back.")

/-- What `rollback_pihole_audit` holds against an entry before it touches the Pi-hole. A
time of zero in `rolled_back_at` reads as none. -/
def rollbackRefusal (exchange : Exchange) (entry : AuditEntry) (w : World) : Option Fault :=
  let (currentId,_,currentUrl) := instanceContext w.baseUrl w.registry
  let expected := if entry.operation = .delete then none else entry.after
  if ¬entry.reversible ∨ entry.operation = .rollback then
    some (.runtimeError "This audit entry cannot be rolled back.")
  else if entry.rolledBackAt.filter (· ≠ 0) ≠ none then
    some (.runtimeError "This change has already been rolled back.")
  else if entry.instanceId ≠ "" ∧ currentId ≠ "" ∧ entry.instanceId ≠ currentId then
    some (switchInstance entry)
  else if rstripSlashes entry.instanceUrl ≠ rstripSlashes currentUrl then
    some (switchInstance entry)
  else if snapshotMatches (capturePiholeSnapshot exchange entry.resource w.pihole) expected then none
  else some (.runtimeError ("The Pi-hole resource changed after this audit entry. Rollback was "++
    "refused to avoid overwriting a newer change."))

def truncateMessage (message : String) : String := String.ofList (message.toList.take 2000)

/-- `_mark_rollback_error`. -/
def markRollbackError (entryId : ℤ) (error : String) (w : World) : World :=
  { w with audit := w.audit.update entryId fun entry =>
      { entry with rollbackError := truncateMessage error } }

/-- The two statements that close a rollback. -/
def markRolledBack (call : Call) (entryId : ℤ) (entry : AuditEntry) (w : World) : World :=
  let undone : AuditEntry → AuditEntry := fun row =>
    { row with rolledBackAt := some call.now, rollbackError := "" }
  let record : AuditEntry :=
    { entry with
      operation := .rollback
      before := entry.after
      after := entry.before
      reversible := false
      relatedEntryId := some entryId
      rolledBackAt := none
      rollbackError := ""
      createdAt := call.now }
  { w with audit := (w.audit.update entryId undone).append record }

/-- `rollback_pihole_audit`. -/
def rollbackPiholeAudit (call : Call) (entryId : ℤ) : Service ℤ := fun w =>
  match call.auditFault with
  | some message => .error (.runtimeError message) w
  | none =>
    match w.audit.entries.lookup entryId with
    | none => .error (.valueError "Audit entry was not found.") w
    | some entry =>
      match rollbackRefusal (call.exchange 0) entry w with
      | some fault => .error fault w
      | none =>
        match applyRollback (call.exchange 1) entry w with
        | .error fault w => .error fault (markRollbackError entryId fault.message w)
        | .ok _ w =>
          let w := markRolledBack call entryId entry w
          .ok w.audit.lastId w

end PiHole
end WormholeObservatory
