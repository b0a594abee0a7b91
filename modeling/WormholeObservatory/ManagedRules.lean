import WormholeObservatory.PiHoleService

/-! Regex rules and subscribed lists: `pihole_rules` behind the `ManagedRuleApplicationService`,
and the update of a list in `pihole_service`. All are the same three mutations at their own
resource, each with its audit entry. -/
namespace WormholeObservatory
namespace PiHole

open Queue (ListType)

/-! The mutations. -/

/-- The request that adds a rule, and the entry that says so. -/
def addRule (call : Call) (resource : Resource) (comment : String) (groups : List ℤ)
    (enabled : Bool) : Service Unit :=
  mutate call (call.exchange 0) (.add resource ⟨comment,enabled,groups⟩) .add resource none
    (some ⟨resource.key,resource.resourceType,comment,enabled,some groups⟩)

def updateRule (call : Call) (resource : Resource) (comment : String) (groups : List ℤ)
    (enabled : Bool) : Service Unit := fun w =>
  mutate call (call.exchange 1) (.update resource ⟨comment,enabled,groups⟩) .update resource
    (capturePiholeSnapshot (call.exchange 0) resource w.pihole)
    (some ⟨resource.key,resource.resourceType,comment,enabled,some groups⟩) w

def deleteRule (call : Call) (resource : Resource) : Service Unit := fun w =>
  mutate call (call.exchange 1) (.delete resource) .delete resource
    (capturePiholeSnapshot (call.exchange 0) resource w.pihole) none w

/-- `_normalize_groups` of an argument that may be left out. -/
def givenGroups (groups : Option (List ℤ)) : List ℤ := normalizeGroups (groups.getD [])

/-- `_add_regex_domain_impl`. -/
def addRegexDomain (call : Call) (domain : String) (domainType : ListType) (comment : String)
    (groups : Option (List ℤ)) (enabled : Bool) : Service Unit :=
  addRule call (.regexDomain domainType (strip domain)) comment (givenGroups groups) enabled

/-- `_update_regex_domain_impl`. -/
def updateRegexDomain (call : Call) (domain : String) (domainType : ListType) (comment : String)
    (groups : Option (List ℤ)) (enabled : Bool) : Service Unit :=
  updateRule call (.regexDomain domainType domain) comment (givenGroups groups) enabled

/-- `_delete_regex_domain_impl`. -/
def deleteRegexDomain (call : Call) (domain : String) (domainType : ListType) : Service Unit :=
  deleteRule call (.regexDomain domainType domain)

/-- `_add_subscribed_list_impl`. -/
def addSubscribedList (call : Call) (address : String) (listType : SubscriptionType)
    (comment : String) (groups : Option (List ℤ)) (enabled : Bool) : Service Unit :=
  addRule call (.subscribedList listType (strip address)) comment (givenGroups groups) enabled

/-- `_update_subscribed_list_impl`. -/
def updateSubscribedList (call : Call) (address : String) (listType : SubscriptionType)
    (comment : String) (groups : Option (List ℤ)) (enabled : Bool) : Service Unit :=
  updateRule call (.subscribedList listType address) comment (givenGroups groups) enabled

/-- `_delete_subscribed_list_impl`. -/
def deleteSubscribedList (call : Call) (address : String) (listType : SubscriptionType) :
    Service Unit :=
  deleteRule call (.subscribedList listType address)

def parseSubscriptionType (listType : String) : Option SubscriptionType :=
  if listType = "allow" then some .allow else if listType = "block" then some .block else none

/-- `update_subscribed_list_groups`. -/
def updateSubscribedListGroups (call : Call) (address listType : String) (groups : List ℤ)
    (comment : String) (enabled : Bool) : Service Unit :=
  match parseSubscriptionType listType with
  | none => refuse (.valueError "list_type must be 'allow' or 'block'")
  | some t => updateRule call (.subscribedList t address) comment (normalizeGroups groups) enabled

/-! The application service. -/

structure ManagedRuleMutationCommand where
  operation : String
  kind : String
  value : String
  ruleType : String
  comment : String := ""
  groups : Option (List ℤ) := none
  enabled : Bool := true

inductive RuleOperation
  | add
  | update
  | delete
  deriving DecidableEq

/-- `VALID_MANAGED_RULE_OPERATIONS`. -/
def parseRuleOperation (operation : String) : Option RuleOperation :=
  if operation = "add" then some .add
  else if operation = "update" then some .update
  else if operation = "delete" then some .delete
  else none

/-- A kind of rule together with one of its `_VALID_RULE_TYPES`. -/
inductive RuleKind
  | regexDomain (domainType : ListType)
  | subscribedList (listType : SubscriptionType)

/-- What `str(raw).strip().lower()` leaves. -/
def folded [CaseTables] (value : String) : String := CaseTables.lower (strip value)

/-- `_validate_kind` and `_validate_rule_type`. `InvalidManagedRule` is a `ValueError`. -/
def validateRule [CaseTables] (kind ruleType : String) : Except Fault RuleKind :=
  if folded kind = "regex_domain" then
    match Queue.parseListType (folded ruleType) with
    | some t => .ok (.regexDomain t)
    | none => .error (.valueError "rule_type for regex_domain must be allow or deny")
  else if folded kind = "subscribed_list" then
    match parseSubscriptionType (folded ruleType) with
    | some t => .ok (.subscribedList t)
    | none => .error (.valueError "rule_type for subscribed_list must be allow or block")
  else .error (.valueError "kind must be regex_domain or subscribed_list")

/-- `_mutate_regex`. -/
def mutateRegex (call : Call) (command : ManagedRuleMutationCommand) (value : String)
    (ruleType : ListType) : RuleOperation → Service Unit
  | .add => addRegexDomain call value ruleType command.comment command.groups command.enabled
  | .update => updateRegexDomain call value ruleType command.comment command.groups command.enabled
  | .delete => deleteRegexDomain call value ruleType

/-- `_mutate_subscription`. -/
def mutateSubscription (call : Call) (command : ManagedRuleMutationCommand) (value : String)
    (ruleType : SubscriptionType) : RuleOperation → Service Unit
  | .add => addSubscribedList call value ruleType command.comment command.groups command.enabled
  | .update => updateSubscribedList call value ruleType command.comment command.groups command.enabled
  | .delete => deleteSubscribedList call value ruleType

def RuleKind.label : RuleKind → String
  | .regexDomain _ => "regex domain"
  | .subscribedList _ => "list address"

/-- `ManagedRuleApplicationService.execute`. `ManagedRuleConflict` is a `RuntimeError` with the
text of the one it stands for. -/
def executeManagedRule [CaseTables] (call : Call) (command : ManagedRuleMutationCommand) :
    Service Unit :=
  match parseRuleOperation (folded command.operation) with
  | none => refuse (.valueError "operation must be add, update, or delete")
  | some operation =>
    match validateRule command.kind command.ruleType with
    | .error fault => refuse fault
    | .ok kind =>
      let value := if operation = .add then strip command.value else command.value
      if operation = .add ∧ value = "" then
        refuse (.valueError (kind.label++" must not be empty"))
      else
        match kind with
        | .regexDomain t => mutateRegex call command value t operation
        | .subscribedList t => mutateSubscription call command value t operation

end PiHole
end WormholeObservatory
