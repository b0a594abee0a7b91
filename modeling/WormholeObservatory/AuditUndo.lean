import WormholeObservatory.ManagedRules
import WormholeObservatory.RollbackGuard

/-! Undoing a series of audited operations. Each is one mutation with its entry, and the
rollback of the entry takes the mutation back as long as it says all there was before. -/
namespace WormholeObservatory
namespace PiHole

open Queue (ListType)
open Transition (Run)

/-- One change of a rule, with what its entry records of it. -/
inductive Mutation
  | add (resource : Resource) (comment : String) (enabled : Bool) (groups : List ℤ)
      (recorded : Option (List ℤ))
  | update (resource : Resource) (comment : String) (enabled : Bool) (groups : List ℤ)
  | delete (resource : Resource)
  deriving DecidableEq

def Mutation.resource : Mutation → Resource
  | .add resource _ _ _ _ => resource
  | .update resource _ _ _ => resource
  | .delete resource => resource

def Mutation.operation : Mutation → Operation
  | .add .. => .add
  | .update .. => .update
  | .delete _ => .delete

def Mutation.request : Mutation → Request
  | .add resource comment enabled groups _ => .add resource ⟨comment,enabled,groups⟩
  | .update resource comment enabled groups => .update resource ⟨comment,enabled,groups⟩
  | .delete resource => .delete resource

/-- The exchange of the request; the one before it reads the rule. -/
def Mutation.sent (call : Call) : Mutation → Exchange
  | .add .. => call.exchange 0
  | _ => call.exchange 1

def Mutation.before (call : Call) (rules : Rules) : Mutation → Option Snapshot
  | .add .. => none
  | m => capturePiholeSnapshot (call.exchange 0) m.resource rules

def Mutation.after : Mutation → Option Snapshot
  | .add resource comment enabled _ recorded =>
    some ⟨resource.key,resource.resourceType,comment,enabled,recorded⟩
  | .update resource comment enabled groups =>
    some ⟨resource.key,resource.resourceType,comment,enabled,some groups⟩
  | .delete _ => none

def Mutation.exec (call : Call) (m : Mutation) : Service Unit := fun w =>
  mutate call (m.sent call) m.request m.operation m.resource (m.before call w.pihole) m.after w

/-- The groups are normalised, and recorded unless none were given. -/
def Mutation.Plain : Mutation → Prop
  | .add _ _ _ groups recorded => groups = [] ∧ recorded = none ∨
      recorded = some groups ∧ normalizeGroups groups = groups
  | .update _ _ _ groups => normalizeGroups groups = groups
  | .delete _ => True

/-- The audited operations. -/
inductive RuleOp
  | addExactDomain (domain policy comment : String) (compatibilityOverride : Bool)
  | deleteExactDomain (domain domainType : String)
  | updateExactDomainGroups (domain domainType : String) (groups : List ℤ) (comment : String)
      (enabled : Bool)
  | updateSubscribedListGroups (address listType : String) (groups : List ℤ) (comment : String)
      (enabled : Bool)
  | managedRule (command : ManagedRuleMutationCommand)

section Operations

variable [CaseTables]

def RuleOp.exec (call : Call) : RuleOp → Service Unit
  | .addExactDomain domain policy comment compatibilityOverride =>
    PiHole.addExactDomain call domain policy comment compatibilityOverride
  | .deleteExactDomain domain domainType => PiHole.deleteExactDomain call domain domainType
  | .updateExactDomainGroups domain domainType groups comment enabled =>
    PiHole.updateExactDomainGroups call domain domainType groups comment enabled
  | .updateSubscribedListGroups address listType groups comment enabled =>
    PiHole.updateSubscribedListGroups call address listType groups comment enabled
  | .managedRule command => executeManagedRule call command

/-- The mutation of a managed rule. -/
def RuleKind.mutation (command : ManagedRuleMutationCommand) (operation : RuleOperation)
    (kind : RuleKind) : Mutation :=
  let value := if operation = .add then strip (strip command.value) else command.value
  let resource : Resource :=
    match kind with
    | .regexDomain t => .regexDomain t value
    | .subscribedList t => .subscribedList t value
  match operation with
  | .add => .add resource command.comment command.enabled (givenGroups command.groups)
      (some (givenGroups command.groups))
  | .update => .update resource command.comment command.enabled (givenGroups command.groups)
  | .delete => .delete resource

/-- What an operation does, if its arguments are valid. -/
def RuleOp.mutation : RuleOp → Option Mutation
  | .addExactDomain domain policy comment _ => (Queue.parseListType policy).map fun t =>
      .add (.exactDomain t domain) comment true [] none
  | .deleteExactDomain domain domainType => (Queue.parseListType domainType).map fun t =>
      .delete (.exactDomain t domain)
  | .updateExactDomainGroups domain domainType groups comment enabled =>
    (Queue.parseListType domainType).map fun t =>
      .update (.exactDomain t domain) comment enabled (normalizeGroups groups)
  | .updateSubscribedListGroups address listType groups comment enabled =>
    (parseSubscriptionType listType).map fun t =>
      .update (.subscribedList t address) comment enabled (normalizeGroups groups)
  | .managedRule command =>
    match parseRuleOperation (folded command.operation),validateRule command.kind command.ruleType with
    | some operation,.ok kind => some (kind.mutation command operation)
    | _,_ => none

omit [CaseTables] in
theorem normalizeGroups_normalizeGroups (groups : List ℤ) :
    normalizeGroups (normalizeGroups groups) = normalizeGroups groups := by
  have hnodup : (normalizeGroups groups).Nodup :=
    (List.perm_insertionSort _ _).nodup_iff.mpr (List.nodup_dedup groups)
  have hsorted : (normalizeGroups groups).Pairwise (· ≤ ·) := List.pairwise_insertionSort _ _
  rw [normalizeGroups,List.dedup_eq_self.mpr hnodup]
  exact hsorted.insertionSort_eq

omit [CaseTables] in
theorem typeName_of_parseListType {policy : String} {t : ListType}
    (h : Queue.parseListType policy = some t) : policy = typeName t := by
  simp only [Queue.parseListType] at h
  split_ifs at h with hallow hdeny
  · obtain rfl := Option.some.inj h
    exact hallow
  · obtain rfl := Option.some.inj h
    exact hdeny

/-- An operation that gets to its end is its mutation. -/
theorem exec_ok {call : Call} {op : RuleOp} {w w' : World} {a : Unit}
    (h : op.exec call w = .ok a w') :
    ∃ m, op.mutation = some m ∧ m.Plain ∧ m.exec call w = .ok () w' := by
  cases op with
  | addExactDomain domain policy comment compatibilityOverride =>
    simp only [RuleOp.exec,addExactDomain] at h
    cases htype : Queue.parseListType policy with
    | none =>
      rw [htype] at h
      cases h
    | some t =>
      obtain rfl := typeName_of_parseListType htype
      rw [htype] at h
      refine ⟨.add (.exactDomain t domain) comment true [] none,by simp [RuleOp.mutation],
        .inl ⟨rfl,rfl⟩,?_⟩
      dsimp only at h
      split at h
      · cases h
      · split at h
        · cases h
        · exact h
  | deleteExactDomain domain domainType =>
    simp only [RuleOp.exec,deleteExactDomain] at h
    cases htype : Queue.parseListType domainType with
    | none =>
      rw [htype] at h
      cases h
    | some t =>
      rw [htype] at h
      refine ⟨.delete (.exactDomain t domain),by simp [RuleOp.mutation,htype],trivial,?_⟩
      dsimp only at h
      split at h
      · split at h
        · cases h
        · exact h
      · exact h
  | updateExactDomainGroups domain domainType groups comment enabled =>
    simp only [RuleOp.exec,updateExactDomainGroups] at h
    cases htype : Queue.parseListType domainType with
    | none =>
      rw [htype] at h
      cases h
    | some t =>
      obtain rfl := typeName_of_parseListType htype
      rw [htype] at h
      exact ⟨.update (.exactDomain t domain) comment enabled (normalizeGroups groups),
        by simp [RuleOp.mutation],normalizeGroups_normalizeGroups groups,h⟩
  | updateSubscribedListGroups address listType groups comment enabled =>
    simp only [RuleOp.exec,updateSubscribedListGroups] at h
    cases htype : parseSubscriptionType listType with
    | none =>
      rw [htype] at h
      cases h
    | some t =>
      rw [htype] at h
      exact ⟨.update (.subscribedList t address) comment enabled (normalizeGroups groups),
        by simp [RuleOp.mutation,htype],normalizeGroups_normalizeGroups groups,h⟩
  | managedRule command =>
    simp only [RuleOp.exec,executeManagedRule] at h
    cases hoperation : parseRuleOperation (folded command.operation) with
    | none =>
      rw [hoperation] at h
      cases h
    | some operation =>
      cases hkind : validateRule command.kind command.ruleType with
      | error fault =>
        rw [hoperation,hkind] at h
        cases h
      | ok kind =>
        rw [hoperation,hkind] at h
        refine ⟨kind.mutation command operation,by simp [RuleOp.mutation,hoperation,hkind],?_⟩
        dsimp only at h
        by_cases hempty : operation = .add ∧
            (if operation = .add then strip command.value else command.value) = ""
        · rw [if_pos hempty] at h
          cases h
        · rw [if_neg hempty] at h
          have hgroups := normalizeGroups_normalizeGroups (command.groups.getD [])
          cases operation with
          | add =>
            simp only [if_true] at h
            cases kind with
            | regexDomain t => exact ⟨.inr ⟨rfl,hgroups⟩,h⟩
            | subscribedList t => exact ⟨.inr ⟨rfl,hgroups⟩,h⟩
          | update =>
            simp only [reduceCtorEq,if_false] at h
            cases kind with
            | regexDomain t => exact ⟨hgroups,h⟩
            | subscribedList t => exact ⟨hgroups,h⟩
          | delete =>
            simp only [reduceCtorEq,if_false] at h
            cases kind with
            | regexDomain t => exact ⟨trivial,h⟩
            | subscribedList t => exact ⟨trivial,h⟩

end Operations

/-! The rules. -/

/-- The groups of a rule are a set. -/
def Rule.settled (rule : Rule) : Rule := { rule with groups := normalizeGroups rule.groups }

/-- The same rules under the same keys. -/
def SameRules (rules rules' : Rules) : Prop :=
  ∀ resource, (rules.lookup resource).map Rule.settled = (rules'.lookup resource).map Rule.settled

/-- What an entry can take back: a rule that was not there before, or one whose state it could
read and write back. A rule in no group cannot be written. -/
def Mutation.Heeds (call : Call) (rules : Rules) : Mutation → Prop
  | .add resource _ _ groups recorded => resource.key ≠ "" ∧ rules.lookup resource = none ∧
      (recorded = none ∨ groups ≠ [])
  | .update resource _ _ groups => resource.key ≠ "" ∧ (call.exchange 0).delivery = .answered ∧
      groups ≠ [] ∧ ∀ rule, rules.lookup resource = some rule → rule.groups ≠ []
  | .delete resource => resource.key ≠ "" ∧ (call.exchange 0).delivery = .answered ∧
      ∀ rule, rules.lookup resource = some rule → rule.groups ≠ []

/-- The entry of a mutation. -/
def Mutation.entry (call : Call) (w : World) (m : Mutation) : AuditEntry where
  instanceId := (instanceContext w.baseUrl w.registry).1
  instanceName := (instanceContext w.baseUrl w.registry).2.1
  instanceUrl := (instanceContext w.baseUrl w.registry).2.2
  operation := m.operation
  resource := m.resource
  before := (m.before call w.pihole).map (normalizeSnapshot m.resource)
  after := m.after.map (normalizeSnapshot m.resource)
  reversible := isReversible m.operation ((m.before call w.pihole).map (normalizeSnapshot m.resource))
  relatedEntryId := none
  rolledBackAt := none
  rollbackError := ""
  createdAt := call.now

theorem mutation_ok {call : Call} {m : Mutation} {w w' : World} (hopen : call.auditFault = none)
    (h : m.exec call w = .ok () w') : ∃ rules, m.request.apply w.pihole = some rules ∧
      w' = { w with pihole := rules, audit := w.audit.append (m.entry call w) } := by
  simp only [Mutation.exec,mutate,send] at h
  split at h
  · cases h
  · rename_i hsend
    split at hsend
    · rename_i rules _ hrules
      cases hsend
      refine ⟨rules,hrules,?_⟩
      simp only [recordPiholeChange,hopen] at h
      exact (EStateM.Result.ok.inj h).2.symm
    · cases hsend
    · cases hsend

theorem normalizeSnapshot_snapshot (resource : Resource) (rule : Rule) :
    normalizeSnapshot resource (rule.snapshot resource) = rule.snapshot resource := by
  have hself : ∀ text : String, orElse text text = text := fun text => ite_self text
  simp only [normalizeSnapshot,Rule.snapshot,hself,Option.map_some,normalizeGroups_normalizeGroups]

theorem snapshot_of_settled {resource : Resource} {rule rule' : Rule}
    (h : rule.settled = rule'.settled) : rule.snapshot resource = rule'.snapshot resource := by
  simp only [Rule.settled,Rule.mk.injEq] at h
  obtain ⟨hcomment,henabled,hgroups⟩ := h
  simp only [Rule.snapshot,hcomment,henabled,hgroups]

/-- Writing a rule that is in some group back makes it what it was. -/
theorem settled_written {rule : Rule} (hgroups : rule.groups ≠ []) :
    Rule.settled ⟨rule.comment,rule.enabled,
      storedGroups (normalizeGroups (normalizeGroups rule.groups))⟩ = rule.settled := by
  have hne : normalizeGroups rule.groups ≠ [] := fun h => hgroups (normalizeGroups_eq_nil.mp h)
  simp only [Rule.settled,normalizeGroups_normalizeGroups,storedGroups,if_neg hne]

theorem SameRules.lookup_none {rules rules' : Rules} (h : SameRules rules rules')
    {resource : Resource} (hnone : rules'.lookup resource = none) : rules.lookup resource = none := by
  have hsame := h resource
  rw [hnone,Option.map_none,Option.map_eq_none_iff] at hsame
  exact hsame

theorem SameRules.lookup_some {rules rules' : Rules} (h : SameRules rules rules')
    {resource : Resource} {rule : Rule} (hsome : rules'.lookup resource = some rule) :
    ∃ rule', rules.lookup resource = some rule' ∧ rule'.settled = rule.settled := by
  have hsame := h resource
  rw [hsome,Option.map_some,Option.map_eq_some_iff] at hsame
  exact hsame

/-- Tables that agree elsewhere agree after the same key is set to what it was. -/
theorem SameRules.restore {rules rules' rules₀ : Rules} (resource : Resource)
    (hothers : ∀ other, other ≠ resource →
      (rules.lookup other).map Rule.settled = (rules₀.lookup other).map Rule.settled)
    (hsame : ∀ other, other ≠ resource → rules'.lookup other = rules.lookup other)
    (hkey : (rules'.lookup resource).map Rule.settled = (rules₀.lookup resource).map Rule.settled) :
    SameRules rules' rules₀ := by
  intro other
  by_cases hother : other = resource
  · subst hother
    exact hkey
  · rw [hsame other hother]
    exact hothers other hother

/-- A mutation its entry can take back: the rollback finds the rule as the entry left it, and
its request restores the rules. -/
structure Mutation.Undone (call : Call) (s : World) (m : Mutation) (rules : Rules) : Prop where
  found : snapshotMatches (capturePiholeSnapshot ⟨.answered,""⟩ m.resource rules)
    (m.entry call s).expected = true
  restored : ∃ request rules', undoRequest (m.entry call s) = some request ∧
    request.apply rules = some rules' ∧ SameRules rules' s.pihole

theorem found_of_written {resource : Resource} {rules : Rules} {rule : Rule}
    {comment : String} {enabled : Bool} {groups : List ℤ} {recorded : Option (List ℤ)}
    (hkey : resource.key ≠ "") (hrule : rules.lookup resource = some rule)
    (hsettled : rule.settled = Rule.settled ⟨comment,enabled,storedGroups groups⟩)
    (hrecorded : recorded = none ∨ recorded = some groups ∧ groups ≠ [] ∧
      normalizeGroups groups = groups) :
    snapshotMatches (capturePiholeSnapshot ⟨.answered,""⟩ resource rules)
      (some (normalizeSnapshot resource ⟨resource.key,resource.resourceType,comment,enabled,recorded⟩)) =
      true := by
  rw [capturePiholeSnapshot_seen rfl hkey,hrule,Option.map_some,snapshot_of_settled hsettled]
  simp only [snapshotMatches,normalizeSnapshot,Rule.snapshot,orElse,hkey,if_false,
    resourceType_ne resource,decide_true,Bool.and_true,Bool.true_and,Bool.or_eq_true,
    decide_eq_true_iff]
  rcases hrecorded with rfl | ⟨rfl,hne,hnormal⟩
  · exact .inl rfl
  · rw [storedGroups,if_neg hne,Option.map_some]
    exact .inr rfl

theorem add_undone {call : Call} {s : World} {resource : Resource} {comment : String}
    {enabled : Bool} {groups : List ℤ} {recorded : Option (List ℤ)} {rules rules' : Rules}
    (hplain : (Mutation.add resource comment enabled groups recorded).Plain)
    (hheeds : (Mutation.add resource comment enabled groups recorded).Heeds call s.pihole)
    (happly : (Request.add resource ⟨comment,enabled,groups⟩).apply s.pihole = some rules)
    (hsame : SameRules rules' rules) :
    (Mutation.add resource comment enabled groups recorded).Undone call s rules' := by
  obtain ⟨hkey,habsent,hgroups⟩ := hheeds
  simp only [Request.apply,habsent,Option.some.injEq] at happly
  subst happly
  obtain ⟨rule,hrule,hsettled⟩ := hsame.lookup_some (AList.lookup_insert s.pihole)
  refine ⟨?_,.delete resource,rules'.erase resource,rfl,?_,?_⟩
  · refine found_of_written hkey hrule hsettled ?_
    rcases hplain with ⟨-,hnone⟩ | ⟨hsome,hnormal⟩
    · exact .inl hnone
    · refine hgroups.imp id fun hne => ⟨hsome,hne,hnormal⟩
  · simp only [Request.apply,hrule]
  · refine SameRules.restore resource (fun other hother => ?_)
      (fun other hother => AList.lookup_erase_ne hother) ?_
    · rw [hsame other,AList.lookup_insert_ne hother]
    · rw [AList.lookup_erase,habsent]

theorem update_undone {call : Call} {s : World} {resource : Resource} {comment : String}
    {enabled : Bool} {groups : List ℤ} {rules rules' : Rules}
    (hplain : (Mutation.update resource comment enabled groups).Plain)
    (hheeds : (Mutation.update resource comment enabled groups).Heeds call s.pihole)
    (happly : (Request.update resource ⟨comment,enabled,groups⟩).apply s.pihole = some rules)
    (hsame : SameRules rules' rules) :
    (Mutation.update resource comment enabled groups).Undone call s rules' := by
  obtain ⟨hkey,hanswered,hne,hgrouped⟩ := hheeds
  cases hold : s.pihole.lookup resource with
  | none =>
    simp only [Request.apply,hold] at happly
    cases happly
  | some old =>
    simp only [Request.apply,hold,Option.some.injEq] at happly
    subst happly
    obtain ⟨rule,hrule,hsettled⟩ := hsame.lookup_some (AList.lookup_insert s.pihole)
    have hbefore : (Mutation.entry call s (.update resource comment enabled groups)).before =
        some (old.snapshot resource) := by
      simp only [Mutation.entry,Mutation.before,Mutation.resource,
        capturePiholeSnapshot_seen hanswered hkey,hold,Option.map_some,normalizeSnapshot_snapshot]
    have hrequest : undoRequest (Mutation.entry call s (.update resource comment enabled groups)) =
        some (.update resource ⟨old.comment,old.enabled,
          normalizeGroups (normalizeGroups old.groups)⟩) := by
      simp only [undoRequest,hbefore]
      rfl
    have hwritten : ∀ written : Rule, (Request.update resource written).apply rules' =
        some (rules'.insert resource { written with groups := storedGroups written.groups }) := by
      intro written
      simp only [Request.apply,hrule]
    refine ⟨found_of_written hkey hrule hsettled (.inr ⟨rfl,hne,hplain⟩),_,_,hrequest,
      hwritten _,?_⟩
    refine SameRules.restore resource (fun other hother => ?_)
      (fun other hother => AList.lookup_insert_ne hother) ?_
    · rw [hsame other,AList.lookup_insert_ne hother]
    · rw [AList.lookup_insert,hold,Option.map_some,Option.map_some,settled_written (hgrouped old hold)]

theorem delete_undone {call : Call} {s : World} {resource : Resource} {rules rules' : Rules}
    (hheeds : (Mutation.delete resource).Heeds call s.pihole)
    (happly : (Request.delete resource).apply s.pihole = some rules) (hsame : SameRules rules' rules) :
    (Mutation.delete resource).Undone call s rules' := by
  obtain ⟨hkey,hanswered,hgrouped⟩ := hheeds
  cases hold : s.pihole.lookup resource with
  | none =>
    simp only [Request.apply,hold] at happly
    cases happly
  | some old =>
    simp only [Request.apply,hold,Option.some.injEq] at happly
    subst happly
    have habsent := hsame.lookup_none (AList.lookup_erase resource s.pihole)
    have hbefore : (Mutation.entry call s (.delete resource)).before =
        some (old.snapshot resource) := by
      simp only [Mutation.entry,Mutation.before,Mutation.resource,
        capturePiholeSnapshot_seen hanswered hkey,hold,Option.map_some,normalizeSnapshot_snapshot]
    have hrequest : undoRequest (Mutation.entry call s (.delete resource)) =
        some (.add resource ⟨old.comment,old.enabled,
          normalizeGroups (normalizeGroups old.groups)⟩) := by
      simp only [undoRequest,hbefore]
      rfl
    have hwritten : ∀ written : Rule, (Request.add resource written).apply rules' =
        some (rules'.insert resource { written with groups := storedGroups written.groups }) := by
      intro written
      simp only [Request.apply,habsent]
    refine ⟨?_,_,_,hrequest,hwritten _,?_⟩
    · change snapshotMatches (capturePiholeSnapshot ⟨.answered,""⟩ resource rules') none = true
      rw [capturePiholeSnapshot_seen rfl hkey,habsent]
      rfl
    · refine SameRules.restore resource (fun other hother => ?_)
        (fun other hother => AList.lookup_insert_ne hother) ?_
      · rw [hsame other,AList.lookup_erase_ne hother]
      · rw [AList.lookup_insert,hold,Option.map_some,Option.map_some,
          settled_written (hgrouped old hold)]

theorem mutation_undone {call : Call} {s : World} {m : Mutation} {rules rules' : Rules}
    (hplain : m.Plain) (hheeds : m.Heeds call s.pihole)
    (happly : m.request.apply s.pihole = some rules) (hsame : SameRules rules' rules) :
    m.Undone call s rules' := by
  cases m with
  | add resource comment enabled groups recorded => exact add_undone hplain hheeds happly hsame
  | update resource comment enabled groups => exact update_undone hplain hheeds happly hsame
  | delete resource => exact delete_undone hheeds happly hsame

/-! The rollbacks. -/

/-- What is left of an earlier world `s`: the rules and the entries up to its last. -/
structure Like (s w : World) : Prop where
  rules : SameRules w.pihole s.pihole
  baseUrl : w.baseUrl = s.baseUrl
  registry : w.registry = s.registry
  entries : ∀ id ≤ s.audit.lastId, w.audit.entries.lookup id = s.audit.entries.lookup id
  lastId : s.audit.lastId ≤ w.audit.lastId

theorem Like.refl (w : World) : Like w w := ⟨fun _ => rfl,rfl,rfl,fun _ _ => rfl,le_refl _⟩

/-- The audit log and the Pi-hole are in reach. -/
structure Reachable (call : Call) : Prop where
  opened : call.auditFault = none
  fetched : (call.exchange 0).delivery = .answered
  answered : (call.exchange 1).delivery = .answered

theorem entry_admitted {call : Call} {s w : World} {m : Mutation} (hbaseUrl : w.baseUrl = s.baseUrl)
    (hregistry : w.registry = s.registry)
    (hbefore : m.operation ≠ .add → (m.before call s.pihole).isSome = true) :
    (m.entry call s).Admitted w := by
  refine ⟨?_,?_,rfl,?_,?_⟩
  · cases m with
    | add => rfl
    | update resource comment enabled groups =>
      simp only [Mutation.entry,isReversible,Mutation.operation,Option.isSome_map]
      exact hbefore (by simp [Mutation.operation])
    | delete resource =>
      simp only [Mutation.entry,isReversible,Mutation.operation,Option.isSome_map]
      exact hbefore (by simp [Mutation.operation])
  · cases m <;> simp [Mutation.entry,Mutation.operation]
  · rw [hbaseUrl,hregistry]
    exact fun h => h.2.2 rfl
  · rw [hbaseUrl,hregistry]
    rfl

/-- The state before a change that its entry can take back was read. -/
theorem before_isSome {call : Call} {m : Mutation} {rules rules' : Rules}
    (hheeds : m.Heeds call rules) (happly : m.request.apply rules = some rules')
    (hadd : m.operation ≠ .add) : (m.before call rules).isSome = true := by
  cases m with
  | add => exact absurd rfl hadd
  | update resource comment enabled groups =>
    obtain ⟨hkey,hanswered,-⟩ := hheeds
    simp only [Mutation.request,Request.apply] at happly
    simp only [Mutation.before,Mutation.resource,capturePiholeSnapshot_seen hanswered hkey,
      Option.isSome_map]
    split at happly
    · cases happly
    · rename_i hrule
      rw [hrule]
      rfl
  | delete resource =>
    obtain ⟨hkey,hanswered,-⟩ := hheeds
    simp only [Mutation.request,Request.apply] at happly
    simp only [Mutation.before,Mutation.resource,capturePiholeSnapshot_seen hanswered hkey,
      Option.isSome_map]
    split at happly
    · cases happly
    · rename_i hrule
      rw [hrule]
      rfl

/-- Rolling back the entry of a change leads back to what there was before it. -/
theorem rollback_undoes {call call' : Call} {m : Mutation} {s s' w : World}
    (hopen : call.auditFault = none) (hplain : m.Plain) (hheeds : m.Heeds call s.pihole)
    (h : m.exec call s = .ok () s') (hlike : Like s' w) (hreach : Reachable call') :
    s'.audit.lastId = s.audit.lastId+1 ∧ ∃ id w',
      rollbackPiholeAudit call' s'.audit.lastId w = .ok id w' ∧ Like s w' := by
  obtain ⟨rules,happly,rfl⟩ := mutation_ok hopen h
  obtain ⟨hrules,hbaseUrl,hregistry,hentries,hlastId⟩ := hlike
  change s.audit.lastId+1 ≤ w.audit.lastId at hlastId
  obtain ⟨hfound,request,rules',hrequest,hrestore,hrestored⟩ :=
    mutation_undone hplain hheeds happly hrules
  have hentry : w.audit.entries.lookup (s.audit.lastId+1) = some (m.entry call s) :=
    (hentries _ (le_refl _)).trans (AList.lookup_insert _)
  have hpass : rollbackRefusal (call'.exchange 0) (m.entry call s) w = none := by
    refine rollbackRefusal_eq_none.mpr ⟨entry_admitted hbaseUrl hregistry
      fun hadd => before_isSome hheeds happly hadd,?_⟩
    have hcapture : capturePiholeSnapshot (call'.exchange 0) m.resource w.pihole =
        capturePiholeSnapshot ⟨.answered,""⟩ m.resource w.pihole := by
      simp only [capturePiholeSnapshot,fetchRow,hreach.fetched,if_true]
    exact hcapture ▸ hfound
  have happlied : applyRollback (call'.exchange 1) (m.entry call s) w =
      .ok () { w with pihole := rules' } := by
    simp only [applyRollback,hrequest,send,hreach.answered,hrestore]
  refine ⟨rfl,?_⟩
  change ∃ id w', rollbackPiholeAudit call' (s.audit.lastId+1) w = .ok id w' ∧ Like s w'
  simp only [rollbackPiholeAudit,hreach.opened,hentry,hpass,happlied]
  refine ⟨_,_,rfl,hrestored,hbaseUrl,hregistry,fun id hid => ?_,?_⟩
  · simp only [markRolledBack,AuditLog.append,AuditLog.update]
    rw [AList.lookup_insert_ne (by omega),Table.lookup_update_ne (by omega),hentries id (by
      change id ≤ s.audit.lastId+1
      omega)]
    exact AList.lookup_insert_ne (by omega)
  · change s.audit.lastId ≤ w.audit.lastId+1
    omega

/-- Rolls back the entries from `id` downwards, one for each call. -/
def rollbackNewest (id : ℤ) : List Call → Service Unit
  | [] => fun w => .ok () w
  | call::calls => fun w =>
    match rollbackPiholeAudit call id w with
    | .error fault w => .error fault w
    | .ok _ w => rollbackNewest (id-1) calls w

section Undo

variable [CaseTables]

/-- An operation that gets to its end and is recorded. -/
def Succeeds (w : World) (l : Call × RuleOp) (w' : World) : Prop :=
  l.1.auditFault = none ∧ l.2.exec l.1 w = .ok () w'

def HeedfulRuleStep (w : World) (l : Call × RuleOp) (w' : World) : Prop :=
  (∀ m, l.2.mutation = some m → m.Heeds l.1 w.pihole) ∧ Succeeds w l w'

theorem rollbackNewest_undoes {steps : List (Call × RuleOp)} {w₀ s w : World}
    (h : Run HeedfulRuleStep w₀ steps s) (hlike : Like s w) {calls : List Call}
    (hlength : calls.length = steps.length) (hreach : ∀ call ∈ calls, Reachable call) :
    s.audit.lastId = w₀.audit.lastId+steps.length ∧
      ∃ w', rollbackNewest s.audit.lastId calls w = .ok () w' ∧ Like w₀ w' := by
  induction steps using List.reverseRecOn generalizing s w calls with
  | nil =>
    cases h
    obtain rfl := List.length_eq_zero_iff.mp hlength
    exact ⟨by simp,w,rfl,hlike⟩
  | append_singleton steps l ih =>
    obtain ⟨s₁,hrun,hlast⟩ := h.split
    cases hlast with
    | cons hstep hnil =>
      cases hnil
      obtain ⟨hheeds,hopen,hexec⟩ := hstep
      obtain ⟨m,hm,hplain,hmutation⟩ := exec_ok hexec
      cases calls with
      | nil => simp at hlength
      | cons call calls =>
        obtain ⟨hid,id,w₁,hrollback,hlike₁⟩ := rollback_undoes hopen hplain (hheeds m hm)
          hmutation hlike (hreach call (by simp))
        obtain ⟨hcount,w',hrest,hlike'⟩ := ih hrun hlike₁ (by simpa using hlength)
          fun call hcall => hreach call (by simp [hcall])
        refine ⟨?_,w',?_,hlike'⟩
        · rw [hid,hcount,List.length_append,List.length_singleton]
          push_cast
          ring
        · simp only [rollbackNewest,hrollback]
          rw [hid,add_sub_cancel_right]
          exact hrest

/-- After operations that each leave an entry that can take them back, there is one entry for
each, and rolling them back newest first succeeds and leaves the rules there were. -/
theorem audit_rollback_undoes {steps : List (Call × RuleOp)} {w₀ w : World}
    (h : Run HeedfulRuleStep w₀ steps w) {calls : List Call}
    (hlength : calls.length = steps.length) (hreach : ∀ call ∈ calls, Reachable call) :
    w.audit.lastId = w₀.audit.lastId+steps.length ∧
      ∃ w', rollbackNewest w.audit.lastId calls w = .ok () w' ∧ SameRules w'.pihole w₀.pihole := by
  obtain ⟨hcount,w',hrollback,hlike⟩ := rollbackNewest_undoes h (Like.refl w) hlength hreach
  exact ⟨hcount,w',hrollback,hlike.rules⟩

end Undo

/-! A rule that is there already, and one that is added without groups. -/

def byHand : World := { untouched with pihole := AList.insert deletedRule ⟨"",true,[0]⟩ ∅ }

def addExisting : RuleOp := .addExactDomain "ads.example" "deny" "" false

def addUngrouped : RuleOp :=
  .managedRule { operation := "add", kind := "regex_domain", value := "^ads", ruleType := "deny" }

def afterOp (op : RuleOp) (w : World) : World := final (op.exec reachable w)

/-- The rollback of an addition deletes a rule that had been there before, and that of a regex
rule without groups is refused. -/
theorem undo_fails :
    raised (addExisting.exec reachable byHand) = false ∧
      raised (rollbackNewest 1 [reachable] (afterOp addExisting byHand)) = false ∧
      ¬SameRules (final (rollbackNewest 1 [reachable] (afterOp addExisting byHand))).pihole
        byHand.pihole ∧
      raised (addUngrouped.exec reachable untouched) = false ∧
      raised (rollbackNewest 1 [reachable] (afterOp addUngrouped untouched)) = true := by
  refine ⟨by decide,by decide,fun h => ?_,by decide,by decide⟩
  have hgone : (final (rollbackNewest 1 [reachable] (afterOp addExisting byHand))).pihole.lookup
      deletedRule = none := by
    decide
  have hthere : byHand.pihole.lookup deletedRule = some ⟨"",true,[0]⟩ := by decide
  have hsame := h deletedRule
  rw [hgone,hthere] at hsame
  cases hsame

def addGrouped : RuleOp :=
  .managedRule {
    operation := "add", kind := "regex_domain", value := "^ads", ruleType := "deny"
    groups := some [2,1] }

def deleteByHand : RuleOp := .deleteExactDomain "ads.example" "deny"

theorem eq_ok_of_raised {result : EStateM.Result Fault World Unit} (h : raised result = false) :
    result = .ok () (final result) := by
  cases result with
  | ok a w => rfl
  | error fault w => cases h

theorem undo_restores : ∃ w', rollbackNewest 2 [reachable,reachable]
    (afterOp deleteByHand (afterOp addGrouped byHand)) = .ok () w' ∧
      SameRules w'.pihole byHand.pihole := by
  have hadd : HeedfulRuleStep byHand (reachable,addGrouped) (afterOp addGrouped byHand) := by
    refine ⟨fun m hm => ?_,rfl,eq_ok_of_raised (by decide)⟩
    have hmutation : addGrouped.mutation =
        some (.add (.regexDomain .deny "^ads") "" true [1,2] (some [1,2])) := by
      decide
    obtain rfl := Option.some.inj (hmutation.symm.trans hm)
    exact ⟨by decide,by decide,.inr (by decide)⟩
  have hdelete : HeedfulRuleStep (afterOp addGrouped byHand) (reachable,deleteByHand)
      (afterOp deleteByHand (afterOp addGrouped byHand)) := by
    refine ⟨fun m hm => ?_,rfl,eq_ok_of_raised (by decide)⟩
    obtain rfl : m = .delete deletedRule := (Option.some.inj hm).symm
    have hrule : (afterOp addGrouped byHand).pihole.lookup deletedRule = some ⟨"",true,[0]⟩ := by
      decide
    refine ⟨by decide,rfl,fun rule h => ?_⟩
    obtain rfl := Option.some.inj (hrule.symm.trans h)
    decide
  have hreach : ∀ call ∈ [reachable,reachable], Reachable call := by
    intro call hcall
    obtain rfl : call = reachable := by simpa using hcall
    exact ⟨rfl,rfl,rfl⟩
  have hlast : (afterOp deleteByHand (afterOp addGrouped byHand)).audit.lastId = 2 := by
    decide
  have hundone := (audit_rollback_undoes (.cons hadd (.single hdelete)) (by rfl) hreach).2
  rwa [hlast] at hundone

end PiHole
end WormholeObservatory
