import WormholeObservatory.LockProtection

/-! When `rollback_pihole_audit` writes to the Pi-hole. It compares the rule it finds with what
the entry says it left; a rule it could not read counts as missing. -/
namespace WormholeObservatory
namespace PiHole

/-- The state an entry leaves, as the rollback expects to find it. -/
def AuditEntry.expected (entry : AuditEntry) : Option Snapshot :=
  if entry.operation = .delete then none else entry.after

/-- The rule is as the snapshot has it, in all fields the snapshot has. -/
structure Snapshot.Shows (snapshot : Snapshot) (resource : Resource) (rule : Rule) : Prop where
  key : snapshot.key = resource.key
  type : snapshot.type = resource.resourceType
  comment : snapshot.comment = rule.comment
  enabled : snapshot.enabled = rule.enabled
  groups : ∀ groups, snapshot.groups = some groups → ∀ g, g ∈ groups ↔ g ∈ rule.groups

/-- The Pi-hole still has what the entry left. -/
structure AuditEntry.Current (entry : AuditEntry) (rules : Rules) : Prop where
  present : ∀ snapshot, entry.expected = some snapshot →
    ∃ rule, rules.lookup entry.resource = some rule ∧ snapshot.Shows entry.resource rule
  absent : entry.expected = none → rules.lookup entry.resource = none

/-- What an entry has to be, apart from the rule itself, for the rollback to go on. -/
structure AuditEntry.Admitted (entry : AuditEntry) (w : World) : Prop where
  reversible : entry.reversible = true
  operation : entry.operation ≠ .rollback
  pending : entry.rolledBackAt.filter (· ≠ 0) = none
  sameId : ¬(entry.instanceId ≠ "" ∧ (instanceContext w.baseUrl w.registry).1 ≠ "" ∧
    entry.instanceId ≠ (instanceContext w.baseUrl w.registry).1)
  sameUrl : rstripSlashes entry.instanceUrl =
    rstripSlashes (instanceContext w.baseUrl w.registry).2.2

theorem rollbackRefusal_eq_none {exchange : Exchange} {entry : AuditEntry} {w : World} :
    rollbackRefusal exchange entry w = none ↔ entry.Admitted w ∧
      snapshotMatches (capturePiholeSnapshot exchange entry.resource w.pihole) entry.expected =
        true := by
  have hexpected : (if entry.operation = .delete then none else entry.after) = entry.expected := rfl
  simp only [rollbackRefusal,hexpected]
  split
  · rename_i h
    refine ⟨fun hnone => absurd hnone (Option.some_ne_none _),fun h' => ?_⟩
    rcases h with h | h
    · exact absurd h'.1.reversible h
    · exact absurd h h'.1.operation
  · rename_i hfirst
    obtain ⟨hreversible,hoperation⟩ := not_or.mp hfirst
    split
    · rename_i h
      exact ⟨fun hnone => absurd hnone (Option.some_ne_none _),fun h' => absurd h'.1.pending h⟩
    · rename_i hpending
      split
      · rename_i h
        exact ⟨fun hnone => absurd hnone (Option.some_ne_none _),fun h' => absurd h h'.1.sameId⟩
      · rename_i hid
        split
        · rename_i h
          exact ⟨fun hnone => absurd hnone (Option.some_ne_none _),fun h' => absurd h'.1.sameUrl h⟩
        · rename_i hurl
          split
          · rename_i hmatches
            exact ⟨fun _ => ⟨⟨not_not.mp hreversible,hoperation,not_not.mp hpending,hid,
              not_not.mp hurl⟩,hmatches⟩,fun _ => rfl⟩
          · rename_i hmatches
            exact ⟨fun hnone => absurd hnone (Option.some_ne_none _),fun h' => absurd h'.2 hmatches⟩

/-- The rule as the rollback sees it. -/
def Rule.snapshot (resource : Resource) (rule : Rule) : Snapshot :=
  ⟨resource.key,resource.resourceType,rule.comment,rule.enabled,some (normalizeGroups rule.groups)⟩

theorem resourceType_ne (resource : Resource) : resource.resourceType ≠ "" := by
  cases resource with
  | exactDomain t d => cases t <;> simp [Resource.resourceType,typeName]
  | regexDomain t p => cases t <;> simp [Resource.resourceType,typeName]
  | subscribedList t a => cases t <;> simp [Resource.resourceType]

theorem capturePiholeSnapshot_seen {exchange : Exchange} {resource : Resource}
    (hanswered : exchange.delivery = .answered) (hkey : resource.key ≠ "") (rules : Rules) :
    capturePiholeSnapshot exchange resource rules =
      (rules.lookup resource).map (Rule.snapshot resource) := by
  simp only [capturePiholeSnapshot,fetchRow,hanswered,if_true,hkey,if_false]
  cases rules.lookup resource with
  | none => rfl
  | some rule => simp [normalizeSnapshot,Rule.snapshot,orElse,hkey]

theorem capturePiholeSnapshot_unseen {exchange : Exchange} {resource : Resource}
    (h : exchange.delivery ≠ .answered ∨ resource.key = "") (rules : Rules) :
    capturePiholeSnapshot exchange resource rules = none := by
  simp only [capturePiholeSnapshot,fetchRow]
  by_cases hanswered : exchange.delivery = .answered
  · simp [hanswered,h.resolve_left (not_not.mpr hanswered)]
  · simp [hanswered]

/-- What the comparison lets through is still there. -/
theorem shows_of_matches {resource : Resource} {rule : Rule} {snapshot : Snapshot}
    (h : snapshotMatches (some (rule.snapshot resource)) (some snapshot) = true) :
    snapshot.Shows resource rule := by
  simp only [snapshotMatches,Bool.and_eq_true,Bool.or_eq_true,decide_eq_true_iff] at h
  obtain ⟨⟨⟨⟨hkey,htype⟩,hcomment⟩,henabled⟩,hgroups⟩ := h
  refine ⟨hkey.symm,htype.symm,hcomment.symm,henabled.symm,fun groups hsome g => ?_⟩
  rcases hgroups with hnone | hsame
  · cases hnone.symm.trans hsome
  · have heq : normalizeGroups rule.groups = groups := Option.some.inj (hsame.trans hsome)
    rw [← heq]
    exact mem_normalizeGroups

/-! One rollback. -/

/-- A call of the rollback: how it reads the rule, and how its request gets through. -/
def rollbackCall (now : ℤ) (auditFault : Option String) (fetch request : Exchange) : Call where
  now
  exchange i := if i = 0 then fetch else request
  auditFault

def Raises {α : Type} (result : EStateM.Result Fault World α) : Prop :=
  ∃ fault w, result = .error fault w

/-- What the rollback owes to a newer change. -/
structure Spares (call : Call) (entryId : ℤ) (entry : AuditEntry) (w : World) : Prop where
  modifies : (final (rollbackPiholeAudit call entryId w)).pihole ≠ w.pihole → entry.Current w.pihole
  raises : ¬entry.Current w.pihole → Raises (rollbackPiholeAudit call entryId w)
  pihole : ¬entry.Current w.pihole → (final (rollbackPiholeAudit call entryId w)).pihole = w.pihole
  pending : ¬entry.Current w.pihole →
    ((final (rollbackPiholeAudit call entryId w)).audit.entries.lookup entryId).map
      AuditEntry.rolledBackAt = some entry.rolledBackAt

/-- The rollback takes a rule it did not get to see for missing, as its entry says it is. -/
structure Blind (auditFault : Option String) (fetch : Exchange) (entry : AuditEntry) (w : World) :
    Prop where
  opened : auditFault = none
  admitted : entry.Admitted w
  expected : entry.expected = none
  present : w.pihole.lookup entry.resource ≠ none
  unseen : fetch.delivery ≠ .answered ∨ entry.resource.key = ""
  undone : undoRequest entry ≠ none

theorem current_of_matches {exchange : Exchange} {entry : AuditEntry} {rules : Rules}
    (hanswered : exchange.delivery = .answered) (hkey : entry.resource.key ≠ "")
    (h : snapshotMatches (capturePiholeSnapshot exchange entry.resource rules) entry.expected =
      true) : entry.Current rules := by
  rw [capturePiholeSnapshot_seen hanswered hkey] at h
  refine ⟨fun snapshot hexpected => ?_,fun hexpected => ?_⟩
  · rw [hexpected] at h
    cases hrule : rules.lookup entry.resource with
    | none =>
      rw [hrule] at h
      cases h
    | some rule =>
      rw [hrule] at h
      exact ⟨rule,rfl,shows_of_matches h⟩
  · rw [hexpected] at h
    cases hrule : rules.lookup entry.resource with
    | none => rfl
    | some rule =>
      rw [hrule] at h
      cases h

/-- A rule that is there can be added again, updated or deleted. -/
theorem undo_applies {entry : AuditEntry} {request : Request} {rules : Rules}
    (hrequest : undoRequest entry = some request) (hpresent : rules.lookup entry.resource ≠ none) :
    ∃ rules', request.apply rules = some rules' := by
  obtain ⟨rule,hrule⟩ := Option.ne_none_iff_exists'.mp hpresent
  have hadd : ∀ rule, (Request.add entry.resource rule).apply rules = some rules := by
    intro rule
    simp only [Request.apply,hrule]
  have hupdate : ∀ rule, ∃ rules', (Request.update entry.resource rule).apply rules =
      some rules' := by
    intro rule
    simp only [Request.apply,hrule]
    exact ⟨_,rfl⟩
  have hdelete : ∃ rules', (Request.delete entry.resource).apply rules = some rules' := by
    simp only [Request.apply,hrule]
    exact ⟨_,rfl⟩
  simp only [undoRequest] at hrequest
  split at hrequest
  · obtain rfl := Option.some.inj hrequest
    exact hdelete
  · cases hrequest
  · obtain rfl := Option.some.inj hrequest
    exact ⟨rules,hadd _⟩
  · obtain rfl := Option.some.inj hrequest
    exact hupdate _

/-- An entry whose undo does not raise is closed. -/
theorem rollback_blind {now : ℤ} {auditFault : Option String} {fetch : Exchange} {entryId : ℤ}
    {entry : AuditEntry} {w : World} (hentry : w.audit.entries.lookup entryId = some entry)
    (h : Blind auditFault fetch entry w) :
    ¬Raises (rollbackPiholeAudit (rollbackCall now auditFault fetch ⟨.answered,""⟩) entryId w) := by
  obtain ⟨rfl,hadmitted,hexpected,hpresent,hunseen,hundone⟩ := h
  have hpass : rollbackRefusal fetch entry w = none := by
    refine rollbackRefusal_eq_none.mpr ⟨hadmitted,?_⟩
    rw [capturePiholeSnapshot_unseen hunseen,hexpected]
    rfl
  obtain ⟨request,hrequest⟩ := Option.ne_none_iff_exists'.mp hundone
  obtain ⟨rules,hrules⟩ := undo_applies hrequest hpresent
  rintro ⟨fault,w',herror⟩
  have hpass' : rollbackRefusal ((rollbackCall now none fetch ⟨.answered,""⟩).exchange 0) entry w =
      none := hpass
  have happly : applyRollback ((rollbackCall now none fetch ⟨.answered,""⟩).exchange 1) entry w =
      .ok () { w with pihole := rules } := by
    simp only [applyRollback,hrequest]
    change send ⟨.answered,""⟩ request w = _
    simp only [send,hrules]
  have hopen : (rollbackCall now none fetch ⟨.answered,""⟩).auditFault = none := rfl
  simp only [rollbackPiholeAudit,hopen,hentry,hpass',happly] at herror
  cases herror

/-- Unless it is blind, a rollback of an entry that is no longer current raises and leaves the
Pi-hole and the entry's time alone. -/
theorem rollback_refuses {call : Call} {entryId : ℤ} {entry : AuditEntry} {w : World}
    (hentry : w.audit.entries.lookup entryId = some entry)
    (hsees : ¬Blind call.auditFault (call.exchange 0) entry w) (hcurrent : ¬entry.Current w.pihole) :
    ∃ fault w', rollbackPiholeAudit call entryId w = .error fault w' ∧ w'.pihole = w.pihole ∧
      (w'.audit.entries.lookup entryId).map AuditEntry.rolledBackAt = some entry.rolledBackAt := by
  have hsame : (w.audit.entries.lookup entryId).map AuditEntry.rolledBackAt =
      some entry.rolledBackAt := by
    rw [hentry]
    rfl
  by_cases hpass : call.auditFault = none ∧ rollbackRefusal (call.exchange 0) entry w = none
  · obtain ⟨hopen,hpass⟩ := hpass
    obtain ⟨hadmitted,hmatches⟩ := rollbackRefusal_eq_none.mp hpass
    -- what it saw was not the rule, so there is nothing it could undo the change with
    have hunseen : (call.exchange 0).delivery ≠ .answered ∨ entry.resource.key = "" := by
      by_contra hseen
      obtain ⟨hanswered,hkey⟩ := not_or.mp hseen
      exact hcurrent (current_of_matches (not_not.mp hanswered) hkey hmatches)
    have hexpected : entry.expected = none := by
      rw [capturePiholeSnapshot_unseen hunseen] at hmatches
      cases hexpected : entry.expected with
      | none => rfl
      | some snapshot =>
        rw [hexpected] at hmatches
        cases hmatches
    have hpresent : w.pihole.lookup entry.resource ≠ none := by
      intro habsent
      refine hcurrent ⟨fun snapshot hsome => ?_,fun _ => habsent⟩
      cases hexpected.symm.trans hsome
    have hundo : undoRequest entry = none := by
      by_contra hundone
      exact hsees ⟨hopen,hadmitted,hexpected,hpresent,hunseen,hundone⟩
    have hthrow : applyRollback (call.exchange 1) entry w =
        .error (.runtimeError "The audit entry has no previous state to restore.") w := by
      simp only [applyRollback,hundo]
      rfl
    simp only [rollbackPiholeAudit,hopen,hentry,hpass,hthrow]
    refine ⟨_,_,rfl,rfl,?_⟩
    simp only [markRollbackError,AuditLog.update,Table.lookup_update_self,hentry]
    rfl
  · obtain ⟨fault,hrefused⟩ : ∃ fault, rollbackPiholeAudit call entryId w = .error fault w := by
      refine rollbackPiholeAudit_refused fun entry' hopen hentry' hnone => ?_
      obtain rfl := Option.some.inj (hentry.symm.trans hentry')
      exact hpass ⟨hopen,hnone⟩
    exact ⟨fault,w,hrefused,rfl,hsame⟩

def deletedRule : Resource := .exactDomain .deny "ads.example"

def readded : World :=
  recordPiholeChange reachable .delete deletedRule (some ⟨"ads.example","deny","old",true,some [0]⟩)
    none { untouched with pihole := AList.insert deletedRule ⟨"new",true,[0]⟩ ∅ }

def readdedEntry : AuditEntry where
  instanceId := ""
  instanceName := "http://pi.hole"
  instanceUrl := "http://pi.hole"
  operation := .delete
  resource := deletedRule
  before := some ⟨"ads.example","deny","old",true,some [0]⟩
  after := none
  reversible := true
  relatedEntryId := none
  rolledBackAt := none
  rollbackError := ""
  createdAt := 1

theorem readded_lookup : readded.audit.entries.lookup 1 = some readdedEntry := by
  have hrecorded : readded.audit.entries.lookup 1 = some
      { readdedEntry with
        instanceName := (instanceContext untouched.baseUrl untouched.registry).2.1
        instanceUrl := (instanceContext untouched.baseUrl untouched.registry).2.2
        before := some (normalizeSnapshot deletedRule ⟨"ads.example","deny","old",true,some [0]⟩) } :=
    rfl
  rw [hrecorded]
  have hname : (instanceContext untouched.baseUrl untouched.registry).2 =
      ("http://pi.hole","http://pi.hole") := by
    decide
  have hbefore : normalizeSnapshot deletedRule ⟨"ads.example","deny","old",true,some [0]⟩ =
      ⟨"ads.example","deny","old",true,some [0]⟩ := by
    decide
  rw [hname,hbefore]
  rfl

def unreachable : Exchange := ⟨.unsent,"timeout"⟩

def raised {α : Type} : EStateM.Result Fault World α → Bool
  | .ok _ _ => false
  | .error _ _ => true

theorem raised_of_raises {α : Type} {result : EStateM.Result Fault World α} (h : Raises result) :
    raised result = true := by
  obtain ⟨fault,w,rfl⟩ := h
  rfl

end PiHole
end WormholeObservatory
