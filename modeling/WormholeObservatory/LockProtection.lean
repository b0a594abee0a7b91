import WormholeObservatory.RuleKeeping

/-! What a domain lock protects. `add_exact_domain` and `delete_exact_domain` look at the lock
of the name; `update_exact_domain_groups` and the rollback of an audit entry do not, so what
they spare has to come from their arguments. -/
namespace WormholeObservatory
namespace PiHole

open Queue (ListType)

@[simp] theorem parseListType_typeName (t : ListType) :
    Queue.parseListType (typeName t) = some t := by
  cases t <;> decide

@[simp] theorem opposite_opposite (t : ListType) : t.opposite.opposite = t := by
  cases t <;> rfl

theorem opposite_ne (t : ListType) : t ≠ t.opposite := by
  cases t <;> decide

theorem eq_or_eq_opposite (t t' : ListType) : t' = t ∨ t' = t.opposite := by
  cases t <;> cases t' <;> decide

theorem parseListType_listPolicy (t : ListType) :
    Queue.parseListType (Automation.listPolicy t).value = some t := by
  cases t <;> decide

/-- A call either does nothing against the lock of `d`, whatever the locks say, or raises
before it has done anything. -/
def Guarded {α : Type} (d : String) (t : ListType) (x : Service α) (w : World) : Prop :=
  (∃ fault, x w = .error fault w) ∨
    ∀ q, Keeps d t w.pihole (final (x { w with queue := q })).pihole

theorem Guarded.bind {α β : Type} {d : String} {t : ListType} {x : Service α} {f : α → Service β}
    {w : World} (hx : Guarded d t x w)
    (hf : ∀ a w', Keeps d t w'.pihole (final (f a w')).pihole) : Guarded d t (x >>= f) w := by
  rcases hx with ⟨fault,hfault⟩ | hkeeps
  · left
    refine ⟨fault,?_⟩
    change EStateM.bind x f w = _
    simp only [EStateM.bind,hfault]
  · exact .inr fun q => bind_keeps (hkeeps q) fun a w' hkept => hkept.trans (hf a w')

section Locks

variable [CaseTables]

/-- The name is locked to the list `t`. -/
def Locked (d : String) (t : ListType) (w : World) : Prop :=
  ∃ lock, Queue.getDomainLock d w.queue = some lock ∧ lock.listType = t

theorem addExactDomain_keeps {d d' policy comment : String} {t : ListType} {call : Call}
    {compatibilityOverride : Bool} {w : World}
    (h : d' = d → Queue.parseListType policy ≠ some t.opposite) :
    Keeps d t w.pihole
      (final (addExactDomain call d' policy comment compatibilityOverride w)).pihole := by
  unfold addExactDomain
  split
  · exact refuse_keeps
  · rename_i t' htype
    split
    · exact refuse_keeps
    · split
      · exact refuse_keeps
      · refine mutate_keeps fun heq => ?_
        simp only [Resource.exactDomain.injEq] at heq
        exact absurd (htype.trans (congrArg some heq.1)) (h heq.2)

/-- The lock check of `add_exact_domain`. -/
theorem addExactDomain_refused {d policy : String} {t : ListType} {w : World} (hlock : Locked d t w)
    (htype : Queue.parseListType policy = some t.opposite) (call : Call) (comment : String)
    (compatibilityOverride : Bool) :
    ∃ fault, addExactDomain call d policy comment compatibilityOverride w = .error fault w := by
  obtain ⟨lock,hrow,rfl⟩ := hlock
  simp only [addExactDomain,htype,addConflict,hrow,ne_eq,opposite_ne,not_false_eq_true,if_true]
  exact ⟨_,rfl⟩

theorem deleteExactDomain_keeps {d d' domainType : String} {t : ListType} {call : Call} {w : World}
    (h : d' = d → Queue.parseListType domainType ≠ some t) :
    Keeps d t w.pihole (final (deleteExactDomain call d' domainType w)).pihole := by
  have hdelete : ∀ t', Queue.parseListType domainType = some t' →
      (Request.delete (.exactDomain t' d')).Spares d t w.pihole := by
    intro t' htype heq
    simp only [Resource.exactDomain.injEq] at heq
    exact absurd (htype.trans (congrArg some heq.1)) (h heq.2)
  unfold deleteExactDomain
  split
  · exact refuse_keeps
  · rename_i t' htype
    dsimp only
    split
    · split
      · exact refuse_keeps
      · exact mutate_keeps (hdelete t' htype)
    · exact mutate_keeps (hdelete t' htype)

/-- The lock check of `delete_exact_domain`. -/
theorem deleteExactDomain_refused {d domainType : String} {t : ListType} {w : World}
    (hlock : Locked d t w) (htype : Queue.parseListType domainType = some t) (call : Call) :
    ∃ fault, deleteExactDomain call d domainType w = .error fault w := by
  obtain ⟨lock,hrow,rfl⟩ := hlock
  simp only [deleteExactDomain,htype,hrow,if_true]
  exact ⟨_,rfl⟩

theorem applyDecision_keeps {d d' comment : String} {t t' : ListType} {call : Call} {w : World}
    (h : d' = d → t' = t) :
    Keeps d t w.pihole (final (applyDecision call d' comment t' w)).pihole := by
  unfold applyDecision
  split
  · exact refuse_keeps
  · split
    · exact refuse_keeps
    · refine bind_keeps ?_ fun _ w' hkept => hkept.trans ?_
      · split
        · exact Keeps.refl d t w.pihole
        · refine addExactDomain_keeps fun hd => ?_
          rw [h hd,parseListType_typeName]
          exact fun heq => opposite_ne t (Option.some.inj heq)
      · split
        · refine deleteExactDomain_keeps fun hd => ?_
          rw [h hd,parseListType_typeName]
          exact fun heq => opposite_ne t (Option.some.inj heq).symm
        · exact Keeps.refl d t w'.pihole

/-- A decision against the lock either fails before its first request or has none to make. -/
theorem applyDecision_guarded {d : String} {t : ListType} {w : World} (hlock : Locked d t w)
    (call : Call) (comment : String) :
    (∃ fault, applyDecision call d comment t.opposite w = .error fault w) ∨
      ∀ q, Keeps d t w.pihole
        (final (applyDecision call d comment t.opposite { w with queue := q })).pihole := by
  cases hdesired : exactRuleExists (call.exchange 0) d t.opposite w with
  | error fault =>
    left
    simp only [applyDecision,hdesired]
    exact ⟨fault,rfl⟩
  | ok desired =>
    cases hother : exactRuleExists (call.exchange 1) d t.opposite.opposite w with
    | error fault =>
      left
      simp only [applyDecision,hdesired,hother]
      exact ⟨fault,rfl⟩
    | ok other =>
      cases desired with
      | false =>
        left
        obtain ⟨fault,hfault⟩ := addExactDomain_refused hlock
          (parseListType_typeName t.opposite) (call.skip 2)
          (orElse (strip comment) ("Review decision: "++typeName t.opposite)) false
        refine ⟨fault,?_⟩
        simp only [applyDecision,hdesired,hother,Bool.false_eq_true,if_false]
        change EStateM.bind _ _ w = _
        simp only [EStateM.bind,hfault]
      | true =>
        cases other with
        | true =>
          left
          have htype : Queue.parseListType (typeName t.opposite.opposite) = some t := by simp
          obtain ⟨fault,hfault⟩ := deleteExactDomain_refused hlock htype (call.skip 3)
          refine ⟨fault,?_⟩
          simp only [applyDecision,hdesired,hother,if_true]
          exact hfault
        | false =>
          right
          intro q
          have hdesired' : exactRuleExists (call.exchange 0) d t.opposite { w with queue := q } =
              .ok true := hdesired
          have hother' : exactRuleExists (call.exchange 1) d t.opposite.opposite
              { w with queue := q } = .ok false := hother
          simp only [applyDecision,hdesired',hother']
          exact Keeps.refl d t w.pihole

theorem applyDecision_guarded_any {d : String} {t : ListType} {w : World} (hlock : Locked d t w)
    (call : Call) (d' comment : String) (t' : ListType) :
    Guarded d t (applyDecision call d' comment t') w := by
  by_cases hsame : d' = d → t' = t
  · exact .inr fun q => applyDecision_keeps (w := { w with queue := q }) hsame
  · rw [Classical.not_imp] at hsame
    obtain ⟨rfl,hother⟩ := hsame
    obtain rfl := (eq_or_eq_opposite t t').resolve_left hother
    exact applyDecision_guarded hlock call comment

theorem leaveQueue_keeps {α : Type} {d d' : String} {t : ListType} {a : α} {w : World} :
    Keeps d t w.pihole
      (final ((do leaveQueue d'; pure a : Service α) w)).pihole := by
  rw [final_bind_pure (leaveQueue d') fun _ => a]
  exact Keeps.refl d t w.pihole

theorem executeValidated_guarded {d : String} {t : ListType} {w : World} (hlock : Locked d t w)
    (call : Call) (d' : String) (decision : Decision) (postponeUntil : Option ℤ)
    (comment : String) :
    Guarded d t (executeValidated call d' decision postponeUntil comment) w := by
  cases decision with
  | allow =>
    exact (applyDecision_guarded_any hlock call d' comment .allow).bind fun _ _ => leaveQueue_keeps
  | deny =>
    exact (applyDecision_guarded_any hlock call d' comment .deny).bind fun _ _ => leaveQueue_keeps
  | postpone =>
    simp only [executeValidated]
    split
    · exact .inl ⟨_,rfl⟩
    · split
      · exact .inl ⟨_,rfl⟩
      · exact .inr fun q => leaveQueue_keeps (w := { w with queue := q })
  | ignore => exact .inr fun q => leaveQueue_keeps (w := { w with queue := q })
  | neverAsk => exact .inr fun q => leaveQueue_keeps (w := { w with queue := q })

/-- Renaming the exception of a decision changes neither world nor outcome. -/
theorem executeReviewDecision_guarded {d : String} {t : ListType} {w : World}
    (hlock : Locked d t w) (call : Call) (command : ReviewDecisionCommand) :
    Guarded d t (executeReviewDecision call command) w := by
  unfold executeReviewDecision Guarded
  by_cases hempty : normalizeDomain command.domain = ""
  · simp only [hempty,if_true]
    exact .inl ⟨_,rfl⟩
  · simp only [hempty,if_false]
    cases parseDecision (CaseTables.lower (strip command.decision)) with
    | none => exact .inl ⟨_,rfl⟩
    | some decision =>
      dsimp only
      rcases executeValidated_guarded hlock call (normalizeDomain command.domain) decision
        command.postponeUntil command.comment with ⟨fault,hfault⟩ | hkeeps
      · left
        rw [hfault]
        cases fault <;> exact ⟨_,rfl⟩
      · right
        intro q
        have h := hkeeps q
        split
        · rename_i message w' hresult
          rw [hresult] at h
          exact h
        · exact h

/-! The automatic action. -/

theorem performEffects_keeps {d : String} {t : ListType} (call : Call)
    (effects : List Automation.Effect) (w : World)
    (h : ∀ d' p s, .addExactDomain d' p s ∈ effects → d' = d →
      Queue.parseListType p.value ≠ some t.opposite) :
    Keeps d t w.pihole (final (performEffects call effects w)).pihole := by
  induction effects generalizing w with
  | nil => exact Keeps.refl d t w.pihole
  | cons effect rest ih =>
    have hrest := fun w => ih w fun d' p s hmem => h d' p s (List.mem_cons_of_mem _ hmem)
    cases effect with
    | addExactDomain d' p s =>
      have hadd := h d' p s List.mem_cons_self
      exact bind_keeps (addExactDomain_keeps hadd) fun _ w' hkept => hkept.trans (hrest w')
    | saveClassification c status planned actionStatus => exact Keeps.refl d t w.pihole
    | reviewTask d' reason priority source => exact hrest w
    | notify title message => exact hrest w

theorem performEffects_tasks {call : Call} {tasks rest : List Automation.Effect}
    (h : ∀ e ∈ tasks, ∃ d reason priority source, e = .reviewTask d reason priority source) :
    performEffects call (tasks++rest) = performEffects call rest := by
  induction tasks with
  | nil => rfl
  | cons effect tasks ih =>
    obtain ⟨d,reason,priority,source,rfl⟩ := h effect List.mem_cons_self
    exact ih fun e he => h e (List.mem_cons_of_mem _ he)

/-- A worker whose action the lock forbids saves the classification as a conflict. -/
theorem workerAction_conflict {t : ListType} {w : World} {call : Call} {input : WorkerInput}
    {p : Policy} (hlock : Locked input.classification.domain t w)
    (haction : (Automation.automaticDecision input.options
      ⟨input.runs,input.tagRows,w.queue,w.profiles⟩ input.dossier input.queueSource
      input.classification).action = some p)
    (hother : Automation.listPolicy t ≠ p) :
    workerAction call input w = .ok "locked_conflict" w := by
  obtain ⟨lock,hrow,rfl⟩ := hlock
  have hdomain := (Automation.adjusted_sameVerdict input.options
    ⟨input.runs,input.tagRows,w.queue,w.profiles⟩ input.queueSource input.classification).domain
  have hnone : Automation.unlockedAction (some lock) (some p) = none := by
    simp [Automation.unlockedAction,hother]
  simp only [workerAction,WorkerInput.effects,Automation.handleClassification,hdomain,hrow,
    haction,hnone,Automation.act]
  rw [performEffects_tasks]
  · simp [performEffects]
    rfl
  · intro e he
    simp only [List.mem_append,List.not_mem_nil,or_false] at he
    rcases he with (he | he) | he
    · unfold Automation.policyTask at he
      split at he <;> simp_all
    · unfold Automation.lockTask at he
      split at he <;> simp_all
    · unfold Automation.reviewTask at he
      split at he <;> simp_all

theorem workerAction_guarded {d : String} {t : ListType} {w : World} (hlock : Locked d t w)
    (call : Call) (input : WorkerInput) :
    workerAction call input w = .ok "locked_conflict" w ∨
      ∀ q, Keeps d t w.pihole (final (workerAction call input { w with queue := q })).pihole := by
  by_cases hconflict : input.classification.domain = d ∧ ∃ p,
      (Automation.automaticDecision input.options ⟨input.runs,input.tagRows,w.queue,w.profiles⟩
        input.dossier input.queueSource input.classification).action = some p ∧
      Automation.listPolicy t ≠ p
  · obtain ⟨rfl,p,haction,hother⟩ := hconflict
    exact .inl (workerAction_conflict hlock haction hother)
  · right
    intro q
    refine performEffects_keeps call _ { w with queue := q } fun d' p s hmem hd => ?_
    obtain ⟨⟨haction,-⟩,-,rfl,-⟩ := Automation.mem_handleClassification.mp hmem
    have hp : Automation.listPolicy t = p := by
      by_contra hother
      exact hconflict ⟨hd,p,haction,hother⟩
    rw [← hp,parseListType_listPolicy]
    exact fun heq => opposite_ne t (Option.some.inj heq)

/-! The calls that do not look at the lock. -/

/-- The groups and the switch an exact rule is given are those it has. -/
def SameReach (r : Rule) (enabled : Bool) (groups : List ℤ) : Prop :=
  (r.enabled = true → enabled = true) ∧ ∀ g, g ∈ storedGroups groups ↔ g ∈ r.groups

/-- Undoing the entry, on the exact rule of type `t` for `d`, respects the lock of `d`. -/
def AuditEntry.Heeds (t : ListType) (d : String) (w : World) (entry : AuditEntry) : Prop :=
  match entry.operation with
  | .add => Locked d t w → w.pihole.lookup (.exactDomain t d) = none
  | .delete => Locked d t.opposite w → entry.before ≠ none →
      w.pihole.lookup (.exactDomain t d) ≠ none
  | .update => Locked d t w → ∀ r before, w.pihole.lookup (.exactDomain t d) = some r →
      entry.before = some before → SameReach r before.enabled (before.groups.getD [])
  | .rollback => True

/-- The calls that look at the lock always respect it; the other two do by their arguments
and the entry they undo. -/
def Op.Heeds (call : Call) (w : World) : Op → Prop
  | .updateExactDomainGroups domain domainType groups _ enabled =>
    ∀ t r, Queue.parseListType domainType = some t → Locked domain t w →
      w.pihole.lookup (.exactDomain t domain) = some r → SameReach r enabled groups
  | .rollback entryId =>
    ∀ entry t d, w.audit.entries.lookup entryId = some entry → entry.resource = .exactDomain t d →
      rollbackRefusal (call.exchange 0) entry w = none → entry.Heeds t d w
  | _ => True

omit [CaseTables] in
theorem mem_normalizeGroups {groups : List ℤ} {g : ℤ} : g ∈ normalizeGroups groups ↔ g ∈ groups := by
  rw [normalizeGroups,List.mem_insertionSort,List.mem_dedup]

omit [CaseTables] in
theorem normalizeGroups_eq_nil {groups : List ℤ} : normalizeGroups groups = [] ↔ groups = [] := by
  simp only [List.eq_nil_iff_forall_not_mem,mem_normalizeGroups]

omit [CaseTables] in
theorem mem_storedGroups_normalizeGroups (groups : List ℤ) (g : ℤ) :
    g ∈ storedGroups (normalizeGroups groups) ↔ g ∈ storedGroups groups := by
  simp only [storedGroups,normalizeGroups_eq_nil]
  split
  · exact Iff.rfl
  · exact mem_normalizeGroups

/-- `update_exact_domain_groups` spares every lock exactly when its arguments do. -/
theorem update_heeds_iff {call : Call} {domain domainType comment : String} {groups : List ℤ}
    {enabled : Bool} {w : World} {t : ListType} (htype : Queue.parseListType domainType = some t) :
    (Op.updateExactDomainGroups domain domainType groups comment enabled).Heeds call w ↔
      ∀ d t', Locked d t' w → (Request.update (.exactDomain t domain)
        ⟨comment,enabled,normalizeGroups groups⟩).Spares d t' w.pihole := by
  simp only [Op.Heeds,SameReach,Request.Spares,mem_storedGroups_normalizeGroups,htype,
    Option.some.injEq,Resource.exactDomain.injEq]
  constructor
  · rintro h d t' hlock ⟨rfl,rfl⟩ r hr
    exact h t r rfl hlock hr
  · rintro h t' r rfl hlock hr
    exact h domain t hlock ⟨rfl,rfl⟩ r hr

/-- The request that undoes an entry spares every lock exactly when the entry does. -/
theorem undo_heeds_iff {entry : AuditEntry} {request : Request} {w : World}
    (hundo : undoRequest entry = some request) (hrollback : entry.operation ≠ .rollback) :
    (∀ t d, entry.resource = .exactDomain t d → entry.Heeds t d w) ↔
      ∀ d t, Locked d t w → request.Spares d t w.pihole := by
  cases hop : entry.operation with
  | rollback => exact absurd hop hrollback
  | add =>
    simp only [undoRequest,hop,Option.some.injEq] at hundo
    subst hundo
    simp only [AuditEntry.Heeds,hop,Request.Spares]
    constructor
    · intro h d t hlock hkey
      rw [hkey]
      exact h t d hkey hlock
    · intro h t d hkey hlock
      have hnone := h d t hlock hkey
      rwa [hkey] at hnone
  | delete =>
    cases hbefore : entry.before with
    | none =>
      simp only [undoRequest,hop,hbefore] at hundo
      cases hundo
    | some before =>
      simp only [undoRequest,hop,hbefore,Option.some.injEq] at hundo
      subst hundo
      simp only [AuditEntry.Heeds,hop,Request.Spares]
      constructor
      · intro h d t hlock hkey
        rw [hkey]
        exact h t.opposite d hkey (by rwa [opposite_opposite]) (by simp [hbefore])
      · intro h t d hkey hlock _
        have hsome := h d t.opposite hlock (by rwa [opposite_opposite])
        rwa [hkey] at hsome
  | update =>
    cases hbefore : entry.before with
    | none =>
      simp only [undoRequest,hop,hbefore] at hundo
      cases hundo
    | some before =>
      simp only [undoRequest,hop,hbefore,Option.some.injEq] at hundo
      subst hundo
      simp only [AuditEntry.Heeds,hop,hbefore,Request.Spares,SameReach,
        mem_storedGroups_normalizeGroups,Option.some.injEq]
      constructor
      · intro h d t hlock hkey r hr
        rw [hkey] at hr
        exact h t d hkey hlock r before hr rfl
      · rintro h t d hkey hlock r _ hr rfl
        rw [← hkey] at hr
        exact h d t hlock hkey r hr

omit [CaseTables] in
theorem not_rollback_of_refusal {exchange : Exchange} {entry : AuditEntry} {w : World}
    (h : rollbackRefusal exchange entry w = none) : entry.operation ≠ .rollback := by
  intro hop
  simp [rollbackRefusal,hop] at h

omit [CaseTables] in
/-- An entry that passes the checks is undone; closing it does not touch the Pi-hole. -/
theorem rollbackPiholeAudit_pihole {call : Call} {entryId : ℤ} {entry : AuditEntry} {w : World}
    (hopen : call.auditFault = none) (hentry : w.audit.entries.lookup entryId = some entry)
    (hpass : rollbackRefusal (call.exchange 0) entry w = none) :
    (final (rollbackPiholeAudit call entryId w)).pihole =
      (final (applyRollback (call.exchange 1) entry w)).pihole := by
  simp only [rollbackPiholeAudit,hopen,hentry,hpass]
  cases applyRollback (call.exchange 1) entry w <;> rfl

omit [CaseTables] in
/-- A rollback that is turned away leaves the world as it is. -/
theorem rollbackPiholeAudit_refused {call : Call} {entryId : ℤ} {w : World}
    (h : ∀ entry, call.auditFault = none → w.audit.entries.lookup entryId = some entry →
      rollbackRefusal (call.exchange 0) entry w ≠ none) :
    ∃ fault, rollbackPiholeAudit call entryId w = .error fault w := by
  cases hopen : call.auditFault with
  | some message =>
    simp only [rollbackPiholeAudit,hopen]
    exact ⟨_,rfl⟩
  | none =>
    cases hentry : w.audit.entries.lookup entryId with
    | none =>
      simp only [rollbackPiholeAudit,hopen,hentry]
      exact ⟨_,rfl⟩
    | some entry =>
      cases hpass : rollbackRefusal (call.exchange 0) entry w with
      | some fault => exact ⟨fault,by simp only [rollbackPiholeAudit,hopen,hentry,hpass]⟩
      | none => exact absurd hpass (h entry hopen hentry)

theorem rollback_guarded {call : Call} {entryId : ℤ} {w : World} {d : String} {t : ListType}
    (hheeds : (Op.rollback entryId).Heeds call w) (hlock : Locked d t w) :
    Guarded d t (rollbackPiholeAudit call entryId) w := by
  by_cases hpass : ∃ entry, call.auditFault = none ∧
      w.audit.entries.lookup entryId = some entry ∧
      rollbackRefusal (call.exchange 0) entry w = none
  · obtain ⟨entry,hopen,hentry,hnone⟩ := hpass
    right
    intro q
    have hentry' : ({ w with queue := q } : World).audit.entries.lookup entryId = some entry :=
      hentry
    rw [rollbackPiholeAudit_pihole hopen hentry' hnone]
    cases hundo : undoRequest entry with
    | some request =>
      simp only [applyRollback,hundo]
      have hspares := (undo_heeds_iff hundo (not_rollback_of_refusal hnone)).mp
        (fun t d hkey => hheeds entry t d hentry hkey hnone) d t hlock
      exact send_keeps (w := { w with queue := q }) hspares
    | none =>
      simp only [applyRollback,hundo]
      exact Keeps.refl d t w.pihole
  · left
    refine rollbackPiholeAudit_refused fun entry hopen hentry hnone => ?_
    exact hpass ⟨entry,hopen,hentry,hnone⟩

theorem updateExactDomainGroups_guarded {call : Call} {domain domainType comment : String}
    {groups : List ℤ} {enabled : Bool} {w : World} {d : String} {t : ListType}
    (hheeds : (Op.updateExactDomainGroups domain domainType groups comment enabled).Heeds call w)
    (hlock : Locked d t w) :
    Guarded d t (updateExactDomainGroups call domain domainType groups comment enabled) w := by
  cases htype : Queue.parseListType domainType with
  | none =>
    left
    exact ⟨domainTypeFault,by simp only [updateExactDomainGroups,htype,refuse]⟩
  | some t' =>
    right
    intro q
    simp only [updateExactDomainGroups,htype]
    exact mutate_keeps (w := { w with queue := q }) ((update_heeds_iff htype).mp hheeds d t hlock)

theorem addExactDomain_guarded {d : String} {t : ListType} {w : World} (hlock : Locked d t w)
    (call : Call) (d' policy comment : String) (compatibilityOverride : Bool) :
    Guarded d t (addExactDomain call d' policy comment compatibilityOverride) w := by
  by_cases hother : d' = d → Queue.parseListType policy ≠ some t.opposite
  · exact .inr fun q => addExactDomain_keeps (w := { w with queue := q }) hother
  · simp only [ne_eq,Classical.not_imp,not_not] at hother
    obtain ⟨rfl,htype⟩ := hother
    exact .inl (addExactDomain_refused hlock htype call comment compatibilityOverride)

theorem deleteExactDomain_guarded {d : String} {t : ListType} {w : World} (hlock : Locked d t w)
    (call : Call) (d' domainType : String) :
    Guarded d t (deleteExactDomain call d' domainType) w := by
  by_cases hother : d' = d → Queue.parseListType domainType ≠ some t
  · exact .inr fun q => deleteExactDomain_keeps (w := { w with queue := q }) hother
  · simp only [ne_eq,Classical.not_imp,not_not] at hother
    obtain ⟨rfl,htype⟩ := hother
    exact .inl (deleteExactDomain_refused hlock htype call)

/-! Whole calls and runs. -/

/-- A call that was turned away: it raised, or a worker saved a conflict, and neither the
Pi-hole nor the audit log changed. -/
structure Refusal (result : EStateM.Result Fault World Answer) (w : World) : Prop where
  refused : (∃ fault w', result = .error fault w') ∨
    ∃ w', result = .ok (.saved "locked_conflict") w'
  pihole : (final result).pihole = w.pihole
  audit : (final result).audit = w.audit

omit [CaseTables] in
theorem Guarded.answer {α : Type} {d : String} {t : ListType} {x : Service α} {w : World}
    (h : Guarded d t x w) (f : α → Answer) :
    Refusal ((x >>= fun a => pure (f a)) w) w ∨
      ∀ q, Keeps d t w.pihole
        (final ((x >>= fun a => pure (f a)) { w with queue := q })).pihole := by
  simp only [final_bind_pure]
  rcases h with ⟨fault,hfault⟩ | hkeeps
  · left
    have hresult : (x >>= fun a => pure (f a)) w = .error fault w := by
      change EStateM.bind x _ w = _
      simp only [EStateM.bind,hfault]
    rw [hresult]
    exact ⟨.inl ⟨fault,w,rfl⟩,rfl,rfl⟩
  · exact .inr hkeeps

/-- Every call that heeds the locks is turned away by the lock of a name or would have kept
its promise without the lock as well. -/
theorem exec_guarded {call : Call} {op : Op} {w : World} {d : String} {t : ListType}
    (hheeds : op.Heeds call w) (hlock : Locked d t w) :
    Refusal (op.exec call w) w ∨
      ∀ q, Keeps d t w.pihole (final (op.exec call { w with queue := q })).pihole := by
  cases op with
  | addExactDomain domain policy comment compatibilityOverride =>
    exact (addExactDomain_guarded hlock call domain policy comment compatibilityOverride).answer _
  | deleteExactDomain domain domainType =>
    exact (deleteExactDomain_guarded hlock call domain domainType).answer _
  | updateExactDomainGroups domain domainType groups comment enabled =>
    exact (updateExactDomainGroups_guarded hheeds hlock).answer _
  | reviewDecision command => exact (executeReviewDecision_guarded hlock call command).answer _
  | workerAction input =>
    simp only [Op.exec,final_bind_pure]
    rcases workerAction_guarded hlock call input with hconflict | hkeeps
    · left
      have hresult : (Op.workerAction input).exec call w = .ok (.saved "locked_conflict") w := by
        change EStateM.bind (workerAction call input) _ w = _
        simp only [EStateM.bind,hconflict]
        rfl
      exact ⟨.inr ⟨w,hresult⟩,congrArg (fun r => (final r).pihole) hresult,
        congrArg (fun r => (final r).audit) hresult⟩
    · exact .inr hkeeps
  | rollback entryId => exact (rollback_guarded hheeds hlock).answer _
  | queue context op => exact .inr fun q => Keeps.refl d t w.pihole

/-- With the Pi-hole and the audit database in reach, a call keeps the promise of every lock
exactly when it heeds them: nothing weaker than `Op.Heeds` would do. -/
theorem exec_keeps_iff {call : Call} {op : Op} {w : World} (hopen : call.auditFault = none)
    (hanswered : ∀ n, (call.exchange n).delivery = .answered) :
    (∀ d t, Locked d t w → Keeps d t w.pihole (final (op.exec call w)).pihole) ↔
      op.Heeds call w := by
  constructor
  · intro hkeeps
    cases op with
    | updateExactDomainGroups domain domainType groups comment enabled =>
      cases htype : Queue.parseListType domainType with
      | none =>
        intro t r hsome
        cases htype.symm.trans hsome
      | some t' =>
        refine (update_heeds_iff htype).mpr fun d t hlock => ?_
        have h := hkeeps d t hlock
        simp only [Op.exec,final_bind_pure,updateExactDomainGroups,htype,mutate_pihole] at h
        exact (send_keeps_iff (hanswered 1)).mp h
    | rollback entryId =>
      intro entry t d hentry hkey hnone
      cases hundo : undoRequest entry with
      | some request =>
        refine (undo_heeds_iff hundo (not_rollback_of_refusal hnone)).mpr
          (fun d t hlock => ?_) t d hkey
        have h := hkeeps d t hlock
        simp only [Op.exec,final_bind_pure,rollbackPiholeAudit_pihole hopen hentry hnone,
          applyRollback,hundo] at h
        exact (send_keeps_iff (hanswered 1)).mp h
      | none =>
        -- nothing to restore: only an update or a delete without a snapshot gets here
        have hbefore : entry.before = none := by
          cases hsome : entry.before with
          | none => rfl
          | some before => cases hop : entry.operation <;> simp [undoRequest,hop,hsome] at hundo
        cases hop : entry.operation with
        | add => simp [undoRequest,hop] at hundo
        | update => simp [AuditEntry.Heeds,hop,hbefore]
        | delete => simp [AuditEntry.Heeds,hop,hbefore]
        | rollback => simp [AuditEntry.Heeds,hop]
    | addExactDomain domain policy comment compatibilityOverride => trivial
    | deleteExactDomain domain domainType => trivial
    | reviewDecision command => trivial
    | workerAction input => trivial
    | queue context op => trivial
  · intro hheeds d t hlock
    rcases exec_guarded hheeds hlock with hrefusal | hkeeps
    · rw [hrefusal.pihole]
      exact Keeps.refl d t w.pihole
    · exact hkeeps w.queue

/-- The same world without the lock of `d`. -/
def unlock (d : String) (w : World) : World :=
  { w with queue := Queue.removeDomainLock d w.queue }

/-- What a lock of `d` on `t` is for: the call keeps the promise, and if it is only the lock
that saves it, the call is turned away. -/
structure Protects (d : String) (t : ListType) (call : Call) (op : Op) (w : World) : Prop where
  keeps : Keeps d t w.pihole (final (op.exec call w)).pihole
  refuses : ¬Keeps d t w.pihole (final (op.exec call (unlock d w))).pihole →
    Refusal (op.exec call w) w

theorem exec_protects {call : Call} {op : Op} {w : World} {d : String} {t : ListType}
    (hheeds : op.Heeds call w) (hlock : Locked d t w) : Protects d t call op w := by
  rcases exec_guarded hheeds hlock with hrefusal | hkeeps
  · refine ⟨?_,fun _ => hrefusal⟩
    rw [hrefusal.pihole]
    exact Keeps.refl d t w.pihole
  · exact ⟨hkeeps w.queue,fun hbroken => absurd (hkeeps (unlock d w).queue) hbroken⟩

def HeedfulStep (w : World) (l : Call × Op) (w' : World) : Prop :=
  l.2.Heeds l.1 w ∧ Op.Step w l w'

/-- A heedful step taken while `d` is locked to `t`. -/
def LockedStep (d : String) (t : ListType) (w : World) (l : Call × Op) (w' : World) : Prop :=
  Locked d t w ∧ HeedfulStep w l w'

/-- A step that every lock is protected in. -/
def ProtectedStep (w : World) (l : Call × Op) (w' : World) : Prop :=
  Op.Step w l w' ∧ ∀ d t, Locked d t w → Protects d t l.1 l.2 w

/-- In every run of heedful calls each step protects every lock there is, and over a stretch
in which a name stays locked its rules come out as the lock promises. -/
theorem lock_protects {w w' : World} {steps : List (Call × Op)}
    (h : Transition.Run HeedfulStep w steps w') :
    Transition.Run ProtectedStep w steps w' ∧
      ∀ d t, Transition.Run (LockedStep d t) w steps w' → Keeps d t w.pihole w'.pihole := by
  refine ⟨h.mono fun u l u' hstep => ⟨hstep.2,fun d t hlock => exec_protects hstep.1 hlock⟩,
    fun d t hlocked => ?_⟩
  refine hlocked.invariant (fun u => Keeps d t w.pihole u.pihole) ?_ (Keeps.refl d t w.pihole)
  rintro u l _ hkept ⟨hlock,hheeds,rfl⟩
  exact hkept.trans (exec_protects hheeds hlock).keeps

/-- The world after a list of calls. -/
def runAll (w : World) (steps : List (Call × Op)) : World :=
  steps.foldl (fun w l => final (l.2.exec l.1 w)) w

theorem run_runAll (w : World) (steps : List (Call × Op)) :
    Transition.Run Op.Step w steps (runAll w steps) := Transition.Run.foldl _ w steps

/-- What a protected run says about its last call. -/
theorem keeps_last {w w' : World} {steps : List (Call × Op)} {l : Call × Op} {d : String}
    {t : ListType} (h : Transition.Run ProtectedStep w (steps++[l]) w')
    (hlock : Locked d t (runAll w steps)) :
    Keeps d t (runAll w steps).pihole (final (l.2.exec l.1 (runAll w steps))).pihole := by
  obtain ⟨u,hu,hlast⟩ := h.split
  obtain rfl : u = runAll w steps :=
    Transition.Run.eq_foldl (hu.mono fun _ _ _ hstep => hstep.1)
  cases hlast with
  | cons hstep _ => exact (hstep.2 d t hlock).keeps

end Locks

/-! A rule that is added, locked and then disabled or undone. -/

def reachable : Call := ⟨1,fun _ => ⟨.answered,""⟩,none⟩

def untouched : World := ⟨.empty,[],"http://pi.hole",⟨[],""⟩,∅,.empty⟩

def addAndLock : List (Call × Op) :=
  [(reachable,.addExactDomain "ads.example" "deny" "" false),
    (reachable,.queue ⟨1,[]⟩ (.setLock "ads.example" "deny" ""))]

def lockedRule : World := runAll untouched addAndLock

theorem lockedRule_locked : Locked "ads.example" .deny lockedRule :=
  ⟨⟨.deny,"",1,1⟩,by decide,rfl⟩

theorem lockedRule_lookup :
    lockedRule.pihole.lookup (.exactDomain .deny "ads.example") = some ⟨"",true,[0]⟩ := by
  decide

def disable : Op := .updateExactDomainGroups "ads.example" "deny" [7] "" false

def undoAdd : Op := .rollback 1

theorem disable_breaks : ¬Keeps "ads.example" .deny lockedRule.pihole
    (final (disable.exec reachable lockedRule)).pihole := by
  have hafter : (final (disable.exec reachable lockedRule)).pihole.lookup
      (.exactDomain .deny "ads.example") = some ⟨"",false,[7]⟩ := by decide
  intro h
  obtain ⟨r,hr,henabled,-⟩ := h.kept _ lockedRule_lookup
  obtain rfl := Option.some.inj (hafter.symm.trans hr)
  cases henabled rfl

theorem undoAdd_breaks : ¬Keeps "ads.example" .deny lockedRule.pihole
    (final (undoAdd.exec reachable lockedRule)).pihole := by
  have hafter : (final (undoAdd.exec reachable lockedRule)).pihole.lookup
      (.exactDomain .deny "ads.example") = none := by decide
  intro h
  obtain ⟨r,hr,-⟩ := h.kept _ lockedRule_lookup
  cases hafter.symm.trans hr

/-- Neither the group update nor the rollback looks at the lock. -/
theorem lock_bypassed :
    (∃ w', Transition.Run Op.Step untouched (addAndLock++[(reachable,disable)]) w' ∧
      ¬Transition.Run ProtectedStep untouched (addAndLock++[(reachable,disable)]) w') ∧
    ∃ w', Transition.Run Op.Step untouched (addAndLock++[(reachable,undoAdd)]) w' ∧
      ¬Transition.Run ProtectedStep untouched (addAndLock++[(reachable,undoAdd)]) w' := by
  refine ⟨⟨_,run_runAll _ _,fun h => ?_⟩,⟨_,run_runAll _ _,fun h => ?_⟩⟩
  · exact disable_breaks (keeps_last h lockedRule_locked)
  · exact undoAdd_breaks (keeps_last h lockedRule_locked)

/-- A new comment for the locked rule, then an attempt to allow the name. -/
def heedful : List (Call × Op) :=
  [(reachable,.updateExactDomainGroups "ads.example" "deny" [0] "trackers" true),
    (reachable,.addExactDomain "ads.example" "allow" "" false)]

theorem heedful_comment_heeds :
    (Op.updateExactDomainGroups "ads.example" "deny" [0] "trackers" true).Heeds reachable
      lockedRule := by
  intro t r htype _ hr
  obtain rfl : ListType.deny = t := Option.some.inj htype
  obtain rfl := Option.some.inj (lockedRule_lookup.symm.trans hr)
  exact ⟨fun _ => rfl,fun _ => Iff.rfl⟩

theorem heedful_run (P : World → Call × Op → World → Prop)
    (h : ∀ w l, l.2.Heeds l.1 w → Locked "ads.example" .deny w →
      P w l (final (l.2.exec l.1 w))) :
    Transition.Run P lockedRule heedful (runAll lockedRule heedful) := by
  refine .cons (h _ _ heedful_comment_heeds lockedRule_locked) ?_
  refine .cons (h _ _ trivial ?_) (.nil _)
  exact ⟨⟨.deny,"",1,1⟩,by decide,rfl⟩

theorem lock_protects_heedful :
    Keeps "ads.example" .deny lockedRule.pihole (runAll lockedRule heedful).pihole :=
  (lock_protects (heedful_run _ fun _ _ hheeds _ => ⟨hheeds,rfl⟩)).2 "ads.example" .deny
    (heedful_run _ fun _ _ hheeds hlock => ⟨hlock,hheeds,rfl⟩)

end PiHole
end WormholeObservatory
