import WormholeObservatory.DecisionRace
import WormholeObservatory.ReviewListing

/-! What an `allow` or `deny` decision leaves, from whatever state it starts. A decision is a
series of calls, and an earlier one may have stopped after any of them; the last that gets to
its end decides. A rule of the wanted type is taken as it is, also when it is disabled. -/
namespace WormholeObservatory
namespace Review

open PiHole (Fault Resource ReviewDecisionCommand)
open Queue (ListType)
open Transition (Run)

/-- What the tables say about `d` once it is decided. -/
structure Filed (d : String) (t : ListType) (s : Store) : Prop where
  unqueued : s.queue.staging.lookup d = none
  closed : ∀ task ∈ s.tasks, task.domain = d → task.status ≠ .opened
  reviewed : ∀ row, s.review.lookup d = some row → row.needsReview = false
  preference : ∃ p, s.preferences.lookup d = some p ∧ p.neverAsk = false ∧
    p.postponedUntil = none ∧ p.lastDecision = PiHole.typeName t

/-- The decision `t` for `d` is in force. -/
structure Converged (d : String) (t : ListType) (s : Store) : Prop where
  rule : ∃ r, s.rules.lookup (.exactDomain t d) = some r ∧ r.enabled = true
  opposite : s.rules.lookup (.exactDomain t.opposite d) = none
  filed : Filed d t s

/-- What a decision can build on: no disabled rule of its type, and a name the tables know
as it is, unless there is nothing left to write to them. -/
structure Ready (d : String) (t : ListType) [CaseTables] (s : Store) : Prop where
  enabled : ∀ r, s.rules.lookup (.exactDomain t d) = some r → r.enabled = true
  known : normalizeDomain d = d ∨ Filed d t s

/-- The tables without the times of their rows. -/
def Store.timeless (s : Store) : Store :=
  { s with
    review := s.review.updateWhere (fun _ _ => true) fun row => { row with updatedAt := 0 }
    tasks := s.tasks.map fun task => { task with updatedAt := 0 }
    preferences := s.preferences.updateWhere (fun _ _ => true) fun p => { p with updatedAt := 0 } }

/-- What there is to see of `d`. -/
structure Outlook where
  allow : Option Bool
  deny : Option Bool
  staging : Option Queue.StagingRow
  openTasks : List ReviewTask
  preference : Option (Bool × Option ℤ × String)

def Store.outlook (d : String) (s : Store) : Outlook where
  allow := (s.rules.lookup (.exactDomain .allow d)).map PiHole.Rule.enabled
  deny := (s.rules.lookup (.exactDomain .deny d)).map PiHole.Rule.enabled
  staging := s.queue.staging.lookup d
  openTasks := s.tasks.filter fun task => decide (task.domain = d) && decide (task.status = .opened)
  preference := (s.preferences.lookup d).map fun p => (p.neverAsk,p.postponedUntil,p.lastDecision)

/-- Where a decision is in force, nothing else about `d` is left open. -/
theorem Converged.outlook {d : String} {t : ListType} {s : Store} (h : Converged d t s) :
    s.outlook d = ⟨if t = .allow then some true else none,if t = .deny then some true else none,
      none,[],some (false,none,PiHole.typeName t)⟩ := by
  obtain ⟨⟨r,hrule,henabled⟩,hopposite,hunqueued,hclosed,-,p,hp,hnever,hpostponed,hlast⟩ := h
  have htasks : s.tasks.filter (fun task => decide (task.domain = d) &&
      decide (task.status = .opened)) = [] := by
    refine List.filter_eq_nil_iff.mpr fun task htask hopen => ?_
    rw [Bool.and_eq_true,decide_eq_true_iff,decide_eq_true_iff] at hopen
    exact hclosed task htask hopen.1 hopen.2
  cases t with
  | allow =>
    have hdeny : s.rules.lookup (.exactDomain .deny d) = none := hopposite
    simp [Store.outlook,hrule,hdeny,henabled,hunqueued,htasks,hp,hnever,hpostponed,hlast]
  | deny =>
    have hallow : s.rules.lookup (.exactDomain .allow d) = none := hopposite
    simp [Store.outlook,hrule,hallow,henabled,hunqueued,htasks,hp,hnever,hpostponed,hlast]

section Convergence

variable [CaseTables]

/-! The Pi-hole. -/

theorem addExactDomain_absent {call : PiHole.Call} {d comment : String} {t : ListType}
    {w w' : PiHole.World} {a : Unit} (habsent : w.pihole.lookup (.exactDomain t d) = none)
    (h : PiHole.addExactDomain call d (PiHole.typeName t) comment false w = .ok a w') :
    (∃ r, w'.pihole.lookup (.exactDomain t d) = some r ∧ r.enabled = true) ∧
      ∀ other, other ≠ .exactDomain t d → w'.pihole.lookup other = w.pihole.lookup other := by
  simp only [PiHole.addExactDomain,PiHole.parseListType_typeName] at h
  split at h
  · cases h
  · split at h
    · cases h
    · have happly := PiHole.mutate_ok h
      simp only [PiHole.Request.apply,habsent,Option.some.injEq] at happly
      rw [← happly]
      exact ⟨⟨_,AList.lookup_insert _,rfl⟩,fun other hother => AList.lookup_insert_ne hother⟩

theorem deleteExactDomain_lookup {call : PiHole.Call} {d : String} {t : ListType}
    {w w' : PiHole.World} {a : Unit}
    (h : PiHole.deleteExactDomain call d (PiHole.typeName t) w = .ok a w') :
    w'.pihole.lookup (.exactDomain t d) = none ∧
      ∀ other, other ≠ .exactDomain t d → w'.pihole.lookup other = w.pihole.lookup other := by
  have hdelete : (PiHole.Request.delete (.exactDomain t d)).apply w.pihole = some w'.pihole := by
    simp only [PiHole.deleteExactDomain,PiHole.parseListType_typeName] at h
    split at h
    · split at h
      · cases h
      · exact PiHole.mutate_ok h
    · exact PiHole.mutate_ok h
  simp only [PiHole.Request.apply] at hdelete
  split at hdelete
  · cases hdelete
  · obtain hrules := Option.some.inj hdelete
    rw [← hrules]
    exact ⟨AList.lookup_erase _ _,fun other hother => AList.lookup_erase_ne hother⟩

theorem deleteExactDomain_queue (call : PiHole.Call) (d domainType : String) (w : PiHole.World) :
    (PiHole.final (PiHole.deleteExactDomain call d domainType w)).queue = w.queue := by
  simp only [PiHole.deleteExactDomain]
  split
  · rfl
  · split
    · split
      · rfl
      · exact PiHole.mutate_queue _ _ _ _ _ _ _ _
    · exact PiHole.mutate_queue _ _ _ _ _ _ _ _

omit [CaseTables] in
theorem exactRuleExists_ok {exchange : PiHole.Exchange} {d : String} {t : ListType}
    {w : PiHole.World} {found : Bool} (hd : d ≠ "")
    (h : PiHole.exactRuleExists exchange d t w = .ok found) :
    found = (w.pihole.lookup (.exactDomain t d)).isSome := by
  simp only [PiHole.exactRuleExists,PiHole.fetchRow,Resource.key,hd,if_false] at h
  split at h
  · cases h
    rfl
  · cases h

/-- What the Pi-hole part of a decision leaves when it gets to its end. -/
structure Enforced (d : String) (t : ListType) (w w' : PiHole.World) : Prop where
  queue : w'.queue = w.queue
  kept : ∀ r, w.pihole.lookup (.exactDomain t d) = some r →
    w'.pihole.lookup (.exactDomain t d) = some r
  added : w.pihole.lookup (.exactDomain t d) = none →
    ∃ r, w'.pihole.lookup (.exactDomain t d) = some r ∧ r.enabled = true
  opposite : w'.pihole.lookup (.exactDomain t.opposite d) = none

theorem applyDecision_ok {call : PiHole.Call} {d comment : String} {t : ListType}
    {w w' : PiHole.World} {a : Unit} (hd : d ≠ "")
    (h : PiHole.applyDecision call d comment t w = .ok a w') : Enforced d t w w' := by
  have hne : Resource.exactDomain t d ≠ .exactDomain t.opposite d := by
    intro heq
    exact PiHole.opposite_ne t (Resource.exactDomain.inj heq).1
  simp only [PiHole.applyDecision] at h
  cases hdesired : PiHole.exactRuleExists (call.exchange 0) d t w with
  | error fault =>
    rw [hdesired] at h
    cases h
  | ok desired =>
    cases hopposite : PiHole.exactRuleExists (call.exchange 1) d t.opposite w with
    | error fault =>
      rw [hdesired,hopposite] at h
      cases h
    | ok opposite =>
      rw [hdesired,hopposite] at h
      obtain ⟨w₁,hadd,hdelete⟩ : ∃ w₁, (if desired = true then pure () else
          PiHole.addExactDomain (call.skip 2) d (PiHole.typeName t)
            (orElse (strip comment) ("Review decision: "++PiHole.typeName t)) false :
              PiHole.Service Unit) w = .ok () w₁ ∧
          (if opposite = true then
            PiHole.deleteExactDomain (call.skip 3) d (PiHole.typeName t.opposite)
            else pure () : PiHole.Service Unit) w₁ = .ok () w' := by
        dsimp only at h
        simp only [bind,EStateM.bind] at h
        split at h
        · rename_i w₁ hfirst
          exact ⟨w₁,hfirst,h⟩
        · cases h
      have hfound := exactRuleExists_ok hd hdesired
      have hfound' := exactRuleExists_ok hd hopposite
      -- the rule of type `t` is there after the first step, and the second leaves it alone
      have hfirst : w₁.queue = w.queue ∧
          (∀ r, w.pihole.lookup (.exactDomain t d) = some r →
            w₁.pihole.lookup (.exactDomain t d) = some r) ∧
          (w.pihole.lookup (.exactDomain t d) = none →
            ∃ r, w₁.pihole.lookup (.exactDomain t d) = some r ∧ r.enabled = true) ∧
          w₁.pihole.lookup (.exactDomain t.opposite d) =
            w.pihole.lookup (.exactDomain t.opposite d) := by
        cases desired with
        | true =>
          cases hadd
          refine ⟨rfl,fun r hr => hr,fun hnone => ?_,rfl⟩
          rw [hnone] at hfound
          cases hfound
        | false =>
          have habsent : w.pihole.lookup (.exactDomain t d) = none :=
            Option.isNone_iff_eq_none.mp (by simpa using hfound.symm)
          have hqueue := PiHole.addExactDomain_queue (call.skip 2) d (PiHole.typeName t)
            (orElse (strip comment) ("Review decision: "++PiHole.typeName t)) false w
          simp only [Bool.false_eq_true,if_false] at hadd
          rw [hadd] at hqueue
          obtain ⟨hrule,hothers⟩ := addExactDomain_absent habsent hadd
          refine ⟨hqueue,fun r hr => ?_,fun _ => hrule,hothers _ hne.symm⟩
          rw [habsent] at hr
          cases hr
      obtain ⟨hqueue,hkept,hadded,hsame⟩ := hfirst
      cases opposite with
      | true =>
        have hqueue' := deleteExactDomain_queue (call.skip 3) d (PiHole.typeName t.opposite) w₁
        simp only [if_true] at hdelete
        rw [hdelete] at hqueue'
        obtain ⟨hgone,hothers⟩ := deleteExactDomain_lookup hdelete
        refine ⟨hqueue'.trans hqueue,fun r hr => ?_,fun hnone => ?_,hgone⟩
        · exact (hothers _ hne).trans (hkept r hr)
        · obtain ⟨r,hr,henabled⟩ := hadded hnone
          exact ⟨r,(hothers _ hne).trans hr,henabled⟩
      | false =>
        cases hdelete
        refine ⟨hqueue,hkept,hadded,hsame.trans ?_⟩
        exact Option.isNone_iff_eq_none.mp (by simpa using hfound'.symm)

/-- Where the decision is in force already, nothing is sent. -/
theorem applyDecision_again (call : PiHole.Call) (comment : String) {d : String} {t : ListType}
    {w : PiHole.World} (hd : d ≠ "") {r : PiHole.Rule}
    (hrule : w.pihole.lookup (.exactDomain t d) = some r)
    (hopposite : w.pihole.lookup (.exactDomain t.opposite d) = none) :
    PiHole.applyDecision call d comment t w = .ok () w ∨
      ∃ fault, PiHole.applyDecision call d comment t w = .error fault w := by
  simp only [PiHole.applyDecision]
  cases hdesired : PiHole.exactRuleExists (call.exchange 0) d t w with
  | error fault => exact .inr ⟨fault,rfl⟩
  | ok desired =>
    cases hother : PiHole.exactRuleExists (call.exchange 1) d t.opposite w with
    | error fault => exact .inr ⟨fault,rfl⟩
    | ok opposite =>
      obtain rfl : desired = true := by rw [exactRuleExists_ok hd hdesired,hrule]; rfl
      obtain rfl : opposite = false := by rw [exactRuleExists_ok hd hother,hopposite]; rfl
      exact .inl rfl

/-! The tables. -/

theorem lower_strip_typeName (t : ListType) :
    CaseTables.lower (strip (PiHole.typeName t)) = PiHole.typeName t := by
  have hstrip : strip (PiHole.typeName t) = PiHole.typeName t := by cases t <;> decide
  have hascii : (PiHole.typeName t).toList.all (fun c => decide (c.toNat < 128)) = true := by
    cases t <;> decide
  rw [hstrip,
    CaseTables.lower_ascii _ fun c hc => of_decide_eq_true (List.all_eq_true.mp hascii c hc)]
  cases t <;> decide

theorem normalizePlannedAction_typeName (t : ListType) :
    normalizePlannedAction (PiHole.typeName t) = PiHole.typeName t := by
  simp only [normalizePlannedAction,lower_strip_typeName]
  cases t <;> decide

def ReviewRow.applied (now : ℤ) (planned : String) (row : ReviewRow) : ReviewRow :=
  { row with
    plannedAction := planned
    actionStatus := "applied"
    needsReview := false
    reviewReason := ""
    status := "manually_applied"
    updatedAt := now }

/-- What the calls after the Pi-hole part leave. -/
def Store.concluded (now : ℤ) (key : String) (t : ListType) (s : Store) : Store where
  world := { s.world with
    queue := { s.world.queue with
      staging := s.world.queue.staging.deleteWhere fun domain _ => decide (domain ∈ [key]) } }
  review := s.review.update key (ReviewRow.applied now (PiHole.typeName t))
  tasks := resolveTasks now ("applied_"++PiHole.typeName t) (fun d => decide (d = key)) s.tasks
  preferences := s.preferences.insert key ⟨false,none,PiHole.typeName t,now⟩

theorem concludeDecision_eq (now : ℤ) (d : String) (t : ListType) (s : Store) :
    concludeDecision now d t s = if normalizeDomain d = "" then
      .error (.valueError "domain and action must be valid") s
      else .ok () (s.concluded now (normalizeDomain d) t) := by
  have hnamed : PiHole.typeName t ≠ "" := by cases t <;> decide
  by_cases hkey : normalizeDomain d = ""
  · simp only [concludeDecision,bind,EStateM.bind,markActionApplied,hkey,true_or,if_true]
  · simp only [concludeDecision,bind,EStateM.bind,markActionApplied,hkey,false_or,if_false,
      normalizePlannedAction_typeName,hnamed,service,PiHole.leaveQueue,Queue.stagingRemove,
      List.map_cons,List.map_nil,setReviewPreference,lower_strip_typeName]
    rw [List.filter_cons_of_pos (by simpa using hkey)]
    rfl

omit [CaseTables] in
/-- The calls go to the rows of `key`, and file them. -/
theorem filed_concluded (now : ℤ) (key : String) (t : ListType) (s : Store) :
    Filed key t (s.concluded now key t) := by
  refine ⟨?_,fun task htask hdomain hopen => ?_,fun row hrow => ?_,?_⟩
  · change (s.world.queue.staging.deleteWhere fun domain _ => decide (domain ∈ [key])).lookup key =
      none
    simp
  · obtain ⟨old,-,rfl⟩ := List.mem_map.mp htask
    by_cases hold : (decide (old.status = .opened) && decide (old.domain = key)) = true
    · rw [if_pos hold] at hopen
      cases hopen
    · rw [if_neg hold] at hdomain hopen
      exact hold (by simp [hdomain,hopen])
  · change (s.review.update key _).lookup key = some row at hrow
    rw [Table.lookup_update_self] at hrow
    obtain ⟨old,-,rfl⟩ := Option.map_eq_some_iff.mp hrow
    rfl
  · exact ⟨_,AList.lookup_insert _,rfl,rfl,rfl⟩

omit [CaseTables] in
/-- The rows of other names stay as they are. -/
theorem filed_concluded_ne {now : ℤ} {d key : String} {t t' : ListType} {s : Store} (hne : d ≠ key) :
    Filed d t' (s.concluded now key t) ↔ Filed d t' s := by
  have hstaging : (s.concluded now key t).queue.staging.lookup d = s.queue.staging.lookup d := by
    change (s.world.queue.staging.deleteWhere fun domain _ => decide (domain ∈ [key])).lookup d = _
    rw [Table.lookup_deleteWhere]
    simp only [List.mem_singleton,hne,decide_false,Bool.not_false]
    cases hrow : s.world.queue.staging.lookup d with
    | none => exact hrow.symm
    | some row => exact hrow.symm
  have hreview : (s.concluded now key t).review.lookup d = s.review.lookup d :=
    Table.lookup_update_ne hne _ _
  have hpreference : (s.concluded now key t).preferences.lookup d = s.preferences.lookup d :=
    AList.lookup_insert_ne hne
  have htasks : (∀ task ∈ (s.concluded now key t).tasks, task.domain = d → task.status ≠ .opened) ↔
      ∀ task ∈ s.tasks, task.domain = d → task.status ≠ .opened := by
    simp only [Store.concluded,resolveTasks,List.forall_mem_map]
    refine forall₂_congr fun task _ => ?_
    by_cases htask : (decide (task.status = .opened) && decide (task.domain = key)) = true
    · rw [if_pos htask]
      have hdomain : task.domain = key := of_decide_eq_true (Bool.and_eq_true_iff.mp htask).2
      have hother : task.domain ≠ d := fun heq => hne (heq.symm.trans hdomain)
      exact ⟨fun _ heq => absurd heq hother,fun _ heq => absurd heq hother⟩
    · rw [if_neg htask]
  refine ⟨fun h => ⟨?_,?_,?_,?_⟩,fun h => ⟨?_,?_,?_,?_⟩⟩
  · exact hstaging ▸ h.unqueued
  · exact htasks.mp h.closed
  · exact hreview ▸ h.reviewed
  · exact hpreference ▸ h.preference
  · exact hstaging.symm ▸ h.unqueued
  · exact htasks.mpr h.closed
  · exact hreview.symm ▸ h.reviewed
  · exact hpreference.symm ▸ h.preference

omit [CaseTables] in
/-- What is resolved is not resolved again. -/
theorem resolveTasks_resolveTasks (now now' : ℤ) (decision decision' : String) (p : String → Bool)
    (tasks : List ReviewTask) :
    resolveTasks now' decision' p (resolveTasks now decision p tasks) =
      resolveTasks now decision p tasks := by
  simp only [resolveTasks,List.map_map]
  refine List.map_congr_left fun task _ => ?_
  simp only [Function.comp_apply]
  by_cases htask : (decide (task.status = .opened) && p task.domain) = true
  · rw [if_pos htask,if_neg (by simp [ReviewTask.resolve])]
  · rw [if_neg htask,if_neg htask]

omit [CaseTables] in
/-- Done twice, the calls leave what they left the first time, at another time. -/
theorem timeless_concluded (now now' : ℤ) (key : String) (t : ListType) (s : Store) :
    ((s.concluded now key t).concluded now' key t).timeless = (s.concluded now key t).timeless := by
  simp only [Store.timeless,Store.concluded,Store.mk.injEq]
  refine ⟨?_,?_,?_,?_⟩
  · congr 2
    refine AList.ext ?_
    simp [Table.deleteWhere,List.filter_filter]
  · refine AList.ext ?_
    simp only [Table.updateWhere,Table.update,List.map_map]
    refine List.map_congr_left fun e _ => ?_
    by_cases he : e.1 = key
    · simp [he,ReviewRow.applied]
    · simp [he]
  · rw [resolveTasks_resolveTasks]
  · rw [AList.insert_insert]
    exact AList.ext rfl

/-! Decisions. -/

def listDecision : ListType → PiHole.Decision
  | .allow => .allow
  | .deny => .deny

/-- The command decides `t` for `d`. -/
structure Commands (d : String) (t : ListType) (command : ReviewDecisionCommand) : Prop where
  domain : normalizeDomain command.domain = d
  named : d ≠ ""
  decision : PiHole.parseDecision (CaseTables.lower (strip command.decision)) =
    some (listDecision t)

/-- What a decision that `execute` lets through comes to, up to the name of its exception. -/
theorem executeDecision_cases {d : String} {t : ListType} {command : ReviewDecisionCommand}
    (h : Commands d t command) (call : PiHole.Call) (s : Store) :
    (∃ w, PiHole.applyDecision call d command.comment t s.world = .ok () w ∧
      normalizeDomain d ≠ "" ∧ executeDecision call command s =
        .ok () (Store.concluded call.now (normalizeDomain d) t { s with world := w })) ∨
      ∃ fault, executeDecision call command s = .error fault
        { s with world := PiHole.final (PiHole.applyDecision call d command.comment t s.world) } := by
  obtain ⟨hdomain,hnamed,hdecision⟩ := h
  have hvalidated : executeValidated call d command.postponeUntil command.comment (listDecision t) s =
      EStateM.bind (service (PiHole.applyDecision call d command.comment t))
        (fun _ => concludeDecision call.now d t) s := by
    cases t <;> rfl
  simp only [executeDecision,hdomain,if_neg hnamed,hdecision,hvalidated,EStateM.bind,service]
  cases happly : PiHole.applyDecision call d command.comment t s.world with
  | error fault w =>
    refine .inr ?_
    cases fault <;> exact ⟨_,rfl⟩
  | ok a w =>
    simp only [concludeDecision_eq]
    by_cases hkey : normalizeDomain d = ""
    · simp only [hkey,if_true]
      exact .inr ⟨_,rfl⟩
    · simp only [hkey,if_false]
      exact .inl ⟨w,rfl,hkey,rfl⟩

/-- A decision `t` for `d` that gets to its end. -/
def Decides (d : String) (t : ListType) (s : Store) (l : PiHole.Call × ReviewDecisionCommand)
    (s' : Store) : Prop :=
  Commands d t l.2 ∧ executeDecision l.1 l.2 s = .ok () s'

theorem Decides.cases {d : String} {t : ListType} {s s' : Store}
    {l : PiHole.Call × ReviewDecisionCommand} (h : Decides d t s l s') :
    ∃ w, Enforced d t s.world w ∧
      s' = Store.concluded l.1.now (normalizeDomain d) t { s with world := w } := by
  obtain ⟨hcommands,hexecute⟩ := h
  rcases executeDecision_cases hcommands l.1 s with ⟨w,happly,-,hdone⟩ | ⟨fault,hfailed⟩
  · cases hdone.symm.trans hexecute
    exact ⟨w,applyDecision_ok hcommands.named happly,rfl⟩
  · cases hfailed.symm.trans hexecute

theorem Decides.converged_iff {d : String} {t : ListType} {s s' : Store}
    {l : PiHole.Call × ReviewDecisionCommand} (h : Decides d t s l s') :
    Converged d t s' ↔ Ready d t s := by
  obtain ⟨w,henforced,rfl⟩ := h.cases
  have hfiled : Filed d t { s with world := w } ↔ Filed d t s := by
    have hqueue : Store.queue { s with world := w } = s.queue := henforced.queue
    refine ⟨fun h => ⟨?_,h.closed,h.reviewed,h.preference⟩,
      fun h => ⟨?_,h.closed,h.reviewed,h.preference⟩⟩
    · exact hqueue ▸ h.unqueued
    · exact hqueue.symm ▸ h.unqueued
  constructor
  · rintro ⟨⟨r,hrule,henabled⟩,-,hd⟩
    refine ⟨fun r' hr' => ?_,?_⟩
    · cases (henforced.kept r' hr').symm.trans hrule
      exact henabled
    · by_cases hkey : d = normalizeDomain d
      · exact .inl hkey.symm
      · exact .inr (hfiled.mp ((filed_concluded_ne hkey).mp hd))
  · rintro ⟨henabled,hknown⟩
    refine ⟨?_,henforced.opposite,?_⟩
    · cases hrule : s.world.pihole.lookup (.exactDomain t d) with
      | none => exact henforced.added hrule
      | some r => exact ⟨r,henforced.kept r hrule,henabled r hrule⟩
    · by_cases hkey : normalizeDomain d = d
      · rw [hkey]
        exact filed_concluded _ d t _
      · exact (filed_concluded_ne (Ne.symm hkey)).mpr (hfiled.mpr (hknown.resolve_left hkey))

theorem Decides.again {d : String} {t : ListType} {s s' : Store}
    {l : PiHole.Call × ReviewDecisionCommand} (h : Decides d t s l s')
    (call : PiHole.Call) {command : ReviewDecisionCommand} (hcommand : Commands d t command) :
    (after (executeDecision call command s')).timeless = s'.timeless := by
  obtain ⟨w,henforced,rfl⟩ := h.cases
  generalize hs₁ : Store.concluded l.1.now (normalizeDomain d) t { s with world := w } = s₁
  have hrules : s₁.world.pihole = w.pihole := by rw [← hs₁]; rfl
  obtain ⟨r,hrule⟩ : ∃ r, s₁.world.pihole.lookup (.exactDomain t d) = some r := by
    rw [hrules]
    cases hrule : s.world.pihole.lookup (.exactDomain t d) with
    | none => exact (henforced.added hrule).imp fun r hr => hr.1
    | some r => exact ⟨r,henforced.kept r hrule⟩
  have hopposite : s₁.world.pihole.lookup (.exactDomain t.opposite d) = none := by
    rw [hrules]
    exact henforced.opposite
  have hsame : PiHole.final (PiHole.applyDecision call d command.comment t s₁.world) = s₁.world := by
    rcases applyDecision_again call command.comment hcommand.named hrule hopposite with
      hok | ⟨fault,herror⟩
    · rw [hok]
      rfl
    · rw [herror]
      rfl
  rcases executeDecision_cases hcommand call s₁ with ⟨w',happly,-,hdone⟩ | ⟨fault,hfailed⟩
  · rw [happly] at hsame
    obtain rfl : w' = s₁.world := hsame
    rw [hdone]
    change (s₁.concluded call.now (normalizeDomain d) t).timeless = s₁.timeless
    rw [← hs₁]
    exact timeless_concluded _ _ _ _ _
  · rw [hfailed,hsame]
    rfl

/-! Attempts. -/

/-- A decision for `d`, whatever it decides and however far it gets. -/
def Attempts (d : String) (s : Store) (l : PiHole.Call × ReviewDecisionCommand) (s' : Store) :
    Prop :=
  normalizeDomain l.2.domain = d ∧ after (executeDecision l.1 l.2 s) = s'

/-- No exact rule of `d` is disabled. -/
def Unimpaired (d : String) (rules : PiHole.Rules) : Prop :=
  ∀ t r, rules.lookup (.exactDomain t d) = some r → r.enabled = true

omit [CaseTables] in
theorem Unimpaired.add {d comment : String} {resource : Resource} {rules rules' : PiHole.Rules}
    (h : Unimpaired d rules)
    (hadd : (PiHole.Request.add resource ⟨comment,true,[]⟩).apply rules = some rules') :
    Unimpaired d rules' := by
  simp only [PiHole.Request.apply] at hadd
  split at hadd
  · obtain rfl := Option.some.inj hadd
    intro t r hr
    by_cases hkey : .exactDomain t d = resource
    · rw [hkey,AList.lookup_insert] at hr
      obtain rfl := Option.some.inj hr
      rfl
    · rw [AList.lookup_insert_ne hkey] at hr
      exact h t r hr
  · obtain rfl := Option.some.inj hadd
    exact h

omit [CaseTables] in
theorem Unimpaired.delete {d : String} {resource : Resource} {rules rules' : PiHole.Rules}
    (h : Unimpaired d rules) (hdelete : (PiHole.Request.delete resource).apply rules = some rules') :
    Unimpaired d rules' := by
  simp only [PiHole.Request.apply] at hdelete
  split at hdelete
  · cases hdelete
  · obtain rfl := Option.some.inj hdelete
    intro t r hr
    by_cases hkey : .exactDomain t d = resource
    · rw [hkey,AList.lookup_erase] at hr
      cases hr
    · rw [AList.lookup_erase_ne hkey] at hr
      exact h t r hr

theorem addExactDomain_unimpaired {call : PiHole.Call} {d d' policy comment : String}
    {w : PiHole.World} (h : Unimpaired d w.pihole) :
    Unimpaired d (PiHole.final (PiHole.addExactDomain call d' policy comment false w)).pihole := by
  simp only [PiHole.addExactDomain]
  split
  · exact h
  · split
    · exact h
    · split
      · exact h
      · rw [PiHole.mutate_pihole]
        rcases PiHole.send_pihole (call.exchange 0) _ w with hsame | hadd
        · exact hsame.symm ▸ h
        · exact h.add hadd

theorem deleteExactDomain_unimpaired {call : PiHole.Call} {d d' domainType : String}
    {w : PiHole.World} (h : Unimpaired d w.pihole) :
    Unimpaired d (PiHole.final (PiHole.deleteExactDomain call d' domainType w)).pihole := by
  have hsend : ∀ resource, Unimpaired d
      (PiHole.final (PiHole.send (call.exchange 1) (.delete resource) w)).pihole := by
    intro resource
    rcases PiHole.send_pihole (call.exchange 1) (.delete resource) w with hsame | hdelete
    · exact hsame.symm ▸ h
    · exact h.delete hdelete
  simp only [PiHole.deleteExactDomain]
  split
  · exact h
  · split
    · split
      · exact h
      · rw [PiHole.mutate_pihole]
        exact hsend _
    · rw [PiHole.mutate_pihole]
      exact hsend _

/-- However far a decision gets, it adds enabled rules only. -/
theorem applyDecision_unimpaired {d : String} (call : PiHole.Call) (d' comment : String)
    (t : ListType) {w : PiHole.World} (h : Unimpaired d w.pihole) :
    Unimpaired d (PiHole.final (PiHole.applyDecision call d' comment t w)).pihole := by
  simp only [PiHole.applyDecision]
  cases PiHole.exactRuleExists (call.exchange 0) d' t w with
  | error fault => exact h
  | ok desired =>
    cases PiHole.exactRuleExists (call.exchange 1) d' t.opposite w with
    | error fault => exact h
    | ok opposite =>
      simp only [bind,EStateM.bind]
      have hadd : Unimpaired d (PiHole.final ((if desired = true then pure () else
          PiHole.addExactDomain (call.skip 2) d' (PiHole.typeName t)
            (orElse (strip comment) ("Review decision: "++PiHole.typeName t)) false :
              PiHole.Service Unit) w)).pihole := by
        cases desired with
        | true => exact h
        | false => exact addExactDomain_unimpaired h
      split
      · rename_i w₁ hfirst
        rw [hfirst] at hadd
        cases opposite with
        | true => exact deleteExactDomain_unimpaired hadd
        | false => exact hadd
      · rename_i fault w₁ hfirst
        rw [hfirst] at hadd
        exact hadd

theorem executeDecision_unimpaired (d : String) (call : PiHole.Call)
    (command : ReviewDecisionCommand) :
    Keeping (fun s => Unimpaired d s.rules) (executeDecision call command) := by
  refine executeDecision_keeping (fun call d' comment t => Keeping.service fun s hs => ?_)
    (fun _ _ hs => hs) (fun now domain action s hs => ?_) (fun _ _ _ _ hs => hs)
    (fun _ _ _ _ hs => hs) (fun now domain neverAsk postponedUntil lastDecision s hs => ?_)
    call command
  · exact applyDecision_unimpaired call d' comment t hs
  · simp only [markActionApplied]
    split <;> exact hs
  · simp only [setReviewPreference]
    split <;> exact hs

/-- After any attempts, a decision that gets to its end is in force exactly when it found no
disabled rule of its type and a name the tables know; to decide the same again changes times
only; and what there is to see of `d` is up to the last decision alone. Attempts leave no
disabled rule behind. -/
theorem decisions_converge_iff {d : String} {t : ListType} {s₀ s s' : Store}
    {attempts : List (PiHole.Call × ReviewDecisionCommand)}
    {l : PiHole.Call × ReviewDecisionCommand} (hattempts : Run (Attempts d) s₀ attempts s)
    (h : Decides d t s l s') :
    (Converged d t s' ↔ Ready d t s) ∧
      (∀ call command, Commands d t command →
        (after (executeDecision call command s')).timeless = s'.timeless) ∧
      (∀ s₁ l₁ s₁', Decides d t s₁ l₁ s₁' → Ready d t s₁ → Ready d t s →
        s₁'.outlook d = s'.outlook d) ∧
      (Unimpaired d s₀.rules → normalizeDomain d = d → Ready d t s) := by
  refine ⟨h.converged_iff,fun call command hcommand => h.again call hcommand,
    fun s₁ l₁ s₁' h₁ hready₁ hready => ?_,fun hstart hd => ⟨?_,.inl hd⟩⟩
  · rw [(h₁.converged_iff.mpr hready₁).outlook,(h.converged_iff.mpr hready).outlook]
  · refine hattempts.invariant (fun s => Unimpaired d s.rules) (fun s l s' hs hattempt => ?_)
      hstart t
    obtain ⟨-,rfl⟩ := hattempt
    exact executeDecision_unimpaired d l.1 l.2 s hs

end Convergence

/-! One disabled rule, and one decision that first stops halfway. -/

def allowCommand : ReviewDecisionCommand := { domain := "a.com", decision := "allow" }

def answering : PiHole.Call := ⟨1000,fun _ => ⟨.answered,""⟩,none⟩

/-- The deletion does not get through. -/
def interrupted : PiHole.Call :=
  ⟨990,fun i => ⟨if i < 4 then .answered else .unsent,"timeout"⟩,none⟩

theorem allowCommand_commands : Commands "a.com" .allow allowCommand :=
  ⟨by decide,by decide,by decide⟩

def ruled (t : ListType) (enabled : Bool) : Store :=
  { Store.empty with
    world := { Store.empty.world with
      pihole := AList.insert (.exactDomain t "a.com") ⟨"by hand",enabled,[0]⟩ ∅ } }

def isOk {α : Type} : EStateM.Result Fault Store α → Bool
  | .ok _ _ => true
  | .error _ _ => false

theorem eq_ok_of_isOk {result : EStateM.Result Fault Store Unit} (h : isOk result = true) :
    result = .ok () (after result) := by
  cases result with
  | ok a s => rfl
  | error fault s => cases h

/-- The decision gets to its end, and the rule is as disabled as before. -/
theorem disabled_rule_stays :
    Decides "a.com" .allow (ruled .allow false) (answering,allowCommand)
        (after (executeDecision answering allowCommand (ruled .allow false))) ∧
      ((after (executeDecision answering allowCommand (ruled .allow false))).rules.lookup
        (.exactDomain .allow "a.com")).map PiHole.Rule.enabled = some false ∧
      ¬Converged "a.com" .allow
        (after (executeDecision answering allowCommand (ruled .allow false))) := by
  have hdisabled : ((after (executeDecision answering allowCommand (ruled .allow false))).rules.lookup
      (.exactDomain .allow "a.com")).map PiHole.Rule.enabled = some false := by
    decide
  refine ⟨⟨allowCommand_commands,eq_ok_of_isOk (by decide)⟩,hdisabled,fun h => ?_⟩
  obtain ⟨r,hr,henabled⟩ := h.rule
  rw [hr,Option.map_some,henabled] at hdisabled
  cases hdisabled

theorem converges_after_interruption :
    Converged "a.com" .allow (after (executeDecision answering allowCommand
      (after (executeDecision interrupted allowCommand (ruled .deny true))))) := by
  have hattempts : Run (Attempts "a.com") (ruled .deny true) [(interrupted,allowCommand)]
      (after (executeDecision interrupted allowCommand (ruled .deny true))) :=
    .single ⟨by decide,rfl⟩
  have hdecides : Decides "a.com" .allow
      (after (executeDecision interrupted allowCommand (ruled .deny true))) (answering,allowCommand)
      (after (executeDecision answering allowCommand
        (after (executeDecision interrupted allowCommand (ruled .deny true))))) :=
    ⟨allowCommand_commands,eq_ok_of_isOk (by decide)⟩
  have hstart : Unimpaired "a.com" (ruled .deny true).rules := by
    intro t r hr
    cases t with
    | allow =>
      have hnone : (ruled .deny true).rules.lookup (.exactDomain .allow "a.com") = none := by
        decide
      cases hnone.symm.trans hr
    | deny =>
      have hsome : (ruled .deny true).rules.lookup (.exactDomain .deny "a.com") =
          some ⟨"by hand",true,[0]⟩ := by
        decide
      cases hsome.symm.trans hr
      rfl
  obtain ⟨hconverged,-,-,hready⟩ := decisions_converge_iff hattempts hdecides
  exact hconverged.mpr (hready hstart (by decide))

end Review
end WormholeObservatory
