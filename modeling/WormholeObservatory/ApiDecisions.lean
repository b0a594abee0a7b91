import WormholeObservatory.ApiContracts
import WormholeObservatory.DecisionConvergence
import WormholeObservatory.Effects

/-! What a client may conclude from the answer to a decision. A decision is carried out and leaves
nothing open about its domain, or it is refused before anything is done, or the Pi-hole part of it
fails, and then no table is touched. -/
namespace WormholeObservatory
namespace Api

open JsonValues
open Effects
open ReviewLinks (TextDecoding)
open PiHole (World Fault)
open Review (Store)
open Queue (ListType StagingRow)
open Urls (NetlocTables)

section Decisions

/-- Nothing of the world changes but the rules and their audit, and what is raised is a
`RuntimeError`. -/
structure Limited {α : Type} (w : World) (r : Except Fault α) (w' : World) : Prop where
  kept : w' = { w with pihole := w'.pihole, audit := w'.audit }
  fault : ∀ e, r = .error e → ∃ message, e = .runtimeError message

theorem Limited.ok {α : Type} {a : α} {w : World} : Limited w (.ok a) w := ⟨rfl,fun _ h => by cases h⟩

theorem Limited.error {α : Type} {message : String} {w : World} :
    Limited (α := α) w (.error (.runtimeError message)) w :=
  ⟨rfl,fun _ h => ⟨message,(Except.error.inj h).symm⟩⟩

theorem Limited.trans {α β : Type} {w w' w'' : World} {r : Except Fault α} {r' : Except Fault β}
    (h : Limited w r w') (h' : Limited w' r' w'') : Limited w r' w'' :=
  ⟨by rw [h'.kept,h.kept],h'.fault⟩

theorem send_limited (exchange : PiHole.Exchange) (request : PiHole.Request) (w : World) :
    Ends (PiHole.send exchange request) w (Limited w) := by
  rw [Ends,PiHole.send]
  cases exchange.delivery with
  | unsent => exact Limited.error
  | answered =>
    cases request.apply w.pihole with
    | none => exact Limited.error
    | some rules => exact ⟨rfl,fun _ h => by cases h⟩
  | unanswered =>
    cases request.apply w.pihole with
    | none => exact Limited.error
    | some rules => exact ⟨rfl,fun _ h => ⟨_,(Except.error.inj h).symm⟩⟩

theorem mutate_limited (call : PiHole.Call) (exchange : PiHole.Exchange) (request : PiHole.Request)
    (operation : PiHole.Operation) (resource : PiHole.Resource) (before after : Option PiHole.Snapshot)
    (w : World) :
    Ends (PiHole.mutate call exchange request operation resource before after) w (Limited w) := by
  have hsend := send_limited exchange request w
  rw [Ends] at hsend ⊢
  rw [PiHole.mutate]
  cases hrun : PiHole.send exchange request w with
  | error fault w' =>
    rw [hrun] at hsend
    exact hsend
  | ok a w' =>
    rw [hrun] at hsend
    refine ⟨?_,fun _ h => by cases h⟩
    rw [PiHole.recordPiholeChange]
    cases call.auditFault with
    | none => rw [hsend.kept]
    | some message => exact hsend.kept

variable [CaseTables]

theorem addConflict_runtime {domain : String} {t : ListType} {w : World} {fault : Fault}
    (h : PiHole.addConflict domain t w = some fault) : ∃ message, fault = .runtimeError message := by
  rw [PiHole.addConflict] at h
  split at h
  · split at h
    · exact ⟨_,(Option.some.inj h).symm⟩
    · cases h
  · cases h

theorem compatibilityConflict_runtime {domain : String} {t : ListType} {override : Bool} {w : World}
    {fault : Fault} (h : PiHole.compatibilityConflict domain t override w = some fault) :
    ∃ message, fault = .runtimeError message := by
  rw [PiHole.compatibilityConflict] at h
  split at h
  · split at h
    · exact ⟨_,(Option.some.inj h).symm⟩
    · cases h
  · cases h

theorem addExactDomain_limited (call : PiHole.Call) (domain comment : String) (t : ListType)
    (override : Bool) (w : World) :
    Ends (PiHole.addExactDomain call domain (PiHole.typeName t) comment override) w (Limited w) := by
  cases hconflict : PiHole.addConflict domain t w with
  | some fault =>
    obtain ⟨message,rfl⟩ := addConflict_runtime hconflict
    refine Ends.error (e := .runtimeError message) ?_ Limited.error
    simp only [PiHole.addExactDomain,PiHole.parseListType_typeName,hconflict,PiHole.refuse]
  | none =>
    cases hcompatibility : PiHole.compatibilityConflict domain t override w with
    | some fault =>
      obtain ⟨message,rfl⟩ := compatibilityConflict_runtime hcompatibility
      refine Ends.error (e := .runtimeError message) ?_ Limited.error
      simp only [PiHole.addExactDomain,PiHole.parseListType_typeName,hconflict,hcompatibility,
        PiHole.refuse]
    | none =>
      refine (mutate_limited call (call.exchange 0) (.add (.exactDomain t domain) ⟨comment,true,[]⟩)
        .add (.exactDomain t domain) none (some ⟨domain,PiHole.typeName t,comment,true,none⟩) w).of_eq ?_
      simp only [PiHole.addExactDomain,PiHole.parseListType_typeName,hconflict,hcompatibility]

theorem deleteExactDomain_limited (call : PiHole.Call) (domain : String) (t : ListType) (w : World) :
    Ends (PiHole.deleteExactDomain call domain (PiHole.typeName t)) w (Limited w) := by
  have hdelete := mutate_limited call (call.exchange 1) (.delete (.exactDomain t domain)) .delete
    (.exactDomain t domain)
    (PiHole.capturePiholeSnapshot (call.exchange 0) (.exactDomain t domain) w.pihole) none w
  cases hlock : Queue.getDomainLock domain w.queue with
  | none =>
    refine hdelete.of_eq ?_
    simp only [PiHole.deleteExactDomain,PiHole.parseListType_typeName,hlock]
  | some lock =>
    by_cases htype : lock.listType = t
    · refine Ends.error (e := .runtimeError
        "Domain is protected and cannot be removed until it is unlocked.") ?_ Limited.error
      simp only [PiHole.deleteExactDomain,PiHole.parseListType_typeName,hlock,htype,if_true,
        PiHole.refuse]
    · refine hdelete.of_eq ?_
      simp only [PiHole.deleteExactDomain,PiHole.parseListType_typeName,hlock,htype,if_false]

theorem applyDecision_limited (call : PiHole.Call) (domain comment : String) (t : ListType)
    (w : World) : Ends (PiHole.applyDecision call domain comment t) w (Limited w) := by
  have hfetch : ∀ exchange t fault, PiHole.exactRuleExists exchange domain t w = .error fault →
      ∃ message, fault = .runtimeError message := by
    intro exchange t fault h
    rw [PiHole.exactRuleExists,PiHole.fetchRow] at h
    split at h
    · cases h
    · exact ⟨_,(Except.error.inj h).symm⟩
  cases hdesired : PiHole.exactRuleExists (call.exchange 0) domain t w with
  | error fault =>
    obtain ⟨message,rfl⟩ := hfetch _ _ _ hdesired
    refine Ends.error (e := .runtimeError message) ?_ Limited.error
    simp only [PiHole.applyDecision,hdesired,PiHole.refuse]
  | ok desired =>
    cases hopposite : PiHole.exactRuleExists (call.exchange 1) domain t.opposite w with
    | error fault =>
      obtain ⟨message,rfl⟩ := hfetch _ _ _ hopposite
      refine Ends.error (e := .runtimeError message) ?_ Limited.error
      simp only [PiHole.applyDecision,hdesired,hopposite,PiHole.refuse]
    | ok opposite =>
      have hadd : Ends (if desired = true then pure () else
          PiHole.addExactDomain (call.skip 2) domain (PiHole.typeName t)
            (orElse (strip comment) ("Review decision: "++PiHole.typeName t)) false :
              PiHole.Service Unit) w (Limited w) := by
        cases desired with
        | true => exact Limited.ok
        | false => exact addExactDomain_limited _ _ _ _ _ _
      have hdelete : ∀ w', Ends (if opposite = true then
          PiHole.deleteExactDomain (call.skip 3) domain (PiHole.typeName t.opposite)
            else pure () : PiHole.Service Unit) w' (Limited w') := by
        intro w'
        cases opposite with
        | true => exact deleteExactDomain_limited _ _ _ _
        | false => exact Limited.ok
      have hboth := hadd.bind (P := Limited w) (fun _ _ h => h) fun _ w' h =>
        (hdelete w').mono fun _ _ h' => h.trans h'
      refine hboth.of_eq ?_
      simp only [PiHole.applyDecision,hdesired,hopposite]

/-- The preference that a decision leaves. -/
def leftPreference (postponeUntil : Option ℤ) (now : ℤ) : PiHole.Decision → Review.Preference
  | .allow => ⟨false,none,"allow",now⟩
  | .deny => ⟨false,none,"deny",now⟩
  | .postpone => ⟨false,postponeUntil,"postpone",now⟩
  | .ignore => ⟨false,none,"ignore",now⟩
  | .neverAsk => ⟨true,none,"never_ask",now⟩

/-- The rules say `t` of the domain, and a rule that was there is as it was. -/
structure InForce (d : String) (t : ListType) (s s' : Store) : Prop where
  rule : ∃ r, s'.rules.lookup (.exactDomain t d) = some r ∧
    ∀ r', s.rules.lookup (.exactDomain t d) = some r' → r = r'
  opposite : s'.rules.lookup (.exactDomain t.opposite d) = none

/-- What a decision leaves: nothing is open about the domain, and nothing else is touched. -/
structure Carried (d : String) (postponeUntil : Option ℤ) (now : ℤ) (kind : PiHole.Decision)
    (s s' : Store) : Prop where
  unqueued : s'.queue.staging.lookup d = none
  closed : ∀ task ∈ s'.tasks, task.domain = d → task.status ≠ .opened
  preference : s'.preferences.lookup d = some (leftPreference postponeUntil now kind)
  allowed : kind = .allow → InForce d .allow s s'
  denied : kind = .deny → InForce d .deny s s'
  rules : kind ≠ .allow → kind ≠ .deny → s'.rules = s.rules
  staging : ∀ e, e ≠ d → s'.queue.staging.lookup e = s.queue.staging.lookup e
  review : ∀ e, e ≠ d → s'.review.lookup e = s.review.lookup e
  preferences : ∀ e, e ≠ d → s'.preferences.lookup e = s.preferences.lookup e
  tasks : ∀ task ∈ s.tasks, task.domain ≠ d → task ∈ s'.tasks

/-- What a decision comes to: it is carried out, it is refused before anything is done, or the Pi-hole
part of it fails, and then no table is touched. -/
inductive Ruled (d decision : String) (postponeUntil : Option ℤ) (now : ℤ) (s : Store) :
    Except Fault Unit → Store → Prop
  | carried {kind s'} : PiHole.parseDecision (CaseTables.lower (strip decision)) = some kind →
      Carried d postponeUntil now kind s s' → Ruled d decision postponeUntil now s (.ok ()) s'
  | invalid {message} : Ruled d decision postponeUntil now s (.error (.invalidReviewDecision message)) s
  | conflict {message w} : w = { s.world with pihole := w.pihole, audit := w.audit } →
      Ruled d decision postponeUntil now s (.error (.reviewDecisionConflict message))
        { s with world := w }

/-- The tables once nothing is open about the domain. -/
def Store.settled (d : String) (now : ℤ) (reason : String) (p : Review.Preference)
    (review : Table String Review.ReviewRow) (s : Store) : Store where
  world := { s.world with
    queue := { s.world.queue with
      staging := s.world.queue.staging.deleteWhere fun domain _ => decide (domain ∈ [d]) } }
  review := review
  tasks := Review.resolveTasks now reason (fun e => decide (e = d)) s.tasks
  preferences := s.preferences.insert d p

omit [CaseTables] in
theorem carried_settled {d reason : String} {postponeUntil : Option ℤ} {now : ℤ}
    {kind : PiHole.Decision} {s₀ s : Store} {review : Table String Review.ReviewRow}
    (hreview : ∀ e, e ≠ d → review.lookup e = s₀.review.lookup e)
    (hstore : s = { s₀ with world := s.world }) (hqueue : s.queue = s₀.queue)
    (hallowed : kind = .allow → InForce d .allow s₀ s) (hdenied : kind = .deny → InForce d .deny s₀ s)
    (hrules : kind ≠ .allow → kind ≠ .deny → s.rules = s₀.rules) :
    Carried d postponeUntil now kind s₀
      (Store.settled d now reason (leftPreference postponeUntil now kind) review s) where
  unqueued := by
    change (s.world.queue.staging.deleteWhere fun domain _ => decide (domain ∈ [d])).lookup d = none
    simp
  closed := by
    intro task htask hdomain hopen
    obtain ⟨old,-,rfl⟩ := List.mem_map.mp htask
    by_cases hold : (decide (old.status = .opened) && decide (old.domain = d)) = true
    · rw [if_pos hold] at hopen
      cases hopen
    · rw [if_neg hold] at hdomain hopen
      exact hold (by simp [hdomain,hopen])
  preference := AList.lookup_insert _
  allowed h := ⟨(hallowed h).rule,(hallowed h).opposite⟩
  denied h := ⟨(hdenied h).rule,(hdenied h).opposite⟩
  rules := hrules
  staging e he := by
    change (s.queue.staging.deleteWhere fun domain _ => decide (domain ∈ [d])).lookup e = _
    rw [hqueue,Table.lookup_deleteWhere]
    simp only [List.mem_singleton,he,decide_false,Bool.not_false]
    cases s₀.queue.staging.lookup e <;> rfl
  review := hreview
  preferences e he := by
    have hsame : s.preferences = s₀.preferences := by rw [hstore]
    exact (AList.lookup_insert_ne he).trans (by rw [hsame])
  tasks task htask hdomain := by
    have hsame : s.tasks = s₀.tasks := by rw [hstore]
    refine List.mem_map.mpr ⟨task,hsame ▸ htask,if_neg ?_⟩
    simp [hdomain]

/-- Words that mean a decision are spelled as they are stored. -/
theorem lower_strip_word {word : String} (h : word ∈ ["ignore","postpone","never_ask"]) :
    CaseTables.lower (strip word) = word := by
  have hstrip : ∀ word ∈ ["ignore","postpone","never_ask"], strip word = word := by decide
  have hascii : ∀ word ∈ ["ignore","postpone","never_ask"], ∀ c ∈ word.toList, c.toNat < 128 := by
    decide
  have hlower : ∀ word ∈ ["ignore","postpone","never_ask"], asciiLower word = word := by decide
  rw [hstrip word h,CaseTables.lower_ascii word (hascii word h),hlower word h]

theorem executeValidated_list (call : PiHole.Call) (d : String) (postponeUntil : Option ℤ)
    (t : ListType) (s : Store) :
    Review.executeValidated call d postponeUntil "" (Review.listDecision t) s =
      EStateM.bind (Review.service (PiHole.applyDecision call d "" t))
        (fun _ => Review.concludeDecision call.now d t) s := by
  cases t <;> rfl

/-- An `allow` or `deny` decision. -/
theorem executeDecision_list {call : PiHole.Call} {d decision : String} {postponeUntil : Option ℤ}
    {t : ListType} (hne : d ≠ "") (hsettled : normalizeDomain d = d)
    (hkind : PiHole.parseDecision (CaseTables.lower (strip decision)) = some (Review.listDecision t))
    (s : Store) : Ends (Review.executeDecision call ⟨d,decision,postponeUntil,""⟩) s
      (Ruled d decision postponeUntil call.now s) := by
  have hlimited := applyDecision_limited call d "" t s.world
  rw [Ends] at hlimited ⊢
  simp only [Review.executeDecision,hsettled,if_neg hne,hkind,executeValidated_list,EStateM.bind,
    Review.service]
  cases hrun : PiHole.applyDecision call d "" t s.world with
  | error fault w =>
    rw [hrun] at hlimited
    obtain ⟨message,rfl⟩ := hlimited.fault fault rfl
    exact .conflict hlimited.kept
  | ok a w =>
    rw [hrun] at hlimited
    obtain ⟨hqueue,hkept,hadded,hopposite⟩ := Review.applyDecision_ok hne hrun
    have hforce : InForce d t s { s with world := w } := by
      refine ⟨?_,hopposite⟩
      cases hrule : s.world.pihole.lookup (.exactDomain t d) with
      | none =>
        obtain ⟨r,hr,-⟩ := hadded hrule
        exact ⟨r,hr,fun r' hr' => absurd (hrule.symm.trans hr') (by simp)⟩
      | some r =>
        exact ⟨r,hkept r hrule,fun r' hr' => Option.some.inj (hrule.symm.trans hr')⟩
    simp only [Review.concludeDecision_eq,hsettled,if_neg hne]
    refine .carried hkind ?_
    have hcarried : _ → _ → _ → Carried d postponeUntil call.now (Review.listDecision t) s
        (Store.settled d call.now ("applied_"++PiHole.typeName t)
          (leftPreference postponeUntil call.now (Review.listDecision t))
          (s.review.update d (Review.ReviewRow.applied call.now (PiHole.typeName t)))
          { s with world := w }) :=
      carried_settled (fun e he => Table.lookup_update_ne he _ _) rfl hqueue
    cases t with
    | allow => exact hcarried (fun _ => hforce) (fun h => by cases h) (fun h => absurd rfl h)
    | deny => exact hcarried (fun h => by cases h) (fun _ => hforce) (fun _ h => absurd rfl h)

/-- A decision that leaves the rules alone. -/
theorem executeDecision_other {call : PiHole.Call} {d decision : String} {postponeUntil : Option ℤ}
    {kind : PiHole.Decision} (hne : d ≠ "") (hsettled : normalizeDomain d = d)
    (hkind : PiHole.parseDecision (CaseTables.lower (strip decision)) = some kind)
    (hallow : kind ≠ .allow) (hdeny : kind ≠ .deny) (s : Store) :
    Ends (Review.executeDecision call ⟨d,decision,postponeUntil,""⟩) s
      (Ruled d decision postponeUntil call.now s) := by
  rw [Ends]
  simp only [Review.executeDecision,hsettled,if_neg hne,hkind]
  have hcarried : ∀ reason review, (∀ e, e ≠ d → review.lookup e = s.review.lookup e) →
      Ruled d decision postponeUntil call.now s (.ok ())
        (Store.settled d call.now reason (leftPreference postponeUntil call.now kind) review s) :=
    fun reason review hreview => .carried hkind (carried_settled hreview rfl rfl
      (fun h => absurd h hallow) (fun h => absurd h hdeny) fun _ _ => rfl)
  have hqueue : Queue.stagingRemove [d] s.world.queue = { s.world.queue with
      staging := s.world.queue.staging.deleteWhere fun domain _ => decide (domain ∈ [d]) } := by
    rw [Queue.stagingRemove,List.map_cons,List.map_nil,hsettled,
      List.filter_cons_of_pos (by simpa using hne),List.filter_nil]
  cases kind with
  | allow => exact absurd rfl hallow
  | deny => exact absurd rfl hdeny
  | ignore =>
    simp only [Review.executeValidated,bind,EStateM.bind,Review.service,PiHole.leaveQueue,hqueue,
      Review.reviewResolve,Review.setReviewPreference,List.map_cons,List.map_nil,hsettled,
      List.filter_cons,List.filter_nil,hne,ne_eq,not_false_eq_true,decide_true,if_true,if_false,
      lower_strip_word (show "ignore" ∈ _ by decide)]
    have htasks : (fun e => decide (e ∈ [d])) = fun e => decide (e = d) := by
      funext e
      simp
    rw [htasks]
    refine hcarried (orElse (strip "ignored") "dismissed") (s.review.updateWhere _ _) fun e he => ?_
    rw [Table.lookup_updateWhere]
    cases s.review.lookup e <;> simp [he]
  | postpone =>
    simp only [Review.executeValidated]
    cases postponeUntil with
    | none => exact .invalid
    | some postponed =>
      dsimp only
      by_cases hlate : postponed ≤ call.now
      · rw [if_pos hlate]
        exact .invalid
      · rw [if_neg hlate]
        simp only [bind,EStateM.bind,Review.service,PiHole.leaveQueue,hqueue,
          Review.resolveOpenReviewTasks,Review.setReviewPreference,hsettled,if_neg hne,
          lower_strip_word (show "postpone" ∈ _ by decide)]
        exact hcarried "postponed" s.review fun _ _ => rfl
  | neverAsk =>
    simp only [Review.executeValidated,bind,EStateM.bind,Review.service,PiHole.leaveQueue,hqueue,
      Review.resolveOpenReviewTasks,Review.setReviewPreference,hsettled,if_neg hne,
      lower_strip_word (show "never_ask" ∈ _ by decide)]
    exact hcarried "never_ask" s.review fun _ _ => rfl

theorem executeDecision_ruled (call : PiHole.Call) {d : String} (decision : String)
    (postponeUntil : Option ℤ) (hne : d ≠ "") (hsettled : normalizeDomain d = d) (s : Store) :
    Ends (Review.executeDecision call ⟨d,decision,postponeUntil,""⟩) s
      (Ruled d decision postponeUntil call.now s) := by
  cases hkind : PiHole.parseDecision (CaseTables.lower (strip decision)) with
  | none =>
    rw [Ends]
    simp only [Review.executeDecision,hsettled,if_neg hne,hkind]
    exact .invalid
  | some kind =>
    cases kind with
    | allow => exact executeDecision_list (t := .allow) hne hsettled hkind s
    | deny => exact executeDecision_list (t := .deny) hne hsettled hkind s
    | _ => exact executeDecision_other hne hsettled hkind (by simp) (by simp) s

variable [ValueTexts] [TextDecoding] [NetlocTables] {server : Server} {host : Host} {request : Request}

end Decisions

/-! A decision to ignore a name that waits. -/

section Samples

attribute [local instance] digitTexts

def decisionText : String := "\x7b\"decision\":\"ignore\"\x7d"

def decisionHost : Host where
  pageFile _ := none
  loads text := if text = decisionText then .value (.dict [("decision",.str "ignore")])
    else .decodeError

def decisionRequest : Request :=
  ⟨.post,"/v1/reviews/ads.example/decision",some "Bearer secret",some "21",
    decisionText.toList.flatMap String.utf8EncodeChar,"127.0.0.1"⟩

theorem decisionRequest_plan : sampleServer.plan decisionHost decisionRequest =
    .call (.decide "ads.example" "ignore" none) := by
  have hallowed : clientAccessAllowed decisionRequest.client sampleServer.accessMode = true := by decide
  have hauthorized : sampleServer.authorized decisionRequest = some true := by decide
  have hsplit : Urls.urlsplit decisionRequest.target.toList =
      some ⟨[],[],"/v1/reviews/ads.example/decision".toList,[],[]⟩ := by decide
  have hdomain : pathDomain "ads.example".toList = "ads.example" := by
    have hbytes : ReviewLinks.unquoteToBytes "ads.example".toList =
        "ads.example".toList.flatMap String.utf8EncodeChar := by decide
    rw [pathDomain,ReviewLinks.unquote_of_ascii (by decide),hbytes,TextDecoding.decode_encode]
    decide
  have hread : readJson decisionHost decisionRequest (decisionPlan "ads.example") =
      decisionPlan "ads.example" [("decision",.str "ignore")] :=
    readJson_encoded rfl (by decide) (by decide) (by decide) (by simp [decisionHost])
  have hfields : decisionPlan "ads.example" [("decision",.str "ignore")] =
      .call (.decide "ads.example" "ignore" none) := by
    have hnone : field [("decision",Value.str "ignore")] "postpone_until" = .null := rfl
    have hword : field [("decision",Value.str "ignore")] "decision" = .str "ignore" := rfl
    simp only [decisionPlan,hnone,hword,Value.textOr_str]
    rfl
  rw [Server.plan,if_pos hallowed]
  refine (doPost_decision hauthorized hsplit ⟨by decide,by decide⟩ hdomain (by decide)).trans ?_
  exact hread.trans hfields

end Samples

end Api
end WormholeObservatory
