import WormholeObservatory.PiHoleService

/-! What a lock promises about the exact rules of a name, which requests to the Pi-hole spare
that promise, and how it carries over from a request to the call that sends it. -/
namespace WormholeObservatory
namespace PiHole

open Queue (ListType)

/-- What a lock on `t` promises about the exact rules of `d`: none of the opposite type
appears, and the one of type `t` stays, stays enabled and stays in its groups. -/
structure Keeps (d : String) (t : ListType) (rules rules' : Rules) : Prop where
  opposite : rules.lookup (.exactDomain t.opposite d) = none →
    rules'.lookup (.exactDomain t.opposite d) = none
  kept : ∀ r, rules.lookup (.exactDomain t d) = some r →
    ∃ r', rules'.lookup (.exactDomain t d) = some r' ∧ (r.enabled = true → r'.enabled = true) ∧
      ∀ g, g ∈ r'.groups ↔ g ∈ r.groups

theorem Keeps.refl (d : String) (t : ListType) (rules : Rules) : Keeps d t rules rules :=
  ⟨id,fun r hr => ⟨r,hr,id,fun _ => Iff.rfl⟩⟩

theorem Keeps.trans {d : String} {t : ListType} {rules₁ rules₂ rules₃ : Rules}
    (h₁ : Keeps d t rules₁ rules₂) (h₂ : Keeps d t rules₂ rules₃) : Keeps d t rules₁ rules₃ := by
  refine ⟨fun h => h₂.opposite (h₁.opposite h),fun r hr => ?_⟩
  obtain ⟨r',hr',henabled,hgroups⟩ := h₁.kept r hr
  obtain ⟨r'',hr'',henabled',hgroups'⟩ := h₂.kept r' hr'
  exact ⟨r'',hr'',fun h => henabled' (henabled h),fun g => (hgroups' g).trans (hgroups g)⟩

/-- The requests that leave a lock's promise alone. -/
def Request.Spares (d : String) (t : ListType) (rules : Rules) : Request → Prop
  | .add resource _ => resource = .exactDomain t.opposite d → rules.lookup resource ≠ none
  | .update resource rule => resource = .exactDomain t d → ∀ r, rules.lookup resource = some r →
      (r.enabled = true → rule.enabled = true) ∧ ∀ g, g ∈ storedGroups rule.groups ↔ g ∈ r.groups
  | .delete resource => resource = .exactDomain t d → rules.lookup resource = none

theorem add_keeps_iff {d : String} {t : ListType} {rules rules' : Rules} {resource : Resource}
    {rule : Rule} (h : (Request.add resource rule).apply rules = some rules') :
    Keeps d t rules rules' ↔ (Request.add resource rule).Spares d t rules := by
  simp only [Request.Spares]
  cases hr : rules.lookup resource with
  | some r =>
    simp only [Request.apply,hr,Option.some.injEq] at h
    subst h
    simp [Keeps.refl]
  | none =>
    simp only [Request.apply,hr,Option.some.injEq] at h
    subst h
    refine ⟨?_,fun hspare => ?_⟩
    · rintro hkeeps rfl
      simpa using hkeeps.opposite hr
    · have hne : .exactDomain t.opposite d ≠ resource := fun heq => hspare heq.symm rfl
      refine ⟨fun _ => by rwa [AList.lookup_insert_ne hne],fun r hd => ?_⟩
      have hkey : .exactDomain t d ≠ resource := by
        rintro rfl
        cases hr.symm.trans hd
      exact ⟨r,by rwa [AList.lookup_insert_ne hkey],id,fun _ => Iff.rfl⟩

theorem update_keeps_iff {d : String} {t : ListType} {rules rules' : Rules} {resource : Resource}
    {rule : Rule} (h : (Request.update resource rule).apply rules = some rules') :
    Keeps d t rules rules' ↔ (Request.update resource rule).Spares d t rules := by
  simp only [Request.Spares]
  cases hr : rules.lookup resource with
  | none =>
    simp only [Request.apply,hr] at h
    cases h
  | some r =>
    simp only [Request.apply,hr,Option.some.injEq] at h
    subst h
    simp only [Option.some.injEq,forall_eq']
    refine ⟨?_,fun hspare => ⟨fun hnone => ?_,fun r' hd => ?_⟩⟩
    · rintro hkeeps rfl
      obtain ⟨r',hr',hkept⟩ := hkeeps.kept r hr
      rw [AList.lookup_insert,Option.some.injEq] at hr'
      subst hr'
      exact hkept
    · have hne : .exactDomain t.opposite d ≠ resource := by
        rintro rfl
        cases hr.symm.trans hnone
      rwa [AList.lookup_insert_ne hne]
    · by_cases hkey : resource = .exactDomain t d
      · subst hkey
        obtain rfl := Option.some.inj (hr.symm.trans hd)
        exact ⟨_,AList.lookup_insert _,hspare rfl⟩
      · exact ⟨r',by rwa [AList.lookup_insert_ne (Ne.symm hkey)],id,fun _ => Iff.rfl⟩

theorem delete_keeps_iff {d : String} {t : ListType} {rules rules' : Rules} {resource : Resource}
    (h : (Request.delete resource).apply rules = some rules') :
    Keeps d t rules rules' ↔ (Request.delete resource).Spares d t rules := by
  simp only [Request.Spares]
  cases hr : rules.lookup resource with
  | none =>
    simp only [Request.apply,hr] at h
    cases h
  | some r =>
    simp only [Request.apply,hr,Option.some.injEq] at h
    subst h
    refine ⟨?_,fun hspare => ⟨fun hnone => ?_,fun r' hd => ?_⟩⟩
    · rintro hkeeps rfl
      obtain ⟨r',hr',-⟩ := hkeeps.kept r hr
      rw [AList.lookup_erase] at hr'
      cases hr'
    · have hne : .exactDomain t.opposite d ≠ resource := by
        rintro rfl
        cases hr.symm.trans hnone
      rwa [AList.lookup_erase_ne hne]
    · have hkey : .exactDomain t d ≠ resource := by
        rintro rfl
        cases hspare rfl
      exact ⟨r',by rwa [AList.lookup_erase_ne hkey],id,fun _ => Iff.rfl⟩

/-- A request the Pi-hole carries out keeps the promise exactly when it spares it. -/
theorem apply_keeps_iff {d : String} {t : ListType} {rules rules' : Rules} {request : Request}
    (h : request.apply rules = some rules') :
    Keeps d t rules rules' ↔ request.Spares d t rules := by
  cases request with
  | add resource rule => exact add_keeps_iff h
  | update resource rule => exact update_keeps_iff h
  | delete resource => exact delete_keeps_iff h

/-! One request, and what a call does around it. -/

theorem send_pihole (exchange : Exchange) (request : Request) (w : World) :
    (final (send exchange request w)).pihole = w.pihole ∨
      request.apply w.pihole = some (final (send exchange request w)).pihole := by
  unfold send
  split
  · rename_i rules _ hrules
    exact .inr hrules
  · rename_i rules _ hrules
    exact .inr hrules
  · exact .inl rfl

theorem send_keeps {d : String} {t : ListType} {exchange : Exchange} {request : Request} {w : World}
    (h : request.Spares d t w.pihole) :
    Keeps d t w.pihole (final (send exchange request w)).pihole := by
  rcases send_pihole exchange request w with hsame | happly
  · rw [hsame]
    exact Keeps.refl d t w.pihole
  · exact (apply_keeps_iff happly).mpr h

/-- A request the Pi-hole answers with an error had nothing to spare. -/
theorem spares_of_apply {d : String} {t : ListType} {rules : Rules} {request : Request}
    (h : request.apply rules = none) : request.Spares d t rules := by
  cases request with
  | add resource rule =>
    simp only [Request.apply] at h
    split at h <;> cases h
  | update resource rule =>
    intro hkey r hr
    simp only [Request.apply,hr] at h
    cases h
  | delete resource =>
    intro hkey
    cases hr : rules.lookup resource with
    | none => rfl
    | some r =>
      simp only [Request.apply,hr] at h
      cases h

theorem send_keeps_iff {d : String} {t : ListType} {exchange : Exchange} {request : Request}
    {w : World} (h : exchange.delivery = .answered) :
    Keeps d t w.pihole (final (send exchange request w)).pihole ↔ request.Spares d t w.pihole := by
  refine ⟨fun hkeeps => ?_,send_keeps⟩
  cases happly : request.apply w.pihole with
  | none => exact spares_of_apply happly
  | some rules =>
    simp only [send,h,happly] at hkeeps
    exact (apply_keeps_iff happly).mp hkeeps

@[simp] theorem recordPiholeChange_pihole (call : Call) (operation : Operation)
    (resource : Resource) (before after : Option Snapshot) (w : World) :
    (recordPiholeChange call operation resource before after w).pihole = w.pihole := by
  unfold recordPiholeChange
  cases call.auditFault <;> rfl

/-- The audit entry does not touch the Pi-hole. -/
theorem mutate_pihole (call : Call) (exchange : Exchange) (request : Request)
    (operation : Operation) (resource : Resource) (before after : Option Snapshot) (w : World) :
    (final (mutate call exchange request operation resource before after w)).pihole =
      (final (send exchange request w)).pihole := by
  unfold mutate
  cases send exchange request w with
  | ok _ w' => exact recordPiholeChange_pihole call operation resource before after w'
  | error fault w' => rfl

theorem send_queue (exchange : Exchange) (request : Request) (w : World) :
    (final (send exchange request w)).queue = w.queue := by
  unfold send
  split <;> rfl

theorem mutate_queue (call : Call) (exchange : Exchange) (request : Request)
    (operation : Operation) (resource : Resource) (before after : Option Snapshot) (w : World) :
    (final (mutate call exchange request operation resource before after w)).queue = w.queue := by
  have hsend := send_queue exchange request w
  unfold mutate
  cases hresult : send exchange request w with
  | ok _ w' =>
    rw [hresult] at hsend
    simp only [recordPiholeChange]
    cases call.auditFault <;> exact hsend
  | error fault w' =>
    rw [hresult] at hsend
    exact hsend

theorem addExactDomain_queue [CaseTables] (call : Call) (domain policy comment : String)
    (compatibilityOverride : Bool) (w : World) :
    (final (addExactDomain call domain policy comment compatibilityOverride w)).queue =
      w.queue := by
  simp only [addExactDomain]
  split
  · rfl
  · split
    · rfl
    · split
      · rfl
      · exact mutate_queue _ _ _ _ _ _ _ _

/-- What an addition leaves of the rules. -/
theorem addExactDomain_pihole [CaseTables] (call : Call) (domain policy comment : String)
    (compatibilityOverride : Bool) (w : World) :
    (final (addExactDomain call domain policy comment compatibilityOverride w)).pihole = w.pihole ∨
      ∃ t rule, Queue.parseListType policy = some t ∧
        (Request.add (.exactDomain t domain) rule).apply w.pihole =
          some (final (addExactDomain call domain policy comment compatibilityOverride w)).pihole := by
  simp only [addExactDomain]
  split
  · exact .inl rfl
  · rename_i t htype
    split
    · exact .inl rfl
    · split
      · exact .inl rfl
      · rw [mutate_pihole]
        exact (send_pihole _ _ _).imp id fun happly => ⟨t,_,htype,happly⟩

theorem lookup_add_ne {rules rules' : Rules} {resource other : Resource} {rule : Rule}
    (h : (Request.add resource rule).apply rules = some rules') (hne : other ≠ resource) :
    rules'.lookup other = rules.lookup other := by
  simp only [Request.apply] at h
  split at h
  · obtain rfl := Option.some.inj h
    exact AList.lookup_insert_ne hne
  · obtain rfl := Option.some.inj h
    rfl

/-! Which rules there are after an addition or a deletion. -/

theorem mem_of_add {rules rules' : Rules} {resource : Resource} {rule : Rule}
    (h : (Request.add resource rule).apply rules = some rules') (other : Resource) :
    other ∈ rules' ↔ other ∈ rules ∨ other = resource := by
  simp only [Request.apply] at h
  cases hr : rules.lookup resource with
  | none =>
    rw [hr] at h
    obtain rfl := Option.some.inj h
    rw [AList.mem_insert,or_comm]
  | some r =>
    rw [hr] at h
    obtain rfl := Option.some.inj h
    have hmem : resource ∈ rules := AList.lookup_isSome.mp (by simp [hr])
    refine ⟨.inl,fun hother => ?_⟩
    rcases hother with hother | rfl
    · exact hother
    · exact hmem

theorem mem_of_delete {rules rules' : Rules} {resource : Resource}
    (h : (Request.delete resource).apply rules = some rules') (other : Resource) :
    other ∈ rules' ↔ other ≠ resource ∧ other ∈ rules := by
  simp only [Request.apply] at h
  split at h
  · cases h
  · obtain rfl := Option.some.inj h
    exact AList.mem_erase

theorem send_ok {exchange : Exchange} {request : Request} {w w' : World} {a : Unit}
    (h : send exchange request w = .ok a w') : request.apply w.pihole = some w'.pihole := by
  simp only [send] at h
  split at h
  · rename_i hrules
    cases h
    exact hrules
  · cases h
  · cases h

theorem mutate_ok {call : Call} {exchange : Exchange} {request : Request} {operation : Operation}
    {resource : Resource} {before after : Option Snapshot} {w w' : World} {a : Unit}
    (h : mutate call exchange request operation resource before after w = .ok a w') :
    request.apply w.pihole = some w'.pihole := by
  simp only [mutate] at h
  cases hsend : send exchange request w with
  | error fault w₁ =>
    rw [hsend] at h
    cases h
  | ok _ w₁ =>
    rw [hsend] at h
    cases h
    rw [recordPiholeChange_pihole]
    exact send_ok hsend

/-- `add_exact_domain` gets as far as the Pi-hole. -/
structure Accepts [CaseTables] (call : Call) (domain : String) (t : ListType) (w : World) : Prop where
  unlocked : addConflict domain t w = none
  compatible : compatibilityConflict domain t false w = none
  sent : (call.exchange 0).delivery ≠ .unsent

theorem addExactDomain_mem [CaseTables] {call : Call} {domain policy comment : String}
    {t : ListType} {w : World} (htype : Queue.parseListType policy = some t) (other : Resource) :
    other ∈ (final (addExactDomain call domain policy comment false w)).pihole ↔
      other ∈ w.pihole ∨ other = .exactDomain t domain ∧ Accepts call domain t w := by
  simp only [addExactDomain,htype]
  cases hlock : addConflict domain t w with
  | some fault =>
    refine ⟨.inl,fun h => h.resolve_right fun hother => ?_⟩
    cases hlock.symm.trans hother.2.unlocked
  | none =>
    cases hprofile : compatibilityConflict domain t false w with
    | some fault =>
      refine ⟨.inl,fun h => h.resolve_right fun hother => ?_⟩
      cases hprofile.symm.trans hother.2.compatible
    | none =>
      dsimp only
      rw [mutate_pihole]
      obtain ⟨rules,happly⟩ : ∃ rules, (Request.add (.exactDomain t domain)
          ⟨comment,true,[]⟩).apply w.pihole = some rules := by
        simp only [Request.apply]
        split <;> exact ⟨_,rfl⟩
      have hmem := mem_of_add happly other
      cases hdelivery : (call.exchange 0).delivery with
      | unsent =>
        have hsame : (final (send (call.exchange 0)
            (.add (.exactDomain t domain) ⟨comment,true,[]⟩) w)).pihole = w.pihole := by
          simp only [send,hdelivery,happly]
          rfl
        rw [hsame]
        exact ⟨.inl,fun h => h.resolve_right fun hother => hother.2.sent hdelivery⟩
      | answered =>
        have haccepts : Accepts call domain t w := ⟨hlock,hprofile,by simp [hdelivery]⟩
        simp only [send,hdelivery,happly,final,hmem,haccepts,and_true]
      | unanswered =>
        have haccepts : Accepts call domain t w := ⟨hlock,hprofile,by simp [hdelivery]⟩
        simp only [send,hdelivery,happly,final,hmem,haccepts,and_true]

theorem addExactDomain_ok [CaseTables] {call : Call} {domain policy comment : String}
    {compatibilityOverride : Bool} {t : ListType} {w w' : World} {a : Unit}
    (htype : Queue.parseListType policy = some t)
    (h : addExactDomain call domain policy comment compatibilityOverride w = .ok a w')
    (other : Resource) :
    other ∈ w'.pihole ↔ other ∈ w.pihole ∨ other = .exactDomain t domain := by
  simp only [addExactDomain,htype] at h
  split at h
  · cases h
  · split at h
    · cases h
    · exact mem_of_add (mutate_ok h) other

theorem deleteExactDomain_ok [CaseTables] {call : Call} {domain domainType : String}
    {t : ListType} {w w' : World} {a : Unit} (htype : Queue.parseListType domainType = some t)
    (h : deleteExactDomain call domain domainType w = .ok a w') (other : Resource) :
    other ∈ w'.pihole ↔ other ≠ .exactDomain t domain ∧ other ∈ w.pihole := by
  simp only [deleteExactDomain,htype] at h
  split at h
  · split at h
    · cases h
    · exact mem_of_delete (mutate_ok h) other
  · exact mem_of_delete (mutate_ok h) other

/-! The promise of a lock, call by call. -/

theorem mutate_keeps {d : String} {t : ListType} {call : Call} {exchange : Exchange}
    {request : Request} {operation : Operation} {resource : Resource}
    {before after : Option Snapshot} {w : World} (h : request.Spares d t w.pihole) :
    Keeps d t w.pihole
      (final (mutate call exchange request operation resource before after w)).pihole := by
  rw [mutate_pihole]
  exact send_keeps h

/-- A second computation runs on what the first leaves behind, if it runs at all. -/
theorem bind_keeps {α β : Type} {d : String} {t : ListType} {rules : Rules} {x : Service α}
    {f : α → Service β} {w : World} (hx : Keeps d t rules (final (x w)).pihole)
    (hf : ∀ a w', Keeps d t rules w'.pihole → Keeps d t rules (final (f a w')).pihole) :
    Keeps d t rules (final ((x >>= f) w)).pihole := by
  change Keeps d t rules (final (EStateM.bind x f w)).pihole
  unfold EStateM.bind
  cases hresult : x w with
  | ok a w' =>
    rw [hresult] at hx
    exact hf a w' hx
  | error fault w' =>
    rw [hresult] at hx
    exact hx

theorem final_bind_pure {α β : Type} (x : Service α) (f : α → β) (w : World) :
    final ((x >>= fun a => pure (f a)) w) = final (x w) := by
  change final (EStateM.bind x (fun a => pure (f a)) w) = _
  unfold EStateM.bind
  cases x w <;> rfl

theorem refuse_keeps {α : Type} {d : String} {t : ListType} {fault : Fault} {w : World} :
    Keeps d t w.pihole (final (refuse fault w : EStateM.Result Fault World α)).pihole :=
  Keeps.refl d t w.pihole

end PiHole
end WormholeObservatory
