import WormholeObservatory.PiHoleInstances

/-! A registry of Pi-holes from memory to the file and the credential store and back. The entry in
use is looked up by its connection, so it comes back as the first entry with that connection. -/
namespace WormholeObservatory
namespace Instances

open Config (Vault always)
open Floats (PyFloat)
open JsonValues (Value ValueTexts field)

/-! Keys and rounds over them. -/

theorem instanceKey_inj {a b : String} (h : instanceKey a = instanceKey b) : a = b :=
  Config.between_inj h

def keyed (instances : List PiHoleInstance) : List String :=
  instances.map fun item => instanceKey item.instanceId

theorem nodup_keyed {instances : List PiHoleInstance}
    (h : (instances.map PiHoleInstance.instanceId).Nodup) : (keyed instances).Nodup := by
  rw [keyed,← Function.comp_def instanceKey PiHoleInstance.instanceId,← List.map_map]
  exact h.map fun a b => instanceKey_inj

theorem slots_keyed (instances : List PiHoleInstance) :
    (Slots.slotsOf instanceSlot PiHoleInstance.password instances).map Prod.fst = keyed instances := by
  simp [Slots.slotsOf,instanceSlot,keyed]

/-- The password a load gives an instance from a store that answers. -/
def hydrated (secrets : String → String) (item : PiHoleInstance) : PiHoleInstance :=
  item.withPassword (orElse (secrets (instanceKey item.instanceId)) item.password)

theorem hydrateSlot_reachable (n : ℕ) (vault : Vault) (copied : Bool) (key plaintext : String) :
    (Config.hydrateSlot always always n (vault,copied) key plaintext).1 =
        orElse (vault.secrets key) plaintext ∧
      (∀ k, k ≠ key →
        (Config.hydrateSlot always always n (vault,copied) key plaintext).2.1.secrets k =
          vault.secrets k) ∧
      (Config.hydrateSlot always always n (vault,copied) key plaintext).2.2 =
        (copied || decide (plaintext ≠ "")) := by
  by_cases hmissing : vault.secrets key = ""
  · by_cases hplain : plaintext = ""
    · simp [Config.hydrateSlot,Config.readSecret,always,hmissing,hplain,orElse]
    · simp only [Config.hydrateSlot,Config.readSecret,always,hmissing,orElse,Config.writeSecret,ne_eq,
        hplain,not_true_eq_false,not_false_eq_true,if_true,if_false,decide_true,Bool.or_true]
      exact ⟨trivial,fun k hk => Function.update_of_ne hk _ _,trivial⟩
  · simp [Config.hydrateSlot,Config.readSecret,always,hmissing,orElse]

theorem hydrate_reachable (instances : List PiHoleInstance) (n : ℕ) (vault : Vault) (copied : Bool)
    (hnodup : (keyed instances).Nodup) :
    (Slots.visitList instanceSlot PiHoleInstance.password PiHoleInstance.withPassword
        (Config.hydrateSlot always always) n (vault,copied) instances).1 =
      instances.map (hydrated vault.secrets) ∧
    (Slots.visitList instanceSlot PiHoleInstance.password PiHoleInstance.withPassword
        (Config.hydrateSlot always always) n (vault,copied) instances).2.2 =
      (copied || instances.any fun item => decide (item.password ≠ "")) := by
  induction instances generalizing n vault copied with
  | nil => exact ⟨rfl,by simp [Slots.visitList]⟩
  | cons item instances ih =>
    obtain ⟨hnew,hrest⟩ := List.nodup_cons.mp hnodup
    obtain ⟨hvalue,hothers,hflag⟩ :=
      hydrateSlot_reachable n vault copied (instanceKey item.instanceId) item.password
    set step := Config.hydrateSlot always always n (vault,copied) (instanceKey item.instanceId)
      item.password with hstep
    obtain ⟨hitems,hcopied⟩ := ih (n+1) step.2.1 step.2.2 hrest
    simp only [Slots.visitList,instanceSlot,← hstep]
    refine ⟨?_,?_⟩
    · rw [List.map_cons,hvalue]
      refine congrArg₂ List.cons rfl (hitems.trans (List.map_congr_left fun other hother => ?_))
      have hkey : instanceKey other.instanceId ≠ instanceKey item.instanceId := fun heq =>
        hnew (List.mem_map.mpr ⟨other,hother,heq⟩)
      rw [hydrated,hydrated,hothers _ hkey]
    · rw [List.any_cons,← Bool.or_assoc,← hflag]
      exact hcopied

theorem secure_reachable (instances : List PiHoleInstance) (n : ℕ) {vault : Vault}
    (hvault : Config.Undisturbed vault) (hnodup : (keyed instances).Nodup) :
    (Slots.visitList instanceSlot PiHoleInstance.password PiHoleInstance.withPassword
        (Config.secureSlot always) n vault instances).1 = instances.map (·.withPassword "") ∧
    (∀ k ∉ keyed instances, (Slots.visitList instanceSlot PiHoleInstance.password
        PiHoleInstance.withPassword (Config.secureSlot always) n vault instances).2.secrets k =
          vault.secrets k) ∧
    ∀ item ∈ instances, (Slots.visitList instanceSlot PiHoleInstance.password
        PiHoleInstance.withPassword (Config.secureSlot always) n vault instances).2.secrets
          (instanceKey item.instanceId) = item.password := by
  induction instances generalizing n vault with
  | nil => exact ⟨rfl,fun _ _ => rfl,by simp⟩
  | cons item instances ih =>
    obtain ⟨hnew,hrest⟩ := List.nodup_cons.mp hnodup
    obtain ⟨hblank,hsecrets,hnext⟩ :=
      Config.secureSlot_always n hvault (instanceKey item.instanceId) item.password
    obtain ⟨hitems,hothers,hstored⟩ := ih (n+1) hnext hrest
    simp only [Slots.visitList,instanceSlot]
    refine ⟨?_,fun k hk => ?_,fun other hother => ?_⟩
    · rw [hitems,hblank,List.map_cons]
    · rw [keyed,List.map_cons,List.mem_cons,not_or] at hk
      exact (hothers k hk.2).trans (by rw [hsecrets,Function.update_of_ne hk.1])
    · rcases List.mem_cons.mp hother with rfl | hother
      · exact (hothers _ hnew).trans (by rw [hsecrets,Function.update_self])
      · exact hstored other hother

theorem removeSecrets_other (accesses : Accesses) {removed : List String} {k : String}
    (hk : ∀ id ∈ removed, instanceKey id ≠ k) (vault : Vault) :
    (removeSecrets accesses removed vault).secrets k = vault.secrets k := by
  induction removed generalizing vault with
  | nil => rfl
  | cons id removed ih =>
    obtain ⟨hid,hrest⟩ := List.forall_mem_cons.mp hk
    refine (ih hrest _).trans ?_
    simp only [Config.deleteSecret]
    split
    · rfl
    · exact Function.update_of_ne hid.symm _ _

section Calls

variable [CaseTables] [ValueTexts]

/-- What `save_pihole_instances` checks of a registry. -/
structure Savable (r : PiHoleInstanceRegistry) : Prop where
  ids : "" ∉ r.instances.map (fun item => strip item.instanceId) ∧
    (r.instances.map fun item => strip item.instanceId).Nodup
  names : "" ∉ r.instances.map (fun item => CaseTables.casefold (strip item.name)) ∧
    (r.instances.map fun item => CaseTables.casefold (strip item.name)).Nodup
  active : r.activeInstanceId ∈ r.instances.map fun item => strip item.instanceId

theorem save_ok_iff {accesses : Accesses} {r : PiHoleInstanceRegistry} {w w' : World} :
    savePiholeInstances accesses r w = .ok () w' ↔ Savable r ∧
      ∃ existing, existingInstanceIds w.file = .ok existing ∧
        w' = {
          file := .decoded (.dict (registryPayload r.activeInstanceId
            (securePasswords accesses r.instances w.vault).1))
          vault := removeSecrets accesses
            (existing.filter (· ∉ r.instances.map fun item => strip item.instanceId))
            (securePasswords accesses r.instances w.vault).2 } := by
  simp only [savePiholeInstances]
  constructor
  · intro h
    split at h
    · cases h
    split at h
    · cases h
    rename_i hids
    split at h
    · cases h
    rename_i hnames
    split at h
    · cases h
    rename_i hactive
    split at h
    · cases h
    · rename_i existing hexisting
      rw [not_or,not_not] at hids hnames
      exact ⟨⟨hids,hnames,not_not.mp hactive⟩,existing,hexisting,by cases h; rfl⟩
  · rintro ⟨hsavable,existing,hexisting,rfl⟩
    have hsome : r.instances ≠ [] := by
      intro hnil
      have hactive := hsavable.active
      rw [hnil] at hactive
      exact List.not_mem_nil hactive
    rw [if_neg hsome,if_neg (by simpa only [not_or,not_not] using hsavable.ids),
      if_neg (by simpa only [not_or,not_not] using hsavable.names),
      if_neg (not_not.mpr hsavable.active)]
    simp only [hexisting]

theorem save_ok (accesses : Accesses) {r : PiHoleInstanceRegistry} (hsavable : Savable r)
    {file : RegistryFile} (hfile : ∃ existing, existingInstanceIds file = .ok existing) (vault : Vault) :
    ∃ w', savePiholeInstances accesses r ⟨file,vault⟩ = .ok () w' := by
  obtain ⟨existing,hexisting⟩ := hfile
  exact ⟨_,save_ok_iff.mpr ⟨hsavable,existing,hexisting,rfl⟩⟩

/-! The file that a save leaves. -/

/-- Fields that a load leaves as they are. -/
structure PiHoleInstance.WellFormed (item : PiHoleInstance) : Prop where
  instanceId : strip item.instanceId = item.instanceId
  name : strip item.name = item.name
  baseUrl : strip item.baseUrl = item.baseUrl ∧ item.baseUrl ≠ ""
  caBundlePath : strip item.caBundlePath = item.caBundlePath
  timeoutSec : PyFloat.le (.finite 1) item.timeoutSec = true

omit [CaseTables] in
/-- Reading what was written of an instance. -/
theorem normalizeInstance_payload {item : PiHoleInstance} (h : item.WellFormed)
    (hid : item.instanceId ≠ "") (hname : item.name ≠ "") {used : List String}
    (hused : item.instanceId ∉ used) (bits index : ℕ) :
    normalizeInstance bits (instancePayload item) index used = .ok item := by
  have htimeout : normalizeTimeout (.float item.timeoutSec) = .ok item.timeoutSec := by
    simp only [normalizeTimeout,Value.toFloat,PyFloat.max_of_le h.timeoutSec]
  have hblank : ∀ s : String, (if s = "" then "" else s) = s := by
    intro s
    split <;> simp_all
  have hfield : ∀ key x, (instancePayload item).lookup key = some x →
      field (instancePayload item) key = x := by
    intro key x hlookup
    simp only [field,hlookup,Option.getD_some]
  simp only [normalizeInstance,hfield "timeout_sec" _ rfl,hfield "instance_id" _ rfl,hfield "name" _ rfl,
    hfield "base_url" _ rfl,hfield "password" _ rfl,hfield "ca_bundle_path" _ rfl,htimeout,Value.textOr_str,hblank,h.instanceId,h.caBundlePath,
    if_neg hname,if_neg h.baseUrl.2,h.name,h.baseUrl.1,orElse,hid,hused,or_self,if_false]

omit [CaseTables] in
theorem normalizeInstances_payload (draws : ℕ → ℕ) {instances : List PiHoleInstance}
    (h : ∀ item ∈ instances, item.WellFormed ∧ item.instanceId ≠ "" ∧ item.name ≠ "")
    {used : List String} (hnodup : (instances.map PiHoleInstance.instanceId).Nodup)
    (hused : ∀ item ∈ instances, item.instanceId ∉ used) (index : ℕ) :
    normalizeInstances draws index used (instances.map fun item => .dict (instancePayload item)) =
      .ok instances := by
  induction instances generalizing used index with
  | nil => rfl
  | cons item instances ih =>
    obtain ⟨⟨hitem,hid,hname⟩,hrest⟩ := List.forall_mem_cons.mp h
    obtain ⟨hfree,hothers⟩ := List.forall_mem_cons.mp hused
    obtain ⟨hnew,hnodup⟩ := List.nodup_cons.mp hnodup
    have hused' : ∀ other ∈ instances, other.instanceId ∉ item.instanceId::used := by
      intro other hother hmem
      rcases List.mem_cons.mp hmem with heq | hmem
      · exact hnew (heq ▸ List.mem_map_of_mem hother)
      · exact hothers other hother hmem
    simp only [List.map_cons,normalizeInstances,normalizeInstance_payload hitem hid hname hfree,
      ih hrest hnodup hused' (index+1)]

omit [CaseTables] [ValueTexts] in
theorem items_list (items : List Value) : (Value.list items).orEmpty.items = some items := by
  cases items <;> rfl

omit [CaseTables] in
theorem existingInstanceIds_payload (activeId : String) (instances : List PiHoleInstance) :
    ∃ existing, existingInstanceIds (.decoded (.dict (registryPayload activeId instances))) =
      .ok existing := by
  have hitems : field (registryPayload activeId instances) "instances" =
      .list (instances.map fun item => .dict (instancePayload item)) := rfl
  simp only [existingInstanceIds,hitems,items_list]
  exact ⟨_,rfl⟩

omit [CaseTables] in
/-- Reading a registry file that was written. -/
theorem readRegistry_payload (draws : ℕ → ℕ) (options : PiHoleOptions) {activeId : String}
    {instances : List PiHoleInstance}
    (h : ∀ item ∈ instances, item.WellFormed ∧ item.instanceId ≠ "" ∧ item.name ≠ "")
    (hnodup : (instances.map PiHoleInstance.instanceId).Nodup) (hstrip : strip activeId = activeId)
    (hactive : activeId ∈ instances.map PiHoleInstance.instanceId) :
    readRegistry draws options (.decoded (.dict (registryPayload activeId instances))) =
      .ok (connect options activeId instances,false) := by
  have hversion : schemaVersion (registryPayload activeId instances) = .ok 2 := rfl
  have hitems : field (registryPayload activeId instances) "instances" =
      .list (instances.map fun item => .dict (instancePayload item)) := rfl
  have hstored : field (registryPayload activeId instances) "active_instance_id" = .str activeId := rfl
  have hsome : instances ≠ [] := by
    rintro rfl
    exact List.not_mem_nil hactive
  have htext : strip ((Value.str activeId).textOr "") = activeId := by
    rw [Value.textOr_str]
    split
    · simp_all
    · exact hstrip
  simp only [readRegistry,hversion,hitems,items_list,hstored,htext,if_neg hsome,if_pos hactive,
    normalizeInstances_payload draws h hnodup (fun _ _ => List.not_mem_nil) 0]
  rfl

omit [CaseTables] [ValueTexts] in
/-- Where no entry comes twice, updating the first match is updating the match. -/
theorem updateFirst_eq_map {α : Type} [DecidableEq α] {p : α → Bool} (f : α → α) {l : List α} {m : α}
    (hfind : l.find? p = some m) (hnodup : l.Nodup) :
    updateFirst p f l = l.map fun x => if x = m then f x else x := by
  induction l with
  | nil => simp at hfind
  | cons x xs ih =>
    obtain ⟨hnew,hnodup⟩ := List.nodup_cons.mp hnodup
    rw [updateFirst,List.map_cons]
    by_cases hx : p x = true
    · obtain rfl : x = m := by simpa [List.find?_cons_of_pos hx] using hfind
      rw [if_pos hx,if_pos rfl]
      refine congrArg _ ((List.map_id' xs).symm.trans (List.map_congr_left fun y hy => ?_))
      have hne : y ≠ x := fun heq => hnew (heq ▸ hy)
      rw [if_neg hne]
    · rw [List.find?_cons_of_neg hx] at hfind
      have hne : x ≠ m := fun heq => hx (heq ▸ List.find?_some hfind)
      rw [if_neg hx,if_neg hne,ih hfind hnodup]

/-! The round trip. -/

omit [ValueTexts] in
/-- What the checks of a save say of a registry with well-formed entries. -/
theorem Savable.plain {r : PiHoleInstanceRegistry} (hsavable : Savable r)
    (h : ∀ item ∈ r.instances, item.WellFormed) :
    (∀ item ∈ r.instances, item.WellFormed ∧ item.instanceId ≠ "" ∧ item.name ≠ "") ∧
      (r.instances.map PiHoleInstance.instanceId).Nodup ∧
      r.activeInstanceId ∈ r.instances.map PiHoleInstance.instanceId := by
  have hids : r.instances.map (fun item => strip item.instanceId) =
      r.instances.map PiHoleInstance.instanceId :=
    List.map_congr_left fun item hitem => (h item hitem).instanceId
  have hactive := hsavable.active
  obtain ⟨hblank,hnodup⟩ := hsavable.ids
  rw [hids] at hblank hnodup hactive
  refine ⟨fun item hitem => ⟨h item hitem,fun hid => hblank ?_,fun hname => hsavable.names.1 ?_⟩,
    hnodup,hactive⟩
  · exact hid ▸ List.mem_map_of_mem hitem
  · refine List.mem_map.mpr ⟨item,hitem,?_⟩
    rw [(h item hitem).name,hname]
    exact CaseTables.casefold_ascii "" (by simp)

omit [CaseTables] [ValueTexts] in
/-- Entries that differ at most in their passwords have the same ids, names and keys. -/
theorem map_withPassword {β : Type} {g : PiHoleInstance → β}
    (hg : ∀ item password, g (item.withPassword password) = g item) (f : PiHoleInstance → String)
    (instances : List PiHoleInstance) :
    (instances.map fun item => item.withPassword (f item)).map g = instances.map g := by
  rw [List.map_map]
  exact List.map_congr_left fun item _ => hg item (f item)

omit [CaseTables] [ValueTexts] in
/-- What `_read_registry` makes of entries without passwords. -/
theorem connect_blank {options : PiHoleOptions} {instances : List PiHoleInstance} {m : PiHoleInstance}
    (activeId : String) (hnodup : (instances.map PiHoleInstance.instanceId).Nodup)
    (hfind : instances.find? (sameConnection options) = some m) :
    connect options activeId (instances.map (·.withPassword "")) =
      ⟨m.instanceId,instances.map fun item =>
        item.withPassword (if item = m then options.password else "")⟩ := by
  have hblank : (instances.map (·.withPassword "")).Nodup := by
    have hids := map_withPassword (g := PiHoleInstance.instanceId) (fun _ _ => rfl) (fun _ => "") instances
    exact List.Nodup.of_map PiHoleInstance.instanceId (by rw [hids]; exact hnodup)
  have hfind' : (instances.map (·.withPassword "")).find? (sameConnection options) =
      some (m.withPassword "") := by
    rw [List.find?_map]
    exact congrArg (Option.map _) hfind
  simp only [connect,hfind']
  rw [updateFirst_eq_map _ hfind' hblank,List.map_map]
  refine congrArg _ (List.map_congr_left fun item hitem => ?_)
  have hsame : item.withPassword "" = m.withPassword "" ↔ item = m := by
    refine ⟨fun h => ?_,fun h => by rw [h]⟩
    have hid := congrArg PiHoleInstance.instanceId h
    exact List.inj_on_of_nodup_map hnodup hitem (List.mem_of_find?_eq_some hfind) hid
  simp only [Function.comp_apply,hsame]
  split
  · have hpassword : orElse options.password "" = options.password := by
      rw [orElse]
      split <;> simp_all
    exact congrArg item.withPassword hpassword
  · rfl

/-- A load after a save, where `m` is the first entry with the connection of the options. -/
theorem load_saved {r : PiHoleInstanceRegistry} {w w' : World} {m : PiHoleInstance}
    (hsave : savePiholeInstances reachable r w = .ok () w') (hvault : Config.Undisturbed w.vault)
    (hwell : ∀ item ∈ r.instances, item.WellFormed) (draws : ℕ → ℕ) (options : PiHoleOptions)
    (hfind : r.instances.find? (sameConnection options) = some m) :
    ∃ w'', loadPiholeInstances reachable draws options w' = .ok
      ⟨m.instanceId,r.instances.map fun item => item.withPassword
        (orElse item.password (if item = m then options.password else ""))⟩ w'' := by
  obtain ⟨hsavable,existing,hexisting,rfl⟩ := save_ok_iff.mp hsave
  obtain ⟨hplain,hnodup,hactive⟩ := hsavable.plain hwell
  obtain ⟨hblank,-,hstored⟩ := secure_reachable r.instances 0 hvault (nodup_keyed hnodup)
  have hids : ∀ f : PiHoleInstance → String, (r.instances.map fun item => item.withPassword (f item)).map
      PiHoleInstance.instanceId = r.instances.map PiHoleInstance.instanceId :=
    fun f => map_withPassword (fun _ _ => rfl) f _
  -- The file: the entries without passwords.
  have hread : readRegistry draws options (.decoded (.dict (registryPayload r.activeInstanceId
      (securePasswords reachable r.instances w.vault).1))) =
      .ok (⟨m.instanceId,r.instances.map fun item =>
        item.withPassword (if item = m then options.password else "")⟩,false) := by
    have hsecured : (securePasswords reachable r.instances w.vault).1 =
        r.instances.map (·.withPassword "") := hblank
    rw [hsecured,← connect_blank r.activeInstanceId hnodup hfind]
    refine readRegistry_payload draws options (fun item hitem => ?_) ?_ ?_ ?_
    · obtain ⟨item,hmem,rfl⟩ := List.mem_map.mp hitem
      obtain ⟨hitem,hid,hname⟩ := hplain item hmem
      exact ⟨⟨hitem.instanceId,hitem.name,hitem.baseUrl,hitem.caBundlePath,hitem.timeoutSec⟩,hid,hname⟩
    · rw [hids fun _ => ""]
      exact hnodup
    · obtain ⟨item,hmem,hid⟩ := List.mem_map.mp hactive
      rw [← hid,(hwell item hmem).instanceId]
    · rw [hids fun _ => ""]
      exact hactive
  -- The store: the passwords.
  set stored := removeSecrets reachable (existing.filter (· ∉ r.instances.map fun item =>
    strip item.instanceId)) (securePasswords reachable r.instances w.vault).2 with hvault'
  have hsecrets : ∀ item ∈ r.instances, stored.secrets (instanceKey item.instanceId) =
      item.password := by
    intro item hitem
    rw [hvault',removeSecrets_other reachable (fun id hid heq => ?_)]
    · exact hstored item hitem
    · have hremoved := (List.mem_filter.mp hid).2
      rw [decide_eq_true_eq,instanceKey_inj heq] at hremoved
      exact hremoved (List.mem_map.mpr ⟨item,hitem,(hwell item hitem).instanceId⟩)
  obtain ⟨hitems,-⟩ := hydrate_reachable (r.instances.map fun item =>
    item.withPassword (if item = m then options.password else "")) 0 stored false
    (nodup_keyed (by rw [hids]; exact hnodup))
  have hresult : (hydratePasswords reachable (r.instances.map fun item =>
      item.withPassword (if item = m then options.password else "")) stored).1 =
      r.instances.map fun item => item.withPassword
        (orElse item.password (if item = m then options.password else "")) := by
    refine hitems.trans ?_
    rw [List.map_map]
    refine List.map_congr_left fun item hitem => ?_
    show (item.withPassword _).withPassword _ = _
    rw [show (item.withPassword (if item = m then options.password else "")).instanceId =
      item.instanceId from rfl,hsecrets item hitem]
    rfl
  simp only [loadPiholeInstances,hread,hresult]
  split
  · have hagain : Savable ⟨m.instanceId,r.instances.map fun item => item.withPassword
        (orElse item.password (if item = m then options.password else ""))⟩ := by
      have hstrips := map_withPassword (g := fun item => strip item.instanceId) (fun _ _ => rfl)
        (fun item => orElse item.password (if item = m then options.password else "")) r.instances
      have hnames := map_withPassword (g := fun item => CaseTables.casefold (strip item.name))
        (fun _ _ => rfl) (fun item => orElse item.password (if item = m then options.password else ""))
        r.instances
      have hm := List.mem_of_find?_eq_some hfind
      refine ⟨by simp only [hstrips]; exact hsavable.ids,by simp only [hnames]; exact hsavable.names,?_⟩
      simp only [hstrips]
      exact List.mem_map.mpr ⟨m,hm,(hwell m hm).instanceId⟩
    obtain ⟨existing',hexisting'⟩ := existingInstanceIds_payload r.activeInstanceId
      (securePasswords reachable r.instances w.vault).1
    obtain ⟨w'',hsaved⟩ := save_ok reachable hagain ⟨_,hexisting'⟩
      (hydratePasswords reachable (r.instances.map fun item =>
        item.withPassword (if item = m then options.password else "")) stored).2.1
    exact ⟨w'',by rw [hsaved]⟩
  · exact ⟨_,rfl⟩

/-- A registry comes back from a load with the connection of its active entry. -/
def Returns (draws : ℕ → ℕ) (r : PiHoleInstanceRegistry) (a : PiHoleInstance) (w : World) : Prop :=
  ∃ r' w', loadPiholeInstances reachable draws (optionsFromInstance a) w = .ok r' w' ∧
    r'.instances = r.instances ∧ r'.activeInstanceId = r.activeInstanceId

omit [CaseTables] [ValueTexts] in
theorem active_mem {r : PiHoleInstanceRegistry} {a : PiHoleInstance} (h : r.active = .ok a)
    (hactive : r.activeInstanceId ∈ r.instances.map PiHoleInstance.instanceId) :
    a ∈ r.instances ∧ a.instanceId = r.activeInstanceId := by
  obtain ⟨item,hitem,hid⟩ := List.mem_map.mp hactive
  cases hfind : r.instances.find? (·.instanceId = r.activeInstanceId) with
  | none => simpa [hid] using List.find?_eq_none.mp hfind item hitem
  | some found =>
    obtain rfl : found = a := by simpa [PiHoleInstanceRegistry.active,hfind] using h
    exact ⟨List.mem_of_find?_eq_some hfind,by simpa using List.find?_some hfind⟩

omit [CaseTables] [ValueTexts] in
/-- An entry has the connection of its own options. -/
theorem PiHoleInstance.WellFormed.same {a : PiHoleInstance} (h : a.WellFormed) :
    sameConnection (optionsFromInstance a) a = true := by
  have htimeout := PyFloat.le_ne_nan h.timeoutSec
  simp [sameConnection,optionsFromInstance,h.baseUrl.1,h.caBundlePath,PyFloat.max_of_le h.timeoutSec,
    PyFloat.eq_self htimeout.2]

/-- A saved registry comes back exactly if no entry before the active one has its connection. -/
theorem returns_iff {r : PiHoleInstanceRegistry} {w w' : World} {a : PiHoleInstance}
    (hsave : savePiholeInstances reachable r w = .ok () w') (hvault : Config.Undisturbed w.vault)
    (hwell : ∀ item ∈ r.instances, item.WellFormed) (hactive : r.active = .ok a) (draws : ℕ → ℕ) :
    Returns draws r a w' ↔ r.instances.find? (sameConnection (optionsFromInstance a)) = some a := by
  obtain ⟨hsavable,-⟩ := save_ok_iff.mp hsave
  obtain ⟨-,hnodup,hid⟩ := hsavable.plain hwell
  obtain ⟨ha,haid⟩ := active_mem hactive hid
  obtain ⟨m,hfind⟩ : ∃ m, r.instances.find? (sameConnection (optionsFromInstance a)) = some m :=
    Option.isSome_iff_exists.mp (List.find?_isSome.mpr ⟨a,ha,(hwell a ha).same⟩)
  obtain ⟨v,hload⟩ := load_saved hsave hvault hwell draws (optionsFromInstance a) hfind
  rw [hfind,Option.some_inj]
  constructor
  · rintro ⟨r',v',hload',-,hsame⟩
    obtain ⟨rfl,-⟩ := EStateM.Result.ok.inj (hload.symm.trans hload')
    exact List.inj_on_of_nodup_map hnodup (List.mem_of_find?_eq_some hfind) ha (hsame.trans haid.symm)
  · rintro rfl
    refine ⟨_,v,hload,?_,haid⟩
    refine (List.map_congr_left fun item _ => ?_).trans (List.map_id' _)
    have hpassword : orElse item.password (if item = m then m.password else "") = item.password := by
      rw [orElse]
      split
      · rename_i hempty
        rw [hempty]
        split <;> simp_all
      · rfl
    exact congrArg item.withPassword hpassword

/-! Loading any file. -/

/-- The file is rewritten by a load: it is of an older schema, or a password is in plain text. -/
def Rewritten (options : PiHoleOptions) (fields : List (String × Value))
    (instances : List PiHoleInstance) : Prop :=
  schemaVersion fields ≠ .ok 2 ∨ (∃ item ∈ instances, item.password ≠ "") ∨
    options.password ≠ "" ∧ ((∃ item ∈ instances, sameConnection options item = true) ∨
      instances.length = 1)

/-- Ids, and names without regard to case, tell the entries apart. -/
def Distinct (instances : List PiHoleInstance) : Prop :=
  (instances.map PiHoleInstance.instanceId).Nodup ∧
    "" ∉ instances.map (fun item => CaseTables.casefold (strip item.name)) ∧
    (instances.map fun item => CaseTables.casefold (strip item.name)).Nodup

/-- What a registry file of a supported schema needs to be loaded. -/
structure Loadable (draws : ℕ → ℕ) (options : PiHoleOptions) (fields : List (String × Value)) :
    Prop where
  iterable : (field fields "instances").orEmpty.items.isSome = true
  timeouts : ∀ items, (field fields "instances").orEmpty.items = some items →
    ∀ entry, .dict entry ∈ items → (field entry "timeout_sec").toFloat ≠ .error .overflow
  distinct : ∀ items instances, (field fields "instances").orEmpty.items = some items →
    normalizeInstances draws 0 [] items = .ok instances → instances ≠ [] →
    Rewritten options fields instances → Distinct instances

/-- The schema of the file is supported. -/
def Supported (fields : List (String × Value)) : Prop :=
  ∃ version, schemaVersion fields = .ok version ∧ version ≤ 2

/-- A load of the file does not fail, whatever the store holds. -/
def Loads (draws : ℕ → ℕ) (options : PiHoleOptions) (fields : List (String × Value)) : Prop :=
  ∀ vault, ∃ r w, loadPiholeInstances reachable draws options ⟨.decoded (.dict fields),vault⟩ =
    .ok r w

/-! What the parts of a load do to ids, names and passwords. -/

omit [CaseTables] in
theorem normalizeInstance_ok_iff (bits index : ℕ) (fields : List (String × Value))
    (used : List String) :
    (∃ item, normalizeInstance bits fields index used = .ok item) ↔
      (field fields "timeout_sec").toFloat ≠ .error .overflow := by
  rw [normalizeInstance,normalizeTimeout]
  cases hfloat : (field fields "timeout_sec").toFloat with
  | ok timeout => simp
  | error e => cases e <;> simp

omit [CaseTables] in
theorem normalizeInstances_ok_iff (draws : ℕ → ℕ) (items : List Value) (index : ℕ)
    (used : List String) : (∃ instances, normalizeInstances draws index used items = .ok instances) ↔
      ∀ entry, .dict entry ∈ items → (field entry "timeout_sec").toFloat ≠ .error .overflow := by
  induction items generalizing index used with
  | nil => simp [normalizeInstances]
  | cons x items ih =>
    cases x with
    | dict fields =>
      have hfirst := normalizeInstance_ok_iff (draws index) index fields used
      simp only [List.mem_cons,Value.dict.injEq,forall_eq_or_imp]
      cases hitem : normalizeInstance (draws index) fields index used with
      | error e =>
        rw [← hfirst]
        simp [normalizeInstances,hitem]
      | ok item =>
        have hrest := ih (index+1) (item.instanceId::used)
        rw [← hrest,← hfirst]
        simp only [normalizeInstances,hitem]
        cases normalizeInstances draws (index+1) (item.instanceId::used) items <;> simp
    | _ => simp [normalizeInstances,ih]

/-- An id that a save takes as it is. -/
def PlainId (id : String) : Prop := strip id = id ∧ id ≠ ""

omit [CaseTables] [ValueTexts] in
theorem drawnId_plain (bits : ℕ) : PlainId (drawnId bits) := by
  have hdigits : ∀ d < 16, isSpace ("0123456789abcdef".toList.getD d '0') = false := by
    decide
  have hhex : ∀ c ∈ (hexText bits).toList, isSpace c = false := by
    intro c hc
    rw [hexText,String.toList_ofList] at hc
    obtain ⟨i,-,rfl⟩ := List.mem_map.mp hc
    exact hdigits _ (Nat.mod_lt _ (by norm_num))
  have hlist : (drawnId bits).toList = "pihole-".toList++(hexText bits).toList := by
    rw [drawnId,String.toList_append]
  have hlead : ∀ c ∈ "pihole-".toList, isSpace c = false := by
    decide
  have hplain : ∀ c ∈ (drawnId bits).toList, isSpace c = false := by
    intro c hc
    rw [hlist] at hc
    rcases List.mem_append.mp hc with hc | hc
    · exact hlead c hc
    · exact hhex c hc
  refine ⟨?_,fun hempty => ?_⟩
  · refine strip_eq_self_iff.mpr ⟨?_,?_⟩
    · rw [beginsIn,Option.any_eq_false]
      exact fun c hc => by simp [hplain c (List.mem_of_head? hc)]
    · rw [endsIn,Option.any_eq_false]
      exact fun c hc => by simp [hplain c (List.mem_of_getLast? hc)]
  · rw [hempty] at hlist
    simp at hlist

omit [CaseTables] in
theorem normalizeInstances_plain {draws : ℕ → ℕ} {items : List Value} {index : ℕ} {used : List String}
    {instances : List PiHoleInstance}
    (h : normalizeInstances draws index used items = .ok instances) :
    ∀ item ∈ instances, PlainId item.instanceId := by
  induction items generalizing index used instances with
  | nil =>
    obtain rfl := Except.ok.inj h
    simp
  | cons x items ih =>
    cases x with
    | dict fields =>
      simp only [normalizeInstances] at h
      split at h
      · cases h
      · rename_i first hfirst
        split at h
        · cases h
        · rename_i rest hrest
          obtain rfl := Except.ok.inj h
          refine List.forall_mem_cons.mpr ⟨?_,ih hrest⟩
          simp only [normalizeInstance] at hfirst
          split at hfirst
          · cases hfirst
          · obtain rfl := Except.ok.inj hfirst
            dsimp only
            split
            · exact drawnId_plain _
            · rename_i hconfigured
              exact ⟨strip_strip _,fun hempty => hconfigured (.inl hempty)⟩
    | _ => exact ih h

omit [CaseTables] [ValueTexts] in
theorem updateFirst_map {α β : Type} {p : α → Bool} {f : α → α} {g : α → β} (hg : ∀ x, g (f x) = g x)
    (l : List α) : (updateFirst p f l).map g = l.map g := by
  induction l with
  | nil => rfl
  | cons x xs ih =>
    rw [updateFirst]
    split
    · rw [List.map_cons,List.map_cons,hg]
    · rw [List.map_cons,List.map_cons,ih]

/-- A part of an entry that has nothing to do with its connection. -/
def Apart {β : Type} (g : PiHoleInstance → β) : Prop :=
  ∀ item url password bundle timeout,
    g ⟨item.instanceId,item.name,url,password,bundle,timeout⟩ = g item

omit [CaseTables] [ValueTexts] in
/-- Finding the active entry leaves ids and names as they are. -/
theorem connect_map {β : Type} {g : PiHoleInstance → β} (hg : Apart g) (options : PiHoleOptions)
    (activeId : String) (instances : List PiHoleInstance) :
    (connect options activeId instances).instances.map g = instances.map g := by
  unfold connect
  split
  · exact updateFirst_map (fun item => hg item item.baseUrl _ item.caBundlePath item.timeoutSec) _
  · split
    · rename_i item hnone
      rw [List.map_singleton,List.map_singleton]
      exact congrArg (fun x => [x]) (hg item _ _ _ _)
    · rfl

omit [CaseTables] [ValueTexts] in
theorem connect_active {options : PiHoleOptions} {activeId : String} {instances : List PiHoleInstance}
    (h : activeId ∈ instances.map PiHoleInstance.instanceId) :
    (connect options activeId instances).activeInstanceId ∈
      instances.map PiHoleInstance.instanceId := by
  unfold connect
  split
  · rename_i item hfind
    exact List.mem_map_of_mem (List.mem_of_find?_eq_some hfind)
  · split
    · exact h
    · exact h

omit [CaseTables] [ValueTexts] in
theorem orElse_ne_empty (s t : String) : orElse s t ≠ "" ↔ s ≠ "" ∨ t ≠ "" := by
  rw [orElse]
  split <;> simp_all

omit [CaseTables] [ValueTexts] in
theorem updateFirst_plaintext {p : PiHoleInstance → Bool} {password : String}
    {l : List PiHoleInstance} (h : ∃ item ∈ l, p item = true) :
    (∃ item ∈ updateFirst p (fun item => item.withPassword (orElse password item.password)) l,
      item.password ≠ "") ↔ (∃ item ∈ l, item.password ≠ "") ∨ password ≠ "" := by
  induction l with
  | nil => simp at h
  | cons x xs ih =>
    rw [updateFirst]
    by_cases hx : p x = true
    · rw [if_pos hx]
      simp only [List.exists_mem_cons_iff,PiHoleInstance.withPassword,orElse_ne_empty]
      rw [or_assoc,or_comm]
    · rw [if_neg hx]
      have hrest : ∃ item ∈ xs, p item = true :=
        ((List.exists_mem_cons_iff _ _ _).mp h).resolve_left hx
      simp only [List.exists_mem_cons_iff,ih hrest]
      exact or_assoc.symm

omit [CaseTables] [ValueTexts] in
/-- Where a password is in plain text after the active entry was found. -/
theorem connect_plaintext (options : PiHoleOptions) (activeId : String)
    (instances : List PiHoleInstance) :
    (∃ item ∈ (connect options activeId instances).instances, item.password ≠ "") ↔
      (∃ item ∈ instances, item.password ≠ "") ∨ options.password ≠ "" ∧
        ((∃ item ∈ instances, sameConnection options item = true) ∨ instances.length = 1) := by
  unfold connect
  cases hfind : instances.find? (sameConnection options) with
  | some item =>
    have hsome : ∃ item ∈ instances, sameConnection options item = true :=
      ⟨item,List.mem_of_find?_eq_some hfind,List.find?_some hfind⟩
    simp only [updateFirst_plaintext hsome,hsome,true_or,and_true]
  | none =>
    have hother : ¬ ∃ item ∈ instances, sameConnection options item = true := by
      rintro ⟨item,hitem,hsame⟩
      exact List.find?_eq_none.mp hfind item hitem hsame
    simp only [hother,false_or]
    split
    · simp [orElse_ne_empty,or_comm]
    · rename_i hmany
      have hlength : instances.length ≠ 1 := by
        intro hone
        obtain ⟨item,hitem⟩ := List.length_eq_one_iff.mp hone
        exact hmany item hitem
      simp only [hlength,and_false,or_false]

omit [CaseTables] [ValueTexts] in
theorem hydrate_copied (instances : List PiHoleInstance) (n : ℕ) (vault : Vault) (copied : Bool) :
    (Slots.visitList instanceSlot PiHoleInstance.password PiHoleInstance.withPassword
        (Config.hydrateSlot always always) n (vault,copied) instances).2.2 =
      (copied || instances.any fun item => decide (item.password ≠ "")) := by
  induction instances generalizing n vault copied with
  | nil => simp [Slots.visitList]
  | cons item instances ih =>
    obtain ⟨-,-,hflag⟩ :=
      hydrateSlot_reachable n vault copied (instanceKey item.instanceId) item.password
    simp only [Slots.visitList,instanceSlot]
    rw [List.any_cons,← Bool.or_assoc,← hflag]
    exact ih _ _ _

omit [ValueTexts] in
/-- Entries whose ids a save takes as they are: it checks that they are distinct. -/
theorem savable_iff {activeId : String} {instances : List PiHoleInstance}
    (hplain : ∀ item ∈ instances, PlainId item.instanceId)
    (hactive : activeId ∈ instances.map PiHoleInstance.instanceId) :
    Savable ⟨activeId,instances⟩ ↔ Distinct instances := by
  have hids : instances.map (fun item => strip item.instanceId) =
      instances.map PiHoleInstance.instanceId :=
    List.map_congr_left fun item hitem => (hplain item hitem).1
  constructor
  · rintro ⟨hids',hnames,-⟩
    exact ⟨hids ▸ hids'.2,hnames⟩
  · rintro ⟨hnodup,hnames⟩
    refine ⟨⟨?_,hids ▸ hnodup⟩,hnames,hids ▸ hactive⟩
    rw [hids]
    intro hblank
    obtain ⟨item,hitem,hid⟩ := List.mem_map.mp hblank
    exact (hplain item hitem).2 hid

/-- What is left of a load once the registry is read. -/
theorem load_read_iff {draws : ℕ → ℕ} {options : PiHoleOptions} {fields : List (String × Value)}
    {activeId : String} {instances : List PiHoleInstance} {shouldRewrite : Bool}
    (hread : readRegistry draws options (.decoded (.dict fields)) =
      .ok (connect options activeId instances,shouldRewrite))
    (hrewrite : shouldRewrite = true ↔ schemaVersion fields ≠ .ok 2)
    (hiterable : (field fields "instances").orEmpty.items.isSome = true)
    (hplain : ∀ item ∈ instances, PlainId item.instanceId)
    (hactive : activeId ∈ instances.map PiHoleInstance.instanceId) :
    Loads draws options fields ↔ (Rewritten options fields instances → Distinct instances) := by
  have hfile : ∃ existing, existingInstanceIds (.decoded (.dict fields)) = .ok existing := by
    obtain ⟨items,hitems⟩ := Option.isSome_iff_exists.mp hiterable
    simp only [existingInstanceIds,hitems]
    exact ⟨_,rfl⟩
  have hsame : ∀ {β : Type} {g : PiHoleInstance → β}, Apart g → ∀ vault,
      (hydratePasswords reachable (connect options activeId instances).instances vault).1.map g =
        instances.map g := by
    intro β g hg vault
    rw [← connect_map hg options activeId instances]
    exact Slots.visitList_forget instanceSlot _ PiHoleInstance.withPassword
      (fun item password => hg item item.baseUrl password item.caBundlePath item.timeoutSec) _ _ _ _
  have hrewritten : ∀ vault, (shouldRewrite = true ∨
      (hydratePasswords reachable (connect options activeId instances).instances vault).2.2 = true) ↔
        Rewritten options fields instances := by
    intro vault
    have hcopied : (hydratePasswords reachable (connect options activeId instances).instances
        vault).2.2 = true ↔ ∃ item ∈ (connect options activeId instances).instances,
          item.password ≠ "" := by
      have hflag := hydrate_copied (connect options activeId instances).instances 0 vault false
      rw [Bool.false_or] at hflag
      rw [show (hydratePasswords reachable (connect options activeId instances).instances vault).2.2 = _
        from hflag,List.any_eq_true]
      simp only [decide_eq_true_eq]
    rw [hcopied,connect_plaintext,hrewrite,Rewritten]
  have hsavable : ∀ vault, Savable ⟨(connect options activeId instances).activeInstanceId,
      (hydratePasswords reachable (connect options activeId instances).instances vault).1⟩ ↔
        Distinct instances := by
    intro vault
    have hids := hsame (g := PiHoleInstance.instanceId) (fun _ _ _ _ _ => rfl) vault
    have hnames := hsame (g := fun item => CaseTables.casefold (strip item.name))
      (fun _ _ _ _ _ => rfl) vault
    rw [savable_iff,Distinct,Distinct,hids,hnames]
    · intro item hitem
      have hmem : item.instanceId ∈ instances.map PiHoleInstance.instanceId :=
        hids ▸ List.mem_map_of_mem hitem
      obtain ⟨origin,horigin,hid⟩ := List.mem_map.mp hmem
      exact hid ▸ hplain origin horigin
    · rw [hids]
      exact connect_active hactive
  constructor
  · intro hloads hneeded
    obtain ⟨r,w,hload⟩ := hloads ⟨fun _ => "",fun _ => none⟩
    simp only [loadPiholeInstances,hread] at hload
    rw [if_pos ((hrewritten _).mpr hneeded)] at hload
    split at hload
    · rename_i hsaved
      exact (hsavable _).mp (save_ok_iff.mp hsaved).1
    · cases hload
  · intro hdistinct vault
    simp only [loadPiholeInstances,hread]
    by_cases hneeded : Rewritten options fields instances
    · obtain ⟨w,hsaved⟩ := save_ok reachable ((hsavable vault).mpr (hdistinct hneeded)) hfile
        (hydratePasswords reachable (connect options activeId instances).instances vault).2.1
      rw [if_pos ((hrewritten vault).mpr hneeded),hsaved]
      exact ⟨_,w,rfl⟩
    · rw [if_neg (fun h => hneeded ((hrewritten vault).mp h))]
      exact ⟨_,_,rfl⟩

omit [ValueTexts] in
theorem distinct_first (bits : ℕ) (options : PiHoleOptions) :
    Distinct [instanceFromOptions bits options] := by
  have hname : CaseTables.casefold (strip "Primary Pi-hole") = "primary pi-hole" := by
    rw [CaseTables.casefold_ascii _ (by decide)]
    decide
  refine ⟨List.nodup_singleton _,?_,List.nodup_singleton _⟩
  simp [instanceFromOptions,hname]

/-- A registry file of a supported schema can be loaded exactly if it is loadable. -/
theorem loads_iff (draws : ℕ → ℕ) (options : PiHoleOptions) {fields : List (String × Value)}
    (hsupported : Supported fields) :
    Loads draws options fields ↔ Loadable draws options fields := by
  obtain ⟨version,hversion,hle⟩ := hsupported
  have hnew : ¬ 2 < version := not_lt.mpr hle
  cases hitems : (field fields "instances").orEmpty.items with
  | none =>
    constructor
    · intro h
      obtain ⟨r,w,hload⟩ := h ⟨fun _ => "",fun _ => none⟩
      simp [loadPiholeInstances,readRegistry,hversion,hnew,hitems] at hload
    · intro h
      simpa [hitems] using h.iterable
  | some items =>
    cases hfound : normalizeInstances draws 0 [] items with
    | error e =>
      constructor
      · intro h
        obtain ⟨r,w,hload⟩ := h ⟨fun _ => "",fun _ => none⟩
        simp [loadPiholeInstances,readRegistry,hversion,hnew,hitems,hfound] at hload
      · intro h
        obtain ⟨found,hok⟩ := (normalizeInstances_ok_iff draws items 0 []).mpr (h.timeouts items hitems)
        rw [hfound] at hok
        cases hok
    | ok found =>
      set instances := if found = [] then [instanceFromOptions (draws 0) options] else found
        with hinstances
      set activeId := if strip ((field fields "active_instance_id").textOr "") ∈
          instances.map PiHoleInstance.instanceId
        then strip ((field fields "active_instance_id").textOr "")
        else (instances.head?.map PiHoleInstance.instanceId).getD "" with hactiveId
      have hread : readRegistry draws options (.decoded (.dict fields)) =
          .ok (connect options activeId instances,decide (version ≠ 2)) := by
        simp only [readRegistry,hversion,if_neg hnew,hitems,hfound,← hinstances,← hactiveId]
      have hplain : ∀ item ∈ instances, PlainId item.instanceId := by
        rw [hinstances]
        split
        · exact List.forall_mem_singleton.mpr (drawnId_plain _)
        · exact normalizeInstances_plain hfound
      have hsome : instances ≠ [] := by
        rw [hinstances]
        split
        · exact List.cons_ne_nil _ _
        · assumption
      have hactive : activeId ∈ instances.map PiHoleInstance.instanceId := by
        rw [hactiveId]
        split
        · assumption
        · obtain ⟨item,rest,hlist⟩ := List.exists_cons_of_ne_nil hsome
          rw [hlist]
          exact List.mem_cons_self
      have hrewrite : decide (version ≠ 2) = true ↔ schemaVersion fields ≠ .ok 2 := by
        simp [hversion]
      rw [load_read_iff hread hrewrite (by rw [hitems]; rfl) hplain hactive]
      constructor
      · intro h
        refine ⟨by rw [hitems]; rfl,fun items' hitems' => ?_,fun items' found' hitems' hfound' hne => ?_⟩
        · obtain rfl := Option.some.inj (hitems.symm.trans hitems')
          exact (normalizeInstances_ok_iff draws items 0 []).mp ⟨found,hfound⟩
        · obtain rfl := Option.some.inj (hitems.symm.trans hitems')
          obtain rfl := Except.ok.inj (hfound.symm.trans hfound')
          have hsame : instances = found := if_neg hne
          rwa [hsame] at h
      · intro h hneeded
        by_cases hnone : found = []
        · have hsame : instances = [instanceFromOptions (draws 0) options] := if_pos hnone
          rw [hsame]
          exact distinct_first (draws 0) options
        · have hsame : instances = found := if_neg hnone
          rw [hsame] at hneeded ⊢
          exact h.distinct items found hitems hfound hnone hneeded

/-- For a store that answers: a saved registry comes back exactly if no entry before the active one
has its connection, and a file can be loaded exactly if it is loadable. -/
theorem instance_registry_iff (draws : ℕ → ℕ) :
    (∀ (r : PiHoleInstanceRegistry) (a : PiHoleInstance) (w w' : World),
      Config.Undisturbed w.vault → savePiholeInstances reachable r w = .ok () w' →
      (∀ item ∈ r.instances, item.WellFormed) → r.active = .ok a →
      (Returns draws r a w' ↔
        r.instances.find? (sameConnection (optionsFromInstance a)) = some a)) ∧
    ∀ (options : PiHoleOptions) (fields : List (String × Value)), Supported fields →
      (Loads draws options fields ↔ Loadable draws options fields) :=
  ⟨fun _ _ _ _ hvault hsave hwell hactive => returns_iff hsave hvault hwell hactive draws,
    fun options _ hsupported => loads_iff draws options hsupported⟩

end Calls

/-! Two Pi-holes behind one address. -/

def emptyWorld : World := ⟨.missing,⟨fun _ => "",fun _ => none⟩⟩

theorem emptyWorld_undisturbed : Config.Undisturbed emptyWorld.vault := fun _ => by simp [emptyWorld]

def home : PiHoleInstance := ⟨"home","Home","http://pi.hole","","",.finite 10⟩

def office : PiHoleInstance := ⟨"office","Office","http://pi.hole","office-secret","",.finite 10⟩

theorem home_wellFormed : home.WellFormed := by
  constructor <;> decide

theorem office_wellFormed : office.WellFormed := by
  constructor <;> decide

def pair : PiHoleInstanceRegistry := ⟨"office",[home,office]⟩

/-- A file of the first schema with two entries of one name. -/
def clashing : List (String × Value) :=
  [("schema_version",.int 1),("instances",.list [.dict [("name",.str "Home")],
    .dict [("name",.str "home")]])]

/-- The other entry becomes active and takes the password; and a load that rewrites a file with
names that clash fails. -/
theorem shared_connection_confused :
    (∃ w', savePiholeInstances reachable pair emptyWorld = .ok () w' ∧ pair.active = .ok office ∧
      (∀ item ∈ pair.instances, item.WellFormed) ∧
      (∃ w'', loadPiholeInstances reachable (fun _ => 0) (optionsFromInstance office) w' =
        .ok ⟨"home",[home.withPassword "office-secret",office]⟩ w'') ∧
      ¬ Returns (fun _ => 0) pair office w') ∧
    Supported clashing ∧ ¬ Loads id {} clashing := by
  have hsavable : Savable pair := ⟨by decide,by decide,by decide⟩
  have hfile : ∃ existing, existingInstanceIds .missing = .ok existing := ⟨[],rfl⟩
  obtain ⟨w',hsave⟩ := save_ok reachable hsavable hfile emptyWorld.vault
  have hwell : ∀ item ∈ pair.instances, item.WellFormed := by
    simp only [pair,List.mem_cons,List.not_mem_nil,or_false]
    rintro item (rfl | rfl)
    · exact home_wellFormed
    · exact office_wellFormed
  have hfirst : pair.instances.find? (sameConnection (optionsFromInstance office)) = some home := by
    decide
  have hactive : pair.active = .ok office := by decide
  obtain ⟨w'',hload⟩ := load_saved hsave emptyWorld_undisturbed hwell (fun _ => 0)
    (optionsFromInstance office) hfirst
  refine ⟨⟨w',hsave,hactive,hwell,⟨w'',hload.trans rfl⟩,fun h => ?_⟩,⟨1,rfl,by norm_num⟩,fun h => ?_⟩
  · have hsame := (returns_iff hsave emptyWorld_undisturbed hwell hactive _).mp h
    rw [hfirst] at hsame
    exact absurd hsame (by decide)
  · have hfound : normalizeInstances id 0 [] [.dict [("name",.str "Home")],.dict [("name",.str "home")]] =
        .ok [⟨drawnId 0,"Home","http://pi.hole","","",.finite 10⟩,
          ⟨drawnId 1,"home","http://pi.hole","","",.finite 10⟩] := by
      decide
    have hdistinct := ((loads_iff id {} ⟨1,rfl,by norm_num⟩).mp h).distinct _ _ rfl hfound
      (List.cons_ne_nil _ _) (.inl (by decide))
    exact absurd hdistinct.2.2 (by decide)

/-- One Pi-hole comes back, and an empty file can be loaded. -/
theorem instance_registry_iff_lone :
    (∃ w', savePiholeInstances reachable ⟨"office",[office]⟩ emptyWorld = .ok () w' ∧
      Returns (fun _ => 0) ⟨"office",[office]⟩ office w') ∧ Loads (fun _ => 0) {} [] := by
  have hsavable : Savable ⟨"office",[office]⟩ := ⟨by decide,by decide,by decide⟩
  have hfile : ∃ existing, existingInstanceIds .missing = .ok existing := ⟨[],rfl⟩
  obtain ⟨w',hsave⟩ := save_ok reachable hsavable hfile emptyWorld.vault
  obtain ⟨hreturns,hloads⟩ := instance_registry_iff fun _ => 0
  refine ⟨⟨w',hsave,(hreturns _ _ _ _ emptyWorld_undisturbed hsave ?_ rfl).mpr (by decide)⟩,
    (hloads {} [] ⟨0,rfl,by norm_num⟩).mpr ⟨rfl,?_,?_⟩⟩
  · exact List.forall_mem_singleton.mpr office_wellFormed
  · rintro items hitems
    obtain rfl := Option.some.inj hitems
    simp
  · rintro items instances hitems hfound hne
    obtain rfl := Option.some.inj hitems
    exact absurd (Except.ok.inj hfound).symm hne

end Instances
end WormholeObservatory
