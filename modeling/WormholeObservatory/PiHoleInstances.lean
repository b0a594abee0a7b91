import WormholeObservatory.ConfigRoundTrip
import WormholeObservatory.JsonValues

/-! The named Pi-holes: the registry file with a password a name, most of them in the credential
store. On load the entry in use is found again by its connection. -/
namespace WormholeObservatory
namespace Instances

open Config (Vault always)
open Floats (PyFloat)
open JsonValues (Value ValueTexts field)

structure PiHoleInstance where
  instanceId : String
  name : String
  baseUrl : String
  password : String
  caBundlePath : String
  timeoutSec : PyFloat
  deriving DecidableEq

structure PiHoleInstanceRegistry where
  activeInstanceId : String
  instances : List PiHoleInstance
  deriving DecidableEq

/-- The connection options; here a timeout need not be finite. -/
structure PiHoleOptions where
  baseUrl : String := "http://pi.hole"
  password : String := ""
  caBundlePath : String := ""
  timeoutSec : PyFloat := .finite 10

inductive InstanceError
  | value (message : String)
  | runtime (message : String)
  | type
  | overflow
  | undecodable
  deriving DecidableEq

/-- `pihole_instances.json`. What `json.loads` or the decoding of the bytes raises is a
`JSONDecodeError` (unreadable) or another error (undecodable). -/
inductive RegistryFile
  | missing
  | unreadable
  | undecodable
  | decoded (content : Value)

structure World where
  file : RegistryFile
  vault : Vault

/-- What the credential store answers: to reads and copies of a load, to the accesses of a save by
the place of the instance, and to the removals by key. -/
structure Accesses where
  reads : ℕ → Bool
  writes : ℕ → Bool
  answers : ℕ → Bool
  removals : String → Bool

def reachable : Accesses := ⟨always,always,always,fun _ => true⟩

/-- A call that raises keeps what it has done so far. -/
abbrev Task := EStateM InstanceError World

/-- `PiHoleInstanceRegistry.active`. -/
def PiHoleInstanceRegistry.active (r : PiHoleInstanceRegistry) : Except InstanceError PiHoleInstance :=
  match r.instances.find? (·.instanceId = r.activeInstanceId), r.instances with
  | some item,_ => .ok item
  | none,[] => .error (.runtime "Pi-hole instance registry is empty")
  | none,item::_ => .ok item

def optionsFromInstance (item : PiHoleInstance) : PiHoleOptions :=
  ⟨item.baseUrl,item.password,item.caBundlePath,item.timeoutSec⟩

/-- `uuid4().hex` of 128 drawn bits. -/
def hexText (bits : ℕ) : String :=
  String.ofList ((List.range 32).map fun i =>
    "0123456789abcdef".toList.getD (bits/16^(31-i)%16) '0')

def drawnId (bits : ℕ) : String := "pihole-"++hexText bits

/-- `instance_from_options`, with the default name. -/
def instanceFromOptions (bits : ℕ) (options : PiHoleOptions) : PiHoleInstance where
  instanceId := drawnId bits
  name := "Primary Pi-hole"
  baseUrl := strip (orElse options.baseUrl "http://pi.hole")
  password := options.password
  caBundlePath := strip options.caBundlePath
  timeoutSec := PyFloat.max (.finite 1) options.timeoutSec

def instanceKey (instanceId : String) : String := "pihole-instance/"++instanceId++"/password"

def PiHoleInstance.withPassword (item : PiHoleInstance) (password : String) : PiHoleInstance :=
  { item with password := password }

/-! The store. -/

def instanceSlot (item : PiHoleInstance) : Option String := some (instanceKey item.instanceId)

/-- The loop of `load_pihole_instances` over `_hydrate_password`, which treats an instance as
`hydrate_credentials` does a slot. -/
def hydratePasswords (accesses : Accesses) (instances : List PiHoleInstance) (vault : Vault) :
    List PiHoleInstance × (Vault × Bool) :=
  Slots.visitList instanceSlot PiHoleInstance.password PiHoleInstance.withPassword
    (Config.hydrateSlot accesses.reads accesses.writes) 0 (vault,false) instances

/-- The loop of `save_pihole_instances` over the instances, which treats one as
`secure_options_payload` does a slot. -/
def securePasswords (accesses : Accesses) (instances : List PiHoleInstance) (vault : Vault) :
    List PiHoleInstance × Vault :=
  Slots.visitList instanceSlot PiHoleInstance.password PiHoleInstance.withPassword
    (Config.secureSlot accesses.answers) 0 vault instances

/-- The deletions at the end of `save_pihole_instances`. -/
def removeSecrets (accesses : Accesses) (removed : List String) (vault : Vault) : Vault :=
  removed.foldl (fun vault id =>
    (Config.deleteSecret (accesses.removals (instanceKey id)) (instanceKey id) vault).2) vault

/-! The file. -/

/-- `asdict` of an instance. -/
def instancePayload (item : PiHoleInstance) : List (String × Value) :=
  [("instance_id",.str item.instanceId),("name",.str item.name),("base_url",.str item.baseUrl),
    ("password",.str item.password),("ca_bundle_path",.str item.caBundlePath),
    ("timeout_sec",.float item.timeoutSec)]

def registryPayload (activeInstanceId : String) (instances : List PiHoleInstance) :
    List (String × Value) :=
  [("schema_version",.int 2),("active_instance_id",.str activeInstanceId),
    ("instances",.list (instances.map fun item => .dict (instancePayload item)))]

section Calls

variable [CaseTables] [ValueTexts]

/-- `_existing_instance_ids`. -/
def existingInstanceIds : RegistryFile → Except InstanceError (List String)
  | .decoded (.dict fields) =>
    match (field fields "instances").orEmpty.items with
    | none => .error .type
    | some items =>
      let ids := items.filterMap fun item =>
        match item with
        | .dict fields => some (strip ((field fields "instance_id").textOr ""))
        | _ => none
      .ok ((ids.filter (· ≠ "")).eraseDups)
  | .undecodable => .error .undecodable
  | _ => .ok []

/-- `save_pihole_instances`. -/
def savePiholeInstances (accesses : Accesses) (registry : PiHoleInstanceRegistry) : Task Unit := fun w =>
  let ids := registry.instances.map fun item => strip item.instanceId
  let names := registry.instances.map fun item => CaseTables.casefold (strip item.name)
  if registry.instances = [] then .error (.value "At least one Pi-hole instance is required") w
  else if "" ∈ ids ∨ ¬ ids.Nodup then
    .error (.value "Pi-hole instance IDs must be non-empty and unique") w
  else if "" ∈ names ∨ ¬ names.Nodup then
    .error (.value "Pi-hole instance names must be non-empty and unique") w
  else if registry.activeInstanceId ∉ ids then
    .error (.value "Active Pi-hole instance is not present in the registry") w
  else
    let secured := securePasswords accesses registry.instances w.vault
    match existingInstanceIds w.file with
    | .error e => .error e { w with vault := secured.2 }
    | .ok existing =>
      .ok () {
        file := .decoded (.dict (registryPayload registry.activeInstanceId secured.1))
        vault := removeSecrets accesses (existing.filter (· ∉ ids)) secured.2 }

/-- `max(1.0, float(x))`, and 10 for what is no number. -/
def normalizeTimeout (x : Value) : Except InstanceError PyFloat :=
  match x.toFloat with
  | .ok timeout => .ok (PyFloat.max (.finite 1) timeout)
  | .error .overflow => .error .overflow
  | .error _ => .ok (.finite 10)

/-- `_normalize_instance`; `bits` are those it may draw an id from. -/
def normalizeInstance (bits : ℕ) (fields : List (String × Value)) (index : ℕ) (used : List String) :
    Except InstanceError PiHoleInstance :=
  let configured := strip ((field fields "instance_id").textOr "")
  let unnamed := "Pi-hole "++toString (index+1)
  match normalizeTimeout (field fields "timeout_sec") with
  | .error e => .error e
  | .ok timeoutSec =>
    .ok {
      instanceId := if configured = "" ∨ configured ∈ used then drawnId bits else configured
      name := orElse (strip ((field fields "name").textOr unnamed)) unnamed
      baseUrl := orElse (strip ((field fields "base_url").textOr "http://pi.hole")) "http://pi.hole"
      password := (field fields "password").textOr ""
      caBundlePath := strip ((field fields "ca_bundle_path").textOr "")
      timeoutSec := timeoutSec }

/-- The instances of the file. Entries that are no objects count for the place. -/
def normalizeInstances (draws : ℕ → ℕ) : ℕ → List String → List Value →
    Except InstanceError (List PiHoleInstance)
  | _,_,[] => .ok []
  | index,used,.dict fields::rest =>
    match normalizeInstance (draws index) fields index used with
    | .error e => .error e
    | .ok item =>
      match normalizeInstances draws (index+1) (item.instanceId::used) rest with
      | .error e => .error e
      | .ok items => .ok (item::items)
  | index,used,_::rest => normalizeInstances draws (index+1) used rest

/-- `int(raw.get("schema_version") or 0)`, and 0 for what is no number. -/
def schemaVersion (fields : List (String × Value)) : Except InstanceError ℤ :=
  let x := field fields "schema_version"
  match (if x.truthy then x else .int 0).toInt with
  | .ok version => .ok version
  | .error .overflow => .error .overflow
  | .error _ => .ok 0

/-- The instance has the connection that the options describe. -/
def sameConnection (options : PiHoleOptions) (item : PiHoleInstance) : Bool :=
  decide (item.baseUrl = strip options.baseUrl) &&
    decide (item.caBundlePath = strip options.caBundlePath) &&
    PyFloat.eq item.timeoutSec (PyFloat.max (.finite 1) options.timeoutSec)

def updateFirst {α : Type} (p : α → Bool) (f : α → α) : List α → List α
  | [] => []
  | x::xs => if p x then f x::xs else x::updateFirst p f xs

/-- The end of `_read_registry`: the instance with the connection of the options is the active one
and takes their password; a single instance takes all of them. -/
def connect (options : PiHoleOptions) (activeId : String) (instances : List PiHoleInstance) :
    PiHoleInstanceRegistry :=
  match instances.find? (sameConnection options) with
  | some item => {
      activeInstanceId := item.instanceId
      instances := updateFirst (sameConnection options)
        (fun item => item.withPassword (orElse options.password item.password)) instances }
  | none =>
    match instances with
    | [item] => {
        activeInstanceId := activeId
        instances := [{ item with
          baseUrl := orElse (strip options.baseUrl) item.baseUrl
          password := orElse options.password item.password
          caBundlePath := strip options.caBundlePath
          timeoutSec := PyFloat.max (.finite 1) options.timeoutSec }] }
    | instances => ⟨activeId,instances⟩

/-- `_read_registry`: the registry, and whether its file is to be rewritten. -/
def readRegistry (draws : ℕ → ℕ) (options : PiHoleOptions) (file : RegistryFile) :
    Except InstanceError (PiHoleInstanceRegistry × Bool) :=
  let first := instanceFromOptions (draws 0) options
  match file with
  | .undecodable => .error .undecodable
  | .decoded (.dict fields) =>
    match schemaVersion fields with
    | .error e => .error e
    | .ok version =>
      if 2 < version then
        .error (.runtime ("Pi-hole instance registry was created by a newer application version "++
          "(schema "++toString version++"; supported up to 2)."))
      else
        match (field fields "instances").orEmpty.items with
        | none => .error .type
        | some items =>
          match normalizeInstances draws 0 [] items with
          | .error e => .error e
          | .ok found =>
            let instances := if found = [] then [first] else found
            let stored := strip ((field fields "active_instance_id").textOr "")
            let activeId := if stored ∈ instances.map PiHoleInstance.instanceId then stored
              else (instances.head?.map PiHoleInstance.instanceId).getD ""
            .ok (connect options activeId instances,decide (version ≠ 2))
  | _ => .ok (⟨first.instanceId,[first]⟩,true)

/-- `load_pihole_instances`. A file that is missing is rewritten in any case. -/
def loadPiholeInstances (accesses : Accesses) (draws : ℕ → ℕ) (options : PiHoleOptions) :
    Task PiHoleInstanceRegistry := fun w =>
  match readRegistry draws options w.file with
  | .error e => .error e w
  | .ok (registry,shouldRewrite) =>
    let hydrated := hydratePasswords accesses registry.instances w.vault
    let registry := { registry with instances := hydrated.1 }
    let w := { w with vault := hydrated.2.1 }
    if shouldRewrite ∨ hydrated.2.2 then
      match savePiholeInstances accesses registry w with
      | .ok _ w => .ok registry w
      | .error e w => .error e w
    else .ok registry w

end Calls

end Instances
end WormholeObservatory
