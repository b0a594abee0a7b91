import WormholeObservatory.CredentialSlots
import WormholeObservatory.Runs

/-! Credentials over the loads and saves of any number of processes. A text that a save carries is to
be kept until a save carries one for the same slot that the user has changed. It is kept as long as
saves carry what they should for the slots the user has not changed, the store takes what it is given
or has nothing older, and the file can be read. -/
namespace WormholeObservatory
namespace Config

/-- What a process has loaded, and what the user has made of it. -/
structure Hand where
  loaded : Options
  options : Options

/-- What a process remembers: `_READ_STATES` and the options it works with. -/
structure Process where
  readStates : String → Option CredentialReadState
  hand : Option Hand

/-- The file, the store and the processes, with the text that is to be kept for each key. -/
structure Sessions where
  file : OptionsFile
  secrets : String → String
  processes : ℕ → Process
  kept : String → String

/-- What may happen: the calls of the processes, edits of secret fields (by the places of the slots),
and what becomes of the file and of processes otherwise. -/
inductive Call
  | load (p : ℕ) (opens : Bool) (draws : ℕ → String) (accesses : Accesses)
  | edit (p : ℕ) (values : ℕ → String)
  | save (p : ℕ) (draws : ℕ → String) (answers : ℕ → Bool)
  | spoil (gone : Bool)
  | restart (p : ℕ)

/-- The file as a load sees it that may fail to open it. -/
def OptionsFile.seen (opens : Bool) : OptionsFile → OptionsFile
  | .missing => .missing
  | .unreadable => .unreadable
  | .stored payload => if opens then .stored payload else .unreadable

/-- The file that a call leaves; what it cannot read it leaves alone. -/
def OptionsFile.left (before : OptionsFile) : OptionsFile → OptionsFile
  | .missing => .missing
  | .unreadable => before
  | .stored payload => .stored payload

section Calls

variable [LetterTables]

namespace Hand

def edit (values : ℕ → String) (h : Hand) : Hand :=
  { h with options := (visitSecrets (fun n (_ : Unit) _ _ => (values n,())) () h.options).1 }

/-- The user has changed a slot of this key. -/
def Changed (h : Hand) (k : String) : Prop :=
  ∃ e ∈ credentialSlots h.options, e.1 = k ∧ e ∉ credentialSlots h.loaded

instance (h : Hand) (k : String) : Decidable (h.Changed k) :=
  inferInstanceAs (Decidable (∃ e ∈ credentialSlots h.options, e.1 = k ∧ e ∉ credentialSlots h.loaded))

end Hand

namespace Sessions

def vault (s : Sessions) (p : ℕ) : Vault := ⟨s.secrets,(s.processes p).readStates⟩

/-- What is to be kept for a key once a save has carried a text for it. -/
def promised (s : Sessions) (h : Hand) (k value : String) : String :=
  if h.Changed k ∨ s.kept k = "" then value else s.kept k

def keptAfter (s : Sessions) (h : Hand) (slots : List (String × String)) (k : String) : String :=
  match slots.find? fun e => e.1 = k with
  | some e => s.promised h k e.2
  | none => s.kept k

def withProcess (s : Sessions) (p : ℕ) (process : Process) : Sessions :=
  { s with processes := Function.update s.processes p process }

/-- The state after a call, with its options in the hand of the process. -/
def settle (s : Sessions) (p : ℕ) (outcome : Outcome) : Sessions where
  file := s.file.left outcome.file
  secrets := outcome.vault.secrets
  processes := Function.update s.processes p ⟨outcome.vault.readStates,some ⟨outcome.options,outcome.options⟩⟩
  kept := s.kept

def load (digest : String → String) (s : Sessions) (p : ℕ) (opens : Bool) (draws : ℕ → String)
    (accesses : Accesses) : Except UnsupportedConfigVersionError Outcome :=
  loadOptions digest draws accesses (s.file.seen opens) (s.vault p)

def save (s : Sessions) (p : ℕ) (draws : ℕ → String) (answers : ℕ → Bool) (h : Hand) : Outcome :=
  saveOptions draws answers h.options (s.vault p)

def next (digest : String → String) (s : Sessions) : Call → Sessions
  | .load p opens draws accesses =>
    match s.load digest p opens draws accesses with
    | .ok outcome => s.settle p outcome
    | .error _ => s
  | .edit p values =>
    s.withProcess p ⟨(s.processes p).readStates,(s.processes p).hand.map (Hand.edit values)⟩
  | .save p draws answers =>
    match (s.processes p).hand with
    | some h =>
      { s.settle p (s.save p draws answers h) with
        kept := s.keptAfter h (credentialSlots (s.save p draws answers h).options) }
    | none => s
  | .spoil gone => { s with file := if gone then .missing else .unreadable }
  | .restart p => s.withProcess p ⟨fun _ => none,none⟩

/-- At the beginning nothing has been saved and nothing is loaded. -/
structure Fresh (s : Sessions) : Prop where
  kept : ∀ k, s.kept k = ""
  hands : ∀ p, (s.processes p).hand = none

/-! The condition. -/

/-- A load that does not lose what is to be kept: it can open the file, or there is none and the
store has all of it for the default options; and where it rewrites the file, no slot that it cannot
read has an outdated text there that the store takes. -/
structure LoadKeeps (s : Sessions) (opens : Bool) (draws : ℕ → String) (accesses : Accesses) : Prop where
  drawn : strip (draws 0) = draws 0 ∧ draws 0 ≠ ""
  opened : s.file.seen opens = .unreadable → ∀ k, s.kept k = ""
  missing : s.file.seen opens = .missing → ∀ k, s.kept k ≠ "" →
    k ∈ (credentialSlots (defaultOptions (draws 0))).map Prod.fst ∧ s.secrets k = s.kept k
  stored : ∀ payload, s.file.seen opens = .stored payload → ∀ i k text,
    (foundSlots payload)[i]? = some (k,text) → s.kept k ≠ "" → accesses.reads i = false → text ≠ "" →
      accesses.answers i = true → Copies accesses.reads accesses.writes s.secrets 0 (foundSlots payload) →
        text = s.kept k

/-- A save that does not lose what is to be kept: it has one slot for each key, and one for each key
of a text that is kept; what the store takes is the text to be kept; and where it takes nothing, it
has that text, or none and the text stays in the file. -/
structure SaveKeeps (s : Sessions) (p : ℕ) (draws : ℕ → String) (answers : ℕ → Bool) (h : Hand) : Prop where
  drawn : FreshDraws draws h.options.llmProviders
  apart : ((validate draws h.options).researchProviders.map ResearchProviderOptions.kind).Nodup
  known : ∀ k, s.kept k ≠ "" → k ∈ (credentialSlots (validate draws h.options)).map Prod.fst
  lands : ∀ i k value, (credentialSlots (validate draws h.options))[i]? = some (k,value) →
    Lands answers i value ((s.vault p).held k) → value = s.promised h k value
  stays : ∀ i k value, (credentialSlots (validate draws h.options))[i]? = some (k,value) →
    ¬Lands answers i value ((s.vault p).held k) → s.promised h k value ≠ "" →
      orElse (s.secrets k) value = s.promised h k value

def Keeps (s : Sessions) : Call → Prop
  | .load _ opens draws accesses => s.LoadKeeps opens draws accesses
  | .save p draws answers => ∀ h, (s.processes p).hand = some h → s.SaveKeeps p draws answers h
  | _ => True

/-- A step that meets the condition. -/
def KeepingStep (digest : String → String) (s : Sessions) (call : Call) (t : Sessions) : Prop :=
  s.Keeps call ∧ s.next digest call = t

end Sessions

/-- The slots of loaded options: each has its own key, every text that is kept has one, and it is
there if the store can be read for it. -/
structure Returns (kept : String → String) (reads : ℕ → Bool) (o : Options) : Prop where
  apart : ((credentialSlots o).map Prod.fst).Nodup
  slot : ∀ k, kept k ≠ "" → ∃ (i : ℕ) (value : String), (credentialSlots o)[i]? = some (k,value) ∧
    (reads i = true → value = kept k)

/-! What a step keeps. -/

section Kept

variable {digest : String → String} {s t : Sessions} {p : ℕ} {opens : Bool} {draws : ℕ → String}
  {accesses : Accesses} {answers : ℕ → Bool} {h : Hand}

/-- Every text that is to be kept is where the next load finds it, as long as there is a file. -/
structure Sessions.Safe (s : Sessions) : Prop where
  form : ∀ k, secretForm k (s.kept k) = s.kept k
  held : ∀ payload, s.file = .stored payload → ∀ k, s.kept k ≠ "" →
    Readable s.file ∧ Holds s.file s.secrets k (s.kept k)

omit [LetterTables] in
theorem seen_stored {file : OptionsFile} {payload : Options} (hseen : file.seen opens = .stored payload) :
    file = .stored payload := by
  cases file with
  | missing => cases hseen
  | unreadable => cases hseen
  | stored payload' =>
    rw [OptionsFile.seen] at hseen
    split at hseen
    · exact hseen
    · cases hseen

/-- What a load that meets the condition returns and leaves. -/
structure Loaded (s : Sessions) (accesses : Accesses) (outcome : Outcome) : Prop where
  readable : Readable outcome.file
  returns : Returns s.kept accesses.reads outcome.options
  holds : ∀ k, s.kept k ≠ "" → Holds outcome.file outcome.vault.secrets k (s.kept k)

theorem loaded_of_slots {outcome : Outcome} (hreadable : Readable outcome.file)
    (hnodup : ((credentialSlots outcome.options).map Prod.fst).Nodup)
    (hslot : ∀ k, s.kept k ≠ "" → ∃ i, SlotLoaded accesses i k (s.kept k) outcome) : Loaded s accesses outcome := by
  refine ⟨hreadable,⟨hnodup,fun k hk => ?_⟩,fun k hk => ?_⟩
  · obtain ⟨i,hi⟩ := hslot k hk
    exact ⟨i,hi.returned⟩
  · obtain ⟨i,hi⟩ := hslot k hk
    exact hi.held

theorem load_missing (hs : s.Safe) (hload : s.LoadKeeps opens draws accesses)
    (hseen : s.file.seen opens = .missing) :
    ∃ outcome, s.load digest p opens draws accesses = .ok outcome ∧ Loaded s accesses outcome := by
  obtain ⟨outcome,houtcome,hreadable,hnodup,hslots⟩ := loaded_missing hload.drawn digest accesses (s.vault p)
  refine ⟨outcome,by rw [Sessions.load,hseen]; exact houtcome,loaded_of_slots hreadable hnodup fun k hk => ?_⟩
  obtain ⟨hmem,hsecret⟩ := hload.missing hseen k hk
  exact hslots k (s.kept k) hmem hk (hs.form k) hsecret

theorem load_stored (hs : s.Safe) (hload : s.LoadKeeps opens draws accesses) {payload : Options}
    (hseen : s.file.seen opens = .stored payload) (hkept : ∃ k, s.kept k ≠ "") :
    ∃ outcome, s.load digest p opens draws accesses = .ok outcome ∧ Loaded s accesses outcome := by
  have hfile := seen_stored hseen
  obtain ⟨k,hk⟩ := hkept
  obtain ⟨payload',hfile',hsettled,hnodup⟩ := (hs.held payload hfile k hk).1
  obtain rfl := OptionsFile.stored.inj (hfile.symm.trans hfile')
  obtain ⟨outcome,houtcome,hreadable,hkeys,hslots⟩ :=
    loaded_stored hsettled hnodup digest draws accesses (s.vault p)
  refine ⟨outcome,by rw [Sessions.load,hseen]; exact houtcome,
    loaded_of_slots hreadable (hkeys ▸ hnodup) fun k hk => ?_⟩
  obtain ⟨payload',i,text,hfile',hi,hheld⟩ := (hs.held payload hfile k hk).2
  obtain rfl := OptionsFile.stored.inj (hfile.symm.trans hfile')
  refine ⟨i,hslots i k text (s.kept k) hi hk (hs.form k) hheld fun hread htext hanswers hcopies => ?_⟩
  refine hload.stored payload hseen i k _ ?_ hk hread htext hanswers hcopies
  rw [foundSlots,List.getElem?_map,hi]
  rfl

theorem load_kept (hs : s.Safe) (hload : s.LoadKeeps opens draws accesses) (hkept : ∃ k, s.kept k ≠ "") :
    ∃ outcome, s.load digest p opens draws accesses = .ok outcome ∧ Loaded s accesses outcome := by
  cases hseen : s.file.seen opens with
  | missing => exact load_missing hs hload hseen
  | unreadable =>
    obtain ⟨k,hk⟩ := hkept
    exact absurd (hload.opened hseen k) hk
  | stored payload => exact load_stored hs hload hseen hkept

/-- A load that meets the condition keeps everything where the next load finds it. -/
theorem safe_load (hs : s.Safe) (hload : s.LoadKeeps opens draws accesses) :
    (s.next digest (.load p opens draws accesses)).Safe := by
  rw [Sessions.next]
  cases houtcome : s.load digest p opens draws accesses with
  | error e => exact hs
  | ok outcome =>
    refine ⟨hs.form,fun payload _ k hk => ?_⟩
    obtain ⟨outcome',houtcome',hloaded⟩ := load_kept hs hload ⟨k,hk⟩
    obtain rfl := Except.ok.inj (houtcome.symm.trans houtcome')
    obtain ⟨payload',hfile,hrest⟩ := hloaded.readable
    have hleft : s.file.left outcome.file = outcome.file := by rw [hfile,OptionsFile.left]
    change Readable (s.file.left outcome.file) ∧ Holds (s.file.left outcome.file) outcome.vault.secrets k (s.kept k)
    rw [hleft]
    exact ⟨hloaded.readable,hloaded.holds k hk⟩

/-- The texts of validated slots are in their form. -/
theorem validated_forms (draws : ℕ → String) (o : Options) :
    ∀ e ∈ credentialSlots (validate draws o), secretForm e.1 e.2 = e.2 := by
  have hllm : ∀ n used ps, ∀ p ∈ validateLLMProviders draws n used ps, strip p.apiKey = p.apiKey := by
    intro n used ps
    induction ps generalizing n used with
    | nil => exact fun p hp => absurd hp List.not_mem_nil
    | cons p ps ih => exact List.forall_mem_cons.mpr ⟨strip_strip p.apiKey,ih _ _⟩
  intro e he
  rcases List.mem_append.mp he with he | he
  · rcases List.mem_cons.mp he with rfl | he
    · exact if_pos (by simp)
    · rw [List.mem_singleton.mp he]
      exact if_pos (by simp)
  · rcases List.mem_append.mp he with he | he
    · obtain ⟨p,hp,hkey,htext⟩ := mem_llmSlots.mp he
      rw [secretForm_of_head _ _ (by rw [llmKey_eq hkey]; simp),← htext]
      exact hllm _ _ _ p hp
    · obtain ⟨p,hp,hkey,htext⟩ := mem_researchSlots.mp he
      rw [secretForm_of_head _ _ (by rw [researchKey_eq hkey]; simp),← htext]
      exact congrArg ResearchProviderOptions.apiKey
        ((validateResearchProviders_complete o.researchProviders).1 p hp).1

/-- What is to be kept after a save is promised for a slot of it, or was so before. -/
theorem keptAfter_cases (s : Sessions) (h : Hand) (slots : List (String × String)) (k : String) :
    (∃ (i : ℕ) (value : String), slots[i]? = some (k,value) ∧ s.keptAfter h slots k = s.promised h k value) ∨
      k ∉ slots.map Prod.fst ∧ s.keptAfter h slots k = s.kept k := by
  rw [Sessions.keptAfter]
  cases hfind : slots.find? fun e => e.1 = k with
  | none =>
    refine .inr ⟨fun hk => ?_,rfl⟩
    obtain ⟨e,he,hkey⟩ := List.mem_map.mp hk
    exact List.find?_eq_none.mp hfind e he (decide_eq_true hkey)
  | some e =>
    obtain ⟨i,hi⟩ := List.getElem?_of_mem (List.mem_of_find?_eq_some hfind)
    have hkey := @List.find?_some _ (fun e : String × String => decide (e.1 = k)) _ _ hfind
    exact .inl ⟨i,e.2,by rw [hi,← of_decide_eq_true hkey],rfl⟩

/-- So does a save that meets it. -/
theorem safe_save (hs : s.Safe) (hhand : (s.processes p).hand = some h) (hsave : s.SaveKeeps p draws answers h) :
    (s.next digest (.save p draws answers)).Safe := by
  simp only [Sessions.next,hhand]
  have hsettled : Settled (validate draws h.options) := settled_validate (validate_ids_settled hsave.drawn)
  have hnodup := hsettled.nodup_keys hsave.apart
  constructor
  · intro k
    change secretForm k (s.keptAfter h (credentialSlots (validate draws h.options)) k) =
      s.keptAfter h (credentialSlots (validate draws h.options)) k
    rcases keptAfter_cases s h (credentialSlots (validate draws h.options)) k with ⟨i,value,hi,hkept⟩ | ⟨-,hkept⟩
    · rw [hkept,Sessions.promised]
      split
      · exact validated_forms draws h.options (k,value) (List.mem_of_getElem? hi)
      · exact hs.form k
    · rw [hkept]
      exact hs.form k
  · intro payload _ k hk
    change s.keptAfter h (credentialSlots (validate draws h.options)) k ≠ "" at hk
    change Readable (s.save p draws answers h).file ∧ Holds (s.save p draws answers h).file
      (s.save p draws answers h).vault.secrets k (s.keptAfter h (credentialSlots (validate draws h.options)) k)
    rcases keptAfter_cases s h (credentialSlots (validate draws h.options)) k with ⟨i,value,hi,hkept⟩ | ⟨hnone,hkept⟩
    · rw [hkept] at hk ⊢
      exact ⟨saved_readable hsettled hnodup,saved_slot hnodup hi (hsave.lands i k value hi)
        fun hstays => hsave.stays i k value hi hstays hk⟩
    · rw [hkept] at hk
      exact absurd (hsave.known k hk) hnone

theorem safe_step (hs : s.Safe) {call : Call} (hstep : s.KeepingStep digest call t) : t.Safe := by
  obtain ⟨hkeeps,rfl⟩ := hstep
  cases call with
  | load p opens draws accesses => exact safe_load hs hkeeps
  | edit p values => exact ⟨hs.form,hs.held⟩
  | save p draws answers =>
    cases hhand : (s.processes p).hand with
    | none =>
      simp only [Sessions.next,hhand]
      exact hs
    | some h => exact safe_save hs hhand (hkeeps h hhand)
  | spoil gone =>
    refine ⟨hs.form,fun payload hfile => ?_⟩
    rw [Sessions.next] at hfile
    cases gone with
    | true => cases hfile
    | false => cases hfile
  | restart p => exact ⟨hs.form,hs.held⟩

/-- In every run whose steps meet the condition, every load that meets it returns every text that is to
be kept, where the store can be read for it. -/
theorem credentials_kept (hs : s.Fresh) {calls : List Call}
    (hrun : Transition.Run (Sessions.KeepingStep digest) s calls t) (hload : t.LoadKeeps opens draws accesses)
    (hkept : ∃ k, t.kept k ≠ "") :
    ∃ outcome, t.load digest p opens draws accesses = .ok outcome ∧
      Returns t.kept accesses.reads outcome.options := by
  have hstart : s.Safe := by
    refine ⟨fun k => ?_,fun _ _ k hk => absurd (hs.kept k) hk⟩
    rw [hs.kept k]
    exact secretForm_empty k
  have hsafe := hrun.invariant Sessions.Safe (fun _ _ _ hs hstep => safe_step hs hstep) hstart
  obtain ⟨outcome,houtcome,hloaded⟩ := load_kept hsafe hload hkept
  exact ⟨outcome,houtcome,hloaded.returns⟩

end Kept

/-! A password that is typed and saved. -/

section Typed

variable {digest : String → String} {s : Sessions} {p : ℕ}

/-- The user types a password, and nothing else. -/
def typed (password : String) (n : ℕ) : String := if n = 0 then password else ""

/-- The options with the password. -/
def passwordTyped (password : String) (o : Options) : Options := (Hand.edit (typed password) ⟨o,o⟩).options

/-- The state after the password has been typed and the options are saved. -/
def typedSaved (digest : String → String) (p : ℕ) (password : String) (draws : ℕ → String) (answers : ℕ → Bool)
    (s : Sessions) : Sessions :=
  (s.next digest (.edit p (typed password))).next digest (.save p draws answers)

theorem next_edit {h : Hand} (hhand : (s.processes p).hand = some h) (values : ℕ → String) :
    s.next digest (.edit p values) = s.withProcess p ⟨(s.processes p).readStates,some (h.edit values)⟩ := by
  rw [Sessions.next,hhand]
  rfl

omit [LetterTables] in
theorem withProcess_processes (s : Sessions) (p : ℕ) (process : Process) :
    (s.withProcess p process).processes p = process := Function.update_self _ _ _

theorem typedSaved_eq {o : Options} (hhand : (s.processes p).hand = some ⟨o,o⟩) (password : String)
    (draws : ℕ → String) (answers : ℕ → Bool) :
    typedSaved digest p password draws answers s =
      { (s.withProcess p ⟨(s.processes p).readStates,some ⟨o,passwordTyped password o⟩⟩).settle p
          (saveOptions draws answers (passwordTyped password o) (s.vault p)) with
        kept := s.keptAfter ⟨o,passwordTyped password o⟩
          (credentialSlots (validate draws (passwordTyped password o))) } := by
  have hedit : s.next digest (.edit p (typed password)) =
      s.withProcess p ⟨(s.processes p).readStates,some ⟨o,passwordTyped password o⟩⟩ := next_edit hhand _
  have hvault : (s.withProcess p ⟨(s.processes p).readStates,some ⟨o,passwordTyped password o⟩⟩).vault p =
      s.vault p := by
    rw [Sessions.vault,withProcess_processes]
    rfl
  rw [typedSaved,hedit,Sessions.next,withProcess_processes]
  simp only [Sessions.save,hvault]
  rfl

omit [LetterTables] in
theorem vault_secrets (s : Sessions) (p : ℕ) : (s.vault p).secrets = s.secrets := rfl

theorem typedSaved_hand {o : Options} (hhand : (s.processes p).hand = some ⟨o,o⟩) (password : String)
    (draws : ℕ → String) (answers : ℕ → Bool) :
    ((typedSaved digest p password draws answers s).processes p).hand =
      some ⟨validate draws (passwordTyped password o),validate draws (passwordTyped password o)⟩ := by
  rw [typedSaved_eq hhand]
  simp only [Sessions.settle,Function.update_self]
  rfl

theorem typedSaved_kept {o : Options} (hhand : (s.processes p).hand = some ⟨o,o⟩) (password : String)
    (draws : ℕ → String) (answers : ℕ → Bool) : (typedSaved digest p password draws answers s).kept =
      s.keptAfter ⟨o,passwordTyped password o⟩
        (credentialSlots (validate draws (passwordTyped password o))) :=
  congrArg Sessions.kept (typedSaved_eq hhand password draws answers)

theorem typedSaved_file {o : Options} (hhand : (s.processes p).hand = some ⟨o,o⟩) (password : String)
    (draws : ℕ → String) (answers : ℕ → Bool) : (typedSaved digest p password draws answers s).file =
      .stored (secureOptionsPayload answers (validate draws (passwordTyped password o)) (s.vault p)).1 :=
  congrArg Sessions.file (typedSaved_eq hhand password draws answers)

theorem typedSaved_secrets {o : Options} (hhand : (s.processes p).hand = some ⟨o,o⟩) (password : String)
    (draws : ℕ → String) (answers : ℕ → Bool) : (typedSaved digest p password draws answers s).secrets =
      (secureOptionsPayload answers (validate draws (passwordTyped password o)) (s.vault p)).2.secrets :=
  congrArg Sessions.secrets (typedSaved_eq hhand password draws answers)

theorem passwordTyped_settled {o : Options} (h : Settled o) (password : String) :
    Settled (passwordTyped password o) :=
  h.visitSecrets (fun n (_ : Unit) _ _ => (typed password n,())) ()

theorem password_slot (o : Options) : (credentialSlots o)[0]? = some ("pihole/password",o.pihole.password) := rfl

theorem typed_slot (draws : ℕ → String) (password : String) (o : Options) :
    (credentialSlots (validate draws (passwordTyped password o)))[0]? = some ("pihole/password",password) := rfl

/-- Where each slot has its own key, no other text is there for the password. -/
theorem password_unique {o : Options} (hnodup : ((credentialSlots o).map Prod.fst).Nodup) {value : String}
    (hvalue : ("pihole/password",value) ∈ credentialSlots o) : value = o.pihole.password :=
  (Prod.mk.inj (List.inj_on_of_nodup_map hnodup hvalue (List.mem_of_getElem? (password_slot o)) rfl)).2

/-- A password that differs from the loaded one is changed, and is to be kept. -/
theorem kept_password {o : Options} (hnodup : ((credentialSlots o).map Prod.fst).Nodup) {password : String}
    (hchanged : password ≠ o.pihole.password) (draws : ℕ → String) :
    s.keptAfter ⟨o,passwordTyped password o⟩ (credentialSlots (validate draws (passwordTyped password o)))
      "pihole/password" = password := by
  have hslot : ("pihole/password",password) ∈ credentialSlots (passwordTyped password o) :=
    List.mem_of_getElem? (password_slot (passwordTyped password o))
  have hpromised : (⟨o,passwordTyped password o⟩ : Hand).Changed "pihole/password" :=
    ⟨_,hslot,rfl,fun hold => hchanged (password_unique hnodup hold)⟩
  exact if_pos (.inl hpromised)

end Typed

end Calls

/-! A store that takes the first password and not the second. -/

/-- The file cannot be read, the store is empty, and no process has loaded anything. -/
def emptySessions : Sessions where
  file := .unreadable
  secrets _ := ""
  processes _ := ⟨fun _ => none,none⟩
  kept _ := ""

theorem emptySessions_fresh : emptySessions.Fresh := ⟨fun _ => rfl,fun _ => rfl⟩

/-- Ids that are drawn later. -/
def lettersDrawnLater (n : ℕ) : String := lettersDrawn (n+1)

theorem lettersDrawn_form (n : ℕ) : strip (lettersDrawn n) = lettersDrawn n ∧ lettersDrawn n ≠ "" :=
  lettersDrawn_fresh.stripped n

def firstLoaded : Options := validate lettersDrawn (defaultOptions (lettersDrawn 0))

def firstSaved : Options := validate lettersDrawnLater (passwordTyped "old" firstLoaded)

/-- The first process loads, and has the defaults in hand. -/
def afterLoad : Sessions := emptySessions.next id (.load 0 true lettersDrawn reachable)

/-- A first password is typed in and saved. -/
def afterFirst : Sessions := typedSaved id 0 "old" lettersDrawnLater always afterLoad

def never : ℕ → Bool := fun _ => false

/-- A second one is saved while the store does not answer. -/
def afterSecond : Sessions := typedSaved id 0 "new" lettersDrawnLater never afterFirst

theorem defaults_settled : Settled (defaultOptions (lettersDrawn 0)) := defaultOptions_settled (lettersDrawn_form 0)

theorem firstLoaded_settled : Settled firstLoaded := defaults_settled.validate lettersDrawn

theorem firstSaved_settled : Settled firstSaved :=
  (passwordTyped_settled firstLoaded_settled "old").validate lettersDrawnLater

/-- Passwords have no part in the kinds of the sources. -/
theorem kinds_typed {o : Options} (h : Settled o) (password : String) :
    (validate lettersDrawnLater (passwordTyped password o)).researchProviders.map ResearchProviderOptions.kind =
      o.researchProviders.map ResearchProviderOptions.kind := by
  rw [(passwordTyped_settled h password).kinds_validate,passwordTyped,Hand.edit,kinds_visitSecrets]

theorem typed_nodup {o : Options} (h : Settled o)
    (hkinds : (o.researchProviders.map ResearchProviderOptions.kind).Nodup) (password : String) :
    ((credentialSlots (validate lettersDrawnLater (passwordTyped password o))).map Prod.fst).Nodup := by
  refine ((passwordTyped_settled h password).validate lettersDrawnLater).nodup_keys ?_
  rw [kinds_typed h]
  exact hkinds

theorem firstLoaded_kinds : (firstLoaded.researchProviders.map ResearchProviderOptions.kind).Nodup := by
  rw [firstLoaded,defaults_settled.kinds_validate]
  have hkinds : (defaultResearchProviders.map ResearchProviderOptions.kind).Nodup := by decide
  exact hkinds

theorem firstSaved_kinds : (firstSaved.researchProviders.map ResearchProviderOptions.kind).Nodup := by
  rw [firstSaved,kinds_typed firstLoaded_settled]
  exact firstLoaded_kinds

theorem lettersDrawnLater_fresh : FreshDraws lettersDrawnLater (passwordTyped "old" firstLoaded).llmProviders where
  injective _ _ heq := Nat.succ.inj (lettersDrawn_fresh.injective heq)
  stripped n := lettersDrawn_form (n+1)
  unused n p hp heq := by
    have hids : (passwordTyped "old" firstLoaded).llmProviders.map LLMProviderOptions.providerId =
        [lettersDrawn 0] := by
      rw [passwordTyped,Hand.edit,ids_visitSecrets,firstLoaded,defaults_settled.ids_validate]
      rfl
    have hid : p.providerId ∈ (passwordTyped "old" firstLoaded).llmProviders.map LLMProviderOptions.providerId :=
      List.mem_map_of_mem hp
    rw [hids,List.mem_singleton] at hid
    rw [hid,(lettersDrawn_form 0).1] at heq
    exact absurd (lettersDrawn_fresh.injective heq) (Nat.zero_ne_add_one n)

theorem afterLoad_hand : (afterLoad.processes 0).hand = some ⟨firstLoaded,firstLoaded⟩ := rfl

theorem afterFirst_hand : (afterFirst.processes 0).hand = some ⟨firstSaved,firstSaved⟩ :=
  typedSaved_hand afterLoad_hand "old" lettersDrawnLater always

theorem afterFirst_kept : afterFirst.kept "pihole/password" = "old" := by
  rw [afterFirst,typedSaved_kept afterLoad_hand]
  exact kept_password (firstLoaded_settled.nodup_keys firstLoaded_kinds) (by decide) lettersDrawnLater

/-- The store has taken the first password. -/
theorem afterFirst_secret : afterFirst.secrets "pihole/password" = "old" := by
  rw [afterFirst,typedSaved_secrets afterLoad_hand]
  obtain ⟨text,-,hsecured⟩ := secured_slot always (afterLoad.vault 0)
    (firstSaved_settled.nodup_keys firstSaved_kinds) (typed_slot lettersDrawnLater "old" firstLoaded)
  rw [← Vault.held_fst]
  exact (hsecured.lands ⟨rfl,fun hempty => absurd hempty (by decide)⟩).1

theorem afterSecond_kept : afterSecond.kept "pihole/password" = "new" := by
  rw [afterSecond,typedSaved_kept afterFirst_hand]
  exact kept_password (firstSaved_settled.nodup_keys firstSaved_kinds) (by decide) lettersDrawnLater

/-- The second password is in the file, the first one still in the store. -/
theorem afterSecond_slot : ∃ payload, afterSecond.file = .stored payload ∧ Settled payload ∧
    ((credentialSlots payload).map Prod.fst).Nodup ∧
    (credentialSlots payload)[0]? = some ("pihole/password","new") ∧
      afterSecond.secrets "pihole/password" = "old" := by
  have hsettled := (passwordTyped_settled firstSaved_settled "new").validate lettersDrawnLater
  have hnodup := typed_nodup firstSaved_settled firstSaved_kinds "new"
  obtain ⟨text,htext,hsecured⟩ := secured_slot never (afterFirst.vault 0) hnodup
    (typed_slot lettersDrawnLater "new" firstSaved)
  obtain ⟨hsame,rfl⟩ := hsecured.stays fun hlands => absurd hlands.1 (by decide)
  rw [Vault.held_fst,Vault.held_fst,vault_secrets] at hsame
  have hpayload := hsettled.visitSecrets (secureSlot never) (afterFirst.vault 0)
  have hkeys : ((credentialSlots (secureOptionsPayload never (validate lettersDrawnLater
      (passwordTyped "new" firstSaved)) (afterFirst.vault 0)).1).map Prod.fst).Nodup := by
    rwa [secureOptionsPayload,keys_visitSecrets]
  have hold : afterSecond.secrets "pihole/password" = afterFirst.secrets "pihole/password" := by
    rw [afterSecond,typedSaved_secrets afterFirst_hand]
    exact hsame
  exact ⟨_,typedSaved_file afterFirst_hand "new" lettersDrawnLater never,hpayload,hkeys,htext,
    hold.trans afterFirst_secret⟩

theorem afterLoad_empty (k : String) : afterLoad.kept k = "" ∧ afterLoad.secrets k = "" := ⟨rfl,rfl⟩

/-- Nothing is kept when the first password is saved, and the store is empty. -/
theorem firstSave_keeps {h : Hand}
    (hhand : ((afterLoad.next id (.edit 0 (typed "old"))).processes 0).hand = some h) :
    (afterLoad.next id (.edit 0 (typed "old"))).SaveKeeps 0 lettersDrawnLater always h := by
  rw [next_edit afterLoad_hand,withProcess_processes] at hhand
  obtain rfl := Option.some.inj hhand
  rw [next_edit afterLoad_hand]
  have hpromised : ∀ k value, (afterLoad.withProcess 0 ⟨(afterLoad.processes 0).readStates,
      some (Hand.edit (typed "old") ⟨firstLoaded,firstLoaded⟩)⟩).promised
        (Hand.edit (typed "old") ⟨firstLoaded,firstLoaded⟩) k value = value := fun k _ =>
    if_pos (.inr (afterLoad_empty k).1)
  refine ⟨lettersDrawnLater_fresh,?_,fun k hk => absurd (afterLoad_empty k).1 hk,?_,?_⟩
  · exact (kinds_typed firstLoaded_settled "old").symm ▸ firstLoaded_kinds
  · intro i k value _ _
    exact (hpromised k value).symm
  · intro i k value _ _ _
    rw [hpromised]
    exact if_pos (afterLoad_empty k).2

/-- A first password is kept in the store, where every process finds it. -/
theorem credentials_kept_first : ∃ outcome, afterFirst.load id 1 true lettersDrawn reachable = .ok outcome ∧
    Returns afterFirst.kept reachable.reads outcome.options := by
  have hload : emptySessions.Keeps (.load 0 true lettersDrawn reachable) :=
    ⟨lettersDrawn_form 0,fun _ _ => rfl,fun h => (nomatch h),fun _ h => (nomatch h)⟩
  have hrun : Transition.Run (Sessions.KeepingStep id) emptySessions
      [.load 0 true lettersDrawn reachable,.edit 0 (typed "old"),.save 0 lettersDrawnLater always] afterFirst :=
    .cons ⟨hload,rfl⟩ (.cons ⟨trivial,rfl⟩ (.cons ⟨fun _ hhand => firstSave_keeps hhand,rfl⟩ (.nil _)))
  have hfile : ∀ file, afterFirst.file.seen true = file → file = .stored (secureOptionsPayload always
      (validate lettersDrawnLater (passwordTyped "old" firstLoaded)) (afterLoad.vault 0)).1 := by
    rintro _ rfl
    rw [afterFirst,typedSaved_file afterLoad_hand]
    rfl
  refine credentials_kept emptySessions_fresh hrun ⟨lettersDrawn_form 0,fun h => ?_,fun h => ?_,?_⟩
    ⟨"pihole/password",?_⟩
  · exact nomatch hfile _ h
  · exact nomatch hfile _ h
  · exact fun _ _ _ _ _ _ _ hread => absurd hread Bool.noConfusion
  · rw [afterFirst_kept]
    decide

/-- The password that the store has refused is in the file, and a load takes the older one. -/
theorem refused_password_lost : ∃ calls t, emptySessions.Fresh ∧
    Transition.Run (fun s call t => s.next id call = t) emptySessions calls t ∧
    ∃ outcome, t.load id 1 true lettersDrawn reachable = .ok outcome ∧
      t.kept "pihole/password" = "new" ∧ outcome.options.pihole.password = "old" ∧
        ¬Returns t.kept reachable.reads outcome.options := by
  obtain ⟨payload,hfile,hsettled,hnodup,hslot,hsecret⟩ := afterSecond_slot
  obtain ⟨outcome,houtcome,-,-,hslots⟩ :=
    loaded_stored hsettled hnodup id lettersDrawn reachable (afterSecond.vault 1)
  have hheld : orElse ((afterSecond.vault 1).secrets "pihole/password") "new" = "old" := by
    rw [vault_secrets,hsecret]
    rfl
  obtain ⟨value,hvalue,hread⟩ := (hslots 0 _ "new" "old" hslot (by decide) (if_pos (by decide)) hheld
    fun hread => absurd hread Bool.noConfusion).returned
  have hold : outcome.options.pihole.password = "old" := by
    rw [password_slot,hread rfl] at hvalue
    exact (Prod.mk.inj (Option.some.inj hvalue)).2
  refine ⟨[.load 0 true lettersDrawn reachable,.edit 0 (typed "old"),.save 0 lettersDrawnLater always,
    .edit 0 (typed "new"),.save 0 lettersDrawnLater never],afterSecond,emptySessions_fresh,
    .cons rfl (.cons rfl (.cons rfl (.cons rfl (.cons rfl (.nil _))))),outcome,?_,afterSecond_kept,hold,?_⟩
  · rw [Sessions.load,hfile]
    exact houtcome
  · rintro ⟨happart,hall⟩
    obtain ⟨i,value,hi,hnew⟩ := hall "pihole/password" (by rw [afterSecond_kept]; decide)
    have hsame := password_unique happart (List.mem_of_getElem? hi)
    rw [hnew rfl,afterSecond_kept,hold] at hsame
    exact absurd hsame (by decide)

end Config
end WormholeObservatory
