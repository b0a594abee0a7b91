import Mathlib.Tactic

/-! The two scripts that replace the installed program by a staged update. Every command succeeds
or fails; the install, backup and stage directories are file trees, and what happens to anything
else is not followed. -/
namespace WormholeObservatory
namespace Installer

inductive Tree
  | file (content : String)
  | dir (entries : List (String × Tree))

namespace Tree

def entry (name : String) : Tree → Option Tree
  | .file _ => none
  | .dir entries => entries.lookup name

/-- What is under `name` becomes `value`. -/
def put (name : String) (value : Option Tree) : Tree → Tree
  | .file content => .file content
  | .dir entries =>
    .dir ((value.map fun t => (name,t)).toList++entries.filter fun e => decide (e.1 ≠ name))

end Tree

/-- `_PRESERVED_NAMES`. -/
def preservedConstants : List String :=
  ["options.json","pihole_manager.sqlite3","pihole_manager.sqlite3-wal",
    "pihole_manager.sqlite3-shm","evidence_cache","updates"]

/-- `_preserved_names`, from the names of the log files in their order. -/
def preservedNames (logs : List String) : List String :=
  logs.foldl (fun names name => if name ∈ names then names else names++[name]) preservedConstants

theorem nodup_preservedNames (logs : List String) : (preservedNames logs).Nodup := by
  have hfold : ∀ names : List String, names.Nodup →
      (logs.foldl (fun names name => if name ∈ names then names else names++[name]) names).Nodup := by
    induction logs with
    | nil => exact fun _ h => h
    | cons name logs ih =>
      intro names h
      rw [List.foldl_cons]
      by_cases hmem : name ∈ names
      · rw [if_pos hmem]
        exact ih names h
      · rw [if_neg hmem]
        exact ih _ (List.nodup_append.mpr ⟨h,List.nodup_singleton name,by
          simpa using fun a ha (heq : a = name) => hmem (heq ▸ ha)⟩)
  exact hfold _ (by decide)

/-- The part of the plan that decides about the trees. -/
structure InstallPlan where
  preservedNames : List String
  distinct : preservedNames.Nodup

/-- What the host does where a command meets something that is already there, and what PowerShell
makes of the loop body for a name that it takes for a pattern. -/
structure Host where
  /-- The source and what it is moved onto; nothing if the move fails. -/
  moveOnto : Tree → Tree → Option Tree
  /-- The source and what it is copied onto; what is left if the copy fails. -/
  copyOnto : Tree → Tree → Except (Option Tree) Tree
  /-- The pattern, the backup and the install directory. -/
  expand : String → Tree → Tree → Except Tree Tree

/-- How each command goes. A removal of something that is there succeeds, or something is left; a
failed move changes nothing; a failed copy leaves something or nothing. -/
structure Fates where
  removeBackup : Option Tree
  moveInstall : Bool
  moveStage : Bool
  removeTarget : String → Option Tree
  copy : String → Option (Option Tree)
  started : Bool
  removeInstall : Option Tree
  restore : Bool
  finalRemoval : Option Tree
  writeSuccess : Bool

/-- The three directories, as far as they are there. -/
structure Directories where
  install : Option Tree
  backup : Option Tree
  stage : Option Tree

/-- `rm -rf` and `Remove-Item -Recurse -Force`. -/
def remove (fate : Option Tree) : Option Tree → Option Tree
  | none => none
  | some _ => fate

section Scripts

variable (host : Host) (fates : Fates)

/-- `mv` and `Move-Item`: what is at the target then. -/
def move (succeeds : Bool) (source target : Option Tree) : Option Tree :=
  if succeeds then
    match source,target with
    | none,_ => none
    | some s,none => some s
    | some s,some t => host.moveOnto s t
  else none

/-- `cp -a` and `Copy-Item -Recurse -Force`. -/
def copy (fate : Option (Option Tree)) (source : Tree) (target : Option Tree) :
    Except (Option Tree) Tree :=
  match fate,target with
  | some left,_ => .error left
  | none,none => .ok source
  | none,some t => host.copyOnto source t

def Directories.putInstall (name : String) (value : Option Tree) (d : Directories) : Directories :=
  { d with install := d.install.map (Tree.put name value) }

/-- One preserved name, in both scripts. An error is the state in which the copy has failed. -/
def preserveEntry (name : String) (d : Directories) : Except Directories Directories :=
  match d.backup.bind (Tree.entry name) with
  | none => .ok d
  | some source =>
    let cleared := d.putInstall name
      (remove (fates.removeTarget name) (d.install.bind (Tree.entry name)))
    match copy host (fates.copy name) source (cleared.install.bind (Tree.entry name)) with
    | .ok target => .ok (cleared.putInstall name (some target))
    | .error left => .error (cleared.putInstall name left)

/-! `_shell_script`. An error is the state in which the script has left by `exit 1`. -/

/-- `rollback`. -/
def rollback (d : Directories) : Directories :=
  let cleared := { d with install := remove fates.removeInstall d.install }
  match cleared.backup with
  | some (.dir _) =>
    match move host fates.restore cleared.backup cleared.install with
    | some install => { cleared with install := some install, backup := none }
    | none => cleared
  | _ => cleared

/-- `preserve_item`. -/
def preserveItem (name : String) (d : Directories) : Except Directories Directories :=
  (preserveEntry host fates name d).mapError (rollback host fates)

def shellMain (plan : InstallPlan) (d : Directories) : Except Directories Directories :=
  let d := { d with backup := remove fates.removeBackup d.backup }
  match move host fates.moveInstall d.install d.backup with
  | none => .error d
  | some backup =>
    let d := { d with install := none, backup := some backup }
    match move host fates.moveStage d.stage d.install with
    | none => .error (rollback host fates d)
    | some install => do
      let d ← plan.preservedNames.foldlM (fun d name => preserveItem host fates name d)
        { d with install := some install, stage := none }
      if fates.started then .ok { d with backup := remove fates.finalRemoval d.backup }
      else .error (rollback host fates d)

def shellScript (plan : InstallPlan) (d : Directories) : Directories :=
  match shellMain host fates plan d with
  | .ok d => d
  | .error d => d

/-! `_powershell_script`. An error is the state in which the `try` block has thrown. -/

/-- The characters of wildcard patterns. -/
def isPattern (name : String) : Bool := name.toList.any fun c => c ∈ "*?[]\x60".toList

/-- The body of the `foreach`. Its commands take the name for a pattern. -/
def preservePath (name : String) (d : Directories) : Except Directories Directories :=
  if isPattern name then
    match d.backup,d.install with
    | some backup,some install =>
      match host.expand name backup install with
      | .ok install => .ok { d with install := some install }
      | .error install => .error { d with install := some install }
    | _,_ => .ok d
  else preserveEntry host fates name d

def powershellTry (plan : InstallPlan) (d : Directories) : Except Directories Directories :=
  let d := { d with backup := remove fates.removeBackup d.backup }
  match move host fates.moveInstall d.install d.backup with
  | none => .error d
  | some backup =>
    let d := { d with install := none, backup := some backup }
    match move host fates.moveStage d.stage d.install with
    | none => .error d
    | some install => do
      let d ← plan.preservedNames.foldlM (fun d name => preservePath host fates name d)
        { d with install := some install, stage := none }
      if fates.started then
        let d := { d with backup := remove fates.finalRemoval d.backup }
        if fates.writeSuccess then .ok d else .error d
      else .error d

def powershellCatch (d : Directories) : Directories :=
  let cleared := { d with install := remove fates.removeInstall d.install }
  match cleared.backup with
  | none => cleared
  | some _ =>
    match move host fates.restore cleared.backup cleared.install with
    | some install => { cleared with install := some install, backup := none }
    | none => cleared

def powershellScript (plan : InstallPlan) (d : Directories) : Directories :=
  match powershellTry host fates plan d with
  | .ok d => d
  | .error d => powershellCatch host fates d

end Scripts

/-! What the scripts are for. -/

inductive Outcome
  | previous
  | updated

/-- The previous tree is back, or the new build is there with the preserved names as they were. -/
def Directories.EndsIn (old new : List (String × Tree)) (names : List String) (d : Directories) :
    Outcome → Prop
  | .previous => d.install = some (.dir old)
  | .updated => ∃ entries, d.install = some (.dir entries) ∧ ∀ name,
    entries.lookup name =
      if name ∈ names ∧ (old.lookup name).isSome then old.lookup name else new.lookup name

/-- Both scripts end in one of the two outcomes, and in the same one. -/
def AllOrNothing (host : Host) (fates : Fates) (plan : InstallPlan) (old new : List (String × Tree))
    (backup : Option Tree) : Prop :=
  let start : Directories := ⟨some (.dir old),backup,some (.dir new)⟩
  ∃ outcome, (shellScript host fates plan start).EndsIn old new plan.preservedNames outcome ∧
    (powershellScript host fates plan start).EndsIn old new plan.preservedNames outcome

section Correctness

variable {host : Host} {fates : Fates}

/-- The update is given up: the staged build cannot be moved, a copy fails, or the new version does
not start. -/
def RollsBack (fates : Fates) (names : List String) (old : List (String × Tree)) : Prop :=
  fates.moveStage = false ∨ fates.started = false ∨
    ∃ name ∈ names, (old.lookup name).isSome ∧ (fates.copy name).isSome

/-- No failure that the scripts have no way out of. -/
structure Manageable (fates : Fates) (names : List String) (old new : List (String × Tree))
    (backup : Option Tree) : Prop where
  backupGone : backup = none ∨ fates.removeBackup = none
  moved : fates.moveInstall = true
  plain : fates.moveStage = true → fates.started = true → ∀ name ∈ names, isPattern name = false
  cleared : ¬RollsBack fates names old → ∀ name ∈ names, (old.lookup name).isSome →
    (new.lookup name).isSome → fates.removeTarget name = none
  restored : RollsBack fates names old →
    fates.restore = true ∧ (fates.moveStage = true → fates.removeInstall = none)
  reported : ¬RollsBack fates names old → fates.writeSuccess = true

theorem lookup_filter_ne {entries : List (String × Tree)} {name other : String} (h : other ≠ name) :
    (entries.filter fun e => decide (e.1 ≠ name)).lookup other = entries.lookup other := by
  induction entries with
  | nil => rfl
  | cons e entries ih =>
    obtain ⟨key,t⟩ := e
    by_cases hkey : key = name
    · subst hkey
      have hother : (other == key) = false := by simpa using h
      rw [List.filter_cons_of_neg (by simp),ih,List.lookup_cons,hother]
    · rw [List.filter_cons_of_pos (by simpa using hkey),List.lookup_cons,List.lookup_cons,ih]

theorem lookup_filter_self (entries : List (String × Tree)) (name : String) :
    (entries.filter fun e => decide (e.1 ≠ name)).lookup name = none := by
  refine List.lookup_eq_none_iff.mpr fun e he => ?_
  have hne : e.1 ≠ name := of_decide_eq_true (List.mem_filter.mp he).2
  exact bne_iff_ne.mpr hne.symm

/-- What is under each name after one of them has been replaced. -/
theorem put_dir (entries : List (String × Tree)) (name : String) (value : Option Tree) :
    ∃ entries', (Tree.dir entries).put name value = .dir entries' ∧
      ∀ other, entries'.lookup other = if other = name then value else entries.lookup other := by
  refine ⟨_,rfl,fun other => ?_⟩
  by_cases h : other = name
  · subst h
    rw [if_pos rfl]
    cases value with
    | none => exact lookup_filter_self entries other
    | some t => simp
  · rw [if_neg h]
    cases value with
    | none => exact lookup_filter_ne h
    | some t =>
      have hother : (other == name) = false := by simpa using h
      simp only [Option.map_some,Option.toList_some,List.singleton_append,List.lookup_cons,hother]
      exact lookup_filter_ne h

/-! The preserved names. -/

/-- The state in which a computation has ended. -/
def ended : Except Directories Directories → Directories
  | .ok d => d
  | .error d => d

/-- The new build is in place and the previous tree in the backup. -/
def InPlace (backup : Tree) (d : Directories) : Prop :=
  d.install.isSome = true ∧ d.backup = some backup

theorem InPlace.putInstall {backup : Tree} {d : Directories} (h : InPlace backup d) (name : String)
    (value : Option Tree) : InPlace backup (d.putInstall name value) :=
  ⟨by simpa [Directories.putInstall] using h.1,h.2⟩

theorem preserveEntry_inPlace {backup : Tree} {d : Directories} (h : InPlace backup d)
    (name : String) : InPlace backup (ended (preserveEntry host fates name d)) := by
  simp only [preserveEntry]
  split
  · exact h
  · split
    · exact (h.putInstall _ _).putInstall _ _
    · exact (h.putInstall _ _).putInstall _ _

theorem preservePath_inPlace {backup : Tree} {d : Directories} (h : InPlace backup d)
    (name : String) : InPlace backup (ended (preservePath host fates name d)) := by
  simp only [preservePath]
  split
  · split
    · split
      · exact ⟨rfl,h.2⟩
      · exact ⟨rfl,h.2⟩
    · exact h
  · exact preserveEntry_inPlace h name

theorem foldlM_inPlace {backup : Tree} {f : Directories → String → Except Directories Directories}
    (hf : ∀ d name, InPlace backup d → InPlace backup (ended (f d name))) (names : List String)
    {d : Directories} (h : InPlace backup d) : InPlace backup (ended (names.foldlM f d)) := by
  induction names generalizing d with
  | nil => exact h
  | cons name names ih =>
    have hstep := hf d name h
    rw [List.foldlM_cons]
    cases hresult : f d name with
    | ok d' =>
      rw [hresult] at hstep
      exact ih hstep
    | error d' =>
      rw [hresult] at hstep
      exact hstep

/-- The shell script rolls back where the copy has failed. -/
theorem foldlM_preserveItem (names : List String) (d : Directories) :
    names.foldlM (fun d name => preserveItem host fates name d) d =
      (names.foldlM (fun d name => preserveEntry host fates name d) d).mapError
        (rollback host fates) := by
  induction names generalizing d with
  | nil => rfl
  | cons name names ih =>
    rw [List.foldlM_cons,List.foldlM_cons,preserveItem]
    cases preserveEntry host fates name d with
    | ok d' => exact ih d'
    | error d' => rfl

theorem foldlM_preservePath {names : List String} (hplain : ∀ name ∈ names, isPattern name = false)
    (d : Directories) : names.foldlM (fun d name => preservePath host fates name d) d =
      names.foldlM (fun d name => preserveEntry host fates name d) d := by
  induction names generalizing d with
  | nil => rfl
  | cons name names ih =>
    have hname := hplain name List.mem_cons_self
    rw [List.foldlM_cons,List.foldlM_cons,preservePath,hname,if_neg Bool.false_ne_true]
    cases preserveEntry host fates name d with
    | ok d' => exact ih (fun n hn => hplain n (List.mem_cons_of_mem name hn)) d'
    | error d' => rfl

section Preserving

variable {old : List (String × Tree)}

/-- A preserved name goes through only if its copy succeeds. -/
theorem preserveEntry_ok {name : String} {d d' : Directories} (hbackup : d.backup = some (.dir old))
    (h : preserveEntry host fates name d = .ok d') (hold : (old.lookup name).isSome) :
    fates.copy name = none := by
  obtain ⟨source,hsource⟩ := Option.isSome_iff_exists.mp hold
  have hentry : d.backup.bind (Tree.entry name) = some source := by
    rw [hbackup]
    exact hsource
  simp only [preserveEntry,hentry] at h
  cases hcopy : fates.copy name with
  | none => rfl
  | some left =>
    simp only [copy,hcopy] at h
    cases h

theorem foldlM_preserveEntry_ok {names : List String} {d d' : Directories}
    (hplace : InPlace (.dir old) d)
    (h : names.foldlM (fun d name => preserveEntry host fates name d) d = .ok d') :
    ∀ name ∈ names, (old.lookup name).isSome → fates.copy name = none := by
  induction names generalizing d with
  | nil => nofun
  | cons name names ih =>
    rw [List.foldlM_cons] at h
    have hstep : InPlace (.dir old) (ended (preserveEntry host fates name d)) :=
      preserveEntry_inPlace hplace name
    cases hresult : preserveEntry host fates name d with
    | error d₁ =>
      rw [hresult] at h
      cases h
    | ok d₁ =>
      rw [hresult] at h hstep
      exact List.forall_mem_cons.mpr ⟨preserveEntry_ok hplace.2 hresult,ih hstep h⟩

/-- One preserved name whose removal and copy succeed. -/
theorem preserveEntry_preserves (host : Host) (stage : Option Tree) {name : String}
    {entries : List (String × Tree)}
    (hclear : (old.lookup name).isSome → (entries.lookup name).isSome →
      fates.removeTarget name = none)
    (hcopy : (old.lookup name).isSome → fates.copy name = none) :
    ∃ entries', preserveEntry host fates name ⟨some (.dir entries),some (.dir old),stage⟩ =
        .ok ⟨some (.dir entries'),some (.dir old),stage⟩ ∧
      ∀ other, entries'.lookup other =
        if other = name ∧ (old.lookup name).isSome then old.lookup name
        else entries.lookup other := by
  cases hsource : old.lookup name with
  | none =>
    refine ⟨entries,?_,fun other => by simp⟩
    simp [preserveEntry,Tree.entry,hsource]
  | some source =>
    have hold : (old.lookup name).isSome := by rw [hsource]; rfl
    have hremoved : remove (fates.removeTarget name) (entries.lookup name) = none := by
      cases hentry : entries.lookup name with
      | none => rfl
      | some t => exact hclear hold (by rw [hentry]; rfl)
    obtain ⟨cleared,hcleared,hlookup⟩ := put_dir entries name none
    obtain ⟨entries',hput,hlookup'⟩ := put_dir cleared name (some source)
    refine ⟨entries',?_,fun other => ?_⟩
    · have hgone : cleared.lookup name = none := by rw [hlookup,if_pos rfl]
      simp [preserveEntry,Tree.entry,hsource,hremoved,Directories.putInstall,hcleared,hgone,copy,
        hcopy hold,hput]
    · rw [hlookup',hlookup]
      by_cases hother : other = name
      · simp [hother]
      · simp [hother]

/-- All of them: they are as they were, and the rest is that of the build. -/
theorem foldlM_preserves (host : Host) (stage : Option Tree) {names : List String}
    {entries : List (String × Tree)}
    (hdistinct : names.Nodup)
    (hclear : ∀ name ∈ names, (old.lookup name).isSome → (entries.lookup name).isSome →
      fates.removeTarget name = none)
    (hcopy : ∀ name ∈ names, (old.lookup name).isSome → fates.copy name = none) :
    ∃ entries', names.foldlM (fun d name => preserveEntry host fates name d)
        ⟨some (.dir entries),some (.dir old),stage⟩ =
          .ok ⟨some (.dir entries'),some (.dir old),stage⟩ ∧
      ∀ other, entries'.lookup other =
        if other ∈ names ∧ (old.lookup other).isSome then old.lookup other
        else entries.lookup other := by
  induction names generalizing entries with
  | nil => exact ⟨entries,rfl,fun other => by simp⟩
  | cons name names ih =>
    obtain ⟨hname,hrest⟩ := List.nodup_cons.mp hdistinct
    obtain ⟨entries₁,hstep,hlookup₁⟩ := preserveEntry_preserves host stage
      (hclear name List.mem_cons_self) (hcopy name List.mem_cons_self)
    have hclear₁ : ∀ n ∈ names, (old.lookup n).isSome → (entries₁.lookup n).isSome →
        fates.removeTarget n = none := by
      intro n hn hold hentry
      have hne : n ≠ name := fun heq => hname (heq ▸ hn)
      rw [hlookup₁,if_neg fun h => hne h.1] at hentry
      exact hclear n (List.mem_cons_of_mem name hn) hold hentry
    obtain ⟨entries₂,hfold,hlookup₂⟩ := ih hrest hclear₁
      fun n hn => hcopy n (List.mem_cons_of_mem name hn)
    refine ⟨entries₂,?_,fun other => ?_⟩
    · rw [List.foldlM_cons,hstep]
      exact hfold
    · rw [hlookup₂]
      by_cases hother : other = name
      · subst hother
        rw [if_neg fun h => hname h.1,hlookup₁]
        exact if_congr (by simp) rfl rfl
      · have hkept : entries₁.lookup other = entries.lookup other := by
          rw [hlookup₁,if_neg fun h => hother h.1]
        rw [hkept]
        exact if_congr (by simp only [List.mem_cons,hother,false_or]) rfl rfl

end Preserving

/-! The way back. -/

section Restoring

variable {old : List (String × Tree)} {d : Directories}

/-- From the same state both scripts restore alike. -/
theorem rollback_eq_powershellCatch (hbackup : d.backup = some (.dir old)) :
    rollback host fates d = powershellCatch host fates d := by
  simp only [rollback,powershellCatch,hbackup]

theorem powershellCatch_restores (hbackup : d.backup = some (.dir old))
    (hrestore : fates.restore = true) (hgone : d.install = none ∨ fates.removeInstall = none) :
    (powershellCatch host fates d).install = some (.dir old) := by
  have hremoved : remove fates.removeInstall d.install = none := by
    rcases hgone with h | h
    · rw [h,remove]
    · cases d.install <;> simp [remove,h]
  simp [powershellCatch,hbackup,hremoved,move,hrestore]

/-- Nothing is installed where the previous tree cannot be moved back, or is not there. -/
theorem powershellCatch_missing (hremove : fates.removeInstall = none)
    (h : fates.restore = false ∨ d.backup = none) :
    (powershellCatch host fates d).install = none := by
  have hremoved : remove fates.removeInstall d.install = none := by
    cases d.install <;> simp [remove,hremove]
  simp only [powershellCatch,hremoved]
  cases hbackup : d.backup with
  | none => rfl
  | some backup =>
    have hrestore := h.resolve_right (by rw [hbackup]; nofun)
    simp [move,hrestore]

end Restoring

section Scripts

variable (host) {plan : InstallPlan} {old : List (String × Tree)} (new : List (String × Tree))
  {backup : Option Tree} (hgone : backup = none ∨ fates.removeBackup = none)
include hgone

omit host new in
theorem remove_backup_gone : remove fates.removeBackup backup = none := by
  rcases hgone with h | h
  · rw [h,remove]
  · cases backup <;> simp [remove,h]

/-- Where the previous tree cannot be moved away, the shell script leaves it, and PowerShell removes
it. -/
theorem scripts_not_moved (hmove : fates.moveInstall = false) :
    (powershellScript host fates plan ⟨some (.dir old),backup,some (.dir new)⟩) =
      powershellCatch host fates ⟨some (.dir old),none,some (.dir new)⟩ := by
  simp [powershellScript,powershellTry,remove_backup_gone hgone,move,hmove]

variable (hmove : fates.moveInstall = true)
include hmove

/-- An update that is given up goes through the way back, from a state with the previous tree in
the backup. -/
theorem shellScript_rollsBack (h : RollsBack fates plan.preservedNames old) :
    ∃ d : Directories, d.backup = some (.dir old) ∧
      (fates.moveStage = true ∨ d.install = none) ∧
      shellScript host fates plan ⟨some (.dir old),backup,some (.dir new)⟩ =
        rollback host fates d := by
  cases hstage : fates.moveStage with
  | false =>
    refine ⟨⟨none,some (.dir old),some (.dir new)⟩,rfl,.inr rfl,?_⟩
    simp [shellScript,shellMain,remove_backup_gone hgone,move,hmove,hstage]
  | true =>
    have hplace : InPlace (.dir old) ⟨some (.dir new),some (.dir old),none⟩ := ⟨rfl,rfl⟩
    have hended : InPlace (.dir old) (ended
        (plan.preservedNames.foldlM (fun d name => preserveEntry host fates name d) _)) :=
      foldlM_inPlace (fun d name h => preserveEntry_inPlace h name) plan.preservedNames hplace
    simp only [shellScript,shellMain,remove_backup_gone hgone,move,hmove,hstage,if_true,
      foldlM_preserveItem]
    cases hfold : plan.preservedNames.foldlM (fun d name => preserveEntry host fates name d)
        ⟨some (.dir new),some (.dir old),none⟩ with
    | error d =>
      rw [hfold] at hended
      exact ⟨d,hended.2,.inl trivial,rfl⟩
    | ok d =>
      rw [hfold] at hended
      have hcopies := foldlM_preserveEntry_ok hplace hfold
      have hstarted : fates.started = false := by
        rcases h with h | h | ⟨name,hname,hold,hcopy⟩
        · cases hstage.symm.trans h
        · exact h
        · rw [hcopies name hname hold] at hcopy
          cases hcopy
      refine ⟨d,hended.2,.inl trivial,?_⟩
      simp [Except.mapError,bind,Except.bind,hstarted]

theorem powershellScript_rollsBack (h : RollsBack fates plan.preservedNames old)
    (hplain : fates.moveStage = true → fates.started = true →
      ∀ name ∈ plan.preservedNames, isPattern name = false) :
    ∃ d : Directories, d.backup = some (.dir old) ∧
      (fates.moveStage = true ∨ d.install = none) ∧
      powershellScript host fates plan ⟨some (.dir old),backup,some (.dir new)⟩ =
        powershellCatch host fates d := by
  cases hstage : fates.moveStage with
  | false =>
    refine ⟨⟨none,some (.dir old),some (.dir new)⟩,rfl,.inr rfl,?_⟩
    simp [powershellScript,powershellTry,remove_backup_gone hgone,move,hmove,hstage]
  | true =>
    have hplace : InPlace (.dir old) ⟨some (.dir new),some (.dir old),none⟩ := ⟨rfl,rfl⟩
    have hended : InPlace (.dir old) (ended
        (plan.preservedNames.foldlM (fun d name => preservePath host fates name d) _)) :=
      foldlM_inPlace (fun d name h => preservePath_inPlace h name) plan.preservedNames hplace
    simp only [powershellScript,powershellTry,remove_backup_gone hgone,move,hmove,hstage,if_true]
    cases hfold : plan.preservedNames.foldlM (fun d name => preservePath host fates name d)
        ⟨some (.dir new),some (.dir old),none⟩ with
    | error d =>
      rw [hfold] at hended
      exact ⟨d,hended.2,.inl trivial,rfl⟩
    | ok d =>
      rw [hfold] at hended
      have hstarted : fates.started = false := by
        by_contra hstarted
        rw [Bool.not_eq_false] at hstarted
        rw [foldlM_preservePath (hplain hstage hstarted)] at hfold
        have hcopies := foldlM_preserveEntry_ok hplace hfold
        rcases h with h | h | ⟨name,hname,hold,hcopy⟩
        · cases hstage.symm.trans h
        · cases hstarted.symm.trans h
        · rw [hcopies name hname hold] at hcopy
          cases hcopy
      refine ⟨d,hended.2,.inl trivial,?_⟩
      simp [bind,Except.bind,hstarted]

/-- An update that is not given up leaves the build with the preserved names. -/
theorem scripts_installed (h : ¬RollsBack fates plan.preservedNames old)
    (hclear : ∀ name ∈ plan.preservedNames, (old.lookup name).isSome → (new.lookup name).isSome →
      fates.removeTarget name = none) :
    ∃ entries, (∀ name, entries.lookup name =
        if name ∈ plan.preservedNames ∧ (old.lookup name).isSome then old.lookup name
        else new.lookup name) ∧
      shellScript host fates plan ⟨some (.dir old),backup,some (.dir new)⟩ =
        ⟨some (.dir entries),fates.finalRemoval,none⟩ ∧
      ((∀ name ∈ plan.preservedNames, isPattern name = false) →
        powershellScript host fates plan ⟨some (.dir old),backup,some (.dir new)⟩ =
          if fates.writeSuccess then ⟨some (.dir entries),fates.finalRemoval,none⟩
          else powershellCatch host fates ⟨some (.dir entries),fates.finalRemoval,none⟩) := by
  simp only [RollsBack,not_or,Bool.not_eq_false] at h
  obtain ⟨hstage,hstarted,hcopies⟩ := h
  have hcopy : ∀ name ∈ plan.preservedNames, (old.lookup name).isSome → fates.copy name = none := by
    intro name hname hold
    by_contra hcopy
    exact hcopies ⟨name,hname,hold,Option.isSome_iff_ne_none.mpr hcopy⟩
  obtain ⟨entries,hfold,hlookup⟩ := foldlM_preserves host none plan.distinct hclear hcopy
  have hfinal : remove fates.finalRemoval (some (.dir old)) = fates.finalRemoval := rfl
  refine ⟨entries,hlookup,?_,fun hplain => ?_⟩
  · simp [shellScript,shellMain,remove_backup_gone hgone,move,hmove,hstage,foldlM_preserveItem,hfold,
      Except.mapError,bind,Except.bind,hstarted,hfinal]
  · cases hwrite : fates.writeSuccess <;>
      simp [powershellScript,powershellTry,remove_backup_gone hgone,move,hmove,hstage,
        foldlM_preservePath hplain,hfold,bind,Except.bind,hstarted,hfinal,hwrite]

end Scripts

/-- No removal of something that is there fails, and no preserved name is a pattern. -/
structure Removes (fates : Fates) (names : List String) : Prop where
  removeBackup : fates.removeBackup = none
  removeTarget : ∀ name ∈ names, fates.removeTarget name = none
  removeInstall : fates.removeInstall = none
  finalRemoval : fates.finalRemoval = none
  plain : ∀ name ∈ names, isPattern name = false

theorem not_endsIn_of_missing {old new : List (String × Tree)} {names : List String}
    {d : Directories} (h : d.install = none) (outcome : Outcome) :
    ¬d.EndsIn old new names outcome := by
  intro hends
  cases outcome with
  | previous => cases h.symm.trans hends
  | updated =>
    obtain ⟨entries,hinstall,-⟩ := hends
    cases h.symm.trans hinstall

/-- Failures the scripts can manage leave the directory as it was or updated, and both scripts do
the same. If all removals succeed they manage no other failures. -/
theorem installers_all_or_nothing (host : Host) (fates : Fates) (plan : InstallPlan)
    (old new : List (String × Tree)) (backup : Option Tree) :
    (Manageable fates plan.preservedNames old new backup →
      AllOrNothing host fates plan old new backup) ∧
    (Removes fates plan.preservedNames → AllOrNothing host fates plan old new backup →
      Manageable fates plan.preservedNames old new backup) := by
  constructor
  · intro h
    by_cases hback : RollsBack fates plan.preservedNames old
    · obtain ⟨hrestore,hremove⟩ := h.restored hback
      obtain ⟨d,hd,hgone,hshell⟩ := shellScript_rollsBack host new h.backupGone
        h.moved hback
      obtain ⟨d',hd',hgone',hpowershell⟩ := powershellScript_rollsBack host new
        h.backupGone h.moved hback h.plain
      refine ⟨.previous,?_,?_⟩
      · rw [hshell,rollback_eq_powershellCatch hd]
        exact powershellCatch_restores hd hrestore (hgone.symm.imp_right hremove)
      · rw [hpowershell]
        exact powershellCatch_restores hd' hrestore (hgone'.symm.imp_right hremove)
    · obtain ⟨entries,hlookup,hshell,hpowershell⟩ := scripts_installed host new h.backupGone
        h.moved hback (h.cleared hback)
      have hplain : ∀ name ∈ plan.preservedNames, isPattern name = false := by
        simp only [RollsBack,not_or,Bool.not_eq_false] at hback
        exact h.plain hback.1 hback.2.1
      refine ⟨.updated,?_,?_⟩
      · rw [hshell]
        exact ⟨entries,rfl,hlookup⟩
      · rw [hpowershell hplain,if_pos (h.reported hback)]
        exact ⟨entries,rfl,hlookup⟩
  · rintro hremoves ⟨outcome,hshell,hpowershell⟩
    have hmove : fates.moveInstall = true := by
      by_contra hmove
      rw [Bool.not_eq_true] at hmove
      rw [scripts_not_moved host new (.inr hremoves.removeBackup) hmove] at hpowershell
      exact not_endsIn_of_missing (powershellCatch_missing hremoves.removeInstall (.inr rfl)) _
        hpowershell
    refine ⟨.inr hremoves.removeBackup,hmove,fun _ _ => hremoves.plain,
      fun _ name hname _ _ => hremoves.removeTarget name hname,fun hback => ?_,fun hback => ?_⟩
    · refine ⟨?_,fun _ => hremoves.removeInstall⟩
      by_contra hrestore
      rw [Bool.not_eq_true] at hrestore
      obtain ⟨d,hd,-,hend⟩ := shellScript_rollsBack host new
        (.inr hremoves.removeBackup) hmove hback
      rw [hend,rollback_eq_powershellCatch hd] at hshell
      exact not_endsIn_of_missing (powershellCatch_missing hremoves.removeInstall (.inl hrestore)) _
        hshell
    · by_contra hwrite
      rw [Bool.not_eq_true] at hwrite
      obtain ⟨entries,-,-,hend⟩ := scripts_installed host new
        (.inr hremoves.removeBackup) hmove hback fun name hname _ _ => hremoves.removeTarget name hname
      rw [hend hremoves.plain,hwrite,if_neg Bool.false_ne_true] at hpowershell
      exact not_endsIn_of_missing
        (powershellCatch_missing hremoves.removeInstall (.inr hremoves.finalRemoval)) _ hpowershell

/-- A host where nothing can be moved or copied onto what is there. -/
def plainHost : Host where
  moveOnto _ _ := none
  copyOnto _ target := .error (some target)
  expand _ _ install := .ok install

/-- Every command succeeds. -/
def smooth : Fates where
  removeBackup := none
  moveInstall := true
  moveStage := true
  removeTarget _ := none
  copy _ := none
  started := true
  removeInstall := none
  restore := true
  finalRemoval := none
  writeSuccess := true

def defaultPlan : InstallPlan := ⟨preservedNames ["app.log"],nodup_preservedNames _⟩

/-- The copy of the options fails halfway. -/
theorem failed_copy_undone :
    AllOrNothing plainHost { smooth with copy := fun _ => some (some (.file "half")) } defaultPlan
      [("options.json",.file "settings"),("Pi-Hole-Manager",.file "old")]
      [("Pi-Hole-Manager",.file "new")] none := by
  refine (installers_all_or_nothing _ _ _ _ _ _).1 ⟨.inl rfl,rfl,?_,?_,?_,?_⟩
  · intro _ _
    decide
  · intro _ _ _ _ _
    rfl
  · intro _
    exact ⟨rfl,fun _ => rfl⟩
  · intro _
    rfl

/-- The install directory cannot be moved away: PowerShell removes it. -/
theorem install_directory_removed :
    ¬∀ (host : Host) (fates : Fates) (plan : InstallPlan) (old new : List (String × Tree))
      (backup : Option Tree), AllOrNothing host fates plan old new backup := by
  intro h
  obtain ⟨outcome,-,hpowershell⟩ := h plainHost { smooth with moveInstall := false } defaultPlan
    [("options.json",.file "settings"),("Pi-Hole-Manager",.file "old")]
    [("Pi-Hole-Manager",.file "new")] none
  exact not_endsIn_of_missing rfl outcome hpowershell

end Correctness

end Installer
end WormholeObservatory
