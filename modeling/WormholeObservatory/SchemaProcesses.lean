import WormholeObservatory.Runs
import WormholeObservatory.SchemaInit

/-! Processes that share one database file. A process is inside at most one
initialiser at a time (`_DB_LOCK`), and each transaction of an initialiser is one
step; the transactions of different processes interleave freely. -/
namespace WormholeObservatory
namespace SchemaInit

open Ddl Transition

/-- Where a process stands in `database_migrations.init_db`. -/
inductive Phase
  | idle
  | legacyInit
  | pending
  deriving DecidableEq

structure Process where
  phase : Phase
  quotaReady : Bool

structure World (ι : Type*) where
  db : Db
  procs : ι → Process
  failures : List InitError
  finished : Bool

def World.start {ι : Type*} (db : Db) : World ι := ⟨db,fun _ => ⟨.idle,false⟩,[],false⟩

inductive Act
  | startInit
  | legacyInit
  | applyPending (now : ℤ)
  | quotaUse

section Steps

variable {ι : Type*} [DecidableEq ι]

def World.goto (w : World ι) (i : ι) (phase : Phase) : World ι :=
  { w with procs := Function.update w.procs i { w.procs i with phase := phase } }

def World.fail (w : World ι) (i : ι) (e : InitError) : World ι :=
  { w.goto i .idle with failures := e::w.failures }

/-- One atomic transaction of process `i`; a step the process cannot take leaves the
world as it is. -/
def next (w : World ι) : ι × Act → World ι
  | (i,.startInit) =>
    if (w.procs i).phase = .idle then
      let existing := existingSchemaVersion w.db
      if existing > databaseSchemaVersion then w.fail i (.newer existing databaseSchemaVersion)
      else if existing ≤ legacySchemaVersion then w.goto i .legacyInit
      else { w with finished := true }
    else w
  | (i,.legacyInit) =>
    if (w.procs i).phase = .legacyInit then
      match coreInitDb w.db with
      | .ok db => { w.goto i .pending with db := db }
      | .error e => w.fail i e
    else w
  | (i,.applyPending now) =>
    if (w.procs i).phase = .pending then
      match applyPendingMigration now w.db with
      | .ok db => { w.goto i .idle with db := db, finished := true }
      | .error e => w.fail i e
    else w
  | (i,.quotaUse) =>
    -- `_ensure_database` calls the initialiser of `database_core`, not the other one
    if (w.procs i).phase = .idle ∧ (w.procs i).quotaReady = false then
      match coreInitDb w.db with
      | .ok db => { w with
          db := db
          procs := Function.update w.procs i { w.procs i with quotaReady := true } }
      | .error e => w.fail i e
    else w

def step (w : World ι) (l : ι × Act) (w' : World ι) : Prop := next w l = w'

/-- The steps that execute `database_core.init_db`. -/
def runsLegacyInit (w : World ι) : ι × Act → Prop
  | (i,.legacyInit) => (w.procs i).phase = .legacyInit
  | (i,.quotaUse) => (w.procs i).phase = .idle ∧ (w.procs i).quotaReady = false
  | _ => False

/-- Steps that execute `database_core.init_db` only on a file it still owns. -/
def ownedStep (w : World ι) (l : ι × Act) (w' : World ι) : Prop :=
  step w l w' ∧ (runsLegacyInit w l → w.db.version.getD 0 ≤ legacySchemaVersion)

/-- No call has failed, and the file is fully migrated once some call ran to its end. -/
def Serves (w : World ι) : Prop :=
  w.failures = [] ∧ (w.finished = true →
    w.db.version = some databaseSchemaVersion ∧ Recorded w.db.history)

end Steps

/-! Single transactions. -/

theorem coreInitDb_wellFormed {db : Db} (h : WellFormed db)
    (hold : db.version.getD 0 ≤ legacySchemaVersion) :
    ∃ db', coreInitDb db = .ok db' ∧ WellFormed db' ∧ db'.version = some legacySchemaVersion := by
  obtain ⟨s',hrun,hserv⟩ := coreInitDb_ok h hold
  refine ⟨_,hrun,⟨hserv.covers,?_,?_,?_,?_⟩,rfl⟩
  · exact fun _ => hserv.holds "schema_meta" (by simp)
  · exact Nat.le_succ legacySchemaVersion
  · intro hv
    exact absurd (Option.some.inj hv) (by decide)
  · exact fun _ => hserv.fresh

theorem coreInitDb_newer {db : Db} (hnew : legacySchemaVersion < db.version.getD 0) :
    ∃ e, coreInitDb db = .error e := by
  unfold coreInitDb
  cases runScript [.createTableIfMissing "schema_meta" ["key","value"]] db.schema with
  | error f => exact ⟨_,rfl⟩
  | ok s => exact ⟨_,if_pos hnew⟩

theorem existingSchemaVersion_eq {db : Db} (h : WellFormed db) :
    existingSchemaVersion db = db.version.getD 0 := by
  unfold existingSchemaVersion
  split
  · rfl
  · rename_i hmeta
    by_contra hne
    exact hmeta (h.metaTable (by rintro hnone; simp [hnone] at hne))

/-- The version 13 transaction succeeds on every file at version 12 or 13. -/
theorem applyPendingMigration_wellFormed {db : Db} (h : WellFormed db)
    (hversion : legacySchemaVersion ≤ db.version.getD 0) (now : ℤ) :
    ∃ db', applyPendingMigration now db = .ok db' ∧ WellFormed db' ∧
      db'.version = some databaseSchemaVersion := by
  have hle := h.version
  simp only [applyPendingMigration,existingSchemaVersion_eq h]
  by_cases hdone : db.version.getD 0 ≥ databaseSchemaVersion
  · have hv : db.version = some databaseSchemaVersion := by
      cases hv : db.version with
      | none => simp [hv,databaseSchemaVersion] at hdone
      | some v =>
        simp only [hv,Option.getD_some] at hdone hle
        rw [le_antisymm hle hdone]
    exact ⟨db,if_pos hdone,h,hv⟩
  · have hlast : db.version.getD 0 = databaseSchemaVersion-1 := by
      simp only [databaseSchemaVersion] at *
      omega
    have hfresh := h.legacy (by rw [hlast]; exact le_refl _)
    simp only [if_neg (hlast ▸ hdone),hlast,ne_eq,not_true_eq_false,if_false,Statement.run,hfresh,
      Bool.false_eq_true]
    refine ⟨_,rfl,⟨h.covers.insert (by decide),?_,le_refl _,fun _ => ⟨now,rfl⟩,?_⟩,rfl⟩
    · intro _
      have hmeta : db.schema.hasTable "schema_meta" = true := by
        apply h.metaTable
        rintro hnone
        simp [hnone,databaseSchemaVersion,legacySchemaVersion] at hlast
      simpa [Schema.hasTable] using hmeta
    · intro hlow
      exact absurd hlow (Nat.not_succ_le_self legacySchemaVersion)

/-! Whole runs. -/

section Sound

variable {ι : Type*}

/-- What holds between transactions while no call has failed. -/
structure Sound (w : World ι) : Prop where
  wellFormed : WellFormed w.db
  failures : w.failures = []
  finished : w.finished = true → w.db.version = some databaseSchemaVersion
  pending : ∀ i, (w.procs i).phase = .pending → legacySchemaVersion ≤ w.db.version.getD 0

theorem Sound.serves {w : World ι} (h : Sound w) : Serves w :=
  ⟨h.failures,fun hf => ⟨h.finished hf,h.wellFormed.recorded (h.finished hf)⟩⟩

theorem Sound.start {db : Db} (h : WellFormed db) : Sound (World.start (ι := ι) db) where
  wellFormed := h
  failures := rfl
  finished hf := by simp [World.start] at hf
  pending i hi := by simp [World.start] at hi

/-- Replacing the file by a sound one at version 12 or above. -/
theorem Sound.replaceDb {w : World ι} {db : Db} (procs : ι → Process) (h : Sound w)
    (hdb : WellFormed db) (hversion : legacySchemaVersion ≤ db.version.getD 0)
    (hfinished : w.finished = true → db.version = some databaseSchemaVersion) :
    Sound { w with db := db, procs := procs } where
  wellFormed := hdb
  failures := h.failures
  finished := hfinished
  pending _ _ := hversion

theorem Sound.coreInit {w : World ι} (h : Sound w)
    (hold : w.db.version.getD 0 ≤ legacySchemaVersion) :
    ∃ db, coreInitDb w.db = .ok db ∧
      ∀ procs : ι → Process, Sound { w with db := db, procs := procs } := by
  obtain ⟨db,hrun,hdb,hversion⟩ := coreInitDb_wellFormed h.wellFormed hold
  refine ⟨db,hrun,fun procs => h.replaceDb procs hdb (by simp [hversion]) fun hf => ?_⟩
  rw [h.finished hf] at hold
  exact absurd hold (Nat.not_succ_le_self legacySchemaVersion)

variable [DecidableEq ι]

@[simp] theorem goto_phase (w : World ι) (i j : ι) (phase : Phase) :
    ((w.goto i phase).procs j).phase = if j = i then phase else (w.procs j).phase := by
  by_cases h : j = i
  · subst h
    simp [World.goto]
  · simp [World.goto,h]

/-- A move to a phase other than `pending` keeps the world sound. -/
theorem Sound.goto {w : World ι} (h : Sound w) (i : ι) {phase : Phase} (hp : phase ≠ .pending) :
    Sound (w.goto i phase) where
  wellFormed := h.wellFormed
  failures := h.failures
  finished := h.finished
  pending j hj := by
    rw [goto_phase] at hj
    split at hj
    · exact absurd hj hp
    · exact h.pending j hj

theorem ownedStep_sound {w w' : World ι} {l : ι × Act} (h : Sound w) (hstep : ownedStep w l w') :
    Sound w' := by
  obtain ⟨rfl,howned⟩ := hstep
  obtain ⟨i,act⟩ := l
  cases act with
  | startInit =>
    simp only [next]
    split
    · have hversion := existingSchemaVersion_eq h.wellFormed
      have hle := h.wellFormed.version
      have hnot : ¬ existingSchemaVersion w.db > databaseSchemaVersion := by omega
      rw [if_neg hnot]
      split
      · exact h.goto i (by decide)
      · rename_i hcurrent
        have hv : w.db.version = some databaseSchemaVersion := by
          cases hv : w.db.version with
          | none => simp [hversion,hv] at hcurrent
          | some v =>
            simp only [hversion,hv,Option.getD_some,databaseSchemaVersion] at hcurrent hle ⊢
            congr
            omega
        exact ⟨h.wellFormed,h.failures,fun _ => hv,h.pending⟩
    · exact h
  | legacyInit =>
    simp only [next]
    split
    · rename_i hphase
      obtain ⟨db,hrun,hsound⟩ := h.coreInit (howned hphase)
      rw [hrun]
      exact hsound _
    · exact h
  | applyPending now =>
    simp only [next]
    split
    · rename_i hphase
      obtain ⟨db,hrun,hdb,hversion⟩ :=
        applyPendingMigration_wellFormed h.wellFormed (h.pending i hphase) now
      rw [hrun]
      refine ⟨hdb,h.failures,fun _ => hversion,fun _ _ => ?_⟩
      rw [hversion]
      decide
    · exact h
  | quotaUse =>
    simp only [next]
    split
    · rename_i huse
      obtain ⟨db,hrun,hsound⟩ := h.coreInit (howned huse)
      rw [hrun]
      exact hsound _
    · exact h

/-- A failure is never forgotten. -/
theorem next_failures (w : World ι) (l : ι × Act) : w.failures <:+ (next w l).failures := by
  obtain ⟨i,act⟩ := l
  cases act <;> simp only [next] <;> repeat' split
  all_goals simp [World.goto,World.fail]

theorem run_failures {w w' : World ι} {labels : List (ι × Act)} (h : Run step w labels w') :
    w.failures <:+ w'.failures := by
  induction h with
  | nil w => exact List.suffix_refl _
  | @cons w l v labels w' hstep _ ih =>
    have hnext : w.failures <:+ v.failures := hstep ▸ next_failures w l
    exact hnext.trans ih

/-- The old initialiser fails on every file it does not own any more. -/
theorem next_runsLegacyInit {w : World ι} {l : ι × Act} (hl : runsLegacyInit w l)
    (hnew : legacySchemaVersion < w.db.version.getD 0) : (next w l).failures ≠ [] := by
  obtain ⟨e,he⟩ := coreInitDb_newer hnew
  obtain ⟨i,act⟩ := l
  cases act with
  | startInit => exact hl.elim
  | applyPending now => exact hl.elim
  | legacyInit =>
    simp only [runsLegacyInit] at hl
    simp [next,hl,he,World.fail]
  | quotaUse =>
    simp only [runsLegacyInit] at hl
    simp [next,hl,he,World.fail]

theorem run_ownedStep {w w' : World ι} {labels : List (ι × Act)} (h : Run step w labels w')
    (hnone : w'.failures = []) : Run ownedStep w labels w' := by
  induction h with
  | nil w => exact .nil w
  | @cons w l v labels w' hstep htail ih =>
    refine .cons ⟨hstep,fun hl => ?_⟩ (ih hnone)
    by_contra hnew
    have hfailed : v.failures ≠ [] := hstep ▸ next_runsLegacyInit hl (not_le.mp hnew)
    exact hfailed (List.suffix_nil.mp (hnone ▸ run_failures htail))

/-- Initialisers commute exactly as long as `database_core.init_db` is never executed
on a file that has already reached version 13. -/
theorem initialisation_commutes_iff {db : Db} (h : WellFormed db) {labels : List (ι × Act)}
    {w : World ι} (hrun : Run step (World.start db) labels w) :
    Serves w ↔ Run ownedStep (World.start db) labels w := by
  constructor
  · exact fun hserves => run_ownedStep hrun hserves.1
  · intro howned
    exact (howned.invariant Sound (fun _ _ _ hs hst => ownedStep_sound hs hst)
      (Sound.start h)).serves

theorem wellFormed_emptyFile : WellFormed Db.emptyFile where
  covers t present ht := by simp [Db.emptyFile,Schema.empty] at ht
  metaTable h := absurd rfl h
  version := Nat.zero_le _
  recorded h := by simp [Db.emptyFile] at h
  legacy _ := by decide

/-- Quota uses before the upgrade, and two processes that initialise one after the other. -/
theorem initialisation_commutes_emptyFile :
    let labels : List (Bool × Act) :=
      [(false,.quotaUse),(true,.startInit),(true,.legacyInit),(true,.quotaUse),
        (true,.applyPending 5),(false,.startInit)]
    let w := labels.foldl next (World.start Db.emptyFile)
    Serves w ↔ Run ownedStep (World.start Db.emptyFile) labels w :=
  initialisation_commutes_iff wellFormed_emptyFile (Run.foldl next _ _)

/-- One process initialises an empty file and then uses the quota module: the old
initialiser reports a newer database. -/
theorem quotaUse_after_init_fails :
    let labels : List (Bool × Act) :=
      [(false,.startInit),(false,.legacyInit),(false,.applyPending 5),(false,.quotaUse)]
    ∃ w, WellFormed Db.emptyFile ∧ Run step (World.start Db.emptyFile) labels w ∧
      w.failures = [.newer 13 12] ∧ ¬ Serves w := by
  intro labels
  have hfailed : (labels.foldl next (World.start Db.emptyFile)).failures = [.newer 13 12] := by
    decide
  refine ⟨_,wellFormed_emptyFile,Run.foldl next _ _,hfailed,fun hserves => ?_⟩
  rw [hserves.1] at hfailed
  cases hfailed

end Sound
end SchemaInit
end WormholeObservatory
