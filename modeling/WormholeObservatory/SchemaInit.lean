import WormholeObservatory.SchemaScripts

/-! The two schema initialisers: `database_core.init_db`, which owns versions up
to 12, and `database_migrations.init_db`, which owns version 13 and calls the
other. Each connection either commits or rolls back as a whole. -/
namespace WormholeObservatory
namespace SchemaInit

open Ddl

structure MigrationRow where
  version : ℕ
  name : String
  appliedAt : ℤ
  deriving DecidableEq

/-- A database file: its schema, the `schema_version` row of `schema_meta` and the
rows of `schema_migrations`. -/
structure Db where
  schema : Schema
  version : Option ℕ
  history : List MigrationRow

def Db.emptyFile : Db := ⟨.empty,none,[]⟩

inductive InitError
  | newer (existing supported : ℕ)
  | statement (failure : Failure)
  | missingMigration (version : ℕ)
  | migrationFailed (version : ℕ) (name : String)
  deriving DecidableEq

/-- `database_core.DATABASE_SCHEMA_VERSION`. -/
def legacySchemaVersion : ℕ := 12

/-- `database_migrations.DATABASE_SCHEMA_VERSION`. -/
def databaseSchemaVersion : ℕ := legacySchemaVersion+1

def legacySchemaBaselineVersion : ℕ := 7

def stagingColumns : List String :=
  ["domain","state","attempts","created_at","updated_at","last_error","priority","source",
    "pool_id","available_at"]

def reviewColumns : List String :=
  ["domain","categories","policy","short","details","provider","status","service","service_role",
    "privacy_risk","security_risk","breakage_risk","confidence","needs_review","review_reason",
    "next_recheck_at","planned_action","action_status","created_at","updated_at"]

def classificationColumns : List String :=
  ["id","domain","provider","provider_id","model","profile","prompt_hash","policy","primary_tag",
    "tags_json","service","service_role","privacy_risk","security_risk","breakage_risk",
    "confidence","needs_review","review_reason","short","details","raw_text","planned_action",
    "action_status","analysis_run_id","pool_id","pool_mode","is_primary","latency_ms",
    "input_tokens","output_tokens","created_at","expires_at"]

def researchColumns : List String :=
  ["id","domain","provider","kind","title","summary","source_url","confidence","signal_type",
    "verdict","decision_relevant","raw_json","retrieved_at","expires_at"]

def quotaColumns : List String :=
  ["id","scope_key","provider_id","pool_id","state","domain_count","request_count","input_tokens",
    "output_tokens","units","created_at","expires_at","completed_at"]

def runtimeQuotaColumns : List String :=
  ["scope_key","metric","window_seconds","limit_amount","remaining_amount","reset_at",
    "observed_at","source"]

def benchmarkRunColumns : List String :=
  ["id","domain","pool_id","dossier_json","dossier_hash","status","error","created_at",
    "completed_at"]

/-- The script of `database_core.init_db`, in order. -/
def legacyScript : List Statement :=
  [.createTableIfMissing "staging_domains" stagingColumns,
   .createIndexIfMissing "idx_staging_state_created" "staging_domains" ["state","created_at"],
   .createTableIfMissing "domains" ["domain","first_seen","last_seen","query_count",
     "last_classified_at","next_recheck_at","last_researched_at","current_policy",
     "current_service","current_service_role"],
   .createIndexIfMissing "idx_domains_recheck" "domains" ["next_recheck_at","last_seen"],
   .createTableIfMissing "query_observations" ["domain","client","query_type","status",
     "bucket_start","query_count","first_seen","last_seen"],
   .createTableIfMissing "domain_tags" ["domain","tag","source","confidence","created_at",
     "updated_at"],
   .createTableIfMissing "review" reviewColumns,
   .createTableIfMissing "classification_runs" classificationColumns,
   .createIndexIfMissing "idx_classification_domain_created" "classification_runs"
     ["domain","created_at"],
   .createTableIfMissing "research_findings" researchColumns,
   .createIndexIfMissing "idx_research_domain_expiry" "research_findings"
     ["domain","expires_at","retrieved_at"],
   .createTableIfMissing "domain_locks" ["domain","list_type","reason","created_at","updated_at"],
   .createTableIfMissing "review_tasks" ["id","domain","reason","priority","status","source",
     "decision","created_at","updated_at"],
   .createIndexIfMissing "idx_review_tasks_status_priority" "review_tasks"
     ["status","priority","created_at"],
   .createTableIfMissing "app_state" ["key","value","updated_at"],
   .createTableIfMissing "analysis_runs" ["id","pool_id","mode","source","dossier_hash","status",
     "error","created_at","completed_at"],
   .createIndexIfMissing "idx_analysis_runs_created" "analysis_runs" ["created_at"],
   .createTableIfMissing "provider_health" ["provider_id","state","cooldown_until",
     "consecutive_failures","last_error","last_success_at","last_failure_at","latency_ewma_ms",
     "updated_at"],
   .createTableIfMissing "quota_reservations" quotaColumns,
   .createIndexIfMissing "idx_quota_scope_created" "quota_reservations" ["scope_key","created_at"],
   .createTableIfMissing "runtime_quota_state" runtimeQuotaColumns,
   .createTableIfMissing "model_benchmark_runs" benchmarkRunColumns,
   .createTableIfMissing "model_benchmark_results" ["id","run_id","provider_id","provider_name",
     "model","status","error","latency_ms","input_tokens","output_tokens","classification_json",
     "raw_text","created_at"],
   .createIndexIfMissing "idx_benchmark_results_run" "model_benchmark_results" ["run_id","id"]]

def stagingAdditions : List String := ["priority","source","pool_id","available_at"]

def reviewAdditions : List String :=
  ["policy","short","provider","status","service","service_role","privacy_risk","security_risk",
    "breakage_risk","confidence","needs_review","review_reason","next_recheck_at",
    "planned_action","action_status"]

def classificationAdditions : List String :=
  ["planned_action","action_status","provider_id","analysis_run_id","pool_id","pool_mode",
    "is_primary","latency_ms","input_tokens","output_tokens"]

def researchAdditions : List String := ["signal_type","verdict","decision_relevant","raw_json"]

/-- `_migrate_staging_table`. -/
def migrateStagingTable (s : Schema) : Except Failure Schema := do
  let s ← addMissingColumns "staging_domains" stagingAdditions s
  runScript [.update "staging_domains" ["pool_id","priority","source"],
    .createIndexIfMissing "idx_staging_pool_state_created" "staging_domains"
      ["pool_id","state","priority","created_at"]] s

/-- `_migrate_review_table`: an old `comment` column is folded into `categories`. -/
def migrateReviewTable (s : Schema) : Except Failure Schema := do
  let hadComment := s.hasColumns "review" ["comment"]
  let s ← addMissingColumns "review" reviewAdditions s
  if hadComment then runScript [.update "review" ["categories","comment"]] s else pure s

/-- `_migrate_classification_table`. -/
def migrateClassificationTable (s : Schema) : Except Failure Schema :=
  addMissingColumns "classification_runs" classificationAdditions s

/-- `_migrate_research_table`: an old `raw_data` column is copied to `raw_json`. -/
def migrateResearchTable (s : Schema) : Except Failure Schema := do
  let hadRaw := s.hasColumns "research_findings" ["raw_data"]
  let s ← addMissingColumns "research_findings" researchAdditions s
  if hadRaw then runScript [.update "research_findings" ["raw_json","raw_data"]] s else pure s

/-- `_migrate_quota_tables`. -/
def migrateQuotaTables (s : Schema) : Except Failure Schema := do
  let s ← addMissingColumns "quota_reservations" ["domain_count"] s
  runScript [.createTableIfMissing "runtime_quota_state" runtimeQuotaColumns] s

/-- `SCHEMA_MIGRATIONS`. -/
def schemaMigrations : ℕ → Option (Schema → Except Failure Schema)
  | 8 => some migrateStagingTable
  | 9 => some migrateReviewTable
  | 10 => some fun s => do migrateResearchTable (← migrateClassificationTable s)
  | 11 => some migrateQuotaTables
  | 12 => some (addMissingColumns "model_benchmark_runs" ["error"])
  | _ => none

/-- The loop of `_run_schema_migrations`, each turn stamping its own version. -/
def runMigrations : List ℕ → Db → Except InitError Db
  | [], db => .ok db
  | target::targets, db =>
    match schemaMigrations target with
    | none => .error (.missingMigration target)
    | some migration =>
      match migration db.schema with
      | .error f => .error (.statement f)
      | .ok s => runMigrations targets { db with schema := s, version := some target }

/-- `_run_schema_migrations`. -/
def runSchemaMigrations (existingVersion : ℕ) (db : Db) : Except InitError Db :=
  let current := max existingVersion legacySchemaBaselineVersion
  if current ≥ legacySchemaVersion then .ok db
  else runMigrations (List.range' (current+1) (legacySchemaVersion-current)) db

/-- `database_core.init_db`. -/
def coreInitDb (db : Db) : Except InitError Db :=
  match runScript [.createTableIfMissing "schema_meta" ["key","value"]] db.schema with
  | .error f => .error (.statement f)
  | .ok s =>
    let existing := db.version.getD 0
    if existing > legacySchemaVersion then .error (.newer existing legacySchemaVersion)
    else
      match runScript legacyScript s with
      | .error f => .error (.statement f)
      | .ok s => runSchemaMigrations existing { db with schema := s }

/-- `database_migrations._existing_schema_version`. -/
def existingSchemaVersion (db : Db) : ℕ :=
  if db.schema.hasTable "schema_meta" then db.version.getD 0 else 0

def migrationName : String := "add migration history"

def baselineRow : MigrationRow := ⟨legacySchemaVersion,"legacy schema baseline (pre-history)",0⟩

/-- One turn of `_apply_pending_migrations`, for version 13: re-read the version
inside the transaction, create the history and stamp it. -/
def applyPendingMigration (now : ℤ) (db : Db) : Except InitError Db :=
  let actual := existingSchemaVersion db
  if actual ≥ databaseSchemaVersion then .ok db
  else if actual ≠ databaseSchemaVersion-1 then
    .error (.migrationFailed databaseSchemaVersion migrationName)
  else
    match Statement.run db.schema
        (.createTable "schema_migrations" ["version","name","applied_at"]) with
    | .error _ => .error (.migrationFailed databaseSchemaVersion migrationName)
    | .ok s => .ok
      { schema := s, version := some databaseSchemaVersion
        history := [baselineRow,⟨databaseSchemaVersion,migrationName,now⟩] }

/-! What a database file of this application looks like. -/

def scriptColumns (t : String) : List String :=
  (legacyScript.findSome? fun
    | .createTableIfMissing t' columns => if t' = t then some columns else none
    | _ => none).getD []

def addedColumns : String → List String
  | "staging_domains" => stagingAdditions
  | "review" => reviewAdditions
  | "classification_runs" => classificationAdditions
  | "research_findings" => researchAdditions
  | "quota_reservations" => ["domain_count"]
  | "model_benchmark_runs" => ["error"]
  | _ => []

/-- The columns every version of a table has had: those no migration adds. -/
def baseColumns (t : String) : List String :=
  (scriptColumns t).filter (· ∉ addedColumns t)

/-- `schema_migrations` in version order, as version 13 leaves it. -/
def Recorded (history : List MigrationRow) : Prop :=
  ∃ now, history = [baselineRow,⟨databaseSchemaVersion,migrationName,now⟩]

/-- Files that are empty or at a schema version up to 13. -/
structure WellFormed (db : Db) : Prop where
  covers : Covers baseColumns db.schema
  metaTable : db.version ≠ none → db.schema.hasTable "schema_meta" = true
  version : db.version.getD 0 ≤ databaseSchemaVersion
  recorded : db.version = some databaseSchemaVersion → Recorded db.history
  legacy : db.version.getD 0 ≤ legacySchemaVersion →
    db.schema.hasTable "schema_migrations" = false

/-! Initialisation of a file the old initialiser still owns. -/

/-- A schema on which every statement of the migrations finds what it names. -/
structure Serviceable (s : Schema) : Prop where
  covers : Covers baseColumns s
  holds : Holds (created legacyScript++["schema_meta"]) s
  fresh : s.hasTable "schema_migrations" = false

theorem Serviceable.of_tables {s s' : Schema} (h : Serviceable s)
    (htables : s'.tables = s.tables) : Serviceable s' where
  covers t present ht := h.covers t present (htables ▸ ht)
  holds t ht := by simpa [Schema.hasTable,htables] using h.holds t ht
  fresh := by simpa [Schema.hasTable,htables] using h.fresh

/-- The columns of a table after the missing ones were added to it. -/
structure Widened (t : String) (columns : List String) (s s' : Schema) : Prop where
  serviceable : Serviceable s'
  columns : ∀ extra cs, (∀ c ∈ extra, s.hasColumns t [c] = true) →
    cs ⊆ columns++baseColumns t++extra → s'.hasColumns t cs = true

theorem addMissingColumns_serviceable {s : Schema} (h : Serviceable s) {t : String}
    {columns : List String} (ht : t ∈ created legacyScript) (hnodup : columns.Nodup) :
    ∃ s', addMissingColumns t columns s = .ok s' ∧ Widened t columns s s' := by
  obtain ⟨present,hp⟩ := hasTable_iff.mp (h.holds t (List.mem_append_left _ ht))
  obtain ⟨s',hrun,⟨present',hself,hold,hnew⟩,hother⟩ := addMissingColumns_ok t columns hnodup s hp
  have hne : "schema_migrations" ≠ t := by
    rintro rfl
    exact absurd ht (by decide)
  refine ⟨s',hrun,⟨⟨?_,?_,?_⟩,?_⟩⟩
  · intro u cs hu
    by_cases hut : u = t
    · subst hut
      obtain rfl : present' = cs := Option.some.inj (hself.symm.trans hu)
      exact List.Subset.trans (h.covers u present hp) hold
    · exact h.covers u cs (hother u hut ▸ hu)
  · intro u hu
    by_cases hut : u = t
    · subst hut
      simp [Schema.hasTable,hself]
    · simpa [Schema.hasTable,hother u hut] using h.holds u hu
  · simpa [Schema.hasTable,hother _ hne] using h.fresh
  · intro extra cs hextra hcs
    apply hasColumns_of_lookup hself
    intro c hc
    rcases List.mem_append.mp (hcs hc) with hc | hc
    · rcases List.mem_append.mp hc with hc | hc
      · exact hnew hc
      · exact hold (h.covers t present hp hc)
    · exact hold (by simpa [Schema.hasColumns,hp] using hextra c hc)

theorem migrateStagingTable_ok {s : Schema} (h : Serviceable s) :
    ∃ s', migrateStagingTable s = .ok s' ∧ Serviceable s' := by
  obtain ⟨s',hrun,hw⟩ := addMissingColumns_serviceable h
    (show "staging_domains" ∈ created legacyScript by decide)
    (show stagingAdditions.Nodup by decide)
  have hupdate := hw.columns [] ["pool_id","priority","source"] (by simp) (by decide)
  have hindex := hw.columns [] ["pool_id","state","priority","created_at"] (by simp) (by decide)
  by_cases hi : "idx_staging_pool_state_created" ∈ s'.indexes
  · refine ⟨s',?_,hw.serviceable⟩
    simp [migrateStagingTable,hrun,bind,Except.bind,runScript,Statement.run,hupdate,hi]
  · refine ⟨{ s' with indexes := "idx_staging_pool_state_created"::s'.indexes },?_,
      hw.serviceable.of_tables rfl⟩
    simp [migrateStagingTable,hrun,bind,Except.bind,runScript,Statement.run,hupdate,hindex,hi]

theorem migrateReviewTable_ok {s : Schema} (h : Serviceable s) :
    ∃ s', migrateReviewTable s = .ok s' ∧ Serviceable s' := by
  obtain ⟨s',hrun,hw⟩ := addMissingColumns_serviceable h
    (show "review" ∈ created legacyScript by decide) (show reviewAdditions.Nodup by decide)
  refine ⟨s',?_,hw.serviceable⟩
  cases hcomment : s.hasColumns "review" ["comment"] with
  | false => simp [migrateReviewTable,hcomment,hrun,bind,Except.bind,pure,Except.pure]
  | true =>
    have hupdate := hw.columns ["comment"] ["categories","comment"] (by simpa using hcomment)
      (by decide)
    simp [migrateReviewTable,hcomment,hrun,bind,Except.bind,runScript,Statement.run,hupdate]

theorem migrateResearchTable_ok {s : Schema} (h : Serviceable s) :
    ∃ s', migrateResearchTable s = .ok s' ∧ Serviceable s' := by
  obtain ⟨s',hrun,hw⟩ := addMissingColumns_serviceable h
    (show "research_findings" ∈ created legacyScript by decide)
    (show researchAdditions.Nodup by decide)
  refine ⟨s',?_,hw.serviceable⟩
  cases hraw : s.hasColumns "research_findings" ["raw_data"] with
  | false => simp [migrateResearchTable,hraw,hrun,bind,Except.bind,pure,Except.pure]
  | true =>
    have hupdate := hw.columns ["raw_data"] ["raw_json","raw_data"] (by simpa using hraw)
      (by decide)
    simp [migrateResearchTable,hraw,hrun,bind,Except.bind,runScript,Statement.run,hupdate]

theorem migrateQuotaTables_ok {s : Schema} (h : Serviceable s) :
    ∃ s', migrateQuotaTables s = .ok s' ∧ Serviceable s' := by
  obtain ⟨s',hrun,hw⟩ := addMissingColumns_serviceable h
    (show "quota_reservations" ∈ created legacyScript by decide)
    (show ["domain_count"].Nodup by decide)
  have hruntime : s'.hasTable "runtime_quota_state" = true :=
    hw.serviceable.holds _ (by decide)
  refine ⟨s',?_,hw.serviceable⟩
  simp [migrateQuotaTables,hrun,bind,Except.bind,runScript,Statement.run,hruntime]

/-- Versions 8 to 12 all have a migration, and it succeeds. -/
theorem schemaMigrations_ok {target : ℕ} (hlow : 8 ≤ target) (hhigh : target ≤ 12) {s : Schema}
    (h : Serviceable s) :
    ∃ migration, schemaMigrations target = some migration ∧
      ∃ s', migration s = .ok s' ∧ Serviceable s' := by
  have hcases : target = 8 ∨ target = 9 ∨ target = 10 ∨ target = 11 ∨ target = 12 := by omega
  rcases hcases with rfl | rfl | rfl | rfl | rfl
  · exact ⟨_,rfl,migrateStagingTable_ok h⟩
  · exact ⟨_,rfl,migrateReviewTable_ok h⟩
  · obtain ⟨s₁,hrun,hw⟩ := addMissingColumns_serviceable h
      (show "classification_runs" ∈ created legacyScript by decide)
      (show classificationAdditions.Nodup by decide)
    obtain ⟨s₂,hrun₂,h₂⟩ := migrateResearchTable_ok hw.serviceable
    refine ⟨_,rfl,s₂,?_,h₂⟩
    simp [migrateClassificationTable,hrun,hrun₂,bind,Except.bind]
  · exact ⟨_,rfl,migrateQuotaTables_ok h⟩
  · obtain ⟨s₁,hrun,hw⟩ := addMissingColumns_serviceable h
      (show "model_benchmark_runs" ∈ created legacyScript by decide)
      (show ["error"].Nodup by decide)
    exact ⟨_,rfl,s₁,hrun,hw.serviceable⟩

theorem runMigrations_ok (targets : List ℕ) (htargets : ∀ v ∈ targets, 8 ≤ v ∧ v ≤ 12) (db : Db)
    (h : Serviceable db.schema) :
    ∃ s', runMigrations targets db =
      .ok { db with schema := s', version := (targets.getLast?).orElse fun _ => db.version } ∧
        Serviceable s' := by
  induction targets generalizing db with
  | nil => exact ⟨db.schema,rfl,h⟩
  | cons target targets ih =>
    obtain ⟨hlow,hhigh⟩ := htargets target (by simp)
    obtain ⟨migration,hm,s₁,hrun,h₁⟩ := schemaMigrations_ok hlow hhigh h
    obtain ⟨s',hrest,h'⟩ := ih (fun v hv => htargets v (by simp [hv]))
      { db with schema := s₁, version := some target } h₁
    refine ⟨s',?_,h'⟩
    simp only [runMigrations,hm,hrun,hrest]
    cases targets with
    | nil => rfl
    | cons v vs =>
      obtain ⟨last,hlast⟩ : ∃ last, (v::vs).getLast? = some last :=
        ⟨_,List.getLast?_eq_some_getLast (List.cons_ne_nil v vs)⟩
      rw [List.getLast?_cons_cons,hlast]
      rfl

/-- On a file at version 12 or below the old initialiser succeeds and leaves version 12. -/
theorem coreInitDb_ok {db : Db} (h : WellFormed db)
    (hold : db.version.getD 0 ≤ legacySchemaVersion) :
    ∃ s', coreInitDb db = .ok { db with schema := s', version := some legacySchemaVersion } ∧
      Serviceable s' := by
  have hmeta : ∃ s₀, runScript [.createTableIfMissing "schema_meta" ["key","value"]] db.schema =
      .ok s₀ ∧ Leaves baseColumns [] [.createTableIfMissing "schema_meta" ["key","value"]]
        db.schema s₀ :=
    runScript_wellScoped _ [] db.schema (by decide) h.covers (by simp [Holds])
  obtain ⟨s₀,hrun₀,hl₀⟩ := hmeta
  obtain ⟨s₁,hrun₁,hl₁⟩ := runScript_wellScoped legacyScript ["schema_meta"] s₀
    (by decide) hl₀.covers (fun t ht => hl₀.holds t (by simpa [created] using ht))
  have hfresh : s₁.hasTable "schema_migrations" = false := by
    have hkeep := h.legacy hold
    rw [Schema.hasTable] at hkeep ⊢
    rw [hl₁.frame _ (by decide),hl₀.frame _ (by decide)]
    exact hkeep
  have hserv : Serviceable s₁ := ⟨hl₁.covers,hl₁.holds,hfresh⟩
  have hnot : ¬ db.version.getD 0 > legacySchemaVersion := not_lt.mpr hold
  simp only [coreInitDb,hrun₀,hnot,if_false,hrun₁,runSchemaMigrations]
  by_cases hcurrent : max (db.version.getD 0) legacySchemaBaselineVersion ≥ legacySchemaVersion
  · rw [if_pos hcurrent]
    have h12 : db.version = some legacySchemaVersion := by
      simp only [legacySchemaVersion,legacySchemaBaselineVersion] at hold hcurrent ⊢
      cases hv : db.version with
      | none => simp [hv] at hcurrent
      | some v =>
        simp only [hv,Option.getD_some] at hold hcurrent
        have : v = 12 := by omega
        rw [this]
    exact ⟨s₁,by rw [h12],hserv⟩
  · rw [if_neg hcurrent]
    simp only [legacySchemaVersion,legacySchemaBaselineVersion] at hcurrent ⊢
    have hlt : max (db.version.getD 0) 7 < 12 := not_le.mp hcurrent
    obtain ⟨s',hrun,h'⟩ := runMigrations_ok
      (List.range' (max (db.version.getD 0) 7+1) (12-max (db.version.getD 0) 7))
      (by intro v hv; rw [List.mem_range'_1] at hv; omega) { db with schema := s₁ } hserv
    refine ⟨s',?_,h'⟩
    rw [hrun]
    have hlast : (List.range' (max (db.version.getD 0) 7+1)
        (12-max (db.version.getD 0) 7)).getLast? = some 12 := by
      rw [List.getLast?_range']
      split
      · omega
      · congr 1; omega
    rw [hlast]
    rfl

end SchemaInit
end WormholeObservatory
