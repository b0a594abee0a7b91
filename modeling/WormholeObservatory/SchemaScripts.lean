import WormholeObservatory.Tables

/-! Schema statements of a relational database, as far as they can fail.
A schema knows which columns each table has and which indexes exist. A script
is a list of statements run in order; the first failure stops it. `wellScoped`
is a static check on a script, and a script that passes it cannot fail on any
schema whose tables cover the columns the script relies on. -/
namespace Ddl

structure Schema where
  tables : Table String (List String)
  indexes : List String

def Schema.empty : Schema := ⟨∅,[]⟩

def Schema.hasTable (s : Schema) (t : String) : Bool := (s.tables.lookup t).isSome

def Schema.hasColumns (s : Schema) (t : String) (columns : List String) : Bool :=
  match s.tables.lookup t with
  | none => false
  | some present => columns.all (· ∈ present)

inductive Statement
  | createTable (table : String) (columns : List String)
  | createTableIfMissing (table : String) (columns : List String)
  | createIndexIfMissing (index table : String) (columns : List String)
  | addColumn (table column : String)
  | update (table : String) (columns : List String)

inductive Failure
  | tableExists (table : String)
  | noSuchTable (table : String)
  | noSuchColumn (table : String)
  | duplicateColumn (table column : String)
  deriving DecidableEq

def Statement.run (s : Schema) : Statement → Except Failure Schema
  | .createTable t columns =>
    if s.hasTable t then .error (.tableExists t)
    else .ok { s with tables := s.tables.insert t columns }
  | .createTableIfMissing t columns =>
    if s.hasTable t then .ok s else .ok { s with tables := s.tables.insert t columns }
  | .createIndexIfMissing i t columns =>
    if i ∈ s.indexes then .ok s
    else if s.hasColumns t columns then .ok { s with indexes := i::s.indexes }
    else .error (.noSuchColumn t)
  | .addColumn t column =>
    match s.tables.lookup t with
    | none => .error (.noSuchTable t)
    | some present =>
      if column ∈ present then .error (.duplicateColumn t column)
      else .ok { s with tables := s.tables.insert t (present++[column]) }
  | .update t columns => if s.hasColumns t columns then .ok s else .error (.noSuchColumn t)

def runScript : List Statement → Schema → Except Failure Schema
  | [], s => .ok s
  | st::script, s =>
    match st.run s with
    | .error e => .error e
    | .ok s' => runScript script s'

/-- Read the columns of a table, then add the listed ones it lacks. -/
def addMissingColumns (t : String) (columns : List String) (s : Schema) : Except Failure Schema :=
  let present := (s.tables.lookup t).getD []
  runScript ((columns.filter (· ∉ present)).map (.addColumn t)) s

/-- The tables a script creates. -/
def created : List Statement → List String
  | [] => []
  | .createTable t _::script => t::created script
  | .createTableIfMissing t _::script => t::created script
  | _::script => created script

/-- Every table the schema holds has the columns `need` lists for it. -/
def Covers (need : String → List String) (s : Schema) : Prop :=
  ∀ t present, s.tables.lookup t = some present → need t ⊆ present

def Holds (made : List String) (s : Schema) : Prop := ∀ t ∈ made, s.hasTable t = true

/-- Static check: tables are created with what is needed of them, and indexes and
updates name needed columns of tables that were made before. -/
def wellScoped (need : String → List String) : List String → List Statement → Bool
  | _, [] => true
  | _, .createTable _ _::_ => false
  | made, .createTableIfMissing t columns::script =>
    (need t).all (· ∈ columns) && wellScoped need (t::made) script
  | made, .createIndexIfMissing _ t columns::script =>
    decide (t ∈ made) && columns.all (· ∈ need t) && wellScoped need made script
  | _, .addColumn _ _::_ => false
  | made, .update t columns::script =>
    decide (t ∈ made) && columns.all (· ∈ need t) && wellScoped need made script

section Basic

variable {need : String → List String} {made : List String} {s s' : Schema}

theorem hasTable_iff {t : String} : s.hasTable t = true ↔ ∃ present, s.tables.lookup t = some present :=
  Option.isSome_iff_exists

theorem hasColumns_of_lookup {t : String} {columns present : List String}
    (h : s.tables.lookup t = some present) (hsub : columns ⊆ present) :
    s.hasColumns t columns = true := by
  simp only [Schema.hasColumns,h,List.all_eq_true,decide_eq_true_eq]
  exact fun c hc => hsub hc

theorem hasColumns_of_made {t : String} {columns : List String} (hcov : Covers need s)
    (hmade : Holds made s) (ht : t ∈ made) (hsub : columns ⊆ need t) :
    s.hasColumns t columns = true := by
  obtain ⟨present,hp⟩ := hasTable_iff.mp (hmade t ht)
  exact hasColumns_of_lookup hp (List.Subset.trans hsub (hcov t present hp))

theorem Covers.insert (hcov : Covers need s) {t : String} {columns : List String}
    (hsub : need t ⊆ columns) : Covers need { s with tables := s.tables.insert t columns } := by
  intro u present hu
  by_cases h : u = t
  · subst h
    simp only [AList.lookup_insert,Option.some.injEq] at hu
    exact hu ▸ hsub
  · rw [AList.lookup_insert_ne h] at hu
    exact hcov u present hu

theorem Holds.insert (hmade : Holds made s) (t : String) (columns : List String) :
    Holds (t::made) { s with tables := s.tables.insert t columns } := by
  intro u hu
  by_cases h : u = t
  · subst h
    simp [Schema.hasTable]
  · have hu' : u ∈ made := by simpa [h] using hu
    simpa [Schema.hasTable,AList.lookup_insert_ne h] using hmade u hu'

end Basic

/-- What a well-scoped script leaves behind. -/
structure Leaves (need : String → List String) (made : List String) (script : List Statement)
    (s s' : Schema) : Prop where
  covers : Covers need s'
  holds : ∀ t ∈ created script ++ made, s'.hasTable t = true
  frame : ∀ t, t ∉ created script → s'.tables.lookup t = s.tables.lookup t

/-- A well-scoped script runs to its end on every schema that covers its needs. -/
theorem runScript_wellScoped {need : String → List String} (script : List Statement)
    (made : List String) (s : Schema) (hscope : wellScoped need made script = true)
    (hcov : Covers need s) (hmade : Holds made s) :
    ∃ s', runScript script s = .ok s' ∧ Leaves need made script s s' := by
  induction script generalizing made s with
  | nil => exact ⟨s,rfl,hcov,by simpa [created,Holds] using hmade,fun _ _ => rfl⟩
  | cons st script ih =>
    cases st with
    | createTable t columns => simp [wellScoped] at hscope
    | addColumn t column => simp [wellScoped] at hscope
    | createTableIfMissing t columns =>
      simp only [wellScoped,Bool.and_eq_true,List.all_eq_true,decide_eq_true_eq] at hscope
      by_cases ht : s.hasTable t = true
      · have hmade' : Holds (t::made) s := by
          intro u hu
          rcases List.mem_cons.mp hu with rfl | hu
          · exact ht
          · exact hmade u hu
        obtain ⟨s',hrun,hl⟩ := ih (t::made) s hscope.2 hcov hmade'
        refine ⟨s',by simpa [runScript,Statement.run,ht] using hrun,hl.covers,?_,?_⟩
        · intro u hu
          exact hl.holds u (by simp only [created,List.mem_append,List.mem_cons] at hu ⊢; tauto)
        · intro u hu
          exact hl.frame u (by simp only [created,List.mem_cons,not_or] at hu; exact hu.2)
      · obtain ⟨s',hrun,hl⟩ := ih (t::made) _ hscope.2 (hcov.insert hscope.1)
          (hmade.insert t columns)
        refine ⟨s',by simpa [runScript,Statement.run,ht] using hrun,hl.covers,?_,?_⟩
        · intro u hu
          exact hl.holds u (by simp only [created,List.mem_append,List.mem_cons] at hu ⊢; tauto)
        · intro u hu
          simp only [created,List.mem_cons,not_or] at hu
          rw [hl.frame u hu.2]
          exact AList.lookup_insert_ne hu.1
    | createIndexIfMissing i t columns =>
      simp only [wellScoped,Bool.and_eq_true,List.all_eq_true,decide_eq_true_eq] at hscope
      have hcols := hasColumns_of_made hcov hmade hscope.1.1 hscope.1.2
      by_cases hi : i ∈ s.indexes
      · obtain ⟨s',hrun,hl⟩ := ih made s hscope.2 hcov hmade
        exact ⟨s',by simpa [runScript,Statement.run,hi] using hrun,hl.covers,hl.holds,hl.frame⟩
      · obtain ⟨s',hrun,hl⟩ := ih made { s with indexes := i::s.indexes } hscope.2 hcov hmade
        exact ⟨s',by simpa [runScript,Statement.run,hi,hcols] using hrun,hl.covers,hl.holds,hl.frame⟩
    | update t columns =>
      simp only [wellScoped,Bool.and_eq_true,List.all_eq_true,decide_eq_true_eq] at hscope
      have hcols := hasColumns_of_made hcov hmade hscope.1.1 hscope.1.2
      obtain ⟨s',hrun,hl⟩ := ih made s hscope.2 hcov hmade
      exact ⟨s',by simpa [runScript,Statement.run,hcols] using hrun,hl.covers,hl.holds,hl.frame⟩

/-- Adding columns a table lacks extends that table and nothing else. -/
theorem runScript_addColumns (t : String) (columns : List String) (hnodup : columns.Nodup)
    (s : Schema) {present : List String} (ht : s.tables.lookup t = some present)
    (hfresh : ∀ c ∈ columns, c ∉ present) :
    ∃ s', runScript (columns.map (.addColumn t)) s = .ok s' ∧
      s'.tables.lookup t = some (present++columns) ∧
      ∀ u, u ≠ t → s'.tables.lookup u = s.tables.lookup u := by
  induction columns generalizing s present with
  | nil => exact ⟨s,rfl,by simpa using ht,fun _ _ => rfl⟩
  | cons c columns ih =>
    obtain ⟨hc,hnodup⟩ := List.nodup_cons.mp hnodup
    have hfresh' : ∀ d ∈ columns, d ∉ present++[c] := by
      intro d hd hmem
      rcases List.mem_append.mp hmem with hmem | hmem
      · exact hfresh d (by simp [hd]) hmem
      · exact hc (List.mem_singleton.mp hmem ▸ hd)
    obtain ⟨s',hrun,hself,hother⟩ := ih hnodup
      { s with tables := s.tables.insert t (present++[c]) } (AList.lookup_insert _) hfresh'
    refine ⟨s',?_,by simpa using hself,fun u hu => ?_⟩
    · simpa [runScript,Statement.run,ht,hfresh c (by simp)] using hrun
    · rw [hother u hu]
      exact AList.lookup_insert_ne hu

theorem addMissingColumns_ok (t : String) (columns : List String) (hnodup : columns.Nodup)
    (s : Schema) {present : List String} (ht : s.tables.lookup t = some present) :
    ∃ s', addMissingColumns t columns s = .ok s' ∧
      (∃ present', s'.tables.lookup t = some present' ∧ present ⊆ present' ∧ columns ⊆ present') ∧
      ∀ u, u ≠ t → s'.tables.lookup u = s.tables.lookup u := by
  obtain ⟨s',hrun,hself,hother⟩ := runScript_addColumns t (columns.filter (· ∉ present))
    (hnodup.filter _) s ht (by simp)
  refine ⟨s',by simpa [addMissingColumns,ht] using hrun,⟨_,hself,by simp,?_⟩,hother⟩
  intro c hc
  by_cases hp : c ∈ present
  · simp [hp]
  · simp [hp,hc]

end Ddl
