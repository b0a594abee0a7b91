import WormholeObservatory.Observations

/-! What the tables hold after any calls of `record_query_observations` on an empty
database. Counts and last times add up to those of the rows, and so do the buckets; the first
time of a domain is taken from the last time of a group. -/
namespace WormholeObservatory
namespace Observations

open Aggregation (Dict Span)
open Aggregation.Span (Covers Summarises)
open Queue (DomainRow)

/-- A row with a positive time in whole seconds. -/
def QueryRow.Dated (row : QueryRow) : Prop := ∃ n : ℤ, 0 < n ∧ row.time = n

def QueryRow.seconds (row : QueryRow) : ℤ := ⌊row.time⌋

theorem QueryRow.Dated.timestamp {row : QueryRow} (h : row.Dated) (now : ℤ) :
    row.timestamp now = row.seconds := by
  obtain ⟨n,hn,htime⟩ := h
  have hpos : (0 : ℚ) < n := by exact_mod_cast hn
  simp only [QueryRow.timestamp,QueryRow.seconds,htime,Queue.truncate,if_neg hpos.ne',if_pos hpos.le]

theorem QueryRow.Dated.seconds_pos {row : QueryRow} (h : row.Dated) : 0 < row.seconds := by
  obtain ⟨n,hn,htime⟩ := h
  rw [QueryRow.seconds,htime,Int.floor_intCast]
  exact hn

theorem QueryRow.Dated.time_eq {row : QueryRow} (h : row.Dated) : row.time = row.seconds := by
  obtain ⟨n,-,htime⟩ := h
  rw [QueryRow.seconds,htime,Int.floor_intCast]

section Totals

variable [CaseTables]

/-- The bucket of a dated row. -/
def QueryRow.bucket (row : QueryRow) : ObservationKey :=
  ⟨normalizeDomain row.domain,row.client,row.queryType,row.status,bucketOf row.seconds⟩

theorem QueryRow.Dated.key {row : QueryRow} (h : row.Dated) (now : ℤ) :
    row.key now = row.bucket := by
  simp only [QueryRow.key,QueryRow.bucket,h.timestamp]

/-- A row without a name is passed over. -/
def QueryRow.named (row : QueryRow) : Bool := decide (normalizeDomain row.domain ≠ "")

/-- The times of the rows whose bucket is in `p`. -/
def timesAt (p : ObservationKey → Bool) (rows : List QueryRow) : Multiset ℤ :=
  ((rows.filter fun row => row.named && p row.bucket).map QueryRow.seconds : List ℤ)

/-- The buckets of a domain. -/
def ofDomain (d : String) (key : ObservationKey) : Bool := decide (key.domain = d)

/-- One bucket. -/
def ofBucket (key key' : ObservationKey) : Bool := decide (key' = key)

/-- The tables tell exactly how often and when each domain, and each bucket, was seen. -/
structure Exact (rows : List QueryRow) (db : Database) : Prop where
  domains : ∀ d, Summarises (timesAt (ofDomain d) rows) (timesAt (ofDomain d) rows)
    ((db.queue.domains.lookup d).map span)
  sums : ∀ d, ((db.queue.domains.lookup d).map fun row => row.queryCount).getD 0 =
    db.observations.sumOf fun key seen => if ofDomain d key then seen.count else 0
  buckets : ∀ key, Summarises (timesAt (ofBucket key) rows) (timesAt (ofBucket key) rows)
    (db.observations.lookup key)

theorem timesAt_append (p : ObservationKey → Bool) (rows rows' : List QueryRow) :
    timesAt p (rows++rows') = timesAt p rows+timesAt p rows' := by
  simp only [timesAt,List.filter_append,List.map_append,Multiset.coe_add]

theorem mem_timesAt {p : ObservationKey → Bool} {rows : List QueryRow} {t : ℤ} :
    t ∈ timesAt p rows ↔
      ∃ row ∈ rows, row.named = true ∧ p row.bucket = true ∧ row.seconds = t := by
  simp only [timesAt,Multiset.mem_coe,List.mem_map,List.mem_filter,Bool.and_eq_true]
  exact ⟨fun ⟨row,⟨hrow,hnamed,hp⟩,ht⟩ => ⟨row,hrow,hnamed,hp,ht⟩,
    fun ⟨row,hrow,hnamed,hp,ht⟩ => ⟨row,⟨hrow,hnamed,hp⟩,ht⟩⟩

/-! The groups of a call. -/

/-- The groups with all their times. -/
def logRow (logged : Dict ObservationKey (Multiset ℤ)) (row : QueryRow) :
    Dict ObservationKey (Multiset ℤ) :=
  if row.named then logged.upsert row.bucket {row.seconds} else logged

def logRows (rows : List QueryRow) : Dict ObservationKey (Multiset ℤ) := rows.foldl logRow []

/-- A group and its times. -/
def Tells (seen : Span ℤ) (times : Multiset ℤ) : Prop := seen.Covers times times

theorem groupRows_tells {now : ℤ} {rows : List QueryRow} (h : ∀ row ∈ rows, row.Dated) :
    List.Forall₂ (fun e e' => e.1 = e'.1 ∧ Tells e.2 e'.2) (groupRows now rows) (logRows rows) := by
  simp only [groupRows,logRows]
  suffices hfold : ∀ (d : Dict ObservationKey (Span ℤ)) (d' : Dict ObservationKey (Multiset ℤ)),
      List.Forall₂ (fun e e' => e.1 = e'.1 ∧ Tells e.2 e'.2) d d' →
      List.Forall₂ (fun e e' => e.1 = e'.1 ∧ Tells e.2 e'.2) (rows.foldl (groupRow now) d)
        (rows.foldl logRow d') from hfold [] [] .nil
  induction rows with
  | nil => exact fun d d' hd => hd
  | cons row rows ih =>
    intro d d' hd
    refine ih (fun row' hrow' => h row' (by simp [hrow'])) _ _ ?_
    have hdated := h row (by simp)
    simp only [groupRow,logRow,QueryRow.named]
    by_cases hname : normalizeDomain row.domain = ""
    · simpa [hname] using hd
    · simp only [hname,if_false,ne_eq,not_false_eq_true,decide_true,if_true,hdated.key,
        hdated.timestamp]
      exact Dict.upsert_forall₂ (fun _ _ _ _ hv hw => hv.add hw) hd row.bucket
        (Aggregation.Span.covers_single row.seconds)

theorem logRows_total (p : ObservationKey → Bool) (rows : List QueryRow) :
    (logRows rows).total p = timesAt p rows := by
  simp only [logRows]
  suffices hfold : ∀ d : Dict ObservationKey (Multiset ℤ),
      (rows.foldl logRow d).total p = d.total p+timesAt p rows by
    rw [hfold []]
    exact zero_add _
  induction rows with
  | nil => exact fun d => (add_zero _).symm
  | cons row rows ih =>
    intro d
    have hsplit : timesAt p (row::rows) = timesAt p [row]+timesAt p rows := timesAt_append p [row] rows
    have hrow : (logRow d row).total p = d.total p+timesAt p [row] := by
      simp only [logRow]
      by_cases hname : row.named = true
      · rw [if_pos hname,Dict.total_upsert]
        by_cases hp : p row.bucket = true <;> simp [timesAt,hname,hp]
      · simp [timesAt,hname]
    rw [List.foldl_cons,ih,hsplit,hrow,add_assoc]

theorem logRows_keys (rows : List QueryRow) : ((logRows rows).map Prod.fst).Nodup := by
  simp only [logRows]
  suffices hfold : ∀ d : Dict ObservationKey (Multiset ℤ), (d.map Prod.fst).Nodup →
      ((rows.foldl logRow d).map Prod.fst).Nodup from hfold [] List.nodup_nil
  induction rows with
  | nil => exact fun d hd => hd
  | cons row rows ih =>
    intro d hd
    refine ih _ ?_
    simp only [logRow]
    split
    · exact Dict.nodup_upsert _ _ hd
    · exact hd

theorem logRows_mem {rows : List QueryRow} {key : ObservationKey} :
    key ∈ (logRows rows).map Prod.fst ↔ ∃ row ∈ rows, row.named = true ∧ row.bucket = key := by
  simp only [logRows]
  suffices hfold : ∀ d : Dict ObservationKey (Multiset ℤ),
      key ∈ (rows.foldl logRow d).map Prod.fst ↔
        key ∈ d.map Prod.fst ∨ ∃ row ∈ rows, row.named = true ∧ row.bucket = key by
    simpa using hfold []
  induction rows with
  | nil => simp
  | cons row rows ih =>
    intro d
    rw [List.foldl_cons,ih]
    simp only [logRow,List.exists_mem_cons_iff]
    by_cases hname : row.named = true
    · rw [if_pos hname,Dict.mem_keys_upsert]
      constructor
      · rintro ((rfl | hmem) | hrest)
        · exact .inr (.inl ⟨hname,rfl⟩)
        · exact .inl hmem
        · exact .inr (.inr hrest)
      · rintro (hmem | ⟨-,rfl⟩ | hrest)
        · exact .inl (.inr hmem)
        · exact .inl (.inl rfl)
        · exact .inr hrest
    · simp [hname]

/-- A group covers the rows of its bucket, and there are some. -/
theorem mem_groupRows {now : ℤ} {rows : List QueryRow} (h : ∀ row ∈ rows, row.Dated)
    {key : ObservationKey} {seen : Span ℤ} (hmem : (key,seen) ∈ groupRows now rows) :
    Tells seen (timesAt (ofBucket key) rows) ∧
      ∃ row ∈ rows, row.named = true ∧ row.bucket = key := by
  obtain ⟨times,htimes,htells⟩ := Dict.exists_left (groupRows_tells h) hmem
  have htotal : (logRows rows).total (ofBucket key) = times :=
    Dict.total_of_mem (logRows_keys rows) htimes
  rw [← logRows_total,htotal]
  exact ⟨htells,logRows_mem.mp (List.mem_map_of_mem htimes)⟩

/-- Every named row has its group. -/
theorem groupRows_complete (now : ℤ) {rows : List QueryRow} (h : ∀ row ∈ rows, row.Dated)
    {row : QueryRow} (hrow : row ∈ rows) (hnamed : row.named = true) :
    ∃ seen, (row.bucket,seen) ∈ groupRows now rows := by
  have hkey : row.bucket ∈ (groupRows now rows).map Prod.fst := by
    rw [Dict.keys_eq (groupRows_tells h)]
    exact logRows_mem.mpr ⟨row,hrow,hnamed,rfl⟩
  obtain ⟨⟨key,seen⟩,hmem,rfl⟩ := List.mem_map.mp hkey
  exact ⟨seen,hmem⟩

/-! One group. -/

/-- The times `_ensure_domain` is told for the groups of a domain. -/
def toldTimes (d : String) (groups : Dict ObservationKey (Span ℤ)) : Multiset ℤ :=
  Dict.total (ofDomain d) (groups.map fun group => (group.1,{group.2.last}))

/-- The tables tell of `times`, except that a domain counts from the earliest of `told`. -/
structure Tallied (told : String → Multiset ℤ) (times : (ObservationKey → Bool) → Multiset ℤ)
    (db : Database) : Prop where
  domains : ∀ d, Summarises (told d) (times (ofDomain d)) ((db.queue.domains.lookup d).map span)
  sums : ∀ d, ((db.queue.domains.lookup d).map fun row => row.queryCount).getD 0 =
    db.observations.sumOf fun key seen => if ofDomain d key then seen.count else 0
  buckets : ∀ key, Summarises (times (ofBucket key)) (times (ofBucket key))
    (db.observations.lookup key)
  fresh : ∀ d row, db.queue.domains.lookup d = some row →
    row.lastClassifiedAt = none ∧ row.nextRecheckAt = none

/-- A name that normalising leaves alone. -/
def Settled (d : String) : Prop := d ≠ "" ∧ normalizeDomain d = d

/-- What becomes of the tables when a group with a settled name is recorded. -/
def addGroup (db : Database) (key : ObservationKey) (seen : Span ℤ) : Database where
  queue :=
    let row := seenRow seen.last seen.count (db.queue.domains.lookup key.domain)
    { db.queue with domains := db.queue.domains.insert key.domain row }
  observations := db.observations.upsert key seen

theorem ensureQueriedDomain_settled {seenAt increment : ℤ} {d : String} (hd : Settled d)
    (hpos : 0 ≤ increment) (db : Queue.Database) :
    ensureQueriedDomain seenAt increment d db = .ok (d,{ db with
      domains := db.domains.insert d (seenRow seenAt increment (db.domains.lookup d)) }) := by
  simp only [ensureQueriedDomain]
  rw [hd.2,if_neg hd.1,max_eq_right hpos]

omit [CaseTables] in
theorem seenRow_span (seenAt increment : ℤ) (row : Option DomainRow) :
    some (span (seenRow seenAt increment row)) =
      (row.map span).merge (·+·) (some ⟨increment,seenAt,seenAt⟩) := by
  cases row <;> rfl

theorem recordGroup_settled (now : ℤ) (db : Database) {key : ObservationKey} {seen : Span ℤ}
    (hd : Settled key.domain) (hcount : 0 ≤ seen.count) (hlast : seen.last ≠ 0) :
    recordGroup now db (key,seen) = .ok (addGroup db key seen) := by
  simp only [recordGroup,if_neg hlast,ensureQueriedDomain_settled hd hcount,AList.mem_insert,true_or,
    if_true]
  rfl

omit [CaseTables] in
theorem Tallied.group {told : String → Multiset ℤ} {times : (ObservationKey → Bool) → Multiset ℤ}
    {db : Database} (h : Tallied told times db) (key : ObservationKey) {seen : Span ℤ}
    {group : Multiset ℤ} (hseen : Tells seen group) :
    Tallied (fun d => told d+if ofDomain d key then {seen.last} else 0)
      (fun p => times p+if p key then group else 0) (addGroup db key seen) := by
  have htold : (⟨seen.count,seen.last,seen.last⟩ : Span ℤ).Covers {seen.last} group :=
    ⟨hseen.count,by simp,hseen.last⟩
  have hsame : (addGroup db key seen).queue.domains.lookup key.domain =
      some (seenRow seen.last seen.count (db.queue.domains.lookup key.domain)) :=
    AList.lookup_insert _
  have hother : ∀ d, d ≠ key.domain → (addGroup db key seen).queue.domains.lookup d =
      db.queue.domains.lookup d := fun d hd => AList.lookup_insert_ne hd
  refine ⟨fun d => ?_,fun d => ?_,fun key' => ?_,fun d row hrow => ?_⟩
  · by_cases hd : d = key.domain
    · subst hd
      rw [hsame,Option.map_some,seenRow_span]
      simpa [ofDomain] using (h.domains key.domain).add htold
    · rw [hother d hd]
      simpa [ofDomain,Ne.symm hd] using h.domains d
  · have hsum := Table.sumOf_upsert (f := fun key seen => if ofDomain d key then seen.count else 0)
      (fun k v w => by split <;> rfl) key seen db.observations
    refine Eq.trans ?_ hsum.symm
    rw [← h.sums d]
    by_cases hd : d = key.domain
    · subst hd
      rw [hsame]
      cases db.queue.domains.lookup key.domain with
      | none => simp [seenRow,ofDomain]
      | some row => simp [seenRow,ofDomain]
    · rw [hother d hd]
      simp [ofDomain,Ne.symm hd]
  · by_cases hkey : key' = key
    · subst hkey
      have hrow : (addGroup db key' seen).observations.lookup key' = _ :=
        Table.lookup_upsert_self key' seen db.observations
      rw [hrow]
      simpa [ofBucket] using (h.buckets key').add hseen
    · have hrow : (addGroup db key seen).observations.lookup key' = _ :=
        Table.lookup_upsert_ne hkey seen db.observations
      rw [hrow]
      simpa [ofBucket,Ne.symm hkey] using h.buckets key'
  · by_cases hd : d = key.domain
    · subst hd
      rw [hsame] at hrow
      obtain rfl := Option.some.inj hrow
      cases hold : db.queue.domains.lookup key.domain with
      | none => exact ⟨rfl,rfl⟩
      | some old => exact h.fresh key.domain old hold
    · rw [hother d hd] at hrow
      exact h.fresh d row hrow

/-! One call. -/

theorem Tallied.groups (now : ℤ) {groups : Dict ObservationKey (Span ℤ)}
    {logged : Dict ObservationKey (Multiset ℤ)}
    (hgroups : List.Forall₂ (fun e e' => e.1 = e'.1 ∧ Tells e.2 e'.2) groups logged)
    (hsettled : ∀ group ∈ groups, Settled group.1.domain)
    (hpositive : ∀ group ∈ groups, group.2.last ≠ 0) {told : String → Multiset ℤ}
    {times : (ObservationKey → Bool) → Multiset ℤ} {db : Database} (h : Tallied told times db) :
    ∃ db', groups.foldlM (recordGroup now) db = .ok db' ∧
      Tallied (fun d => told d+toldTimes d groups) (fun p => times p+logged.total p) db' := by
  induction hgroups generalizing told times db with
  | nil =>
    refine ⟨db,rfl,?_⟩
    simpa [toldTimes,Dict.total] using h
  | @cons group entry groups logged hhead _ ih =>
    obtain ⟨key,seen⟩ := group
    obtain ⟨key',times'⟩ := entry
    obtain ⟨rfl,htells⟩ := hhead
    have hcount : 0 ≤ seen.count := by
      rw [htells.count]
      exact Int.natCast_nonneg _
    have hstep := recordGroup_settled now db (hsettled (key,seen) (by simp)) hcount
      (hpositive (key,seen) (by simp))
    obtain ⟨db',hdb',htallied⟩ := ih (fun g hg => hsettled g (by simp [hg]))
      (fun g hg => hpositive g (by simp [hg])) (h.group key htells)
    refine ⟨db',?_,?_⟩
    · rw [List.foldlM_cons,hstep]
      exact hdb'
    · simp only [toldTimes,List.map_cons,Dict.total_cons,← add_assoc]
      exact htallied

/-- A call whose names are settled adds its rows. -/
theorem Tallied.record {told : String → Multiset ℤ} {times : (ObservationKey → Bool) → Multiset ℤ}
    {db : Database} (h : Tallied told times db) {batch : Batch}
    (hdated : ∀ row ∈ batch.rows, row.Dated)
    (hsettled : ∀ row ∈ batch.rows, row.named = true → Settled (normalizeDomain row.domain)) :
    Tallied (fun d => told d+toldTimes d (groupRows batch.now batch.rows))
      (fun p => times p+timesAt p batch.rows) (db.record batch) := by
  have hname : ∀ group ∈ groupRows batch.now batch.rows, Settled group.1.domain := by
    rintro ⟨key,seen⟩ hmem
    obtain ⟨-,row,hrow,hnamed,rfl⟩ := mem_groupRows hdated hmem
    exact hsettled row hrow hnamed
  have hlast : ∀ group ∈ groupRows batch.now batch.rows, group.2.last ≠ 0 := by
    rintro ⟨key,seen⟩ hmem
    obtain ⟨row,hrow,-,-,hseconds⟩ := mem_timesAt.mp (mem_groupRows hdated hmem).1.last.1
    have hpos := (hdated row hrow).seconds_pos
    rw [hseconds] at hpos
    exact hpos.ne'
  obtain ⟨db',hdb',htallied⟩ := h.groups batch.now (groupRows_tells hdated) hname hlast
  have hrecord : db.record batch = db' := by
    simp only [Database.record,recordQueryObservations,hdb']
    rfl
  rw [hrecord]
  simpa only [logRows_total] using htallied

/-! What no call can bring about. -/

/-- All names in the tables are settled. -/
structure Clean (db : Database) : Prop where
  domains : ∀ d ∈ db.queue.domains, normalizeDomain d = d
  observations : ∀ key ∈ db.observations, normalizeDomain key.domain = key.domain

theorem recordGroup_ok {now : ℤ} {db db' : Database} {key : ObservationKey} {seen : Span ℤ}
    (h : recordGroup now db (key,seen) = .ok db') :
    ∃ seenAt row, row = seenRow seenAt (max 0 seen.count)
        (db.queue.domains.lookup (normalizeDomain key.domain)) ∧
      (key.domain = normalizeDomain key.domain ∨ key.domain ∈ db.queue.domains) ∧
      db' = ⟨{ db.queue with domains := db.queue.domains.insert (normalizeDomain key.domain) row },
        db.observations.upsert key seen⟩ := by
  simp only [recordGroup,ensureQueriedDomain] at h
  by_cases hname : normalizeDomain key.domain = ""
  · rw [if_pos hname] at h
    cases h
  · rw [if_neg hname] at h
    dsimp only at h
    by_cases hforeign : key.domain ∈ db.queue.domains.insert (normalizeDomain key.domain)
        (seenRow (if seen.last = 0 then now else seen.last) (max 0 seen.count)
          (db.queue.domains.lookup (normalizeDomain key.domain)))
    · rw [if_pos hforeign] at h
      cases h
      exact ⟨_,_,rfl,(AList.mem_insert _).mp hforeign,rfl⟩
    · rw [if_neg hforeign] at h
      cases h

theorem Clean.group {now : ℤ} {db db' : Database} {group : ObservationKey × Span ℤ} (h : Clean db)
    (hok : recordGroup now db group = .ok db') : Clean db' := by
  obtain ⟨key,seen⟩ := group
  obtain ⟨-,row,-,hforeign,rfl⟩ := recordGroup_ok hok
  have hkey : normalizeDomain key.domain = key.domain := by
    rcases hforeign with heq | hmem
    · exact heq.symm
    · exact h.domains key.domain hmem
  refine ⟨fun d hd => ?_,fun key' hkey' => ?_⟩
  · rcases (AList.mem_insert _).mp hd with rfl | hd
    · rw [hkey,hkey]
    · exact h.domains d hd
  · rcases (AList.mem_insert _).mp hkey' with rfl | hkey'
    · exact hkey
    · exact h.observations key' hkey'

theorem Clean.record {db : Database} (h : Clean db) (batch : Batch) : Clean (db.record batch) := by
  have hfold : ∀ (groups : Dict ObservationKey (Span ℤ)) (db db' : Database), Clean db →
      groups.foldlM (recordGroup batch.now) db = .ok db' → Clean db' := by
    intro groups
    induction groups with
    | nil =>
      intro db db' hclean hok
      cases hok
      exact hclean
    | cons group groups ih =>
      intro db db' hclean hok
      rw [List.foldlM_cons] at hok
      cases hgroup : recordGroup batch.now db group with
      | error e =>
        rw [hgroup] at hok
        cases hok
      | ok db₁ =>
        rw [hgroup] at hok
        exact ih db₁ db' (hclean.group hgroup) hok
  simp only [Database.record,recordQueryObservations]
  cases hok : (groupRows batch.now batch.rows).foldlM (recordGroup batch.now) db with
  | error e => exact h
  | ok db' => exact hfold _ db db' h hok

/-! All calls. -/

/-- The rows of all calls. -/
def allRows (batches : List Batch) : List QueryRow := batches.flatMap Batch.rows

/-- The times all calls tell `_ensure_domain` of. -/
def toldByAll (d : String) (batches : List Batch) : Multiset ℤ :=
  (batches.map fun batch => toldTimes d (groupRows batch.now batch.rows)).sum

theorem clean_recorded (batches : List Batch) : Clean (recorded batches) := by
  simp only [recorded]
  suffices hfold : ∀ db, Clean db → Clean (batches.foldl Database.record db) from
    hfold .empty ⟨fun d hd => absurd hd (AList.notMem_empty d),
      fun key hkey => absurd hkey (AList.notMem_empty key)⟩
  induction batches with
  | nil => exact fun db h => h
  | cons batch batches ih => exact fun db h => ih _ (h.record batch)

theorem tallied_recorded {batches : List Batch} (hdated : ∀ row ∈ allRows batches, row.Dated)
    (hsettled : ∀ row ∈ allRows batches, row.named = true → Settled (normalizeDomain row.domain)) :
    Tallied (fun d => toldByAll d batches) (fun p => timesAt p (allRows batches))
      (recorded batches) := by
  have hempty : Tallied (fun _ => 0) (fun _ => 0) Database.empty := by
    refine ⟨fun d => ⟨rfl,rfl⟩,fun d => rfl,fun key => ⟨rfl,rfl⟩,fun d row hrow => ?_⟩
    cases hrow
  suffices hfold : ∀ told times db, Tallied told times db →
      Tallied (fun d => told d+toldByAll d batches) (fun p => times p+timesAt p (allRows batches))
        (batches.foldl Database.record db) by
    have h := hfold _ _ _ hempty
    simp only [zero_add] at h
    exact h
  induction batches with
  | nil =>
    intro told times db h
    simpa [toldByAll,allRows,timesAt] using h
  | cons batch batches ih =>
    intro told times db h
    have hrows : ∀ row ∈ batch.rows, row ∈ allRows (batch::batches) := by
      intro row hrow
      simp [allRows,hrow]
    have hrest : ∀ row ∈ allRows batches, row ∈ allRows (batch::batches) := by
      intro row hrow
      simp only [allRows,List.flatMap_cons,List.mem_append]
      exact .inr hrow
    have hrecord := h.record (fun row hrow => hdated row (hrows row hrow))
      (fun row hrow => hsettled row (hrows row hrow))
    have hfold := ih (fun row hrow => hdated row (hrest row hrow))
      (fun row hrow => hsettled row (hrest row hrow)) _ _ _ hrecord
    simp only [toldByAll,allRows,List.flatMap_cons,List.map_cons,List.sum_cons,timesAt_append,
      ← add_assoc] at hfold ⊢
    exact hfold

/-- In one of the calls, a group of `d` has all its rows at the first time of `d`. -/
def OpensFirst (batches : List Batch) (d : String) : Prop :=
  ∃ batch ∈ batches, ∃ row ∈ batch.rows, row.named = true ∧ normalizeDomain row.domain = d ∧
    ∀ row' ∈ batch.rows, row'.bucket = row.bucket → ∀ row'' ∈ allRows batches,
      normalizeDomain row''.domain = d → row'.time ≤ row''.time

/-- What the calls must be like. -/
structure WellSplit (batches : List Batch) : Prop where
  settled : ∀ row ∈ allRows batches, row.named = true →
    normalizeDomain (normalizeDomain row.domain) = normalizeDomain row.domain
  opens : ∀ row ∈ allRows batches, row.named = true →
    OpensFirst batches (normalizeDomain row.domain)

theorem mem_toldByAll {batches : List Batch} {d : String} {t : ℤ} :
    t ∈ toldByAll d batches ↔ ∃ batch ∈ batches, ∃ key seen,
      (key,seen) ∈ groupRows batch.now batch.rows ∧ key.domain = d ∧ seen.last = t := by
  have hcall : ∀ batch : Batch, t ∈ toldTimes d (groupRows batch.now batch.rows) ↔ ∃ key seen,
      (key,seen) ∈ groupRows batch.now batch.rows ∧ key.domain = d ∧ seen.last = t := by
    intro batch
    simp [toldTimes,Dict.mem_total,ofDomain,eq_comm]
  induction batches with
  | nil => simp [toldByAll]
  | cons batch batches ih =>
    have hsplit : t ∈ toldByAll d (batch::batches) ↔
        t ∈ toldTimes d (groupRows batch.now batch.rows) ∨ t ∈ toldByAll d batches := by
      simp only [toldByAll,List.map_cons,List.sum_cons,Multiset.mem_add]
    rw [hsplit,hcall,List.exists_mem_cons_iff]
    exact or_congr_right ih

section Calls

variable {batches : List Batch} (hdated : ∀ row ∈ allRows batches, row.Dated)
include hdated

theorem toldByAll_subset (d : String) :
    ∀ t ∈ toldByAll d batches, t ∈ timesAt (ofDomain d) (allRows batches) := by
  intro t ht
  obtain ⟨batch,hbatch,key,seen,hmem,rfl,rfl⟩ := mem_toldByAll.mp ht
  have hrows : ∀ row ∈ batch.rows, row ∈ allRows batches := fun row hrow =>
    List.mem_flatMap.mpr ⟨batch,hbatch,hrow⟩
  have htells := (mem_groupRows (fun row hrow => hdated row (hrows row hrow)) hmem).1
  obtain ⟨row,hrow,hnamed,hkey,hseconds⟩ := mem_timesAt.mp htells.last.1
  obtain rfl := of_decide_eq_true hkey
  exact mem_timesAt.mpr ⟨row,hrows row hrow,hnamed,decide_eq_true rfl,hseconds⟩

/-- The earliest time of `d` is told when a group of it is all at that time. -/
theorem opensFirst_iff (d : String) :
    OpensFirst batches d ↔ ∃ f ∈ toldByAll d batches,
      ∀ t ∈ timesAt (ofDomain d) (allRows batches), f ≤ t := by
  have hrows : ∀ batch ∈ batches, ∀ row ∈ batch.rows, row ∈ allRows batches :=
    fun batch hbatch row hrow => List.mem_flatMap.mpr ⟨batch,hbatch,hrow⟩
  constructor
  · rintro ⟨batch,hbatch,row,hrow,hnamed,rfl,hfirst⟩
    have hdated' := fun row hrow => hdated row (hrows batch hbatch row hrow)
    obtain ⟨seen,hmem⟩ := groupRows_complete batch.now hdated' hrow hnamed
    have htells := (mem_groupRows hdated' hmem).1
    obtain ⟨row',hrow',-,hkey,hseconds⟩ := mem_timesAt.mp htells.last.1
    refine ⟨seen.last,mem_toldByAll.mpr ⟨batch,hbatch,row.bucket,seen,hmem,rfl,rfl⟩,?_⟩
    intro t ht
    obtain ⟨row'',hrow'',-,hdomain,rfl⟩ := mem_timesAt.mp ht
    have hle := hfirst row' hrow' (of_decide_eq_true hkey) row'' hrow'' (of_decide_eq_true hdomain)
    rw [← hseconds]
    exact Int.floor_le_floor hle
  · rintro ⟨f,hf,hle⟩
    obtain ⟨batch,hbatch,key,seen,hmem,rfl,rfl⟩ := mem_toldByAll.mp hf
    have hdated' := fun row hrow => hdated row (hrows batch hbatch row hrow)
    obtain ⟨htells,row,hrow,hnamed,rfl⟩ := mem_groupRows hdated' hmem
    refine ⟨batch,hbatch,row,hrow,hnamed,rfl,fun row' hrow' hkey row'' hrow'' hdomain => ?_⟩
    have hname' : normalizeDomain row'.domain = normalizeDomain row.domain :=
      congrArg ObservationKey.domain hkey
    have hle' : row'.seconds ≤ seen.last := by
      refine htells.last.2 (mem_timesAt.mpr ⟨row',hrow',?_,decide_eq_true hkey,rfl⟩)
      simpa [QueryRow.named,hname'] using hnamed
    have hle'' : seen.last ≤ row''.seconds := by
      refine hle _ (mem_timesAt.mpr ⟨row'',hrow'',?_,decide_eq_true hdomain,rfl⟩)
      simp only [QueryRow.named,hdomain]
      exact hnamed
    rw [(hdated' row' hrow').time_eq,(hdated row'' hrow'').time_eq]
    exact_mod_cast hle'.trans hle''

theorem WellSplit.tallied (h : WellSplit batches) :
    Tallied (fun d => toldByAll d batches) (fun p => timesAt p (allRows batches))
      (recorded batches) :=
  tallied_recorded hdated fun row hrow hnamed => ⟨of_decide_eq_true hnamed,h.settled row hrow hnamed⟩

theorem WellSplit.exact (h : WellSplit batches) : Exact (allRows batches) (recorded batches) := by
  have htallied := h.tallied hdated
  refine ⟨fun d => ?_,htallied.sums,htallied.buckets⟩
  refine ((htallied.domains d).exact_iff (toldByAll_subset hdated d)).mpr fun t ht => ?_
  obtain ⟨row,hrow,hnamed,hdomain,-⟩ := mem_timesAt.mp ht
  obtain rfl := of_decide_eq_true hdomain
  exact (opensFirst_iff hdated _).mp (h.opens row hrow hnamed)

theorem wellSplit_of_exact (h : Exact (allRows batches) (recorded batches)) : WellSplit batches := by
  have hsettled : ∀ row ∈ allRows batches, row.named = true →
      normalizeDomain (normalizeDomain row.domain) = normalizeDomain row.domain := by
    intro row hrow hnamed
    have htime : row.seconds ∈ timesAt (ofBucket row.bucket) (allRows batches) :=
      mem_timesAt.mpr ⟨row,hrow,hnamed,decide_eq_true rfl,rfl⟩
    have hbucket := h.buckets row.bucket
    cases hlookup : (recorded batches).observations.lookup row.bucket with
    | none =>
      rw [hlookup] at hbucket
      rw [hbucket.2] at htime
      cases Multiset.notMem_zero _ htime
    | some seen =>
      refine (clean_recorded batches).observations row.bucket (AList.lookup_isSome.mp ?_)
      rw [hlookup]
      rfl
  refine ⟨hsettled,fun row hrow hnamed => ?_⟩
  have htallied := tallied_recorded hdated fun row hrow hnamed =>
    ⟨of_decide_eq_true hnamed,hsettled row hrow hnamed⟩
  refine (opensFirst_iff hdated _).mpr ?_
  exact ((htallied.domains _).exact_iff (toldByAll_subset hdated _)).mp (h.domains _) row.seconds
    (mem_timesAt.mpr ⟨row,hrow,hnamed,decide_eq_true rfl,rfl⟩)

omit hdated in
theorem timesAt_perm {rows rows' : List QueryRow} (h : rows'.Perm rows) (p : ObservationKey → Bool) :
    timesAt p rows' = timesAt p rows :=
  Multiset.coe_eq_coe.mpr ((h.filter _).map _)

omit [CaseTables] hdated in
theorem row_eq_of_span {row row' : DomainRow} (hspan : span row' = span row)
    (hclassified : row'.lastClassifiedAt = row.lastClassifiedAt)
    (hrecheck : row'.nextRecheckAt = row.nextRecheckAt) : row' = row := by
  obtain ⟨first,last,count,classified,recheck⟩ := row
  obtain ⟨first',last',count',classified',recheck'⟩ := row'
  simp only [span,Span.mk.injEq] at hspan
  obtain ⟨rfl,rfl,rfl⟩ := hspan
  cases hclassified
  cases hrecheck
  rfl

end Calls

end Totals

/-! Two queries for one domain in one hour. -/

def query (time : ℚ) : QueryRow := ⟨"a.com","10.0.0.2","A","FORWARDED",time⟩

theorem query_dated : ∀ row ∈ [query 100,query 200], row.Dated := by
  intro row hrow
  simp only [List.mem_cons,List.not_mem_nil,or_false] at hrow
  rcases hrow with rfl | rfl
  · exact ⟨100,by decide,rfl⟩
  · exact ⟨200,by decide,rfl⟩

def twoCalls : List Batch := [⟨1000,[query 100]⟩,⟨1000,[query 200]⟩]

end Observations
end WormholeObservatory
