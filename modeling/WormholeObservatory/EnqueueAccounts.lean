import WormholeObservatory.OrderedDict
import WormholeObservatory.StagingRows

/-! What a call of `staging_enqueue_detailed` answers for. It counts the names as it normalised
them and stores each under its name normalised once more, so the account is right for the names
that a second pass leaves alone. -/
namespace WormholeObservatory
namespace Queue

/-- Staging a staged row once more changes nothing. -/
theorem Request.stage_stage (r : Request) (row : Option StagingRow) :
    (r.stage (some (r.stage row).2)).2 = (r.stage row).2 := by
  cases row with
  | none => simp [Request.stage]
  | some row =>
    by_cases hprocessing : row.state = .processing
    · rw [r.stage_processing hprocessing,r.stage_processing hprocessing]
    · by_cases hqueued : row.state = .queued
      · rcases le_total r.priority row.priority with hle | hle
        · simp only [Request.stage,hqueued]
          simp only [reduceCtorEq,if_false,if_true,max_eq_left hle]
          split <;> simp_all
        · simp only [Request.stage,hqueued,reduceCtorEq,if_false,if_true,max_eq_right hle]
          split <;> simp_all
      · have hfailed : row.state = .failed := by
          cases hstate : row.state <;> simp_all
        simp only [Request.stage,hfailed,reduceCtorEq,if_false,if_true,true_or]
        split <;> simp_all

section Loop

variable [CaseTables] {r : Request} {db : Database} {values : List String}

theorem enqueueOne_runs (r : Request) (db : Database) {value : String} (h : normalizeDomain value ≠ "") :
    ∃ o mid, r.enqueueOne value db = .ok ((normalizeDomain value,o),mid) := by
  simp only [Request.enqueueOne,ensureDomain,if_neg h]
  split <;> exact ⟨_,_,rfl⟩

/-- A name of the loop is stored under the key if the key is not locked. -/
def Stores (db : Database) (values : List String) (key : String) : Prop :=
  key ∈ values.map normalizeDomain ∧ db.locks.lookup key = none

instance (db : Database) (values : List String) (key : String) : Decidable (Stores db values key) :=
  inferInstanceAs (Decidable (_ ∧ _))

/-- The loop ends for names that do not vanish, and stages the rows of its free keys. -/
theorem enqueueAll_runs (r : Request) (db : Database) (hnamed : ∀ d ∈ values, normalizeDomain d ≠ "") :
    ∃ outcomes db', r.enqueueAll values db = .ok (outcomes,db') ∧ outcomes.length = values.length ∧
      ∀ key, db'.staging.lookup key =
        if Stores db values key then some (r.stage (db.staging.lookup key)).2
        else db.staging.lookup key := by
  induction values generalizing db with
  | nil => exact ⟨[],db,rfl,rfl,fun key => by simp [Stores]⟩
  | cons value values ih =>
    obtain ⟨o,mid,hone⟩ := enqueueOne_runs r db (hnamed value (by simp))
    obtain ⟨-,hlocks,hmove⟩ := enqueueOne_ok hone
    obtain ⟨outcomes,db',hall,hlength,hrows⟩ := ih mid fun d hd =>
      hnamed d (List.mem_cons_of_mem _ hd)
    refine ⟨(normalizeDomain value,o)::outcomes,db',by simp only [Request.enqueueAll,hone,hall],
      by rw [List.length_cons,hlength,List.length_cons],fun key => ?_⟩
    have hmid : Stores mid values key ↔ Stores db values key := by rw [Stores,hlocks,Stores]
    have hcons : Stores db (value::values) key ↔
        (key = normalizeDomain value ∧ db.locks.lookup key = none) ∨ Stores db values key := by
      rw [Stores,List.map_cons,List.mem_cons,or_and_right,Stores]
    rw [hrows key]
    simp only [hmid,hcons]
    rcases hmove with ⟨⟨row,hlocked⟩,-,hsame⟩ | ⟨hfree,-,hinsert⟩
    · have hother : ¬(key = normalizeDomain value ∧ db.locks.lookup key = none) := by
        rintro ⟨rfl,hfree⟩
        exact absurd (hlocked.symm.trans hfree) (Option.some_ne_none row)
      simp only [or_iff_right hother,hsame]
    · by_cases hkey : key = normalizeDomain value
      · subst hkey
        rw [if_pos (Or.inl ⟨rfl,hfree⟩),hinsert,AList.lookup_insert,r.stage_stage,ite_self]
      · have hother : ¬(key = normalizeDomain value ∧ db.locks.lookup key = none) := fun h => hkey h.1
        simp only [or_iff_right hother,hinsert,AList.lookup_insert_ne hkey]

/-- No name of a loop that ends vanishes. -/
theorem enqueueAll_named {outcomes : List (String × Outcome)} {db' : Database}
    (h : r.enqueueAll values db = .ok (outcomes,db')) : ∀ d ∈ values, normalizeDomain d ≠ "" := by
  induction values generalizing db outcomes with
  | nil => simp
  | cons value values ih =>
    obtain ⟨key,o,mid,rest,hone,hall,-⟩ := enqueueAll_cons h
    intro d hd
    rcases List.mem_cons.mp hd with rfl | hd
    · intro hempty
      simp [Request.enqueueOne,ensureDomain,hempty] at hone
    · exact ih hall d hd

end Loop

theorem outcomes_counted (outcomes : List (String × Outcome)) :
    outcomes.countP (·.2 = .queued)+outcomes.countP (·.2 = .requeued)+
      outcomes.countP (·.2 = .alreadyPending)+outcomes.countP (·.2 = .skippedLocked) =
        outcomes.length := by
  induction outcomes with
  | nil => rfl
  | cons entry outcomes ih =>
    rw [List.length_cons,← ih]
    obtain ⟨key,o⟩ := entry
    cases o <;> simp <;> omega

section Call

variable [CaseTables] {c : Context} {values : List String} {priority : ℤ} {source poolId : String}
  {requeueExisting : Bool} {db : Database}

/-- A name that the call counts as accepted: it passes the filter and meets no lock. -/
def Accepted (c : Context) (values : List String) (db : Database) (d : String) : Prop :=
  d ∈ c.admitted values ∧ db.locks.lookup (normalizeDomain d) = none

/-- A normalised name of the call that the exclusion list covers. -/
def Filtered (c : Context) (values : List String) (d : String) : Prop :=
  d ∈ uniqueDomains values ∧ domainMatchesSuffix d c.excludedSuffixes = true

/-- The result accounts for the names of the call. -/
structure Accounts (c : Context) (values : List String) (db : Database) (result : EnqueueResult)
    (db' : Database) : Prop where
  requested : result.requested = ((values.map normalizeDomain).toFinset.erase "").card
  counted : result.requested = result.queued+result.requeued+result.alreadyPending+
    result.skippedLocked+result.skippedFiltered
  stored : ∀ d, Accepted c values db d → (db'.staging.lookup d).isSome = true
  others : ∀ d, ¬ Accepted c values db d → db'.staging.lookup d = db.staging.lookup d
  spared : ∀ d, Filtered c values d ∨ (db.locks.lookup d).isSome = true →
    db.staging.lookup d = none → db'.staging.lookup d = none

/-- The call ends, and its result accounts for its names. -/
def EnqueueAccounts (c : Context) (values : List String) (priority : ℤ) (source poolId : String)
    (requeueExisting : Bool) (db : Database) : Prop :=
  ∃ result db', stagingEnqueueDetailed c values priority source poolId requeueExisting db =
    .ok (result,db') ∧ Accounts c values db result db'

/-- What a second normalisation makes of the names that pass the filter does no harm. -/
structure Harmless (c : Context) (values : List String) (r : Request) (db : Database) : Prop where
  named : ∀ d ∈ c.admitted values, normalizeDomain d ≠ ""
  reached : ∀ d, Accepted c values db d →
    (∃ e, Accepted c values db e ∧ normalizeDomain e = d) ∨ (db.staging.lookup d).isSome = true
  within : ∀ d, Accepted c values db d → Accepted c values db (normalizeDomain d) ∨
    some (r.stage (db.staging.lookup (normalizeDomain d))).2 = db.staging.lookup (normalizeDomain d)

theorem stores_iff {key : String} : Stores db (c.admitted values) key ↔
    ∃ e, Accepted c values db e ∧ normalizeDomain e = key := by
  rw [Stores,List.mem_map]
  constructor
  · rintro ⟨⟨e,hmem,rfl⟩,hfree⟩
    exact ⟨e,⟨hmem,hfree⟩,rfl⟩
  · rintro ⟨e,⟨hmem,hfree⟩,rfl⟩
    exact ⟨⟨e,hmem,rfl⟩,hfree⟩

theorem length_uniqueDomains :
    (uniqueDomains values).length = ((values.map normalizeDomain).toFinset.erase "").card := by
  have hset : (uniqueDomains values).toFinset = (values.map normalizeDomain).toFinset.erase "" := by
    ext d
    simp only [uniqueDomains,List.mem_toFinset,List.mem_eraseDups,List.mem_filter,decide_eq_true_eq,
      Finset.mem_erase,ne_eq,and_comm]
  have hnodup : (uniqueDomains values).Nodup := OrderedDict.nodup_eraseDups _
  rw [← hset,List.toFinset_card_of_nodup hnodup]

/-- The names that pass the filter and those that do not are all of them. -/
theorem length_admitted : (c.admitted values).length+(uniqueDomains values).countP
    (fun d => domainMatchesSuffix d c.excludedSuffixes) = (uniqueDomains values).length := by
  rw [Context.admitted,← List.countP_eq_length_filter,
    List.length_eq_countP_add_countP fun d => domainMatchesSuffix d c.excludedSuffixes,add_comm]
  congr 2
  funext d
  cases domainMatchesSuffix d c.excludedSuffixes <;> rfl

/-- A call whose names do not vanish ends with the counts of its names. -/
theorem stagingEnqueueDetailed_runs (priority : ℤ) (source poolId : String) (requeueExisting : Bool)
    (db : Database) (hnamed : ∀ d ∈ c.admitted values, normalizeDomain d ≠ "") :
    ∃ result db', stagingEnqueueDetailed c values priority source poolId requeueExisting db =
      .ok (result,db') ∧ result.requested = (uniqueDomains values).length ∧
      result.requested = result.queued+result.requeued+result.alreadyPending+
        result.skippedLocked+result.skippedFiltered ∧
      ∀ key, db'.staging.lookup key = if Stores db (c.admitted values) key then
        some ((c.request priority source poolId requeueExisting).stage (db.staging.lookup key)).2
        else db.staging.lookup key := by
  obtain ⟨outcomes,db',hall,hlength,hrows⟩ := 
    enqueueAll_runs (c.request priority source poolId requeueExisting) db hnamed
  refine ⟨_,db',by rw [stagingEnqueueDetailed,hall],rfl,?_,hrows⟩
  rw [outcomes_counted,hlength]
  exact length_admitted.symm

/-- Rows written under the keys of accepted names are those of the accepted names exactly if no
key does harm. -/
theorem rows_iff {r : Request} {db' : Database}
    (hrows : ∀ key, db'.staging.lookup key = if Stores db (c.admitted values) key then
      some (r.stage (db.staging.lookup key)).2 else db.staging.lookup key) :
    ((∀ d, Accepted c values db d → (db'.staging.lookup d).isSome = true) ∧
      ∀ d, ¬ Accepted c values db d → db'.staging.lookup d = db.staging.lookup d) ↔
    (∀ d, Accepted c values db d →
      (∃ e, Accepted c values db e ∧ normalizeDomain e = d) ∨ (db.staging.lookup d).isSome = true) ∧
    ∀ d, Accepted c values db d → Accepted c values db (normalizeDomain d) ∨
      some (r.stage (db.staging.lookup (normalizeDomain d))).2 =
        db.staging.lookup (normalizeDomain d) := by
  constructor
  · rintro ⟨hstored,hothers⟩
    refine ⟨fun d hd => ?_,fun d hd => or_iff_not_imp_left.mpr fun hkey => ?_⟩
    · by_cases hstores : Stores db (c.admitted values) d
      · exact .inl (stores_iff.mp hstores)
      · have hd' := hstored d hd
        rw [hrows d,if_neg hstores] at hd'
        exact .inr hd'
    · have hsame := hothers _ hkey
      rwa [hrows,if_pos (stores_iff.mpr ⟨d,hd,rfl⟩)] at hsame
  · rintro ⟨hreached,hwithin⟩
    refine ⟨fun d hd => ?_,fun d hd => ?_⟩
    · rw [hrows d]
      split
      · rfl
      · rename_i hstores
        exact (hreached d hd).resolve_left fun h => hstores (stores_iff.mpr h)
    · rw [hrows d]
      split
      · rename_i hstores
        obtain ⟨e,he,rfl⟩ := stores_iff.mp hstores
        exact (hwithin e he).resolve_left hd
      · rfl

/-- A call accounts for its names exactly if normalising them twice does no harm. -/
theorem enqueue_accounts_iff (c : Context) (values : List String) (priority : ℤ)
    (source poolId : String) (requeueExisting : Bool) (db : Database) :
    EnqueueAccounts c values priority source poolId requeueExisting db ↔
      Harmless c values (c.request priority source poolId requeueExisting) db := by
  constructor
  · rintro ⟨result,db',hcall,haccounts⟩
    have hnamed : ∀ d ∈ c.admitted values, normalizeDomain d ≠ "" := by
      simp only [stagingEnqueueDetailed] at hcall
      split at hcall
      · cases hcall
      · rename_i hall
        exact enqueueAll_named hall
    obtain ⟨_,_,hcall',-,-,hrows⟩ :=
      stagingEnqueueDetailed_runs priority source poolId requeueExisting db hnamed
    obtain ⟨rfl,rfl⟩ := Prod.mk.inj (Except.ok.inj (hcall.symm.trans hcall'))
    obtain ⟨hreached,hwithin⟩ := (rows_iff hrows).mp ⟨haccounts.stored,haccounts.others⟩
    exact ⟨hnamed,hreached,hwithin⟩
  · intro h
    obtain ⟨result,db',hcall,hrequested,hcounted,hrows⟩ :=
      stagingEnqueueDetailed_runs priority source poolId requeueExisting db h.named
    obtain ⟨hstored,hothers⟩ := (rows_iff hrows).mpr ⟨h.reached,h.within⟩
    refine ⟨result,db',hcall,hrequested.trans length_uniqueDomains,hcounted,hstored,hothers,?_⟩
    rintro d (⟨-,hfiltered⟩ | hlocked) hnone
    · rw [hothers d fun hd => ?_,hnone]
      have hpasses := (List.mem_filter.mp hd.1).2
      simp [hfiltered] at hpasses
    · have hstores : ¬ Stores db (c.admitted values) d := fun h => by simp [h.2] at hlocked
      rw [hrows d,if_neg hstores,hnone]

/-- Names that a second normalisation leaves alone do no harm. -/
theorem harmless_of_settled {r : Request}
    (h : ∀ d ∈ c.admitted values, normalizeDomain d = d) : Harmless c values r db where
  named d hd := by
    rw [h d hd]
    have hunique := List.mem_eraseDups.mp (List.mem_filter.mp hd).1
    simpa using (List.mem_filter.mp hunique).2
  reached d hd := .inl ⟨d,hd,h d hd.1⟩
  within d hd := .inl (by rwa [h d hd.1])

end Call

/-- A spelling whose normal form vanishes at the second pass aborts the whole batch. -/
theorem odd_spelling_aborts :
    uniqueDomains ["a.com",". ."] = ["a.com",". "] ∧
      stagingEnqueueDetailed ⟨5,[]⟩ ["a.com",". ."] 0 "" "" false Database.empty =
        .error .emptyDomain ∧
      ¬ EnqueueAccounts ⟨5,[]⟩ ["a.com",". ."] 0 "" "" false Database.empty := by
  have herror : stagingEnqueueDetailed ⟨5,[]⟩ ["a.com",". ."] 0 "" "" false Database.empty =
      .error .emptyDomain := rfl
  refine ⟨by decide,herror,?_⟩
  rintro ⟨result,db',hcall,-⟩
  rw [herror] at hcall
  cases hcall

end Queue
end WormholeObservatory
