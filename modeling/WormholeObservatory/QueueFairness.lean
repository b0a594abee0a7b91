import WormholeObservatory.Charges
import WormholeObservatory.QueueRuns

/-! How long a domain waits in the queue. The rows before it are claimed first, and each of them
comes back only as often as it has attempts left, so while it waits the claims of its pool are
paid for by the rows that stood before it, by those that overtake it and by those that are put
back without the loss of an attempt. -/
namespace WormholeObservatory
namespace Queue

open Transition

section Rows

variable (d : String) (row : StagingRow)

/-- A row before that of `d` in the queue of its pool. A row that a worker holds keeps its place. -/
def Ahead (e : String) (other : StagingRow) : Prop :=
  e ≠ d ∧ other.poolId = row.poolId ∧ other.state ≠ .failed ∧ claimOrder (e,other) (d,row)

instance (e : String) (other : StagingRow) : Decidable (Ahead d row e other) :=
  inferInstanceAs (Decidable (_ ∧ _))

def aheadRow (e : String) (entry : Option StagingRow) : Bool :=
  entry.any fun other => decide (Ahead d row e other)

/-- The domains before `d`. -/
def aheadOf (db : Database) : Finset String :=
  db.staging.keys.toFinset.filter fun e => aheadRow d row e (db.staging.lookup e) = true

/-- How often a row can be claimed before its attempts are used up. -/
def StagingRow.tries (maxAttempts : ℕ) (row : StagingRow) : ℕ :=
  match row.state with
  | .queued => max 1 (maxAttempts-row.attempts).toNat
  | .processing => (maxAttempts-row.attempts).toNat
  | .failed => 0

/-- The tries of a row that stands before that of `d`. -/
def weight (maxAttempts : ℕ) (e : String) (entry : Option StagingRow) : ℕ :=
  match entry with
  | none => 0
  | some other => if Ahead d row e other then other.tries maxAttempts else 0

variable [CaseTables]

/-- Whether a call puts a row back into the queue without the loss of an attempt. -/
def Op.returns (e : String) (entry : Option StagingRow) : Op → Bool
  | .defer domain _ _ => decide (normalizeDomain domain = e)
  | .requeueProcessing poolId => entry.any fun other =>
    decide (other.state = .processing) && (parsePool poolId).all fun p => decide (other.poolId = p)
  | _ => false

/-- The domains that a call puts before `d`. -/
def overtakers (db : Database) (l : Context × Op) : Finset String :=
  aheadOf d row (l.2.exec l.1 db) \ aheadOf d row db

/-- The domains before `d` that a call puts back. -/
def returned (db : Database) (l : Context × Op) : Finset String :=
  (aheadOf d row db).filter fun e => l.2.returns e (db.staging.lookup e) = true

/-- Whether a call claims at least so many rows of the pool of `d`, if there are so many, at a time
when that of `d` can be claimed. -/
def Op.serves (limit : ℕ) (l : Context × Op) : Bool :=
  match l.2 with
  | .claim n poolId => decide (parsePool poolId = some row.poolId) &&
    decide ((limit : ℤ) ≤ max 1 n) && decide (row.availableAt ≤ l.1.now)
  | _ => false

def Op.failsWithin (maxAttempts : ℕ) : Op → Prop
  | .fail _ _ n => n ≤ maxAttempts
  | _ => True

/-- A step during which `d` goes on waiting. -/
def WaitingStep (maxAttempts : ℕ) (db : Database) (l : Context × Op) (db' : Database) : Prop :=
  Op.Step db l db' ∧ db'.staging.lookup d = some row ∧ l.2.failsWithin maxAttempts

end Rows

section Weights

variable {d e : String} {row other : StagingRow} {entry entry' : Option StagingRow}
  {maxAttempts : ℕ}

theorem aheadRow_some : aheadRow d row e (some other) = true ↔ Ahead d row e other := by
  simp [aheadRow]

theorem mem_aheadOf {db : Database} :
    e ∈ aheadOf d row db ↔ aheadRow d row e (db.staging.lookup e) = true := by
  rw [aheadOf,Finset.mem_filter,List.mem_toFinset,← AList.mem_keys,and_iff_right_iff_imp]
  intro h
  cases hentry : db.staging.lookup e with
  | none => simp [hentry,aheadRow] at h
  | some other => exact AList.lookup_isSome.mp (by rw [hentry]; rfl)

theorem weight_of_not_ahead (h : ¬aheadRow d row e entry = true) :
    weight d row maxAttempts e entry = 0 := by
  cases entry with
  | none => rfl
  | some other =>
    rw [aheadRow_some] at h
    simp [weight,h]

theorem weight_le_tries (other : StagingRow) :
    weight d row maxAttempts e (some other) ≤ other.tries maxAttempts := by
  rw [weight]
  split
  · exact le_refl _
  · exact Nat.zero_le _

theorem weight_of_ahead (h : Ahead d row e other) :
    weight d row maxAttempts e (some other) = other.tries maxAttempts := by
  simp [weight,h]

theorem tries_le (hmax : 1 ≤ maxAttempts) (h : 0 ≤ other.attempts) :
    other.tries maxAttempts ≤ maxAttempts := by
  rw [StagingRow.tries]
  split <;> omega

theorem weight_le_max (hmax : 1 ≤ maxAttempts) (h : ∀ x, entry = some x → 0 ≤ x.attempts) :
    weight d row maxAttempts e entry ≤ maxAttempts := by
  cases entry with
  | none => exact Nat.zero_le _
  | some other => exact (weight_le_tries other).trans (tries_le hmax (h other rfl))

/-- Staging neither claims a row nor frees one, and keeps the attempts of a row it finds in the
queue. -/
theorem Request.Staged.standing {r : Request} (h : r.Staged (some row) entry)
    (hrow : row.state ≠ .failed) :
    ∃ x, entry = some x ∧ x.state = row.state ∧ x.attempts = row.attempts := by
  refine h.rule (fun o => ∃ x, o = some x ∧ x.state = row.state ∧ x.attempts = row.attempts) ?_
    ⟨row,rfl,rfl,rfl⟩
  rintro _ ⟨x,rfl,hstate,hattempts⟩
  cases hx : x.state with
  | queued => exact ⟨_,rfl,by simp [Request.stage,hx,← hstate],by simp [Request.stage,hx,hattempts]⟩
  | processing =>
    rw [r.stage_processing hx]
    exact ⟨x,rfl,hstate,hattempts⟩
  | failed => exact absurd (hstate.symm.trans hx) hrow

/-- What a call makes of a row that stands before that of `d`. -/
theorem RowMove.tries_le [CaseTables] {c : Context} {db : Database} {op : Op}
    (h : RowMove c db e op (some other) entry) (hlive : other.state ≠ .failed)
    (hmax : 1 ≤ maxAttempts) (hfails : op.failsWithin maxAttempts) (hcount : 0 ≤ other.attempts) :
    weight d row maxAttempts e entry ≤ other.tries maxAttempts+
      if op.returns e (some other) = true then 1 else 0 := by
  cases h with
  | keep => exact (weight_le_tries other).trans (Nat.le_add_right _ _)
  | staged _ _ _ hstaged =>
    obtain ⟨x,rfl,hstate,hattempts⟩ := hstaged.standing hlive
    refine (weight_le_tries x).trans ?_
    rw [StagingRow.tries,hstate,hattempts,StagingRow.tries]
    exact Nat.le_add_right _ _
  | claimed hclaim =>
    refine (weight_le_tries _).trans ?_
    simp only [claimable,Bool.and_eq_true,decide_eq_true_eq] at hclaim
    simp only [StagingRow.tries,StagingRow.claim,hclaim.1.1]
    omega
  | removed _ => exact Nat.zero_le _
  | @failed _ _ n _ hd =>
    refine (weight_le_tries _).trans ?_
    have hn : n ≤ maxAttempts := hfails
    simp only [StagingRow.tries,StagingRow.fail]
    by_cases hn' : n ≤ other.attempts
    · simp [hn']
    · simp only [ge_iff_le,if_neg hn']
      cases hstate : other.state with
      | failed => exact absurd hstate hlive
      | queued => exact Nat.le_add_right _ _
      | processing =>
        simp only
        omega
  | deferred hd =>
    refine (weight_le_tries _).trans ?_
    simp only [StagingRow.tries,StagingRow.defer,Op.returns,hd,decide_true,if_true]
    cases hstate : other.state with
    | failed => exact absurd hstate hlive
    | queued =>
      simp only
      omega
    | processing =>
      simp only
      omega
  | @requeued poolId _ hstate hpool =>
    refine (weight_le_tries _).trans ?_
    have hreturns : (Op.requeueProcessing poolId).returns e (some other) = true := by
      simpa [Op.returns,hstate,Option.all_eq_true] using hpool
    rw [hreturns]
    simp only [StagingRow.tries,StagingRow.requeue,hstate,if_true]
    omega

/-- What a call makes of any row, next to that of `d`. -/
theorem RowMove.weight_le [CaseTables] {c : Context} {db : Database} {op : Op}
    (h : RowMove c db e op entry entry') (hmax : 1 ≤ maxAttempts)
    (hfails : op.failsWithin maxAttempts) (hcount : ∀ x, entry = some x → 0 ≤ x.attempts) :
    weight d row maxAttempts e entry' ≤ weight d row maxAttempts e entry+
      ((if aheadRow d row e entry' = true ∧ ¬aheadRow d row e entry = true then maxAttempts else 0)+
        if aheadRow d row e entry = true ∧ op.returns e entry = true then 1 else 0) := by
  by_cases hahead : aheadRow d row e entry = true
  · simp only [hahead,not_true,and_false,if_false,true_and]
    cases entry with
    | none => cases hahead
    | some other =>
      have hother := aheadRow_some.mp hahead
      rw [weight_of_ahead hother,Nat.zero_add]
      exact h.tries_le hother.2.2.1 hmax hfails (hcount other rfl)
  · by_cases hnext : aheadRow d row e entry' = true
    · rw [if_pos ⟨hnext,hahead⟩]
      have hle : weight d row maxAttempts e entry' ≤ maxAttempts :=
        weight_le_max hmax (h.counted hcount)
      omega
    · rw [weight_of_not_ahead hnext]
      exact Nat.zero_le _

end Weights

section Claims

variable {d : String} {row : StagingRow} {maxAttempts : ℕ} {db : Database}

theorem claimOrder_total (a b : String × StagingRow) : claimOrder a b ∨ claimOrder b a := by
  rcases lt_trichotomy a.2.priority b.2.priority with h | h | h
  · exact .inr (.inl h)
  · rcases lt_trichotomy a.2.createdAt b.2.createdAt with h' | h' | h'
    · exact .inl (.inr ⟨h,.inl h'⟩)
    · rcases le_total (codes a.1) (codes b.1) with hle | hle
      · exact .inl (.inr ⟨h,.inr ⟨h',hle⟩⟩)
      · exact .inr (.inr ⟨h.symm,.inr ⟨h'.symm,hle⟩⟩)
    · exact .inr (.inr ⟨h.symm,.inl h'⟩)
  · exact .inl (.inl h)

theorem claimOrder_trans {a b c : String × StagingRow} (hab : claimOrder a b)
    (hbc : claimOrder b c) : claimOrder a c := by
  rcases hab with h | ⟨h,h' | ⟨h',hle⟩⟩ <;> rcases hbc with g | ⟨g,g' | ⟨g',gle⟩⟩
  · exact .inl (g.trans h)
  · exact .inl (g ▸ h)
  · exact .inl (g ▸ h)
  · exact .inl (by omega)
  · exact .inr ⟨h.trans g,.inl (h'.trans g')⟩
  · exact .inr ⟨h.trans g,.inl (by omega)⟩
  · exact .inl (by omega)
  · exact .inr ⟨h.trans g,.inl (by omega)⟩
  · exact .inr ⟨h.trans g,.inr ⟨h'.trans g',hle.trans gle⟩⟩

instance : Std.Total claimOrder := ⟨claimOrder_total⟩

instance : IsTrans (String × StagingRow) claimOrder := ⟨fun _ _ _ => claimOrder_trans⟩

/-- A claim that could have taken the row of `d` and did not took as many rows as it may, and each
of them stood before that of `d`. -/
theorem claimed_before {now limit : ℤ} (hrow : db.staging.lookup d = some row)
    (hqueued : row.state = .queued) (hnow : row.availableAt ≤ now)
    (hleft : d ∉ (claimedRows now limit (some row.poolId) db).map Prod.fst) :
    (claimedRows now limit (some row.poolId) db).length = (max 1 limit).toNat ∧
      ∀ e ∈ (claimedRows now limit (some row.poolId) db).map Prod.fst, e ∈ aheadOf d row db := by
  set rows := (db.staging.select fun _ other => claimable now (some row.poolId) other).insertionSort
    claimOrder with hrows
  have hmem : (d,row) ∈ rows := by
    refine (List.mem_insertionSort _).mpr (Table.mem_select.mpr ⟨hrow,?_⟩)
    simp [claimable,hqueued,hnow]
  have htake : claimedRows now limit (some row.poolId) db = rows.take (max 1 limit).toNat := rfl
  rw [htake] at hleft ⊢
  rw [← List.take_append_drop (max 1 limit).toNat rows,List.mem_append] at hmem
  have hdrop := hmem.resolve_left fun h => hleft (List.mem_map_of_mem h)
  refine ⟨?_,?_⟩
  · have hlong := List.length_pos_of_mem hdrop
    rw [List.length_drop] at hlong
    rw [List.length_take]
    omega
  · intro e he
    obtain ⟨⟨e',other⟩,hother,rfl⟩ := List.mem_map.mp he
    obtain ⟨hlookup,hclaim⟩ := mem_claimedRows (htake ▸ hother)
    have hsorted : rows.Pairwise claimOrder := List.pairwise_insertionSort _ _
    rw [← List.take_append_drop (max 1 limit).toNat rows,List.pairwise_append] at hsorted
    have horder := hsorted.2.2 _ hother _ hdrop
    simp only [claimable,Option.all_some,Bool.and_eq_true,decide_eq_true_eq] at hclaim
    rw [mem_aheadOf,hlookup,aheadRow_some]
    refine ⟨?_,hclaim.2,?_,horder⟩
    · rintro rfl
      exact hleft he
    · rw [hclaim.1.1]
      exact RowState.noConfusion

/-- A row that is claimed has one try less. -/
theorem weight_claim {e : String} {other : StagingRow} (now : ℤ) (hahead : Ahead d row e other)
    (hqueued : other.state = .queued) :
    weight d row maxAttempts e (some (other.claim now))+1 ≤
      weight d row maxAttempts e (some other) := by
  have hle : weight d row maxAttempts e (some (other.claim now)) ≤
      (other.claim now).tries maxAttempts := weight_le_tries _
  rw [weight_of_ahead hahead]
  simp only [StagingRow.tries,StagingRow.claim,hqueued] at hle ⊢
  omega

end Claims

section Waiting

variable [CaseTables] {d : String} {row : StagingRow} {maxAttempts limit : ℕ} {db db' : Database}
  {l : Context × Op}

theorem mem_overtakers {e : String} : e ∈ overtakers d row db l ↔
    aheadRow d row e ((l.2.exec l.1 db).staging.lookup e) = true ∧
      ¬aheadRow d row e (db.staging.lookup e) = true := by
  rw [overtakers,Finset.mem_sdiff,mem_aheadOf,mem_aheadOf]

theorem mem_returned {e : String} : e ∈ returned d row db l ↔
    aheadRow d row e (db.staging.lookup e) = true ∧ l.2.returns e (db.staging.lookup e) = true := by
  rw [returned,Finset.mem_filter,mem_aheadOf]

/-- Only a row that an enqueue stages comes before that of `d`, or one that had failed and is written
back by a worker that no longer holds it. -/
theorem overtakers_staged {e : String} (h : e ∈ overtakers d row db l) :
    e ∈ l.2.staged l.1 db ∨ ∃ other, db.staging.lookup e = some other ∧ other.state = .failed ∧
      ((∃ domain error n, l.2 = .fail domain error n ∧ normalizeDomain domain = e) ∨
        ∃ domain error retryAt, l.2 = .defer domain error retryAt ∧ normalizeDomain domain = e) := by
  obtain ⟨hafter,hbefore⟩ := mem_overtakers.mp h
  have hmove := exec_row l.1 l.2 db e
  generalize hop : l.2 = op at hmove hafter ⊢
  generalize hentry : db.staging.lookup e = entry at hmove hbefore ⊢
  generalize hentry' : (op.exec l.1 db).staging.lookup e = entry' at hmove hafter
  cases hmove with
  | keep => exact absurd hafter hbefore
  | staged _ hmem => exact .inl hmem
  | removed => cases hafter
  | claimed hclaim =>
    rw [aheadRow_some] at hafter hbefore
    simp only [claimable,Bool.and_eq_true,decide_eq_true_eq] at hclaim
    refine absurd ⟨hafter.1,hafter.2.1,?_,hafter.2.2.2⟩ hbefore
    rw [hclaim.1.1]
    exact RowState.noConfusion
  | requeued hstate =>
    rw [aheadRow_some] at hafter hbefore
    refine absurd ⟨hafter.1,hafter.2.1,?_,hafter.2.2.2⟩ hbefore
    rw [hstate]
    exact RowState.noConfusion
  | @failed domain error n other hd =>
    rw [aheadRow_some] at hafter hbefore
    refine .inr ⟨other,rfl,?_,.inl ⟨domain,error,n,rfl,hd⟩⟩
    by_contra hlive
    exact hbefore ⟨hafter.1,hafter.2.1,hlive,hafter.2.2.2⟩
  | @deferred domain error retryAt other hd =>
    rw [aheadRow_some] at hafter hbefore
    refine .inr ⟨other,rfl,?_,.inr ⟨domain,error,retryAt,rfl,hd⟩⟩
    by_contra hlive
    exact hbefore ⟨hafter.1,hafter.2.1,hlive,hafter.2.2.2⟩

/-- A step is charged for the rows it puts before that of `d`. -/
theorem step_charged (hcount : Counted db) (hmax : 1 ≤ maxAttempts)
    (hfails : l.2.failsWithin maxAttempts) :
    Charges.weigh (weight d row maxAttempts) (l.2.exec l.1 db).staging ≤
      Charges.weigh (weight d row maxAttempts) db.staging+
        (maxAttempts*(overtakers d row db l).card+(returned d row db l).card) := by
  have hsum := Charges.weigh_add_le (f := weight d row maxAttempts) (fun _ => rfl)
    (Finset.empty_subset db.staging.keys.toFinset) (u := (l.2.exec l.1 db).staging)
    (m := maxAttempts) (B := overtakers d row db l) (C := returned d row db l) ?_
  · simpa using hsum
  intro e
  simp only [mem_overtakers,mem_returned,Finset.notMem_empty,if_false,Nat.add_zero]
  exact (exec_row l.1 l.2 db e).weight_le hmax hfails (hcount e)

/-- A claim that serves the pool of `d` pays for the rows it takes. -/
theorem claim_paid {n : ℤ} {poolId : String} (hrow : db.staging.lookup d = some row)
    (hqueued : row.state = .queued) (hserves : Op.serves row limit (l.1,.claim n poolId) = true)
    (hleft : (Op.exec l.1 db (.claim n poolId)).staging.lookup d = some row) :
    Charges.weigh (weight d row maxAttempts) (Op.exec l.1 db (.claim n poolId)).staging+limit ≤
      Charges.weigh (weight d row maxAttempts) db.staging := by
  simp only [Op.serves,Bool.and_eq_true,decide_eq_true_eq] at hserves
  obtain ⟨⟨hpool,hlimit⟩,hnow⟩ := hserves
  simp only [Op.exec,hpool] at hleft ⊢
  rw [lookup_stagingClaimItems,hrow,Option.map_some,claimedItems_domain] at hleft
  have hunclaimed : d ∉ (claimedRows l.1.now n (some row.poolId) db).map Prod.fst := by
    intro hmem
    rw [if_pos hmem] at hleft
    have hstate := congrArg StagingRow.state (Option.some.inj hleft)
    rw [hqueued] at hstate
    cases hstate
  obtain ⟨hlength,hbefore⟩ := claimed_before hrow hqueued hnow hunclaimed
  set claimed := (claimedRows l.1.now n (some row.poolId) db).map Prod.fst with hclaimed
  have hnodup : claimed.Nodup := by
    rw [hclaimed,← claimedItems_domain]
    exact claimedItems_nodup _ _ _ _
  have hcard : claimed.toFinset.card = (max 1 n).toNat := by
    rw [List.toFinset_card_of_nodup hnodup,hclaimed,List.length_map,hlength]
  have hinside : claimed.toFinset ⊆ db.staging.keys.toFinset := by
    intro e he
    exact (Finset.mem_filter.mp (hbefore e (List.mem_toFinset.mp he))).1
  have hsum := Charges.weigh_add_le (f := weight d row maxAttempts) (fun _ => rfl) hinside
    (u := (stagingClaimItems l.1.now n (some row.poolId) db).2.staging) (m := 0) (B := ∅) (C := ∅)
    ?_
  · rw [hcard] at hsum
    simp only [Finset.card_empty] at hsum
    omega
  intro e
  rw [lookup_stagingClaimItems,claimedItems_domain,← hclaimed]
  simp only [List.mem_toFinset,Finset.notMem_empty,if_false,Nat.add_zero]
  by_cases he : e ∈ claimed
  · have hahead := mem_aheadOf.mp (hbefore e he)
    obtain ⟨⟨e',other⟩,hother,rfl⟩ := List.mem_map.mp he
    obtain ⟨hlookup,hclaim⟩ := mem_claimedRows hother
    simp only [claimable,Bool.and_eq_true,decide_eq_true_eq] at hclaim
    simp only at hahead
    rw [hlookup] at hahead ⊢
    simpa only [Option.map_some,if_pos he] using
      weight_claim l.1.now (aheadRow_some.mp hahead) hclaim.1.1
  · simp only [if_neg he,Option.map_id',Nat.add_zero]
    exact le_refl _

omit [CaseTables] in
/-- The rows before that of `d` have at most so many tries. -/
theorem weigh_le (hcount : Counted db) (hmax : 1 ≤ maxAttempts) :
    Charges.weigh (weight d row maxAttempts) db.staging ≤ maxAttempts*(aheadOf d row db).card := by
  have hle : ∀ e ∈ db.staging.keys.toFinset, weight d row maxAttempts e (db.staging.lookup e) ≤
      if aheadRow d row e (db.staging.lookup e) = true then maxAttempts else 0 := by
    intro e _
    split
    · exact weight_le_max hmax (hcount e)
    · rename_i hahead
      rw [weight_of_not_ahead hahead]
  rw [Charges.weigh,aheadOf]
  refine (Finset.sum_le_sum hle).trans ?_
  rw [← Finset.sum_filter,Finset.sum_const,smul_eq_mul,mul_comm]

/-- One step of the wait. -/
theorem waitingStep_charged (hcount : Counted db) (hrow : db.staging.lookup d = some row)
    (hqueued : row.state = .queued) (hmax : 1 ≤ maxAttempts)
    (hstep : WaitingStep d row maxAttempts db l db') :
    Charges.weigh (weight d row maxAttempts) db'.staging+
        (if Op.serves row limit l = true then limit else 0) ≤
      Charges.weigh (weight d row maxAttempts) db.staging+
        (maxAttempts*(overtakers d row db l).card+(returned d row db l).card) := by
  obtain ⟨rfl,hleft,hfails⟩ := hstep
  by_cases hserves : Op.serves row limit l = true
  · obtain ⟨c,op⟩ := l
    rw [if_pos hserves]
    cases op with
    | claim n poolId =>
      exact (claim_paid hrow hqueued hserves hleft).trans (Nat.le_add_right _ _)
    | _ => cases hserves
  · rw [if_neg hserves,Nat.add_zero]
    exact step_charged hcount hmax hfails

/-- How often the pool of `d` is served while it waits: not more often than the rows before it
allow. -/
theorem waiting_bounded {before labels : List (Context × Op)}
    (hreach : Run Op.Step Database.empty before db) (hrow : db.staging.lookup d = some row)
    (hqueued : row.state = .queued) (hmax : 1 ≤ maxAttempts)
    (hrun : Run (WaitingStep d row maxAttempts) db labels db') :
    limit*labels.countP (Op.serves row limit) ≤
      maxAttempts*((aheadOf d row db).card+
        Charges.total (fun db l => l.2.exec l.1 db) (fun db l => (overtakers d row db l).card)
          db labels)+
      Charges.total (fun db l => l.2.exec l.1 db) (fun db l => (returned d row db l).card)
        db labels := by
  have hcounted : ∀ s l t, Counted s ∧ s.staging.lookup d = some row →
      WaitingStep d row maxAttempts s l t → t = l.2.exec l.1 s ∧
        (Counted t ∧ t.staging.lookup d = some row) ∧
        Charges.weigh (weight d row maxAttempts) t.staging+
            (if Op.serves row limit l = true then limit else 0) ≤
          Charges.weigh (weight d row maxAttempts) s.staging+
            (maxAttempts*(overtakers d row s l).card+(returned d row s l).card) := by
    rintro s l t ⟨hcount,hs⟩ hstep
    refine ⟨hstep.1.symm,⟨?_,hstep.2.1⟩,waitingStep_charged hcount hs hqueued hmax hstep⟩
    obtain ⟨rfl,-⟩ := hstep
    exact fun e => (exec_row l.1 l.2 s e).counted (hcount e)
  have hcount := counted hreach
  have hall := Charges.run_charged _ hcounted hrun ⟨hcount,hrow⟩
  rw [Charges.total_ite,Charges.total_mul_add] at hall
  have hstart : Charges.weigh (weight d row maxAttempts) db.staging ≤
      maxAttempts*(aheadOf d row db).card := weigh_le hcount hmax
  rw [mul_add]
  omega

end Waiting

/-! A sample: two domains are queued, and the later one waits while the earlier one is claimed. -/

def waitingSample : Database :=
  [(⟨10,[]⟩,.enqueue ["first.example"] 0 "" "" false),
    (⟨20,[]⟩,.enqueue ["second.example"] 0 "" "" false)].foldl
      (fun db (l : Context × Op) => l.2.exec l.1 db) Database.empty

theorem waiting_bounded_sample :
    let row : StagingRow := ⟨.queued,0,20,20,"",0,"",.background,0⟩
    let labels : List (Context × Op) := [(⟨30,[]⟩,.claim 1 "background")]
    1*labels.countP (Op.serves row 1) ≤ 1*((aheadOf "second.example" row waitingSample).card+
      Charges.total (fun db l => l.2.exec l.1 db)
        (fun db l => (overtakers "second.example" row db l).card) waitingSample labels)+
      Charges.total (fun db l => l.2.exec l.1 db)
        (fun db l => (returned "second.example" row db l).card) waitingSample labels := by
  intro row labels
  have hrow : ((Op.claim 1 "background").exec ⟨30,[]⟩ waitingSample).staging.lookup
      "second.example" = some row := by decide
  exact waiting_bounded (Run.foldl _ _ _) (by decide) rfl (le_refl _)
    (.single ⟨rfl,hrow,trivial⟩)

end Queue
end WormholeObservatory
