import WormholeObservatory.Pages
import WormholeObservatory.ReviewListing

/-! Listings of at most `limit` rows. The tables are cut before the preferences are asked, and the
queue is cut in an order that is not the listing's, so a row may be left out although there is room
for it. -/
namespace WormholeObservatory
namespace Review

open Queue (StagingRow)

section Listings

variable [CaseTables]

/-- `database.review_get(limit, needs_review=True)`: without the silenced domains. -/
def databaseReviewGet (now limit : ℤ) (s : Store) : List ReviewItem :=
  (reviewGet limit s).filter fun item => !preferenceBlocksReview now item.domain s

/-! The rows that a listing without a limit shows. -/

/-- The flagged rows, the ones that changed last first. -/
def byUpdate (s : Store) : List (String × ReviewRow) :=
  (s.review.select fun _ row => row.needsReview).insertionSort
    fun a b => b.2.updatedAt ≤ a.2.updatedAt

/-- The queued items, in the order they are claimed in. -/
def byClaim (s : Store) : List (String × StagingRow) :=
  (s.queue.staging.select fun _ _ => true).insertionSort Queue.claimOrder

/-- The domains that no preference silences. -/
def unsilenced (now : ℤ) (s : Store) (domains : List String) : List String :=
  domains.filter fun d => !preferenceBlocksReview now d s

/-- The sort key of a domain in a listing that has these rows of it. -/
def listedKey (d : String) (row : Option ReviewRow) (queued : Option StagingRow) : List ℤ :=
  let updatedAt := row.elim 0 ReviewRow.updatedAt
  let createdAt := queued.elim 0 StagingRow.createdAt
  stateRank (queued.map StagingRow.state)::-queued.elim 0 StagingRow.priority::
    (if createdAt = 0 then updatedAt else createdAt)::codes d

/-- The sort key with all rows listed. -/
def fullKey (s : Store) (d : String) : List ℤ :=
  listedKey d ((s.review.lookup d).filter ReviewRow.needsReview) (s.queue.staging.lookup d)

/-- The first `n` domains that are asked about, in the order of the listing. -/
def wanted (now : ℤ) (n : ℕ) (s : Store) : List String :=
  ((unsilenced now s (involved s)).insertionSort fun a b => fullKey s a ≤ fullKey s b).take n

/-- Both listings show as many unsilenced rows as there is room for, the first ones. -/
structure ShowsFirst (now : ℤ) (n : ℕ) (s : Store) : Prop where
  reviewCount : (databaseReviewGet now n s).length =
    min n (unsilenced now s ((s.review.select fun _ row => row.needsReview).map Prod.fst)).length
  reviewFirst : (databaseReviewGet now n s).map ReviewItem.domain =
    (unsilenced now s ((byUpdate s).map Prod.fst)).take n
  queueCount : (reviewQueueGet now n s).length = min n (unsilenced now s (involved s)).length
  queueFirst : (reviewQueueGet now n s).map ReviewItem.domain = wanted now n s

/-! What the limit leaves. -/

/-- The domains of the review rows that the limit leaves. -/
def recent (n : ℕ) (s : Store) : List String := ((byUpdate s).take n).map Prod.fst

/-- The domains of the queued items that the limit leaves. -/
def early (n : ℕ) (s : Store) : List String := ((byClaim s).take n).map Prod.fst

/-- The domains the limit leaves, silenced or not. -/
def left (n : ℕ) (s : Store) : List String := (recent n s++early n s).dedup

/-- The sort key with the rows that the limit leaves. -/
def cutKey (n : ℕ) (s : Store) (d : String) : List ℤ :=
  listedKey d (if d ∈ recent n s then s.review.lookup d else none)
    (if d ∈ early n s then s.queue.staging.lookup d else none)

/-- Silenced rows take no place that an unsilenced one needs, nor does the order of the queue. -/
structure RoomForAll (now : ℤ) (n : ℕ) (s : Store) : Prop where
  review : (∀ d ∈ ((byUpdate s).map Prod.fst).take n, preferenceBlocksReview now d s = false) ∨
    ∀ d ∈ ((byUpdate s).map Prod.fst).drop n, preferenceBlocksReview now d s = true
  kept : ∀ d ∈ wanted now n s, d ∈ left n s
  room : ∀ d ∈ wanted now n s, ((left n s).filter fun d' => cutKey n s d' < cutKey n s d).length < n
  order : ∀ d ∈ wanted now n s, ∀ d' ∈ wanted now n s,
    fullKey s d < fullKey s d' → cutKey n s d < cutKey n s d'

section Proofs

variable {now : ℤ} {n : ℕ} {s : Store}

omit [CaseTables] in
theorem toNat_limit (hn : 1 ≤ n) : (max 1 (n : ℤ)).toNat = n := by
  omega

/-! `review_get`. -/

omit [CaseTables] in
theorem reviewGet_eq (hn : 1 ≤ n) :
    reviewGet n s = ((byUpdate s).take n).map fun e => e.2.item e.1 := by
  rw [reviewGet,toNat_limit hn]
  rfl

omit [CaseTables] in
theorem reviewGet_recent (hn : 1 ≤ n) : (reviewGet n s).map ReviewItem.domain = recent n s := by
  rw [reviewGet_eq hn,List.map_map]
  rfl

theorem databaseReviewGet_domains (hn : 1 ≤ n) :
    (databaseReviewGet now n s).map ReviewItem.domain =
      (((byUpdate s).map Prod.fst).take n).filter fun d => !preferenceBlocksReview now d s := by
  rw [databaseReviewGet,← List.map_take,show ((byUpdate s).take n).map Prod.fst = recent n s from rfl,
    ← reviewGet_recent hn,List.filter_map]
  rfl

omit [CaseTables] in
theorem byUpdate_perm : ((byUpdate s).map Prod.fst).Perm
    ((s.review.select fun _ row => row.needsReview).map Prod.fst) :=
  (List.perm_insertionSort _ _).map _

omit [CaseTables] in
theorem byClaim_perm : ((byClaim s).map Prod.fst).Perm
    ((s.queue.staging.select fun _ _ => true).map Prod.fst) :=
  (List.perm_insertionSort _ _).map _

/-! The merge: what an entry of it carries. -/

/-- The entry has the columns of the queued item. -/
def Carries (item : ReviewItem) (row : StagingRow) : Prop :=
  item.queueState = some row.state ∧ item.queuePriority = row.priority ∧
    item.queueCreatedAt = row.createdAt

/-- The entry's time of the last update is that of the item it comes from, 0 if there is none. -/
def Dated (items : List ReviewItem) (item : ReviewItem) : Prop :=
  (∃ old ∈ items, old.domain = item.domain ∧ old.updatedAt = item.updatedAt) ∨
    item.domain ∉ items.map ReviewItem.domain ∧ item.updatedAt = 0

omit [CaseTables] in
theorem mem_mergeQueued {items : List ReviewItem} {queued : String × StagingRow} {item : ReviewItem}
    (h : item ∈ mergeQueued items queued) :
    (item ∈ items ∧ item.domain ≠ queued.1) ∨
      (item.domain = queued.1 ∧ Carries item queued.2 ∧ Dated items item) := by
  have hany : (items.any (·.domain = queued.1)) = true ↔ queued.1 ∈ items.map ReviewItem.domain := by
    simp only [List.any_eq_true,decide_eq_true_eq,List.mem_map]
  simp only [mergeQueued,hany] at h
  split at h
  · obtain ⟨old,hold,rfl⟩ := List.mem_map.mp h
    split
    · rename_i hdomain
      exact .inr ⟨hdomain,⟨rfl,rfl,rfl⟩,.inl ⟨old,hold,rfl,rfl⟩⟩
    · rename_i hdomain
      exact .inl ⟨hold,hdomain⟩
  · rename_i habsent
    rcases List.mem_append.mp h with hold | hnew
    · exact .inl ⟨hold,fun heq => habsent (heq ▸ List.mem_map_of_mem hold)⟩
    · obtain rfl := List.mem_singleton.mp hnew
      exact .inr ⟨rfl,⟨rfl,rfl,rfl⟩,.inr ⟨habsent,rfl⟩⟩

omit [CaseTables] in
/-- An entry of the merge is an item that is not queued, or it carries its queued item. -/
theorem mem_merged {queue : List (String × StagingRow)} (hqueue : (queue.map Prod.fst).Nodup)
    {items : List ReviewItem} {item : ReviewItem} (h : item ∈ queue.foldl mergeQueued items) :
    (item ∈ items ∧ item.domain ∉ queue.map Prod.fst) ∨
      ∃ row, (item.domain,row) ∈ queue ∧ Carries item row ∧ Dated items item := by
  induction queue generalizing items with
  | nil => exact .inl ⟨h,by simp⟩
  | cons queued queue ih =>
    obtain ⟨hnew,hrest⟩ := List.nodup_cons.mp hqueue
    rcases ih hrest h with ⟨hmem,hunqueued⟩ | ⟨row,hrow,hcarries,hdated⟩
    · rcases mem_mergeQueued hmem with ⟨hold,hdomain⟩ | ⟨hdomain,hcarries,hdated⟩
      · refine .inl ⟨hold,?_⟩
        rw [List.map_cons,List.mem_cons,not_or]
        exact ⟨hdomain,hunqueued⟩
      · exact .inr ⟨queued.2,by rw [hdomain]; exact List.mem_cons_self,hcarries,hdated⟩
    · have hother : item.domain ≠ queued.1 := fun heq => hnew (heq ▸ List.mem_map_of_mem hrow)
      refine .inr ⟨row,List.mem_cons_of_mem _ hrow,hcarries,?_⟩
      rcases hdated with ⟨old,hold,hdomain,hupdated⟩ | ⟨habsent,hzero⟩
      · rcases mem_mergeQueued hold with ⟨hold,-⟩ | ⟨heq,-⟩
        · exact .inl ⟨old,hold,hdomain,hupdated⟩
        · exact absurd (hdomain.symm.trans heq) hother
      · refine .inr ⟨fun hmem => habsent ?_,hzero⟩
        rw [mergeQueued_domains]
        split
        · exact hmem
        · exact List.mem_append_left _ hmem

/-! `review_queue_get`. -/

omit [CaseTables] in
theorem stagingList_eq (hn : 1 ≤ n) : stagingList n s = (byClaim s).take n := by
  rw [stagingList,toNat_limit hn]
  rfl

omit [CaseTables] in
theorem nodup_recent : (recent n s).Nodup := by
  rw [recent,List.map_take]
  exact (byUpdate_perm.nodup_iff.mpr (Table.nodup_select _ _)).sublist (List.take_sublist _ _)

omit [CaseTables] in
theorem nodup_early : (early n s).Nodup := by
  rw [early,List.map_take]
  exact (byClaim_perm.nodup_iff.mpr (Table.nodup_select _ _)).sublist (List.take_sublist _ _)

omit [CaseTables] in
theorem combinedRows_perm (hn : 1 ≤ n) :
    ((combinedRows n s).map ReviewItem.domain).Perm (left n s) := by
  have hrecent : ((reviewGet n s).map ReviewItem.domain).Nodup := by
    rw [reviewGet_recent hn]
    exact nodup_recent
  obtain ⟨hnodup,hmem⟩ := merged_domains (stagingList n s) (reviewGet n s) hrecent
  refine (List.perm_ext_iff_of_nodup hnodup (List.nodup_dedup _)).mpr fun d => ?_
  rw [hmem,reviewGet_recent hn,stagingList_eq hn,List.mem_dedup,List.mem_append]
  rfl

omit [CaseTables] in
/-- The entry of a domain has the key of the rows that the limit leaves of it. -/
theorem combinedRows_sortKey (hn : 1 ≤ n) {item : ReviewItem} (h : item ∈ combinedRows n s) :
    item.sortKey = cutKey n s item.domain := by
  have hqueue : ((stagingList n s).map Prod.fst).Nodup := by
    rw [stagingList_eq hn]
    exact nodup_early
  have hreview : ∀ old ∈ reviewGet n s, old.domain ∈ recent n s ∧ old.queueState = none ∧
      old.queuePriority = 0 ∧ old.queueCreatedAt = 0 ∧
      (s.review.lookup old.domain).elim 0 ReviewRow.updatedAt = old.updatedAt := by
    intro old hold
    have hrecent : old.domain ∈ recent n s := reviewGet_recent hn ▸ List.mem_map_of_mem hold
    rw [reviewGet_eq hn] at hold
    obtain ⟨⟨d,row⟩,hrow,rfl⟩ := List.mem_map.mp hold
    have hlookup := (Table.mem_select.mp ((List.mem_insertionSort _).mp (List.mem_of_mem_take hrow))).1
    refine ⟨hrecent,rfl,rfl,rfl,?_⟩
    simp only [ReviewRow.item,hlookup,Option.elim_some]
  rcases mem_merged hqueue h with ⟨hold,hunqueued⟩ | ⟨row,hrow,⟨hstate,hpriority,hcreated⟩,hdated⟩
  · obtain ⟨hrecent,hstate,hpriority,hcreated,hupdated⟩ := hreview item hold
    have hlate : item.domain ∉ early n s := by rwa [stagingList_eq hn] at hunqueued
    simp only [ReviewItem.sortKey,cutKey,listedKey,if_pos hrecent,if_neg hlate,hstate,hpriority,
      hcreated,hupdated,Option.elim_none,Option.map_none]
  · rw [stagingList_eq hn] at hrow
    have hearly : item.domain ∈ early n s := List.mem_map_of_mem hrow
    have hlookup := (Table.mem_select.mp ((List.mem_insertionSort _).mp (List.mem_of_mem_take hrow))).1
    have hupdated : (if item.domain ∈ recent n s then s.review.lookup item.domain else none).elim 0
        ReviewRow.updatedAt = item.updatedAt := by
      rcases hdated with ⟨old,hold,hdomain,hupdated⟩ | ⟨habsent,hzero⟩
      · obtain ⟨hrecent,-,-,-,hupdated'⟩ := hreview old hold
        rw [← hdomain,if_pos hrecent,hupdated',hupdated]
      · rw [reviewGet_recent hn] at habsent
        rw [if_neg habsent,hzero]
        rfl
    simp only [ReviewItem.sortKey,cutKey,listedKey,if_pos hearly,hlookup,hupdated,hstate,hpriority,
      hcreated,Option.elim_some,Option.map_some]

omit [CaseTables] in
theorem listedKey_inj {d d' : String} {row row' : Option ReviewRow} {queued queued' : Option StagingRow}
    (h : listedKey d row queued = listedKey d' row' queued') : d = d' := by
  simp only [listedKey,List.cons.injEq] at h
  exact codes_inj h.2.2.2

omit [CaseTables] in
theorem pairwise_lt_of_sorted {key : String → List ℤ} {l : List String} (hnodup : l.Nodup)
    (hinj : ∀ a b, key a = key b → a = b) (h : l.Pairwise fun a b => key a ≤ key b) :
    l.Pairwise fun a b => key a < key b :=
  (h.and hnodup).imp fun hab => lt_of_le_of_ne hab.1 fun heq => hab.2 (hinj _ _ heq)

/-- The domains of the cut merge, sorted. -/
def leftSorted (n : ℕ) (s : Store) : List String :=
  ((combinedRows n s).insertionSort fun a b => a.sortKey ≤ b.sortKey).map ReviewItem.domain

omit [CaseTables] in
theorem leftSorted_perm (hn : 1 ≤ n) : (leftSorted n s).Perm (left n s) :=
  ((List.perm_insertionSort _ _).map _).trans (combinedRows_perm hn)

omit [CaseTables] in
theorem leftSorted_pairwise (hn : 1 ≤ n) :
    (leftSorted n s).Pairwise fun a b => cutKey n s a < cutKey n s b := by
  refine pairwise_lt_of_sorted ((leftSorted_perm hn).nodup_iff.mpr (List.nodup_dedup _))
    (fun a b hab => listedKey_inj hab) ?_
  rw [leftSorted,List.pairwise_map]
  refine (List.pairwise_insertionSort _ _).imp_of_mem fun ha hb hab => ?_
  rw [List.mem_insertionSort] at ha hb
  rwa [← combinedRows_sortKey hn ha,← combinedRows_sortKey hn hb]

theorem reviewQueueGet_domains (hn : 1 ≤ n) :
    (reviewQueueGet now n s).map ReviewItem.domain =
      ((leftSorted n s).take n).filter fun d => !preferenceBlocksReview now d s := by
  have hshort : ((reviewQueueRows n s).filter fun item =>
      !preferenceBlocksReview now item.domain s).length ≤ n := by
    refine (List.length_filter_le _ _).trans ?_
    rw [reviewQueueRows,toNat_limit hn]
    exact List.length_take_le _ _
  rw [reviewQueueGet,toNat_limit hn,List.take_of_length_le hshort,reviewQueueRows,toNat_limit hn,
    leftSorted,← List.map_take,List.filter_map]
  rfl

theorem wanted_pairwise : (wanted now n s).Pairwise fun a b => fullKey s a < fullKey s b := by
  have hnodup : ((unsilenced now s (involved s)).insertionSort fun a b =>
      fullKey s a ≤ fullKey s b).Nodup :=
    (List.perm_insertionSort _ _).nodup_iff.mpr ((List.nodup_dedup _).filter _)
  exact (pairwise_lt_of_sorted hnodup (fun a b hab => listedKey_inj hab)
    (List.pairwise_insertionSort _ _)).sublist (List.take_sublist _ _)

theorem wanted_unsilenced {d : String} (h : d ∈ wanted now n s) :
    preferenceBlocksReview now d s = false := by
  have hmem := (List.mem_insertionSort _).mp (List.mem_of_mem_take h)
  simpa using (List.mem_filter.mp hmem).2

theorem length_wanted : (wanted now n s).length = min n (unsilenced now s (involved s)).length := by
  rw [wanted,List.length_take,List.length_insertionSort]

omit [CaseTables] in
theorem left_subset {d : String} (h : d ∈ left n s) : d ∈ involved s := by
  rw [left,List.mem_dedup,List.mem_append,recent,early,List.map_take,List.map_take] at h
  rw [involved,List.mem_dedup,List.mem_append]
  exact h.imp (fun h => byUpdate_perm.mem_iff.mp (List.mem_of_mem_take h))
    fun h => byClaim_perm.mem_iff.mp (List.mem_of_mem_take h)

/-- The queue listing never shows more than is wanted. -/
theorem length_shown (hn : 1 ≤ n) : (((leftSorted n s).take n).filter fun d =>
    !preferenceBlocksReview now d s).length ≤ (wanted now n s).length := by
  rw [length_wanted,le_min_iff]
  refine ⟨(List.length_filter_le _ _).trans (List.length_take_le _ _),?_⟩
  refine (List.subperm_of_subset ?_ fun d hd => ?_).length_le
  · have hnodup : (leftSorted n s).Nodup := (leftSorted_perm hn).nodup_iff.mpr (List.nodup_dedup _)
    exact (hnodup.sublist (List.take_sublist _ _)).filter _
  · obtain ⟨hmem,hfree⟩ := List.mem_filter.mp hd
    exact List.mem_filter.mpr
      ⟨left_subset ((leftSorted_perm hn).mem_iff.mp (List.mem_of_mem_take hmem)),hfree⟩

theorem queueFirst_iff (hn : 1 ≤ n) :
    (reviewQueueGet now n s).map ReviewItem.domain = wanted now n s ↔
      (∀ d ∈ wanted now n s, d ∈ left n s ∧
        ((left n s).filter fun d' => cutKey n s d' < cutKey n s d).length < n) ∧
      ∀ d ∈ wanted now n s, ∀ d' ∈ wanted now n s,
        fullKey s d < fullKey s d' → cutKey n s d < cutKey n s d' := by
  rw [reviewQueueGet_domains hn,Pages.filter_take_eq_sorted_iff (leftSorted_pairwise hn) wanted_pairwise
    (fun d hd => by simp [wanted_unsilenced hd]) (length_shown hn)]
  simp only [(leftSorted_perm hn).mem_iff,((leftSorted_perm hn).filter _).length_eq]
  congr!

theorem reviewFirst_iff (hn : 1 ≤ n) :
    (databaseReviewGet now n s).map ReviewItem.domain =
        (unsilenced now s ((byUpdate s).map Prod.fst)).take n ↔
      (∀ d ∈ ((byUpdate s).map Prod.fst).take n, preferenceBlocksReview now d s = false) ∨
        ∀ d ∈ ((byUpdate s).map Prod.fst).drop n, preferenceBlocksReview now d s = true := by
  rw [databaseReviewGet_domains hn,unsilenced,Pages.filter_take_eq_iff]
  simp only [Bool.not_eq_true',Bool.not_eq_false']

end Proofs

end Listings

def flaggedRow (updatedAt : ℤ) : ReviewRow := ⟨"","","classified",true,"unsure","","none",updatedAt⟩

/-- Two flagged rows; the one that changed last is silenced. -/
def quietStore : Store :=
  { Store.empty with
    review := (AList.insert "loud.example" (flaggedRow 10) ∅).insert "quiet.example" (flaggedRow 20)
    preferences := AList.insert "quiet.example" ⟨true,none,"never_ask",20⟩ ∅ }

end Review
end WormholeObservatory
