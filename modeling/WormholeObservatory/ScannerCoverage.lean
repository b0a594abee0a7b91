import WormholeObservatory.ScannerCounts

/-! Which rows of the log a scanner gets to see. A page holds the newest rows there are, and
the cursor moves past all of them, so a row that is left out of a page, or that appears behind
the cursor, is never recorded. -/
namespace WormholeObservatory
namespace Observations

open Transition (Run)

/-- The row at a position of the log. -/
def rowAt (log : List QueryRow) (i : ℕ) : QueryRow := log.getD i ⟨"","","","",0⟩

/-- The newest `length` rows with a time of at least `fromTs`, newest first. -/
def newest (log : List QueryRow) (length : ℤ) (fromTs : ℚ) : List ℕ :=
  ((List.range log.length).reverse.filter fun i => decide (fromTs ≤ (rowAt log i).time)).take
    length.toNat

theorem newest_nodup (log : List QueryRow) (length : ℤ) (fromTs : ℚ) :
    (newest log length fromTs).Nodup :=
  ((List.nodup_reverse.mpr List.nodup_range).filter _).sublist (List.take_sublist _ _)

/-- What a turn finds besides the log. -/
structure Reading where
  context : Queue.Context
  batchSize : ℤ
  history : Option (List QueryRow)

def Reading.turn (reading : Reading) (log : List QueryRow) : ScanCycle where
  context := reading.context
  batchSize := reading.batchSize
  fetch := newest log
  once := newest_nodup log
  history := reading.history

/-- The log and its scanner. -/
structure Feed where
  log : List QueryRow
  scanner : Scanner

inductive FeedOp
  | append (row : QueryRow)
  | scan (reading : Reading)

/-- Rows come in the order of their times. -/
def InOrder (log : List QueryRow) : Prop := log.Pairwise fun row row' => row.time ≤ row'.time

/-- The positions a turn should record. -/
def Feed.late (feed : Feed) : List ℕ :=
  (List.range feed.log.length).filter fun i => decide (feed.scanner.cursor < (rowAt feed.log i).time)

section Coverage

variable [CaseTables]

/-- A row appears, no earlier than the others, or a turn gets to its end. -/
inductive Feed.Step : Feed → FeedOp → Feed → Prop
  | append {feed : Feed} {row : QueryRow} (hrow : ∀ old ∈ feed.log, old.time ≤ row.time) :
    Feed.Step feed (.append row) { feed with log := feed.log++[row] }
  | scan {feed : Feed} {reading : Reading}
    (hok : (feed.scanner.cycle (rowAt feed.log) (reading.turn feed.log)).1 = none) :
    Feed.Step feed (.scan reading) { feed with
      scanner := (feed.scanner.cycle (rowAt feed.log) (reading.turn feed.log)).2 }

/-- A row that appears is later than the cursor, unless it is not after the starting cursor; a
turn has no more rows to record than fit in its page. -/
def FeedOp.Heeds (start : ℚ) (feed : Feed) : FeedOp → Prop
  | .append row => row.time ≤ start ∨ feed.scanner.cursor < row.time
  | .scan reading => (feed.late.length : ℤ) ≤ reading.batchSize

def HeedfulFeed (start : ℚ) (feed : Feed) (op : FeedOp) (feed' : Feed) : Prop :=
  op.Heeds start feed ∧ Feed.Step feed op feed'

/-! What a turn that gets to its end has done. -/

theorem finish_done (s : Scanner) (cycle : ScanCycle) (rows : List QueryRow) :
    (s.finish cycle rows).2.cursor = (s.advance rows).cursor ∧
      (s.finish cycle rows).2.counted = s.counted := by
  have hcounted : (s.advance rows).counted = s.counted := by cases rows <;> rfl
  simp only [Scanner.finish]
  generalize (if rows = [] then runHistoryBackfill cycle.context (cycle.history.getD [])
    (s.advance rows).db.queue else (none,(s.advance rows).db.queue)) = result
  obtain ⟨failure,queue⟩ := result
  cases failure with
  | some e => exact ⟨rfl,hcounted⟩
  | none =>
    cases Queue.queueDueRechecks cycle.context cycle.batchSize queue with
    | error e => exact ⟨rfl,hcounted⟩
    | ok pair => exact ⟨rfl,hcounted⟩

theorem cycle_done {s : Scanner} {log : ℕ → QueryRow} {cycle : ScanCycle}
    (h : (s.cycle log cycle).1 = none) :
    (s.cycle log cycle).2.cursor = (s.advance ((s.page log cycle).map log)).cursor ∧
      (s.cycle log cycle).2.counted = s.counted++recordedAt log (s.page log cycle) := by
  simp only [Scanner.cycle] at h ⊢
  generalize s.page log cycle = page at h ⊢
  cases hrecord : recordQueryObservations cycle.context.now (page.map log) s.db with
  | error e =>
    rw [hrecord] at h
    cases h
  | ok pair =>
    obtain ⟨n,db⟩ := pair
    simp only [hrecord] at h ⊢
    generalize needingAnalysis cycle.context (scannedDomains (page.map log)) db.queue = result at h ⊢
    obtain ⟨failure,queue⟩ := result
    cases failure with
    | some e => cases h
    | none =>
      obtain ⟨hcursor,hcounted⟩ := finish_done (Scanner.setQueue
        { s with db := db, counted := s.counted++recordedAt log page } queue) cycle (page.map log)
      refine ⟨hcursor.trans ?_,hcounted⟩
      cases page <;> rfl

/-! What a page holds. -/

omit [CaseTables] in
/-- If what satisfies `p` comes first, the first `n` entries hold all of it as soon as it fits. -/
theorem mem_take_of_first {α : Type*} {p : α → Bool} {l : List α} {n : ℕ}
    (hfirst : l.Pairwise fun a b => p b = true → p a = true) (hn : (l.filter p).length ≤ n) :
    ∀ x ∈ l, p x = true → x ∈ l.take n := by
  induction l generalizing n with
  | nil =>
    intro x hx
    cases hx
  | cons a l ih =>
    obtain ⟨hhead,htail⟩ := List.pairwise_cons.mp hfirst
    intro x hx hpx
    have hpa : p a = true := by
      rcases List.mem_cons.mp hx with rfl | hx
      · exact hpx
      · exact hhead x hx hpx
    rw [List.filter_cons_of_pos hpa,List.length_cons] at hn
    obtain ⟨m,rfl⟩ : ∃ m, n = m+1 := ⟨n-1,by omega⟩
    rcases List.mem_cons.mp hx with rfl | hx
    · simp
    · exact List.mem_cons_of_mem _ (ih htail (by omega) x hx hpx)

omit [CaseTables] in
theorem rowAt_le {log : List QueryRow} (h : InOrder log) {i j : ℕ} (hij : i < j)
    (hj : j < log.length) : (rowAt log i).time ≤ (rowAt log j).time := by
  have hi : i < log.length := hij.trans hj
  simp only [rowAt,List.getD_eq_getElem?_getD,List.getElem?_eq_getElem hi,
    List.getElem?_eq_getElem hj,Option.getD_some]
  exact List.pairwise_iff_getElem.mp h i j hi hj hij

omit [CaseTables] in
theorem requestFrom_le {s : Scanner} (h : 0 ≤ s.cursor) : s.requestFrom ≤ s.cursor := by
  simp only [Scanner.requestFrom,Queue.truncate,if_pos h]
  exact max_le h (Int.floor_le _)

omit [CaseTables] in
/-- All rows that are later than the cursor are on the page, if they fit. -/
theorem late_mem_page {feed : Feed} {reading : Reading} (horder : InOrder feed.log)
    (hcursor : 0 ≤ feed.scanner.cursor) (hfits : (feed.late.length : ℤ) ≤ reading.batchSize) {i : ℕ}
    (hi : i < feed.log.length) (hlate : feed.scanner.cursor < (rowAt feed.log i).time) :
    i ∈ feed.scanner.page (rowAt feed.log) (reading.turn feed.log) := by
  have hfrom := requestFrom_le hcursor
  let p : ℕ → Bool := fun i => decide (feed.scanner.cursor < (rowAt feed.log i).time)
  refine List.mem_filter.mpr ⟨?_,decide_eq_true hlate⟩
  refine mem_take_of_first (p := p) ?_ ?_ i ?_ (decide_eq_true hlate)
  · refine List.Pairwise.filter _ (List.pairwise_reverse.mpr ?_)
    refine List.pairwise_lt_range.imp_of_mem fun {a b} _ hb hab ha => ?_
    have hle := rowAt_le horder hab (List.mem_range.mp hb)
    exact decide_eq_true ((of_decide_eq_true ha).trans_le hle)
  · have hsub := (List.filter_sublist (p := fun i => decide (feed.scanner.requestFrom ≤
      (rowAt feed.log i).time)) (l := (List.range feed.log.length).reverse)).filter p
    have hlength : ((List.range feed.log.length).reverse.filter p).length = feed.late.length := by
      rw [List.filter_reverse,List.length_reverse]
      rfl
    have hle := hsub.length_le
    rw [hlength] at hle
    refine hle.trans ?_
    change feed.late.length ≤ reading.batchSize.toNat
    omega
  · refine List.mem_filter.mpr ⟨?_,decide_eq_true (hfrom.trans hlate.le)⟩
    simpa using hi

/-! Every run. -/

omit [CaseTables] in
theorem rowAt_append {log : List QueryRow} {row : QueryRow} {i : ℕ} (hi : i < log.length) :
    rowAt (log++[row]) i = rowAt log i := by
  simp only [rowAt,List.getD_eq_getElem?_getD,List.getElem?_append_left hi]

omit [CaseTables] in
theorem rowAt_length (log : List QueryRow) (row : QueryRow) :
    rowAt (log++[row]) log.length = row := by
  simp [rowAt,List.getD_eq_getElem?_getD]

omit [CaseTables] in
theorem InOrder.append {log : List QueryRow} {row : QueryRow} (h : InOrder log)
    (hrow : ∀ old ∈ log, old.time ≤ row.time) : InOrder (log++[row]) := by
  refine List.pairwise_append.mpr ⟨h,List.pairwise_singleton _ _,fun old hold new hnew => ?_⟩
  obtain rfl := List.mem_singleton.mp hnew
  exact hrow old hold

theorem cursor_le_cycle {s : Scanner} {log : ℕ → QueryRow} {cycle : ScanCycle}
    (h : (s.cycle log cycle).1 = none) : s.cursor ≤ (s.cycle log cycle).2.cursor := by
  rw [(cycle_done h).1]
  cases (s.page log cycle).map log with
  | nil => exact le_refl _
  | cons row rows => exact le_max_left _ _

/-- Every row after the starting cursor has been recorded, or is still ahead of the cursor. -/
structure Covered (start : ℚ) (feed : Feed) : Prop where
  order : InOrder feed.log
  cursor : 0 ≤ feed.scanner.cursor
  rows : ∀ i < feed.log.length, start < (rowAt feed.log i).time →
    (rowAt feed.log i).named = true →
    i ∈ feed.scanner.counted ∨ feed.scanner.cursor < (rowAt feed.log i).time

/-- After a turn that has room for all of them, all rows are recorded. -/
theorem Covered.scan {start : ℚ} {feed : Feed} (h : Covered start feed) {reading : Reading}
    (hfits : (feed.late.length : ℤ) ≤ reading.batchSize)
    (hok : (feed.scanner.cycle (rowAt feed.log) (reading.turn feed.log)).1 = none) {i : ℕ}
    (hi : i < feed.log.length) (hstart : start < (rowAt feed.log i).time)
    (hnamed : (rowAt feed.log i).named = true) :
    i ∈ (feed.scanner.cycle (rowAt feed.log) (reading.turn feed.log)).2.counted := by
  rw [(cycle_done hok).2]
  rcases h.rows i hi hstart hnamed with hcounted | hlate
  · exact List.mem_append_left _ hcounted
  · have hpage := late_mem_page h.order h.cursor hfits hi hlate
    exact List.mem_append_right _ (List.mem_filter.mpr ⟨hpage,hnamed⟩)

theorem Covered.step {start : ℚ} {feed feed' : Feed} {op : FeedOp} (h : Covered start feed)
    (hstep : HeedfulFeed start feed op feed') : Covered start feed' := by
  obtain ⟨hheeds,hstep⟩ := hstep
  cases hstep with
  | @append row hrow =>
    refine ⟨h.order.append hrow,h.cursor,fun i hi hstart hnamed => ?_⟩
    change i < (feed.log++[row]).length at hi
    change start < (rowAt (feed.log++[row]) i).time at hstart
    change (rowAt (feed.log++[row]) i).named = true at hnamed
    change i ∈ feed.scanner.counted ∨ feed.scanner.cursor < (rowAt (feed.log++[row]) i).time
    rw [List.length_append,List.length_singleton] at hi
    rcases Nat.lt_succ_iff_lt_or_eq.mp hi with hi | rfl
    · rw [rowAt_append hi] at hstart hnamed ⊢
      exact h.rows i hi hstart hnamed
    · rw [rowAt_length] at hstart ⊢
      exact .inr (hheeds.resolve_left hstart.not_ge)
  | scan hok =>
    exact ⟨h.order,h.cursor.trans (cursor_le_cycle hok),fun i hi hstart hnamed =>
      .inl (h.scan hheeds hok hi hstart hnamed)⟩

/-- In every run in which no row appears behind the cursor and every turn has room for the rows
ahead of it, a turn leaves no row after the starting cursor unrecorded. -/
theorem scanner_loses_none {feed₀ feed feed' : Feed} {ops : List FeedOp} {reading : Reading}
    (horder : InOrder feed₀.log) (hcursor : 0 ≤ feed₀.scanner.cursor)
    (hrun : Run (HeedfulFeed feed₀.scanner.cursor) feed₀ ops feed)
    (hscan : HeedfulFeed feed₀.scanner.cursor feed (.scan reading) feed') :
    ∀ i < feed.log.length, feed₀.scanner.cursor < (rowAt feed.log i).time →
      (rowAt feed.log i).named = true → i ∈ feed'.scanner.counted := by
  have hcovered : Covered feed₀.scanner.cursor feed := by
    refine hrun.invariant (Covered feed₀.scanner.cursor) (fun a op b ha hb => ha.step hb) ?_
    exact ⟨horder,hcursor,fun i _ hstart _ => .inr hstart⟩
  obtain ⟨hheeds,hstep⟩ := hscan
  cases hstep with
  | scan hok => exact fun i hi hstart hnamed => hcovered.scan hheeds hok hi hstart hnamed

/-- A row that is behind the cursor and was not recorded never is. -/
theorem missed_forever {feed feed' : Feed} {ops : List FeedOp} (hrun : Run Feed.Step feed ops feed')
    {i : ℕ} (hi : i < feed.log.length) (hbehind : (rowAt feed.log i).time ≤ feed.scanner.cursor)
    (hmissed : i ∉ feed.scanner.counted) : i ∉ feed'.scanner.counted := by
  have hinvariant := hrun.invariant (fun feed => i < feed.log.length ∧
    (rowAt feed.log i).time ≤ feed.scanner.cursor ∧ i ∉ feed.scanner.counted)
    (fun a op b ha hb => ?_) ⟨hi,hbehind,hmissed⟩
  · exact hinvariant.2.2
  · obtain ⟨hi,hbehind,hmissed⟩ := ha
    cases hb with
    | @append row hrow =>
      refine ⟨?_,?_,hmissed⟩
      · change i < (a.log++[row]).length
        rw [List.length_append]
        omega
      · change (rowAt (a.log++[row]) i).time ≤ a.scanner.cursor
        rw [rowAt_append hi]
        exact hbehind
    | scan hok =>
      refine ⟨hi,hbehind.trans (cursor_le_cycle hok),fun hmem => ?_⟩
      change i ∈ (a.scanner.cycle _ _).2.counted at hmem
      rw [(cycle_done hok).2] at hmem
      rcases List.mem_append.mp hmem with hmem | hmem
      · exact hmissed hmem
      · have hlate := page_late _ _ _ i (List.mem_of_mem_filter hmem)
        exact absurd hbehind hlate.not_ge

end Coverage

/-! Two rows between two turns. -/

def twoRows : Feed := ⟨[query 101,query 102],freshScanner⟩

def readUpTo (batchSize : ℤ) : Reading := ⟨⟨1000,[]⟩,batchSize,none⟩

def afterScan (batchSize : ℤ) : Feed :=
  { twoRows with
    scanner := (freshScanner.cycle (rowAt twoRows.log) ((readUpTo batchSize).turn twoRows.log)).2 }

theorem twoRows_scan (batchSize : ℤ)
    (hok : (freshScanner.cycle (rowAt twoRows.log) ((readUpTo batchSize).turn twoRows.log)).1 = none) :
    Feed.Step twoRows (.scan (readUpTo batchSize)) (afterScan batchSize) :=
  .scan hok

/-- With room for one row, the older one is never recorded. -/
theorem second_row_lost :
    Feed.Step twoRows (.scan (readUpTo 1)) (afterScan 1) ∧
      freshScanner.cursor < (rowAt twoRows.log 0).time ∧ (rowAt twoRows.log 0).named = true ∧
      ¬∃ ops feed, Run Feed.Step (afterScan 1) ops feed ∧ 0 ∈ feed.scanner.counted := by
  refine ⟨twoRows_scan 1 (by decide),by decide,by decide,?_⟩
  rintro ⟨ops,feed,hrun,hmem⟩
  exact missed_forever hrun (by decide) (by decide +kernel) (by decide +kernel) hmem

theorem loses_none_with_room : (0 : ℕ) ∈ (afterScan 200).scanner.counted ∧
    1 ∈ (afterScan 200).scanner.counted := by
  have hfits : (twoRows.late.length : ℤ) ≤ 200 := by decide
  have hstep : HeedfulFeed twoRows.scanner.cursor twoRows (.scan (readUpTo 200)) (afterScan 200) :=
    ⟨hfits,twoRows_scan 200 (by decide)⟩
  have horder : InOrder twoRows.log := by
    refine List.pairwise_pair.mpr ?_
    decide
  have hall := scanner_loses_none horder (by decide) (.nil twoRows) hstep
  exact ⟨hall 0 (by decide) (by decide) (by decide),
    hall 1 (by decide) (by decide) (by decide)⟩

end Observations
end WormholeObservatory
