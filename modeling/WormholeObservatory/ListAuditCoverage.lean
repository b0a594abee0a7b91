import WormholeObservatory.ListAuditRecord

/-! A cycle meets every name of every list it reads. If the names have the form in which the queue
stores them, no batch is refused, and at the end each of them had been classified when its list was
read, or it was handed to the queue, which excluded it, found it locked, or has it waiting. -/
namespace WormholeObservatory
namespace ListAudit

open WormholeObservatory.Lists (IdnaCodec Line ListFetchResult extractDomainsFromLines)
open WormholeObservatory.Lists.RuleParser (domainFromListRule)
open Queue (Context QueueError)
open Urls (NetlocTables)

section Settled

variable [CaseTables] [IdnaCodec] [NetlocTables] {w : Surroundings} {audit : ListAuditOptions}
  {decode : List UInt8 → String} {c : Cycle}

/-- A name in the form the queue stores. -/
def Settled (d : String) : Prop := d ≠ "" ∧ normalizeDomain d = d

/-- The names of what the servers answer are in that form. -/
def SettledLists (w : Surroundings) (decode : List UInt8 → String) : Prop :=
  ∀ n lines, w.lines n = some lines → ∀ line ∈ lines,
    domainFromListRule (line.read decode) = "" ∨ Settled (domainFromListRule (line.read decode))

omit [NetlocTables] in
/-- So they are if the lists are written in ASCII. -/
theorem settledLists_of_ascii (h : ∀ n lines, w.lines n = some lines → ∀ line ∈ lines,
    Lists.Ascii (line.read decode)) : SettledLists w decode := by
  intro n lines hlines line hline
  refine (Lists.rule_sound (h n lines hlines line hline)).imp_right fun hname => ?_
  exact ⟨hname.ne_empty,hname.normalized⟩

omit [NetlocTables] in
theorem mem_extracted {lines : List Line} {maxDomains maxBytes : ℤ} {d : String}
    (hd : d ∈ (extractDomainsFromLines decode lines maxDomains maxBytes).domains) :
    d ≠ "" ∧ ∃ line ∈ lines, domainFromListRule (line.read decode) = d := by
  have hroom : (Lists.domainsOf decode []).length < (max 1 maxDomains).toNat := by
    simp only [Lists.domainsOf,List.map_nil,List.filter_nil,List.eraseDups_nil,List.length_nil]
    omega
  have hended : Lists.Ended decode (max 1 maxDomains).toNat (max 1 maxBytes).toNat lines _ :=
    Lists.extractLoop_ended decode [] lines (Nat.zero_le _) hroom
  rw [extractDomainsFromLines] at hd
  have hfront : ∃ front, front <+: lines ∧ d ∈ Lists.domainsOf decode front := by
    cases hrun : Lists.extractLoop decode (max 1 maxDomains).toNat (max 1 maxBytes).toNat 0 [] lines with
    | mk domains truncated =>
      have hzero : Lists.extractLoop decode (max 1 maxDomains).toNat (max 1 maxBytes).toNat
          (Lists.bytesOf []) (Lists.domainsOf decode []) lines = ⟨domains,truncated⟩ := hrun
      rw [hrun] at hd
      rw [hzero] at hended
      cases hended with
      | exhausted => exact ⟨lines,List.prefix_rfl,hd⟩
      | tooLong front line rest hlines => exact ⟨front,⟨line::rest,hlines.symm⟩,hd⟩
      | full front rest hlines => exact ⟨front,⟨rest,hlines.symm⟩,hd⟩
  obtain ⟨front,hfront,hmem⟩ := hfront
  obtain ⟨⟨line,hline,heq⟩,hne⟩ := (Lists.mem_domainsOf decode).mp hmem
  exact ⟨hne,line,hfront.subset hline,heq⟩

/-- The names of a list that is read. -/
theorem fetched_settled (hlists : SettledLists w decode) {address : String} {n : ℕ} {maxDomains : ℤ}
    {fetched : ListFetchResult}
    (h : fetchDomainsFromList decode address (w.lines n) maxDomains = some fetched) :
    ∀ d ∈ fetched.domains, Settled d := by
  intro d hd
  rw [fetchDomainsFromList] at h
  cases hparts : Urls.urlsplit (strip address).toList with
  | none => simp [hparts] at h
  | some parts =>
    simp only [hparts] at h
    split at h
    · cases hlines : w.lines n with
      | none => simp [hlines] at h
      | some lines =>
        simp only [hlines,Option.map_some,Option.some.injEq] at h
        subst h
        obtain ⟨hne,line,hline,rfl⟩ := mem_extracted hd
        exact (hlists n lines hlines line hline).resolve_left hne
    · cases h

omit [IdnaCodec] [NetlocTables] in
/-- What is eligible among names in that form. -/
theorem mem_eligible {names : List String} (hnames : ∀ d ∈ names, Settled d) {store : Store}
    {d : String} : d ∈ filterUnclassifiedDomains names store ↔
      d ∈ names ∧ store.classified d = false := by
  simp only [filterUnclassifiedDomains,Queue.uniqueDomains,List.mem_filter,List.mem_eraseDups,
    List.mem_map,decide_eq_true_eq,Bool.not_eq_true']
  refine and_congr_left fun _ => ⟨?_,fun hd => ?_⟩
  · rintro ⟨⟨x,hx,rfl⟩,-⟩
    rw [(hnames x hx).2]
    exact hx
  · exact ⟨⟨d,hd,(hnames d hd).2⟩,(hnames d hd).1⟩

omit [CaseTables] [IdnaCodec] [NetlocTables] in
theorem stage_live (r : Queue.Request) (row : Option Queue.StagingRow) :
    (r.stage row).2.state ≠ .failed := by
  cases row with
  | none => exact Queue.RowState.noConfusion
  | some row =>
    cases hstate : row.state <;> simp [Queue.Request.stage,hstate]

/-- What the queue makes of a name it is given. -/
def Met (context : Context) (before after : Queue.Database) (d : String) : Prop :=
  domainMatchesSuffix d context.excludedSuffixes = true ∨ (before.locks.lookup d).isSome = true ∨
    ∃ row, after.staging.lookup d = some row ∧ row.state ≠ .failed

omit [IdnaCodec] [NetlocTables] in
/-- A batch of such names is never refused. -/
theorem enqueue_met {batch : List String} (hbatch : ∀ d ∈ batch, Settled d) (context : Context)
    (db : Queue.Database) :
    ∃ n after, Queue.stagingEnqueue context batch 0 "list_audit" "background" db = .ok (n,after) ∧
      ∀ d ∈ batch, Met context db after d := by
  have hunique : ∀ d, d ∈ Queue.uniqueDomains batch ↔ d ∈ batch := by
    intro d
    have h : d ∈ filterUnclassifiedDomains batch ⟨.empty,∅⟩ ↔ _ := mem_eligible hbatch
    simpa [filterUnclassifiedDomains,Store.classified,Queue.Database.empty] using h
  have hadmitted : ∀ d ∈ context.admitted batch, Settled d := fun d hd =>
    hbatch d ((hunique d).mp (List.mem_filter.mp hd).1)
  obtain ⟨result,after,hrun,-,-,hrows⟩ := @Queue.stagingEnqueueDetailed_runs _ context batch
    0 "list_audit" "background" false db fun d hd => by
      rw [(hadmitted d hd).2]
      exact (hadmitted d hd).1
  refine ⟨result.queued+result.requeued,after,by rw [Queue.stagingEnqueue,hrun],fun d hd => ?_⟩
  by_cases hexcluded : domainMatchesSuffix d context.excludedSuffixes = true
  · exact .inl hexcluded
  cases hlock : db.locks.lookup d with
  | some lock => exact .inr (.inl (by rw [hlock]; rfl))
  | none =>
    have hpasses : d ∈ context.admitted batch :=
      List.mem_filter.mpr ⟨(hunique d).mpr hd,by simpa using hexcluded⟩
    have hstores : Queue.Stores db (context.admitted batch) d :=
      ⟨List.mem_map.mpr ⟨d,hpasses,(hadmitted d hpasses).2⟩,hlock⟩
    have hrow := hrows d
    rw [if_pos hstores] at hrow
    exact .inr (.inr ⟨_,hrow,stage_live _ _⟩)

/-! No exception. -/

omit [IdnaCodec] [NetlocTables] in
theorem batch_unraised {piece : List String} (hpiece : ∀ d ∈ piece, Settled d) (c : Cycle) :
    Loops.Ends (c.batch w audit piece) (fun _ => True) fun e => e.raised = none := by
  rw [Cycle.batch]
  split
  · rfl
  cases { c with moves := c.moves+1 }.hold w audit with
  | mk cut c' =>
    cases cut with
    | true => exact rfl
    | false =>
      obtain ⟨n,after,hrun,-⟩ := enqueue_met hpiece (w.context c'.moves)
        (w.meanwhile c'.moves c'.store).queue
      simp only [Cycle.enqueue,hrun]
      exact trivial

theorem row_unraised (hlists : SettledLists w decode) (c : Cycle) (row : SubscribedList) :
    Loops.Ends (c.row w audit decode row) (fun _ => True) fun e => e.raised = none := by
  rw [Cycle.row]
  split
  · rfl
  by_cases haddress : strip row.address = ""
  · simp only [if_pos haddress]
    exact trivial
  simp only [if_neg haddress]
  cases hfetched : fetchDomainsFromList decode (strip row.address) (w.lines (c.moves+1))
      audit.maxDomainsPerList with
  | none => exact trivial
  | some fetched =>
    have hsettled := fetched_settled hlists hfetched
    have hsize : 0 < (max 1 audit.batchSize).toNat := by omega
    refine Loops.foldlM_ends (I := fun _ _ => True) trivial ?_
    intro front piece rest c' hpieces _
    refine batch_unraised (fun d hd => ?_) c'
    have hmem : d ∈ (front++piece::rest).flatten := by simp [hd]
    rw [← hpieces,Loops.flatten_pieces hsize] at hmem
    exact hsettled d ((mem_eligible hsettled).mp hmem).1

theorem cycle_unraised (hlists : SettledLists w decode) (lists : List SubscribedList) (store : Store) :
    Loops.Ends (runListAuditCycle w audit decode lists store) (fun _ => True)
      fun e => e.raised = none :=
  Loops.foldlM_ends (I := fun _ _ => True) trivial fun _ row _ c _ _ => row_unraised hlists c row

/-! The names of a record. -/

/-- A name that a cycle has met: it was classified when its list was read, or the queue has it. -/
def Event.meets (d : String) : Event → Prop
  | .filtered names store _ => d ∈ names ∧ store.classified d = true
  | .enqueued batch context before after _ => d ∈ batch ∧ Met context before after d
  | _ => False

omit [CaseTables] [IdnaCodec] [NetlocTables] in
theorem mem_names {events : List Event} {names : List String}
    (h : names ∈ events.filterMap Event.names) :
    ∃ store eligible, Event.filtered names store eligible ∈ events := by
  obtain ⟨e,he,hnames⟩ := List.mem_filterMap.mp h
  cases e with
  | filtered names' store eligible =>
    obtain rfl := Option.some.inj hnames
    exact ⟨store,eligible,he⟩
  | _ => cases hnames

omit [CaseTables] [IdnaCodec] [NetlocTables] in
theorem mem_eligibles {events : List Event} {eligible : List String}
    (h : eligible ∈ events.filterMap Event.eligible) :
    ∃ names store, Event.filtered names store eligible ∈ events := by
  obtain ⟨e,he,hnames⟩ := List.mem_filterMap.mp h
  cases e with
  | filtered names store eligible' =>
    obtain rfl := Option.some.inj hnames
    exact ⟨names,store,he⟩
  | _ => cases hnames

omit [CaseTables] [IdnaCodec] [NetlocTables] in
theorem mem_batches {events : List Event} {batch : List String}
    (h : batch ∈ events.filterMap Event.batch) :
    ∃ context before after n, Event.enqueued batch context before after n ∈ events := by
  obtain ⟨e,he,hbatch⟩ := List.mem_filterMap.mp h
  cases e with
  | enqueued batch' context before after n =>
    obtain rfl := Option.some.inj hbatch
    exact ⟨context,before,after,n,he⟩
  | _ => cases hbatch

omit [CaseTables] [IdnaCodec] [NetlocTables] in
theorem mem_addresses {events : List Event} {address : String}
    (h : address ∈ events.filterMap Event.address) :
    ∃ result, Event.fetched address result ∈ events := by
  obtain ⟨e,he,haddress⟩ := List.mem_filterMap.mp h
  cases e with
  | fetched address' result =>
    obtain rfl := Option.some.inj haddress
    exact ⟨result,he⟩
  | _ => cases haddress

/-- The names that are filtered are those of a list. -/
theorem Recorded.filtered_settled (h : Recorded w audit decode c) (hlists : SettledLists w decode)
    {names eligible : List String} {store : Store}
    (he : Event.filtered names store eligible ∈ c.events) : ∀ d ∈ names, Settled d := by
  have hnames : names ∈ c.events.filterMap Event.names :=
    List.mem_filterMap.mpr ⟨_,he,rfl⟩
  rw [h.filtered] at hnames
  obtain ⟨fetched,hfetched,rfl⟩ := List.mem_map.mp hnames
  obtain ⟨e,he,hresult⟩ := List.mem_filterMap.mp hfetched
  cases e with
  | fetched address result =>
    obtain ⟨n,hn⟩ := h.genuine _ he
    have hresult : result = some fetched := hresult
    rw [hresult] at hn
    exact fetched_settled hlists hn.symm
  | _ => cases hresult

/-- Every name of a list that a complete cycle has read is met. -/
theorem Complete.meets {rows : List SubscribedList} (h : Complete w audit decode rows c)
    (hlists : SettledLists w decode) {address : String} {fetched : ListFetchResult}
    (he : Event.fetched address (some fetched) ∈ c.events) :
    ∀ d ∈ fetched.domains, ∃ e ∈ c.events, e.meets d := by
  intro d hd
  have hresult : fetched ∈ c.events.filterMap Event.result := List.mem_filterMap.mpr ⟨_,he,rfl⟩
  have hnames : fetched.domains ∈ c.events.filterMap Event.names := by
    rw [h.filtered]
    exact List.mem_map_of_mem hresult
  obtain ⟨store,eligible,hfiltered⟩ := mem_names hnames
  have hgenuine := h.genuine _ hfiltered
  by_cases hclassified : store.classified d = true
  · exact ⟨_,hfiltered,hd,hclassified⟩
  have hsettled := h.toRecorded.filtered_settled hlists hfiltered
  have heligible : d ∈ eligible := by
    rw [hgenuine]
    exact (mem_eligible hsettled).mpr ⟨hd,by simpa using hclassified⟩
  have hworked : d ∈ (c.events.filterMap Event.eligible).flatten :=
    List.mem_flatten_of_mem (List.mem_filterMap.mpr ⟨_,hfiltered,rfl⟩) heligible
  rw [← h.worked] at hworked
  obtain ⟨batch,hbatch,hmem⟩ := List.mem_flatten.mp hworked
  obtain ⟨context,before,after,n,henqueued⟩ := mem_batches hbatch
  have hinside : ∀ x ∈ batch, Settled x := by
    intro x hx
    have hflat : x ∈ (c.events.filterMap Event.batch).flatten := List.mem_flatten_of_mem hbatch hx
    rw [h.worked] at hflat
    obtain ⟨eligible',heligible',hx⟩ := List.mem_flatten.mp hflat
    obtain ⟨names',store',hfiltered'⟩ := mem_eligibles heligible'
    have hnames' := h.toRecorded.filtered_settled hlists hfiltered'
    rw [h.genuine _ hfiltered'] at hx
    exact hnames' x ((mem_eligible hnames').mp hx).1
  obtain ⟨n',after',hrun,hmet⟩ := enqueue_met hinside context before
  have hrun' : Queue.stagingEnqueue context batch 0 "list_audit" "background" before =
      .ok (n,after) := h.genuine _ henqueued
  rw [hrun] at hrun'
  cases hrun'
  exact ⟨_,henqueued,hmem,hmet d hmem⟩

end Settled

/-! A sample: a list of two names, of which one is excluded, and batches of one name. -/

def auditSample : Surroundings where
  stop _ := false
  pause _ := false
  lines _ := some [.text "0.0.0.0 ads.example",.text "# none",.text "||t.example^"]
  meanwhile _ store := store
  context _ := ⟨100,["t.example"]⟩

end ListAudit
end WormholeObservatory
