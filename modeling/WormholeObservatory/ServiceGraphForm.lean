import WormholeObservatory.ServiceGraph

/-! The form of a service graph. Whatever is offered, the graph is closed and keeps the best offer for
each key; the root keeps its mark unless a row of its own service replaces it. -/
namespace WormholeObservatory
namespace ServiceGraph

open Compatibility (CompatibilityProfile compatibilityMatchForDomain)
open Floats JsonValues
open Responses (Fields)

def offeredNodes (puts : List Put) : List Node := puts.filterMap Put.node?

def offeredEdges (puts : List Put) : List Edge := puts.filterMap Put.edge?

theorem mem_offeredNodes {puts : List Put} {n : Node} : n ∈ offeredNodes puts ↔ Put.node n ∈ puts := by
  rw [offeredNodes,List.mem_filterMap]
  constructor
  · rintro ⟨put,hput,hnode⟩
    cases put with
    | node m => exact Option.some.inj hnode ▸ hput
    | edge e => cases hnode
  · exact fun h => ⟨.node n,h,rfl⟩

theorem mem_offeredEdges {puts : List Put} {e : Edge} : e ∈ offeredEdges puts ↔ Put.edge e ∈ puts := by
  rw [offeredEdges,List.mem_filterMap]
  constructor
  · rintro ⟨put,hput,hedge⟩
    cases put with
    | node n => cases hedge
    | edge f => exact Option.some.inj hedge ▸ hput
  · exact fun h => ⟨.edge e,h,rfl⟩

/-- An edge is offered between the root and nodes that are offered as well. -/
def Linked (rootId : String) (puts : List Put) : Prop := ∀ e, Put.edge e ∈ puts →
  (e.source = rootId ∨ ∃ n, Put.node n ∈ puts ∧ n.nodeId = e.source) ∧
    ∃ n, Put.node n ∈ puts ∧ n.nodeId = e.target

theorem linked_append {rootId : String} {a b : List Put} (ha : Linked rootId a) (hb : Linked rootId b) :
    Linked rootId (a++b) := by
  intro e he
  rcases List.mem_append.mp he with he | he
  · obtain ⟨hsource,n,hn,htarget⟩ := ha e he
    exact ⟨hsource.imp_right fun ⟨m,hm,h⟩ => ⟨m,List.mem_append_left _ hm,h⟩,
      n,List.mem_append_left _ hn,htarget⟩
  · obtain ⟨hsource,n,hn,htarget⟩ := hb e he
    exact ⟨hsource.imp_right fun ⟨m,hm,h⟩ => ⟨m,List.mem_append_right _ hm,h⟩,
      n,List.mem_append_right _ hn,htarget⟩

section Form

variable [LetterTables] [ValueTexts] {reads : Reads} {profiles : List CompatibilityProfile}
  {sourceUrl : String → String} {root : String} {findings : Option (List Finding)} {maxPeerDomains : ℤ}
  {puts : List Put}

/-- The first node is that of the root, the only one, and has its mark. -/
def Marked (root : String) (g : Graph) : Prop := ∃ n rest, g.nodes = n::rest ∧
  n.nodeId = domainNodeId root ∧ (∀ m ∈ rest, m.nodeId ≠ domainNodeId root) ∧
    field n.metadata "root" = .bool true

/-- Of the offers for each key the best one is kept, edges join nodes, and the root comes first with its
mark. -/
structure WellFormed (root : String) (puts : List Put) (g : Graph) : Prop where
  endpoints : ∀ e ∈ g.edges, (∃ n ∈ g.nodes, n.nodeId = e.source) ∧ ∃ n ∈ g.nodes, n.nodeId = e.target
  nodeIds : (g.nodes.map Node.nodeId).Nodup
  edgeKeys : (g.edges.map Edge.key).Nodup
  nodes : ∀ o ∈ offeredNodes puts, ∃ n ∈ g.nodes, n.nodeId = o.nodeId
  edges : ∀ o ∈ offeredEdges puts, ∃ e ∈ g.edges, e.key = o.key
  highest : ∀ e ∈ g.edges, e ∈ offeredEdges puts ∧
    ∀ o ∈ offeredEdges puts, o.key = e.key → o.confidence ≤ e.confidence
  strongest : ∀ n ∈ g.nodes, n ∈ offeredNodes puts ∧
    ∀ o ∈ offeredNodes puts, o.nodeId = n.nodeId → o.rank ≤ n.rank
  root : Marked root g

/-! Confidences. -/

omit [LetterTables] in
theorem confidence_ok_iff {value : Value} :
    (∃ q, confidence value = .ok q) ↔ value.toFloat ≠ .error .overflow := by
  rw [confidence]
  cases value.toFloat with
  | ok x => exact iff_of_true ⟨_,rfl⟩ (by simp)
  | error e =>
    cases e with
    | overflow => exact iff_of_false (fun ⟨q,h⟩ => by cases h) fun h => h rfl
    | type => exact iff_of_true ⟨0,rfl⟩ (by simp)
    | value => exact iff_of_true ⟨0,rfl⟩ (by simp)

omit [LetterTables] in
/-- A confidence out of the database is a float. -/
theorem latestConfidence_ok (db : Database) (domain : String) :
    ∃ q, confidence (latestConfidence db domain) = .ok q := by
  rw [confidence_ok_iff,latestConfidence]
  split
  · simp [Value.toFloat]
  · rw [Value.toFloat,ofInt_small (by decide)]
    simp

/-! What each source puts in. -/

omit [ValueTexts] in
theorem domainNodeId_ne_serviceNodeId (domain service : String) :
    serviceNodeId service ≠ domainNodeId domain := by
  intro h
  have hchars := congrArg (fun s => s.toList.head?) h
  simp only [serviceNodeId,domainNodeId,String.toList_append] at hchars
  have hletters : some 's' = some 'd' := hchars
  exact absurd hletters (by decide)

omit [LetterTables] [ValueTexts] in
/-- The peers are rows of the table the query finds. -/
theorem peer_of_servicePeers {db : Option Database} {service : String} {peer : ServiceRecord}
    (h : peer ∈ (servicePeers db service maxPeerDomains).1) :
    ∃ db domain row, peer = serviceRecord db domain row := by
  simp only [servicePeers] at h
  split at h
  · exact absurd h List.not_mem_nil
  · split at h
    · exact absurd h List.not_mem_nil
    · obtain ⟨e,-,rfl⟩ := List.mem_map.mp (List.take_subset _ _ (List.take_subset _ _ h))
      exact ⟨_,e.1,e.2,rfl⟩

theorem peerPuts_of_ok {serviceId : String} {peer : ServiceRecord} {q : ℚ}
    (hq : confidence peer.confidence = .ok q) : peerPuts serviceId peer =
      .ok [.node (peerNode peer),.edge ⟨domainNodeId peer.domain,serviceId,"member_of",q,
        "classification","","",[]⟩] := by
  rw [peerPuts,hq]
  rfl

theorem peerPuts_ok (serviceId : String) {peer : ServiceRecord}
    (h : peer ∈ (currentPeers reads root maxPeerDomains).1) :
    ∃ q, peerPuts serviceId peer = .ok [.node (peerNode peer),.edge ⟨domainNodeId peer.domain,serviceId,
      "member_of",q,"classification","","",[]⟩] := by
  have hrow : ∃ db domain row, peer = serviceRecord db domain row := by
    rw [currentPeers] at h
    split at h
    · split at h
      · exact absurd h List.not_mem_nil
      · exact peer_of_servicePeers h
    · exact absurd h List.not_mem_nil
  obtain ⟨db,domain,row,rfl⟩ := hrow
  obtain ⟨q,hq⟩ := latestConfidence_ok db domain
  exact ⟨q,peerPuts_of_ok hq⟩

/-- What the classification puts in: nothing, or the service with its edge, then the peers. -/
theorem classificationPuts_cases (reads : Reads) (root : String) (maxPeerDomains : ℤ) :
    (classificationPuts reads root maxPeerDomains = .ok [] ∧ (currentPeers reads root maxPeerDomains).1 = []) ∨
      ∃ service role q peers, classificationPuts reads root maxPeerDomains =
          .ok (.node (serviceNode service role)::.edge ⟨domainNodeId root,serviceNodeId service,"member_of",q,
            "classification","","",[]⟩::peers.flatten) ∧
        (currentPeers reads root maxPeerDomains).1.mapM (peerPuts (serviceNodeId service)) = .ok peers := by
  cases hcurrent : currentServiceRecord reads.service root with
  | none => exact .inl ⟨by rw [classificationPuts,hcurrent],by rw [currentPeers,hcurrent]⟩
  | some current =>
    by_cases hservice : current.service = ""
    · left
      rw [classificationPuts,currentPeers,hcurrent]
      simp [hservice]
    · right
      have hpuable : ∀ peer ∈ (currentPeers reads root maxPeerDomains).1, ∃ puts,
          peerPuts (serviceNodeId current.service) peer = .ok puts := by
        intro peer hpeer
        obtain ⟨q,hq⟩ := peerPuts_ok (serviceNodeId current.service) hpeer
        exact ⟨_,hq⟩
      obtain ⟨peers,hpeers⟩ := Traversals.exists_mapM_iff.mpr hpuable
      have hconfidence : ∃ q, confidence current.confidence = .ok q := by
        obtain ⟨db,-,hrow⟩ := Option.bind_eq_some_iff.mp hcurrent
        obtain ⟨row,-,rfl⟩ := Option.map_eq_some_iff.mp hrow
        exact latestConfidence_ok db root
      obtain ⟨q,hq⟩ := hconfidence
      refine ⟨current.service,orElse current.serviceRole "unknown",q,peers,?_,hpeers⟩
      simp only [classificationPuts,hcurrent,if_neg hservice,hq,hpeers]
      rfl

/-- The puts of the peers: a node for each, and its edge to the service. -/
theorem mem_peers {serviceId : String} {peers : List (List Put)}
    (h : (currentPeers reads root maxPeerDomains).1.mapM (peerPuts serviceId) = .ok peers) {put : Put} :
    put ∈ peers.flatten → ∃ peer ∈ (currentPeers reads root maxPeerDomains).1,
      Put.node (peerNode peer) ∈ peers.flatten ∧ (put = .node (peerNode peer) ∨
        ∃ q, put = .edge ⟨domainNodeId peer.domain,serviceId,"member_of",q,"classification","","",[]⟩) := by
  intro hput
  obtain ⟨puts,hputs,hmem⟩ := List.mem_flatten.mp hput
  obtain ⟨peer,hpeer,heq⟩ := Traversals.exists_of_mem_values h hputs
  obtain ⟨q,hq⟩ := peerPuts_ok serviceId hpeer
  rw [hq] at heq
  rw [← Except.ok.inj heq] at hmem hputs
  refine ⟨peer,hpeer,List.mem_flatten.mpr ⟨_,hputs,List.mem_cons_self⟩,?_⟩
  rcases List.mem_pair.mp hmem with rfl | rfl
  · exact .inl rfl
  · exact .inr ⟨q,rfl⟩

/-- The classification links the root and the peers to their service. -/
theorem classificationPuts_linked (h : classificationPuts reads root maxPeerDomains = .ok puts) :
    Linked (domainNodeId root) puts := by
  rcases classificationPuts_cases reads root maxPeerDomains with
    ⟨hnone,-⟩ | ⟨service,role,q,peers,hputs,hpeers⟩
  · rw [hnone] at h
    rw [← Except.ok.inj h]
    exact fun _ he => absurd he List.not_mem_nil
  · rw [hputs] at h
    rw [← Except.ok.inj h]
    intro e he
    rcases List.mem_cons.mp he with he | he
    · cases he
    rcases List.mem_cons.mp he with he | he
    · cases he
      exact ⟨.inl rfl,_,List.mem_cons_self,rfl⟩
    · obtain ⟨peer,-,hnode,he | ⟨q,he⟩⟩ := mem_peers hpeers he
      · cases he
      · cases he
        exact ⟨.inr ⟨_,List.mem_cons_of_mem _ (List.mem_cons_of_mem _ hnode),rfl⟩,_,List.mem_cons_self,rfl⟩

/-- A node of the classification with the key of the root is that of a peer. -/
theorem root_of_classification (h : classificationPuts reads root maxPeerDomains = .ok puts) {n : Node}
    (hn : Put.node n ∈ puts) (hid : n.nodeId = domainNodeId root) :
    ∃ peer ∈ (currentPeers reads root maxPeerDomains).1, n = peerNode peer := by
  rcases classificationPuts_cases reads root maxPeerDomains with
    ⟨hnone,-⟩ | ⟨service,role,q,peers,hputs,hpeers⟩
  · rw [hnone] at h
    rw [← Except.ok.inj h] at hn
    exact absurd hn List.not_mem_nil
  · rw [hputs] at h
    rw [← Except.ok.inj h] at hn
    rcases List.mem_cons.mp hn with hn | hn
    · cases hn
      exact absurd hid (domainNodeId_ne_serviceNodeId root service)
    rcases List.mem_cons.mp hn with hn | hn
    · cases hn
    · obtain ⟨peer,hpeer,-,hn | ⟨q,hn⟩⟩ := mem_peers hpeers hn
      · exact ⟨peer,hpeer,Put.node.inj hn⟩
      · cases hn

/-- Every peer is put in. -/
theorem peer_of_classification (h : classificationPuts reads root maxPeerDomains = .ok puts)
    {peer : ServiceRecord} (hpeer : peer ∈ (currentPeers reads root maxPeerDomains).1) :
    Put.node (peerNode peer) ∈ puts := by
  rcases classificationPuts_cases reads root maxPeerDomains with
    ⟨-,hnone⟩ | ⟨service,role,q,peers,hputs,hpeers⟩
  · rw [hnone] at hpeer
    exact absurd hpeer List.not_mem_nil
  · rw [hputs] at h
    rw [← Except.ok.inj h]
    obtain ⟨q,hq⟩ := peerPuts_ok (serviceNodeId service) hpeer
    have hmem := Traversals.mem_values_of_mem hpeers hpeer hq
    exact List.mem_cons_of_mem _ (List.mem_cons_of_mem _
      (List.mem_flatten.mpr ⟨_,hmem,List.mem_cons_self⟩))

/-! The profiles and the findings. -/

omit [ValueTexts] in
theorem compatibilityPuts_linked : Linked (domainNodeId root) (compatibilityPuts profiles sourceUrl root) := by
  rw [compatibilityPuts]
  split
  · exact fun _ he => absurd he List.not_mem_nil
  · intro e he
    rcases List.mem_pair.mp he with he | he
    · cases he
    · cases he
      exact ⟨.inl rfl,_,List.mem_cons_self,rfl⟩

omit [ValueTexts] in
theorem root_of_compatibility {n : Node} (hn : Put.node n ∈ compatibilityPuts profiles sourceUrl root) :
    n.nodeId ≠ domainNodeId root := by
  rw [compatibilityPuts] at hn
  split at hn
  · exact absurd hn List.not_mem_nil
  · rcases List.mem_pair.mp hn with hn | hn
    · cases hn
      exact domainNodeId_ne_serviceNodeId root _
    · cases hn

variable [AlnumTable]

omit [AlnumTable] in
theorem relationshipPuts_of_ok {finding : Fields} {r : Relationship}
    (h : relationshipPuts root finding r = .ok puts) : puts = [] ∨
      ∃ e : Edge, puts = [.node r.node,.edge e] ∧ e.source = domainNodeId root ∧ e.target = r.node.nodeId := by
  rw [relationshipPuts] at h
  split at h
  · exact .inl (Except.ok.inj h).symm
  · cases hq : confidence (field finding "confidence") with
    | error e => rw [hq] at h; cases h
    | ok q =>
      rw [hq] at h
      exact .inr ⟨_,(Except.ok.inj h).symm,rfl,rfl⟩

/-- What the findings put in: pairs of a node without a role and its edge from the root. -/
theorem mem_evidencePuts {fields : List Fields} (h : evidencePuts root fields = .ok puts) {put : Put}
    (hput : put ∈ puts) : ∃ r : Relationship, Put.node r.node ∈ puts ∧ (put = .node r.node ∨
      ∃ e, put = .edge e ∧ e.source = domainNodeId root ∧ e.target = r.node.nodeId) := by
  rw [evidencePuts] at h
  cases hall : fields.mapM fun finding => (relationshipsFromFinding finding).mapM
      (relationshipPuts root finding) with
  | error e => rw [hall] at h; cases h
  | ok parts =>
    rw [hall] at h
    rw [← Except.ok.inj h] at hput ⊢
    obtain ⟨pair,hpair,hput⟩ := List.mem_flatten.mp hput
    obtain ⟨part,hpart,hmem⟩ := List.mem_flatten.mp hpair
    obtain ⟨finding,-,hfinding⟩ := Traversals.exists_of_mem_values hall hpart
    obtain ⟨r,-,hr⟩ := Traversals.exists_of_mem_values hfinding hmem
    rcases relationshipPuts_of_ok hr with rfl | ⟨e,rfl,hsource,htarget⟩
    · exact absurd hput List.not_mem_nil
    · refine ⟨r,List.mem_flatten.mpr ⟨_,hpair,List.mem_cons_self⟩,?_⟩
      rcases List.mem_pair.mp hput with rfl | rfl
      · exact .inl rfl
      · exact .inr ⟨e,rfl,hsource,htarget⟩

theorem evidencePuts_linked {fields : List Fields} (h : evidencePuts root fields = .ok puts) :
    Linked (domainNodeId root) puts := by
  intro e he
  obtain ⟨r,hnode,he | ⟨e',he,hsource,htarget⟩⟩ := mem_evidencePuts h he
  · cases he
  · cases he
    exact ⟨.inl hsource,_,hnode,htarget.symm⟩

omit [ValueTexts] [AlnumTable] in
theorem relationship_rank (r : Relationship) : r.node.rank = 0 := by
  rw [Relationship.node]
  split <;> rfl

/-- Whether the findings can be read depends on the confidences of those that name something. -/
theorem evidencePuts_ok_iff (root : String) {fields : List Fields} : (∃ puts, evidencePuts root fields = .ok puts) ↔
    ∀ finding ∈ fields, (∃ r ∈ relationshipsFromFinding finding, r.label ≠ "") →
      (field finding "confidence").toFloat ≠ .error .overflow := by
  have hone : ∀ finding (r : Relationship), (∃ puts, relationshipPuts root finding r = .ok puts) ↔
      (r.label ≠ "" → (field finding "confidence").toFloat ≠ .error .overflow) := by
    intro finding r
    rw [relationshipPuts]
    split
    · rename_i hempty
      exact iff_of_true ⟨_,rfl⟩ fun h => absurd hempty h
    · rename_i hlabel
      rw [imp_iff_right hlabel,← confidence_ok_iff]
      cases confidence (field finding "confidence") with
      | error e => exact iff_of_false (fun ⟨_,h⟩ => by cases h) fun ⟨_,h⟩ => by cases h
      | ok q => exact iff_of_true ⟨_,rfl⟩ ⟨q,rfl⟩
  have hall : (∃ puts, evidencePuts root fields = .ok puts) ↔ ∃ parts, (fields.mapM fun finding =>
      (relationshipsFromFinding finding).mapM (relationshipPuts root finding)) = .ok parts := by
    rw [evidencePuts]
    cases fields.mapM fun finding => (relationshipsFromFinding finding).mapM
        (relationshipPuts root finding) with
    | error e => exact iff_of_false (fun ⟨_,h⟩ => by cases h) fun ⟨_,h⟩ => by cases h
    | ok parts => exact iff_of_true ⟨_,rfl⟩ ⟨parts,rfl⟩
  rw [hall,Traversals.exists_mapM_iff]
  refine forall₂_congr fun finding _ => ?_
  rw [Traversals.exists_mapM_iff]
  constructor
  · rintro h ⟨r,hr,hlabel⟩
    exact (hone finding r).mp (h r hr) hlabel
  · exact fun h r hr => (hone finding r).mpr fun hlabel => h ⟨r,hr,hlabel⟩

/-! All puts. -/

/-- What is put in altogether: the root first, then puts that are linked to it, and of nodes with its key
those of peers and some without a role. -/
theorem graphPuts_of_ok (h : graphPuts reads profiles sourceUrl root findings maxPeerDomains = .ok puts) :
    ∃ rest, puts = .node (rootNode root)::rest ∧ Linked (domainNodeId root) rest ∧
      (∀ peer ∈ (currentPeers reads root maxPeerDomains).1, Put.node (peerNode peer) ∈ rest) ∧
        ∀ n, Put.node n ∈ rest → n.nodeId = domainNodeId root → n.rank ≠ 0 →
          ∃ peer ∈ (currentPeers reads root maxPeerDomains).1, n = peerNode peer := by
  rw [graphPuts] at h
  cases hclassification : classificationPuts reads root maxPeerDomains with
  | error e => rw [hclassification] at h; cases h
  | ok classification =>
    cases hevidence : evidencePuts root (selectedFindings reads root findings) with
    | error e => rw [hclassification,hevidence] at h; cases h
    | ok evidence =>
      rw [hclassification,hevidence] at h
      refine ⟨_,(Except.ok.inj h).symm,linked_append (linked_append
        (classificationPuts_linked hclassification) compatibilityPuts_linked) (evidencePuts_linked hevidence),
        fun peer hpeer => List.mem_append_left _ (List.mem_append_left _
          (peer_of_classification hclassification hpeer)),fun n hn hid hrank => ?_⟩
      rcases List.mem_append.mp hn with hn | hn
      · rcases List.mem_append.mp hn with hn | hn
        · exact root_of_classification hclassification hn hid
        · exact absurd hid (root_of_compatibility hn)
      · obtain ⟨r,-,hn | ⟨e,hn,-⟩⟩ := mem_evidencePuts hevidence hn
        · cases hn
          exact absurd (relationship_rank r) hrank
        · cases hn

theorem graphPuts_ok_iff :
    (∃ puts, graphPuts reads profiles sourceUrl root findings maxPeerDomains = .ok puts) ↔
      ∀ finding ∈ selectedFindings reads root findings,
        (∃ r ∈ relationshipsFromFinding finding, r.label ≠ "") →
          (field finding "confidence").toFloat ≠ .error .overflow := by
  rw [← evidencePuts_ok_iff root,graphPuts]
  have hclassification : ∃ classification, classificationPuts reads root maxPeerDomains = .ok classification := by
    rcases classificationPuts_cases reads root maxPeerDomains with ⟨h,-⟩ | ⟨_,_,_,_,h,-⟩
    · exact ⟨_,h⟩
    · exact ⟨_,h⟩
  obtain ⟨classification,hclassification⟩ := hclassification
  rw [hclassification]
  cases evidencePuts root (selectedFindings reads root findings) with
  | error e => exact iff_of_false (fun ⟨_,h⟩ => by cases h) fun ⟨_,h⟩ => by cases h
  | ok evidence => exact iff_of_true ⟨_,rfl⟩ ⟨evidence,rfl⟩

/-! The graph of the puts. -/

omit [ValueTexts] [AlnumTable] in
theorem mem_nodes_iff {truncated : Bool} {n : Node} : n ∈ (graphOfPuts root truncated puts).nodes ↔
    n ∈ (Offers.collect Node.nodeId Node.rank (offeredNodes puts)).values :=
  (List.perm_insertionSort _ _).mem_iff

omit [ValueTexts] [AlnumTable] in
theorem mem_edges_iff {truncated : Bool} {e : Edge} : e ∈ (graphOfPuts root truncated puts).edges ↔
    e ∈ (Offers.collect Edge.key Edge.confidence (offeredEdges puts)).values :=
  (List.perm_insertionSort _ _).mem_iff

omit [ValueTexts] [AlnumTable] in
theorem nodup_nodeIds (truncated : Bool) : ((graphOfPuts root truncated puts).nodes.map Node.nodeId).Nodup :=
  ((List.perm_insertionSort _ _).map Node.nodeId).nodup_iff.mpr (Offers.nodup_keys_collect _)

omit [ValueTexts] [AlnumTable] in
theorem exists_node {truncated : Bool} {o : Node} (h : Put.node o ∈ puts) :
    ∃ n ∈ (graphOfPuts root truncated puts).nodes, n.nodeId = o.nodeId := by
  have hcollected : ∃ n, (Offers.collect Node.nodeId Node.rank (offeredNodes puts)).get? o.nodeId = some n :=
    Offers.exists_collect (mem_offeredNodes.mpr h)
  obtain ⟨n,hn⟩ := hcollected
  exact ⟨n,mem_nodes_iff.mpr (OrderedDict.mem_values_iff.mpr ⟨_,hn⟩),(Offers.get?_collect hn).2.1⟩

omit [ValueTexts] [AlnumTable] in
/-- The node of the root is sorted before all others. -/
theorem root_first {truncated : Bool} {n : Node} (hn : n ∈ (graphOfPuts root truncated puts).nodes)
    (hid : n.nodeId = domainNodeId root) : ∃ rest, (graphOfPuts root truncated puts).nodes = n::rest ∧
      ∀ m ∈ rest, m.nodeId ≠ domainNodeId root := by
  have hsorted : (graphOfPuts root truncated puts).nodes.Pairwise fun a b =>
      nodeSortKey (domainNodeId root) a ≤ nodeSortKey (domainNodeId root) b :=
    List.pairwise_insertionSort _ _
  have hnodup : ((graphOfPuts root truncated puts).nodes.map Node.nodeId).Nodup := nodup_nodeIds truncated
  cases hnodes : (graphOfPuts root truncated puts).nodes with
  | nil =>
    rw [hnodes] at hn
    exact absurd hn List.not_mem_nil
  | cons first rest =>
    rw [hnodes] at hn hsorted hnodup
    rw [List.map_cons,List.nodup_cons] at hnodup
    have hfirst : n = first := by
      rcases List.mem_cons.mp hn with heq | hrest
      · exact heq
      · have hle := (List.pairwise_cons.mp hsorted).1 n hrest
        have hne : first.nodeId ≠ domainNodeId root := fun h =>
          hnodup.1 (List.mem_map.mpr ⟨n,hrest,hid.trans h.symm⟩)
        rw [nodeSortKey,nodeSortKey,if_neg hne,if_pos hid] at hle
        exact absurd hle (not_le.mpr (List.cons_lt_cons_iff.mpr (Or.inl (by decide))))
    refine ⟨rest,by rw [hfirst],fun m hm hroot => hnodup.1 (List.mem_map.mpr ⟨m,hm,?_⟩)⟩
    rw [hroot,← hid,hfirst]

omit [ValueTexts] [AlnumTable] in
theorem exists_edge {truncated : Bool} {o : Edge} (h : Put.edge o ∈ puts) :
    ∃ e ∈ (graphOfPuts root truncated puts).edges, e.key = o.key := by
  have hcollected : ∃ e, (Offers.collect Edge.key Edge.confidence (offeredEdges puts)).get? o.key = some e :=
    Offers.exists_collect (mem_offeredEdges.mpr h)
  obtain ⟨e,he⟩ := hcollected
  exact ⟨e,mem_edges_iff.mpr (OrderedDict.mem_values_iff.mpr ⟨_,he⟩),(Offers.get?_collect he).2.1⟩

omit [ValueTexts] [AlnumTable] in
/-- All of the form of a graph but the mark of the root is there for linked puts. -/
theorem wellFormed_iff_marked {rest : List Put} (hlinked : Linked (domainNodeId root) rest)
    (hputs : puts = .node (rootNode root)::rest) (truncated : Bool) :
    WellFormed root puts (graphOfPuts root truncated puts) ↔ Marked root (graphOfPuts root truncated puts) := by
  constructor
  · exact fun h => h.root
  intro hmarked
  have hroot : Put.node (rootNode root) ∈ puts := hputs ▸ List.mem_cons_self
  have hmem : ∀ put, put ∈ rest → put ∈ puts := fun put h => hputs ▸ List.mem_cons_of_mem _ h
  refine ⟨fun e he => ?_,nodup_nodeIds truncated,?_,fun o ho => exists_node (mem_offeredNodes.mp ho),
    fun o ho => exists_edge (mem_offeredEdges.mp ho),fun e he => Offers.mem_values_collect (mem_edges_iff.mp he),
    fun n hn => Offers.mem_values_collect (mem_nodes_iff.mp hn),hmarked⟩
  · have hput := mem_offeredEdges.mp (Offers.mem_values_collect (mem_edges_iff.mp he)).1
    rw [hputs] at hput
    rcases List.mem_cons.mp hput with hput | hput
    · cases hput
    obtain ⟨hsource,n,hn,htarget⟩ := hlinked e hput
    constructor
    · rcases hsource with hsource | ⟨m,hm,hsource⟩
      · obtain ⟨m,hm,hid⟩ := exists_node hroot
        exact ⟨m,hm,hid.trans hsource.symm⟩
      · obtain ⟨k,hk,hid⟩ := exists_node (hmem _ hm)
        exact ⟨k,hk,hid.trans hsource⟩
    · obtain ⟨k,hk,hid⟩ := exists_node (hmem _ hn)
      exact ⟨k,hk,hid.trans htarget⟩
  · exact ((List.perm_insertionSort _ _).map Edge.key).nodup_iff.mpr (Offers.nodup_keys_collect _)

/-- The condition on what is read: no row of the service, within the limit, that has the id of the root
also has a role that counts; and the confidences that are asked for fit a float. -/
structure Sound (reads : Reads) (root : String) (findings : Option (List Finding)) (maxPeerDomains : ℤ) :
    Prop where
  peers : ∀ peer ∈ (currentPeers reads root maxPeerDomains).1,
    domainNodeId peer.domain = domainNodeId root → roleRank (orElse peer.serviceRole "unknown") = 0
  confidences : ∀ finding ∈ selectedFindings reads root findings,
    (∃ r ∈ relationshipsFromFinding finding, r.label ≠ "") →
      (field finding "confidence").toFloat ≠ .error .overflow

theorem marked_iff (h : graphPuts reads profiles sourceUrl root findings maxPeerDomains = .ok puts)
    (truncated : Bool) : Marked root (graphOfPuts root truncated puts) ↔
      ∀ peer ∈ (currentPeers reads root maxPeerDomains).1, domainNodeId peer.domain = domainNodeId root →
        roleRank (orElse peer.serviceRole "unknown") = 0 := by
  obtain ⟨rest,rfl,-,hpeers,hranked⟩ := graphPuts_of_ok h
  have hoffered : offeredNodes (.node (rootNode root)::rest) = rootNode root::offeredNodes rest := rfl
  constructor
  · rintro ⟨n,others,hnodes,hid,-,hmark⟩ peer hpeer hsame
    by_contra hrank
    have hn := mem_nodes_iff.mp (hnodes ▸ List.mem_cons_self : n ∈ (graphOfPuts root truncated _).nodes)
    obtain ⟨hoffer,hbest⟩ := Offers.mem_values_collect hn
    have hbetter : (peerNode peer).rank ≤ n.rank := hbest _
      (mem_offeredNodes.mpr (List.mem_cons_of_mem _ (hpeers peer hpeer))) (hsame.trans hid.symm)
    have hpositive : n.rank ≠ 0 := fun h0 => hrank (Nat.le_zero.mp (h0 ▸ hbetter))
    rcases List.mem_cons.mp (mem_offeredNodes.mp hoffer) with hn | hn
    · rw [Put.node.inj hn] at hpositive
      exact hpositive rfl
    · obtain ⟨other,-,rfl⟩ := hranked n hn hid hpositive
      cases hmark
  · intro hall
    have hroot : (Offers.collect Node.nodeId Node.rank (rootNode root::offeredNodes rest)).get?
        (rootNode root).nodeId = some (rootNode root) := by
      refine (Offers.first_kept_iff _ _).mpr fun n hn hid => ?_
      by_contra hrank
      obtain ⟨peer,hpeer,rfl⟩ := hranked n (mem_offeredNodes.mp hn) hid fun h0 => hrank (h0 ▸ Nat.zero_le _)
      exact hrank (le_of_eq_of_le (hall peer hpeer hid) (Nat.zero_le _))
    have hmem : rootNode root ∈ (graphOfPuts root truncated (.node (rootNode root)::rest)).nodes :=
      mem_nodes_iff.mpr (OrderedDict.mem_values_iff.mpr ⟨_,hoffered ▸ hroot⟩)
    obtain ⟨others,hnodes,hothers⟩ := root_first hmem rfl
    exact ⟨_,others,hnodes,rfl,hothers,rfl⟩

/-- The graph is well formed exactly if the root is not replaced by a row of its own service that has a
role, and no confidence overflows. -/
theorem service_graph_iff (domain : String) :
    (∃ puts g, graphPuts reads profiles sourceUrl (normalizeDomain domain) findings maxPeerDomains = .ok puts ∧
      serviceDependencyGraph reads profiles sourceUrl domain findings maxPeerDomains = .ok g ∧
        WellFormed (normalizeDomain domain) puts g) ↔
      normalizeDomain domain ≠ "" ∧ Sound reads (normalizeDomain domain) findings maxPeerDomains := by
  by_cases hempty : normalizeDomain domain = ""
  · refine iff_of_false ?_ fun h => h.1 hempty
    rintro ⟨_,g,-,hg,-⟩
    rw [serviceDependencyGraph,if_pos hempty] at hg
    cases hg
  rw [and_iff_right hempty]
  constructor
  · rintro ⟨puts,g,hputs,hg,hformed⟩
    simp only [serviceDependencyGraph,if_neg hempty,hputs] at hg
    rw [← Except.ok.inj hg] at hformed
    exact ⟨(marked_iff hputs _).mp hformed.root,graphPuts_ok_iff.mp ⟨puts,hputs⟩⟩
  · rintro ⟨hpeers,hconfidences⟩
    obtain ⟨puts,hputs⟩ := graphPuts_ok_iff.mpr hconfidences
    obtain ⟨rest,hrest,hlinked,-⟩ := graphPuts_of_ok hputs
    have hmarked := (marked_iff hputs (currentPeers reads (normalizeDomain domain) maxPeerDomains).2).mpr hpeers
    refine ⟨puts,_,hputs,?_,(wellFormed_iff_marked hlinked hrest _).mpr hmarked⟩
    simp only [serviceDependencyGraph,if_neg hempty,hputs]

end Form

/-! A root that belongs to a service. -/

/-- A domain that is the core of its service. -/
def coreDomain : Database := ⟨AList.insert "app.example" ⟨"Example","core"⟩ ∅,[]⟩

theorem root_mark_lost : ∃ g,
    serviceDependencyGraph ⟨some coreDomain,some coreDomain,none⟩ [] id "app.example" (some []) 25 = .ok g ∧
      ∀ puts, ¬WellFormed "app.example" puts g := by
  refine ⟨_,rfl,fun puts h => ?_⟩
  obtain ⟨n,rest,hnodes,-,-,hmark⟩ := h.root
  have hmetadata : some ([] : Fields) = some n.metadata :=
    congrArg (fun nodes : List Node => nodes.head?.map Node.metadata) hnodes
  rw [← Option.some.inj hmetadata] at hmark
  cases hmark

end ServiceGraph
end WormholeObservatory
