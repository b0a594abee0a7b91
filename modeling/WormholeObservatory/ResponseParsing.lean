import WormholeObservatory.Letters
import WormholeObservatory.ResponseChecks

/-! The parser of a batch: one classification for each expected domain, from a documented result
that names it, or an `LLMResponseError`; and the answers for which that fails. -/
namespace WormholeObservatory
namespace Responses

open JsonValues (Value ValueTexts field)

section Statement

variable [CaseTables]

/-- A request whose domains are distinct, nonempty and normalised. -/
structure Batch extends Request where
  normalized : ∀ d ∈ expectedDomains, normalizeDomain d = d
  named : ∀ d ∈ expectedDomains, d ≠ ""
  distinct : expectedDomains.Nodup

theorem Batch.expected_eq (batch : Batch) : batch.expected = batch.expectedDomains :=
  (List.map_congr_left batch.normalized).trans (List.map_id _)

def asObject : Value → Option Fields
  | .dict item => some item
  | _ => none

/-- The results that are objects. -/
def objects (results : List Value) : List Fields := results.filterMap asObject

/-- A candidate that is reached makes the decoder raise something else than its own error. -/
def Blocked (host : Host) (texts : List String) : Prop :=
  ∃ front candidate rest, texts = front++candidate::rest ∧
    (∀ t ∈ front, ∀ fields, host.loads t ≠ .value (.dict fields)) ∧ host.loads candidate = .raises

/-- The classification is built from one of the results, as documented and for this domain. -/
def BuiltFrom [ValueTexts] (request : Request) (raw : String) (results : List Value) (domain : String)
    (c : Classification) : Prop :=
  c.domain = domain ∧ ∃ item, .dict item ∈ results ∧ ownDomain item = domain ∧
    HasExactly resultFields item ∧ Documented (allowedTags request.tags) item ∧
    classificationFromPayload item request.tags domain request.provider raw request.options = .ok c

/-- The parser raises its own error, or the payload has the integer 1 as version and gives one
classification for each expected domain, in their order. -/
def Strict [ValueTexts] (host : Host) (text : String) (request : Request) : Prop :=
  (∃ message, parseBatchClassifications host text request = .error (.response message)) ∨
    ∃ payload results cs, parseJsonObject host (strip text) = .ok (some payload) ∧
      field payload "schema_version" = .int 1 ∧ field payload "results" = .list results ∧
      parseBatchClassifications host text request = .ok cs ∧
      List.Forall₂ (BuiltFrom request (strip text) results) request.expectedDomains cs

/-- What the parser needs of an answer. `decodes`: the decoder raises no other error than its own
before an object is found. `numbers`: the checks reach no number too large for a float. `spelled`:
where everything else is right, the version is written as an integer and no result has a domain of
dots alone. -/
structure Regular [ValueTexts] (host : Host) (text : String) (request : Request) : Prop where
  decodes : ¬Blocked host (candidates (strip text))
  numbers : ∀ payload results, parseJsonObject host (strip text) = .ok (some payload) →
    Framed payload results → ¬Overflowing (allowedTags request.tags) results
  spelled : ∀ payload results, parseJsonObject host (strip text) = .ok (some payload) →
    Framed payload results → (∀ v ∈ results, Sound (allowedTags request.tags) v) →
    ((objects results).map (takenDomain request.expected)).Perm request.expected →
      field payload "schema_version" = .int 1 ∧ ∀ item ∈ objects results, ownDomain item ≠ ""

end Statement

/-! The object of the answer. -/

variable {host : Host}

theorem blocked_cons {t : String} {texts : List String} : Blocked host (t::texts) ↔
    host.loads t = .raises ∨ (∀ fields, host.loads t ≠ .value (.dict fields)) ∧ Blocked host texts := by
  constructor
  · rintro ⟨front,candidate,rest,heq,hfront,hraises⟩
    cases front with
    | nil =>
      obtain ⟨rfl,-⟩ := List.cons_eq_cons.mp heq
      exact .inl hraises
    | cons u front =>
      obtain ⟨rfl,rfl⟩ := List.cons_eq_cons.mp heq
      obtain ⟨hhead,hfront⟩ := List.forall_mem_cons.mp hfront
      exact .inr ⟨hhead,front,candidate,rest,rfl,hfront,hraises⟩
  · rintro (hraises | ⟨hhead,front,candidate,rest,rfl,hfront,hraises⟩)
    · exact ⟨[],t,texts,rfl,by simp,hraises⟩
    · exact ⟨t::front,candidate,rest,rfl,List.forall_mem_cons.mpr ⟨hhead,hfront⟩,hraises⟩

theorem firstObject_error_iff {texts : List String} {f : Failure} :
    firstObject host texts = .error f ↔ f = .undecodable ∧ Blocked host texts := by
  induction texts with
  | nil => simp [firstObject,Blocked]
  | cons t texts ih =>
    rw [firstObject,blocked_cons]
    cases hload : host.loads t with
    | raises => simp [eq_comm]
    | decodeError => simp [ih]
    | value v => cases v <;> simp [ih]

/-! The results, one after another. -/

theorem objects_map (items : List Fields) : objects (items.map .dict) = items := by
  induction items with
  | nil => rfl
  | cons item items ih => exact congrArg (item::·) ih

theorem sound_results {allowed : List String} {results : List Value}
    (h : ∀ v ∈ results, Sound allowed v) : results = (objects results).map .dict := by
  induction results with
  | nil => rfl
  | cons v results ih =>
    obtain ⟨hv,hrest⟩ := List.forall_mem_cons.mp h
    obtain ⟨item,rfl,-⟩ := hv
    exact congrArg (Value.dict item::·) (ih hrest)

section Collecting

variable [CaseTables] [ValueTexts] {request : Request} {raw : String} {items : List Fields}
  {parsed : Table String Classification}

/-- The domains of the results are expected ones, each once, and none is there already. -/
def Fits (request : Request) (parsed : Table String Classification) (items : List Fields) : Prop :=
  (items.map (takenDomain request.expected)).Nodup ∧
    ∀ d ∈ items.map (takenDomain request.expected), d ∈ request.expected ∧ parsed.lookup d = none

/-- The classification of an item, under the domain it is taken for. -/
def Made (request : Request) (raw : String) (items : List Fields) (d : String) (c : Classification) :
    Prop :=
  ∃ item ∈ items, takenDomain request.expected item = d ∧
    classificationFromPayload item request.tags d request.provider raw request.options = .ok c

theorem fits_cons {item : Fields} {c : Classification} : Fits request parsed (item::items) ↔
    takenDomain request.expected item ∈ request.expected ∧
      parsed.lookup (takenDomain request.expected item) = none ∧
      Fits request (parsed.insert (takenDomain request.expected item) c) items := by
  rw [Fits,Fits,List.map_cons,List.nodup_cons,List.forall_mem_cons]
  constructor
  · rintro ⟨⟨hnew,hnodup⟩,⟨hexpected,hfree⟩,hrest⟩
    refine ⟨hexpected,hfree,hnodup,fun d hd => ⟨(hrest d hd).1,?_⟩⟩
    have hne : d ≠ takenDomain request.expected item := by
      rintro rfl
      exact hnew hd
    rw [AList.lookup_insert_ne hne]
    exact (hrest d hd).2
  · rintro ⟨hexpected,hfree,hnodup,hrest⟩
    have hne : ∀ d ∈ items.map (takenDomain request.expected),
        d ≠ takenDomain request.expected item := by
      rintro d hd rfl
      have hlookup := (hrest _ hd).2
      rw [AList.lookup_insert] at hlookup
      cases hlookup
    refine ⟨⟨fun hmem => hne _ hmem rfl,hnodup⟩,⟨hexpected,hfree⟩,fun d hd => ⟨(hrest d hd).1,?_⟩⟩
    have hlookup := (hrest d hd).2
    rwa [AList.lookup_insert_ne (hne d hd)] at hlookup

theorem made_cons {item : Fields} {d : String} {c : Classification} :
    Made request raw (item::items) d c ↔
      takenDomain request.expected item = d ∧
        classificationFromPayload item request.tags d request.provider raw request.options = .ok c ∨
      Made request raw items d c := by
  simp [Made]

/-- Documented results are collected exactly if they fit; otherwise the error is the parser's. -/
theorem collect_documented (hitems : ∀ item ∈ items, Documented (allowedTags request.tags) item) :
    (¬Fits request parsed items ∧
      ∃ message, collect request raw parsed (items.map .dict) = .error (.response message)) ∨
    Fits request parsed items ∧ ∃ parsed', collect request raw parsed (items.map .dict) = .ok parsed' ∧
      ∀ d c, parsed'.lookup d = some c ↔ parsed.lookup d = some c ∨ Made request raw items d c := by
  induction items generalizing parsed with
  | nil => exact .inr ⟨by simp [Fits],parsed,rfl,by simp [Made]⟩
  | cons item items ih =>
    obtain ⟨hitem,hrest⟩ := List.forall_mem_cons.mp hitems
    obtain ⟨c,hc,-⟩ := classificationFromPayload_documented hitem request.tags
      (takenDomain request.expected item) request.provider raw request.options
    rw [List.map_cons,collect]
    by_cases hexpected : takenDomain request.expected item ∈ request.expected
    · by_cases hfree : parsed.lookup (takenDomain request.expected item) = none
      · rw [if_neg (not_not.mpr hexpected),if_neg (by simp [hfree]),hc]
        rcases @ih (parsed.insert (takenDomain request.expected item) c) hrest with
          ⟨hfits,hmessage⟩ | ⟨hfits,parsed',hparsed,hlookup⟩
        · exact .inl ⟨fun h => hfits (fits_cons.mp h).2.2,hmessage⟩
        · refine .inr ⟨fits_cons.mpr ⟨hexpected,hfree,hfits⟩,parsed',hparsed,fun d c' => ?_⟩
          rw [hlookup,made_cons]
          by_cases hd : d = takenDomain request.expected item
          · subst hd
            rw [AList.lookup_insert,hfree,hc]
            simp
          · rw [AList.lookup_insert_ne hd]
            simp [Ne.symm hd]
      · rw [if_neg (not_not.mpr hexpected),if_pos (Option.isSome_iff_ne_none.mpr hfree)]
        exact .inl ⟨fun h => hfree (fits_cons (c := c).mp h).2.1,_,rfl⟩
    · rw [if_pos hexpected]
      exact .inl ⟨fun h => hexpected (fits_cons (c := c).mp h).1,_,rfl⟩

/-- Documented results give a classification for every domain they are taken for. -/
theorem exists_made_iff (hitems : ∀ item ∈ items, Documented (allowedTags request.tags) item)
    {d : String} : (∃ c, Made request raw items d c) ↔ d ∈ items.map (takenDomain request.expected) := by
  rw [List.mem_map]
  constructor
  · rintro ⟨c,item,hitem,hd,-⟩
    exact ⟨item,hitem,hd⟩
  · rintro ⟨item,hitem,hd⟩
    obtain ⟨c,hc,-⟩ := classificationFromPayload_documented (hitems item hitem) request.tags d
      request.provider raw request.options
    exact ⟨c,item,hitem,hd,hc⟩

omit [CaseTables] [ValueTexts] in
theorem forall₂_filterMap {α β : Type*} {f : α → Option β} {l : List α}
    (h : ∀ x ∈ l, (f x).isSome = true) : List.Forall₂ (fun x y => f x = some y) l (l.filterMap f) := by
  induction l with
  | nil => exact .nil
  | cons x l ih =>
    obtain ⟨hx,hl⟩ := List.forall_mem_cons.mp h
    obtain ⟨y,hy⟩ := Option.isSome_iff_exists.mp hx
    rw [List.filterMap_cons_some hy]
    exact .cons hy (ih hl)

/-- With documented results the parser gives an entry for each expected domain exactly if they are
for those domains, each once; otherwise the error is its own. -/
theorem parse_documented {host : Host} {text : String} {payload : Fields} {results : List Value}
    (hraw : strip text ≠ "") (hobject : parseJsonObject host (strip text) = .ok (some payload))
    (hframed : Framed payload results) (hsound : ∀ v ∈ results, Sound (allowedTags request.tags) v)
    (hnodup : request.expected.Nodup) :
    (¬((objects results).map (takenDomain request.expected)).Perm request.expected ∧
      ∃ message, parseBatchClassifications host text request = .error (.response message)) ∨
    ((objects results).map (takenDomain request.expected)).Perm request.expected ∧
      ∃ cs, parseBatchClassifications host text request = .ok cs ∧
        List.Forall₂ (Made request (strip text) (objects results)) request.expected cs := by
  have hvalid : validateBatchPayload host payload request.tags = .ok () :=
    validateBatchPayload_ok_iff.mpr ⟨results,hframed,hsound⟩
  have hresults := sound_results hsound
  have hdocumented : ∀ item ∈ objects results, Documented (allowedTags request.tags) item := by
    intro item hitem
    rw [hresults] at hsound
    exact (sound_dict.mp (hsound _ (List.mem_map_of_mem hitem))).2
  rw [parseBatchClassifications]
  simp only [if_neg hraw,hobject,hvalid,hframed.2.2,entries]
  rw [hresults,objects_map]
  rcases @collect_documented _ _ request (strip text) (objects results) ∅ hdocumented with
    ⟨hfits,message,hcollect⟩ | ⟨⟨hdistinct,hexpected⟩,parsed,hcollect,hlookup⟩
  · rw [hcollect]
    refine .inl ⟨fun hperm => hfits ⟨hperm.nodup_iff.mpr hnodup,fun d hd => ?_⟩,message,rfl⟩
    exact ⟨hperm.mem_iff.mp hd,AList.lookup_empty d⟩
  · rw [hcollect]
    have hpresent : ∀ d, d ∈ (objects results).map (takenDomain request.expected) ↔
        (parsed.lookup d).isSome = true := by
      intro d
      rw [← @exists_made_iff _ _ request (strip text) _ hdocumented,Option.isSome_iff_exists]
      simp only [hlookup,AList.lookup_empty,reduceCtorEq,false_or]
    by_cases hmissing : (request.expected.filter fun domain => (parsed.lookup domain).isNone) = []
    · have hall : ∀ d ∈ request.expected, (parsed.lookup d).isSome = true := by
        intro d hd
        have hone := List.filter_eq_nil_iff.mp hmissing d hd
        rwa [Option.isNone_iff_eq_none,← ne_eq,← Option.isSome_iff_ne_none] at hone
      refine .inr ⟨(List.perm_ext_iff_of_nodup hdistinct hnodup).mpr fun d => ?_,
        request.expected.filterMap fun d => parsed.lookup d,?_,?_⟩
      · exact ⟨fun hd => (hexpected d hd).1,fun hd => (hpresent d).mpr (hall d hd)⟩
      · simp only [hmissing,ne_eq,not_true_eq_false,if_false]
      · refine (forall₂_filterMap hall).imp fun d c hc => ?_
        simpa using (hlookup d c).mp hc
    · refine .inl ⟨fun hperm => hmissing (List.filter_eq_nil_iff.mpr fun d hd => ?_),?_⟩
      · have hsome := (hpresent d).mp (hperm.mem_iff.mpr hd)
        simpa [Option.isSome_iff_ne_none] using hsome
      · simp only [ne_eq,hmissing,not_false_eq_true,if_true]
        exact ⟨_,rfl⟩

end Collecting

/-! The parser. -/

section Parsing

variable [CaseTables] [ValueTexts] {host : Host} {text : String} {request : Request}

/-- Where an item is taken for the domain it names, what is made of it is built as documented. -/
theorem built_of_made {results : List Value} {raw d : String} {c : Classification}
    (hsound : ∀ v ∈ results, Sound (allowedTags request.tags) v)
    (hnamed : ∀ item ∈ objects results, ownDomain item ≠ "") (hd : normalizeDomain d = d)
    (h : Made request raw (objects results) d c) : BuiltFrom request raw results d c := by
  obtain ⟨item,hitem,htaken,hc⟩ := h
  have hmem : Value.dict item ∈ results := by
    rw [sound_results hsound]
    exact List.mem_map_of_mem hitem
  obtain ⟨hexact,hdocumented⟩ := sound_dict.mp (hsound _ hmem)
  obtain ⟨c',hc',hdomain,-⟩ := classificationFromPayload_documented hdocumented request.tags d
    request.provider raw request.options
  obtain rfl := Except.ok.inj (hc.symm.trans hc')
  rw [takenDomain,if_neg fun h => hnamed item hitem h.2] at htaken
  exact ⟨hdomain.trans hd,item,hmem,htaken,hexact,hdocumented,hc⟩

theorem strict_of_regular {batch : Batch} (hraw : strip text ≠ "")
    (h : Regular host text batch.toRequest) : Strict host text batch.toRequest := by
  cases hobject : parseJsonObject host (strip text) with
  | error f => exact absurd (firstObject_error_iff.mp hobject).2 h.decodes
  | ok found =>
    cases found with
    | none =>
      have herror : parseBatchClassifications host text batch.toRequest =
          .error (.response "LLM response is not valid JSON") := by
        simp only [parseBatchClassifications,if_neg hraw,hobject]
      exact .inl ⟨_,herror⟩
    | some payload =>
      cases hvalid : validateBatchPayload host payload batch.tags with
      | error f =>
        have herror : parseBatchClassifications host text batch.toRequest = .error f := by
          simp only [parseBatchClassifications,if_neg hraw,hobject,hvalid]
        by_cases hf : ∃ message, f = .response message
        · obtain ⟨message,rfl⟩ := hf
          exact .inl ⟨message,herror⟩
        · obtain ⟨-,results,hframed,hover⟩ :=
            (validateBatchPayload_escape_iff fun m hm => hf ⟨m,hm⟩).mp hvalid
          exact absurd hover (h.numbers payload results hobject hframed)
      | ok u =>
        obtain ⟨results,hframed,hsound⟩ := validateBatchPayload_ok_iff.mp hvalid
        have hnodup : batch.expected.Nodup := batch.expected_eq ▸ batch.distinct
        rcases parse_documented hraw hobject hframed hsound hnodup with
          ⟨-,message,hmessage⟩ | ⟨hperm,cs,hcs,hmade⟩
        · exact .inl ⟨message,hmessage⟩
        · obtain ⟨hversion,hnamed⟩ := h.spelled payload results hobject hframed hsound hperm
          rw [batch.expected_eq] at hmade
          refine .inr ⟨payload,results,cs,hobject,hversion,hframed.2.2,hcs,?_⟩
          refine ((List.forall₂_and_left _ _).mpr ⟨batch.normalized,hmade⟩).imp fun d c hdc => ?_
          exact built_of_made hsound hnamed hdc.1 hdc.2

theorem regular_of_strict {batch : Batch} (hraw : strip text ≠ "")
    (h : Strict host text batch.toRequest) : Regular host text batch.toRequest where
  decodes := by
    intro hblocked
    have hobject := firstObject_error_iff.mpr ⟨rfl,hblocked⟩
    have herror : parseBatchClassifications host text batch.toRequest = .error .undecodable := by
      simp only [parseBatchClassifications,if_neg hraw,parseJsonObject,hobject]
    rcases h with ⟨message,hmessage⟩ | ⟨payload,results,cs,-,-,-,hcs,-⟩
    · rw [herror] at hmessage
      cases hmessage
    · rw [herror] at hcs
      cases hcs
  numbers := by
    intro payload results hobject hframed hover
    have hvalid : validateBatchPayload host payload batch.tags = .error (.escape .overflow) :=
      (validateBatchPayload_escape_iff (by simp)).mpr ⟨rfl,results,hframed,hover⟩
    have herror : parseBatchClassifications host text batch.toRequest = .error (.escape .overflow) := by
      simp only [parseBatchClassifications,if_neg hraw,hobject,hvalid]
    rcases h with ⟨message,hmessage⟩ | ⟨payload,results,cs,-,-,-,hcs,-⟩
    · rw [herror] at hmessage
      cases hmessage
    · rw [herror] at hcs
      cases hcs
  spelled := by
    intro payload results hobject hframed hsound hperm
    have hnodup : batch.expected.Nodup := batch.expected_eq ▸ batch.distinct
    rcases parse_documented hraw hobject hframed hsound hnodup with ⟨hno,-⟩ | ⟨-,cs,hcs,-⟩
    · exact absurd hperm hno
    rcases h with ⟨message,hmessage⟩ | ⟨payload',results',cs',hobject',hversion,hresults,-,hbuilt⟩
    · rw [hcs] at hmessage
      cases hmessage
    obtain rfl := Option.some.inj (Except.ok.inj (hobject.symm.trans hobject'))
    obtain rfl := Value.list.inj (hframed.2.2.symm.trans hresults)
    refine ⟨hversion,fun item hitem hown => ?_⟩
    have htaken : takenDomain batch.expected item ∈ batch.expected :=
      hperm.mem_iff.mp (List.mem_map_of_mem hitem)
    by_cases hone : batch.expected.length = 1
    · obtain ⟨d,hd⟩ := List.length_eq_one_iff.mp hone
      have hlone : (objects results).length = 1 := by
        rw [← hone,← hperm.length_eq,List.length_map]
      obtain ⟨other,hother⟩ := List.length_eq_one_iff.mp hlone
      rw [← batch.expected_eq,hd] at hbuilt
      obtain ⟨c,-,⟨-,named,hnamed,hdomain,-⟩,-,-⟩ := List.forall₂_cons_left_iff.mp hbuilt
      have hmem : named ∈ objects results := List.mem_filterMap.mpr ⟨_,hnamed,rfl⟩
      rw [hother,List.mem_singleton] at hmem hitem
      refine batch.named d ?_ ?_
      · rw [← batch.expected_eq,hd]
        exact List.mem_singleton_self d
      · rw [← hdomain,hmem,← hitem,hown]
    · rw [takenDomain,if_neg fun h => hone h.1,hown,batch.expected_eq] at htaken
      exact batch.named _ htaken rfl

/-- For every text the parser is strict and raises no other error exactly if the answer is regular. -/
theorem parse_strict_iff (host : Host) (text : String) (batch : Batch) :
    Strict host text batch.toRequest ↔ (strip text ≠ "" → Regular host text batch.toRequest) := by
  by_cases hraw : strip text = ""
  · have herror : parseBatchClassifications host text batch.toRequest =
        .error (.response "LLM returned an empty response") := by
      simp only [parseBatchClassifications,if_pos hraw]
    exact iff_of_true (.inl ⟨_,herror⟩) fun h => absurd hraw h
  · exact ⟨fun h _ => regular_of_strict hraw h,fun h => strict_of_regular hraw (h hraw)⟩

/-- The error of a call that raises one. -/
def failureOf {α : Type*} : Except Failure α → Option Failure
  | .error f => some f
  | .ok _ => none

omit [CaseTables] [ValueTexts] in
theorem failureOf_eq_some {α : Type*} {x : Except Failure α} {f : Failure} :
    failureOf x = some f ↔ x = .error f := by
  cases x <;> simp [failureOf]

theorem not_strict_of_error {f : Failure} (h : parseBatchClassifications host text request = .error f)
    (hf : ∀ m, f ≠ .response m) : ¬Strict host text request := by
  rintro (⟨message,hmessage⟩ | ⟨payload,results,cs,-,-,-,hcs,-⟩)
  · rw [hmessage] at h
    exact hf message (Except.error.inj h).symm
  · rw [hcs] at h
    cases h

/-- The host that decodes one text. -/
def decoding (t : String) (object : Fields) : Host where
  loads s := if s = t then .value (.dict object) else .decodeError
  stringFields := stringFieldNames
  stringFields_perm := .refl _

omit [CaseTables] [ValueTexts] in
theorem parseJsonObject_decoding (t : String) (object : Fields) :
    parseJsonObject (decoding t object) t = .ok (some object) := by
  have hloads : ∀ s, (decoding t object).loads s = if s = t then .value (.dict object) else .decodeError :=
    fun _ => rfl
  rw [parseJsonObject,candidates]
  cases fenced t.toList with
  | none =>
    simp only [Option.toList_none,List.map_nil,List.nil_append,List.cons_append,firstObject,hloads,if_true]
  | some found =>
    simp only [Option.toList_some,List.map_cons,List.map_nil,List.cons_append,List.nil_append,firstObject,
      hloads,if_true]
    split_ifs with h
    · rfl
    · rfl

omit [CaseTables] [ValueTexts] in
theorem strip_braces (body : List Char) :
    strip (String.ofList ('\x7b'::(body++['\x7d']))) = String.ofList ('\x7b'::(body++['\x7d'])) ∧
      String.ofList ('\x7b'::(body++['\x7d'])) ≠ "" := by
  refine ⟨strip_eq_self_iff.mpr ⟨?_,?_⟩,?_⟩
  · rw [beginsIn,String.toList_ofList,List.head?_cons]
    decide
  · rw [endsIn,String.toList_ofList,← List.cons_append,List.getLast?_concat]
    decide
  · rw [← String.toList_inj.ne,String.toList_ofList]
    exact List.cons_ne_nil _ _

theorem parse_decoding {t : String} {object : Fields} {f : Failure} (ht : strip t = t ∧ t ≠ "")
    (hvalid : validateBatchPayload (decoding t object) object request.tags = .error f) :
    parseBatchClassifications (decoding t object) t request = .error f := by
  rw [parseBatchClassifications]
  simp only [ht.1,if_neg ht.2,parseJsonObject_decoding,hvalid]

end Parsing

/-- An answer with a confidence of 310 digits. -/
def hugeText : String := String.ofList ('\x7b'::(
  ("\"schema_version\": 1, \"results\": [\x7b\"domain\": \"a.com\", \"policy\": \"deny\", "++
  "\"category\": \"ads\", \"tags\": [\"ads\"], \"service\": \"\", \"service_role\": \"optional\", "++
  "\"privacy_risk\": 80, \"security_risk\": 0, \"breakage_risk\": 10, \"confidence\": 1"++
  String.ofList (List.replicate 309 '0')++", \"needs_review\": false, \"review_reason\": \"\", "++
  "\"recheck_after_days\": 30, \"short\": \"\", \"details\": \"\"\x7d]").toList++['\x7d']))

/-- What `json.loads` makes of it. -/
def hugeObject : Fields :=
  [("schema_version",.int 1),("results",.list [.dict [("domain",.str "a.com"),("policy",.str "deny"),
    ("category",.str "ads"),("tags",.list [.str "ads"]),("service",.str ""),
    ("service_role",.str "optional"),("privacy_risk",.int 80),("security_risk",.int 0),
    ("breakage_risk",.int 10),("confidence",.int (10^309)),("needs_review",.bool false),
    ("review_reason",.str ""),("recheck_after_days",.int 30),("short",.str ""),("details",.str "")]])]

def oneDomain : Batch where
  expectedDomains := ["a.com"]
  tags := ["ads"]
  normalized := by decide
  named := by decide
  distinct := by decide

/-- The conversion of the confidence breaks off with an `OverflowError`. -/
theorem huge_confidence_escapes :
    parseBatchClassifications (decoding hugeText hugeObject) hugeText oneDomain.toRequest =
      .error (.escape .overflow) ∧
    ¬Strict (decoding hugeText hugeObject) hugeText oneDomain.toRequest := by
  have hvalid : validateBatchPayload (decoding hugeText hugeObject) hugeObject oneDomain.tags =
      .error (.escape .overflow) :=
    failureOf_eq_some.mp (by decide +kernel)
  have hrun : parseBatchClassifications (decoding hugeText hugeObject) hugeText oneDomain.toRequest =
      .error (.escape .overflow) := parse_decoding (strip_braces _) hvalid
  exact ⟨hrun,not_strict_of_error hrun (by simp)⟩

end Responses
end WormholeObservatory
