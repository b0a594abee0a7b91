import WormholeObservatory.Firsts
import WormholeObservatory.LlmResponses
import WormholeObservatory.ResearchFindings
import WormholeObservatory.ReviewStore
import WormholeObservatory.TextLines

/-! The citations below the details of a classification. What a model wrote is taken for a section
of citations if it has the header of one, whatever follows it. -/
namespace WormholeObservatory
namespace Evidence

open Floats JsonValues
open Responses (Fields cut)

def citationHeader : String := "Evidence citations:"
def maxCitations : ℕ := 12
def maxLabelLength : ℕ := 180
def maxUrlLength : ℕ := 2048

/-- A citation, its url empty if there is none. -/
structure Reference where
  label : String
  url : String
  deriving DecidableEq

/-- The columns of `ProviderCitation` that are read. -/
structure ProviderCitation where
  url : String
  title : String := ""

section Citations

variable [LetterTables] [ValueTexts]

/-- `_single_line`. -/
def singleLine (value : Value) : String := joinWith " " (words (value.textOr ""))

/-- `_source_url`. -/
def sourceUrl (value : Value) : String :=
  let url := singleLine value
  if url = "" then ""
  else if startsWith (CaseTables.lower url) "https://" || startsWith (CaseTables.lower url) "http://" then
    cut maxUrlLength url
  else ""

/-- The reference of a finding, in the loop of `_dossier_references`. -/
def findingReference (finding : Fields) : Reference :=
  let provider := singleLine (field finding "provider")
  let title := singleLine (field finding "title")
  let kind := singleLine (field finding "kind")
  let labelParts := [provider,orElse title kind].filter (· ≠ "")
  let label := orElse (joinWith " — " labelParts.eraseDups) "Evidence finding"
  ⟨cut maxLabelLength label,sourceUrl (field finding "source_url")⟩

/-- `_dossier_references`. -/
def dossierReferences (dossier : Fields) : List Reference :=
  match field dossier "findings" with
  | .list findings => findings.filterMap fun finding =>
    match finding with
    | .dict fields => some (findingReference fields)
    | _ => none
  | _ => []

/-- `_provider_references`. -/
def providerReferences (citations : List ProviderCitation) : List Reference :=
  citations.filterMap fun citation =>
    let url := sourceUrl (.str citation.url)
    if url = "" then none
    else
      let title := orElse (singleLine (.str citation.title)) "Provider web source"
      some ⟨cut maxLabelLength ("Web — "++title),url⟩

/-- The key of a reference in `_deduplicate_references`. -/
def referenceKey (r : Reference) : String × String :=
  if r.url ≠ "" then (CaseTables.casefold r.url,CaseTables.casefold r.label)
  else ("",CaseTables.casefold r.label)

/-- `_deduplicate_references`. -/
def deduplicateReferences (references : List Reference) : List Reference :=
  Firsts.firsts referenceKey [] references

/-- A line of the section. -/
def citationLine (index : ℕ) (r : Reference) : String :=
  "[E"++toString (index+1)++"] "++r.label++(if r.url ≠ "" then " — "++r.url else "")

def citationLines (references : List Reference) : List String := references.mapIdx citationLine

/-- `_with_citation_section`. -/
def withCitationSection (c : Classification) (references : List Reference) : Classification :=
  let details := strip c.details
  if contains details citationHeader then c
  else if references ≠ [] then
    let body := citationHeader++"\n"++joinWith "\n" (citationLines references)
    { c with details := strip (details++"\n\n"++body) }
  else
    let body := citationHeader++"\n[none] No evidence finding was supplied."
    { c with
      details := strip (details++"\n\n"++body)
      needsReview := true
      reviewReason := orElse (strip c.reviewReason)
        "No citable evidence finding was supplied for this generated description." }

/-- `dossier_by_domain`. -/
def dossierByDomain (dossiers : List Fields) : OrderedDict String Fields :=
  OrderedDict.ofItems (dossiers.filterMap fun item =>
    let domain := normalizeDomain ((field item "domain").textOr "")
    if domain = "" then none else some (domain,item))

/-- The loop body of `attach_evidence_citations`. -/
def attachOne (singleDomain : Bool) (dossiers : List Fields) (providerCitations : List ProviderCitation)
    (c : Classification) : Classification :=
  let dossier := ((dossierByDomain dossiers).get? (normalizeDomain c.domain)).getD []
  let references := dossierReferences dossier++
    if singleDomain then providerReferences providerCitations else []
  withCitationSection c ((deduplicateReferences references).take maxCitations)

/-- `attach_evidence_citations`. -/
def attachEvidenceCitations (classifications : List Classification) (dossiers : List Fields)
    (providerCitations : List ProviderCitation) : List Classification :=
  classifications.map (attachOne (classifications.length = 1) dossiers providerCitations)

/-! Citations of the findings that are stored. -/

/-- `dict(row)`, with the data of `raw_json` read back. -/
def FindingRow.asDict (row : FindingRow) : Fields :=
  [("id",.int row.id),("domain",.str row.domain),("provider",.str row.provider),("kind",.str row.kind),
    ("title",.str row.title),("summary",.str row.summary),("source_url",.str row.sourceUrl),
    ("confidence",.float row.confidence),("signal_type",.str row.signalType),("verdict",.str row.verdict),
    ("decision_relevant",.int (if row.decisionRelevant then 1 else 0)),
    ("retrieved_at",.int row.retrievedAt),("expires_at",.int row.expiresAt),
    ("raw_data",.dict row.rawData.items)]

/-- The rows `_with_saved_evidence_citations` reads. -/
def citedFindings (settings : Settings) (now : ℤ) (domain : String) (t : FindingTable) : List FindingRow :=
  researchFindingsGet settings now domain true 12 t

/-- The dossier `_with_saved_evidence_citations` makes of rows. -/
def savedDossier (domain : String) (findings : List FindingRow) : Fields :=
  [("domain",.str domain),("findings",.list (findings.map fun row => .dict row.asDict))]

/-- `_with_saved_evidence_citations`. -/
def withSavedEvidenceCitations (settings : Settings) (now : ℤ) (t : FindingTable) (c : Classification) :
    Classification :=
  let findings := citedFindings settings now c.domain t
  if findings = [] then c
  else (attachEvidenceCitations [c] [savedDossier c.domain findings] []).headD c

/-- The tables of a save, and the column `details` of the rows of `classification_runs`. -/
structure Store where
  base : Review.Store
  findings : FindingTable
  runDetails : List String

/-- `database.review_save_classification`. -/
def reviewSaveClassification (settings : Settings) (now : ℤ) (c : Classification) (info : Review.RunInfo) :
    EStateM PiHole.Fault Store Unit := fun s =>
  let annotated := withSavedEvidenceCitations settings now s.findings c
  match Review.saveClassificationRun now annotated info s.base with
  | .ok _ base => .ok () { s with base, runDetails := s.runDetails++[annotated.details] }
  | .error fault base => .error fault { s with base }

/-! Lines. -/

/-- The lines of a text. -/
def textLines (s : String) : List String := (s.toList.splitOn '\n').map String.ofList

def OneLine (s : String) : Prop := '\n' ∉ s.toList

instance (s : String) : Decidable (OneLine s) := inferInstanceAs (Decidable ('\n' ∉ s.toList))

omit [LetterTables] [ValueTexts] in
theorem oneLine_append {s t : String} (hs : OneLine s) (ht : OneLine t) : OneLine (s++t) := by
  rw [OneLine,String.toList_append,List.mem_append]
  exact not_or.mpr ⟨hs,ht⟩

omit [LetterTables] [ValueTexts] in
theorem oneLine_cut {s : String} (n : ℕ) (hs : OneLine s) : OneLine (cut n s) := by
  rw [OneLine,cut,String.toList_ofList]
  exact fun h => hs (List.take_subset _ _ h)

omit [LetterTables] [ValueTexts] in
theorem oneLine_orElse {s t : String} (hs : OneLine s) (ht : OneLine t) : OneLine (orElse s t) := by
  rw [orElse]
  split
  · exact ht
  · exact hs

omit [LetterTables] [ValueTexts] in
theorem oneLine_joinWith {separator : String} {parts : List String} (hseparator : OneLine separator)
    (hparts : ∀ s ∈ parts, OneLine s) : OneLine (joinWith separator parts) := by
  rw [OneLine,joinWith,String.toList_intercalate]
  intro h
  rcases TextLines.mem_intercalate h with h | ⟨l,hl,h⟩
  · exact hseparator h
  · obtain ⟨s,hs,rfl⟩ := List.mem_map.mp hl
    exact hparts s hs h

omit [LetterTables] in
theorem oneLine_singleLine (value : Value) : OneLine (singleLine value) := by
  refine oneLine_joinWith (by decide) fun s hs => ?_
  obtain ⟨word,hword,rfl⟩ := List.mem_map.mp hs
  rw [OneLine,String.toList_ofList]
  intro hmem
  have hblank := TextLines.not_of_mem_splitOnP (List.mem_filter.mp hword).1 _ hmem
  exact absurd hblank (by decide)

theorem oneLine_sourceUrl (value : Value) : OneLine (sourceUrl value) := by
  rw [sourceUrl]
  split
  · decide
  · split
    · exact oneLine_cut _ (oneLine_singleLine value)
    · decide

/-- Label and url of a finding have no line break. -/
theorem oneLine_findingReference (finding : Fields) :
    OneLine (findingReference finding).label ∧ OneLine (findingReference finding).url := by
  refine ⟨oneLine_cut _ (oneLine_orElse (oneLine_joinWith (by decide) fun s hs => ?_) (by decide)),
    oneLine_sourceUrl _⟩
  have hpart := (List.mem_filter.mp (List.mem_eraseDups.mp hs)).1
  rcases List.mem_pair.mp hpart with rfl | rfl
  · exact oneLine_singleLine _
  · exact oneLine_orElse (oneLine_singleLine _) (oneLine_singleLine _)

omit [LetterTables] [ValueTexts] in
theorem digits_of_index (n : ℕ) : ∀ c ∈ (toString n).toList, c.isDigit = true := by
  intro c hc
  rw [Nat.toString_eq_ofList_toDigits,String.toList_ofList] at hc
  exact Nat.isDigit_of_mem_toDigits (by decide) (by decide) hc

omit [LetterTables] [ValueTexts] in
theorem oneLine_citationLine (index : ℕ) {r : Reference} (hlabel : OneLine r.label) (hurl : OneLine r.url) :
    OneLine (citationLine index r) := by
  have hindex : OneLine (toString (index+1)) := fun h =>
    absurd (digits_of_index _ _ h) (by decide)
  have hend : OneLine (if r.url ≠ "" then " — "++r.url else "") := by
    split
    · exact oneLine_append (by decide) hurl
    · decide
  exact oneLine_append (oneLine_append (oneLine_append (oneLine_append (by decide) hindex) (by decide))
    hlabel) hend

omit [LetterTables] [ValueTexts] in
/-- Lines of different numbers are different. -/
theorem citationLine_inj {i j : ℕ} {r r' : Reference} (h : citationLine i r = citationLine j r') : i = j := by
  have hbracket : ∀ n : ℕ, ']' ∉ (toString n).toList := fun n hmem => absurd (digits_of_index n _ hmem) (by decide)
  have hchars := congrArg String.toList h
  simp only [citationLine,String.toList_append,List.append_assoc] at hchars
  have hlist : ∀ (n : ℕ) (rest : List Char), ((toString n).toList++("] ".toList++rest)).takeWhile (· ≠ ']') =
      (toString n).toList := by
    intro n rest
    have hall : ∀ c ∈ (toString n).toList, decide (c ≠ ']') = true := by
      intro c hc
      exact decide_eq_true fun heq => hbracket n (heq ▸ hc)
    rw [List.takeWhile_append_of_pos hall]
    simp
  have hdigits := congrArg (List.takeWhile (· ≠ ']')) (List.append_cancel_left hchars)
  rw [hlist,hlist,Nat.toString_eq_ofList_toDigits,Nat.toString_eq_ofList_toDigits,String.toList_ofList,
    String.toList_ofList] at hdigits
  have hnumbers := congrArg (fun digits => Nat.ofDigitChars 10 digits 0) hdigits
  simp only [Nat.ofDigitChars_toDigits (by decide : 1 < 10) (by decide : 10 ≤ 10)] at hnumbers
  omega

/-! The section below a text. -/

omit [LetterTables] [ValueTexts] in
theorem strip_blank_cons {c : Char} (hc : isSpace c = true) (l : List Char) :
    strip (String.ofList (c::l)) = strip (String.ofList l) := by
  simp [strip,hc]

omit [LetterTables] [ValueTexts] in
/-- The header stays where the ends of a text are trimmed. -/
theorem contains_strip {s : String} (h : citationHeader.toList <:+: s.toList) :
    contains (strip s) citationHeader = true := by
  rw [contains_iff,strip,String.toList_ofList]
  exact TextLines.infix_trim (by decide) (by decide) h

/-- What comes before the lines of the section. -/
def sectionLead (details : String) : List Char :=
  if details = "" then citationHeader.toList
  else details.toList++ '\n':: '\n'::citationHeader.toList

omit [LetterTables] [ValueTexts] in
theorem toList_strip_section {d : String} (hd : strip d = d) (lines : List String) :
    (strip (d++"\n\n"++(citationHeader++"\n"++joinWith "\n" lines))).toList =
      sectionLead d++( '\n'::['\n'].intercalate (lines.map String.toList)).rdropWhile isSpace := by
  have htext : d++"\n\n"++(citationHeader++"\n"++joinWith "\n" lines) = String.ofList
      (d.toList++ '\n':: '\n'::(citationHeader.toList++ '\n'::['\n'].intercalate (lines.map String.toList))) := by
    rw [← String.toList_inj]
    simp [joinWith,String.toList_intercalate]
  have hlast : ∃ cs c, citationHeader.toList = cs++[c] ∧ isSpace c = false :=
    ⟨"Evidence citations".toList,':',by decide,by decide⟩
  rw [htext,sectionLead]
  split
  · rename_i hempty
    rw [hempty,String.toList_empty,List.nil_append,strip_blank_cons (by decide),
      strip_blank_cons (by decide)]
    exact toList_strip_append ⟨'E',"vidence citations:".toList,by decide,by decide⟩ hlast
  · rename_i hne
    obtain ⟨c,cs,hchars⟩ := List.exists_cons_of_ne_nil (toList_ne_nil.mpr hne)
    have hbegin := (strip_eq_self_iff.mp hd).1
    rw [beginsIn,hchars] at hbegin
    obtain ⟨hs,h,hheader,hend⟩ := hlast
    have hassoc : d.toList++ '\n':: '\n'::(citationHeader.toList++ '\n'::['\n'].intercalate
        (lines.map String.toList)) = (d.toList++ '\n':: '\n'::citationHeader.toList)++
          '\n'::['\n'].intercalate (lines.map String.toList) := by simp
    rw [hassoc]
    exact toList_strip_append ⟨c,cs++ '\n':: '\n'::citationHeader.toList,by rw [hchars,List.cons_append],
      by simpa using hbegin⟩ ⟨d.toList++ '\n':: '\n'::hs,h,by rw [hheader]; simp,hend⟩

omit [LetterTables] [ValueTexts] in
theorem mem_sectionLead {d line : String} (hline : line ≠ "") (hheader : line ≠ citationHeader) :
    line ∈ ((sectionLead d).splitOn '\n').map String.ofList ↔ line ∈ textLines d := by
  have hsplit : citationHeader.toList.splitOn '\n' = [citationHeader.toList] :=
    List.splitOn_eq_singleton (by decide)
  rw [sectionLead]
  split
  · rename_i hempty
    rw [hsplit,hempty,textLines,String.toList_empty,List.splitOn_nil]
    simp [hline,hheader]
  · rw [List.splitOn_append_cons_self,← List.nil_append ( '\n'::citationHeader.toList),
      List.splitOn_append_cons_self,hsplit,List.splitOn_nil,List.map_append,List.mem_append,textLines]
    simp [hline,hheader]

omit [LetterTables] [ValueTexts] in
/-- The lines of a text with a section below it. -/
theorem mem_textLines_section {d : String} (hd : strip d = d) {init : List String} {last : String}
    (hone : ∀ l ∈ init++[last], OneLine l) (hlast : last.toList.head? = some '[') {line : String}
    (hline : line ≠ "") (hheader : line ≠ citationHeader) :
    line ∈ textLines (strip (d++"\n\n"++(citationHeader++"\n"++joinWith "\n" (init++[last])))) ↔
      line ∈ textLines d ∨ line ∈ init ∨ line = String.ofList (last.toList.rdropWhile isSpace) := by
  obtain ⟨r,hr⟩ : ∃ r, last.toList = '['::r := by
    cases hchars : last.toList with
    | nil => rw [hchars] at hlast; cases hlast
    | cons c r =>
      rw [hchars,List.head?_cons,Option.some_inj] at hlast
      exact ⟨r,by rw [hlast]⟩
  have htrimmed : last.toList.rdropWhile isSpace = '['::r.rdropWhile isSpace := by
    rw [hr]
    exact TextLines.rdropWhile_append_cons [] (by decide) r
  have hinit : ∀ l ∈ init.map String.toList++[last.toList.rdropWhile isSpace], '\n' ∉ l := by
    intro l hl
    rcases List.mem_append.mp hl with hl | hl
    · obtain ⟨s,hs,rfl⟩ := List.mem_map.mp hl
      exact hone s (List.mem_append_left _ hs)
    · rw [List.mem_singleton.mp hl]
      exact fun h => hone last (by simp) ((List.rdropWhile_prefix _ _).subset h)
  have hchars : (strip (d++"\n\n"++(citationHeader++"\n"++joinWith "\n" (init++[last])))).toList =
      sectionLead d++ '\n'::['\n'].intercalate
        (init.map String.toList++[last.toList.rdropWhile isSpace]) := by
    have htrim : ( '\n'::['\n'].intercalate (init.map String.toList++[last.toList])).rdropWhile isSpace =
        '\n'::['\n'].intercalate (init.map String.toList++[last.toList.rdropWhile isSpace]) := by
      rw [htrimmed,hr]
      exact TextLines.rdropWhile_intercalate _ (by decide) ['\n'] r
    rw [toList_strip_section hd,List.map_append,List.map_singleton,htrim]
  rw [textLines,hchars,TextLines.splitOn_section _ (by simp) hinit,List.map_append,List.mem_append,
    mem_sectionLead hline hheader,List.map_append,List.map_map,List.mem_append]
  have hsame : String.ofList ∘ String.toList = id := funext fun _ => String.ofList_toList
  rw [hsame,List.map_id,List.map_singleton,List.mem_singleton]

/-! Adding a section. -/

omit [LetterTables] [ValueTexts] in
/-- Once a section was asked for, there is one. -/
theorem contains_withCitationSection (c : Classification) (references : List Reference) :
    contains (strip (withCitationSection c references).details) citationHeader = true := by
  have hsection : ∀ body, contains (strip (strip (strip c.details++"\n\n"++(citationHeader++body))))
      citationHeader = true := by
    intro body
    rw [strip_strip]
    refine contains_strip ⟨(strip c.details).toList++"\n\n".toList,body.toList,?_⟩
    simp
  rw [withCitationSection]
  split
  · assumption
  · split
    · have h := hsection ("\n"++joinWith "\n" (citationLines references))
      rwa [← @String.append_assoc citationHeader "\n"] at h
    · exact hsection _

omit [LetterTables] [ValueTexts] in
theorem withCitationSection_of_contains {c : Classification}
    (h : contains (strip c.details) citationHeader = true) (references : List Reference) :
    withCitationSection c references = c :=
  if_pos h

omit [LetterTables] [ValueTexts] in
@[simp] theorem withCitationSection_domain (c : Classification) (references : List Reference) :
    (withCitationSection c references).domain = c.domain := by
  rw [withCitationSection]
  split
  · rfl
  · split <;> rfl

theorem contains_attachOne (singleDomain : Bool) (dossiers : List Fields)
    (providerCitations : List ProviderCitation) (c : Classification) :
    contains (strip (attachOne singleDomain dossiers providerCitations c).details) citationHeader = true := by
  rw [attachOne]
  exact contains_withCitationSection _ _

theorem attachOne_of_contains {c : Classification} (h : contains (strip c.details) citationHeader = true)
    (singleDomain : Bool) (dossiers : List Fields) (providerCitations : List ProviderCitation) :
    attachOne singleDomain dossiers providerCitations c = c := by
  rw [attachOne]
  exact withCitationSection_of_contains h _

/-- Citations that were attached are not attached again. -/
theorem attach_attach (classifications : List Classification) (dossiers : List Fields)
    (providerCitations : List ProviderCitation) :
    attachEvidenceCitations (attachEvidenceCitations classifications dossiers providerCitations) dossiers
      providerCitations = attachEvidenceCitations classifications dossiers providerCitations := by
  generalize hattached : attachEvidenceCitations classifications dossiers providerCitations = attached
  have hall : ∀ c ∈ attached, contains (strip c.details) citationHeader = true := by
    intro c hc
    rw [← hattached,attachEvidenceCitations] at hc
    obtain ⟨c,-,rfl⟩ := List.mem_map.mp hc
    exact contains_attachOne _ _ _ c
  rw [attachEvidenceCitations]
  exact (List.map_congr_left fun c hc => attachOne_of_contains (hall c hc) _ _ _).trans (List.map_id _)

/-- The condition on what a model wrote: no header of a section, and a last line that trimming leaves
alone; or a text that already has the lines. -/
def Unsuppressed (updateCurrent : Bool) (details : String) (lines : List String) : Prop :=
  if contains (strip details) citationHeader then
    ∀ line ∈ lines, line ∈ textLines details ∧ (updateCurrent = true → line ∈ textLines (strip details))
  else ∀ last, lines.getLast? = some last → endsIn isSpace last = true → last ∈ textLines (strip details)

omit [LetterTables] [ValueTexts] in
theorem citationLine_head (index : ℕ) (r : Reference) : (citationLine index r).toList.head? = some '[' := by
  simp only [citationLine,String.toList_append,List.append_assoc]
  rfl

omit [LetterTables] [ValueTexts] in
/-- All lines of a section stand in the text it was added to, unless the last one was trimmed. -/
theorem lines_of_section {c : Classification} {references : List Reference} (hne : references ≠ [])
    (hone : ∀ r ∈ references, OneLine r.label ∧ OneLine r.url)
    (hnone : contains (strip c.details) citationHeader = false) :
    (∀ line ∈ citationLines references, line ∈ textLines (withCitationSection c references).details) ↔
      ∀ last, (citationLines references).getLast? = some last → endsIn isSpace last = true →
        last ∈ textLines (strip c.details) := by
  obtain ⟨init,r,rfl⟩ : ∃ init r, references = init++[r] :=
    ⟨references.dropLast,references.getLast hne,(List.dropLast_append_getLast hne).symm⟩
  have hlines : citationLines (init++[r]) = citationLines init++[citationLine init.length r] := by
    simp [citationLines,List.mapIdx_append]
  have hdetails : (withCitationSection c (init++[r])).details = strip (strip c.details++"\n\n"++
      (citationHeader++"\n"++joinWith "\n" (citationLines init++[citationLine init.length r]))) := by
    rw [withCitationSection,if_neg (by simp [hnone]),if_pos (by simp),hlines]
  have honeLine : ∀ l ∈ citationLines init++[citationLine init.length r], OneLine l := by
    rw [← hlines]
    intro l hl
    obtain ⟨i,hi,rfl⟩ := List.mem_mapIdx.mp hl
    obtain ⟨hlabel,hurl⟩ := hone _ (List.getElem_mem hi)
    exact oneLine_citationLine i hlabel hurl
  have hshown : ∀ i r, citationLine i r ≠ "" ∧ citationLine i r ≠ citationHeader := by
    intro i r
    constructor
    · intro h
      have := citationLine_head i r
      rw [h] at this
      cases this
    · intro h
      have := citationLine_head i r
      rw [h] at this
      exact absurd this (by decide)
  have hmem := fun i (q : Reference) => mem_textLines_section (strip_strip c.details) honeLine
    (citationLine_head _ _) (hshown i q).1 (hshown i q).2
  rw [hdetails,hlines,List.getLast?_concat]
  constructor
  · intro hall last hlast hblank
    rw [← Option.some_inj.mp hlast] at hblank ⊢
    rcases (hmem init.length r).mp (hall _ (List.mem_append_right _ (List.mem_singleton.mpr rfl)))
      with h | h | h
    · exact h
    · obtain ⟨j,hj,heq⟩ := List.mem_mapIdx.mp h
      have := citationLine_inj heq
      omega
    · have hkept := congrArg String.toList h
      rw [String.toList_ofList] at hkept
      rw [endsIn,rdropWhile_eq_self.mp hkept.symm] at hblank
      cases hblank
  · intro hlast line hline
    rcases List.mem_append.mp hline with hinit | hline
    · obtain ⟨i,hi,rfl⟩ := List.mem_mapIdx.mp hinit
      exact (hmem _ _).mpr (.inr (.inl hinit))
    · rw [List.mem_singleton.mp hline]
      by_cases hblank : endsIn isSpace (citationLine init.length r) = true
      · exact (hmem _ _).mpr (.inl (hlast _ rfl hblank))
      · refine (hmem _ _).mpr (.inr (.inr ?_))
        rw [rdropWhile_eq_self.mpr (Bool.eq_false_iff.mpr hblank),String.ofList_toList]

/-! What a save stores. -/

/-- The references of the findings that a save reads, without repetitions. -/
def citedReferences (settings : Settings) (now : ℤ) (t : FindingTable) (c : Classification) :
    List Reference :=
  deduplicateReferences ((citedFindings settings now c.domain t).map fun row => findingReference row.asDict)

variable {settings : Settings} {now : ℤ} {c : Classification} {t : FindingTable}

theorem citedReferences_eq_nil_iff :
    citedReferences settings now t c = [] ↔ citedFindings settings now c.domain t = [] := by
  rw [citedReferences,deduplicateReferences]
  cases citedFindings settings now c.domain t with
  | nil => exact iff_of_true rfl rfl
  | cons row rows => simp [Firsts.firsts]

theorem length_citedReferences : (citedReferences settings now t c).length ≤ maxCitations := by
  have hrows : (citedFindings settings now c.domain t).length ≤ maxCitations := by
    simp only [citedFindings,researchFindingsGet,Bool.not_true,Bool.false_eq_true,if_false]
    exact List.length_take_le _ _
  have hfirsts := (@Firsts.firsts_sublist _ _ _ referenceKey []
    ((citedFindings settings now c.domain t).map fun row => findingReference row.asDict)).length_le
  rw [List.length_map] at hfirsts
  exact hfirsts.trans hrows

theorem oneLine_citedReferences :
    ∀ r ∈ citedReferences settings now t c, OneLine r.label ∧ OneLine r.url := by
  intro r hr
  obtain ⟨row,-,rfl⟩ := List.mem_map.mp ((Firsts.firsts_sublist _ _).subset hr)
  exact oneLine_findingReference _

theorem attach_single {dossier : Fields}
    (hkey : normalizeDomain ((field dossier "domain").textOr "") = normalizeDomain c.domain)
    (hdomain : normalizeDomain c.domain ≠ "") : attachEvidenceCitations [c] [dossier] [] =
      [withCitationSection c ((deduplicateReferences (dossierReferences dossier)).take maxCitations)] := by
  have hdossier : dossierByDomain [dossier] = OrderedDict.ofItems [(normalizeDomain c.domain,dossier)] := by
    simp [dossierByDomain,hkey,hdomain]
  have hfound : ((dossierByDomain [dossier]).get? (normalizeDomain c.domain)).getD [] = dossier := by
    rw [hdossier,OrderedDict.get?_ofItems]
    simp
  simp only [attachEvidenceCitations,List.map_singleton,attachOne,hfound]
  simp [providerReferences]

theorem dossierReferences_saved (domain : String) (rows : List FindingRow) :
    dossierReferences (savedDossier domain rows) = rows.map fun row => findingReference row.asDict := by
  change (rows.map fun row => Value.dict row.asDict).filterMap _ = _
  rw [List.filterMap_map]
  exact congrFun (List.filterMap_eq_map (f := fun row : FindingRow => findingReference row.asDict)) rows

omit [LetterTables] in
theorem domain_saved (domain : String) (rows : List FindingRow) :
    (field (savedDossier domain rows) "domain").textOr "" = domain := by
  change (Value.str domain).textOr "" = domain
  rw [Value.textOr_str]
  split
  · exact Eq.symm ‹_›
  · rfl

theorem withSavedEvidenceCitations_eq (hdomain : normalizeDomain c.domain ≠ "") :
    withSavedEvidenceCitations settings now t c =
      if citedFindings settings now c.domain t = [] then c
      else withCitationSection c (citedReferences settings now t c) := by
  have htake : (deduplicateReferences ((citedFindings settings now c.domain t).map fun row =>
      findingReference row.asDict)).take maxCitations = citedReferences settings now t c :=
    List.take_of_length_le length_citedReferences
  simp only [withSavedEvidenceCitations]
  rw [attach_single (congrArg normalizeDomain (domain_saved _ _)) hdomain,dossierReferences_saved,htake,
    List.headD_cons]

/-- Citations of stored findings that were attached are not attached again. -/
theorem withSaved_withSaved (hdomain : normalizeDomain c.domain ≠ "") :
    withSavedEvidenceCitations settings now t (withSavedEvidenceCitations settings now t c) =
      withSavedEvidenceCitations settings now t c := by
  rw [withSavedEvidenceCitations_eq hdomain]
  split
  · rename_i hnone
    rw [withSavedEvidenceCitations_eq hdomain,if_pos hnone]
  · rename_i hsome
    rw [withSavedEvidenceCitations_eq (by rwa [withCitationSection_domain]),withCitationSection_domain,
      if_neg hsome]
    exact withCitationSection_of_contains (contains_withCitationSection _ _) _

theorem withSaved_domain : (withSavedEvidenceCitations settings now t c).domain = c.domain := by
  simp only [withSavedEvidenceCitations]
  split
  · rfl
  · rw [attachEvidenceCitations,List.map_singleton,List.headD_cons,attachOne]
    exact withCitationSection_domain _ _

variable {info : Review.RunInfo} {s s' : Store}

omit [ValueTexts] in
/-- A save of a run that succeeds has written its row, and the current one if the run is current. -/
theorem saved_run {base base' : Review.Store}
    (h : Review.saveClassificationRun now c info base = .ok () base') :
    normalizeDomain c.domain ≠ "" ∧ (info.updateCurrent = true →
      base'.review.lookup (normalizeDomain c.domain) = some (Review.currentRow now c info)) := by
  simp only [Review.saveClassificationRun,Review.ensured,Queue.ensureDomain] at h
  by_cases hdomain : normalizeDomain c.domain = ""
  · simp [hdomain] at h
  · simp only [hdomain,if_false] at h
    refine ⟨hdomain,fun hcurrent => ?_⟩
    simp only [hcurrent,if_true,EStateM.Result.ok.injEq,true_and] at h
    rw [← h]
    exact AList.lookup_insert _

/-- The details that a save writes. -/
theorem saved_details (h : reviewSaveClassification settings now c info s = .ok () s') :
    normalizeDomain c.domain ≠ "" ∧
      s'.runDetails = s.runDetails++[(withSavedEvidenceCitations settings now s.findings c).details] ∧
        (info.updateCurrent = true → ∃ row, s'.base.review.lookup (normalizeDomain c.domain) = some row ∧
          row.details = strip (withSavedEvidenceCitations settings now s.findings c).details) := by
  rw [reviewSaveClassification] at h
  split at h
  · rename_i base hsave
    obtain ⟨hannotated,hcurrent⟩ := saved_run hsave
    rw [withSaved_domain] at hannotated hcurrent
    cases h
    exact ⟨hannotated,rfl,fun hupdate => ⟨_,hcurrent hupdate,rfl⟩⟩
  · cases h

/-- The lines of the citations of the findings that a save reads. -/
def citedLines (settings : Settings) (now : ℤ) (t : FindingTable) (c : Classification) : List String :=
  citationLines (citedReferences settings now t c)

/-- The stored details have a line for each citation, and what was attached is not attached again. -/
structure CitationsKept (settings : Settings) (now : ℤ) (c : Classification) (info : Review.RunInfo)
    (s s' : Store) : Prop where
  run : ∃ details, s'.runDetails = s.runDetails++[details] ∧
    ∀ line ∈ citedLines settings now s.findings c, line ∈ textLines details
  current : info.updateCurrent = true → ∃ row, s'.base.review.lookup (normalizeDomain c.domain) = some row ∧
    ∀ line ∈ citedLines settings now s.findings c, line ∈ textLines row.details
  stable : withSavedEvidenceCitations settings now s.findings
    (withSavedEvidenceCitations settings now s.findings c) =
      withSavedEvidenceCitations settings now s.findings c
  attached : ∀ classifications dossiers providerCitations,
    attachEvidenceCitations (attachEvidenceCitations classifications dossiers providerCitations) dossiers
      providerCitations = attachEvidenceCitations classifications dossiers providerCitations

theorem citedLines_annotated_iff (hdomain : normalizeDomain c.domain ≠ "") (current : Bool) :
    (∀ line ∈ citedLines settings now t c,
      line ∈ textLines (withSavedEvidenceCitations settings now t c).details ∧ (current = true →
        line ∈ textLines (strip (withSavedEvidenceCitations settings now t c).details))) ↔
      Unsuppressed current c.details (citedLines settings now t c) := by
  rw [Unsuppressed,withSavedEvidenceCitations_eq hdomain]
  by_cases hheader : contains (strip c.details) citationHeader = true
  · rw [if_pos hheader,withCitationSection_of_contains hheader,ite_self]
  rw [if_neg hheader]
  by_cases hnone : citedFindings settings now c.domain t = []
  · have hlines : citedLines settings now t c = [] := by
      rw [citedLines,citedReferences_eq_nil_iff.mpr hnone]
      rfl
    rw [hlines]
    exact iff_of_true (fun _ h => absurd h List.not_mem_nil) fun _ h => by cases h
  have hne : citedReferences settings now t c ≠ [] := fun h => hnone (citedReferences_eq_nil_iff.mp h)
  have hstripped : strip (withCitationSection c (citedReferences settings now t c)).details =
      (withCitationSection c (citedReferences settings now t c)).details := by
    rw [withCitationSection,if_neg hheader,if_pos hne,strip_strip]
  rw [if_neg hnone,hstripped]
  refine Iff.trans ?_ (lines_of_section hne oneLine_citedReferences (Bool.eq_false_iff.mpr hheader))
  exact ⟨fun h line hline => (h line hline).1,fun h line hline => ⟨h line hline,fun _ => h line hline⟩⟩

/-- The citations are stored exactly if what the model wrote neither passes for their section nor
loses the end of the last one. -/
theorem citations_kept_iff (h : reviewSaveClassification settings now c info s = .ok () s') :
    CitationsKept settings now c info s s' ↔
      Unsuppressed info.updateCurrent c.details (citedLines settings now s.findings c) := by
  obtain ⟨hdomain,hrun,hcurrent⟩ := saved_details h
  rw [← citedLines_annotated_iff hdomain]
  constructor
  · rintro ⟨⟨details,hdetails,hlines⟩,hrow,-,-⟩ line hline
    rw [hrun] at hdetails
    have heq := List.singleton_inj.mp (List.append_cancel_left hdetails)
    refine ⟨heq ▸ hlines line hline,fun hupdate => ?_⟩
    obtain ⟨row,hlookup,hstored⟩ := hcurrent hupdate
    obtain ⟨row',hlookup',hshown⟩ := hrow hupdate
    rw [hlookup,Option.some_inj] at hlookup'
    exact hstored ▸ hlookup' ▸ hshown line hline
  · intro hall
    refine ⟨⟨_,hrun,fun line hline => (hall line hline).1⟩,fun hupdate => ?_,withSaved_withSaved hdomain,
      attach_attach⟩
    obtain ⟨row,hlookup,hstored⟩ := hcurrent hupdate
    exact ⟨row,hlookup,fun line hline => hstored ▸ (hall line hline).2 hupdate⟩

end Citations

/-! A finding that a model hides. -/

def registrationRow : FindingRow where
  id := 1
  domain := "example.com"
  provider := "RDAP registration data"
  kind := "registration"
  title := "Registered"
  summary := "Registered since 1995"
  sourceUrl := "https://rdap.org/domain/example.com"
  confidence := .finite 1
  signalType := "context"
  verdict := "unknown"
  decisionRelevant := false
  rawData := .empty
  retrievedAt := 1700000000
  expiresAt := 1700604800

def registeredStore : Store := ⟨.empty,FindingTable.empty.insert registrationRow,[]⟩

/-- A classification of a model with these details. -/
def described (details : String) : Classification where
  domain := "example.com"
  policy := .allow
  category := "unknown"
  short := "An example"
  details := details
  provider := "model"

theorem citations_kept_iff_described : ∃ s',
    reviewSaveClassification ⟨[],[]⟩ 1700000100 (described "A site.") ⟨"classified","","none",true,true⟩
      registeredStore = .ok () s' ∧
    (CitationsKept ⟨[],[]⟩ 1700000100 (described "A site.") ⟨"classified","","none",true,true⟩ registeredStore
      s' ↔ Unsuppressed true "A site." (citedLines ⟨[],[]⟩ 1700000100 registeredStore.findings
        (described "A site."))) :=
  ⟨_,rfl,citations_kept_iff rfl⟩

theorem citations_suppressed : ∃ s',
    reviewSaveClassification ⟨[],[]⟩ 1700000100 (described "Evidence citations: none.")
      ⟨"classified","","none",true,true⟩ registeredStore = .ok () s' ∧
    ¬CitationsKept ⟨[],[]⟩ 1700000100 (described "Evidence citations: none.")
      ⟨"classified","","none",true,true⟩ registeredStore s' := by
  refine ⟨_,rfl,fun h => ?_⟩
  obtain ⟨details,hdetails,hlines⟩ := h.run
  have hunchanged : details = "Evidence citations: none." := by
    have hrun : (withSavedEvidenceCitations ⟨[],[]⟩ 1700000100 registeredStore.findings
        (described "Evidence citations: none.")).details = "Evidence citations: none." := by decide
    exact (List.singleton_inj.mp hdetails).symm.trans hrun
  have hline := hlines "[E1] RDAP registration data — Registered — https://rdap.org/domain/example.com"
    (by decide)
  rw [hunchanged] at hline
  exact absurd hline (by decide)

end Evidence
end WormholeObservatory
