import WormholeObservatory.ListRuleNames
import WormholeObservatory.OrderedDict

/-! The domains of a list that is read line by line, up to a number of domains and of bytes. What
is read ends at the longest beginning of the list that keeps within both limits. -/
namespace WormholeObservatory
namespace Lists

open RuleParser

inductive Line
  | text (s : String)
  | bytes (b : List UInt8)

structure ListFetchResult where
  domains : List String
  truncated : Bool
  deriving DecidableEq

section Extraction

variable [CaseTables] [IdnaCodec] (decode : List UInt8 → String)

namespace Line

/-- `raw_line.decode("utf-8", errors="replace")`, or the text there is. -/
def read : Line → String
  | text s => s
  | bytes b => decode b

/-- The bytes of the line without its end. -/
def size : Line → ℕ
  | text s => s.utf8ByteSize
  | bytes b => b.length

end Line

/-- The loop over the lines. The domains it has are those it has seen. -/
def extractLoop (limit byteLimit : ℕ) : ℕ → List String → List Line → ListFetchResult
  | _,domains,[] => ⟨domains,false⟩
  | consumed,domains,line::lines =>
    let consumed := consumed+line.size+1
    if byteLimit < consumed then ⟨domains,true⟩
    else
      let domain := domainFromListRule (line.read decode)
      if domain = "" ∨ domain ∈ domains then extractLoop limit byteLimit consumed domains lines
      else if limit ≤ (domains++[domain]).length then ⟨domains++[domain],true⟩
      else extractLoop limit byteLimit consumed (domains++[domain]) lines

/-- `extract_domains_from_lines`. -/
def extractDomainsFromLines (lines : List Line) (maxDomains maxBytes : ℤ) : ListFetchResult :=
  extractLoop decode (max 1 maxDomains).toNat (max 1 maxBytes).toNat 0 [] lines

/-! The beginnings of a list. -/

omit [CaseTables] [IdnaCodec] in
/-- The bytes of some lines and one for the end of each. -/
def bytesOf (lines : List Line) : ℕ := (lines.map fun line => line.size+1).sum

/-- The domains of some lines, each where it occurs first. -/
def domainsOf (lines : List Line) : List String :=
  ((lines.map fun line => domainFromListRule (line.read decode)).filter (· ≠ "")).eraseDups

structure Admissible (limit byteLimit : ℕ) (lines : List Line) : Prop where
  bytes : bytesOf lines ≤ byteLimit
  domains : (domainsOf decode lines).length ≤ limit

/-- The longest beginning of the lines that keeps within the limits. -/
structure Longest (limit byteLimit : ℕ) (lines front : List Line) : Prop where
  begins : front <+: lines
  admissible : Admissible decode limit byteLimit front
  longest : ∀ other, other <+: lines → Admissible decode limit byteLimit other →
    other.length ≤ front.length

/-- What the reading of a list is to return. -/
def Extracted (limit byteLimit : ℕ) (lines : List Line) (result : ListFetchResult) : Prop :=
  ∃ front, Longest decode limit byteLimit lines front ∧
    result.domains = domainsOf decode front ∧ result.domains.length ≤ limit ∧
    (result.truncated = true ↔ (∃ d ∈ domainsOf decode lines, d ∉ result.domains) ∨
      ∃ line rest, lines = front++line::rest ∧ byteLimit < bytesOf (front++[line]))

omit [CaseTables] [IdnaCodec] in
theorem bytesOf_append (a b : List Line) : bytesOf (a++b) = bytesOf a+bytesOf b := by
  simp [bytesOf]

omit [CaseTables] [IdnaCodec] in
theorem bytesOf_snoc (front : List Line) (line : Line) :
    bytesOf (front++[line]) = bytesOf front+line.size+1 := by
  simp [bytesOf,Nat.add_assoc]

theorem mem_domainsOf {lines : List Line} {d : String} :
    d ∈ domainsOf decode lines ↔
      (∃ line ∈ lines, domainFromListRule (line.read decode) = d) ∧ d ≠ "" := by
  simp [domainsOf]

/-- The domains of a longer beginning come after those of a shorter one. -/
theorem domainsOf_append (a b : List Line) :
    domainsOf decode a <+: domainsOf decode (a++b) := by
  rw [domainsOf,domainsOf,List.map_append,List.filter_append,List.eraseDups_append]
  exact List.prefix_append _ _

theorem domainsOf_old {front : List Line} {line : Line}
    (h : domainFromListRule (line.read decode) = "" ∨
      domainFromListRule (line.read decode) ∈ domainsOf decode front) :
    domainsOf decode (front++[line]) = domainsOf decode front := by
  rw [domainsOf,List.map_append,List.filter_append]
  by_cases hempty : domainFromListRule (line.read decode) = ""
  · simp [hempty,domainsOf]
  · have hmem := h.resolve_left hempty
    rw [domainsOf,List.mem_eraseDups] at hmem
    rw [List.map_singleton,List.filter_cons_of_pos (by simpa using hempty),List.filter_nil,
      OrderedDict.eraseDups_concat,if_pos hmem,domainsOf]

theorem domainsOf_new {front : List Line} {line : Line}
    (hsome : domainFromListRule (line.read decode) ≠ "")
    (hnew : domainFromListRule (line.read decode) ∉ domainsOf decode front) :
    domainsOf decode (front++[line]) =
      domainsOf decode front++[domainFromListRule (line.read decode)] := by
  rw [domainsOf,List.mem_eraseDups] at hnew
  rw [domainsOf,List.map_append,List.filter_append,List.map_singleton,
    List.filter_cons_of_pos (by simpa using hsome),List.filter_nil,OrderedDict.eraseDups_concat,
    if_neg hnew,domainsOf]

/-! The loop. -/

/-- Where the loop ends: at the end of the lines, before a line that is too long, or after the last
domain it may return. -/
inductive Ended (limit byteLimit : ℕ) (lines : List Line) : ListFetchResult → Prop
  | exhausted (hbytes : bytesOf lines ≤ byteLimit) (hroom : (domainsOf decode lines).length < limit) :
      Ended limit byteLimit lines ⟨domainsOf decode lines,false⟩
  | tooLong (front : List Line) (line : Line) (rest : List Line) (hlines : lines = front++line::rest)
      (hbytes : bytesOf front ≤ byteLimit) (hroom : (domainsOf decode front).length < limit)
      (hlong : byteLimit < bytesOf (front++[line])) :
      Ended limit byteLimit lines ⟨domainsOf decode front,true⟩
  | full (front rest : List Line) (hlines : lines = front++rest) (hbytes : bytesOf front ≤ byteLimit)
      (hfull : (domainsOf decode front).length = limit) :
      Ended limit byteLimit lines ⟨domainsOf decode front,true⟩

theorem extractLoop_ended {limit byteLimit : ℕ} (front rest : List Line)
    (hbytes : bytesOf front ≤ byteLimit) (hroom : (domainsOf decode front).length < limit) :
    Ended decode limit byteLimit (front++rest)
      (extractLoop decode limit byteLimit (bytesOf front) (domainsOf decode front) rest) := by
  induction rest generalizing front with
  | nil =>
    rw [List.append_nil]
    exact .exhausted hbytes hroom
  | cons line rest ih =>
    have hsnoc := bytesOf_snoc front line
    rw [extractLoop]
    simp only
    split
    · rename_i hlong
      exact .tooLong front line rest rfl hbytes hroom (by rw [hsnoc]; exact hlong)
    rename_i hfits
    have hlines : front++line::rest = (front++[line])++rest := by simp
    rw [hlines]
    split
    · rename_i hold
      have hsame := domainsOf_old decode hold
      have hnext := ih (front++[line]) (by omega) (by rw [hsame]; exact hroom)
      rw [hsnoc,hsame] at hnext
      exact hnext
    rename_i hnew
    obtain ⟨hsome,hnew⟩ := not_or.mp hnew
    have hmore := domainsOf_new decode hsome hnew
    split
    · rename_i hfull
      rw [← hmore] at hfull ⊢
      refine .full (front++[line]) rest rfl (by omega) ?_
      have hlength := congrArg List.length hmore
      simp only [List.length_append,List.length_singleton] at hlength
      omega
    · rename_i hmissing
      have hnext := ih (front++[line]) (by omega) (by rw [hmore]; omega)
      rw [hsnoc,hmore] at hnext
      exact hnext

/-! What is returned. -/

omit [CaseTables] [IdnaCodec] in
theorem bytesOf_mono {a b : List Line} (h : a <+: b) : bytesOf a ≤ bytesOf b := by
  obtain ⟨rest,rfl⟩ := h
  rw [bytesOf_append]
  exact Nat.le_add_right _ _

theorem domainsOf_mono {a b : List Line} (h : a <+: b) : domainsOf decode a <+: domainsOf decode b := by
  obtain ⟨rest,rfl⟩ := h
  exact domainsOf_append decode a rest

variable {decode}

theorem Admissible.mono {limit byteLimit : ℕ} {a b : List Line} (hb : Admissible decode limit byteLimit b)
    (h : a <+: b) : Admissible decode limit byteLimit a :=
  ⟨(bytesOf_mono h).trans hb.bytes,(domainsOf_mono decode h).length_le.trans hb.domains⟩

/-- A beginning is the longest one when the next line breaks a limit. -/
theorem Longest.of_next {limit byteLimit : ℕ} {front rest : List Line} {line : Line}
    (hfront : Admissible decode limit byteLimit front)
    (hnext : ¬Admissible decode limit byteLimit (front++[line])) :
    Longest decode limit byteLimit (front++line::rest) front := by
  refine ⟨List.prefix_append _ _,hfront,fun other hother hadmissible => ?_⟩
  by_contra hlonger
  have hinside : front++[line] <+: front++line::rest := ⟨rest,by simp⟩
  refine hnext (hadmissible.mono (List.prefix_of_prefix_length_le hinside hother ?_))
  rw [List.length_append,List.length_singleton]
  omega

theorem Longest.of_all {limit byteLimit : ℕ} {lines : List Line}
    (h : Admissible decode limit byteLimit lines) : Longest decode limit byteLimit lines lines :=
  ⟨List.prefix_rfl,h,fun _ hother _ => hother.length_le⟩

/-- An admissible beginning goes on to a longest one. -/
theorem exists_longest {limit byteLimit : ℕ} (front rest : List Line)
    (h : Admissible decode limit byteLimit front) :
    ∃ more, more <+: rest ∧ Longest decode limit byteLimit (front++rest) (front++more) := by
  induction rest generalizing front with
  | nil => exact ⟨[],List.prefix_rfl,Longest.of_all (by simpa using h)⟩
  | cons line rest ih =>
    by_cases hnext : Admissible decode limit byteLimit (front++[line])
    · obtain ⟨more,hmore,hlongest⟩ := ih _ hnext
      refine ⟨line::more,(List.prefix_cons_inj _).mpr hmore,?_⟩
      simpa using hlongest
    · exact ⟨[],List.nil_prefix,by simpa using Longest.of_next h hnext⟩

theorem Ended.extracted_iff {limit byteLimit : ℕ} {lines : List Line} {result : ListFetchResult}
    (h : Ended decode limit byteLimit lines result) :
    Extracted decode limit byteLimit lines result ↔
      ¬(bytesOf lines ≤ byteLimit ∧ (domainsOf decode lines).length = limit) := by
  cases h with
  | exhausted hbytes hroom =>
    refine iff_of_true ⟨lines,Longest.of_all ⟨hbytes,hroom.le⟩,rfl,hroom.le,?_⟩ fun hfull => ?_
    · refine iff_of_false Bool.false_ne_true ?_
      rintro (⟨d,hd,hmissing⟩ | ⟨line,rest,hlines,-⟩)
      · exact hmissing hd
      · have hlength := congrArg List.length hlines
        simp at hlength
    · omega
  | tooLong front line rest hlines hbytes hroom hlong =>
    subst hlines
    have hnext : ¬Admissible decode limit byteLimit (front++[line]) := fun h => by
      have := h.bytes
      omega
    refine iff_of_true ⟨front,Longest.of_next ⟨hbytes,hroom.le⟩ hnext,rfl,hroom.le,?_⟩ fun hfull => ?_
    · exact iff_of_true rfl (Or.inr ⟨line,rest,rfl,hlong⟩)
    · have hmore : bytesOf (front++[line]) ≤ bytesOf (front++line::rest) :=
        bytesOf_mono ⟨rest,by simp⟩
      omega
  | full front rest hlines hbytes hfull =>
    subst hlines
    obtain ⟨more,hmore,hlongest⟩ := exists_longest front rest ⟨hbytes,hfull.le⟩
    have hsame : domainsOf decode (front++more) = domainsOf decode front :=
      ((domainsOf_append decode front more).eq_of_length_le
        (hlongest.admissible.domains.trans hfull.ge)).symm
    constructor
    · rintro ⟨other,hother,hdomains,-,htruncated⟩ ⟨hall,hcount⟩
      have hwhole : other = front++rest :=
        hother.begins.eq_of_length_le (hother.longest _ List.prefix_rfl ⟨hall,hcount.le⟩)
      rcases htruncated.mp rfl with ⟨d,hd,hmissing⟩ | ⟨line,more,hlines,-⟩
      · rw [hdomains,hwhole] at hmissing
        exact hmissing hd
      · rw [hwhole] at hlines
        have hlength := congrArg List.length hlines
        simp at hlength
    · intro hpartial
      refine ⟨front++more,hlongest,hsame.symm,hfull.le,iff_of_true rfl ?_⟩
      obtain ⟨tail,rfl⟩ := hmore
      cases tail with
      | nil =>
        rw [List.append_nil] at hpartial
        exact absurd ⟨hlongest.admissible.bytes,by rw [hsame,hfull]⟩ hpartial
      | cons line tail =>
        by_cases hlong : byteLimit < bytesOf (front++more++[line])
        · exact Or.inr ⟨line,tail,by simp,hlong⟩
        left
        -- within the bytes, so the next line has a domain beyond the limit
        set d := domainFromListRule (line.read decode)
        have hnew : ¬(d = "" ∨ d ∈ domainsOf decode (front++more)) := by
          intro hold
          have hnext := domainsOf_old decode hold
          have hinside : front++more++[line] <+: front++(more++line::tail) := ⟨tail,by simp⟩
          have hlength := hlongest.longest _ hinside
            ⟨not_lt.mp hlong,by rw [hnext]; exact hlongest.admissible.domains⟩
          simp at hlength
        obtain ⟨hsome,hnew⟩ := not_or.mp hnew
        refine ⟨d,?_,by rw [← hsame]; exact hnew⟩
        exact (mem_domainsOf decode).mpr ⟨⟨line,by simp,rfl⟩,hsome⟩

/-- A list is said to be cut short exactly when it is, unless it has as many domains as may be
returned and all of its lines fit. -/
theorem extraction_exact_iff {maxDomains maxBytes : ℤ} (hdomains : 1 ≤ maxDomains)
    (hbytes : 1 ≤ maxBytes) (lines : List Line) :
    Extracted decode maxDomains.toNat maxBytes.toNat lines
        (extractDomainsFromLines decode lines maxDomains maxBytes) ↔
      ¬((bytesOf lines : ℤ) ≤ maxBytes ∧ ((domainsOf decode lines).length : ℤ) = maxDomains) := by
  have hroom : (domainsOf decode []).length < maxDomains.toNat := by
    have hnil : domainsOf decode [] = [] := rfl
    rw [hnil,List.length_nil]
    omega
  have hended : Ended decode maxDomains.toNat maxBytes.toNat lines
      (extractLoop decode maxDomains.toNat maxBytes.toNat 0 [] lines) :=
    extractLoop_ended decode [] lines (Nat.zero_le _) hroom
  rw [extractDomainsFromLines,max_eq_right hdomains,max_eq_right hbytes]
  refine hended.extracted_iff.trans (not_congr (and_congr ?_ ?_))
  · exact Int.le_toNat (by omega)
  · have hlimit : (maxDomains.toNat : ℤ) = maxDomains := Int.toNat_of_nonneg (by omega)
    constructor <;> intro h <;> omega

end Extraction

theorem extraction_exact_iff_cut :
    Extracted (fun _ => "") 1 100 [.text "a.com",.text "b.com"]
      (extractDomainsFromLines (fun _ => "") [.text "a.com",.text "b.com"] 1 100) :=
  (@extraction_exact_iff _ _ (fun _ => "") 1 100 (by decide) (by decide)
    [.text "a.com",.text "b.com"]).mpr (by decide)

/-- A list with one domain, of which one may be returned, is said to be cut short. -/
theorem whole_list_truncated :
    extractDomainsFromLines (fun _ => "") [.text "a.com"] 1 100 = ⟨["a.com"],true⟩ ∧
      ¬Extracted (fun _ => "") 1 100 [.text "a.com"]
        (extractDomainsFromLines (fun _ => "") [.text "a.com"] 1 100) := by
  have hrun : extractDomainsFromLines (fun _ => "") [.text "a.com"] 1 100 = ⟨["a.com"],true⟩ := by
    decide
  refine ⟨hrun,fun hextracted => ?_⟩
  obtain ⟨front,hlongest,hdomains,-,htruncated⟩ := hextracted
  rw [hrun] at hdomains htruncated
  have hall : Admissible (fun _ => "") 1 100 [Line.text "a.com"] := ⟨by decide,by decide⟩
  have hfront : front = [Line.text "a.com"] :=
    hlongest.begins.eq_of_length_le (hlongest.longest _ List.prefix_rfl hall)
  rcases htruncated.mp rfl with ⟨d,hd,hmissing⟩ | ⟨line,rest,hlines,-⟩
  · rw [hfront] at hdomains
    exact hmissing (hdomains ▸ hd)
  · rw [hfront] at hlines
    have hlength := congrArg List.length hlines
    simp at hlength

end Lists
end WormholeObservatory
