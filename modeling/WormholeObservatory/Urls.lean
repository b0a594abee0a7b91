import Mathlib.Data.List.DropRight
import Mathlib.Tactic

/-! Splitting a URL and putting it together again, as `urllib.parse` does both. What is asked of a
host that stands in brackets or has letters outside ASCII stays a parameter. -/
namespace Urls

/-- Whether a host that is not plain is one. -/
class NetlocTables where
  accepts : List Char → Bool

/-- The table that takes no such host. -/
instance plainNetlocs : NetlocTables where
  accepts _ := false

structure SplitResult where
  scheme : List Char
  netloc : List Char
  path : List Char
  query : List Char
  fragment : List Char
  deriving DecidableEq

def isControlOrSpace (c : Char) : Bool := decide (c.toNat ≤ 32)

/-- The characters that are taken out of a URL. -/
def isUnsafe (c : Char) : Bool := c == '\t' || c == '\r' || c == '\n'

def isSchemeChar (c : Char) : Bool := c.isAlphanum || c == '+' || c == '-' || c == '.'

def endsNetloc (c : Char) : Bool := c == '/' || c == '?' || c == '#'

/-- `url.split(c, 1)`, without a second part if `c` is not there. -/
def cut (c : Char) (url : List Char) : List Char × List Char :=
  (url.takeWhile (· != c),(url.dropWhile (· != c)).drop 1)

def isScheme : List Char → Bool
  | [] => false
  | c::cs => c.isAlpha && cs.all isSchemeChar

def splitScheme (url : List Char) : List Char × List Char :=
  if ':' ∈ url ∧ isScheme (cut ':' url).1 = true then ((cut ':' url).1.map Char.toLower,(cut ':' url).2)
  else ([],url)

def splitNetloc : List Char → List Char × List Char
  | '/' :: '/' :: url => (url.takeWhile (!endsNetloc ·),url.dropWhile (!endsNetloc ·))
  | url => ([],url)

section Hosts

variable [NetlocTables]

/-- Whether `urlsplit` raises no `ValueError` on account of the host. -/
def accepted (netloc : List Char) : Bool :=
  if netloc.all fun c => c.toNat < 128 && c != '[' && c != ']' then true
  else NetlocTables.accepts netloc

/-- `urlsplit`. -/
def urlsplit (url : List Char) : Option SplitResult :=
  let url := (url.dropWhile isControlOrSpace).filter (!isUnsafe ·)
  let (scheme,url) := splitScheme url
  let (netloc,url) := splitNetloc url
  if accepted netloc then
    let (url,fragment) := cut '#' url
    let (path,query) := cut '?' url
    some ⟨scheme,netloc,path,query,fragment⟩
  else none

end Hosts

/-- `urlunsplit`, if there is a scheme and a host. -/
def urlunsplit (parts : SplitResult) : List Char :=
  let path := if parts.path ≠ [] ∧ parts.path.head? ≠ some '/' then '/'::parts.path else parts.path
  parts.scheme++[':','/','/']++parts.netloc++path++
    (if parts.query = [] then [] else '?'::parts.query)++
    (if parts.fragment = [] then [] else '#'::parts.fragment)

/-- The part of a host after the credentials. -/
def hostinfo (netloc : List Char) : List Char := netloc.rtakeWhile (· != '@')

/-- `hostname`, but for the case of its letters. -/
def hostname (netloc : List Char) : List Char :=
  match (hostinfo netloc).dropWhile (· != '[') with
  | '['::bracketed => bracketed.takeWhile (· != ']')
  | _ => (hostinfo netloc).takeWhile (· != ':')

/-- The parts of an absolute URL that can be told apart again. -/
structure SplitResult.Absolute [NetlocTables] (parts : SplitResult) : Prop where
  scheme : isScheme parts.scheme = true
  lower : parts.scheme.map Char.toLower = parts.scheme
  host : parts.netloc ≠ []
  accepted : accepted parts.netloc = true
  netloc : ∀ c ∈ parts.netloc, endsNetloc c = false
  rooted : parts.path = [] ∨ parts.path.head? = some '/'
  path : ∀ c ∈ parts.path, c ≠ '?' ∧ c ≠ '#'
  query : ∀ c ∈ parts.query, c ≠ '#'
  clean : ∀ c ∈ parts.netloc++parts.path++parts.query++parts.fragment, isUnsafe c = false

/-! Cutting. -/

theorem takeWhile_append_cons {α : Type*} {p : α → Bool} {l : List α} {a : α} {rest : List α}
    (hl : ∀ b ∈ l, p b = true) (ha : p a = false) : (l++a::rest).takeWhile p = l := by
  rw [List.takeWhile_append_of_pos hl,List.takeWhile_cons_of_neg (by simp [ha]),List.append_nil]

theorem dropWhile_append_cons {α : Type*} {p : α → Bool} {l : List α} {a : α} {rest : List α}
    (hl : ∀ b ∈ l, p b = true) (ha : p a = false) : (l++a::rest).dropWhile p = a::rest := by
  rw [List.dropWhile_append_of_pos hl,List.dropWhile_cons_of_neg (by simp [ha])]

theorem cut_cons {c : Char} {l rest : List Char} (h : ∀ b ∈ l, b ≠ c) : cut c (l++c::rest) = (l,rest) := by
  have hl : ∀ b ∈ l, (b != c) = true := fun b hb => by simpa using h b hb
  rw [cut,takeWhile_append_cons hl (by simp),dropWhile_append_cons hl (by simp)]
  rfl

theorem cut_none {c : Char} {l : List Char} (h : ∀ b ∈ l, b ≠ c) : cut c l = (l,[]) := by
  have hl : ∀ b ∈ l, (b != c) = true := fun b hb => by simpa using h b hb
  rw [cut,List.takeWhile_eq_self_iff.mpr hl,List.dropWhile_eq_nil_iff.mpr hl]
  rfl

/-- What stands after a mark that is there only before a text. -/
theorem cut_optional {c : Char} {l rest : List Char} (h : ∀ b ∈ l, b ≠ c) :
    cut c (l++if rest = [] then [] else c::rest) = (l,rest) := by
  split
  · rename_i hrest
    rw [List.append_nil,cut_none h,hrest]
  · exact cut_cons h

theorem mem_cut_fst {c b : Char} {url : List Char} (h : b ∈ (cut c url).1) : b ∈ url ∧ b ≠ c := by
  refine ⟨( List.takeWhile_prefix _).subset h,?_⟩
  simpa using List.mem_takeWhile_imp h

theorem mem_cut_snd {c b : Char} {url : List Char} (h : b ∈ (cut c url).2) : b ∈ url :=
  (List.dropWhile_suffix _).subset (List.mem_of_mem_drop h)

/-! Letters of a scheme. -/

theorem not_control_of_isAlpha {c : Char} (h : c.isAlpha = true) : isControlOrSpace c = false := by
  have hlow : 65 ≤ c.toNat := by
    delta Char.isAlpha Char.isUpper Char.isLower at h
    simp only [Bool.or_eq_true,Bool.and_eq_true,decide_eq_true_eq] at h
    rcases h with h | h
    · exact h.1
    · exact le_trans (by decide) (show 97 ≤ c.toNat from h.1)
  simp only [isControlOrSpace,decide_eq_false_iff_not]
  omega

theorem isSchemeChar_ne {c d : Char} (h : isSchemeChar c = true) (hd : isSchemeChar d = false) :
    c ≠ d := by
  rintro rfl
  rw [h] at hd
  cases hd

theorem not_unsafe_of_isSchemeChar {c : Char} (h : isSchemeChar c = true) : isUnsafe c = false := by
  simp only [isUnsafe,Bool.or_eq_false_iff,beq_eq_false_iff_ne]
  exact ⟨⟨isSchemeChar_ne h (by decide),isSchemeChar_ne h (by decide)⟩,isSchemeChar_ne h (by decide)⟩

theorem isScheme_chars {scheme : List Char} (h : isScheme scheme = true) :
    ∀ c ∈ scheme, isSchemeChar c = true := by
  cases scheme with
  | nil => simp
  | cons c cs =>
    simp only [isScheme,Bool.and_eq_true,List.all_eq_true] at h
    intro d hd
    rcases List.mem_cons.mp hd with rfl | hd
    · simp [isSchemeChar,Char.isAlphanum,h.1]
    · exact h.2 d hd

/-! Together and apart. -/

section Hosts

variable [NetlocTables]

/-- What comes after the scheme. -/
def SplitResult.tail (parts : SplitResult) : List Char :=
  parts.path++(if parts.query = [] then [] else '?'::parts.query)++
    (if parts.fragment = [] then [] else '#'::parts.fragment)

omit [NetlocTables] in
theorem splitNetloc_append {netloc tail : List Char} (hnetloc : ∀ c ∈ netloc, endsNetloc c = false)
    (htail : tail = [] ∨ ∃ c cs, tail = c::cs ∧ endsNetloc c = true) :
    splitNetloc ('/' :: '/' :: (netloc++tail)) = (netloc,tail) := by
  have hall : ∀ c ∈ netloc, (!endsNetloc c) = true := fun c hc => by simp [hnetloc c hc]
  rw [splitNetloc]
  rcases htail with rfl | ⟨c,cs,rfl,hc⟩
  · rw [List.append_nil,List.takeWhile_eq_self_iff.mpr hall,List.dropWhile_eq_nil_iff.mpr hall]
  · have hend : (!endsNetloc c) = false := by simp [hc]
    rw [takeWhile_append_cons hall hend,dropWhile_append_cons hall hend]

variable {parts : SplitResult}

theorem SplitResult.Absolute.tail_cases (h : parts.Absolute) :
    parts.tail = [] ∨ ∃ c cs, parts.tail = c::cs ∧ endsNetloc c = true := by
  obtain ⟨scheme,netloc,path,query,fragment⟩ := parts
  cases path with
  | cons c path =>
    have hslash : c = '/' := by simpa using h.rooted.resolve_left (by simp)
    subst hslash
    exact .inr ⟨_,_,rfl,rfl⟩
  | nil =>
    cases query with
    | cons c query => exact .inr ⟨'?',_,rfl,rfl⟩
    | nil =>
      cases fragment with
      | cons c fragment => exact .inr ⟨'#',_,rfl,rfl⟩
      | nil => exact .inl rfl

theorem SplitResult.Absolute.urlunsplit_eq (h : parts.Absolute) :
    urlunsplit parts = parts.scheme++ ':' :: '/' :: '/' :: (parts.netloc++parts.tail) := by
  have hrooted : ¬(parts.path ≠ [] ∧ parts.path.head? ≠ some '/') := by
    rintro ⟨hne,hhead⟩
    exact h.rooted.elim hne hhead
  simp [urlunsplit,if_neg hrooted,SplitResult.tail]

/-- Nothing of an absolute URL is taken out. -/
theorem SplitResult.Absolute.clean_eq (h : parts.Absolute) :
    ((urlunsplit parts).dropWhile isControlOrSpace).filter (!isUnsafe ·) = urlunsplit parts := by
  have hchars : ∀ c ∈ urlunsplit parts, isUnsafe c = false := by
    intro c hc
    rw [h.urlunsplit_eq] at hc
    simp only [List.mem_append,List.mem_cons] at hc
    rcases hc with hc | rfl | rfl | rfl | hc | hc
    · exact not_unsafe_of_isSchemeChar (isScheme_chars h.scheme c hc)
    · rfl
    · rfl
    · rfl
    · exact h.clean c (by simp [hc])
    · simp only [SplitResult.tail,List.mem_append] at hc
      rcases hc with (hc | hc) | hc
      · exact h.clean c (by simp [hc])
      · split at hc
        · cases hc
        · rcases List.mem_cons.mp hc with rfl | hc
          · rfl
          · exact h.clean c (by simp [hc])
      · split at hc
        · cases hc
        · rcases List.mem_cons.mp hc with rfl | hc
          · rfl
          · exact h.clean c (by simp [hc])
  have hhead : (urlunsplit parts).dropWhile isControlOrSpace = urlunsplit parts := by
    rw [h.urlunsplit_eq]
    have hscheme := h.scheme
    cases hlead : parts.scheme with
    | nil =>
      rw [hlead] at hscheme
      cases hscheme
    | cons c cs =>
      rw [hlead,isScheme,Bool.and_eq_true] at hscheme
      rw [List.cons_append,List.dropWhile_cons_of_neg (by simp [not_control_of_isAlpha hscheme.1])]
  rw [hhead]
  refine List.filter_eq_self.mpr ?_
  intro c hc
  simp [hchars c hc]

/-- The parts of an absolute URL are told apart again. -/
theorem urlsplit_urlunsplit (h : parts.Absolute) : urlsplit (urlunsplit parts) = some parts := by
  have hcolon : ∀ c ∈ parts.scheme, c ≠ ':' := fun c hc =>
    isSchemeChar_ne (isScheme_chars h.scheme c hc) (by decide)
  have hscheme : splitScheme (urlunsplit parts) =
      (parts.scheme,'/' :: '/' :: (parts.netloc++parts.tail)) := by
    rw [h.urlunsplit_eq,splitScheme,cut_cons hcolon,if_pos ⟨by simp,h.scheme⟩,h.lower]
  have hfragment : cut '#' parts.tail =
      (parts.path++(if parts.query = [] then [] else '?'::parts.query),parts.fragment) := by
    refine cut_optional fun c hc => ?_
    rcases List.mem_append.mp hc with hc | hc
    · exact (h.path c hc).2
    · split at hc
      · cases hc
      · rcases List.mem_cons.mp hc with rfl | hc
        · decide
        · exact h.query c hc
  have hquery : cut '?' (parts.path++(if parts.query = [] then [] else '?'::parts.query)) =
      (parts.path,parts.query) := cut_optional fun c hc => (h.path c hc).1
  simp only [urlsplit,h.clean_eq,hscheme,splitNetloc_append h.netloc h.tail_cases,h.accepted,if_true,
    hfragment,hquery]

omit [NetlocTables] in
theorem toLower_of_isSchemeChar {c : Char} (h : isSchemeChar c = true) :
    isSchemeChar c.toLower = true ∧ c.toLower.toLower = c.toLower ∧
      (c.isAlpha = true → c.toLower.isAlpha = true) := by
  have hascii : c.toNat < 128 := by
    rw [isSchemeChar] at h
    delta Char.isAlphanum Char.isAlpha Char.isUpper Char.isLower Char.isDigit at h
    simp only [Bool.or_eq_true,Bool.and_eq_true,decide_eq_true_eq,beq_iff_eq] at h
    rcases h with (((h | h) | rfl) | rfl) | rfl
    · rcases h with h | h
      · exact lt_of_le_of_lt (show c.toNat ≤ 90 from h.2) (by decide)
      · exact lt_of_le_of_lt (show c.toNat ≤ 122 from h.2) (by decide)
    · exact lt_of_le_of_lt (show c.toNat ≤ 57 from h.2) (by decide)
    all_goals decide
  have hall : ∀ n < 128, isSchemeChar (Char.ofNat n) = true →
      isSchemeChar (Char.ofNat n).toLower = true ∧
      (Char.ofNat n).toLower.toLower = (Char.ofNat n).toLower ∧
      ((Char.ofNat n).isAlpha = true → (Char.ofNat n).toLower.isAlpha = true) := by decide +kernel
  have hc := hall c.toNat hascii
  rw [Char.ofNat_toNat] at hc
  exact hc h

omit [NetlocTables] in
/-- The scheme of a split is in lower case, and its letters are taken from the URL. -/
theorem splitScheme_scheme {url : List Char} (h : (splitScheme url).1 ≠ []) :
    isScheme (splitScheme url).1 = true ∧
      (splitScheme url).1.map Char.toLower = (splitScheme url).1 := by
  rw [splitScheme] at h ⊢
  split at h
  · rename_i hscheme
    rw [if_pos hscheme]
    have hchars := isScheme_chars hscheme.2
    cases hlead : (cut ':' url).1 with
    | nil => simp [hlead] at h
    | cons c cs =>
      have hfirst := hscheme.2
      rw [hlead] at hchars hfirst
      simp only [isScheme,Bool.and_eq_true] at hfirst
      have hlower := fun d hd => toLower_of_isSchemeChar (hchars d hd)
      refine ⟨?_,?_⟩
      · simp only [List.map_cons,isScheme,Bool.and_eq_true,List.all_eq_true,List.mem_map]
        refine ⟨(hlower c (by simp)).2.2 hfirst.1,?_⟩
        rintro _ ⟨d,hd,rfl⟩
        exact (hlower d (by simp [hd])).1
      · rw [List.map_map]
        refine List.map_congr_left fun d hd => ?_
        exact (hlower d hd).2.1
  · exact absurd rfl h

omit [NetlocTables] in
theorem splitScheme_subset {url : List Char} : ∀ c ∈ (splitScheme url).2, c ∈ url := by
  intro c hc
  rw [splitScheme] at hc
  split at hc
  · exact mem_cut_snd hc
  · exact hc

omit [NetlocTables] in
theorem splitNetloc_cases (url : List Char) : (splitNetloc url).1 = [] ∨
    ∃ rest, url = '/' :: '/' :: rest ∧ splitNetloc url =
      (rest.takeWhile (!endsNetloc ·),rest.dropWhile (!endsNetloc ·)) := by
  rw [splitNetloc.eq_def]
  split
  · exact .inr ⟨_,rfl,rfl⟩
  · exact .inl rfl

/-- A URL with a scheme and a host is split into parts that can be told apart again. -/
theorem urlsplit_absolute {url : List Char} (h : urlsplit url = some parts)
    (hscheme : parts.scheme ≠ []) (hnetloc : parts.netloc ≠ []) : parts.Absolute := by
  simp only [urlsplit] at h
  generalize hclean : (url.dropWhile isControlOrSpace).filter (!isUnsafe ·) = clean at h
  have hsafe : ∀ c ∈ clean, isUnsafe c = false := by
    intro c hc
    rw [← hclean,List.mem_filter] at hc
    simpa using hc.2
  split at h
  · rename_i haccepted
    obtain rfl := Option.some.inj h
    have hrest : ∀ c ∈ (splitScheme clean).2, isUnsafe c = false := fun c hc =>
      hsafe c (splitScheme_subset c hc)
    obtain ⟨hvalid,hlower⟩ := splitScheme_scheme hscheme
    obtain ⟨rest,hurl,hsplit⟩ := (splitNetloc_cases (splitScheme clean).2).resolve_left hnetloc
    rw [hurl] at hrest
    have hsafeRest : ∀ c ∈ rest, isUnsafe c = false := fun c hc => hrest c (by simp [hc])
    simp only [hsplit] at haccepted hnetloc ⊢
    have hnet : ∀ c ∈ rest.takeWhile (!endsNetloc ·), c ∈ rest ∧ endsNetloc c = false := by
      intro c hc
      exact ⟨( List.takeWhile_prefix _).subset hc,by simpa using List.mem_takeWhile_imp hc⟩
    have htail : ∀ c ∈ rest.dropWhile (!endsNetloc ·), c ∈ rest := fun c hc =>
      (List.dropWhile_suffix _).subset hc
    refine ⟨hvalid,hlower,hnetloc,haccepted,fun c hc => (hnet c hc).2,?_,fun c hc => ?_,
      fun c hc => ?_,fun c hc => ?_⟩
    · cases hdrop : rest.dropWhile (!endsNetloc ·) with
      | nil => exact .inl rfl
      | cons d ds =>
        have hend : endsNetloc d = true := by
          have := List.head?_dropWhile_not (p := (!endsNetloc ·)) (l := rest)
          simpa [hdrop] using this
        simp only [endsNetloc,Bool.or_eq_true,beq_iff_eq] at hend
        rcases hend with (rfl | rfl) | rfl
        · exact .inr rfl
        · exact .inl rfl
        · exact .inl rfl
    · obtain ⟨hmem,hquestion⟩ := mem_cut_fst hc
      exact ⟨hquestion,(mem_cut_fst hmem).2⟩
    · exact (mem_cut_fst (mem_cut_snd hc)).2
    · simp only [List.mem_append] at hc
      rcases hc with ((hc | hc) | hc) | hc
      · exact hsafeRest c (hnet c hc).1
      · exact hsafeRest c (htail c (mem_cut_fst (mem_cut_fst hc).1).1)
      · exact hsafeRest c (htail c (mem_cut_fst (mem_cut_snd hc)).1)
      · exact hsafeRest c (htail c (mem_cut_snd hc))
  · cases h

end Hosts

end Urls
