import WormholeObservatory.OrderedDict
import WormholeObservatory.Redaction
import WormholeObservatory.Urls

/-! The link of a notification: the configured address with the domain in its query. What is
written into a query is read back from it. -/
namespace WormholeObservatory
namespace ReviewLinks

open Redaction
open Urls

/-- `bytes.decode("utf-8", "replace")`. -/
class TextDecoding where
  decode : List UInt8 → List Char
  decode_encode : ∀ s : List Char, decode (s.flatMap String.utf8EncodeChar) = s

/-- Decoding that gives nothing for what is no encoded text. -/
instance strictDecoding : TextDecoding where
  decode bytes := (bytes.toByteArray.utf8Decode?.getD #[]).toList
  decode_encode s := by
    have hdecode := List.utf8Decode?_utf8Encode (l := s)
    rw [List.utf8Encode] at hdecode
    rw [hdecode]
    rfl

def hexValue (c : Char) : Option ℕ :=
  if 48 ≤ c.toNat ∧ c.toNat ≤ 57 then some (c.toNat-48)
  else if 65 ≤ c.toNat ∧ c.toNat ≤ 70 then some (c.toNat-55)
  else if 97 ≤ c.toNat ∧ c.toNat ≤ 102 then some (c.toNat-87)
  else none

/-- `unquote_to_bytes`. -/
def unquoteToBytes : List Char → List UInt8
  | '%'::a::b::rest =>
    match hexValue a,hexValue b with
    | some x,some y => UInt8.ofNat (16*x+y)::unquoteToBytes rest
    | _,_ => 37::unquoteToBytes (a::b::rest)
  | c::rest => UInt8.ofNat c.toNat::unquoteToBytes rest
  | [] => []

def isAscii (c : Char) : Bool := decide (c.toNat < 128)

/-- The runs of letters within ASCII and of others. -/
def asciiRuns : List Char → List (List Char)
  | [] => []
  | c::cs =>
    match asciiRuns cs with
    | (d::ds)::runs => if isAscii c = isAscii d then (c::d::ds)::runs else [c]::(d::ds)::runs
    | runs => [c]::runs

/-- What `build_review_link` raises: its own complaint, or one of `urlsplit`. -/
inductive LinkFault
  | valueError (message : String)
  | split
  deriving DecidableEq

/-- `urlencode`. -/
def urlencode (items : List (String × String)) : List Char :=
  ['&'].intercalate (items.map fun item => (quotePlus item.1).toList++ '=' :: (quotePlus item.2).toList)

section Reading

variable [TextDecoding]

/-- `unquote`. -/
def unquote (s : List Char) : List Char :=
  (asciiRuns s).flatMap fun run =>
    if run.all isAscii then TextDecoding.decode (unquoteToBytes run) else run

def unquotePlus (s : List Char) : String :=
  String.ofList (unquote (s.map fun c => if c = '+' then ' ' else c))

/-- `parse_qsl` with blank values kept. -/
def parseQsl (query : List Char) : List (String × String) :=
  ((query.splitOn '&').filter (· ≠ [])).map fun field =>
    (unquotePlus (cut '=' field).1,unquotePlus (cut '=' field).2)

variable [NetlocTables] [CaseTables]

/-- `dict(parse_qsl(query))`, with the domain if there is one. -/
def linkQuery (query : List Char) (domain : Option String) : OrderedDict String String :=
  let items := OrderedDict.ofItems (parseQsl query)
  match domain with
  | none => items
  | some domain =>
    if domain = "" then items
    else items.set "domain" (rstripDots (CaseTables.lower (strip domain)))

def linkPath (path : List Char) : List Char :=
  let path := if path = [] then "/app/".toList else path
  if path.getLast? = some '/' then path else path++['/']

/-- `build_review_link`. -/
def buildReviewLink (baseUrl : String) (domain : Option String) : Except LinkFault String :=
  let value := strip baseUrl
  if value = "" then .ok ""
  else
    match urlsplit value.toList with
    | none => .error .split
    | some parsed =>
      if (parsed.scheme ≠ "http".toList ∧ parsed.scheme ≠ "https".toList) ∨ parsed.netloc = [] then
        .error (.valueError "Review base URL must be an absolute HTTP(S) URL")
      else
        .ok (String.ofList (urlunsplit ⟨parsed.scheme,parsed.netloc,linkPath parsed.path,
          urlencode (linkQuery parsed.query domain).items,[]⟩))

end Reading

/-! Letters of a query. -/

/-- The letters percent-encoding leaves. -/
def isPlain (c : Char) : Bool := alwaysSafe c.toNat || c == '%'

theorem toNat_ofNat {n : ℕ} (h : n < 256) : (Char.ofNat n).toNat = n := by
  have hvalid : n.isValidChar := Or.inl (by omega)
  delta Char.ofNat
  rw [dif_pos hvalid]
  rfl

theorem upperHex_cases : ∀ n < 16, isPlain (upperHex n) = true ∧ hexValue (upperHex n) = some n := by
  decide

/-- A byte is written as itself, a letter that is not the mark, or as the mark and two digits. -/
theorem quoteByte_cases (safe : List ℕ) (hmark : 37 ∉ safe) (b : UInt8) :
    (∃ c, quoteByte safe b = [c] ∧ c.toNat = b.toNat ∧ c ≠ '%' ∧
      (alwaysSafe b.toNat = true ∨ b.toNat ∈ safe)) ∨
    ∃ x y, x < 16 ∧ y < 16 ∧ quoteByte safe b = ['%',upperHex x,upperHex y] ∧
      UInt8.ofNat (16*x+y) = b := by
  have hb : b.toNat < 256 := b.toNat_lt
  rw [quoteByte]
  split
  · rename_i hsafe
    rw [Bool.or_eq_true,decide_eq_true_eq] at hsafe
    refine .inl ⟨_,rfl,toNat_ofNat hb,fun hc => ?_,hsafe⟩
    have hcode := congrArg Char.toNat hc
    rw [toNat_ofNat hb] at hcode
    have hpercent : b.toNat = 37 := hcode
    rcases hsafe with hsafe | hsafe
    · rw [hpercent] at hsafe
      cases hsafe
    · exact hmark (hpercent ▸ hsafe)
  · refine .inr ⟨b.toNat/16,b.toNat%16,by omega,by omega,rfl,?_⟩
    rw [Nat.div_add_mod]
    exact UInt8.ofNat_toNat

theorem quoteByte_plain (b : UInt8) : ∀ c ∈ quoteByte [] b, isPlain c = true := by
  intro c hc
  rcases quoteByte_cases [] (by simp) b with ⟨d,hd,hcode,-,hsafe⟩ | ⟨x,y,hx,hy,hxy,-⟩
  · rw [hd] at hc
    obtain rfl := List.mem_singleton.mp hc
    have hsafe := hsafe.resolve_right (by simp)
    simp [isPlain,hcode,hsafe]
  · rw [hxy] at hc
    simp only [List.mem_cons,List.not_mem_nil,or_false] at hc
    rcases hc with rfl | rfl | rfl
    · rfl
    · exact (upperHex_cases x hx).1
    · exact (upperHex_cases y hy).1

/-- With the blank left as it is. -/
theorem quoteByte_space (b : UInt8) : ∀ c ∈ quoteByte [32] b, isPlain c = true ∨ c = ' ' := by
  intro c hc
  by_cases hblank : b.toNat = 32
  · have hquote : quoteByte [32] b = [Char.ofNat 32] := by simp [quoteByte,hblank]
    rw [hquote] at hc
    exact .inr (List.mem_singleton.mp hc)
  · have hquote : quoteByte [32] b = quoteByte [] b := by simp [quoteByte,hblank]
    rw [hquote] at hc
    exact .inl (quoteByte_plain b c hc)

theorem isPlain_ne {c d : Char} (h : isPlain c = true) (hd : isPlain d = false) : c ≠ d := by
  rintro rfl
  rw [h] at hd
  cases hd

theorem isAscii_of_isPlain {c : Char} (h : isPlain c = true) : isAscii c = true := by
  simp only [isPlain,alwaysSafe,Bool.or_eq_true,Bool.and_eq_true,decide_eq_true_eq,beq_iff_eq] at h
  simp only [isAscii,decide_eq_true_eq]
  rcases h with h | rfl
  · omega
  · decide

/-! Decoding. -/

theorem hexValue_upperHex {n : ℕ} (h : n < 16) : hexValue (upperHex n) = some n := (upperHex_cases n h).2

theorem unquoteToBytes_cons {c : Char} (h : c ≠ '%') (rest : List Char) :
    unquoteToBytes (c::rest) = UInt8.ofNat c.toNat::unquoteToBytes rest := by
  rw [unquoteToBytes.eq_def]
  split
  · rename_i heq
    exact absurd (List.cons.inj heq).1 h
  · rename_i heq
    obtain ⟨rfl,rfl⟩ := List.cons.inj heq
    rfl
  · rename_i heq
    cases heq

theorem unquoteToBytes_hex {x y : ℕ} (hx : x < 16) (hy : y < 16) (rest : List Char) :
    unquoteToBytes ('%'::upperHex x::upperHex y::rest) =
      UInt8.ofNat (16*x+y)::unquoteToBytes rest := by
  rw [unquoteToBytes,hexValue_upperHex hx,hexValue_upperHex hy]

/-- What is percent-encoded is read back byte by byte. -/
theorem unquoteToBytes_quote {safe : List ℕ} (hmark : 37 ∉ safe) (bytes : List UInt8) :
    unquoteToBytes (bytes.flatMap (quoteByte safe)) = bytes := by
  induction bytes with
  | nil => rfl
  | cons b bytes ih =>
    rw [List.flatMap_cons]
    rcases quoteByte_cases safe hmark b with ⟨c,hc,hcode,hne,-⟩ | ⟨x,y,hx,hy,hxy,hbyte⟩
    · rw [hc,List.singleton_append,unquoteToBytes_cons hne,ih,hcode,UInt8.ofNat_toNat]
    · rw [hxy,List.cons_append,List.cons_append,List.singleton_append,unquoteToBytes_hex hx hy,ih,hbyte]

theorem asciiRuns_of_ascii {c : Char} {cs : List Char} (h : ∀ d ∈ c::cs, isAscii d = true) :
    asciiRuns (c::cs) = [c::cs] := by
  induction cs generalizing c with
  | nil => rfl
  | cons d cs ih =>
    have hrest := ih (c := d) fun e he => h e (List.mem_cons_of_mem _ he)
    rw [asciiRuns,hrest]
    simp only [h c (by simp),h d (by simp),if_true]

section Reading

variable [TextDecoding]

theorem unquote_of_ascii {s : List Char} (h : ∀ c ∈ s, isAscii c = true) :
    unquote s = TextDecoding.decode (unquoteToBytes s) := by
  cases s with
  | nil => exact (TextDecoding.decode_encode []).symm
  | cons c cs =>
    have hall : (c::cs).all isAscii = true := List.all_eq_true.mpr h
    rw [unquote,asciiRuns_of_ascii h,List.flatMap_cons,List.flatMap_nil,if_pos hall,List.append_nil]

theorem unquote_quoteSafe {safe : List ℕ} (hmark : 37 ∉ safe) (s : String)
    (hascii : ∀ c ∈ (quoteSafe safe s).toList, isAscii c = true) :
    unquote (quoteSafe safe s).toList = s.toList := by
  rw [unquote_of_ascii hascii,quoteSafe,String.toList_ofList,unquoteToBytes_quote hmark,
    TextDecoding.decode_encode]

omit [TextDecoding] in
theorem quote_plain (s : String) : ∀ c ∈ (quote s).toList, isPlain c = true := by
  intro c hc
  simp only [quote,quoteSafe,String.toList_ofList,List.mem_flatMap] at hc
  obtain ⟨b,-,hb⟩ := hc
  exact quoteByte_plain b c hb

omit [TextDecoding] in
theorem quoteSpace_plain (s : String) :
    ∀ c ∈ (quoteSafe [32] s).toList, isPlain c = true ∨ c = ' ' := by
  intro c hc
  simp only [quoteSafe,String.toList_ofList,List.mem_flatMap] at hc
  obtain ⟨b,-,hb⟩ := hc
  exact quoteByte_space b c hb

omit [TextDecoding] in
/-- What is left of a text in a query: plain letters, and the plus for a blank. -/
theorem quotePlus_plain (s : String) : ∀ c ∈ (quotePlus s).toList, isPlain c = true ∨ c = '+' := by
  intro c hc
  rw [quotePlus] at hc
  split at hc
  · simp only [replaceChar,String.toList_ofList,List.mem_map] at hc
    obtain ⟨d,hd,rfl⟩ := hc
    split
    · exact .inr rfl
    · exact .inl ((quoteSpace_plain s d hd).resolve_right (by assumption))
  · exact .inl (quote_plain s c hc)

theorem unquotePlus_quotePlus (s : String) : unquotePlus (quotePlus s).toList = s := by
  rw [unquotePlus,quotePlus]
  split
  · have hmap : ((replaceChar ' ' '+' (quoteSafe [32] s)).toList.map
        fun c => if c = '+' then ' ' else c) = (quoteSafe [32] s).toList := by
      rw [replaceChar,String.toList_ofList,List.map_map]
      conv_rhs => rw [← List.map_id (quoteSafe [32] s).toList]
      refine List.map_congr_left fun c hc => ?_
      rcases quoteSpace_plain s c hc with hplain | rfl
      · have hspace : c ≠ ' ' := isPlain_ne hplain (by decide)
        have hplus : c ≠ '+' := isPlain_ne hplain (by decide)
        simp [hspace,hplus]
      · rfl
    rw [hmap,unquote_quoteSafe (by decide),String.ofList_toList]
    intro c hc
    rcases quoteSpace_plain s c hc with hplain | rfl
    · exact isAscii_of_isPlain hplain
    · rfl
  · have hmap : ((quote s).toList.map fun c => if c = '+' then ' ' else c) = (quote s).toList := by
      conv_rhs => rw [← List.map_id (quote s).toList]
      refine List.map_congr_left fun c hc => ?_
      have hplus : c ≠ '+' := isPlain_ne (quote_plain s c hc) (by decide)
      simp [hplus]
    rw [hmap,quote,unquote_quoteSafe (by simp),String.ofList_toList]
    intro c hc
    exact isAscii_of_isPlain (quote_plain s c hc)

/-- The fields of a query that is written are read back in order. -/
theorem parseQsl_urlencode (items : List (String × String)) : parseQsl (urlencode items) = items := by
  have hfield : ∀ s : String, ∀ c ∈ (quotePlus s).toList, c ≠ '=' ∧ c ≠ '&' := by
    intro s c hc
    rcases quotePlus_plain s c hc with hplain | rfl
    · exact ⟨isPlain_ne hplain (by decide),isPlain_ne hplain (by decide)⟩
    · decide
  cases hitems : items with
  | nil => rfl
  | cons item rest =>
    rw [← hitems]
    have hsplit : (urlencode items).splitOn '&' = items.map fun item =>
        (quotePlus item.1).toList++ '=' :: (quotePlus item.2).toList := by
      refine List.splitOn_intercalate '&' ?_ (by simp [hitems])
      intro l hl
      obtain ⟨item,-,rfl⟩ := List.mem_map.mp hl
      simp only [List.mem_append,List.mem_cons,not_or]
      exact ⟨fun h => (hfield _ _ h).2 rfl,by decide,fun h => (hfield _ _ h).2 rfl⟩
    have hkeep : (items.map fun item => (quotePlus item.1).toList++ '=' :: (quotePlus item.2).toList).filter
        (· ≠ []) = items.map fun item => (quotePlus item.1).toList++ '=' :: (quotePlus item.2).toList := by
      refine List.filter_eq_self.mpr fun l hl => ?_
      obtain ⟨item,-,rfl⟩ := List.mem_map.mp hl
      simp
    rw [parseQsl,hsplit,hkeep,List.map_map]
    conv_rhs => rw [← List.map_id items]
    refine List.map_congr_left fun item _ => ?_
    simp only [Function.comp_apply,cut_cons fun c hc => (hfield item.1 c hc).1,unquotePlus_quotePlus]
    rfl

/-! Links. -/

omit [TextDecoding] in
/-- The letters a query is written with. -/
theorem urlencode_letters (items : List (String × String)) :
    ∀ c ∈ urlencode items, isPlain c = true ∨ c = '+' ∨ c = '&' ∨ c = '=' := by
  intro c hc
  rw [urlencode] at hc
  induction items with
  | nil => cases hc
  | cons item rest ih =>
    have hitem : ∀ c ∈ (quotePlus item.1).toList++ '=' :: (quotePlus item.2).toList,
        isPlain c = true ∨ c = '+' ∨ c = '&' ∨ c = '=' := by
      intro c hc
      rcases List.mem_append.mp hc with hc | hc
      · exact (quotePlus_plain _ c hc).imp_right .inl
      · rcases List.mem_cons.mp hc with rfl | hc
        · exact .inr (.inr (.inr rfl))
        · exact (quotePlus_plain _ c hc).imp_right .inl
    cases rest with
    | nil =>
      rw [List.map_singleton,List.intercalate_singleton] at hc
      exact hitem c hc
    | cons item' rest =>
      rw [List.map_cons,List.intercalate_cons_of_ne_nil (by simp)] at hc
      rcases List.mem_append.mp hc with hc | hc
      · rcases List.mem_append.mp hc with hc | hc
        · exact hitem c hc
        · exact .inr (.inr (.inl (List.mem_singleton.mp hc)))
      · exact ih hc

omit [TextDecoding] in
theorem urlencode_ne_nil {items : List (String × String)} (h : items ≠ []) : urlencode items ≠ [] := by
  obtain ⟨item,rest,rfl⟩ := List.exists_cons_of_ne_nil h
  cases rest with
  | nil => simp [urlencode]
  | cons item' rest => rw [urlencode,List.map_cons,List.intercalate_cons_of_ne_nil (by simp)]; simp

omit [TextDecoding] in
theorem linkPath_linkPath (path : List Char) : linkPath (linkPath path) = linkPath path := by
  have hlast : (linkPath path).getLast? = some '/' := by
    simp only [linkPath]
    generalize (if path = [] then "/app/".toList else path) = path
    split
    · assumption
    · simp
  have hne : linkPath path ≠ [] := by
    intro hnil
    rw [hnil] at hlast
    cases hlast
  rw [linkPath,if_neg hne,if_pos hlast]

omit [TextDecoding] in
/-- A path ends in a slash, and begins as it did if it was not empty. -/
theorem linkPath_cases (path : List Char) : (path = [] ∧ linkPath path = "/app/".toList) ∨
    path ≠ [] ∧ (linkPath path = path ∨ linkPath path = path++['/']) := by
  by_cases hpath : path = []
  · subst hpath
    exact .inl ⟨rfl,rfl⟩
  · refine .inr ⟨hpath,?_⟩
    simp only [linkPath,if_neg hpath]
    split
    · exact .inl rfl
    · exact .inr rfl

omit [TextDecoding] in
theorem linkPath_letters {path : List Char} : ∀ c ∈ linkPath path, c ∈ path ∨ c ∈ "/app/".toList := by
  intro c hc
  rcases linkPath_cases path with ⟨-,hpath⟩ | ⟨-,hpath | hpath⟩
  · rw [hpath] at hc
    exact .inr hc
  · rw [hpath] at hc
    exact .inl hc
  · rw [hpath] at hc
    refine (List.mem_append.mp hc).imp_right fun hslash => ?_
    obtain rfl := List.mem_singleton.mp hslash
    decide

omit [TextDecoding] in
theorem linkPath_rooted {path : List Char} (h : path = [] ∨ path.head? = some '/') :
    (linkPath path).head? = some '/' := by
  rcases linkPath_cases path with ⟨-,hpath⟩ | ⟨hne,hpath | hpath⟩
  · rw [hpath]
    rfl
  · rw [hpath]
    exact h.resolve_left hne
  · rw [hpath,List.head?_append,h.resolve_left hne]
    rfl

variable [NetlocTables]

omit [TextDecoding] in
/-- A link can be taken apart again. -/
theorem link_absolute {parsed : SplitResult} (h : parsed.Absolute) (items : List (String × String)) :
    SplitResult.Absolute ⟨parsed.scheme,parsed.netloc,linkPath parsed.path,urlencode items,[]⟩ := by
  have hpath : ∀ c ∈ "/app/".toList, (c ≠ '?' ∧ c ≠ '#') ∧ isUnsafe c = false := by decide
  have hquery : ∀ c ∈ urlencode items, c ≠ '#' ∧ isUnsafe c = false := by
    intro c hc
    rcases urlencode_letters items c hc with hplain | rfl | rfl | rfl
    · refine ⟨isPlain_ne hplain (by decide),?_⟩
      simp only [isUnsafe,Bool.or_eq_false_iff,beq_eq_false_iff_ne]
      exact ⟨⟨isPlain_ne hplain (by decide),isPlain_ne hplain (by decide)⟩,
        isPlain_ne hplain (by decide)⟩
    all_goals decide
  refine ⟨h.scheme,h.lower,h.host,h.accepted,h.netloc,.inr (linkPath_rooted h.rooted),
    fun c hc => ?_,fun c hc => (hquery c hc).1,fun c hc => ?_⟩
  · rcases linkPath_letters c hc with hc | hc
    · exact h.path c hc
    · exact (hpath c hc).1
  · simp only [List.append_nil,List.mem_append] at hc
    rcases hc with (hc | hc) | hc
    · exact h.clean c (by simp [hc])
    · rcases linkPath_letters c hc with hc | hc
      · exact h.clean c (by simp [hc])
      · exact (hpath c hc).2
    · exact (hquery c hc).2

omit [TextDecoding] [NetlocTables] in
theorem urlencode_not_space (items : List (String × String)) :
    ∀ c ∈ urlencode items, isSpace c = false := by
  intro c hc
  have hcode : 33 ≤ c.toNat ∧ c.toNat < 128 := by
    rcases urlencode_letters items c hc with hplain | rfl | rfl | rfl
    · simp only [isPlain,alwaysSafe,Bool.or_eq_true,Bool.and_eq_true,decide_eq_true_eq,
        beq_iff_eq] at hplain
      rcases hplain with hplain | rfl
      · omega
      · decide
    all_goals decide
  simp only [isSpace,List.mem_cons,List.not_mem_nil,or_false,decide_eq_false_iff_not]
  omega

omit [TextDecoding] in
/-- A link with a query is not trimmed. -/
theorem strip_link {parts : SplitResult} (h : parts.Absolute)
    (hscheme : parts.scheme = "http".toList ∨ parts.scheme = "https".toList)
    {items : List (String × String)} (hitems : items ≠ []) (hquery : parts.query = urlencode items)
    (hfragment : parts.fragment = []) :
    strip (String.ofList (urlunsplit parts)) = String.ofList (urlunsplit parts) := by
  have hne := urlencode_ne_nil hitems
  obtain ⟨l,c,hlast⟩ : ∃ l c, urlencode items = l++[c] :=
    ⟨_,_,(List.dropLast_append_getLast hne).symm⟩
  have hc : isSpace c = false := urlencode_not_space items c (by simp [hlast])
  obtain ⟨rest,hrest⟩ : ∃ rest, parts.scheme = 'h'::rest := by
    rcases hscheme with hscheme | hscheme
    · exact ⟨"ttp".toList,hscheme⟩
    · exact ⟨"ttps".toList,hscheme⟩
  refine strip_of_ends (c := 'h') (d := c) (l := rest++ ':' :: '/' :: '/' :: (parts.netloc++parts.path++ '?' :: l))
    ?_ (by decide) hc
  rw [String.toList_ofList,h.urlunsplit_eq,SplitResult.tail,hfragment,hquery,if_neg hne,hlast,hrest]
  simp

variable [CaseTables]

omit [NetlocTables] in
theorem linkQuery_some {query : List Char} {domain : String} (h : domain ≠ "") :
    linkQuery query (some domain) =
      (OrderedDict.ofItems (parseQsl query)).set "domain" (normalizeDomain domain) := by
  simp only [linkQuery,if_neg h,normalizeDomain]

/-- An address a link can be made of, and its parts. -/
structure Usable (baseUrl : String) (parsed : SplitResult) : Prop where
  given : strip baseUrl ≠ ""
  split : urlsplit (strip baseUrl).toList = some parsed
  scheme : parsed.scheme = "http".toList ∨ parsed.scheme = "https".toList
  host : parsed.netloc ≠ []

/-- The parts of a link. -/
def linkParts (parsed : SplitResult) (domain : Option String) : SplitResult :=
  ⟨parsed.scheme,parsed.netloc,linkPath parsed.path,
    urlencode (linkQuery parsed.query domain).items,[]⟩

theorem buildReviewLink_usable {baseUrl : String} {parsed : SplitResult} (h : Usable baseUrl parsed)
    (domain : Option String) : buildReviewLink baseUrl domain =
      .ok (String.ofList (urlunsplit (linkParts parsed domain))) := by
  have hok : ¬((parsed.scheme ≠ "http".toList ∧ parsed.scheme ≠ "https".toList) ∨
      parsed.netloc = []) := by
    rintro (⟨hhttp,hhttps⟩ | hnil)
    · exact h.scheme.elim hhttp hhttps
    · exact h.host hnil
  simp only [buildReviewLink,if_neg h.given,h.split,if_neg hok]
  rfl

theorem usable_of_link {baseUrl link : String} {domain : Option String}
    (h : buildReviewLink baseUrl domain = .ok link) (hlink : link ≠ "") :
    ∃ parsed, Usable baseUrl parsed := by
  simp only [buildReviewLink] at h
  split at h
  · cases h
    exact absurd rfl hlink
  rename_i hgiven
  cases hsplit : urlsplit (strip baseUrl).toList with
  | none =>
    rw [hsplit] at h
    cases h
  | some parsed =>
    simp only [hsplit] at h
    split at h
    · cases h
    rename_i hok
    obtain ⟨hscheme,hnetloc⟩ := not_or.mp hok
    refine ⟨parsed,hgiven,hsplit,?_,hnetloc⟩
    by_contra hneither
    exact hscheme (not_or.mp hneither)

omit [TextDecoding] [CaseTables] in
theorem Usable.absolute {baseUrl : String} {parsed : SplitResult} (h : Usable baseUrl parsed) :
    parsed.Absolute := by
  refine urlsplit_absolute h.split ?_ h.host
  rcases h.scheme with h | h <;> simp [h]

omit [NetlocTables] in
/-- The query of a link is read back, in order. -/
theorem read_linkQuery (query : List Char) (domain : Option String) :
    OrderedDict.ofItems (parseQsl (urlencode (linkQuery query domain).items)) =
      linkQuery query domain := by
  rw [parseQsl_urlencode,OrderedDict.ofItems_items]

/-- A link with a domain can take the place of the address it was made of. -/
theorem Usable.link {baseUrl domain : String} {parsed : SplitResult} (h : Usable baseUrl parsed)
    (hdomain : domain ≠ "") : Usable (String.ofList (urlunsplit (linkParts parsed (some domain))))
      (linkParts parsed (some domain)) := by
  have hparts : (linkParts parsed (some domain)).Absolute := link_absolute h.absolute _
  have hitems : (linkQuery parsed.query (some domain)).items ≠ [] := by
    intro hnil
    have hget : (linkQuery parsed.query (some domain)).get? "domain" =
        some (normalizeDomain domain) := by
      rw [linkQuery_some hdomain,OrderedDict.get?_set,if_pos rfl]
    rw [OrderedDict.get?,hnil] at hget
    cases hget
  have hstrip := strip_link hparts h.scheme hitems rfl rfl
  refine ⟨?_,?_,h.scheme,h.host⟩
  · rw [hstrip,← toList_ne_nil,String.toList_ofList,hparts.urlunsplit_eq]
    simp
  · rw [hstrip,String.toList_ofList]
    exact urlsplit_urlunsplit hparts

/-- A link with a domain leads to the configured host, by a path that ends in a slash. Its query has
the domain, normalised, and all that was in the configured query besides; and it can take the place
of the configured address. -/
theorem review_link_round_trip {baseUrl link domain : String} (hdomain : domain ≠ "")
    (h : buildReviewLink baseUrl (some domain) = .ok link) (hlink : link ≠ "") :
    ∃ parsed parts, urlsplit (strip baseUrl).toList = some parsed ∧ urlsplit link.toList = some parts ∧
      parts.scheme = parsed.scheme ∧ parts.netloc = parsed.netloc ∧ parts.path = linkPath parsed.path ∧
      (∀ key, (OrderedDict.ofItems (parseQsl parts.query)).get? key =
        if "domain" = key then some (normalizeDomain domain)
        else (OrderedDict.ofItems (parseQsl parsed.query)).get? key) ∧
      ∀ other ≠ "", buildReviewLink link (some other) = buildReviewLink baseUrl (some other) := by
  obtain ⟨parsed,husable⟩ := usable_of_link h hlink
  rw [buildReviewLink_usable husable,Except.ok.injEq] at h
  subst h
  have hagain := husable.link hdomain
  have hparts : (linkParts parsed (some domain)).Absolute := link_absolute husable.absolute _
  refine ⟨parsed,linkParts parsed (some domain),husable.split,?_,rfl,rfl,rfl,fun key => ?_,
    fun other hother => ?_⟩
  · rw [String.toList_ofList]
    exact urlsplit_urlunsplit hparts
  · rw [linkParts,read_linkQuery,linkQuery_some hdomain,OrderedDict.get?_set]
  · have hquery : linkQuery (linkParts parsed (some domain)).query (some other) =
        linkQuery parsed.query (some other) := by
      rw [linkQuery_some hother,linkQuery_some hother,linkParts,read_linkQuery,linkQuery_some hdomain,
        OrderedDict.set_set]
    rw [buildReviewLink_usable hagain,buildReviewLink_usable husable,linkParts,hquery]
    simp only [linkParts,linkPath_linkPath]

end Reading

/-! An address with a query of its own. -/

def sampleAddress : String := "https://host.example/ui?tab=a%20b&domain=old"

theorem sampleAddress_usable : Usable sampleAddress
    ⟨"https".toList,"host.example".toList,"/ui".toList,"tab=a%20b&domain=old".toList,[]⟩ :=
  ⟨by decide +kernel,by decide +kernel,.inr rfl,by decide⟩

theorem review_link_sample : ∃ link parsed parts, buildReviewLink sampleAddress (some " Ads.Example. ") =
      .ok link ∧ urlsplit (strip sampleAddress).toList = some parsed ∧
    urlsplit link.toList = some parts ∧ parts.path = "/ui/".toList ∧
    (OrderedDict.ofItems (parseQsl parts.query)).get? "domain" = some "ads.example" := by
  have hbuilt := buildReviewLink_usable sampleAddress_usable (some " Ads.Example. ")
  have hlink : String.ofList (urlunsplit (linkParts ⟨"https".toList,"host.example".toList,"/ui".toList,
      "tab=a%20b&domain=old".toList,[]⟩ (some " Ads.Example. "))) ≠ "" := by
    rw [← toList_ne_nil,String.toList_ofList]
    simp [urlunsplit,linkParts]
  obtain ⟨parsed,parts,hparsed,hparts,-,-,hpath,hquery,-⟩ :=
    review_link_round_trip (by decide) hbuilt hlink
  refine ⟨_,parsed,parts,hbuilt,hparsed,hparts,?_,?_⟩
  · obtain rfl := Option.some.inj (hparsed.symm.trans sampleAddress_usable.split)
    rw [hpath]
    decide
  · rw [hquery,if_pos rfl]
    decide

end ReviewLinks
end WormholeObservatory
