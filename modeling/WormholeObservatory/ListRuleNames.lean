import WormholeObservatory.ListRules

/-! What the parser of rules accepts: names of hosts, and each of them in the forms that lists
write it in. -/
namespace WormholeObservatory
namespace Lists

open IpAddresses

/-- Up to 63 letters, digits and hyphens, without a hyphen at either end. -/
structure HostLabel (l : List Char) : Prop where
  nonempty : l ≠ []
  short : l.length ≤ 63
  chars : ∀ c ∈ l, c.isAlphanum = true ∨ c = '-'
  begins : l.head? ≠ some '-'
  ends : l.getLast? ≠ some '-'

/-- A name of a host in lower case, which is no address. -/
structure HostName (s : String) : Prop where
  lower : asciiLower s = s
  short : s.toList.length ≤ 253
  parted : 2 ≤ (dotted s).length
  labels : ∀ l ∈ dotted s, HostLabel l
  noAddress : isIpAddress s = false

/-! Labels. -/

theorem isAlphanum_iff (x : Char) :
    x.isAlphanum = true ↔ (x.isAlphanum = true ∨ x = '-') ∧ x ≠ '-' := by
  constructor
  · intro hx
    exact ⟨Or.inl hx,fun h => absurd (h ▸ hx) (by decide)⟩
  · rintro ⟨hx | hx,hne⟩
    · exact hx
    · exact absurd hx hne

theorem matchesHostLabel_iff {c : Char} {rest : List Char} (hrest : rest.length ≤ 62) :
    matchesHostLabel (c::rest) = true ↔ (∀ x ∈ c::rest, x.isAlphanum = true ∨ x = '-') ∧
      c ≠ '-' ∧ (c::rest).getLast? ≠ some '-' := by
  cases rest using List.reverseRecOn with
  | nil =>
    have hmatch : matchesHostLabel [c] = c.isAlphanum := by simp [matchesHostLabel]
    rw [hmatch,isAlphanum_iff]
    simp
  | append_singleton mid e =>
    have hmatch : matchesHostLabel (c::(mid++[e])) =
        (c.isAlphanum && (mid.all (fun x => x.isAlphanum || x == '-') && e.isAlphanum)) := by
      simp only [List.length_append,List.length_singleton] at hrest
      have hsome : (mid++[e]).isEmpty = false := by cases mid <;> rfl
      simp [matchesHostLabel,hrest,hsome]
    have hlast : (c::(mid++[e])).getLast? = some e := by simp [List.getLast?_cons]
    have hmid : (mid.all fun x => x.isAlphanum || x == '-') = true ↔
        ∀ x ∈ mid, x.isAlphanum = true ∨ x = '-' := by simp
    rw [hmatch,hlast,Bool.and_eq_true,Bool.and_eq_true,hmid,isAlphanum_iff c,isAlphanum_iff e]
    constructor
    · rintro ⟨⟨hc,hcne⟩,hall,he,hene⟩
      refine ⟨fun x hx => ?_,hcne,fun h => hene (Option.some.inj h)⟩
      rcases List.mem_cons.mp hx with rfl | hx
      · exact hc
      · rcases List.mem_append.mp hx with hx | hx
        · exact hall x hx
        · exact List.mem_singleton.mp hx ▸ he
    · rintro ⟨hall,hcne,hene⟩
      exact ⟨⟨hall c (by simp),hcne⟩,fun x hx => hall x (by simp [hx]),hall e (by simp),
        fun h => hene (congrArg some h)⟩

theorem labelFails_iff (l : List Char) : labelFails l = false ↔ HostLabel l := by
  cases l with
  | nil => exact ⟨fun h => absurd h (by decide),fun h => absurd rfl h.nonempty⟩
  | cons c rest =>
    simp only [labelFails,List.isEmpty_cons,Bool.false_or,Bool.or_eq_false_iff,
      decide_eq_false_iff_not,not_lt,Bool.not_eq_false']
    constructor
    · rintro ⟨hshort,hmatch⟩
      have hrest : rest.length ≤ 62 := Nat.le_of_succ_le_succ hshort
      obtain ⟨hchars,hbegin,hend⟩ := (matchesHostLabel_iff hrest).mp hmatch
      exact ⟨List.cons_ne_nil _ _,hshort,hchars,by simpa using hbegin,hend⟩
    · intro h
      have hrest : rest.length ≤ 62 := Nat.le_of_succ_le_succ h.short
      exact ⟨h.short,(matchesHostLabel_iff hrest).mpr ⟨h.chars,by simpa using h.begins,h.ends⟩⟩

/-! Letters of a name. -/

def nameChar (c : Char) : Bool := c.isAlphanum || c == '-' || c == '.'

theorem nameChar_range {c : Char} (h : nameChar c = true) : 33 ≤ c.toNat ∧ c.toNat ≤ 126 := by
  simp only [nameChar,Bool.or_eq_true,beq_iff_eq] at h
  rcases h with (h | rfl) | rfl
  · rw [alphanum_iff] at h
    omega
  · decide
  · decide

theorem not_isSpace_of_nameChar {c : Char} (h : nameChar c = true) : isSpace c = false :=
  isSpace_eq_false (nameChar_range h).1 (nameChar_range h).2

theorem mem_of_mem_splitOn {x : Char} (l : List Char) :
    ∀ c ∈ l, c = x ∨ ∃ part ∈ l.splitOn x, c ∈ part := by
  induction l with
  | nil => simp
  | cons a l ih =>
    intro c hc
    rw [List.splitOn_cons_eq_if_modifyHead]
    split
    · rename_i hax
      rcases List.mem_cons.mp hc with rfl | hc
      · exact Or.inl (eq_of_beq hax)
      · rcases ih c hc with h | ⟨part,hpart,hmem⟩
        · exact Or.inl h
        · exact Or.inr ⟨part,List.mem_cons_of_mem _ hpart,hmem⟩
    · obtain ⟨first,rest,hsplit⟩ := List.exists_cons_of_ne_nil (List.splitOn_ne_nil x l)
      rw [hsplit,List.modifyHead_cons]
      rcases List.mem_cons.mp hc with rfl | hc
      · exact Or.inr ⟨c::first,List.mem_cons_self,List.mem_cons_self⟩
      · rcases ih c hc with h | ⟨part,hpart,hmem⟩
        · exact Or.inl h
        · rw [hsplit] at hpart
          rcases List.mem_cons.mp hpart with rfl | hpart
          · exact Or.inr ⟨a::part,List.mem_cons_self,List.mem_cons_of_mem _ hmem⟩
          · exact Or.inr ⟨part,List.mem_cons_of_mem _ hpart,hmem⟩

theorem length_splitOn_of_mem {x : Char} {l : List Char} (h : x ∈ l) : 2 ≤ (l.splitOn x).length := by
  obtain ⟨s,t,rfl⟩ := List.append_of_mem h
  rw [List.splitOn_eq_splitOnP,List.splitOnP_append_cons s t (by simp),List.length_append]
  have hs := List.length_pos_iff.mpr (List.splitOnP_ne_nil (· == x) s)
  have ht := List.length_pos_iff.mpr (List.splitOnP_ne_nil (· == x) t)
  omega

namespace HostName

variable {d : String}

theorem nameChars (h : HostName d) : ∀ c ∈ d.toList, nameChar c = true := by
  intro c hc
  have hparts : c = '.' ∨ ∃ part ∈ d.toList.splitOn '.', c ∈ part := mem_of_mem_splitOn d.toList c hc
  rcases hparts with rfl | ⟨part,hpart,hmem⟩
  · decide
  · rcases (h.labels part hpart).chars c hmem with hc | rfl
    · simp [nameChar,hc]
    · decide

theorem ascii (h : HostName d) : Ascii d := fun c hc => by
  have hrange := nameChar_range (h.nameChars c hc)
  omega

theorem no_blank (h : HostName d) : ∀ c ∈ d.toList, isSpace c = false :=
  fun c hc => not_isSpace_of_nameChar (h.nameChars c hc)

theorem dot_mem (h : HostName d) : '.' ∈ d.toList := by
  by_contra hdot
  have hone : d.toList.splitOn '.' = [d.toList] := by
    rw [List.splitOn_eq_splitOnP]
    refine List.splitOnP_eq_singleton fun c hc => beq_eq_false_iff_ne.mpr ?_
    rintro rfl
    exact hdot hc
  have hparted := h.parted
  rw [dotted,hone] at hparted
  simp at hparted

theorem ne_empty (h : HostName d) : d ≠ "" := by
  rintro rfl
  exact absurd h.dot_mem (by simp)

theorem ends (h : HostName d) : endsIn (· == '.') d = false := by
  rw [endsIn]
  cases hd : d.toList using List.reverseRecOn with
  | nil => rfl
  | append_singleton s c =>
    rw [List.getLast?_concat,Option.any_some,beq_eq_false_iff_ne]
    rintro rfl
    have hempty : [] ∈ dotted d := by
      rw [dotted,hd,List.splitOn_eq_splitOnP,List.splitOnP_append_cons s [] (by simp)]
      simp
    exact (h.labels [] hempty).nonempty rfl

theorem strip_eq (h : HostName d) : strip d = d := by
  refine strip_eq_self_iff.mpr ⟨?_,?_⟩
  · rw [beginsIn]
    cases hd : d.toList.head? with
    | none => rfl
    | some c => exact h.no_blank c (List.mem_of_mem_head? hd)
  · rw [endsIn]
    cases hd : d.toList.getLast? with
    | none => rfl
    | some c => exact h.no_blank c (List.mem_of_mem_getLast? hd)

/-- A name is in the form that names are brought to. -/
theorem normalized [CaseTables] (h : HostName d) : rstripDots (CaseTables.lower (strip d)) = d := by
  rw [h.strip_eq,CaseTables.lower_ascii d h.ascii,h.lower,rstripDots_eq_self h.ends]

end HostName

/-! The forms of a rule. -/

theorem words_cons {w rest : List Char} {c : Char} (hne : w ≠ []) (hw : ∀ x ∈ w, isSpace x = false)
    (hc : isSpace c = true) :
    words (String.ofList (w++c::rest)) = String.ofList w::words (String.ofList rest) := by
  simp [words,List.splitOnP_append_cons_of_forall_mem hw c hc rest,hne]

theorem words_of_no_blank {w : List Char} (hne : w ≠ []) (hw : ∀ x ∈ w, isSpace x = false) :
    words (String.ofList w) = [String.ofList w] := by
  simp [words,List.splitOnP_eq_singleton hw,hne]

theorem takeWhile_append_cons {x : Char} {l rest : List Char} (hl : x ∉ l) :
    (l++x::rest).takeWhile (· ≠ x) = l := by
  have hkept : ∀ c ∈ l, decide (c ≠ x) = true := by
    intro c hc
    refine decide_eq_true ?_
    rintro rfl
    exact hl hc
  rw [List.takeWhile_append_of_pos hkept]
  simp

theorem mem_of_mem_splitOnP {p : Char → Bool} (l : List Char) :
    ∀ part ∈ l.splitOnP p, ∀ c ∈ part, c ∈ l := by
  induction l with
  | nil => simp
  | cons a l ih =>
    intro part hpart c hc
    rw [List.splitOnP_cons_eq_if_modifyHead] at hpart
    split at hpart
    · rcases List.mem_cons.mp hpart with rfl | hpart
      · exact absurd hc List.not_mem_nil
      · exact List.mem_cons_of_mem _ (ih part hpart c hc)
    · obtain ⟨first,rest,hsplit⟩ := List.exists_cons_of_ne_nil (List.splitOnP_ne_nil p l)
      rw [hsplit,List.modifyHead_cons] at hpart
      rcases List.mem_cons.mp hpart with rfl | hpart
      · rcases List.mem_cons.mp hc with rfl | hc
        · exact List.mem_cons_self
        · exact List.mem_cons_of_mem _ (ih first (by simp [hsplit]) c hc)
      · exact List.mem_cons_of_mem _ (ih part (by simp [hsplit,hpart]) c hc)

theorem mem_of_mem_words {s w : String} (hw : w ∈ words s) : ∀ c ∈ w.toList, c ∈ s.toList := by
  obtain ⟨part,hpart,rfl⟩ := List.mem_map.mp hw
  rw [String.toList_ofList]
  exact mem_of_mem_splitOnP s.toList part (List.mem_filter.mp hpart).1

/-- What names and addresses begin with. -/
def opens (c : Char) : Bool := nameChar c || c == ':'

theorem opens_of_leads {c : Char} (h : leads c = true) : opens c = true := by
  simp only [leads,isHexDigit,Bool.or_eq_true,Bool.and_eq_true,decide_eq_true_eq,beq_iff_eq] at h
  have halnum : c.isAlphanum = true ∨ c = ':' := by
    rw [alphanum_iff]
    rcases h with ((h | h) | h) | h
    · have hletter : c.isAlphanum = true := by simp [Char.isAlphanum,h]
      exact Or.inl (alphanum_iff.mp hletter)
    · exact Or.inl (Or.inr (Or.inl ⟨h.1,by omega⟩))
    · exact Or.inl (Or.inl ⟨h.1,by omega⟩)
    · exact Or.inr h
  rcases halnum with halnum | rfl
  · simp [opens,nameChar,halnum]
  · decide

theorem startsWith_eq_false {p : Char → Bool} {lead s : String} (hs : beginsIn p s = true)
    (hlead : beginsIn p lead = false) (hne : lead ≠ "") : startsWith s lead = false := by
  obtain ⟨x,l,hx⟩ := List.exists_cons_of_ne_nil (toList_ne_nil.mpr hne)
  rw [beginsIn,hx] at hlead
  rw [startsWith,hx]
  cases hc : s.toList with
  | nil => rfl
  | cons c t =>
    rw [beginsIn,hc] at hs
    have hxc : x ≠ c := by
      rintro rfl
      exact Bool.false_ne_true (hlead.symm.trans hs)
    rw [List.isPrefixOf]
    simp [hxc]

theorem no_lead {s : String} (hs : beginsIn opens s = true) :
    ["!","#","[","@@"].any (startsWith s) = false ∧ startsWith s "||" = false := by
  have hlead : ∀ lead ∈ ["!","#","[","@@","||"], startsWith s lead = false := by
    intro lead hlead
    have hopen : ∀ lead ∈ ["!","#","[","@@","||"], beginsIn opens lead = false ∧ lead ≠ "" := by decide
    exact startsWith_eq_false hs (hopen lead hlead).1 (hopen lead hlead).2
  refine ⟨List.any_eq_false.mpr fun lead hmem => ?_,hlead "||" (by simp)⟩
  rw [hlead lead (List.mem_append_left ["||"] hmem)]
  exact Bool.false_ne_true

theorem HostName.opens {d : String} (h : HostName d) : beginsIn Lists.opens d = true := by
  obtain ⟨c,t,hd⟩ := List.exists_cons_of_ne_nil (toList_ne_nil.mpr h.ne_empty)
  have hc : nameChar c = true := h.nameChars c (by simp [hd])
  simp [beginsIn,hd,Lists.opens,hc]

/-- A list of characters that no name has is not met in one. -/
theorem HostName.any_eq_false {d : String} (h : HostName d) {chars : List Char}
    (hchars : chars.any nameChar = false) : d.toList.any (· ∈ chars) = false := by
  refine List.any_eq_false.mpr fun c hc hmem => ?_
  exact List.any_eq_false.mp hchars c (of_decide_eq_true hmem) (h.nameChars c hc)

section Parsers

variable [CaseTables] [IdnaCodec]

open RuleParser

theorem validatedDomain_of_hostName {d : String} (h : HostName d) : validatedDomain d = d := by
  have hencode : IdnaCodec.encode d = some d := by
    refine IdnaCodec.encode_name d h.ascii fun l hl => ⟨?_,(h.labels l hl).short⟩
    exact List.length_pos_iff.mpr (h.labels l hl).nonempty
  have hlabels : (dotted d).any labelFails = false :=
    List.any_eq_false.mpr fun l hl => by simp [(labelFails_iff l).mpr (h.labels l hl)]
  have hfits : ¬(d = "" ∨ 253 < d.toList.length ∨ '.' ∉ d.toList) := by
    rintro (hd | hd | hd)
    · exact h.ne_empty hd
    · exact absurd h.short (by omega)
    · exact hd h.dot_mem
  simp [validatedDomain,h.normalized,hfits,h.noAddress,hencode,hlabels]

/-- The normalized form of an ASCII text, where it passes, is the name of a host. -/
theorem validatedDomain_sound {v : String} (hv : Ascii v) :
    validatedDomain v = "" ∨ HostName (validatedDomain v) := by
  have hstripped : Ascii (strip v) := fun c hc => hv c ((strip_within v).subset hc)
  set d := rstripDots (CaseTables.lower (strip v)) with hd
  have hlower : ∀ c ∈ d.toList, c.toLower = c ∧ c.toNat < 128 := by
    intro c hc
    have hmem := (rstripDots_initial _).subset hc
    rw [CaseTables.lower_ascii _ hstripped,asciiLower,String.toList_ofList] at hmem
    obtain ⟨x,hx,rfl⟩ := List.mem_map.mp hmem
    have hascii := hstripped x hx
    refine ⟨toLower_toLower x,?_⟩
    rw [toNat_toLower]
    split <;> omega
  rw [validatedDomain,← hd]
  split
  · exact Or.inl rfl
  rename_i hfits
  simp only [not_or,not_not,not_lt] at hfits
  obtain ⟨-,hshort,hdot⟩ := hfits
  split
  · exact Or.inl rfl
  rename_i haddress
  cases hencode : IdnaCodec.encode d with
  | none => exact Or.inl rfl
  | some t =>
    obtain rfl := IdnaCodec.encode_ascii d t (fun c hc => (hlower c hc).2) hencode
    simp only
    split
    · exact Or.inl rfl
    rename_i hlabels
    refine Or.inr ⟨?_,hshort,length_splitOn_of_mem hdot,fun l hl => ?_,by simpa using haddress⟩
    · rw [asciiLower,List.map_congr_left fun c hc => (hlower c hc).1,List.map_id',
        String.ofList_toList]
    · refine (labelFails_iff l).mp (Bool.eq_false_iff.mpr fun hfails => hlabels ?_)
      exact List.any_eq_true.mpr ⟨l,hl,hfails⟩

/-- A rule that begins with `||`, once it is trimmed. -/
theorem domain_of_filter {rule : String} {body : List Char}
    (hvalue : (strip rule).toList = '|':: '|'::body) :
    domainFromListRule rule =
      if stripBars ((body.takeWhile (· ≠ '$')).takeWhile (· ≠ '^')) = [] ∨
        (stripBars ((body.takeWhile (· ≠ '$')).takeWhile (· ≠ '^'))).any (· ∈ wildcards) then ""
      else validatedDomain
        (String.ofList (stripBars ((body.takeWhile (· ≠ '$')).takeWhile (· ≠ '^')))) := by
  have hfirst : beginsIn (· == '|') (strip rule) = true := by simp [beginsIn,hvalue]
  have hne : strip rule ≠ "" := toList_ne_nil.mp (by simp [hvalue])
  have hlead : ["!","#","[","@@"].any (startsWith (strip rule)) = false := by
    have hother : ∀ lead ∈ ["!","#","[","@@"], beginsIn (· == '|') lead = false ∧ lead ≠ "" := by decide
    refine List.any_eq_false.mpr fun lead hmem => ?_
    rw [startsWith_eq_false hfirst (hother lead hmem).1 (hother lead hmem).2]
    exact Bool.false_ne_true
  have hbars : startsWith (strip rule) "||" = true := by
    refine List.isPrefixOf_iff_prefix.mpr ⟨body,?_⟩
    rw [hvalue]
    rfl
  have hdrop : (strip rule).toList.drop 2 = body := by rw [hvalue]; rfl
  rw [domainFromListRule]
  simp only [hne,hlead,Bool.false_eq_true,or_self,if_false,hbars,if_true,hdrop]

omit [CaseTables] [IdnaCodec] in
theorem stripBars_name {d : String} (h : HostName d) : stripBars d.toList = d.toList := by
  have hnone : ∀ c ∈ d.toList, (c == '|' || c == '/') = false := by
    intro c hc
    have hbars : d.toList.any (· ∈ ['|','/']) = false := h.any_eq_false (by decide)
    simpa using List.any_eq_false.mp hbars c hc
  have hhead : d.toList.dropWhile (fun c => c == '|' || c == '/') = d.toList := by
    refine dropWhile_eq_self.mpr ?_
    cases hd : d.toList.head? with
    | none => rfl
    | some c => exact hnone c (List.mem_of_mem_head? hd)
  rw [stripBars,hhead]
  refine rdropWhile_eq_self.mpr ?_
  cases hd : d.toList.getLast? with
  | none => rfl
  | some c => exact hnone c (List.mem_of_mem_getLast? hd)

/-- Whatever follows the mark that ends the name of a filter. -/
theorem rule_filter {d : String} (h : HostName d) (rest : List Char) :
    domainFromListRule (String.ofList ('|':: '|'::(d.toList++ '^'::rest))) = d := by
  have hvalue : (strip (String.ofList ('|':: '|'::(d.toList++ '^'::rest)))).toList =
      '|':: '|'::(d.toList++ '^'::rest.rdropWhile isSpace) := by
    have hstrip : (strip (String.ofList ('|':: '|'::(d.toList++['^'])++rest))).toList =
        '|':: '|'::(d.toList++['^'])++rest.rdropWhile isSpace :=
      toList_strip_append ⟨'|','|'::(d.toList++['^']),rfl,by decide⟩ ⟨'|':: '|'::d.toList,'^',rfl,by decide⟩
    have hassoc : ∀ tail : List Char,
        '|':: '|'::(d.toList++['^'])++tail = '|':: '|'::(d.toList++ '^'::tail) := by simp
    rwa [hassoc,hassoc] at hstrip
  have hkept : ∀ c ∈ d.toList, decide (c ≠ '$') = true := by
    intro c hc
    refine decide_eq_true ?_
    rintro rfl
    exact absurd (h.nameChars _ hc) (by decide)
  have hcaret : '^' ∉ d.toList := fun hmem => absurd (h.nameChars _ hmem) (by decide)
  have hcut : ((d.toList++ '^'::rest.rdropWhile isSpace).takeWhile (· ≠ '$')).takeWhile (· ≠ '^') =
      d.toList := by
    rw [List.takeWhile_append_of_pos hkept,List.takeWhile_cons_of_pos (by decide)]
    exact takeWhile_append_cons hcaret
  have hwild : d.toList.any (· ∈ wildcards) = false := h.any_eq_false (by decide)
  rw [domain_of_filter hvalue,hcut,stripBars_name h,String.ofList_toList,validatedDomain_of_hostName h]
  simp [toList_ne_nil.mpr h.ne_empty,hwild]

/-- A rule that begins as names and addresses do. -/
theorem domain_of_fields {rule : String} (hopens : beginsIn opens (strip rule) = true) :
    domainFromListRule rule =
      if 2 ≤ (words (strip rule)).length ∧ isIpAddress ((words (strip rule)).getD 0 "") then
        validatedDomain ((words (strip rule)).getD 1 "")
      else if (words (strip rule)).length = 1 ∧ ¬(strip rule).toList.any (· ∈ marks) then
        validatedDomain (strip rule)
      else "" := by
  obtain ⟨hlead,hbars⟩ := no_lead hopens
  have hne : strip rule ≠ "" := by
    intro h
    rw [h] at hopens
    exact absurd hopens (by decide)
  rw [domainFromListRule]
  simp only [hne,hlead,Bool.false_eq_true,or_self,if_false,hbars]

theorem rule_name {d : String} (h : HostName d) : domainFromListRule d = d := by
  have hwords : words d = [d] := by
    have hone := words_of_no_blank (toList_ne_nil.mpr h.ne_empty) h.no_blank
    rwa [String.ofList_toList] at hone
  have hmarks : d.toList.any (· ∈ marks) = false := h.any_eq_false (by decide)
  have hopens : beginsIn opens (strip d) = true := by rw [h.strip_eq]; exact h.opens
  rw [domain_of_fields hopens,h.strip_eq,hwords,hmarks,validatedDomain_of_hostName h]
  simp

/-- An address that is one word. -/
structure AddressField (ip : String) : Prop where
  address : isIpAddress ip = true
  noBlank : ∀ c ∈ ip.toList, isSpace c = false

theorem rule_address {d ip : String} (h : HostName d) (hip : AddressField ip) {rest : List Char}
    (hrest : rest = [] ∨ rest.head?.any isSpace = true) :
    domainFromListRule (String.ofList (ip.toList++ ' '::(d.toList++rest))) = d := by
  have hopens : beginsIn opens ip = true := by
    have hleads := isIpAddress_leads hip.address
    rw [beginsIn]
    cases hc : ip.toList.head? with
    | none => rw [hc] at hleads; cases hleads
    | some c => rw [hc] at hleads; exact opens_of_leads hleads
  obtain ⟨first,others,hip'⟩ : ∃ first others, ip.toList = first::others := by
    cases hc : ip.toList with
    | nil => rw [beginsIn,hc] at hopens; cases hopens
    | cons c t => exact ⟨c,t,rfl⟩
  obtain ⟨init,last,hd⟩ : ∃ init last, d.toList = init++[last] :=
    ⟨_,_,(List.dropLast_concat_getLast (toList_ne_nil.mpr h.ne_empty)).symm⟩
  have hvalue : (strip (String.ofList (ip.toList++ ' '::(d.toList++rest)))).toList =
      ip.toList++ ' '::(d.toList++rest.rdropWhile isSpace) := by
    have hstrip : (strip (String.ofList ((ip.toList++ ' '::d.toList)++rest))).toList =
        (ip.toList++ ' '::d.toList)++rest.rdropWhile isSpace := by
      refine toList_strip_append ⟨first,others++ ' '::d.toList,by rw [hip']; rfl,?_⟩
        ⟨ip.toList++ ' '::init,last,by rw [hd]; simp,?_⟩
      · exact hip.noBlank first (by simp [hip'])
      · exact h.no_blank last (by simp [hd])
    simpa using hstrip
  set value := strip (String.ofList (ip.toList++ ' '::(d.toList++rest)))
  have hbegin : beginsIn opens value = true := by
    rw [beginsIn,hip'] at hopens
    rw [beginsIn,hvalue,hip']
    exact hopens
  have hwords : ∃ others, words value = ip::d::others := by
    have hipne : ip.toList ≠ [] := by simp [hip']
    have hdne : d.toList ≠ [] := toList_ne_nil.mpr h.ne_empty
    have hform : value = String.ofList (ip.toList++ ' '::(d.toList++rest.rdropWhile isSpace)) := by
      rw [← hvalue,String.ofList_toList]
    rw [hform,words_cons hipne hip.noBlank (by decide)]
    cases hrdrop : rest.rdropWhile isSpace with
    | nil =>
      refine ⟨[],?_⟩
      rw [List.append_nil,words_of_no_blank hdne h.no_blank,String.ofList_toList,String.ofList_toList]
    | cons c t =>
      have hblank : isSpace c = true := by
        obtain ⟨tail,htail⟩ := List.rdropWhile_prefix isSpace rest
        rw [hrdrop] at htail
        rcases hrest with rfl | hhead
        · cases htail
        · rw [← htail] at hhead
          exact hhead
      refine ⟨words (String.ofList t),?_⟩
      rw [words_cons hdne h.no_blank hblank,String.ofList_toList,String.ofList_toList]
  obtain ⟨others,hwords⟩ := hwords
  rw [domain_of_fields hbegin,hwords]
  simpa [hip.address] using validatedDomain_of_hostName h

theorem rule_comment {rule lead : String} (hlead : lead ∈ ["!","#","[","@@"])
    (hrule : startsWith rule lead = true) : domainFromListRule rule = "" := by
  have hends : (∃ c cs, lead.toList = c::cs ∧ isSpace c = false) ∧
      ∃ cs c, lead.toList = cs++[c] ∧ isSpace c = false := by
    simp only [List.mem_cons,List.not_mem_nil,or_false] at hlead
    rcases hlead with rfl | rfl | rfl | rfl
    · exact ⟨⟨'!',[],by simp,by decide⟩,[],'!',by simp,by decide⟩
    · exact ⟨⟨'#',[],by simp,by decide⟩,[],'#',by simp,by decide⟩
    · exact ⟨⟨'[',[],by simp,by decide⟩,[],'[',by simp,by decide⟩
    · exact ⟨⟨'@',['@'],by simp,by decide⟩,['@'],'@',by simp,by decide⟩
  have hany : ["!","#","[","@@"].any (startsWith (strip rule)) = true :=
    List.any_eq_true.mpr ⟨lead,hlead,startsWith_strip hrule hends.1 hends.2⟩
  rw [domainFromListRule]
  simp [hany]

theorem rule_sound {rule : String} (hrule : Ascii rule) :
    domainFromListRule rule = "" ∨ HostName (domainFromListRule rule) := by
  have hvalue : Ascii (strip rule) := fun c hc => hrule c ((strip_within rule).subset hc)
  rw [domainFromListRule]
  simp only
  split
  · exact Or.inl rfl
  split
  · split
    · exact Or.inl rfl
    · refine validatedDomain_sound fun c hc => hvalue c ?_
      rw [String.toList_ofList,stripBars] at hc
      have hbars := (List.dropWhile_suffix _).subset ((List.rdropWhile_prefix _ _).subset hc)
      exact List.drop_subset _ _ ((List.takeWhile_prefix _).subset ((List.takeWhile_prefix _).subset hbars))
  split
  · rename_i hfields
    refine validatedDomain_sound fun c hc => hvalue c (mem_of_mem_words ?_ c hc)
    rw [List.getD_eq_getElem?_getD,List.getElem?_eq_getElem hfields.1,Option.getD_some]
    exact List.getElem_mem _
  split
  · exact validatedDomain_sound hvalue
  · exact Or.inl rfl

theorem rule_empty : domainFromListRule "" = "" := by
  have hempty : strip "" = "" := by decide
  simp [domainFromListRule,hempty]

/-- Every result is empty or the name of a host, every name of a host is read from its forms, and
both parsers read the same. -/
theorem rules_parsed :
    (∀ rule, Ascii rule → (domainFromListRule rule = "" ∨ HostName (domainFromListRule rule)) ∧
      domainFromListRule (domainFromListRule rule) = domainFromListRule rule) ∧
    (∀ d, HostName d → domainFromListRule d = d ∧
      domainFromListRule ("||"++d++"^") = d ∧
      (∀ options, domainFromListRule ("||"++d++"^$"++options) = d) ∧
      ∀ ip, AddressField ip → domainFromListRule (ip++" "++d) = d ∧
        ∀ comment, beginsIn isSpace comment = true → domainFromListRule (ip++" "++d++comment) = d) ∧
    (∀ rule lead, lead ∈ ["!","#","[","@@"] → startsWith rule lead = true →
      domainFromListRule rule = "") ∧
    ∀ rule, RepositoryLists.domainFromRepositoryRule rule = domainFromListRule rule := by
  refine ⟨fun rule hrule => ⟨rule_sound hrule,?_⟩,fun d hd => ⟨rule_name hd,?_,?_,?_⟩,
    fun rule lead => rule_comment,RepositoryLists.domainFromRepositoryRule_eq⟩
  · rcases rule_sound hrule with hempty | hname
    · rw [hempty,rule_empty]
    · exact rule_name hname
  · have hform : "||"++d++"^" = String.ofList ('|':: '|'::(d.toList++['^'])) := by
      rw [← String.toList_inj]
      simp
    rw [hform,rule_filter hd]
  · intro options
    have hform : "||"++d++"^$"++options =
        String.ofList ('|':: '|'::(d.toList++ '^':: '$'::options.toList)) := by
      rw [← String.toList_inj]
      simp
    rw [hform,rule_filter hd]
  · intro ip hip
    have hform : ∀ comment : String, ip++" "++d++comment =
        String.ofList (ip.toList++ ' '::(d.toList++comment.toList)) := by
      intro comment
      rw [← String.toList_inj]
      simp
    refine ⟨?_,fun comment hcomment => ?_⟩
    · have hnone := hform ""
      rw [String.append_empty] at hnone
      rw [hnone,rule_address hd hip (Or.inl (by simp))]
    · rw [hform,rule_address hd hip (Or.inr hcomment)]

end Parsers

/-- The codec that takes the ASCII names it has to take. -/
instance asciiCodec : IdnaCodec where
  encode s :=
    if (∀ c ∈ s.toList, c.toNat < 128) ∧ ∀ l ∈ dotted s, 1 ≤ l.length ∧ l.length ≤ 63 then some s
    else none
  encode_ascii s t _ h := by
    split at h
    · exact (Option.some.inj h).symm
    · cases h
  encode_name s hascii hlabels := if_pos ⟨hascii,hlabels⟩

/-- The scope of an address may have a blank in it, and then the name is the third word. -/
theorem scope_splits_address :
    isIpAddress "fe80::1%a b" = true ∧ HostName "x.com" ∧
      RuleParser.domainFromListRule ("fe80::1%a b"++" "++"x.com") = "" := by
  have hlabels : ∀ l ∈ dotted "x.com", HostLabel l := fun l hl =>
    (labelFails_iff l).mp ((by decide : ∀ l ∈ dotted "x.com", labelFails l = false) l hl)
  refine ⟨by decide,⟨by decide,by decide,by decide,hlabels,by decide⟩,by decide⟩

end Lists
end WormholeObservatory
