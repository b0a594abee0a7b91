import WormholeObservatory.Text

/-! What a second pass of the text operations leaves alone. A trimmed text is one whose ends
are no blanks; the tables of letters are required to keep blanks and other characters apart and
to fold a letter once and for all, which is all that settled forms rest on. -/
namespace WormholeObservatory

def beginsIn (p : Char → Bool) (s : String) : Bool := s.toList.head?.any p

def endsIn (p : Char → Bool) (s : String) : Bool := s.toList.getLast?.any p

/-- An ASCII character that is no capital. -/
def plain (c : Char) : Bool := c.toNat < 128 && c.toLower == c

/-- The rest of what the program uses of the letters of the host language: `str.upper`, and that
`str.lower` empties no text, puts no blank at its ends and has nothing left to do on letters it
returned. -/
class LetterTables extends CaseTables where
  upper : String → String
  upper_ascii : ∀ s, (∀ c ∈ s.toList, c.toNat < 128) →
    upper s = String.ofList (s.toList.map Char.toUpper)
  lower_ne_empty : ∀ s, s ≠ "" → lower s ≠ ""
  strip_lower : ∀ s, strip s = s → strip (lower s) = lower s
  lower_again : ∀ s t, (∀ c ∈ t.toList, c ∈ (lower s).toList ∨ plain c = true) → lower t = t

section Ends

theorem dropWhile_eq_self {α : Type*} {p : α → Bool} {l : List α} :
    l.dropWhile p = l ↔ l.head?.any p = false := by
  cases l with
  | nil => simp
  | cons x xs =>
    rw [List.dropWhile_eq_self_iff]
    simp

theorem rdropWhile_eq_self {α : Type*} {p : α → Bool} {l : List α} :
    l.rdropWhile p = l ↔ l.getLast?.any p = false := by
  rw [List.rdropWhile_eq_self_iff]
  cases l using List.reverseRecOn with
  | nil => simp
  | append_singleton xs x => simp

/-- The characters of one kind end where one of another kind follows. -/
theorem span_append {α : Type*} {p : α → Bool} {x rest : List α} (hx : ∀ a ∈ x, p a = true)
    (hrest : rest.head?.any p = false) :
    (x++rest).takeWhile p = x ∧ (x++rest).dropWhile p = rest := by
  rw [List.takeWhile_append_of_pos hx,List.dropWhile_append_of_pos hx]
  cases rest with
  | nil => simp
  | cons a rest =>
    have ha : p a = false := hrest
    simp [ha]

theorem strip_eq_self_iff {s : String} :
    strip s = s ↔ beginsIn isSpace s = false ∧ endsIn isSpace s = false := by
  have htext : strip s = s ↔ (s.toList.dropWhile isSpace).rdropWhile isSpace = s.toList := by
    rw [← String.toList_inj]
    simp [strip]
  rw [htext,beginsIn,endsIn,← dropWhile_eq_self,← rdropWhile_eq_self]
  constructor
  · intro h
    have hlength := congrArg List.length h
    have hinner := (List.rdropWhile_prefix isSpace (s.toList.dropWhile isSpace)).length_le
    have houter := (List.dropWhile_suffix isSpace (l := s.toList)).length_le
    have hdrop : s.toList.dropWhile isSpace = s.toList :=
      (List.dropWhile_suffix isSpace).eq_of_length (by omega)
    exact ⟨hdrop,by rwa [hdrop] at h⟩
  · rintro ⟨hdrop,hrdrop⟩
    rw [hdrop,hrdrop]

theorem beginsIn_of_initial {s t : String} (h : s.toList.IsPrefix t.toList) (hs : s ≠ "")
    (p : Char → Bool) : beginsIn p s = beginsIn p t := by
  obtain ⟨rest,hrest⟩ := h
  rw [beginsIn,beginsIn,← hrest]
  cases hlist : s.toList with
  | nil => exact absurd (String.toList_inj.mp (by simpa using hlist)) hs
  | cons c cs => rfl

theorem beginsIn_of_prefix {p : Char → Bool} {s t : String} (h : s.toList.IsPrefix t.toList)
    (ht : beginsIn p t = false) : beginsIn p s = false := by
  by_cases hs : s = ""
  · rw [hs]
    rfl
  · rw [beginsIn_of_initial h hs,ht]

theorem startsWith_eq_beginsIn {lead : String} {c : Char} (hlead : lead.toList = [c]) (s : String) :
    startsWith s lead = beginsIn (· == c) s := by
  rw [startsWith,hlead,beginsIn]
  cases s.toList with
  | nil => rfl
  | cons x xs => simp [List.isPrefixOf,eq_comm]

theorem strip_strip (s : String) : strip (strip s) = strip s := by
  refine strip_eq_self_iff.mpr ⟨?_,?_⟩
  · have hbegin : beginsIn isSpace (String.ofList (s.toList.dropWhile isSpace)) = false := by
      rw [beginsIn,String.toList_ofList]
      exact dropWhile_eq_self.mp (List.dropWhile_idempotent _ _)
    refine beginsIn_of_prefix ?_ hbegin
    simp only [strip,String.toList_ofList]
    exact List.rdropWhile_prefix _ _
  · rw [endsIn]
    simp only [strip,String.toList_ofList]
    exact rdropWhile_eq_self.mp (List.rdropWhile_idempotent _ _)

theorem strip_length_le (s : String) : (strip s).toList.length ≤ s.toList.length :=
  (strip_within s).length_le

theorem strip_eq_of_length {s : String} (h : (strip s).toList.length = s.toList.length) :
    strip s = s :=
  String.toList_inj.mp ((strip_within s).eq_of_length h)

theorem rstripDots_length_le (s : String) : (rstripDots s).toList.length ≤ s.toList.length :=
  (rstripDots_initial s).length_le

theorem rstripSlashes_initial (s : String) : (rstripSlashes s).toList.IsPrefix s.toList := by
  simp only [rstripSlashes,String.toList_ofList]
  exact List.rdropWhile_prefix _ _

theorem rstripDots_eq_self {s : String} (h : endsIn (· == '.') s = false) : rstripDots s = s := by
  rw [← String.toList_inj,rstripDots,String.toList_ofList]
  exact rdropWhile_eq_self.mpr h

theorem endsIn_rstripDots (s : String) : endsIn (· == '.') (rstripDots s) = false := by
  rw [endsIn,rstripDots,String.toList_ofList]
  exact rdropWhile_eq_self.mp (List.rdropWhile_idempotent _ _)

theorem rstripSlashes_rstripSlashes (s : String) :
    rstripSlashes (rstripSlashes s) = rstripSlashes s := by
  simp only [rstripSlashes,String.toList_ofList,List.rdropWhile_idempotent]

/-- Trimming what was left of a trimmed text when slashes at its end were dropped. -/
theorem trim_slashes_again_iff (s : String) :
    rstripSlashes (strip (rstripSlashes (strip s))) = rstripSlashes (strip s) ↔
      endsIn isSpace (rstripSlashes (strip s)) = false := by
  constructor
  · intro h
    have hlength := congrArg (fun t => t.toList.length) h
    have hslashes := (rstripSlashes_initial (strip (rstripSlashes (strip s)))).length_le
    have hstrip := strip_length_le (rstripSlashes (strip s))
    have hsame := strip_eq_of_length (s := rstripSlashes (strip s)) (by omega)
    exact (strip_eq_self_iff.mp hsame).2
  · intro h
    have hbegin : beginsIn isSpace (rstripSlashes (strip s)) = false :=
      beginsIn_of_prefix (rstripSlashes_initial _) (strip_eq_self_iff.mp (strip_strip s)).1
    rw [strip_eq_self_iff.mpr ⟨hbegin,h⟩,rstripSlashes_rstripSlashes]

/-- A literal is the list of its characters, which spares decoding it. -/
theorem toList_literal {s : String} {l : List Char} (h : s = String.ofList l) : s.toList = l := by
  rw [h,String.toList_ofList]

/-- The number of characters that trimming leaves alone. -/
def letters (s : String) : ℕ := s.toList.countP fun c => !isSpace c

theorem letters_strip (s : String) : letters (strip s) = letters s := by
  have hdrop : ∀ l : List Char, (l.dropWhile isSpace).countP (fun c => !isSpace c) =
      l.countP fun c => !isSpace c := by
    intro l
    induction l with
    | nil => rfl
    | cons c l ih =>
      by_cases hc : isSpace c = true
      · rw [List.dropWhile_cons_of_pos hc,ih,List.countP_cons_of_neg (by simpa using hc)]
      · rw [List.dropWhile_cons_of_neg hc]
  have hrdrop : ∀ l : List Char, (l.rdropWhile isSpace).countP (fun c => !isSpace c) =
      l.countP fun c => !isSpace c := by
    intro l
    rw [List.rdropWhile,List.countP_reverse,hdrop,List.countP_reverse]
  rw [letters,strip,String.toList_ofList,hrdrop,hdrop]
  rfl

end Ends

section Ascii

theorem toNat_toLower (c : Char) :
    c.toLower.toNat = if 65 ≤ c.toNat ∧ c.toNat ≤ 90 then c.toNat+32 else c.toNat := by
  delta Char.toLower
  simp only [ge_iff_le,UInt32.le_iff_toNat_le]
  split
  · rename_i h
    have hupper : 65 ≤ c.toNat ∧ c.toNat ≤ 90 := h
    rw [if_pos hupper]
    show (c.val+32).toNat = c.val.toNat+32
    have hsmall : c.val.toNat ≤ 90 := h.2
    rw [UInt32.toNat_add]
    show (c.val.toNat+32)%2^32 = c.val.toNat+32
    omega
  · rename_i h
    have hother : ¬(65 ≤ c.toNat ∧ c.toNat ≤ 90) := h
    rw [if_neg hother]

theorem toLower_toLower (c : Char) : c.toLower.toLower = c.toLower := by
  refine Char.toNat_inj.mp ?_
  rw [toNat_toLower c.toLower,toNat_toLower c]
  split
  · rw [if_neg (by omega)]
  · rfl

theorem isSpace_eq_false {c : Char} (hlow : 33 ≤ c.toNat) (hhigh : c.toNat ≤ 126) :
    isSpace c = false := by
  refine decide_eq_false fun h => ?_
  simp only [List.mem_cons,List.not_mem_nil,or_false] at h
  omega

theorem isSpace_toLower (c : Char) : isSpace c.toLower = isSpace c := by
  by_cases hupper : 65 ≤ c.toNat ∧ c.toNat ≤ 90
  · have hlower : c.toLower.toNat = c.toNat+32 := by rw [toNat_toLower,if_pos hupper]
    rw [isSpace_eq_false (by omega) (by omega),isSpace_eq_false (by omega) (by omega)]
  · have hsame : c.toLower = c := Char.toNat_inj.mp (by rw [toNat_toLower,if_neg hupper])
    rw [hsame]

theorem strip_asciiLower {s : String} (h : strip s = s) : strip (asciiLower s) = asciiLower s := by
  obtain ⟨hbegin,hend⟩ := strip_eq_self_iff.mp h
  refine strip_eq_self_iff.mpr ⟨?_,?_⟩
  · simpa [beginsIn,asciiLower,List.head?_map,Option.any_map,Function.comp_def,isSpace_toLower] using hbegin
  · simpa [endsIn,asciiLower,List.getLast?_map,Option.any_map,Function.comp_def,isSpace_toLower] using hend

/-- The tables that leave every letter outside ASCII alone. -/
instance asciiLetters : LetterTables where
  upper s := String.ofList (s.toList.map Char.toUpper)
  upper_ascii _ _ := rfl
  lower_ne_empty s hs := by
    intro h
    have hnil := congrArg String.toList h
    simp only [CaseTables.lower,asciiLower,String.toList_ofList,String.toList_empty,
      List.map_eq_nil_iff] at hnil
    exact hs (String.toList_inj.mp (by simpa using hnil))
  strip_lower _ h := strip_asciiLower h
  lower_again s t h := by
    have hfixed : t.toList.map Char.toLower = t.toList := by
      refine (List.map_congr_left fun c hc => ?_).trans (List.map_id _)
      rcases h c hc with hmem | hplain
      · simp only [CaseTables.lower,asciiLower,String.toList_ofList] at hmem
        obtain ⟨x,-,rfl⟩ := List.mem_map.mp hmem
        exact toLower_toLower x
      · simpa using (Bool.and_eq_true_iff.mp hplain).2
    simp only [CaseTables.lower,asciiLower,hfixed,String.ofList_toList]

end Ascii

section Lowered

variable [LetterTables]

/-- `s.strip().lower()`. -/
def lowered (s : String) : String := CaseTables.lower (strip s)

theorem strip_lowered (s : String) : strip (lowered s) = lowered s :=
  LetterTables.strip_lower _ (strip_strip s)

theorem lower_lower (s : String) : CaseTables.lower (CaseTables.lower s) = CaseTables.lower s :=
  LetterTables.lower_again s _ fun _ hc => Or.inl hc

theorem lowered_lowered (s : String) : lowered (lowered s) = lowered s := by
  rw [lowered,strip_lowered,lowered,lower_lower]

/-- A text that is in the form of names: ASCII without capitals and without blanks at its ends. -/
theorem lowered_of_plain {s : String} (hplain : ∀ c ∈ s.toList, plain c = true)
    (hends : strip s = s) : lowered s = s := by
  rw [lowered,hends]
  exact LetterTables.lower_again "" s fun c hc => Or.inr (hplain c hc)

/-- `s.strip().lower().replace(" ", "_")`. -/
def normalizeTag (s : String) : String := replaceChar ' ' '_' (lowered s)

omit [LetterTables] in
theorem toList_replaceChar (old new : Char) (s : String) :
    (replaceChar old new s).toList = s.toList.map fun c => if c = old then new else c := by
  rw [replaceChar,String.toList_ofList]

theorem strip_normalizeTag (s : String) : strip (normalizeTag s) = normalizeTag s := by
  have hkept : ∀ c, isSpace (if c = ' ' then '_' else c) = true → isSpace c = true := by
    intro c
    split
    · intro h
      exact absurd h (by decide)
    · exact id
  obtain ⟨hbegin,hend⟩ := strip_eq_self_iff.mp (strip_lowered s)
  refine strip_eq_self_iff.mpr ⟨?_,?_⟩
  · rw [beginsIn,normalizeTag,toList_replaceChar,List.head?_map,Option.any_map]
    rw [beginsIn] at hbegin
    cases hhead : (lowered s).toList.head? with
    | none => rfl
    | some c =>
      rw [hhead] at hbegin
      exact Bool.eq_false_iff.mpr fun h => Bool.eq_false_iff.mp hbegin (hkept c h)
  · rw [endsIn,normalizeTag,toList_replaceChar,List.getLast?_map,Option.any_map]
    rw [endsIn] at hend
    cases hlast : (lowered s).toList.getLast? with
    | none => rfl
    | some c =>
      rw [hlast] at hend
      exact Bool.eq_false_iff.mpr fun h => Bool.eq_false_iff.mp hend (hkept c h)

theorem lowered_normalizeTag (s : String) : lowered (normalizeTag s) = normalizeTag s := by
  have hlower : CaseTables.lower (normalizeTag s) = normalizeTag s := by
    refine LetterTables.lower_again (strip s) _ fun c hc => ?_
    rw [normalizeTag,toList_replaceChar] at hc
    obtain ⟨x,hx,rfl⟩ := List.mem_map.mp hc
    split
    · exact Or.inr (by decide)
    · exact Or.inl hx
  rw [lowered,strip_normalizeTag,hlower]

theorem normalizeTag_normalizeTag (s : String) : normalizeTag (normalizeTag s) = normalizeTag s := by
  rw [normalizeTag,lowered_normalizeTag]
  rw [← String.toList_inj,normalizeTag,toList_replaceChar,toList_replaceChar,List.map_map]
  refine List.map_congr_left fun c _ => ?_
  simp only [Function.comp_apply]
  split <;> simp

theorem normalizeTag_eq_empty {s : String} : normalizeTag s = "" ↔ strip s = "" := by
  have hempty : normalizeTag s = "" ↔ lowered s = "" := by
    rw [← String.toList_inj,← String.toList_inj,normalizeTag,toList_replaceChar]
    simp
  rw [hempty]
  constructor
  · intro h
    by_contra hne
    exact LetterTables.lower_ne_empty _ hne h
  · intro h
    rw [lowered,h]
    exact CaseTables.lower_ascii "" (by simp)

end Lowered

end WormholeObservatory
