import WormholeObservatory.RetryHeaders

/-! Which texts are durations. The pattern finds every part of a text of parts, and what it finds
is the whole text only of such a text. -/
namespace WormholeObservatory
namespace Retry

open Floats
open Updates (decimalDigit optionalPart decimalDigit_ascii)

section Durations

variable [ClockDigits]

/-- `ms`, `s`, `m` or `h`. -/
inductive IsUnit : List Char → Prop
  | single {c : Char} (h : isS c = true ∨ isM c = true ∨ isH c = true) : IsUnit [c]
  | double {c d : Char} (hc : isM c = true) (hd : isS d = true) : IsUnit [c,d]

/-- A number, blanks and a unit. -/
structure IsPart (p : Part) : Prop where
  whole_ne : p.whole ≠ []
  whole : ∀ c ∈ p.whole, decimalDigit c = true
  fraction : ∀ f ∈ p.fraction, f ≠ [] ∧ ∀ c ∈ f, decimalDigit c = true
  blanks : ∀ c ∈ p.blanks, isSpace c = true
  unit : IsUnit p.unit

/-- Parts with spaces before, between and after them. -/
inductive Durations : List Char → List Part → Prop
  | nil : Durations [] []
  | space {l : List Char} {ps : List Part} (h : Durations l ps) : Durations (' '::l) ps
  | part {l : List Char} {ps : List Part} {p : Part} (hp : IsPart p) (h : Durations l ps) :
    Durations (p.text++l) (p::ps)

/-! Letters. -/

omit [ClockDigits] in
theorem unit_letter {c : Char} (h : isS c = true ∨ isM c = true ∨ isH c = true) :
    c ∈ ['s','S','ſ','m','M','h','H'] := by
  simp only [isS,isM,isH,Bool.or_eq_true,decide_eq_true_eq] at h
  rcases h with ((rfl | rfl) | rfl) | (rfl | rfl) | (rfl | rfl) <;> decide

theorem decimalDigit_letter {c : Char} (h : isS c = true ∨ isM c = true ∨ isH c = true) :
    decimalDigit c = false := by
  have hletter := unit_letter h
  by_cases hlong : c = 'ſ'
  · rw [decimalDigit,hlong,ClockDigits.decimal_long]
    rfl
  · have hascii : ∀ c ∈ ['s','S','ſ','m','M','h','H'], c ≠ 'ſ' → c.toNat < 128 ∧ c.isDigit = false := by
      decide
    obtain ⟨hsmall,hdigit⟩ := hascii c hletter hlong
    rw [decimalDigit_ascii hsmall,hdigit]

theorem decimalDigit_blank {c : Char} (h : isSpace c = true) : decimalDigit c = false := by
  rw [decimalDigit,ClockDigits.decimal_blank c h]
  rfl

omit [ClockDigits] in
theorem isSpace_letter {c : Char} (h : isS c = true ∨ isM c = true ∨ isH c = true) :
    isSpace c = false := by
  have hblank : ∀ c ∈ ['s','S','ſ','m','M','h','H'], isSpace c = false := by decide
  exact hblank c (unit_letter h)

omit [ClockDigits] in
theorem IsUnit.head {u : List Char} (h : IsUnit u) :
    ∃ c rest, u = c::rest ∧ (isS c = true ∨ isM c = true ∨ isH c = true) := by
  cases h with
  | single h => exact ⟨_,[],rfl,h⟩
  | double hc hd => exact ⟨_,_,rfl,Or.inr (Or.inl hc)⟩

/-! One match. -/

omit [ClockDigits] in
theorem unitAt_unit {u rest : List Char} (hu : IsUnit u) (hrest : rest.head?.any isS = false) :
    unitAt (u++rest) = some (u,rest) := by
  cases hu with
  | single h =>
    rename_i c
    have hany : (isS c || isM c || isH c) = true := by
      rcases h with h | h | h <;> simp [h]
    simp [unitAt,hrest,hany]
  | double hc hd => simp [unitAt,hc,hd]

omit [ClockDigits] in
theorem of_unitAt {l u rest : List Char} (h : unitAt l = some (u,rest)) : l = u++rest ∧ IsUnit u := by
  cases l with
  | nil => cases h
  | cons c l =>
    rw [unitAt] at h
    split at h
    · rename_i hdouble
      obtain ⟨rfl,rfl⟩ := Prod.mk.inj (Option.some.inj h)
      rw [Bool.and_eq_true] at hdouble
      cases l with
      | nil => cases hdouble.2
      | cons d l => exact ⟨rfl,.double hdouble.1 hdouble.2⟩
    · split at h
      · rename_i hsingle
        obtain ⟨rfl,rfl⟩ := Prod.mk.inj (Option.some.inj h)
        rw [Bool.or_eq_true,Bool.or_eq_true,or_assoc] at hsingle
        exact ⟨rfl,.single hsingle⟩
      · cases h

/-- What follows the digits of a part is no digit and no point. -/
theorem blanks_head {p : Part} (hp : IsPart p) (rest : List Char) :
    ∃ c tail, p.blanks++(p.unit++rest) = c::tail ∧ decimalDigit c = false ∧ c ≠ '.' := by
  obtain ⟨u,units,hunit,hletter⟩ := hp.unit.head
  cases hblanks : p.blanks with
  | nil =>
    refine ⟨u,units++rest,by rw [hunit]; rfl,decimalDigit_letter hletter,?_⟩
    rintro rfl
    exact absurd (unit_letter hletter) (by decide)
  | cons b blanks =>
    have hb := hp.blanks b (by simp [hblanks])
    refine ⟨b,blanks++(p.unit++rest),rfl,decimalDigit_blank hb,?_⟩
    rintro rfl
    exact absurd hb (by decide)

theorem optionalPart_text {p : Part} (hp : IsPart p) (rest : List Char) :
    optionalPart ((p.fraction.map ('.'::·)).getD []++(p.blanks++(p.unit++rest))) =
      (p.fraction,p.blanks++(p.unit++rest)) := by
  obtain ⟨c,tail,hhead,hdigit,hpoint⟩ := blanks_head hp rest
  cases hfraction : p.fraction with
  | none =>
    show optionalPart (p.blanks++(p.unit++rest)) = _
    rw [hhead,optionalPart]
    intro rest' h
    exact hpoint (List.cons.inj h).1
  | some f =>
    obtain ⟨hne,hdigits⟩ := hp.fraction f hfraction
    have hstop : (p.blanks++(p.unit++rest)).head?.any decimalDigit = false := by
      rw [hhead]
      exact hdigit
    obtain ⟨htake,hdrop⟩ := span_append hdigits hstop
    show optionalPart ('.'::(f++(p.blanks++(p.unit++rest)))) = _
    rw [optionalPart,htake,hdrop,if_neg hne]

/-- The pattern matches a part that no s follows. -/
theorem partAt_text {p : Part} (hp : IsPart p) {rest : List Char} (hrest : rest.head?.any isS = false) :
    partAt (p.text++rest) = some (p,rest) := by
  have htext : p.text++rest =
      p.whole++((p.fraction.map ('.'::·)).getD []++(p.blanks++(p.unit++rest))) := by
    simp [Part.text]
  have hstop : ((p.fraction.map ('.'::·)).getD []++(p.blanks++(p.unit++rest))).head?.any decimalDigit =
      false := by
    cases p.fraction with
    | none =>
      obtain ⟨c,tail,hhead,hdigit,-⟩ := blanks_head hp rest
      show (p.blanks++(p.unit++rest)).head?.any decimalDigit = false
      rw [hhead]
      exact hdigit
    | some f =>
      show decimalDigit '.' = false
      rw [decimalDigit_ascii (by decide)]
      decide
  obtain ⟨hwhole,hafter⟩ := span_append hp.whole hstop
  have hletter : (p.unit++rest).head?.any isSpace = false := by
    obtain ⟨u,units,hunit,hu⟩ := hp.unit.head
    rw [hunit]
    exact isSpace_letter hu
  obtain ⟨hblanks,hunit⟩ := span_append hp.blanks hletter
  rw [htext,partAt]
  simp only [hwhole,hafter,optionalPart_text hp rest,hblanks,hunit,unitAt_unit hp.unit hrest,
    if_neg hp.whole_ne,Option.map_some]

omit [ClockDigits] in
theorem of_optionalPart [Registry.DigitTables] (l : List Char) :
    l = ((optionalPart l).1.map ('.'::·)).getD []++(optionalPart l).2 ∧
      ∀ f ∈ (optionalPart l).1, f ≠ [] ∧ ∀ c ∈ f, decimalDigit c = true := by
  unfold optionalPart
  split
  · rename_i rest
    split
    · exact ⟨rfl,by simp⟩
    · rename_i hne
      refine ⟨by simp,fun f hf => ?_⟩
      obtain rfl := Option.some.inj hf
      exact ⟨hne,fun c hc => List.mem_takeWhile_imp hc⟩
  · exact ⟨rfl,by simp⟩

theorem of_partAt {l rest : List Char} {p : Part} (h : partAt l = some (p,rest)) :
    l = p.text++rest ∧ IsPart p := by
  rw [partAt] at h
  split at h
  · cases h
  rename_i hne
  obtain ⟨⟨u,rest'⟩,hunit,hfound⟩ := Option.map_eq_some_iff.mp h
  obtain ⟨rfl,rfl⟩ := Prod.mk.inj hfound
  obtain ⟨hunits,hisUnit⟩ := of_unitAt hunit
  obtain ⟨hafter,hfraction⟩ := of_optionalPart (l.dropWhile decimalDigit)
  refine ⟨?_,⟨hne,fun c hc => List.mem_takeWhile_imp hc,hfraction,fun c hc => List.mem_takeWhile_imp hc,
    hisUnit⟩⟩
  have hwhole := List.takeWhile_append_dropWhile (p := decimalDigit) (l := l)
  have hblanks := List.takeWhile_append_dropWhile (p := isSpace)
    (l := (optionalPart (l.dropWhile decimalDigit)).2)
  calc l = l.takeWhile decimalDigit++l.dropWhile decimalDigit := hwhole.symm
    _ = l.takeWhile decimalDigit++
        (((optionalPart (l.dropWhile decimalDigit)).1.map ('.'::·)).getD []++
          ((optionalPart (l.dropWhile decimalDigit)).2.takeWhile isSpace++(u++rest'))) := by
      rw [← hunits,hblanks,← hafter]
    _ = _ := by simp [Part.text]

/-! All matches. -/

omit [ClockDigits] in
theorem finditer_skip [Registry.DigitTables] (n : ℕ) (l : List Char) : finditer n l = finditer 0 (l.drop n) := by
  induction n generalizing l with
  | zero => rfl
  | succ n ih =>
    cases l with
    | nil => rfl
    | cons c l => exact ih l

theorem text_ne_nil {p : Part} (hp : IsPart p) : ∃ c t, p.text = c::t ∧ decimalDigit c = true := by
  obtain ⟨c,t,hwhole⟩ := List.exists_cons_of_ne_nil hp.whole_ne
  exact ⟨c,_,by rw [Part.text,hwhole]; rfl,hp.whole c (by simp [hwhole])⟩

theorem finditer_found {l rest : List Char} {p : Part} (h : partAt l = some (p,rest)) :
    finditer 0 l = p::finditer 0 rest := by
  obtain ⟨rfl,hp⟩ := of_partAt h
  obtain ⟨c,t,htext,-⟩ := text_ne_nil hp
  rw [htext,List.cons_append] at h ⊢
  simp only [finditer,h]
  rw [finditer_skip,htext]
  simp

/-- A text is searched match by match. -/
theorem search_induction {motive : List Char → Prop} (nil : motive [])
    (skip : ∀ c l, partAt (c::l) = none → motive l → motive (c::l))
    (found : ∀ p rest, IsPart p → partAt (p.text++rest) = some (p,rest) → motive rest →
      motive (p.text++rest)) (l : List Char) : motive l := by
  induction hn : l.length using Nat.strong_induction_on generalizing l with
  | _ n ih =>
    subst hn
    cases l with
    | nil => exact nil
    | cons c l =>
      cases hpart : partAt (c::l) with
      | none => exact skip c l hpart (ih l.length (by simp) l rfl)
      | some first =>
        obtain ⟨p,rest⟩ := first
        obtain ⟨htext,hp⟩ := of_partAt hpart
        obtain ⟨d,t,hcons,-⟩ := text_ne_nil hp
        have hshort : rest.length < (c::l).length := by
          rw [htext,hcons]
          simp
        rw [htext] at hpart ⊢
        exact found p rest hp hpart (ih rest.length hshort rest rfl)

theorem partAt_space (l : List Char) : partAt (' '::l) = none := by
  have hspace : decimalDigit ' ' = false := decimalDigit_blank (by decide)
  rw [partAt]
  simp [hspace]

/-- No s follows a part. -/
theorem Durations.head {l : List Char} {ps : List Part} (h : Durations l ps) : l.head?.any isS = false := by
  cases h with
  | nil => rfl
  | space h => rfl
  | part hp h =>
    obtain ⟨c,t,htext,hdigit⟩ := text_ne_nil hp
    rw [htext]
    by_contra hs
    rw [decimalDigit_letter (Or.inl (Bool.eq_true_of_not_eq_false hs))] at hdigit
    cases hdigit

theorem finditer_durations {l : List Char} {ps : List Part} (h : Durations l ps) : finditer 0 l = ps := by
  induction h with
  | nil => rfl
  | space h ih =>
    rename_i l ps
    simp only [finditer,partAt_space]
    exact ih
  | part hp h ih => rw [finditer_found (partAt_text hp h.head),ih]

omit [ClockDigits] in
theorem dropSpaces_append (l k : List Char) : dropSpaces (l++k) = dropSpaces l++dropSpaces k :=
  List.filter_append _ _

theorem matched_durations {l : List Char} {ps : List Part} (h : Durations l ps) :
    dropSpaces (ps.flatMap Part.text) = dropSpaces l := by
  induction h with
  | nil => rfl
  | space h ih =>
    rw [ih]
    rfl
  | part hp h ih => rw [List.flatMap_cons,dropSpaces_append,dropSpaces_append,ih]

theorem matched_length_le (l : List Char) :
    (dropSpaces ((finditer 0 l).flatMap Part.text)).length ≤ (dropSpaces l).length := by
  induction l using search_induction with
  | nil => exact le_rfl
  | skip c l hnone ih =>
    have hsub : (dropSpaces l).length ≤ (dropSpaces (c::l)).length :=
      ((List.sublist_cons_self c l).filter _).length_le
    simp only [finditer,hnone]
    omega
  | found p rest hp hpart ih =>
    rw [finditer_found hpart,List.flatMap_cons,dropSpaces_append,dropSpaces_append,List.length_append,
      List.length_append]
    omega

/-- What is found is the whole text only where the text is made of parts. -/
theorem durations_of_matched {l : List Char}
    (h : dropSpaces ((finditer 0 l).flatMap Part.text) = dropSpaces l) : Durations l (finditer 0 l) := by
  induction l using search_induction with
  | nil => exact .nil
  | skip c l hnone ih =>
    have hfound : finditer 0 (c::l) = finditer 0 l := by simp only [finditer,hnone]
    rw [hfound] at h ⊢
    by_cases hspace : c = ' '
    · subst hspace
      exact .space (ih h)
    · have hlong : dropSpaces (c::l) = c::dropSpaces l := List.filter_cons_of_pos (by simpa using hspace)
      have hle := matched_length_le l
      rw [h,hlong,List.length_cons] at hle
      omega
  | found p rest hp hpart ih =>
    rw [finditer_found hpart] at h ⊢
    rw [List.flatMap_cons,dropSpaces_append,dropSpaces_append] at h
    exact .part hp (ih (List.append_cancel_left h))

/-! The seconds of a duration. -/

/-- The seconds of a text of parts are looked up part by part. -/
theorem durationSeconds_durations {l : List Char} {ps : List Part} (h : Durations l ps) (hne : ps ≠ []) :
    (∀ q, seconds ps = some q → durationSeconds l = .ok (some q)) ∧
      (seconds ps = none → durationSeconds l = .error .key) := by
  have hwhole : ¬(ps = [] ∨ dropSpaces (ps.flatMap Part.text) ≠ dropSpaces l) := by
    rintro (hnil | hmatched)
    · exact hne hnil
    · exact hmatched (matched_durations h)
  constructor
  · intro q hq
    simp only [durationSeconds,finditer_durations h,if_neg hwhole,hq]
  · intro hq
    simp only [durationSeconds,finditer_durations h,if_neg hwhole,hq]

theorem durationSeconds_other {l : List Char} (h : ∀ ps, Durations l ps → ps = []) :
    durationSeconds l = .ok none := by
  simp only [durationSeconds]
  rw [if_pos]
  by_cases hmatched : dropSpaces ((finditer 0 l).flatMap Part.text) = dropSpaces l
  · exact Or.inl (h _ (durations_of_matched hmatched))
  · exact Or.inr hmatched

end Durations

end Retry
end WormholeObservatory
