import WormholeObservatory.RetryDurations
import WormholeObservatory.Traversals

/-! The delay that is returned beside the delay the headers ask for. An instant that has passed, or
that is at most a second ahead, is taken for a delay. -/
namespace WormholeObservatory
namespace Retry

open Floats

/-! Numbers. -/

/-- What an instant is taken for: the time to it when it is more than a second ahead, else itself. -/
theorem numberDelay_instant {now e n : ℚ} (hlow : 10^9 ≤ now) (hhigh : now ≤ 9*10^9)
    (hnear : |e-now| ≤ 604800) (hn : n = e ∨ n = 1000*e) :
    numberDelay (.finite n) now = .finite (if now+1 < e then e-now else e) := by
  obtain ⟨hback,hahead⟩ := abs_le.mp hnear
  have hscaled : (if PyFloat.lt (.finite 10000000000) (.finite n) then milliseconds (.finite n)
      else .finite n) = .finite e := by
    rcases hn with rfl | rfl
    · rw [PyFloat.lt_finite,decide_eq_false (by linarith)]
      rfl
    · rw [PyFloat.lt_finite,decide_eq_true (by linarith)]
      show PyFloat.finite (1000*e/1000) = .finite e
      congr 1
      ring
  rw [numberDelay,hscaled]
  by_cases h : now+1 < e
  · simp [h,since]
  · simp [h]

theorem numberDelay_small {now n : ℚ} (hlow : 10^9 ≤ now) (hn : n < 10^8) :
    numberDelay (.finite n) now = .finite n := by
  have hnot : PyFloat.lt (.finite 10000000000) (.finite n) = false := by
    rw [PyFloat.lt_finite,decide_eq_false (by linarith)]
  have hback : PyFloat.lt (.finite (now+1)) (.finite n) = false := by
    rw [PyFloat.lt_finite,decide_eq_false (by linarith)]
  simp [numberDelay,hnot,hback]

theorem numberDelay_infinite {x : PyFloat} (hx : x = .posInf ∨ x = .negInf ∨ x = .nan) (now : ℚ) :
    numberDelay x now = x := by
  rcases hx with rfl | rfl | rfl <;> rfl

section Delays

variable [CaseTables] [ClockDigits] [DateTexts]

/-- The headers in the order they are read. -/
def headerNames : List String := "retry-after"::resetHeaders

def NoDuration (text : String) : Prop := ∀ ps, Durations text.toList ps → ps = []

/-- A number that names an instant within seven days, in seconds or milliseconds. -/
structure NamesInstant (now : ℚ) (text : String) (e : ℚ) : Prop where
  noDuration : NoDuration text
  number : floatOfText text = some (.finite e) ∨ floatOfText text = some (.finite (1000*e))
  near : |e-now| ≤ 604800

/-- The delay a reset header asks for, or none. -/
inductive ResetAsks (now : ℚ) (text : String) : Option PyFloat → Prop
  | duration {ps : List Part} {q : ℚ} (h : Durations text.toList ps) (hne : ps ≠ [])
      (hq : seconds ps = some q) : ResetAsks now text (some (.finite q))
  | instant {e : ℚ} (h : NamesInstant now text e) : ResetAsks now text (some (.finite (max 0 (e-now))))
  | number {n : ℚ} (h : NoDuration text) (hn : floatOfText text = some (.finite n)) (hsmall : n < 10^8) :
      ResetAsks now text (some (.finite n))
  | infinite {x : PyFloat} (h : NoDuration text) (hx : floatOfText text = some x)
      (hinf : x = .posInf ∨ x = .negInf) : ResetAsks now text (some x)
  | unreadable (h : ∀ ps, Durations text.toList ps → ps ≠ [] → seconds ps = none)
      (hx : floatOfText text = none ∨ floatOfText text = some .nan) : ResetAsks now text none

/-- The delay `Retry-After` asks for, or none. -/
inductive RetryAsks (now : ℚ) (text : String) : Option PyFloat → Prop
  | number {x : PyFloat} (hx : floatOfText text = some x) (hnan : x ≠ .nan) : RetryAsks now text (some x)
  | date {t : ℚ} (hne : text ≠ "") (hx : floatOfText text = none) (ht : DateTexts.instant text = some t) :
      RetryAsks now text (some (.finite (t-now)))
  | unreadable (h : text = "" ∨ floatOfText text = some .nan ∨
      floatOfText text = none ∧ DateTexts.instant text = none) : RetryAsks now text none

/-- The greatest of some delays, negative ones counted as 0. -/
def largest (delays : List PyFloat) : PyFloat := delays.foldl PyFloat.max (.finite 0)

/-- The text of a header that is read as a number. -/
def headerText (headers : List (String × String)) (name : String) : String :=
  if name = "retry-after" then headerValue headers name else compact (headerValue headers name)

/-- A header that is not a number comes before every header that asks for a delay. -/
def NanFirst (headers : List (String × String)) (asks : String → Option PyFloat) : Prop :=
  ∃ before name after, headerNames = before++name::after ∧ (∀ other ∈ before, asks other = none) ∧
    asks name = none ∧ floatOfText (headerText headers name) = some .nan

/-! One header. -/

omit [CaseTables] [DateTexts] in
theorem floatOfText_empty : floatOfText "" = none := by
  have hempty : strip "" = "" := by decide
  rw [floatOfText,hempty]
  rfl

omit [ClockDigits] [DateTexts] in
theorem compact_empty : compact "" = "" := by
  have hempty : strip "" = "" := by decide
  rw [compact,hempty,CaseTables.lower_ascii "" (by decide)]
  rfl

omit [DateTexts] in
theorem ne_empty_of_durations {value : String} {ps : List Part}
    (h : Durations (compact value).toList ps) (hne : ps ≠ []) : value ≠ "" := by
  rintro rfl
  rw [compact_empty] at h
  exact hne (finditer_durations h).symm

omit [DateTexts] in
theorem resetDelay_duration {value : String} {ps : List Part} {q now : ℚ}
    (h : Durations (compact value).toList ps) (hne : ps ≠ []) (hq : seconds ps = some q) :
    resetDelay value now = .ok (some (.finite q)) := by
  rw [resetDelay,if_neg (ne_empty_of_durations h hne),(durationSeconds_durations h hne).1 q hq]
  rfl

omit [DateTexts] in
theorem resetDelay_unknown {value : String} {ps : List Part} {now : ℚ}
    (h : Durations (compact value).toList ps) (hne : ps ≠ []) (hq : seconds ps = none) :
    resetDelay value now = .error .key := by
  rw [resetDelay,if_neg (ne_empty_of_durations h hne),(durationSeconds_durations h hne).2 hq]
  rfl

omit [DateTexts] in
/-- A header that is not there needs no case of its own. -/
theorem resetDelay_number {value : String} {now : ℚ} (h : NoDuration (compact value)) :
    resetDelay value now = .ok ((floatOfText (compact value)).map fun number => numberDelay number now) := by
  rw [resetDelay]
  split
  · rename_i hempty
    rw [hempty,compact_empty,floatOfText_empty]
    rfl
  · rw [durationSeconds_other h]
    rfl

/-! What is read and what is asked for. -/

/-- What is read of a header that asks for such a delay: the delay, a value that is not a number, or
an instant itself. -/
inductive Reads (now : ℚ) (text : String) : Option PyFloat → Option PyFloat → Prop
  | nothing (h : floatOfText text ≠ some .nan) : Reads now text none none
  | delay {x : PyFloat} (hx : x ≠ .nan) : Reads now text (some x) (some x)
  | nan (h : floatOfText text = some .nan) : Reads now text (some .nan) none
  | passed {e : ℚ} (h : NamesInstant now text e) (hpassed : e ≤ now+1) :
      Reads now text (some (.finite e)) (some (.finite (max 0 (e-now))))

omit [CaseTables] in
theorem retryAfterDelay_asked {now : ℚ} {text : String} {x : PyFloat} (h : RetryAsks now text (some x)) :
    retryAfterDelay text now = some x ∧ x ≠ .nan := by
  rw [retryAfterDelay]
  cases h with
  | number hx hnan =>
    have hne : text ≠ "" := by
      rintro rfl
      rw [floatOfText_empty] at hx
      cases hx
    rw [if_neg hne,hx]
    exact ⟨rfl,hnan⟩
  | date hne hx ht =>
    rw [if_neg hne,hx,ht]
    exact ⟨rfl,fun h => PyFloat.noConfusion h⟩

omit [CaseTables] in
theorem retryAfterDelay_reads {now : ℚ} {text : String} {d : Option PyFloat} (h : RetryAsks now text d) :
    Reads now text (retryAfterDelay text now) d := by
  cases d with
  | some x =>
    obtain ⟨hread,hnan⟩ := retryAfterDelay_asked h
    rw [hread]
    exact .delay hnan
  | none =>
    rw [retryAfterDelay]
    cases h with
    | unreadable h =>
      split
      · rename_i hempty
        rw [hempty]
        exact .nothing (by rw [floatOfText_empty]; simp)
      · rename_i hne
        rcases h with h | h | ⟨hx,ht⟩
        · exact absurd h hne
        · rw [h]
          exact .nan h
        · rw [hx,ht]
          exact .nothing (by rw [hx]; simp)

omit [DateTexts] in
theorem resetDelay_instant {now e : ℚ} (hlow : 10^9 ≤ now) (hhigh : now ≤ 9*10^9) {value : String}
    (h : NamesInstant now (compact value) e) :
    resetDelay value now = .ok (some (.finite (if now+1 < e then e-now else e))) := by
  rw [resetDelay_number h.noDuration]
  rcases h.number with hn | hn
  · rw [hn,Option.map_some,numberDelay_instant hlow hhigh h.near (Or.inl rfl)]
  · rw [hn,Option.map_some,numberDelay_instant hlow hhigh h.near (Or.inr rfl)]

omit [DateTexts] in
theorem resetDelay_reads {now : ℚ} (hlow : 10^9 ≤ now) (hhigh : now ≤ 9*10^9) {value : String}
    {d : Option PyFloat} (h : ResetAsks now (compact value) d)
    (hknown : ∀ ps, Durations (compact value).toList ps → ps ≠ [] → seconds ps ≠ none) :
    ∃ c, resetDelay value now = .ok c ∧ Reads now (compact value) c d := by
  cases h with
  | duration hps hne hq => exact ⟨_,resetDelay_duration hps hne hq,.delay (fun h => PyFloat.noConfusion h)⟩
  | instant he =>
    rename_i e
    refine ⟨_,resetDelay_instant hlow hhigh he,?_⟩
    split
    · rename_i hahead
      have hmax : max 0 (e-now) = e-now := max_eq_right (by linarith)
      rw [hmax]
      exact .delay (fun h => PyFloat.noConfusion h)
    · rename_i hpassed
      exact .passed he (not_lt.mp hpassed)
  | number hno hn hsmall =>
    refine ⟨_,resetDelay_number hno,?_⟩
    rw [hn,Option.map_some,numberDelay_small hlow hsmall]
    exact .delay (fun h => PyFloat.noConfusion h)
  | infinite hno hx hinf =>
    refine ⟨_,resetDelay_number hno,?_⟩
    rw [hx,Option.map_some,numberDelay_infinite (hinf.imp_right Or.inl)]
    refine .delay ?_
    rintro rfl
    simp at hinf
  | unreadable hps hx =>
    have hno : NoDuration (compact value) := by
      intro ps h
      by_contra hne
      exact hknown ps h hne (hps ps h hne)
    refine ⟨_,resetDelay_number hno,?_⟩
    rcases hx with hx | hx
    · rw [hx]
      exact .nothing (by rw [hx]; simp)
    · rw [hx,Option.map_some,numberDelay_infinite (Or.inr (Or.inr rfl))]
      exact .nan hx

omit [CaseTables] [DateTexts] in
theorem NamesInstant.positive {now e : ℚ} (hlow : 10^9 ≤ now) {text : String} (h : NamesInstant now text e) :
    0 < e ∧ max 0 (e-now) ≤ e := by
  have hback := (abs_le.mp h.near).1
  have hpos : 0 < e := by linarith
  exact ⟨hpos,max_le hpos.le (by linarith)⟩

/-! All headers. -/

omit [CaseTables] [ClockDigits] [DateTexts] in
theorem min_largest {m : ℚ} (hm : 0 ≤ m) (delays : List PyFloat) :
    PyFloat.min (.finite m) (largest delays) = .finite (PyFloat.greatest 0 m delays) := by
  have hne : PyFloat.finite 0 ≠ .nan := fun h => PyFloat.noConfusion h
  have hlow : PyFloat.max (.finite 0) (largest delays) = largest delays :=
    PyFloat.max_of_le (PyFloat.le_foldl_max (by decide) delays)
  have hzero : PyFloat.clamp 0 m (.finite 0) = 0 := PyFloat.clamp_of_mem le_rfl hm
  rw [← hlow,PyFloat.min_max_eq_clamp,largest,PyFloat.clamp_foldl_max hm hne,hzero,
    max_eq_right (PyFloat.lo_le_greatest 0 m delays)]

omit [CaseTables] [ClockDigits] [DateTexts] in
/-- A delay within the maximum is reached exactly when the maximum is 0 or another one is as long. -/
theorem le_greatest_iff {m q : ℚ} (hm : 0 ≤ m) (hq : 0 < q) {delays : List PyFloat}
    (hnan : ∀ d ∈ delays, d ≠ .nan) :
    min m q ≤ PyFloat.greatest 0 m delays ↔
      m = 0 ∨ ∃ d ∈ delays, PyFloat.le (.finite (min m q)) d = true := by
  constructor
  · intro h
    rcases hm.eq_or_lt with hzero | hpos
    · exact Or.inl hzero.symm
    · have hmin : 0 < min m q := lt_min hpos hq
      obtain ⟨d,hd,hclamp⟩ := PyFloat.exists_of_lo_lt_greatest (hmin.trans_le h)
      refine Or.inr ⟨d,hd,?_⟩
      rw [← hclamp] at h
      cases d with
      | finite x =>
        rw [PyFloat.le_finite,decide_eq_true_eq]
        have hmax : min m q ≤ max 0 x := h.trans (min_le_right _ _)
        exact (le_max_iff.mp hmax).resolve_left (not_le.mpr hmin)
      | posInf => rfl
      | negInf =>
        have hlow : PyFloat.clamp 0 m .negInf = 0 := min_eq_right hm
        rw [hlow] at h
        exact absurd h (not_le.mpr hmin)
      | nan => exact absurd rfl (hnan _ hd)
  · rintro (rfl | ⟨d,hd,hle⟩)
    · exact (min_le_left _ _).trans (PyFloat.lo_le_greatest 0 0 delays)
    · refine le_trans ?_ (PyFloat.clamp_le_greatest hd)
      cases d with
      | finite x =>
        rw [PyFloat.le_finite,decide_eq_true_eq] at hle
        exact le_min (min_le_left _ _) (hle.trans (le_max_right _ _))
      | posInf => exact min_le_left _ _
      | negInf => cases hle
      | nan => cases hle

omit [DateTexts] in
/-- What is read is bounded as what is asked for exactly when no instant that has passed is longer
than both the maximum and every delay that is asked for. -/
theorem greatest_reads_iff {now m : ℚ} (hlow : 10^9 ≤ now) (hm : 0 ≤ m)
    {headers : List (String × String)} {c asks : String → Option PyFloat}
    (hreads : ∀ name ∈ headerNames, Reads now (headerText headers name) (c name) (asks name)) :
    PyFloat.greatest 0 m (headerNames.filterMap c) = PyFloat.greatest 0 m (headerNames.filterMap asks) ↔
      ∀ name ∈ headerNames, ∀ e, NamesInstant now (headerText headers name) e →
        c name = some (.finite e) → m = 0 ∨ ∃ other ∈ headerNames, ∃ d, asks other = some d ∧
          PyFloat.le (.finite (min m e)) d = true := by
  have hasked : ∀ d ∈ headerNames.filterMap asks, d ≠ .nan := by
    intro d hd
    obtain ⟨name,hname,hd⟩ := List.mem_filterMap.mp hd
    have hread := hreads name hname
    rw [hd] at hread
    generalize c name = x at hread
    cases hread with
    | delay hx => exact hx
    | passed h hpassed => exact fun h => PyFloat.noConfusion h
  have hbound : ∀ e : ℚ, 0 < e → PyFloat.clamp 0 m (.finite e) = min m e := by
    intro e he
    rw [PyFloat.clamp,max_eq_right he.le]
  constructor
  · intro hsame name hname e hinstant hread
    have hpos := (hinstant.positive hlow).1
    have hle := @PyFloat.clamp_le_greatest 0 m _ _ (List.mem_filterMap.mpr ⟨name,hname,hread⟩)
    rw [hsame,hbound e hpos,le_greatest_iff hm hpos hasked] at hle
    refine hle.imp_right ?_
    rintro ⟨d,hd,hmore⟩
    obtain ⟨other,hother,hd⟩ := List.mem_filterMap.mp hd
    exact ⟨other,hother,d,hd,hmore⟩
  · intro hmore
    refine le_antisymm (PyFloat.greatest_le_iff.mpr ⟨PyFloat.lo_le_greatest _ _ _,?_⟩)
      (PyFloat.greatest_le_iff.mpr ⟨PyFloat.lo_le_greatest _ _ _,?_⟩)
    · intro x hx
      obtain ⟨name,hname,hx⟩ := List.mem_filterMap.mp hx
      have hread := hreads name hname
      rw [hx] at hread
      generalize hasks : asks name = d at hread
      cases hread with
      | delay _ => exact PyFloat.clamp_le_greatest (List.mem_filterMap.mpr ⟨name,hname,hasks⟩)
      | nan _ =>
        have hzero : PyFloat.clamp 0 m .nan = 0 := min_eq_right hm
        rw [hzero]
        exact PyFloat.lo_le_greatest _ _ _
      | passed hinstant hpassed =>
        have hpos := (hinstant.positive hlow).1
        rw [hbound _ hpos,le_greatest_iff hm hpos hasked]
        refine (hmore name hname _ hinstant hx).imp_right ?_
        rintro ⟨other,hother,d,hd,hle⟩
        exact ⟨d,List.mem_filterMap.mpr ⟨other,hother,hd⟩,hle⟩
    · intro d hd
      obtain ⟨name,hname,hd⟩ := List.mem_filterMap.mp hd
      have hread := hreads name hname
      rw [hd] at hread
      generalize hc : c name = x at hread
      cases hread with
      | delay _ => exact PyFloat.clamp_le_greatest (List.mem_filterMap.mpr ⟨name,hname,hc⟩)
      | passed hinstant hpassed =>
        refine le_trans ?_ (PyFloat.clamp_le_greatest (List.mem_filterMap.mpr ⟨name,hname,hc⟩))
        exact min_le_min le_rfl (max_le_max le_rfl (hinstant.positive hlow).2)

/-! The response. -/

/-- What is read of a header. -/
def readDelay (headers : List (String × String)) (now : ℚ) (name : String) : Option PyFloat :=
  if name = "retry-after" then retryAfterDelay (headerValue headers name) now
  else (resetDelay (headerValue headers name) now).toOption.getD none

omit [CaseTables] [ClockDigits] [DateTexts] in
theorem resetHeaders_ne : ∀ name ∈ resetHeaders, name ≠ "retry-after" := by decide

theorem retryDelay_read {headers : List (String × String)} (hne : headers ≠ []) {m now : ℚ}
    (h : ∀ name ∈ resetHeaders, ∃ c, resetDelay (headerValue headers name) now = .ok c) {delay : PyFloat}
    {delays : List PyFloat} (hdelays : headerNames.filterMap (readDelay headers now) = delay::delays) :
    retryDelayFromHeaders headers m now =
      .ok (some (PyFloat.min (PyFloat.max (.finite 0) (.finite m))
        (PyFloat.max (.finite 0) (delays.foldl PyFloat.max delay)))) := by
  have hresets : resetHeaders.mapM (fun name => resetDelay (headerValue headers name) now) =
      .ok (resetHeaders.map (readDelay headers now)) := by
    refine Traversals.mapM_eq_map fun name hname => ?_
    obtain ⟨c,hc⟩ := h name hname
    rw [readDelay,if_neg (resetHeaders_ne name hname),hc]
    rfl
  have hall : (retryAfterDelay (headerValue headers "retry-after") now::
      resetHeaders.map (readDelay headers now)).filterMap id = delay::delays := by
    have hnames : retryAfterDelay (headerValue headers "retry-after") now::
        resetHeaders.map (readDelay headers now) = headerNames.map (readDelay headers now) := rfl
    rw [hnames,List.filterMap_map]
    exact hdelays
  rw [retryDelayFromHeaders,if_neg hne,hresets]
  simp only [bind,Except.bind,hall]
  rfl

theorem ok_of_retryDelay {headers : List (String × String)} (hne : headers ≠ []) {m now : ℚ}
    {result : Option PyFloat} (h : retryDelayFromHeaders headers m now = .ok result) :
    ∀ name ∈ resetHeaders, ∃ c, resetDelay (headerValue headers name) now = .ok c := by
  rw [retryDelayFromHeaders,if_neg hne] at h
  cases hresets : resetHeaders.mapM (fun name => resetDelay (headerValue headers name) now) with
  | error e =>
    rw [hresets] at h
    cases h
  | ok resets => exact Traversals.exists_mapM_iff.mp ⟨resets,hresets⟩

omit [DateTexts] in
theorem nanFirst_iff {now : ℚ} {headers : List (String × String)} {c asks : String → Option PyFloat}
    (hreads : ∀ name ∈ headerNames, Reads now (headerText headers name) (c name) (asks name)) :
    (∃ delays, headerNames.filterMap c = .nan::delays) ↔ NanFirst headers asks := by
  constructor
  · rintro ⟨delays,h⟩
    obtain ⟨before,name,after,hnames,hnone,hnan,-⟩ := List.filterMap_eq_cons_iff.mp h
    have hasked : ∀ other ∈ before, asks other = none := by
      intro other hother
      have hread := hreads other (by rw [hnames]; exact List.mem_append_left _ hother)
      rw [hnone other hother] at hread
      generalize asks other = d at hread ⊢
      cases hread with
      | nothing _ => rfl
    have hread := hreads name (by rw [hnames]; exact List.mem_append_right _ List.mem_cons_self)
    rw [hnan] at hread
    generalize hasks : asks name = d at hread
    cases hread with
    | delay hx => exact absurd rfl hx
    | nan htext => exact ⟨before,name,after,hnames,hasked,hasks,htext⟩
  · rintro ⟨before,name,after,hnames,hnone,hasks,htext⟩
    have hname := hreads name (by rw [hnames]; exact List.mem_append_right _ List.mem_cons_self)
    have hread : c name = some .nan := by
      rw [hasks] at hname
      generalize c name = x at hname ⊢
      cases hname with
      | nothing h => exact absurd htext h
      | nan _ => rfl
    rw [hnames,List.filterMap_append,List.filterMap_cons_some hread]
    cases hbefore : before.filterMap c with
    | nil => exact ⟨_,rfl⟩
    | cons x xs =>
      obtain ⟨other,hother,hx⟩ := List.mem_filterMap.mp (hbefore ▸ List.mem_cons_self : x ∈ before.filterMap c)
      have hread' := hreads other (by rw [hnames]; exact List.mem_append_left _ hother)
      rw [hnone other hother,hx] at hread'
      cases hread' with
      | nan _ => exact ⟨_,rfl⟩

omit [CaseTables] [ClockDigits] [DateTexts] in
theorem clamp_le_zero_iff {m : ℚ} (hm : 0 ≤ m) {d : PyFloat} (hd : d ≠ .nan) :
    PyFloat.clamp 0 m d ≤ 0 ↔ m = 0 ∨ PyFloat.lt (.finite 0) d = false := by
  cases d with
  | finite q =>
    rw [PyFloat.clamp,PyFloat.lt_finite,decide_eq_false_iff_not,not_lt,min_le_iff,max_le_iff,
      and_iff_right le_rfl]
    exact or_congr_left ⟨fun h => le_antisymm h hm,fun h => h.le⟩
  | posInf =>
    show m ≤ 0 ↔ m = 0 ∨ true = false
    rw [or_iff_left (by decide)]
    exact ⟨fun h => le_antisymm h hm,fun h => h.le⟩
  | negInf => exact iff_of_true (min_le_right _ _) (Or.inr rfl)
  | nan => exact absurd rfl hd

/-- No header asks for anything where there are none. -/
theorem headers_ne_nil {headers : List (String × String)} {now : ℚ} {asks : String → Option PyFloat}
    (hretry : RetryAsks now (headerValue headers "retry-after") (asks "retry-after"))
    (hreset : ∀ name ∈ resetHeaders, ResetAsks now (compact (headerValue headers name)) (asks name))
    {name : String} (hname : name ∈ headerNames) {d : PyFloat} (hd : asks name = some d) :
    headers ≠ [] := by
  rintro rfl
  have hvalue : ∀ name, headerValue [] name = "" := fun _ => rfl
  have hnumber := floatOfText_empty
  rcases List.mem_cons.mp hname with rfl | hname
  · rw [hvalue,hd] at hretry
    cases hretry with
    | number hx _ =>
      rw [hnumber] at hx
      cases hx
    | date hne _ _ => exact hne rfl
  · have h := hreset name hname
    rw [hvalue,compact_empty,hd] at h
    cases h with
    | duration hps hne _ =>
      have hparts := finditer_durations hps
      exact hne hparts.symm
    | instant h =>
      rcases h.number with hx | hx <;> rw [hnumber] at hx <;> cases hx
    | number _ hx _ =>
      rw [hnumber] at hx
      cases hx
    | infinite _ hx _ =>
      rw [hnumber] at hx
      cases hx

theorem reads_of_asks {headers : List (String × String)} {now : ℚ} (hlow : 10^9 ≤ now) (hhigh : now ≤ 9*10^9)
    {asks : String → Option PyFloat}
    (hretry : RetryAsks now (headerValue headers "retry-after") (asks "retry-after"))
    (hreset : ∀ name ∈ resetHeaders, ResetAsks now (compact (headerValue headers name)) (asks name))
    (hknown : ∀ name ∈ resetHeaders, ∀ ps, Durations (compact (headerValue headers name)).toList ps →
      ps ≠ [] → seconds ps ≠ none) :
    (∀ name ∈ resetHeaders, ∃ c, resetDelay (headerValue headers name) now = .ok c) ∧
      ∀ name ∈ headerNames, Reads now (headerText headers name) (readDelay headers now name) (asks name) := by
  have hresets : ∀ name ∈ resetHeaders, ∃ c, resetDelay (headerValue headers name) now = .ok c ∧
      Reads now (compact (headerValue headers name)) c (asks name) :=
    fun name hname => resetDelay_reads hlow hhigh (hreset name hname) (hknown name hname)
  refine ⟨fun name hname => ?_,List.forall_mem_cons.mpr ⟨?_,fun name hname => ?_⟩⟩
  · obtain ⟨c,hc,-⟩ := hresets name hname
    exact ⟨c,hc⟩
  · rw [headerText,readDelay,if_pos rfl,if_pos rfl]
    exact retryAfterDelay_reads hretry
  · obtain ⟨c,hc,hread⟩ := hresets name hname
    rw [headerText,readDelay,if_neg (resetHeaders_ne name hname),if_neg (resetHeaders_ne name hname),hc]
    exact hread

omit [CaseTables] [ClockDigits] [DateTexts] in
/-- What is returned where a first value is read: the bound of the greatest, or 0 where the first is
not a number. -/
theorem retryDelay_bound {m : ℚ} (hm : 0 ≤ m) (delay : PyFloat) (delays : List PyFloat) :
    PyFloat.min (PyFloat.max (.finite 0) (.finite m))
        (PyFloat.max (.finite 0) (delays.foldl PyFloat.max delay)) =
      .finite (if delay = .nan then 0 else PyFloat.greatest 0 m (delay::delays)) := by
  rw [PyFloat.max_finite,max_eq_right hm,PyFloat.min_max_eq_clamp]
  split
  · rename_i hnan
    rw [hnan,PyFloat.foldl_max_nan]
    exact congrArg PyFloat.finite (min_eq_right hm)
  · rename_i hnan
    rw [PyFloat.clamp_foldl_max hm hnan]
    rfl

/-- The delay is the right one exactly when every duration has units that are known and, where the
first header that is read is not a number, no wait is asked for, else no instant that has passed is
longer than both the maximum and what is asked for. -/
theorem retry_delay_iff {headers : List (String × String)} {m now : ℚ} (hm : 0 ≤ m) (hlow : 10^9 ≤ now)
    (hhigh : now ≤ 9*10^9) {asks : String → Option PyFloat}
    (hretry : RetryAsks now (headerValue headers "retry-after") (asks "retry-after"))
    (hreset : ∀ name ∈ resetHeaders, ResetAsks now (compact (headerValue headers name)) (asks name))
    (hread : ∃ name ∈ headerNames, ∃ q, asks name = some (.finite q)) :
    retryDelayFromHeaders headers m now =
        .ok (some (PyFloat.min (.finite m) (largest (headerNames.filterMap asks)))) ↔
      (∀ name ∈ resetHeaders, ∀ ps, Durations (compact (headerValue headers name)).toList ps → ps ≠ [] →
        seconds ps ≠ none) ∧
      (NanFirst headers asks → m = 0 ∨ ∀ name ∈ headerNames, ∀ d, asks name = some d →
        PyFloat.lt (.finite 0) d = false) ∧
      (¬NanFirst headers asks → ∀ name ∈ resetHeaders, ∀ e,
        NamesInstant now (compact (headerValue headers name)) e → e ≤ now+1 →
          m = 0 ∨ ∃ other ∈ headerNames, ∃ d, asks other = some d ∧
            PyFloat.le (.finite (min m e)) d = true) := by
  obtain ⟨first,hfirst,q,hq⟩ := hread
  have hne := headers_ne_nil hretry hreset hfirst hq
  by_cases hknown : ∀ name ∈ resetHeaders, ∀ ps, Durations (compact (headerValue headers name)).toList ps →
      ps ≠ [] → seconds ps ≠ none
  swap
  · refine iff_of_false (fun h => hknown ?_) fun h => hknown h.1
    intro name hname ps hps hpsne hunknown
    obtain ⟨c,hc⟩ := ok_of_retryDelay hne h name hname
    rw [resetDelay_unknown hps hpsne hunknown] at hc
    cases hc
  obtain ⟨hok,hreads⟩ := reads_of_asks hlow hhigh hretry hreset hknown
  have hnumbers : ∀ name ∈ headerNames, asks name ≠ some .nan := by
    intro name hname hnan
    have hread := hreads name hname
    rw [hnan] at hread
    generalize readDelay headers now name = x at hread
    cases hread with
    | delay hx => exact hx rfl
  rw [and_iff_right hknown,min_largest hm]
  by_cases hnan : NanFirst headers asks
  · obtain ⟨delays,hdelays⟩ := (nanFirst_iff hreads).mpr hnan
    rw [imp_iff_right hnan,and_iff_left (fun h => absurd hnan h),retryDelay_read hne hok hdelays]
    simp only [retryDelay_bound hm,if_true,Except.ok.injEq,Option.some.injEq,PyFloat.finite.injEq]
    rw [eq_comm,← (PyFloat.lo_le_greatest 0 m _).ge_iff_eq',PyFloat.greatest_le_iff,and_iff_right le_rfl]
    have hasked : ∀ name ∈ headerNames, ∀ d, asks name = some d →
        (PyFloat.clamp 0 m d ≤ 0 ↔ m = 0 ∨ PyFloat.lt (.finite 0) d = false) := by
      intro name hname d hd
      refine clamp_le_zero_iff hm ?_
      rintro rfl
      exact hnumbers name hname hd
    constructor
    · intro h
      by_cases hzero : m = 0
      · exact Or.inl hzero
      · refine Or.inr fun name hname d hd => ?_
        exact ((hasked name hname d hd).mp (h d (List.mem_filterMap.mpr ⟨name,hname,hd⟩))).resolve_left hzero
    · intro h d hd
      obtain ⟨name,hname,hd⟩ := List.mem_filterMap.mp hd
      exact (hasked name hname d hd).mpr (h.imp_right fun hall => hall name hname d hd)
  · have hread : readDelay headers now first ≠ none := by
      have h := hreads first hfirst
      rw [hq] at h
      generalize readDelay headers now first = x at h
      cases h <;> simp
    obtain ⟨x,hx⟩ := Option.ne_none_iff_exists'.mp hread
    obtain ⟨delay,delays,hdelays⟩ := List.exists_cons_of_ne_nil
      (List.ne_nil_of_mem (List.mem_filterMap.mpr ⟨first,hfirst,hx⟩))
    have hdelay : delay ≠ .nan := by
      rintro rfl
      exact hnan ((nanFirst_iff hreads).mp ⟨delays,hdelays⟩)
    rw [and_iff_right (fun h => absurd h hnan),imp_iff_right hnan,retryDelay_read hne hok hdelays]
    simp only [retryDelay_bound hm,if_neg hdelay,Except.ok.injEq,Option.some.injEq,PyFloat.finite.injEq]
    rw [← hdelays,greatest_reads_iff hlow hm hreads]
    constructor
    · intro h name hname e hinstant hpassed
      have htext : headerText headers name = compact (headerValue headers name) :=
        if_neg (resetHeaders_ne name hname)
      refine h name (List.mem_cons_of_mem _ hname) e (htext ▸ hinstant) ?_
      rw [readDelay,if_neg (resetHeaders_ne name hname),resetDelay_instant hlow hhigh hinstant,
        if_neg (not_lt.mpr hpassed)]
      rfl
    · intro h name hname e hinstant hread
      have hasks := hreads name hname
      rw [hread] at hasks
      generalize hd : asks name = d at hasks
      cases hasks with
      | delay _ =>
        refine Or.inr ⟨name,hname,_,hd,?_⟩
        rw [PyFloat.le_finite,decide_eq_true (min_le_right m e)]
      | passed _ hpassed =>
        rcases List.mem_cons.mp hname with rfl | hname
        · rw [hd] at hretry
          rw [readDelay,if_pos rfl,(retryAfterDelay_asked hretry).1] at hread
          refine Or.inr ⟨"retry-after",List.mem_cons_self,_,hd.trans hread,?_⟩
          rw [PyFloat.le_finite,decide_eq_true (min_le_right m e)]
        · have htext : headerText headers name = compact (headerValue headers name) :=
            if_neg (resetHeaders_ne name hname)
          exact h name hname e (htext ▸ hinstant) hpassed

end Delays

/-! A delay, and an instant that has passed. -/

def askedSeven (name : String) : Option PyFloat := if name = "retry-after" then some (.finite 7) else none

theorem retry_delay_iff_seven :
    retryDelayFromHeaders [("Retry-After","7")] 300 1000000000 =
      .ok (some (PyFloat.min (.finite 300) (largest (headerNames.filterMap askedSeven)))) := by
  have hseven : floatOfText "7" = some (.finite 7) := by decide +kernel
  have hretry : headerValue [("Retry-After","7")] "retry-after" = "7" := by decide
  have hreset : ∀ name ∈ resetHeaders, compact (headerValue [("Retry-After","7")] name) = "" := by decide
  have hother : ∀ name ∈ resetHeaders, askedSeven name = none := by decide
  have hnothing : ∀ ps, Durations "".toList ps → ps ≠ [] → False := by
    intro ps hps hne
    exact hne (finditer_durations hps).symm
  refine (@retry_delay_iff _ _ _ _ 300 1000000000 (by norm_num) (by norm_num) (by norm_num) askedSeven
    ?_ ?_ ?_).mpr ⟨?_,?_,?_⟩
  · rw [hretry]
    exact .number hseven (by decide)
  · intro name hname
    rw [hreset name hname,hother name hname]
    exact .unreadable (fun ps hps hne => absurd hne (hnothing ps hps ·)) (Or.inl floatOfText_empty)
  · exact ⟨"retry-after",List.mem_cons_self,7,rfl⟩
  · intro name hname ps hps hne
    rw [hreset name hname] at hps
    exact absurd hne (hnothing ps hps ·)
  · rintro ⟨before,name,after,hnames,-,hnone,hnan⟩
    have hname : name ∈ headerNames := by simp [hnames]
    rcases List.mem_cons.mp hname with rfl | hname
    · cases hnone
    · rw [headerText,if_neg (resetHeaders_ne name hname),hreset name hname,floatOfText_empty] at hnan
      cases hnan
  · intro _ name hname e he
    rw [hreset name hname] at he
    rcases he.number with h | h <;> rw [floatOfText_empty] at h <;> cases h

/-- A response whose limit was reset ten seconds ago. -/
def resetPassed : List (String × String) := [("X-RateLimit-Reset","1700000000")]

/-- The limit was reset ten seconds ago and the header asks for no wait. The program waits as long as
it may. -/
theorem passed_instant_waits :
    ResetAsks 1700000010 (compact (headerValue resetPassed "x-ratelimit-reset")) (some (.finite 0)) ∧
      retryDelayFromHeaders resetPassed 300 1700000010 = .ok (some (.finite 300)) := by
  have hvalue : compact (headerValue resetPassed "x-ratelimit-reset") = "1700000000" := by decide
  have hnumber : floatOfText "1700000000" = some (.finite 1700000000) := by decide +kernel
  have hno : NoDuration "1700000000" := fun ps h => (finditer_durations h).symm.trans (by decide)
  have hinstant : NamesInstant 1700000010 "1700000000" 1700000000 := ⟨hno,Or.inl hnumber,by norm_num [abs_le]⟩
  have hzero : max 0 ((1700000000 : ℚ)-1700000010) = 0 := by norm_num
  refine ⟨?_,by decide +kernel⟩
  rw [hvalue,← hzero]
  exact .instant hinstant

end Retry
end WormholeObservatory
