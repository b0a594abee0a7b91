import WormholeObservatory.UpdateVersions

/-! How versions are compared beside their precedence. The key takes what follows the first hyphen
or plus sign as one text, build metadata and all. -/
namespace WormholeObservatory
namespace Updates

open SemVer
open Registry (DigitTables)

/-- A version as a release or the program writes it. -/
def written (v : Version) (prefixed : Bool) : String :=
  String.ofList (if prefixed then 'v'::v.text else v.text)

/-- No number of the version is too long for `int`. -/
def Short (v : Version) : Prop :=
  v.major.length ≤ 4300 ∧ v.minor.length ≤ 4300 ∧ v.patch.length ≤ 4300

/-- What follows the first hyphen or plus sign. -/
def suffix (v : Version) : List Char := if v.pre = [] then dots v.build else dots v.pre++v.buildText

def SameCore (v w : Version) : Prop :=
  number v.major = number w.major ∧ number v.minor = number w.minor ∧ number v.patch = number w.patch

/-- The order of the suffixes is that of precedence. Two releases have the same metadata, a release
with metadata comes after the text of a pre-release, and the texts of two pre-releases agree. -/
def SuffixAgrees (v w : Version) : Prop :=
  if v.pre = [] then
    if w.pre = [] then dots v.build = dots w.build
    else v.build = [] ∨ textCompare (suffix w) (suffix v) = .lt
  else if w.pre = [] then w.build = [] ∨ textCompare (suffix v) (suffix w) = .lt
  else PreAgrees (v.buildText = w.buildText) v.pre w.pre

/-- The versions differ in their numbers, or their suffixes are in the order of precedence. -/
def Agrees (v w : Version) : Prop := SameCore v w → SuffixAgrees v w

def sign : Ordering → ℤ
  | .lt => -1
  | .eq => 0
  | .gt => 1

/-! The letters of a version. -/

def versionChar (c : Char) : Bool := identifierChar c || c == '.' || c == '+'

theorem versionChar_range {c : Char} (h : versionChar c = true) : 33 ≤ c.toNat ∧ c.toNat ≤ 126 := by
  simp only [versionChar,identifierChar,Bool.or_eq_true,beq_iff_eq] at h
  rcases h with ((h | rfl) | rfl) | rfl
  · rw [alphanum_iff] at h
    omega
  · decide
  · decide
  · decide

theorem dots_chars {ids : List (List Char)} (h : ∀ x ∈ ids, ∀ c ∈ x, identifierChar c = true) :
    ∀ c ∈ dots ids, versionChar c = true := by
  induction ids with
  | nil => simp [dots]
  | cons x ids ih =>
    obtain ⟨hx,hids⟩ := List.forall_mem_cons.mp h
    intro c hc
    have hsplit := dots_cons x ids []
    rw [List.append_nil] at hsplit
    rw [hsplit,List.mem_append] at hc
    rcases hc with hc | hc
    · simp [versionChar,hx c hc]
    · rw [dotsTail,List.append_nil] at hc
      split at hc
      · exact absurd hc List.not_mem_nil
      · rcases List.mem_cons.mp hc with rfl | hc
        · decide
        · exact ih hids c hc

theorem suffix_chars (v : Version) : ∀ c ∈ suffix v, versionChar c = true := by
  have hbuild := dots_chars fun x hx => (v.buildIdentifiers x hx).2
  intro c hc
  rw [suffix] at hc
  split at hc
  · exact hbuild c hc
  · rcases List.mem_append.mp hc with hc | hc
    · exact dots_chars (fun x hx => (v.preIdentifiers x hx).chars) c hc
    · rw [Version.buildText] at hc
      split at hc
      · exact absurd hc List.not_mem_nil
      · rcases List.mem_cons.mp hc with rfl | hc
        · decide
        · exact hbuild c hc

theorem dots_ne_nil {ids : List (List Char)} (hne : ids ≠ []) (h : ∀ x ∈ ids, x ≠ []) : dots ids ≠ [] := by
  obtain ⟨x,rest,rfl⟩ := List.exists_cons_of_ne_nil hne
  have hsplit := dots_cons x rest []
  rw [List.append_nil] at hsplit
  rw [hsplit]
  exact List.append_ne_nil_of_left_ne_nil (h x List.mem_cons_self) _

/-- A version has a suffix unless it is a release without metadata. -/
theorem suffix_eq_nil_iff (v : Version) : suffix v = [] ↔ v.pre = [] ∧ v.build = [] := by
  rw [suffix]
  split
  · rename_i hpre
    rw [and_iff_right hpre]
    constructor
    · intro h
      by_contra hne
      exact dots_ne_nil hne (fun x hx => (v.buildIdentifiers x hx).1) h
    · intro h
      rw [h]
      rfl
  · rename_i hpre
    refine iff_of_false (fun h => ?_) fun h => hpre h.1
    exact dots_ne_nil hpre (fun x hx => (v.preIdentifiers x hx).nonempty) (List.append_eq_nil_iff.mp h).1

/-- The text after the numbers is a mark and the suffix, or nothing. -/
theorem tail_text (v : Version) : v.preText++v.buildText =
    if suffix v = [] then [] else (if v.pre = [] then '+' else '-')::suffix v := by
  by_cases hpre : v.pre = []
  · by_cases hbuild : v.build = []
    · have hnone := (suffix_eq_nil_iff v).mpr ⟨hpre,hbuild⟩
      simp [Version.preText,Version.buildText,hpre,hbuild,hnone]
    · have hsome : suffix v ≠ [] := fun h => hbuild ((suffix_eq_nil_iff v).mp h).2
      rw [if_neg hsome,if_pos hpre]
      simp [Version.preText,Version.buildText,hpre,hbuild,suffix]
  · have hsome : suffix v ≠ [] := fun h => hpre ((suffix_eq_nil_iff v).mp h).1
    rw [if_neg hsome,if_neg hpre]
    simp [Version.preText,hpre,suffix]

section Keys

variable [CaseTables] [DigitTables]

omit [CaseTables] in
theorem decimalDigit_of_numeric {x : List Char} (hx : IsNumeric x) : ∀ c ∈ x, decimalDigit c = true := by
  intro c hc
  have hdigit := List.all_eq_true.mp hx.digits c hc
  have hrange := digit_range hdigit
  rw [decimalDigit_ascii (by omega),hdigit]

omit [CaseTables] in
/-- The digits of a number end where it does. -/
theorem span_numeric {x rest : List Char} (hx : IsNumeric x) (hrest : rest.head?.any decimalDigit = false) :
    (x++rest).takeWhile decimalDigit = x ∧ (x++rest).dropWhile decimalDigit = rest :=
  span_append (decimalDigit_of_numeric hx) hrest

omit [CaseTables] in
theorem optionalPart_numeric {x rest : List Char} (hx : IsNumeric x)
    (hrest : rest.head?.any decimalDigit = false) : optionalPart ('.'::(x++rest)) = (some x,rest) := by
  obtain ⟨htake,hdrop⟩ := span_numeric hx hrest
  rw [optionalPart,htake,hdrop,if_neg hx.nonempty]

omit [CaseTables] [DigitTables] in
theorem matchSuffix_tail (v : Version) :
    matchSuffix (v.preText++v.buildText) = some (if suffix v = [] then none else some (suffix v)) := by
  rw [tail_text]
  by_cases h : suffix v = []
  · rw [if_pos h,if_pos h]
    rfl
  · have hbreak : '\n' ∉ suffix v := fun hmem => absurd (suffix_chars v _ hmem) (by decide)
    have hmark : (if v.pre = [] then '+' else '-') = '-' ∨ (if v.pre = [] then '+' else '-') = '+' := by
      split
      · exact Or.inr rfl
      · exact Or.inl rfl
    rw [if_neg h,if_neg h,matchSuffix,if_pos ⟨hmark,hbreak⟩]

omit [CaseTables] in
theorem matchVersion_written (v : Version) (prefixed : Bool) :
    matchVersion (written v prefixed).toList = some ⟨v.major,some v.minor,some v.patch,
      if suffix v = [] then none else some (suffix v)⟩ := by
  have hdot : ∀ l : List Char, ('.'::l).head?.any decimalDigit = false := by
    intro l
    show decimalDigit '.' = false
    rw [decimalDigit_ascii (by decide)]
    decide
  have htail : (v.preText++v.buildText).head?.any decimalDigit = false := by
    rw [tail_text]
    split
    · rfl
    · show decimalDigit (if v.pre = [] then '+' else '-') = false
      split
      · rw [decimalDigit_ascii (by decide)]
        decide
      · rw [decimalDigit_ascii (by decide)]
        decide
  have hstart : (if (written v prefixed).toList.head? = some 'v' then (written v prefixed).toList.tail
      else (written v prefixed).toList) = v.text := by
    rw [written,String.toList_ofList]
    cases prefixed with
    | true => rfl
    | false =>
      obtain ⟨c,rest,hmajor⟩ := List.exists_cons_of_ne_nil v.majorNumeric.nonempty
      have hc : c ≠ 'v' := by
        rintro rfl
        have hdigit := List.all_eq_true.mp v.majorNumeric.digits 'v' (by simp [hmajor])
        exact absurd hdigit (by decide)
      simp [Version.text,hmajor,hc]
  obtain ⟨hmajor,hrest⟩ := span_numeric v.majorNumeric (hdot (v.minor++ '.'::(v.patch++(v.preText++v.buildText))))
  have hminor := optionalPart_numeric v.minorNumeric (hdot (v.patch++(v.preText++v.buildText)))
  have hpatch := optionalPart_numeric v.patchNumeric htail
  rw [matchVersion,hstart,Version.text]
  simp only [hmajor,hrest,hminor,hpatch,if_neg v.majorNumeric.nonempty,matchSuffix_tail,Option.map_some]

omit [CaseTables] in
theorem mapM_decimal {x : List Char} (h : digits x = true) :
    x.mapM DigitTables.decimal = some (x.map fun c => c.toNat-48) := by
  induction x with
  | nil => rfl
  | cons c x ih =>
    rw [digits,List.all_cons,Bool.and_eq_true] at h
    have hrange := digit_range h.1
    have hc : DigitTables.decimal c = some (c.toNat-48) := by
      rw [DigitTables.decimal_ascii c (by omega),if_pos h.1]
    rw [List.mapM_cons,hc,ih h.2]
    rfl

omit [CaseTables] in
theorem readDigits_numeric {x : List Char} (hx : IsNumeric x) :
    readDigits x = if 4300 < x.length then none else some (number x) := by
  have hnumber : (x.map fun c => c.toNat-48).foldl (fun n d => 10*n+d) 0 = number x := by
    rw [List.foldl_map]
    rfl
  rw [readDigits,mapM_decimal hx.digits,Option.map_some,hnumber]

/-! The key of a version. -/

/-- The key the numbers and the suffix of a version make. -/
def keyOf (v : Version) : VersionKey :=
  ⟨number v.major,number v.minor,number v.patch,if suffix v = [] then 1 else 0,suffix v⟩

omit [CaseTables] [DigitTables] in
theorem written_chars (v : Version) (prefixed : Bool) :
    ∀ c ∈ (written v prefixed).toList, versionChar c = true := by
  have hnumeric : ∀ {x : List Char}, IsNumeric x → ∀ c ∈ x, versionChar c = true := by
    intro x hx c hc
    have hdigit := List.all_eq_true.mp hx.digits c hc
    simp [versionChar,identifierChar,Char.isAlphanum,hdigit]
  have htext : ∀ c ∈ v.text, versionChar c = true := by
    intro c hc
    rw [Version.text,tail_text] at hc
    simp only [List.mem_append,List.mem_cons] at hc
    rcases hc with hc | rfl | hc | rfl | hc | hc
    · exact hnumeric v.majorNumeric c hc
    · decide
    · exact hnumeric v.minorNumeric c hc
    · decide
    · exact hnumeric v.patchNumeric c hc
    · split at hc
      · exact absurd hc List.not_mem_nil
      · rcases List.mem_cons.mp hc with rfl | hc
        · split <;> decide
        · exact suffix_chars v c hc
  intro c hc
  rw [written,String.toList_ofList] at hc
  split at hc
  · rcases List.mem_cons.mp hc with rfl | hc
    · decide
    · exact htext c hc
  · exact htext c hc

omit [CaseTables] [DigitTables] in
theorem strip_written (v : Version) (prefixed : Bool) : strip (written v prefixed) = written v prefixed := by
  have hblank : ∀ c ∈ (written v prefixed).toList, isSpace c = false := fun c hc =>
    isSpace_eq_false (versionChar_range (written_chars v prefixed c hc)).1
      (versionChar_range (written_chars v prefixed c hc)).2
  refine strip_eq_self_iff.mpr ⟨?_,?_⟩
  · rw [beginsIn]
    cases h : (written v prefixed).toList.head? with
    | none => rfl
    | some c => exact hblank c (List.mem_of_mem_head? h)
  · rw [endsIn]
    cases h : (written v prefixed).toList.getLast? with
    | none => rfl
    | some c => exact hblank c (List.mem_of_mem_getLast? h)

theorem versionKey_written (v : Version) (prefixed : Bool) :
    (Short v → versionKey (written v prefixed) = some (keyOf v)) ∧
      (¬Short v → versionKey (written v prefixed) = none) := by
  have hsuffix : (if suffix v = [] then none else some (suffix v)).getD [] = suffix v := by
    split
    · rename_i h
      exact h.symm
    · rfl
  have hkey : versionKey (written v prefixed) = (do
      let major ← (if 4300 < v.major.length then none else some (number v.major))
      let minor ← (if 4300 < v.minor.length then none else some (number v.minor))
      let patch ← (if 4300 < v.patch.length then none else some (number v.patch))
      return ⟨major,minor,patch,if suffix v = [] then 1 else 0,suffix v⟩) := by
    rw [versionKey,strip_written]
    simp only [matchVersion_written,hsuffix,Option.map_some,Option.getD_some,
      readDigits_numeric v.majorNumeric,readDigits_numeric v.minorNumeric,
      readDigits_numeric v.patchNumeric]
  constructor
  · rintro ⟨hmajor,hminor,hpatch⟩
    rw [hkey,if_neg (by omega),if_neg (by omega),if_neg (by omega)]
    rfl
  · intro hlong
    rw [hkey]
    by_cases hmajor : 4300 < v.major.length
    · rw [if_pos hmajor]
      rfl
    by_cases hminor : 4300 < v.minor.length
    · rw [if_neg hmajor,if_pos hminor]
      rfl
    by_cases hpatch : 4300 < v.patch.length
    · rw [if_neg hmajor,if_neg hminor,if_pos hpatch]
      rfl
    exact absurd ⟨by omega,by omega,by omega⟩ hlong

/-! Keys and precedence. -/

omit [CaseTables] [DigitTables] in
theorem buildText_tail (v : Version) : BuildTail v.buildText := by
  rw [Version.buildText]
  split
  · exact .nil
  · exact .plus _

omit [CaseTables] [DigitTables] in
/-- The part of the key after the numbers, beside the precedence of the pre-releases. -/
theorem suffixAgrees_iff (v w : Version) :
    (compare (keyOf v).stable (keyOf w).stable).then (textCompare (suffix v) (suffix w)) =
      preCompare v.pre w.pre ↔ SuffixAgrees v w := by
  have hstable : ∀ u : Version, (keyOf u).stable = if suffix u = [] then 1 else 0 := fun _ => rfl
  rw [SuffixAgrees,hstable,hstable]
  by_cases hv : v.pre = []
  · by_cases hw : w.pre = []
    · have hvs : suffix v = dots v.build := if_pos hv
      have hws : suffix w = dots w.build := if_pos hw
      rw [if_pos hv,if_pos hw,hv,hw,hvs,hws,preCompare]
      constructor
      · intro h
        exact textCompare_eq_iff.mp (Ordering.then_eq_eq.mp h).2
      · intro h
        rw [h,textCompare_self]
        simp
    · have hws : suffix w ≠ [] := fun h => hw ((suffix_eq_nil_iff w).mp h).1
      obtain ⟨y,ys,hys⟩ := List.exists_cons_of_ne_nil hw
      rw [if_pos hv,if_neg hw,if_neg hws,hv,hys,preCompare]
      by_cases hb : v.build = []
      · have hvs : suffix v = [] := (suffix_eq_nil_iff v).mpr ⟨hv,hb⟩
        rw [if_pos hvs]
        exact iff_of_true rfl (Or.inl hb)
      · have hvs : suffix v ≠ [] := fun h => hb ((suffix_eq_nil_iff v).mp h).2
        rw [if_neg hvs,or_iff_right hb,← textCompare_swap (suffix w) (suffix v)]
        show (textCompare (suffix w) (suffix v)).swap = Ordering.lt.swap ↔ _
        rw [Ordering.swap_inj]
  · have hvs : suffix v ≠ [] := fun h => hv ((suffix_eq_nil_iff v).mp h).1
    obtain ⟨x,xs,hxs⟩ := List.exists_cons_of_ne_nil hv
    by_cases hw : w.pre = []
    · rw [if_neg hv,if_pos hw,if_neg hvs,hw,hxs,preCompare]
      by_cases hb : w.build = []
      · have hws : suffix w = [] := (suffix_eq_nil_iff w).mpr ⟨hw,hb⟩
        rw [if_pos hws]
        exact iff_of_true rfl (Or.inl hb)
      · have hws : suffix w ≠ [] := fun h => hb ((suffix_eq_nil_iff w).mp h).2
        rw [if_neg hws,or_iff_right hb]
        rfl
    · have hws : suffix w ≠ [] := fun h => hw ((suffix_eq_nil_iff w).mp h).1
      have hpre : preCompare v.pre w.pre = idsCompare v.pre w.pre := by
        obtain ⟨y,ys,hys⟩ := List.exists_cons_of_ne_nil hw
        rw [hxs,hys]
        rfl
      have hagrees := preAgrees_iff v.preIdentifiers w.preIdentifiers hv hw (buildText_tail v)
        (buildText_tail w)
      have hvd : suffix v = dots v.pre++v.buildText := if_neg hv
      have hwd : suffix w = dots w.pre++w.buildText := if_neg hw
      rw [if_neg hv,if_neg hw,if_neg hvs,if_neg hws,hpre,hvd,hwd,← hagrees]
      rfl

omit [CaseTables] [DigitTables] in
theorem then_left_iff {a x y : Ordering} : a.then x = a.then y ↔ (a = .eq → x = y) := by
  cases a <;> simp

omit [CaseTables] [DigitTables] in
/-- Keys are in the order of precedence exactly when the versions agree. -/
theorem keyCompare_iff (v w : Version) :
    keyCompare (keyOf v) (keyOf w) = precedence v w ↔ Agrees v w := by
  rw [keyCompare,precedence,Agrees,← suffixAgrees_iff,SameCore]
  show (compare (number v.major) (number w.major)).then ((compare (number v.minor) (number w.minor)).then
    ((compare (number v.patch) (number w.patch)).then _)) = _ ↔ _
  rw [then_left_iff,Nat.compare_eq_eq,then_left_iff,Nat.compare_eq_eq,then_left_iff,Nat.compare_eq_eq]
  constructor
  · rintro h ⟨hmajor,hminor,hpatch⟩
    exact h hmajor hminor hpatch
  · exact fun h hmajor hminor hpatch => h ⟨hmajor,hminor,hpatch⟩

/-! Comparing two versions. -/

theorem compareVersions_short {v w : Version} (hv : Short v) (hw : Short w) (p q : Bool) :
    compareVersions (written v p) (written w q) = some (sign (keyCompare (keyOf v) (keyOf w))) := by
  rw [compareVersions,(versionKey_written v p).1 hv,(versionKey_written w q).1 hw]
  cases h : keyCompare (keyOf v) (keyOf w) <;> simp [h,sign]

theorem compareVersions_long {v w : Version} (h : ¬(Short v ∧ Short w)) (p q : Bool) :
    compareVersions (written v p) (written w q) = none := by
  rw [compareVersions]
  by_cases hv : Short v
  · have hw : ¬Short w := fun hw => h ⟨hv,hw⟩
    rw [(versionKey_written v p).1 hv,(versionKey_written w q).2 hw]
    rfl
  · rw [(versionKey_written v p).2 hv]
    rfl

omit [CaseTables] [DigitTables] in
theorem sign_inj {a b : Ordering} : sign a = sign b ↔ a = b := by
  cases a <;> cases b <;> simp [sign]

theorem compareVersions_iff (v w : Version) (p q : Bool) :
    compareVersions (written v p) (written w q) = some (sign (precedence v w)) ↔
      Short v ∧ Short w ∧ Agrees v w := by
  rw [← and_assoc]
  by_cases hshort : Short v ∧ Short w
  · rw [compareVersions_short hshort.1 hshort.2,Option.some_inj,sign_inj,keyCompare_iff,and_iff_right hshort]
  · rw [compareVersions_long hshort]
    exact iff_of_false (fun h => nomatch h) fun h => hshort h.1

/-! The release that is chosen. -/

omit [CaseTables] [DigitTables] in
theorem keyCompare_eq : keyCompare = compareLex (compareOn VersionKey.major)
    (compareLex (compareOn VersionKey.minor) (compareLex (compareOn VersionKey.patch)
      (compareLex (compareOn VersionKey.stable) fun a b => textCompare a.suffix b.suffix))) := rfl

instance : Std.TransCmp keyCompare := by
  have hsuffix : Std.TransCmp fun a b : VersionKey => textCompare a.suffix b.suffix :=
    { eq_swap := Std.OrientedCmp.eq_swap
      isLE_trans := Std.TransCmp.isLE_trans }
  rw [keyCompare_eq]
  infer_instance

/-- No release has a higher key than the one that is kept. -/
theorem highest_spec {key : Release → VersionKey} {best : Release} {rs : List Release}
    (hrs : ∀ r ∈ rs, versionKey r.version = some (key r)) :
    ∃ chosen ∈ best::rs, highest best (key best) rs = .ok chosen ∧
      ∀ r ∈ best::rs, (keyCompare (key r) (key chosen)).isLE := by
  induction rs generalizing best with
  | nil => exact ⟨best,List.mem_cons_self,rfl,by simp [Std.ReflCmp.compare_self]⟩
  | cons r rs ih =>
    obtain ⟨hr,hrest⟩ := List.forall_mem_cons.mp hrs
    simp only [highest,hr]
    by_cases hgt : keyCompare (key r) (key best) = .gt
    · obtain ⟨chosen,hmem,hchosen,hmax⟩ := @ih r hrest
      rw [if_pos hgt]
      refine ⟨chosen,List.mem_cons_of_mem _ hmem,hchosen,List.forall_mem_cons.mpr ⟨?_,hmax⟩⟩
      have hle : (keyCompare (key best) (key r)).isLE := by
        rw [@Std.OrientedCmp.eq_swap _ keyCompare _ _ _,hgt]
        rfl
      exact Std.TransCmp.isLE_trans hle (hmax r List.mem_cons_self)
    · obtain ⟨chosen,hmem,hchosen,hmax⟩ := @ih best hrest
      rw [if_neg hgt]
      have hbest := hmax best List.mem_cons_self
      have hle : (keyCompare (key r) (key best)).isLE := Ordering.isLE_iff_ne_gt.mpr hgt
      refine ⟨chosen,?_,hchosen,?_⟩
      · rcases List.mem_cons.mp hmem with rfl | hmem
        · exact List.mem_cons_self
        · exact List.mem_cons_of_mem _ (List.mem_cons_of_mem _ hmem)
      · intro r' hr'
        rcases List.mem_cons.mp hr' with rfl | hr'
        · exact hbest
        rcases List.mem_cons.mp hr' with rfl | hr'
        · exact Std.TransCmp.isLE_trans hle hbest
        · exact hmax r' (List.mem_cons_of_mem _ hr')

/-- What is published and no development build. -/
def versioned (releases : List (Option Release)) : List Release :=
  ((releases.filterMap id).filter fun r => !r.draft).filter fun r => !r.isDevelopment

/-- Among versions that agree, the release that is chosen has the highest precedence. -/
theorem fetchReleasePayload_highest {releases : List (Option Release)} {first : Release}
    {rest : List Release} (hpublished : (releases.filterMap id).filter (fun r => !r.draft) = first::rest)
    (hfirst : first.isDevelopment = false) {version : Release → Version} {prefixed : Release → Bool}
    (hversion : ∀ r ∈ versioned releases, r.version = written (version r) (prefixed r))
    (hshort : ∀ r ∈ versioned releases, Short (version r))
    (hagrees : ∀ r ∈ versioned releases, ∀ r' ∈ versioned releases, Agrees (version r) (version r')) :
    ∃ chosen ∈ versioned releases, fetchReleasePayload releases = .ok chosen ∧
      ∀ r ∈ versioned releases, precedence (version r) (version chosen) ≠ .gt := by
  have hsplit : versioned releases = first::rest.filter fun r => !r.isDevelopment := by
    rw [versioned,hpublished,List.filter_cons_of_pos (by simp [hfirst])]
  have hkeys : ∀ r ∈ versioned releases, versionKey r.version = some (keyOf (version r)) := by
    intro r hr
    rw [hversion r hr]
    exact (versionKey_written _ _).1 (hshort r hr)
  have hbest := hkeys first (by simp [hsplit])
  have hrest : ∀ r ∈ rest.filter fun r => !r.isDevelopment, versionKey r.version = some (keyOf (version r)) :=
    fun r hr => hkeys r (by rw [hsplit]; exact List.mem_cons_of_mem _ hr)
  obtain ⟨chosen,hmem,hchosen,hmax⟩ := @highest_spec _ _ (fun r => keyOf (version r)) first _ hrest
  rw [← hsplit] at hmem hmax
  refine ⟨chosen,hmem,?_,fun r hr => ?_⟩
  · rw [fetchReleasePayload,hpublished]
    simp only [hfirst,hbest]
    exact hchosen
  · have hle := hmax r hr
    rw [(keyCompare_iff _ _).mpr (hagrees r hr chosen hmem)] at hle
    exact Ordering.isLE_iff_ne_gt.mp hle

/-! Whether an update is on offer. -/

omit [DigitTables] in
/-- A release is shown by its version without the letter before it. -/
theorem displayVersion_written (own channel : String) (v : Version) (prefixed : Bool) :
    displayVersion own (written v prefixed) channel = written v false := by
  obtain ⟨c,rest,hmajor⟩ := List.exists_cons_of_ne_nil v.majorNumeric.nonempty
  have hdigit := List.all_eq_true.mp v.majorNumeric.digits c (by simp [hmajor])
  have hrange := digit_range hdigit
  have hletter : (c == 'v' || c == 'V') = false := by
    rw [Bool.or_eq_false_iff,beq_eq_false_iff_ne,beq_eq_false_iff_ne]
    constructor <;> rintro rfl <;> exact absurd hdigit (by decide)
  have htext : ∃ more, v.text = c::more := ⟨_,by rw [Version.text,hmajor]; rfl⟩
  obtain ⟨more,hmore⟩ := htext
  have hbare : lstripV (written v prefixed) = written v false := by
    rw [lstripV,written,String.toList_ofList]
    cases prefixed <;> simp [written,hmore,hletter]
  have hlower : CaseTables.lower (written v false) = asciiLower (written v false) := by
    refine CaseTables.lower_ascii _ fun c hc => ?_
    have hhigh := (versionChar_range (written_chars v false c hc)).2
    omega
  have hdev : startsWith (asciiLower (written v false)) "dev-" = false := by
    have hd : c.toLower ≠ 'd' := by
      intro h
      have hnat := toNat_toLower c
      rw [h,if_neg (by omega)] at hnat
      have hcode : ('d' : Char).toNat = 100 := by decide
      omega
    have hfirst : ('d' == c.toLower) = false := beq_eq_false_iff_ne.mpr (Ne.symm hd)
    rw [startsWith,asciiLower,written,String.toList_ofList,String.toList_ofList]
    simp [hmore,List.isPrefixOf,hfirst]
  rw [displayVersion,hbare,hlower,hdev]
  simp

/-- Among versions that agree, an update is on offer exactly when it is newer. -/
theorem available_written {info : UpdateInfo} (hversions : info.buildBased = false) {v w : Version}
    {p q : Bool} (hlatest : info.latestVersion = written v p) (hcurrent : info.currentVersion = written w q)
    (hv : Short v) (hw : Short w) (hagrees : Agrees v w) :
    info.available = some (precedence v w == .gt) := by
  rw [UpdateInfo.available,hversions,hlatest,hcurrent,(compareVersions_iff v w p q).mpr ⟨hv,hw,hagrees⟩]
  cases precedence v w <;> rfl

/-- Two versions are compared by precedence exactly when no number of them is too long for `int`
and they agree. Among such versions the release that is chosen has the highest precedence, and an
update on offer is newer. -/
theorem versions_ordered_iff :
    (∀ (v w : Version) (p q : Bool),
      compareVersions (written v p) (written w q) = some (sign (precedence v w)) ↔
        Short v ∧ Short w ∧ Agrees v w) ∧
    (∀ (releases : List (Option Release)) (first : Release) (rest : List Release)
        (version : Release → Version) (prefixed : Release → Bool),
      (releases.filterMap id).filter (fun r => !r.draft) = first::rest → first.isDevelopment = false →
      (∀ r ∈ versioned releases, r.version = written (version r) (prefixed r)) →
      (∀ r ∈ versioned releases, Short (version r)) →
      (∀ r ∈ versioned releases, ∀ r' ∈ versioned releases, Agrees (version r) (version r')) →
      ∃ chosen ∈ versioned releases, fetchReleasePayload releases = .ok chosen ∧
        ∀ r ∈ versioned releases, precedence (version r) (version chosen) ≠ .gt) ∧
    (∀ (info : UpdateInfo) (v w : Version) (p q : Bool), info.buildBased = false →
      info.latestVersion = written v p → info.currentVersion = written w q → Short v → Short w →
      Agrees v w → (info.available = some true ↔ precedence v w = .gt)) := by
  refine ⟨compareVersions_iff,?_,?_⟩
  · intro releases first rest version prefixed hpublished hfirst hversion hshort hagrees
    exact fetchReleasePayload_highest hpublished hfirst hversion hshort hagrees
  · intro info v w p q hversions hlatest hcurrent hv hw hagrees
    rw [available_written hversions hlatest hcurrent hv hw hagrees,Option.some_inj,beq_iff_eq]

end Keys

/-! Candidates of one release. -/

/-- `1.0.0-rc.n`. -/
def candidate (n : List Char) (hn : IsIdentifier n) : Version where
  major := ['1']
  minor := ['0']
  patch := ['0']
  pre := [['r','c'],n]
  build := []
  majorNumeric := ⟨by decide,by decide,by decide⟩
  minorNumeric := ⟨by decide,by decide,by decide⟩
  patchNumeric := ⟨by decide,by decide,by decide⟩
  preIdentifiers := by
    refine List.forall_mem_cons.mpr ⟨⟨by decide,by decide,by decide⟩,?_⟩
    exact List.forall_mem_singleton.mpr hn
  buildIdentifiers := by simp

theorem short_candidate (n : List Char) (hn : IsIdentifier n) : Short (candidate n hn) :=
  ⟨by simp [candidate],by simp [candidate],by simp [candidate]⟩

def ninth : Version := candidate ['9'] ⟨by decide,by decide,by decide⟩

def tenth : Version := candidate ['1','0'] ⟨by decide,by decide,by decide⟩

theorem versions_ordered_iff_candidates :
    compareVersions (written ninth true) (written ninth false) = some (sign .eq) ∧
      (∃ chosen, fetchReleasePayload [some ⟨written ninth true,"","main",false,false⟩] = .ok chosen ∧
        chosen.tagName = written ninth true) ∧
      (UpdateInfo.mk (written ninth true) (written ninth false) "" "" false).available ≠ some true := by
  have hshort := short_candidate ['9'] ⟨by decide,by decide,by decide⟩
  have hagrees : Agrees ninth ninth := (keyCompare_iff _ _).mp (by decide)
  have hversioned : versioned [some ⟨written ninth true,"","main",false,false⟩] =
      [⟨written ninth true,"","main",false,false⟩] := rfl
  refine ⟨(versions_ordered_iff.1 ninth ninth true false).mpr ⟨hshort,hshort,hagrees⟩,?_,?_⟩
  · obtain ⟨chosen,hmem,hchosen,-⟩ := versions_ordered_iff.2.1
      [some ⟨written ninth true,"","main",false,false⟩] ⟨written ninth true,"","main",false,false⟩ []
      (fun _ => ninth) (fun _ => true) rfl rfl
      (by rw [hversioned]; exact List.forall_mem_singleton.mpr (by decide))
      (fun _ _ => hshort) (fun _ _ _ _ => hagrees)
    refine ⟨chosen,hchosen,?_⟩
    rw [hversioned,List.mem_singleton] at hmem
    rw [hmem]
  · have hoffer := versions_ordered_iff.2.2 ⟨written ninth true,written ninth false,"","",false⟩ ninth ninth
      false true rfl rfl rfl hshort hshort hagrees
    rw [ne_eq,hoffer]
    decide

/-- The tenth candidate is newer than the ninth, and to who has it the ninth is offered. -/
theorem tenth_candidate_older :
    written tenth true = "v1.0.0-rc.10" ∧ written ninth false = "1.0.0-rc.9" ∧
      precedence tenth ninth = .gt ∧
      compareVersions (written tenth true) (written ninth false) = some (-1) ∧
      (UpdateInfo.mk (written tenth true) (written ninth false) "" "" false).available = some true := by
  have hninth : Short ninth := short_candidate ['9'] ⟨by decide,by decide,by decide⟩
  have htenth : Short tenth := short_candidate ['1','0'] ⟨by decide,by decide,by decide⟩
  refine ⟨by decide,by decide,by decide,?_,?_⟩
  · rw [compareVersions_short htenth hninth]
    decide
  · rw [UpdateInfo.available]
    simp only [compareVersions_short hninth htenth]
    decide

end Updates
end WormholeObservatory
