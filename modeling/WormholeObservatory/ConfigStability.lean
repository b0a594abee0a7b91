import WormholeObservatory.ConfigValidation

/-! A second `_validate`. Almost every field of a validated configuration is in a form that the
next pass leaves alone; the exceptions are texts whose trimming lays new blanks bare. -/
namespace WormholeObservatory
namespace Config

theorem within_within {α : Type*} [LinearOrder α] (lo hi x : α) :
    within lo hi (within lo hi x) = within lo hi x := by
  simp only [within]
  rcases le_total lo hi with h | h
  · rw [max_eq_right (le_min h (le_max_left _ _)),min_eq_right (min_le_left _ _)]
  · have hleft : ∀ y, min hi (max lo y) = hi := fun y => min_eq_left (h.trans (le_max_left _ _))
    rw [hleft,hleft]

theorem orElse_orElse (s default : String) : orElse (orElse s default) default = orElse s default := by
  simp only [orElse]
  split <;> simp_all

theorem oneOf_mem {allowed : List String} {default : String} (hdefault : default ∈ allowed)
    (s : String) : oneOf allowed default s ∈ allowed := by
  simp only [oneOf]
  split
  · assumption
  · exact hdefault

theorem oneOf_of_mem {allowed : List String} {default s : String} (h : s ∈ allowed) :
    oneOf allowed default s = s :=
  if_pos h

/-- Names that a settled form `f` leaves alone are still there when `f` is taken again. -/
theorem oneOf_again (allowed : List String) (default : String) (f : String → String)
    (hdefault : default ∈ allowed) (hf : ∀ t ∈ allowed, f t = t) (s : String) :
    oneOf allowed default (f (oneOf allowed default s)) = oneOf allowed default s := by
  have hmem := oneOf_mem hdefault s
  rw [hf _ hmem,oneOf_of_mem hmem]

/-- Trimming what stands for the default may leave nothing, and then the default is back. -/
theorem stripOr_again_iff (default : String) (hdefault : strip default = default ∧ default ≠ "")
    (s : String) : stripOr default (stripOr default s) = stripOr default s ↔ (strip s = "" → s = "") := by
  simp only [stripOr]
  by_cases hs : s = ""
  · subst hs
    simp [orElse,hdefault.1,hdefault.2]
  · have hsome : orElse s default = s := if_neg hs
    rw [hsome]
    by_cases hblank : strip s = ""
    · have hback : orElse (strip s) default = default := if_pos hblank
      rw [hback,hdefault.1,hblank]
      simp [hs,hdefault.2]
    · have hkept : orElse (strip s) default = strip s := if_neg hblank
      rw [hkept,strip_strip]
      simp [hblank]

/-- ASCII without capitals and without blanks at its ends. -/
def isName (t : String) : Bool := t.toList.all plain && strip t == t

theorem strip_ofList {l : List Char} (h : (l.head?.any isSpace || l.getLast?.any isSpace) = false) :
    strip (String.ofList l) = String.ofList l := by
  rw [Bool.or_eq_false_iff] at h
  exact strip_eq_self_iff.mpr (by rw [beginsIn,endsIn,String.toList_ofList]; exact h)

/-- Of a text that is written out, its letters are what has to be looked at. -/
theorem isName_ofList {l : List Char}
    (h : (l.all plain && !(l.head?.any isSpace || l.getLast?.any isSpace)) = true) :
    isName (String.ofList l) = true := by
  rw [Bool.and_eq_true_iff,Bool.not_eq_true'] at h
  simp [isName,strip_ofList h.2,h.1]

theorem names_cons {l : List Char} {names : List String}
    (h : (l.all plain && !(l.head?.any isSpace || l.getLast?.any isSpace)) = true)
    (hnames : names.all isName = true) : (String.ofList l::names).all isName = true := by
  rw [List.all_cons,isName_ofList h,hnames,Bool.and_true]

section Letters

variable [LetterTables]

theorem lowered_isName {t : String} (h : isName t = true) : lowered t = t := by
  obtain ⟨hplain,hends⟩ := Bool.and_eq_true_iff.mp h
  exact lowered_of_plain (List.all_eq_true.mp hplain) (by simpa using hends)

theorem lowered_names (allowed : List String) (h : allowed.all isName = true) :
    ∀ t ∈ allowed, lowered t = t :=
  fun t ht => lowered_isName (List.all_eq_true.mp h t ht)

/-! Excluded suffixes. -/

omit [LetterTables] in
theorem startsWith_dot (s : String) : startsWith s "." = beginsIn (· == '.') s :=
  startsWith_eq_beginsIn rfl s

omit [LetterTables] in
theorem beginsIn_unique {a b : Char} {s : String} (ha : beginsIn (· == a) s = true)
    (hb : beginsIn (· == b) s = true) : a = b := by
  rw [beginsIn] at ha hb
  cases hhead : s.toList.head? with
  | none =>
    rw [hhead] at ha
    exact absurd ha (by simp)
  | some c =>
    rw [hhead] at ha hb
    simp only [Option.any_some,beq_iff_eq] at ha hb
    rw [← ha,hb]

omit [LetterTables] in
theorem dropStar_suffix (s : String) : (dropStar s).toList.IsSuffix s.toList := by
  simp only [dropStar]
  split
  · rw [String.toList_ofList]
    exact List.drop_suffix 1 _
  · exact List.suffix_rfl

omit [LetterTables] in
theorem endsIn_suffix {s t : String} (h : s.toList.IsSuffix t.toList) (hs : s ≠ "")
    (p : Char → Bool) : endsIn p s = endsIn p t := by
  obtain ⟨front,hfront⟩ := h
  have hlist : s.toList ≠ [] := fun hnil => hs (String.toList_inj.mp (by simpa using hnil))
  rw [endsIn,endsIn,← hfront,List.getLast?_append_of_ne_nil _ hlist]

omit [LetterTables] in
/-- Only a star goes entirely. -/
theorem endsIn_of_dropStar_empty {s : String} (h : dropStar s = "") : endsIn isSpace s = false := by
  simp only [dropStar] at h
  split at h
  · rename_i hstar
    rw [startsWith_eq_beginsIn (c := '*') rfl,beginsIn] at hstar
    have hdrop : s.toList.drop 1 = [] := by simpa using congrArg String.toList h
    rw [endsIn]
    cases hlist : s.toList with
    | nil => rfl
    | cons x xs =>
      rw [hlist] at hstar hdrop
      have hone : xs = [] := by simpa using hdrop
      have hx : x = '*' := by simpa using hstar
      rw [hone,hx]
      rfl
  · rw [h]
    rfl

/-- A suffix that is worked off ends in no blank. -/
def SuffixSettles (s : String) : Prop := endsIn isSpace (rstripDots (lowered s)) = false

theorem SuffixSettles.of_empty {s : String} (h : normalizeSuffix s = "") : SuffixSettles s := by
  simp only [normalizeSuffix] at h
  refine endsIn_of_dropStar_empty ?_
  split at h
  · have hdot := congrArg String.toList h
    simp at hdot
  · exact h

theorem normalizeSuffix_shape {s : String} (h : normalizeSuffix s ≠ "") :
    beginsIn (· == '.') (normalizeSuffix s) = true ∧
    (∀ p, endsIn p (normalizeSuffix s) = endsIn p (rstripDots (lowered s))) ∧
    ∀ c ∈ (normalizeSuffix s).toList, c ∈ (CaseTables.lower (strip s)).toList ∨ plain c = true := by
  have hsub : ∀ c ∈ (dropStar (rstripDots (lowered s))).toList,
      c ∈ (CaseTables.lower (strip s)).toList :=
    fun c hc => (rstripDots_initial _).subset ((dropStar_suffix _).subset hc)
  simp only [normalizeSuffix] at h ⊢
  split
  · rename_i hbare
    have hdotted : (dropStar (rstripDots (lowered s))).toList.IsSuffix
        ("."++dropStar (rstripDots (lowered s))).toList := by
      rw [String.toList_append]
      exact List.suffix_append _ _
    refine ⟨by simp [beginsIn],fun p => ?_,fun c hc => ?_⟩
    · rw [← endsIn_suffix hdotted hbare.1,endsIn_suffix (dropStar_suffix _) hbare.1]
    · rw [String.toList_append,List.mem_append] at hc
      rcases hc with hdot | hc
      · have hc : c = '.' := by simpa using hdot
        rw [hc]
        exact Or.inr (by decide)
      · exact Or.inl (hsub c hc)
  · rename_i hkept
    rw [if_neg hkept] at h
    have hdot : startsWith (dropStar (rstripDots (lowered s))) "." = true :=
      Bool.not_eq_false _ |>.mp fun hno => hkept ⟨h,hno⟩
    exact ⟨by rwa [startsWith_eq_beginsIn (c := '.') rfl] at hdot,
      fun p => endsIn_suffix (dropStar_suffix _) h p,fun c hc => Or.inl (hsub c hc)⟩

/-- In its form a suffix only loses what trimming takes from its end. -/
theorem normalizeSuffix_again {s : String} (h : normalizeSuffix s ≠ "") :
    normalizeSuffix (normalizeSuffix s) = rstripDots (strip (normalizeSuffix s)) := by
  obtain ⟨hbegin,-,hchars⟩ := normalizeSuffix_shape h
  set y := normalizeSuffix s
  have hlower : lowered y = strip y :=
    LetterTables.lower_again (strip s) _ fun c hc => hchars c ((strip_within y).subset hc)
  have hstrip : beginsIn (· == '.') (strip y) = true := by
    rw [← startsWith_dot] at hbegin ⊢
    exact startsWith_strip hbegin ⟨'.',[],rfl,rfl⟩ ⟨[],'.',rfl,rfl⟩
  have hdot : rstripDots (strip y) ≠ "" → startsWith (rstripDots (strip y)) "." = true := by
    intro hne
    rw [startsWith_dot,beginsIn_of_initial (rstripDots_initial (strip y)) hne,hstrip]
  have hstar : dropStar (rstripDots (strip y)) = rstripDots (strip y) := by
    refine if_neg fun hstar => ?_
    rw [startsWith_eq_beginsIn (c := '*') rfl] at hstar
    have hne : rstripDots (strip y) ≠ "" := by
      intro hempty
      rw [hempty] at hstar
      exact absurd hstar (by decide)
    have hboth := hdot hne
    rw [startsWith_dot] at hboth
    exact absurd (beginsIn_unique hstar hboth) (by decide)
  simp only [normalizeSuffix]
  rw [hlower,hstar,if_neg]
  rintro ⟨hne,hno⟩
  rw [hdot hne] at hno
  exact absurd hno (by decide)

theorem mem_normalizeSuffixes {values : List String} {y : String} :
    y ∈ normalizeSuffixes values ↔ y ≠ "" ∧ ∃ s ∈ values, normalizeSuffix s = y := by
  rw [normalizeSuffixes,List.mem_eraseDups,List.mem_filter,List.mem_map]
  simp [and_comm]

theorem normalizeSuffixes_again_iff (values : List String) :
    normalizeSuffixes (normalizeSuffixes values) = normalizeSuffixes values ↔
      ∀ s ∈ values, SuffixSettles s := by
  have hnodup : (normalizeSuffixes values).Nodup := OrderedDict.nodup_eraseDups _
  constructor
  · intro h s hs
    by_cases hempty : normalizeSuffix s = ""
    · exact SuffixSettles.of_empty hempty
    have hsub : normalizeSuffixes values ⊆ (normalizeSuffixes values).map normalizeSuffix := by
      intro y hy
      rw [← h] at hy
      obtain ⟨-,z,hz,hzy⟩ := mem_normalizeSuffixes.mp hy
      exact List.mem_map.mpr ⟨z,hz,hzy⟩
    have hperm : ((normalizeSuffixes values).map normalizeSuffix).Perm (normalizeSuffixes values) :=
      ((List.subperm_of_subset hnodup hsub).perm_of_length_le (by simp)).symm
    -- a suffix in its form never grows, so none can have shrunk
    have hlength := eq_of_shortening_perm hperm (fun y hy => by
      obtain ⟨hne,z,-,rfl⟩ := mem_normalizeSuffixes.mp hy
      rw [normalizeSuffix_again hne]
      exact (rstripDots_length_le _).trans (strip_length_le _))
      (normalizeSuffix s) (mem_normalizeSuffixes.mpr ⟨hempty,s,hs,rfl⟩)
    rw [normalizeSuffix_again hempty] at hlength
    have hdots := rstripDots_length_le (strip (normalizeSuffix s))
    have hstrip := strip_length_le (normalizeSuffix s)
    have hsame := strip_eq_of_length (s := normalizeSuffix s) (by omega)
    have hend := (strip_eq_self_iff.mp hsame).2
    rwa [(normalizeSuffix_shape hempty).2.1] at hend
  · intro h
    have hfixed : ∀ y ∈ normalizeSuffixes values, normalizeSuffix y = y := by
      intro y hy
      obtain ⟨hne,s,hs,rfl⟩ := mem_normalizeSuffixes.mp hy
      obtain ⟨hbegin,hend,-⟩ := normalizeSuffix_shape hne
      have hblank : beginsIn isSpace (normalizeSuffix s) = false := by
        refine Bool.eq_false_iff.mpr fun hspace => ?_
        rw [beginsIn] at hbegin hspace
        cases hhead : (normalizeSuffix s).toList.head? with
        | none => simp [hhead] at hbegin
        | some c =>
          rw [hhead] at hbegin hspace
          have hc : c = '.' := by simpa using hbegin
          rw [hc] at hspace
          exact absurd hspace (by decide)
      have hstrip : strip (normalizeSuffix s) = normalizeSuffix s :=
        strip_eq_self_iff.mpr ⟨hblank,by rw [hend]; exact h s hs⟩
      rw [normalizeSuffix_again hne,hstrip]
      exact rstripDots_eq_self (by rw [hend]; exact endsIn_rstripDots _)
    have hmap : (normalizeSuffixes values).map normalizeSuffix = normalizeSuffixes values :=
      (List.map_congr_left hfixed).trans (List.map_id _)
    have hfilter : (normalizeSuffixes values).filter (· ≠ "") = normalizeSuffixes values :=
      List.filter_eq_self.mpr fun y hy => by simpa using (mem_normalizeSuffixes.mp hy).1
    rw [normalizeSuffixes,hmap,hfilter,OrderedDict.eraseDups_of_nodup hnodup]

/-! Tags and what is kept for them. -/

theorem normalizeTags_again (values : List String) :
    normalizeTags (normalizeTags values) = normalizeTags values := by
  have hmem : ∀ t ∈ normalizeTags values, strip t ≠ "" ∧ normalizeTag t = t := by
    intro t ht
    rw [normalizeTags,List.mem_eraseDups,List.mem_map] at ht
    obtain ⟨v,hv,rfl⟩ := ht
    have hv : strip v ≠ "" := by simpa using (List.mem_filter.mp hv).2
    refine ⟨?_,normalizeTag_normalizeTag v⟩
    rw [strip_normalizeTag]
    exact fun h => hv (normalizeTag_eq_empty.mp h)
  have hfilter : (normalizeTags values).filter (fun v => strip v ≠ "") = normalizeTags values :=
    List.filter_eq_self.mpr fun t ht => by simpa using (hmem t ht).1
  have hmap : (normalizeTags values).map normalizeTag = normalizeTags values :=
    (List.map_congr_left fun t ht => (hmem t ht).2).trans (List.map_id _)
  conv_lhs => rw [normalizeTags]
  rw [hfilter,hmap]
  exact OrderedDict.eraseDups_of_nodup (OrderedDict.nodup_eraseDups _)

theorem validateTags_settled (values : List String) :
    ∀ t ∈ validateTags values, normalizeTag t = t ∧ t ≠ "" := by
  intro t ht
  simp only [validateTags] at ht
  split at ht
  · obtain rfl := List.mem_singleton.mp ht
    have hunknown : lowered "unknown" = "unknown" := lowered_isName (isName_ofList (by decide))
    exact ⟨by rw [normalizeTag,hunknown]; decide,by decide⟩
  · rw [normalizeTags,List.mem_eraseDups,List.mem_map] at ht
    obtain ⟨v,hv,rfl⟩ := ht
    have hv : strip v ≠ "" := by simpa using (List.mem_filter.mp hv).2
    exact ⟨normalizeTag_normalizeTag v,fun h => hv (normalizeTag_eq_empty.mp h)⟩

theorem validateTags_again (values : List String) :
    validateTags (validateTags values) = validateTags values := by
  by_cases h : normalizeTags values = []
  · have hone : validateTags values = ["unknown"] := if_pos h
    have hunknown : normalizeTag "unknown" = "unknown" :=
      (validateTags_settled values "unknown" (by rw [hone]; exact List.mem_singleton.mpr rfl)).1
    have hstrip : strip "unknown" = "unknown" := strip_ofList (by decide)
    have htags : normalizeTags ["unknown"] = ["unknown"] := by
      rw [normalizeTags,List.filter_cons_of_pos (by simp [hstrip])]
      simp [hunknown,List.eraseDups_cons]
    rw [hone,validateTags,htags,if_neg (by decide)]
  · have hsome : validateTags values = normalizeTags values := if_neg h
    rw [hsome,validateTags,normalizeTags_again,if_neg h]

theorem validateTagPolicies_again {tags : List String}
    (htags : ∀ t ∈ tags, normalizeTag t = t ∧ t ≠ "") (policies : OrderedDict String String) :
    validateTagPolicies tags (validateTagPolicies tags policies) = validateTagPolicies tags policies := by
  have hitems : ∀ e ∈ (validateTagPolicies tags policies).items, normalizePolicyItem e = some e := by
    refine OrderedDict.forall_setDefaults (fun t ht => ?_)
      (OrderedDict.forall_comprehension (fun e e' he => ?_) policies)
    · obtain ⟨hfixed,hne⟩ := htags t ht
      have hkey : strip t ≠ "" := fun h => hne (hfixed ▸ normalizeTag_eq_empty.mpr h)
      have hvalue : lowered Policy.manualReview.value = Policy.manualReview.value :=
        lowered_isName (isName_ofList (by decide))
      rw [normalizePolicyItem,if_neg hkey,hfixed,hvalue]
    · simp only [normalizePolicyItem] at he
      split at he
      · cases he
      · rename_i hkey
        obtain rfl := Option.some.inj he
        have hkey' : strip (normalizeTag e.1) ≠ "" := by
          rw [strip_normalizeTag]
          exact fun h => hkey (normalizeTag_eq_empty.mp h)
        rw [normalizePolicyItem,if_neg hkey',normalizeTag_normalizeTag,lowered_lowered]
  conv_lhs => rw [validateTagPolicies,OrderedDict.comprehension_eq_self hitems]
  exact OrderedDict.setDefaults_eq_self fun t ht =>
    OrderedDict.mem_keys_setDefaults.mpr (Or.inl ht)

omit [LetterTables] in
theorem defaultTagRecheckDays_pos : ∀ e ∈ defaultTagRecheckDays.items, 1 ≤ e.2 := by
  decide

theorem validateTagRecheckDays_again {days : ℤ} (hdays : 1 ≤ days) {tags : List String}
    (htags : ∀ t ∈ tags, normalizeTag t = t ∧ t ≠ "") (recheck : OrderedDict String ℤ) :
    validateTagRecheckDays days tags (validateTagRecheckDays days tags recheck) =
      validateTagRecheckDays days tags recheck := by
  have hitems : ∀ e ∈ (validateTagRecheckDays days tags recheck).items,
      normalizeRecheckItem e = some e := by
    refine OrderedDict.forall_setDefaults (fun t ht => ?_)
      (OrderedDict.forall_comprehension (fun e e' he => ?_) recheck)
    · obtain ⟨hfixed,hne⟩ := htags t ht
      have hvalue : 1 ≤ (defaultTagRecheckDays.get? t).getD days := by
        cases hday : defaultTagRecheckDays.get? t with
        | none => exact hdays
        | some day => exact defaultTagRecheckDays_pos _ (OrderedDict.mem_items_of_get? hday)
      rw [normalizeRecheckItem,hfixed,if_neg hne,max_eq_right hvalue]
    · simp only [normalizeRecheckItem] at he
      split at he
      · cases he
      · rename_i hkey
        obtain rfl := Option.some.inj he
        rw [normalizeRecheckItem,normalizeTag_normalizeTag,if_neg hkey,
          max_eq_right (le_max_left 1 e.2)]
  conv_lhs => rw [validateTagRecheckDays,OrderedDict.comprehension_eq_self hitems]
  exact OrderedDict.setDefaults_eq_self fun t ht =>
    OrderedDict.mem_keys_setDefaults.mpr (Or.inl ht)

/-! The sections without lists. -/

theorem upper_ofList {l : List Char}
    (h : (l.all fun c => decide (c.toNat < 128) && c.toUpper == c) = true) :
    LetterTables.upper (String.ofList l) = String.ofList l := by
  have hletters : ∀ c ∈ l, c.toNat < 128 ∧ c.toUpper = c := by simpa using h
  rw [LetterTables.upper_ascii _ (by rw [String.toList_ofList]; exact fun c hc => (hletters c hc).1),
    String.toList_ofList,List.map_congr_left fun c hc => (hletters c hc).2,List.map_id']

theorem validateLogging_again (o : LoggingOptions) :
    validateLogging (validateLogging o) = validateLogging o := by
  have hlevel := oneOf_again ["DEBUG","INFO","WARNING","ERROR","CRITICAL"] "INFO" LetterTables.upper
    (by decide) (by
      simp only [List.forall_mem_cons]
      exact ⟨upper_ofList (by decide),upper_ofList (by decide),upper_ofList (by decide),
        upper_ofList (by decide),upper_ofList (by decide),List.forall_mem_nil _⟩)
    (LetterTables.upper o.level)
  simp [validateLogging,hlevel,orElse_orElse]

omit [LetterTables] in
theorem validateNotify_again (o : NotifyOptions) :
    validateNotify (validateNotify o) = validateNotify o := by
  simp [validateNotify,orElse_orElse]

omit [LetterTables] in
theorem validatePihole_again (o : PiHoleOptions) :
    validatePihole (validatePihole o) = validatePihole o := by
  simp [validatePihole,orElse_orElse,strip_strip]

omit [LetterTables] in
theorem validateResearch_again (o : ResearchOptions) :
    validateResearch (validateResearch o) = validateResearch o := by
  simp [validateResearch]

omit [LetterTables] in
theorem validateExternalTrigger_again_iff (o : ExternalTriggerOptions) :
    validateExternalTrigger (validateExternalTrigger o) = validateExternalTrigger o ↔
      (strip o.bindHost = "" → o.bindHost = "") := by
  have hhost := stripOr_again_iff "127.0.0.1" ⟨strip_ofList (by decide),by decide⟩ o.bindHost
  simp [validateExternalTrigger,within_within,hhost]

omit [LetterTables] in
theorem validateProviderRegistry_again_iff (o : ProviderRegistryOptions) :
    validateProviderRegistry (validateProviderRegistry o) = validateProviderRegistry o ↔
      (strip o.registryUrl = "" → o.registryUrl = "") ∧
      (strip o.signatureUrl = "" → o.signatureUrl = "") := by
  have hregistry := stripOr_again_iff ({} : ProviderRegistryOptions).registryUrl
    ⟨strip_ofList (by decide),by decide⟩ o.registryUrl
  have hsignature := stripOr_again_iff ({} : ProviderRegistryOptions).signatureUrl
    ⟨strip_ofList (by decide),by decide⟩ o.signatureUrl
  simp [validateProviderRegistry,hregistry,hsignature]

theorem normalizeChannel_again (value : String) :
    normalizeChannel (normalizeChannel value) = normalizeChannel value := by
  have hmem : normalizeChannel value ∈ ["stable","prerelease"] := by
    simp only [normalizeChannel]
    split
    · decide
    · exact oneOf_mem (by decide) _
  have hlowered := lowered_names ["stable","prerelease"]
    (names_cons (by decide) (names_cons (by decide) rfl)) _ hmem
  have hother : normalizeChannel value ≠ "development" := by
    intro h
    rw [h] at hmem
    exact absurd hmem (by decide)
  conv_lhs => rw [normalizeChannel]
  simp only [hlowered,if_neg hother,oneOf_of_mem hmem]

theorem validateUpdates_again (o : UpdateOptions) :
    validateUpdates (validateUpdates o) = validateUpdates o := by
  simp [validateUpdates,normalizeChannel_again]

theorem validateScans_again_iff (o : ScanOptions) :
    validateScans (validateScans o) = validateScans o ↔
      ∀ s ∈ o.excludedDomainSuffixes, SuffixSettles s := by
  simp [validateScans,normalizeSuffixes_again_iff]

omit [LetterTables] in
theorem threshold_again (t c : ℚ) :
    let capped := if within 0 1 t > within 0 1 c then within 0 1 c else within 0 1 t
    (if within 0 1 capped > within 0 1 c then within 0 1 c else within 0 1 capped) = capped := by
  intro capped
  have hfixed : within 0 1 capped = capped := by
    simp only [capped]
    split <;> exact within_within 0 1 _
  have hle : ¬capped > within 0 1 c := by
    simp only [capped]
    split
    · exact lt_irrefl _
    · assumption
  rw [hfixed,if_neg hle]

theorem validateLLM_again (providers profiles : ℕ) (o : LLMOptions) :
    validateLLM providers profiles (validateLLM providers profiles o) =
      validateLLM providers profiles o := by
  have hmode := oneOf_again ["manual","hybrid","auto"] "hybrid" id (by decide) (fun _ _ => rfl) o.automationMode
  have htags := validateTags_settled o.tags
  simp only [id] at hmode
  simpa [validateLLM,within_within,hmode,validateTags_again,validateTagPolicies_again htags,
    validateTagRecheckDays_again (le_max_left 1 o.defaultRecheckDays) htags] using threshold_again _ _

/-! The tables of the user interface. -/

omit [LetterTables] in
theorem validateVisible_known {table : String} (htable : table ∈ tableKeys)
    (configured : Option (List String)) :
    validateVisible table configured ≠ [] ∧
    (validateVisible table configured).filter (· ∈ (tableWidths table).keys) =
      validateVisible table configured := by
  have hdefault : ∀ t ∈ tableKeys, (defaultVisibleColumns.get? t).getD [] ≠ [] ∧
      ((defaultVisibleColumns.get? t).getD []).filter (· ∈ (tableWidths t).keys) =
        (defaultVisibleColumns.get? t).getD [] := by
    decide
  simp only [validateVisible]
  split
  · exact hdefault table htable
  · rename_i hne
    exact ⟨hne,by rw [List.filter_filter]; simp⟩

omit [LetterTables] in
theorem validateVisible_again {table : String} (htable : table ∈ tableKeys)
    (configured : Option (List String)) :
    validateVisible table (some (validateVisible table configured)) = validateVisible table configured := by
  obtain ⟨hne,hknown⟩ := validateVisible_known htable configured
  conv_lhs => rw [validateVisible]
  simp only [Option.getD_some,hknown,if_neg hne]

omit [LetterTables] in
theorem validateWidths_again (table : String) (configured : Option (OrderedDict String ℤ)) :
    validateWidths table (some (validateWidths table configured)) = validateWidths table configured := by
  refine OrderedDict.mapValues_congr fun e he => ?_
  have hget := OrderedDict.get?_of_mem he
  simp only [Option.getD_some,validateWidths,OrderedDict.get?_mapValues,hget,Option.map_some]
  exact max_eq_right (le_max_left _ _)

omit [LetterTables] in
/-- The order of a table has all its columns, whatever was configured. -/
theorem mem_validateOrder (table : String) (configured : Option (List String)) (c : String) :
    c ∈ validateOrder table configured ↔ c ∈ (defaultColumnOrder.get? table).getD [] := by
  set columns := (defaultColumnOrder.get? table).getD []
  set chosen := ((configured.getD columns).filter (· ∈ columns)).eraseDups
  have horder : validateOrder table configured = chosen++columns.filter (· ∉ chosen) := rfl
  rw [horder,List.mem_append,List.mem_filter]
  constructor
  · rintro (hc | ⟨hc,-⟩)
    · simpa using (List.mem_filter.mp (List.mem_eraseDups.mp hc)).2
    · exact hc
  · intro hc
    by_cases hin : c ∈ chosen
    · exact Or.inl hin
    · exact Or.inr ⟨hc,by simpa using hin⟩

omit [LetterTables] in
theorem validateOrder_again {table : String} (htable : table ∈ tableKeys)
    (configured : Option (List String)) :
    validateOrder table (some (validateOrder table configured)) = validateOrder table configured := by
  have hdefault : ∀ t ∈ tableKeys, ((defaultColumnOrder.get? t).getD []).Nodup := by
    decide
  have hmem := mem_validateOrder table configured
  set columns := (defaultColumnOrder.get? table).getD []
  have hnodup : (validateOrder table configured).Nodup := by
    refine List.Nodup.append (OrderedDict.nodup_eraseDups _) ((hdefault table htable).filter _) ?_
    intro c hc hrest
    have hout := of_decide_eq_true (List.mem_filter.mp hrest).2
    exact hout hc
  have hknown : (validateOrder table configured).filter (· ∈ columns) = validateOrder table configured :=
    List.filter_eq_self.mpr fun c hc => by simpa using (hmem c).mp hc
  have hnone : columns.filter (· ∉ validateOrder table configured) = [] :=
    List.filter_eq_nil_iff.mpr fun c hc => by simpa using (hmem c).mpr hc
  conv_lhs => rw [validateOrder]
  simp only [Option.getD_some,hknown,OrderedDict.eraseDups_of_nodup hnodup,hnone,List.append_nil,columns]

theorem validateUI_again (o : UIOptions) : validateUI (validateUI o) = validateUI o := by
  have htheme := oneOf_again ["system","light","dark"] "system" lowered (by decide)
    (lowered_names _
      (names_cons (by decide) (names_cons (by decide) (names_cons (by decide) rfl)))) (lowered o.theme)
  have hkeys : tableKeys.Nodup := by decide
  have hvisible := OrderedDict.setEach_setEach hkeys
    (fun t ht v => validateVisible_again ht v) o.tableVisibleColumns
  have hwidths := OrderedDict.setEach_setEach hkeys
    (fun t _ v => validateWidths_again t v) o.tableColumnWidths
  have horder := OrderedDict.setEach_setEach hkeys
    (fun t ht v => validateOrder_again ht v) o.tableColumnOrder
  simp [validateUI,htheme,hvisible,hwidths,horder]

end Letters

end Config
end WormholeObservatory
