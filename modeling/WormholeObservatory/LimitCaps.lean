import WormholeObservatory.LimitResolution
import WormholeObservatory.Traversals

/-! Which limits of an entry survive up to the quota check. Limits are merged by metric and window,
so what is promised of each limit holds of the last one with its key. -/
namespace WormholeObservatory
namespace Limits

open Config (LLMProviderOptions ProviderLimitOptions)
open Floats (PyFloat)
open Registry (Json Host ConversionError RegistryError ProviderRegistry DigitTables field)

/-- The same amount or a smaller one. -/
def NoGreater (x y : PyFloat) : Prop := x = y ∨ PyFloat.le x y = true

/-- The limit is as strict as another one. -/
structure Keeps (limit e : ProviderLimit) : Prop where
  key : limitKey e = limitKey limit
  resetPolicy : e.resetPolicy = limit.resetPolicy
  amount : NoGreater e.amount limit.amount

def HasLive (rows : List LiveRow) (scopeKey : String) (now : PyFloat) (key : LimitKey) : Prop :=
  ∃ row ∈ liveRows rows scopeKey now, rowKey row = key

/-- A cap holds in a list of limits. -/
def Caps (cap : ProviderLimit) (limits : List ProviderLimit) : Prop :=
  ∃ e ∈ limits, limitKey e = limitKey cap ∧ NoGreater e.amount cap.amount

/-- What is promised of the limits of an entry, of the caps and of the limits passed on. -/
structure Preserving (limits caps effective passed : List ProviderLimit) (live : LimitKey → Prop) :
    Prop where
  kept : ∀ limit ∈ limits, ∃ e ∈ effective, Keeps limit e
  capped : ∀ cap ∈ caps, Caps cap effective ∧ Caps cap passed
  unchanged : ∀ e ∈ effective, ¬live (limitKey e) → e ∈ passed

/-- The limit that counts of those with a key. -/
def lastWith (key : LimitKey) (limits : List ProviderLimit) : Option ProviderLimit :=
  (limits.filter fun limit => limitKey limit = key).getLast?

/-- The amount of a limit after the caps with its key. -/
def cappedAmount (caps : List ProviderLimit) (limit : ProviderLimit) : PyFloat :=
  (caps.filter fun cap => limitKey cap = limitKey limit).foldl
    (fun amount cap => PyFloat.min amount cap.amount) limit.amount

/-! Amounts. -/

theorem noGreater_min {x cap : PyFloat} (hcap : cap ≠ .nan) :
    NoGreater (PyFloat.min x cap) cap ↔ x ≠ .nan := by
  constructor
  · rintro h rfl
    have hmin : PyFloat.min .nan cap = .nan := by
      cases cap <;> rfl
    rw [hmin] at h
    rcases h with heq | hle
    · exact hcap heq.symm
    · exact (PyFloat.le_ne_nan hle).1 rfl
  · exact fun hx => .inr (PyFloat.min_le_right hx hcap)

/-! Dictionaries of limits. -/

theorem lastWith_mem {key : LimitKey} {limits : List ProviderLimit} {last : ProviderLimit}
    (h : lastWith key limits = some last) : last ∈ limits ∧ limitKey last = key := by
  obtain ⟨hmem,hkey⟩ := List.mem_filter.mp (List.mem_of_getLast? h)
  exact ⟨hmem,of_decide_eq_true hkey⟩

theorem exists_lastWith {limits : List ProviderLimit} {limit : ProviderLimit} (h : limit ∈ limits) :
    ∃ last, lastWith (limitKey limit) limits = some last := by
  have hmem : limit ∈ limits.filter fun l => limitKey l = limitKey limit :=
    List.mem_filter.mpr ⟨h,decide_eq_true rfl⟩
  exact ⟨_,List.getLast?_eq_some_getLast (List.ne_nil_of_mem hmem)⟩

theorem get?_byKey (limits : List ProviderLimit) (key : LimitKey) :
    (byKey limits).get? key = lastWith key limits := by
  rw [byKey,OrderedDict.get?_ofItems,List.filter_map,List.getLast?_map,Option.map_map]
  change Option.map id (lastWith key limits) = lastWith key limits
  exact Option.map_id_apply

/-- Every limit stands under its own key. -/
def Keyed (d : OrderedDict LimitKey ProviderLimit) : Prop :=
  ∀ k e, d.get? k = some e → limitKey e = k

theorem keyed_byKey (limits : List ProviderLimit) : Keyed (byKey limits) := by
  intro k e h
  rw [get?_byKey] at h
  exact (lastWith_mem h).2

theorem Keyed.set {d : OrderedDict LimitKey ProviderLimit} (h : Keyed d) {k : LimitKey}
    {e : ProviderLimit} (he : limitKey e = k) : Keyed (d.set k e) := by
  intro k' e' hget
  rw [OrderedDict.get?_set] at hget
  split at hget
  · rename_i heq
    obtain rfl := Option.some.inj hget
    exact he.trans heq
  · exact h k' e' hget

theorem keyed_applyCap {d : OrderedDict LimitKey ProviderLimit} (h : Keyed d) (cap : ProviderLimit) :
    Keyed (applyCap d cap) := by
  refine h.set ?_
  cases hget : d.get? (limitKey cap) with
  | none => rfl
  | some existing => exact show limitKey existing = limitKey cap from h _ _ hget

theorem keyed_applyLiveRow {d : OrderedDict LimitKey ProviderLimit} (h : Keyed d) (row : LiveRow) :
    Keyed (applyLiveRow d row) := by
  refine h.set ?_
  cases d.get? (rowKey row) <;> rfl

theorem keyed_foldl {α : Type*} {f : OrderedDict LimitKey ProviderLimit → α →
    OrderedDict LimitKey ProviderLimit} (hf : ∀ d x, Keyed d → Keyed (f d x)) (xs : List α)
    {d : OrderedDict LimitKey ProviderLimit} (h : Keyed d) : Keyed (xs.foldl f d) := by
  induction xs generalizing d with
  | nil => exact h
  | cons x xs ih => exact ih (hf d x h)

theorem mem_sortedLimits {d : OrderedDict LimitKey ProviderLimit} (h : Keyed d) {e : ProviderLimit} :
    e ∈ sortedLimits d ↔ d.get? (limitKey e) = some e := by
  rw [sortedLimits,List.mem_insertionSort,OrderedDict.mem_values_iff]
  constructor
  · rintro ⟨k,hk⟩
    rwa [h k e hk]
  · exact fun hk => ⟨_,hk⟩

/-! Caps. -/

/-- Caps leave a limit that is there with its reset policy, and lower its amount. -/
theorem caps_foldl (caps : List ProviderLimit) (limit : ProviderLimit) :
    ∃ e, caps.foldl (fun v cap => some (cappedLimit cap v)) (some limit) = some e ∧
      e.resetPolicy = limit.resetPolicy ∧
      e.amount = caps.foldl (fun amount cap => PyFloat.min amount cap.amount) limit.amount := by
  induction caps generalizing limit with
  | nil => exact ⟨limit,rfl,rfl,rfl⟩
  | cons cap caps ih => exact ih (cappedLimit cap (some limit))

theorem get?_capped (caps : List ProviderLimit) (d : OrderedDict LimitKey ProviderLimit)
    (key : LimitKey) : (caps.foldl applyCap d).get? key =
      (caps.filter fun cap => limitKey cap = key).foldl (fun v cap => some (cappedLimit cap v))
        (d.get? key) :=
  OrderedDict.get?_foldl_set limitKey cappedLimit caps d key

theorem filter_key_of_nodup {caps : List ProviderLimit} (hnodup : (caps.map limitKey).Nodup)
    {cap : ProviderLimit} (hcap : cap ∈ caps) :
    caps.filter (fun c => limitKey c = limitKey cap) = [cap] := by
  induction caps with
  | nil => cases hcap
  | cons c caps ih =>
    obtain ⟨hnew,hrest⟩ := List.nodup_cons.mp hnodup
    rcases List.mem_cons.mp hcap with rfl | hmem
    · have hnone : caps.filter (fun c => limitKey c = limitKey cap) = [] := by
        refine List.filter_eq_nil_iff.mpr fun c hc => ?_
        rw [decide_eq_true_eq]
        exact fun heq => hnew (heq ▸ List.mem_map_of_mem hc)
      rw [List.filter_cons_of_pos (by simp),hnone]
    · have hne : limitKey c ≠ limitKey cap := fun heq => hnew (heq ▸ List.mem_map_of_mem hmem)
      rw [List.filter_cons_of_neg (by simpa using hne),ih hrest hmem]

/-! Live rows. -/

theorem get?_live (rows : List LiveRow) (d : OrderedDict LimitKey ProviderLimit) (key : LimitKey) :
    (rows.foldl applyLiveRow d).get? key =
      (rows.filter fun row => rowKey row = key).foldl (fun v row => some (liveLimit row v))
        (d.get? key) :=
  OrderedDict.get?_foldl_set rowKey liveLimit rows d key

/-- A row that comes later leaves the cap of a limit and stays below it. -/
theorem live_capped {cap : PyFloat} (hpos : PyFloat.lt (.finite 0) cap = true) (rows : List LiveRow)
    {e : ProviderLimit} (hcap : e.userCap = cap) (hamount : NoGreater e.amount cap) :
    ∃ e', rows.foldl (fun v row => some (liveLimit row v)) (some e) = some e' ∧
      NoGreater e'.amount cap := by
  have hnumber : cap ≠ .nan := by
    rintro rfl
    cases hpos
  induction rows generalizing e with
  | nil => exact ⟨e,rfl,hamount⟩
  | cons row rows ih =>
    refine ih (e := liveLimit row (some e)) hcap ?_
    rw [liveLimit,hcap,if_pos hpos]
    exact (noGreater_min hnumber).mpr row.isNumber

section Passing

variable {rows : List LiveRow} {scopeKey : String} {now : PyFloat} {limits : List ProviderLimit}
  {profile : ProviderLimitProfile}

theorem mem_limitsWithLiveState (hsource : profile.source ≠ "user") {e : ProviderLimit} :
    e ∈ limitsWithLiveState rows scopeKey now limits profile ↔
      ((liveRows rows scopeKey now).filter fun row => rowKey row = limitKey e).foldl
        (fun v row => some (liveLimit row v)) (lastWith (limitKey e) limits) = some e := by
  rw [limitsWithLiveState,if_neg hsource,
    mem_sortedLimits (keyed_foldl (fun d row h => keyed_applyLiveRow h row) _ (keyed_byKey limits)),
    get?_live,get?_byKey]

/-- Where no row speaks of it, a limit is passed on exactly if it is the last with its key. -/
theorem passed_iff (hsource : profile.source ≠ "user") {e : ProviderLimit}
    (hlive : ¬HasLive rows scopeKey now (limitKey e)) :
    e ∈ limitsWithLiveState rows scopeKey now limits profile ↔
      lastWith (limitKey e) limits = some e := by
  have hnone : (liveRows rows scopeKey now).filter (fun row => rowKey row = limitKey e) = [] := by
    refine List.filter_eq_nil_iff.mpr fun row hrow => ?_
    rw [decide_eq_true_eq]
    exact fun hkey => hlive ⟨row,hrow,hkey⟩
  rw [mem_limitsWithLiveState hsource,hnone,List.foldl_nil]

/-- All limits no row speaks of are passed on exactly if no two of them share a key. -/
theorem unchanged_iff (hsource : profile.source ≠ "user") :
    (∀ e ∈ limits, ¬HasLive rows scopeKey now (limitKey e) →
      e ∈ limitsWithLiveState rows scopeKey now limits profile) ↔
    ∀ e ∈ limits, ∀ e' ∈ limits, limitKey e = limitKey e' → ¬HasLive rows scopeKey now (limitKey e) →
      e = e' := by
  constructor
  · intro h e he e' he' hkey hlive
    have hlast := (passed_iff hsource hlive).mp (h e he hlive)
    rw [hkey] at hlast hlive
    exact Option.some.inj (hlast.symm.trans ((passed_iff hsource hlive).mp (h e' he' hlive)))
  · intro h e he hlive
    obtain ⟨last,hlast⟩ := exists_lastWith he
    obtain ⟨hmem,hkey⟩ := lastWith_mem hlast
    rw [passed_iff hsource hlive,hlast,h e he last hmem hkey.symm hlive]

/-- A cap that is in the limits as such stays in force. -/
theorem caps_passed (hsource : profile.source ≠ "user") {cap e : ProviderLimit}
    (hpos : PyFloat.lt (.finite 0) cap.amount = true)
    (he : lastWith (limitKey cap) limits = some e) (hcap : e.userCap = cap.amount)
    (hamount : NoGreater e.amount cap.amount) :
    Caps cap (limitsWithLiveState rows scopeKey now limits profile) := by
  obtain ⟨e',hfold,hamount'⟩ := live_capped hpos
    ((liveRows rows scopeKey now).filter fun row => rowKey row = limitKey cap) hcap hamount
  have hkeyed := keyed_foldl (fun d row h => keyed_applyLiveRow h row) (liveRows rows scopeKey now)
    (keyed_byKey limits)
  have hget := get?_live (liveRows rows scopeKey now) (byKey limits) (limitKey cap)
  rw [get?_byKey,he,hfold] at hget
  have hkey : limitKey e' = limitKey cap := hkeyed _ _ hget
  refine ⟨e',?_,hkey,hamount'⟩
  rw [limitsWithLiveState,if_neg hsource,mem_sortedLimits hkeyed,hkey,hget]

end Passing

/-! The two modes. -/

section Modes

variable {rows : List LiveRow} {scopeKey : String} {now : PyFloat} {limits caps : List ProviderLimit}
  {profile : ProviderLimitProfile} {rate : ℤ}

theorem effective_cases (profile : ProviderLimitProfile) (rate : ℤ) :
    effectiveLimits profile rate = profile.limits ∨
      profile.limits = [] ∧ ∃ e, effectiveLimits profile rate = [e] := by
  rw [effectiveLimits]
  split
  · exact .inl rfl
  · rename_i h
    exact .inr ⟨by_contra fun hne => h (.inl hne),_,rfl⟩

theorem effective_of_mem {e : ProviderLimit} (h : e ∈ profile.limits) :
    effectiveLimits profile rate = profile.limits := by
  rw [effectiveLimits,if_pos (.inl (List.ne_nil_of_mem h))]

/-- Without caps everything is kept, and all is passed on unless two limits share a key. -/
theorem preserving_auto_iff (hlimits : profile.limits = limits) :
    Preserving limits [] (effectiveLimits profile rate)
      (limitsWithLiveState rows scopeKey now (effectiveLimits profile rate) profile)
      (HasLive rows scopeKey now) ↔
    (profile.source ≠ "user" → ∀ l ∈ limits, ∀ l' ∈ limits, limitKey l = limitKey l' →
      ¬HasLive rows scopeKey now (limitKey l) → l = l') := by
  have hkept : ∀ limit ∈ limits, ∃ e ∈ effectiveLimits profile rate, Keeps limit e := by
    intro limit hlimit
    rw [← hlimits] at hlimit
    exact ⟨limit,by rwa [effective_of_mem hlimit],rfl,rfl,.inl rfl⟩
  by_cases hsource : profile.source = "user"
  · refine iff_of_true ⟨hkept,List.forall_mem_nil _,fun e he _ => ?_⟩ fun h => absurd hsource h
    rwa [limitsWithLiveState,if_pos hsource]
  · rcases effective_cases profile rate with heff | ⟨hnil,e,heff⟩
    · rw [heff,hlimits] at hkept ⊢
      exact ⟨fun h _ => (unchanged_iff hsource).mp h.unchanged,
        fun h => ⟨hkept,List.forall_mem_nil _,(unchanged_iff hsource).mpr (h hsource)⟩⟩
    · rw [hlimits] at hnil
      subst hnil
      refine iff_of_true ⟨hkept,List.forall_mem_nil _,(unchanged_iff hsource).mpr ?_⟩
        fun _ => List.forall_mem_nil _
      rw [heff]
      intro a ha b hb _ _
      rw [List.mem_singleton.mp ha,List.mem_singleton.mp hb]

/-- With caps all depends on the last limit with each key. -/
theorem preserving_autoCap_iff (hkeys : (caps.map limitKey).Nodup)
    (hpositive : ∀ cap ∈ caps, PyFloat.lt (.finite 0) cap.amount = true)
    (hsource : profile.source ≠ "user")
    (hlimits : profile.limits = sortedLimits (caps.foldl applyCap (byKey limits))) :
    Preserving limits caps (effectiveLimits profile rate)
      (limitsWithLiveState rows scopeKey now (effectiveLimits profile rate) profile)
      (HasLive rows scopeKey now) ↔
    ∀ l ∈ limits, ∀ last, lastWith (limitKey l) limits = some last →
      last.resetPolicy = l.resetPolicy ∧ NoGreater (cappedAmount caps last) l.amount ∧
        ∀ cap ∈ caps, limitKey cap = limitKey l → last.amount ≠ .nan := by
  have hkeyed : Keyed (caps.foldl applyCap (byKey limits)) :=
    keyed_foldl (fun d cap h => keyed_applyCap h cap) caps (keyed_byKey limits)
  have hmem : ∀ {key e}, (caps.foldl applyCap (byKey limits)).get? key = some e →
      e ∈ effectiveLimits profile rate := by
    intro key e hget
    have he : e ∈ profile.limits := by
      rw [hlimits,mem_sortedLimits hkeyed,hkeyed key e hget,hget]
    rwa [effective_of_mem he]
  have hunique : ∀ a ∈ effectiveLimits profile rate, ∀ b ∈ effectiveLimits profile rate,
      limitKey a = limitKey b → a = b := by
    intro a ha b hb hkey
    rcases effective_cases profile rate with heff | ⟨-,e,heff⟩
    · rw [heff,hlimits,mem_sortedLimits hkeyed] at ha hb
      rw [hkey,hb] at ha
      exact (Option.some.inj ha).symm
    · rw [heff] at ha hb
      rw [List.mem_singleton.mp ha,List.mem_singleton.mp hb]
  have hlast : ∀ {l last}, lastWith (limitKey l) limits = some last →
      ∃ e ∈ effectiveLimits profile rate, limitKey e = limitKey l ∧
        e.resetPolicy = last.resetPolicy ∧ e.amount = cappedAmount caps last := by
    intro l last hlast
    have hkey := (lastWith_mem hlast).2
    obtain ⟨e,hfold,hpolicy,hamount⟩ :=
      caps_foldl (caps.filter fun cap => limitKey cap = limitKey l) last
    have hget := get?_capped caps (byKey limits) (limitKey l)
    rw [get?_byKey,hlast,hfold] at hget
    refine ⟨e,hmem hget,hkeyed _ _ hget,hpolicy,?_⟩
    rw [hamount,cappedAmount,hkey]
  have hcapLimit : ∀ cap ∈ caps, ∃ e ∈ effectiveLimits profile rate, limitKey e = limitKey cap ∧
      e = cappedLimit cap (lastWith (limitKey cap) limits) := by
    intro cap hcap
    have hget := get?_capped caps (byKey limits) (limitKey cap)
    rw [filter_key_of_nodup hkeys hcap,get?_byKey] at hget
    exact ⟨_,hmem hget,hkeyed _ _ hget,rfl⟩
  have hnumber : ∀ cap ∈ caps, cap.amount ≠ .nan := by
    intro cap hcap hnan
    have hpos := hpositive cap hcap
    rw [hnan] at hpos
    cases hpos
  constructor
  · intro h l hl last hlast'
    obtain ⟨e,he,hkey,hpolicy,hamount⟩ := hlast hlast'
    obtain ⟨e',he',hkeeps⟩ := h.kept l hl
    obtain rfl := hunique e' he' e he (hkeeps.key.trans hkey.symm)
    refine ⟨hpolicy.symm.trans hkeeps.resetPolicy,hamount ▸ hkeeps.amount,fun cap hcap hcapKey => ?_⟩
    obtain ⟨e'',he'',hkey'',hbelow⟩ := (h.capped cap hcap).1
    obtain ⟨c,hc,hckey,hvalue⟩ := hcapLimit cap hcap
    obtain rfl := hunique e'' he'' c hc (hkey''.trans hckey.symm)
    rw [hcapKey,hlast'] at hvalue
    rw [hvalue] at hbelow
    exact (noGreater_min (hnumber cap hcap)).mp hbelow
  · intro h
    refine ⟨fun l hl => ?_,fun cap hcap => ?_,?_⟩
    · obtain ⟨last,hlast'⟩ := exists_lastWith hl
      obtain ⟨e,he,hkey,hpolicy,hamount⟩ := hlast hlast'
      obtain ⟨hsame,hbelow,-⟩ := h l hl last hlast'
      exact ⟨e,he,hkey,hpolicy.trans hsame,hamount ▸ hbelow⟩
    · obtain ⟨e,he,hkey,hvalue⟩ := hcapLimit cap hcap
      have hbelow : NoGreater e.amount cap.amount := by
        rw [hvalue]
        cases hlast' : lastWith (limitKey cap) limits with
        | none => exact .inl rfl
        | some last =>
          obtain ⟨hin,hkey'⟩ := lastWith_mem hlast'
          rw [← hkey'] at hlast'
          exact (noGreater_min (hnumber cap hcap)).mpr ((h last hin last hlast').2.2 cap hcap hkey'.symm)
      have huserCap : e.userCap = cap.amount := by
        rw [hvalue]
        cases lastWith (limitKey cap) limits <;> rfl
      obtain ⟨last,hlast'⟩ := exists_lastWith he
      obtain ⟨hin,hkey'⟩ := lastWith_mem hlast'
      obtain rfl := hunique last hin e he hkey'
      rw [hkey] at hlast'
      exact ⟨⟨last,he,hkey,hbelow⟩,caps_passed hsource (hpositive cap hcap) hlast' huserCap hbelow⟩
    · exact (unchanged_iff hsource).mpr fun a ha b hb hkey _ => hunique a ha b hb hkey

end Modes

/-! Registries. -/

section Registries

variable {β : Type} {reader : Reader β}

/-- Where a value that is absent counts as nothing, what passes as a value is there. -/
theorem lookup_of_truthy {item : List (String × Json)} {name : String}
    (h : (field item name).truthy = true) : item.lookup name = some (field item name) := by
  rw [field] at h ⊢
  cases hlookup : item.lookup name with
  | none =>
    rw [hlookup] at h
    cases h
  | some x => rfl

theorem toFloat_of_positive {x : Json}
    (h : reader.floatAtMostZero (if x.truthy then x else .number (some 0) "0") = .ok false) :
    x.truthy = true ∧ ∃ a, reader.toFloat x = .ok a := by
  rw [reader.floatAtMostZero_eq] at h
  by_cases hx : x.truthy = true
  · rw [if_pos hx] at h
    refine ⟨hx,?_⟩
    cases hfloat : reader.toFloat x with
    | error e =>
      rw [hfloat] at h
      cases h
    | ok a => exact ⟨a,rfl⟩
  · rw [if_neg hx,reader.toFloat_zero] at h
    exact absurd (Except.ok.inj h) (by decide)

theorem toInt_of_positive {x : Json}
    (h : reader.intAtMostZero (if x.truthy then x else .number (some 0) "0") = .ok false) :
    x.truthy = true ∧ ∃ n, reader.toInt x = .ok n := by
  rw [reader.intAtMostZero_eq] at h
  by_cases hx : x.truthy = true
  · rw [if_pos hx] at h
    refine ⟨hx,?_⟩
    cases hint : reader.toInt x with
    | error e =>
      rw [hint] at h
      cases h
    | ok n => exact ⟨n,rfl⟩
  · rw [if_neg hx,reader.toInt_zero] at h
    exact absurd (Except.ok.inj h) (by decide)

theorem converted_ok {entryId : String} {x : Except ConversionError Bool} {b : Bool}
    (h : Registry.converted entryId x = .ok b) : x = .ok b := by
  cases x with
  | ok c => exact congrArg Except.ok (Except.ok.inj h)
  | error e => cases e <;> cases h

/-- What the check of a limit has found. -/
theorem checkLimit_ok {entryId : String} {item : List (String × Json)} {t : String}
    (h : Registry.checkLimit reader.toHost entryId (.object item t) = .ok ()) :
    (field item "metric").textOr "" ∈ Registry.allowedMetrics ∧
      reader.floatAtMostZero (if (field item "amount").truthy then field item "amount"
        else .number (some 0) "0") = .ok false ∧
      reader.intAtMostZero (if (field item "window_seconds").truthy then field item "window_seconds"
        else .number (some 0) "0") = .ok false := by
  simp only [Registry.checkLimit,bind,Except.bind] at h
  split at h
  · cases h
  rename_i amountLow hamount
  split at h
  · cases h
  rename_i windowLow hwindow
  split at h
  · cases h
  rename_i hvalid
  rw [not_or,not_or,not_not,Bool.not_eq_true,Bool.not_eq_true] at hvalid
  obtain ⟨hmetric,rfl,rfl⟩ := hvalid
  exact ⟨hmetric,converted_ok hamount,converted_ok hwindow⟩

/-- A limit that was checked can be read. -/
theorem parsedLimit_of_checked {entryId : String} {item : Json}
    (h : Registry.checkLimit reader.toHost entryId item = .ok ()) (source : String) :
    ∃ limit, parsedLimit reader source item = .ok limit := by
  cases item with
  | object item t =>
    obtain ⟨hmetric,hamount,hwindow⟩ := checkLimit_ok h
    have hname : (field item "metric").truthy = true := by
      by_contra hfalse
      rw [Json.textOr,if_neg hfalse] at hmetric
      exact absurd hmetric (by decide)
    obtain ⟨hamount,a,ha⟩ := toFloat_of_positive hamount
    obtain ⟨hwindow,n,hn⟩ := toInt_of_positive hwindow
    rw [parsedLimit,lookup_of_truthy hname,lookup_of_truthy hamount,lookup_of_truthy hwindow]
    simp only [present,bind,Except.bind,ha,hn,converted]
    exact ⟨_,rfl⟩
  | _ => cases h

theorem forM_ok {α ε : Type} {f : α → Except ε Unit} {l : List α} (h : l.forM f = .ok ()) :
    ∀ x ∈ l, f x = .ok () := by
  induction l with
  | nil => simp
  | cons x l ih =>
    simp only [List.forM,bind,Except.bind] at h
    split at h
    · cases h
    · rename_i hx
      exact List.forall_mem_cons.mpr ⟨hx,ih h⟩

/-- All limits of an entry that was accepted can be read. -/
theorem entryLimits_of_checked {seen : List String} {values : List Json}
    {accepted : List (List (String × Json))}
    (h : Registry.checkEntries reader.toHost seen values = .ok accepted) (source : String) :
    ∀ entry ∈ accepted, ∃ limits, entryLimits reader source entry = .ok limits := by
  induction values generalizing seen accepted with
  | nil =>
    rw [Registry.checkEntries] at h
    obtain rfl := Except.ok.inj h
    exact List.forall_mem_nil _
  | cons value values ih =>
    cases value with
    | object entry t =>
      simp only [Registry.checkEntries,bind,Except.bind] at h
      split at h
      · cases h
      split at h
      · cases h
      rename_i limits hlimits
      split at h
      · cases h
      rename_i u hchecked
      split at h
      · cases h
      rename_i rest hrest
      obtain rfl := Except.ok.inj h
      refine List.forall_mem_cons.mpr ⟨?_,ih hrest⟩
      rw [entryLimits,hlimits]
      exact Traversals.exists_mapM_iff.mpr fun item hitem => parsedLimit_of_checked (forM_ok hchecked item hitem) source
    | _ => cases h

theorem entryLimits_of_parsed [DigitTables] {payload : β} {source : String} {registry : ProviderRegistry}
    (h : Registry.parseRegistry reader.toHost payload source = .ok registry) :
    ∀ entry ∈ registry.entries, ∃ limits, entryLimits reader registry.source entry = .ok limits := by
  rw [Registry.parseRegistry] at h
  split at h
  · cases h
  split at h
  · cases h
  · split at h
    · cases h
    simp only at h
    split at h
    · split at h
      · cases h
      · split at h
        · cases h
        · rename_i items _ _ _ _ _
          cases hentries : Registry.checkEntries reader.toHost [] items with
          | error e =>
            rw [hentries] at h
            cases h
          | ok accepted =>
            rw [hentries] at h
            obtain rfl := Except.ok.inj h
            exact entryLimits_of_checked hentries source
    · cases h
  · cases h

theorem matchedEntry_mem [CaseTables] [DigitTables] {registry : ProviderRegistry} {provider : LLMProviderOptions}
    {entry : List (String × Json)} (h : matchedEntry reader registry provider = .ok (some entry)) :
    entry ∈ registry.entries := by
  simp only [matchedEntry,bind,Except.bind] at h
  split at h
  · cases h
  obtain ⟨pair,hpair,rfl⟩ := Option.map_eq_some_iff.mp (Except.ok.inj h)
  have hfound := List.argmax_mem hpair
  exact (List.of_mem_zip (List.mem_of_mem_filter hfound)).1

/-- The profile of a provider that an entry matches. -/
theorem profileFromRegistry_matched [CaseTables] [DigitTables] {registry : ProviderRegistry}
    {provider : LLMProviderOptions} {entry : List (String × Json)}
    (hlocal : isLocalProvider reader provider = .ok false)
    (hmatch : matchedEntry reader registry provider = .ok (some entry)) :
    profileFromRegistry reader provider registry =
      profileOfEntry reader provider registry.source entry := by
  simp only [profileFromRegistry,bind,Except.bind,hlocal,hmatch]
  rfl

/-- A profile of an entry has its limits, and all of the entry could be read. -/
theorem profileOfEntry_ok {provider : LLMProviderOptions} {source : String}
    {entry : List (String × Json)} {limits : List ProviderLimit} {profile : ProviderLimitProfile}
    (hlimits : entryLimits reader source entry = .ok limits)
    (h : profileOfEntry reader provider source entry = .ok profile) :
    profile.limits = limits ∧ profile.source = source ∧
      (∃ capability, entryCapability reader entry = .ok capability) ∧
        ∃ costs, entryUnitCosts reader entry = .ok costs := by
  simp only [profileOfEntry,bind,Except.bind,hlimits] at h
  split at h
  · cases h
  rename_i capability hcapability
  split at h
  · cases h
  rename_i costs hcosts
  obtain rfl := Except.ok.inj h
  exact ⟨rfl,rfl,⟨capability,hcapability⟩,costs,hcosts⟩

theorem exists_profileOfEntry (provider : LLMProviderOptions) {source : String}
    {entry : List (String × Json)} {limits : List ProviderLimit}
    (hlimits : entryLimits reader source entry = .ok limits)
    (hcapability : ∃ capability, entryCapability reader entry = .ok capability)
    (hcosts : ∃ costs, entryUnitCosts reader entry = .ok costs) :
    ∃ profile, profileOfEntry reader provider source entry = .ok profile := by
  obtain ⟨capability,hcapability⟩ := hcapability
  obtain ⟨costs,hcosts⟩ := hcosts
  simp only [profileOfEntry,bind,Except.bind,hlimits,hcapability,hcosts]
  exact ⟨_,rfl⟩

end Registries

/-! Configured caps. -/

theorem mapM_present {κ α : Type} {fields : List (κ × Option α)} {amounts : List (κ × α)}
    (h : (fields.mapM fun entry => (present entry.2).map fun amount => (entry.1,amount)) = .ok amounts) :
    amounts.map Prod.fst = fields.map Prod.fst := by
  induction fields generalizing amounts with
  | nil =>
    obtain rfl := Except.ok.inj h
    rfl
  | cons entry fields ih =>
    obtain ⟨key,amount⟩ := entry
    simp only [List.mapM_cons,bind,Except.bind] at h
    split at h
    · cases h
    rename_i first hfirst
    split at h
    · cases h
    rename_i rest hrest
    obtain rfl := Except.ok.inj h
    rw [List.map_cons,List.map_cons,ih hrest]
    cases amount with
    | none => cases hfirst
    | some x =>
      obtain rfl := Except.ok.inj hfirst
      rfl

/-- Caps have different keys, and are positive. -/
theorem configuredLimits_ok {configured : ProviderLimitOptions} {source : String}
    {caps : List ProviderLimit} (h : configuredLimits configured source = .ok caps) :
    (caps.map limitKey).Nodup ∧ ∀ cap ∈ caps, PyFloat.lt (.finite 0) cap.amount = true := by
  simp only [configuredLimits,bind,Except.bind] at h
  split at h
  · cases h
  rename_i amounts hamounts
  obtain rfl := Except.ok.inj h
  have hkeys : amounts.map Prod.fst = (configuredFields configured).map Prod.fst := mapM_present hamounts
  refine ⟨?_,fun cap hcap => ?_⟩
  · rw [List.map_map]
    refine List.Nodup.sublist (List.filter_sublist.map Prod.fst) ?_
    rw [hkeys]
    simp only [configuredFields,List.map_cons,List.map_nil]
    decide
  · obtain ⟨entry,hentry,rfl⟩ := List.mem_map.mp hcap
    exact (List.mem_filter.mp hentry).2

theorem capped_source (base : ProviderLimitProfile) (provider : LLMProviderOptions)
    (caps : List ProviderLimit) : (cappedProfile base provider caps).source ≠ "user" := by
  intro h
  have hlength := congrArg (fun s : String => s.toList.length) h
  simp only [cappedProfile,String.toList_append,List.length_append] at hlength
  have hfront : "user_cap+".toList.length = 9 := by decide
  have huser : "user".toList.length = 4 := by decide
  omega

theorem capped_limits {provider : LLMProviderOptions} {limits : List ProviderLimit} {base : ProviderLimitProfile} {caps : List ProviderLimit}
    (h : base.limits = limits) : (cappedProfile base provider caps).limits =
      sortedLimits (caps.foldl applyCap (byKey limits)) := by
  rw [cappedProfile,h]

/-! The resolution. -/

/-- The caps that are in force in the mode of the provider. -/
def modeCaps (provider : LLMProviderOptions) : Except RegistryError (List ProviderLimit) :=
  if provider.limits.mode = "auto_cap" then configuredLimits provider.limits "user" else .ok []

section Resolved

variable [CaseTables] [DigitTables] {β : Type} (reader : Reader β)

/-- The resolution gives a profile, and the limits of the entry and the caps hold in it and in what
the quota check is given. -/
def Faithful (provider : LLMProviderOptions) (registry : ProviderRegistry)
    (entry : List (String × Json)) (rate : ℤ) (rows : List LiveRow) (scopeKey : String)
    (now : PyFloat) : Prop :=
  ∃ limits caps profile, entryLimits reader registry.source entry = .ok limits ∧
    modeCaps provider = .ok caps ∧ resolveProviderLimitProfile reader provider registry = .ok profile ∧
    Preserving limits caps (effectiveLimits profile rate)
      (limitsWithLiveState rows scopeKey now (effectiveLimits profile rate) profile)
      (HasLive rows scopeKey now)

/-- When nothing is lost. `converts` and `caps`: the other values of the entry and the numbers of
the caps can be read. `auto`: limits of the entry with the same metric and window are the same, if
no live row replaces them. `autoCap`: of the limits with the same metric and window the last one
has the reset policy of each and, after the caps, an amount that is no greater; where there is a
cap, its amount is a number. -/
structure Lossless (provider : LLMProviderOptions) (registry : ProviderRegistry)
    (entry : List (String × Json)) (rows : List LiveRow) (scopeKey : String) (now : PyFloat) :
    Prop where
  converts : (∃ capability, entryCapability reader entry = .ok capability) ∧
    ∃ costs, entryUnitCosts reader entry = .ok costs
  caps : ∃ caps, modeCaps provider = .ok caps
  auto : provider.limits.mode = "auto" → registry.source ≠ "user" →
    ∀ limits, entryLimits reader registry.source entry = .ok limits → ∀ l ∈ limits, ∀ l' ∈ limits,
      limitKey l = limitKey l' → ¬HasLive rows scopeKey now (limitKey l) → l = l'
  autoCap : provider.limits.mode = "auto_cap" →
    ∀ limits, entryLimits reader registry.source entry = .ok limits → ∀ caps, modeCaps provider = .ok caps →
    ∀ l ∈ limits, ∀ last, lastWith (limitKey l) limits = some last →
      last.resetPolicy = l.resetPolicy ∧ NoGreater (cappedAmount caps last) l.amount ∧
        ∀ cap ∈ caps, limitKey cap = limitKey l → last.amount ≠ .nan

variable {reader} {provider : LLMProviderOptions} {registry : ProviderRegistry}
  {entry : List (String × Json)} {limits : List ProviderLimit}

/-- In the mode without caps the profile has the limits of the entry. -/
theorem resolve_auto (hmode : provider.limits.mode = "auto")
    (hlocal : isLocalProvider reader provider = .ok false)
    (hmatch : matchedEntry reader registry provider = .ok (some entry)) :
    resolveProviderLimitProfile reader provider registry =
      (profileOfEntry reader provider registry.source entry).map fun profile =>
        { profile with
          safetyMarginPercent := provider.limits.safetyMarginPercent
          quotaGroup := orElse provider.limits.quotaGroup profile.quotaGroup } := by
  simp only [resolveProviderLimitProfile,bind,Except.bind,profileFromRegistry_matched hlocal hmatch,hmode]
  cases profileOfEntry reader provider registry.source entry <;> rfl

/-- With caps it has the limits of the entry under the caps. -/
theorem resolve_autoCap (hmode : provider.limits.mode = "auto_cap")
    (hlocal : isLocalProvider reader provider = .ok false)
    (hmatch : matchedEntry reader registry provider = .ok (some entry)) (profile : ProviderLimitProfile) :
    resolveProviderLimitProfile reader provider registry = .ok profile ↔
      ∃ base caps, profileOfEntry reader provider registry.source entry = .ok base ∧
        configuredLimits provider.limits "user" = .ok caps ∧ profile = cappedProfile base provider caps := by
  simp only [resolveProviderLimitProfile,bind,Except.bind,profileFromRegistry_matched hlocal hmatch,hmode,
    applyUserCaps,manualProfile,hlocal]
  cases profileOfEntry reader provider registry.source entry with
  | error e => simp
  | ok base =>
    cases configuredLimits provider.limits "user" with
    | error e => simp
    | ok caps => simp [pure,Except.pure,eq_comm]

end Resolved

/-- A host for values that are decoded already, with finite numbers. -/
def sampleReader : Reader Json where
  size payload := payload.display.length
  decode := some
  floatAtMostZero x :=
    match x with
    | .number (some q) _ => .ok (decide (q ≤ 0))
    | _ => .error .typeOrValue
  intAtMostZero x :=
    match x with
    | .number (some q) _ => .ok (decide (⌊q⌋ ≤ 0))
    | _ => .error .typeOrValue
  toFloat x :=
    match x with
    | .number (some q) _ => .ok (.finite q)
    | _ => .error .typeOrValue
  toInt x :=
    match x with
    | .number (some q) _ => .ok ⌊q⌋
    | _ => .error .typeOrValue
  dictOf x :=
    match x with
    | .object fields _ => some fields
    | _ => none
  hostname _ := some "api.groq.com"
  fnmatchcase name pattern := name = pattern
  toFloat_zero := rfl
  toInt_zero := rfl
  floatAtMostZero_eq x := by
    cases x with
    | number value t => cases value <;> simp [Except.map]
    | _ => rfl
  intAtMostZero_eq x := by
    cases x with
    | number value t => cases value <;> rfl
    | _ => rfl

def dailyLimit (amount : ℕ) (resetPolicy : String) : Json :=
  .object [("metric",.str "requests"),("amount",.number (some amount) (toString amount)),
    ("window_seconds",.number (some 86400) "86400"),("reset_policy",.str resetPolicy)] ""

def sampleEntry (limits : List Json) : List (String × Json) :=
  [("entry_id",.str "groq"),("preset_ids",.list [.str "groq"] ""),("models",.list [.str "small"] ""),
    ("limits",.list limits "")]

def samplePayload (limits : List Json) : Json :=
  .object [("schema_version",.number (some 1) "1"),("registry_version",.str "2026.07.31"),
    ("generated_at",.str "2026-07-31"),("entries",.list [.object (sampleEntry limits) ""] "")] ""

def sampleRegistry (limits : List Json) : ProviderRegistry where
  registryVersion := "2026.07.31"
  generatedAt := "2026-07-31"
  entries := [sampleEntry limits]
  source := "bundled_registry"
  versionKey := toLex (2026,toLex (7,toLex (31,0)))
  versioned := by decide

def sampleProvider (mode : String) (requestsPerDay : ℤ) : LLMProviderOptions where
  providerId := "groq"
  presetId := "groq"
  baseUrl := "https://api.groq.com/openai/v1"
  model := "small"
  limits := { mode := mode, requestsPerDay := requestsPerDay }

end Limits
end WormholeObservatory
