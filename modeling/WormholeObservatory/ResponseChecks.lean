import WormholeObservatory.LlmResponses

/-! What the checks on an answer let through, field by field, and when they break off with
something else than their own error. -/
namespace WormholeObservatory
namespace Responses

open Floats (PyFloat)
open JsonValues (Value ValueTexts ConversionError field)

/-- The fields of a result that are looked at before its confidence, as documented. -/
structure Leading (allowed : List String) (item : Fields) : Prop where
  texts : ∀ name ∈ stringFieldNames, ∃ s, field item name = .str s
  domain : strip (text item "domain") ≠ ""
  policy : text item "policy" ∈ ["allow","deny","manual_review"]
  category : text item "category" ∈ allowed
  serviceRole : text item "service_role" ∈ ["core","optional","shared","unknown"]
  tags : ∃ names : List String, field item "tags" = .list (names.map .str) ∧ names.Nodup ∧
    (∀ tag ∈ names, tag ∈ allowed) ∧ text item "category" ∈ names
  risks : ∀ name ∈ ["privacy_risk","security_risk","breakage_risk"],
    ∃ n : ℤ, field item name = .int n ∧ 0 ≤ n ∧ n ≤ 100

/-- A result as documented. -/
structure Documented (allowed : List String) (item : Fields) : Prop extends Leading allowed item where
  confidence : ∃ q : ℚ, 0 ≤ q ∧ q ≤ 1 ∧
    (field item "confidence" = .float (.finite q) ∨ ∃ n : ℤ, field item "confidence" = .int n ∧ n = q)
  needsReview : ∃ b, field item "needs_review" = .bool b
  recheck : ∃ n : ℤ, field item "recheck_after_days" = .int n ∧ 1 ≤ n ∧ n ≤ 3650

/-- An object with exactly these fields. -/
def HasExactly (expected : List String) (item : Fields) : Prop :=
  ∀ name, hasField item name = true ↔ name ∈ expected

/-! Checks in a row. -/

/-- A check that fails with a message of its own gives no other outcome. -/
theorem checked_iff {α : Type*} {c : Prop} [Decidable c] {message : String} {x r : Except Failure α}
    (hr : ∀ m, r ≠ .error (.response m)) :
    (if c then .error (.response message) else x) = r ↔ ¬c ∧ x = r := by
  split
  · rename_i hc
    exact ⟨fun h => absurd h.symm (hr message),fun h => absurd hc h.1⟩
  · rename_i hc
    exact ⟨fun h => ⟨hc,h⟩,fun h => h.2⟩

theorem textOf_eq_some {v : Value} {s : String} : textOf v = some s ↔ v = .str s := by
  cases v <;> simp [textOf]

theorem intWithin_iff {lo hi : ℤ} {v : Value} :
    intWithin lo hi v = true ↔ ∃ n : ℤ, v = .int n ∧ lo ≤ n ∧ n ≤ hi := by
  cases v <;> simp [intWithin]

theorem isBool_iff {v : Value} : isBool v = true ↔ ∃ b, v = .bool b := by
  cases v <;> simp [isBool]

/-- All entries of an array are allowed texts. -/
theorem names_iff {allowed : List String} {items : List Value} :
    (items.any fun tag => !(textOf tag).any (· ∈ allowed)) = false ↔
      ∃ names : List String, items = names.map .str ∧ ∀ tag ∈ names, tag ∈ allowed := by
  constructor
  · intro h
    have hall : ∀ tag ∈ items, ∃ s, tag = .str s ∧ s ∈ allowed := by
      intro tag htag
      have hone := List.any_eq_false.mp h tag htag
      cases htext : textOf tag with
      | none => simp [htext] at hone
      | some s => exact ⟨s,textOf_eq_some.mp htext,by simpa [htext] using hone⟩
    refine ⟨items.filterMap textOf,?_,?_⟩
    · clear h
      induction items with
      | nil => rfl
      | cons v items ih =>
        obtain ⟨s,rfl,-⟩ := hall v List.mem_cons_self
        exact congrArg (Value.str s::·) (ih fun tag htag => hall tag (List.mem_cons_of_mem _ htag))
    · intro tag htag
      obtain ⟨v,hv,htext⟩ := List.mem_filterMap.mp htag
      obtain ⟨s,rfl,hs⟩ := hall v hv
      obtain rfl : s = tag := by simpa [textOf] using htext
      exact hs
  · rintro ⟨names,rfl,hnames⟩
    refine List.any_eq_false.mpr fun tag htag => ?_
    obtain ⟨s,hs,rfl⟩ := List.mem_map.mp htag
    simpa [textOf] using hnames s hs

theorem filterMap_names (names : List String) : (names.map Value.str).filterMap textOf = names := by
  induction names with
  | nil => rfl
  | cons s names ih => exact congrArg (s::·) ih

/-- The four checks on the tags. -/
theorem tags_iff {allowed : List String} {item : Fields} {category : String} :
    ((entries (field item "tags")).isEmpty = false ∧
      ((entries (field item "tags")).any fun tag => !(textOf tag).any (· ∈ allowed)) = false ∧
      ((entries (field item "tags")).filterMap textOf).Nodup ∧
      category ∈ (entries (field item "tags")).filterMap textOf) ↔
    ∃ names : List String, field item "tags" = .list (names.map .str) ∧ names.Nodup ∧
      (∀ tag ∈ names, tag ∈ allowed) ∧ category ∈ names := by
  constructor
  · rintro ⟨hne,hallowed,hnodup,hcategory⟩
    obtain ⟨names,hnames,hall⟩ := names_iff.mp hallowed
    rw [hnames,filterMap_names] at hnodup hcategory
    refine ⟨names,?_,hnodup,hall,hcategory⟩
    cases hfield : field item "tags" <;> simp_all [entries]
  · rintro ⟨names,hfield,hnodup,hall,hcategory⟩
    rw [hfield,entries,filterMap_names]
    refine ⟨?_,names_iff.mpr ⟨names,rfl,hall⟩,hnodup,hcategory⟩
    rw [List.isEmpty_eq_false_iff]
    intro h
    rw [List.map_eq_nil_iff.mp h] at hcategory
    cases hcategory

/-! One result. -/

variable {host : Host} {allowed : List String} {item : Fields} {index : ℕ}

theorem strings_iff : (host.stringFields.find? fun name => (textOf (field item name)).isNone) = none ↔
    ∀ name ∈ stringFieldNames, ∃ s, field item name = .str s := by
  rw [List.find?_eq_none]
  have hone : ∀ name, ¬(textOf (field item name)).isNone = true ↔ ∃ s, field item name = .str s := by
    intro name
    rw [Option.isNone_iff_eq_none,← ne_eq,Option.ne_none_iff_exists']
    exact exists_congr fun s => textOf_eq_some
  exact ⟨fun h name hname => (hone name).mp (h name (host.stringFields_perm.mem_iff.mpr hname)),
    fun h name hname => (hone name).mpr (h name (host.stringFields_perm.mem_iff.mp hname))⟩

theorem risks_iff : (["privacy_risk","security_risk","breakage_risk"].find? fun name =>
      !intWithin 0 100 (field item name)) = none ↔
    ∀ name ∈ ["privacy_risk","security_risk","breakage_risk"],
      ∃ n : ℤ, field item name = .int n ∧ 0 ≤ n ∧ n ≤ 100 := by
  rw [List.find?_eq_none]
  refine forall₂_congr fun name _ => ?_
  rw [Bool.not_eq_true',Bool.not_eq_false,intWithin_iff]

theorem validateResultTypes_iff {r : Except Failure Unit} (hr : ∀ m, r ≠ .error (.response m)) :
    validateResultTypes host item index allowed = r ↔
      Leading allowed item ∧ validateJudgement item index = r := by
  rw [validateResultTypes]
  cases hstrings : host.stringFields.find? fun name => (textOf (field item name)).isNone with
  | some name =>
    refine ⟨fun h => absurd h.symm (hr _),fun h => ?_⟩
    rw [strings_iff.mpr h.1.texts] at hstrings
    cases hstrings
  | none =>
    simp only [checked_iff hr]
    cases hrisks : ["privacy_risk","security_risk","breakage_risk"].find? fun name =>
        !intWithin 0 100 (field item name) with
    | some name =>
      refine ⟨fun h => absurd h.2.2.2.2.2.2.2.2.symm (hr _),fun h => ?_⟩
      rw [risks_iff.mpr h.1.risks] at hrisks
      cases hrisks
    | none =>
      simp only [not_not,Bool.not_eq_true]
      constructor
      · rintro ⟨hdomain,hpolicy,hcategory,hrole,hne,hallowed,hnodup,hown,hrest⟩
        exact ⟨⟨strings_iff.mp hstrings,hdomain,hpolicy,hcategory,hrole,
          tags_iff.mp ⟨hne,hallowed,hnodup,hown⟩,risks_iff.mp hrisks⟩,hrest⟩
      · rintro ⟨h,hrest⟩
        obtain ⟨hne,hallowed,hnodup,hown⟩ := tags_iff.mpr h.tags
        exact ⟨h.domain,h.policy,h.category,h.serviceRole,hne,hallowed,hnodup,hown,hrest⟩

theorem unit_iff {x : PyFloat} : (PyFloat.le (.finite 0) x && PyFloat.le x (.finite 1)) = true ↔
    ∃ q : ℚ, x = .finite q ∧ 0 ≤ q ∧ q ≤ 1 := by
  cases x <;> simp [PyFloat.le_finite] <;> simp [PyFloat.le,PyFloat.lt,PyFloat.eq]

/-- An integer lies in the unit interval as a float exactly if it does itself. -/
theorem ofInt_unit_iff {n : ℤ} :
    (∃ x, Floats.ofInt n = some x ∧ (PyFloat.le (.finite 0) x && PyFloat.le x (.finite 1)) = true) ↔
      0 ≤ n ∧ n ≤ 1 := by
  constructor
  · rintro ⟨x,hx,hunit⟩
    obtain rfl := Floats.ofInt_eq_some hx
    obtain ⟨q,hq,hlo,hhi⟩ := unit_iff.mp hunit
    obtain rfl := PyFloat.finite.inj hq
    have hsame := Floats.significant_unit (by exact_mod_cast hlo) (by exact_mod_cast hhi)
    rw [hsame] at hlo hhi
    exact ⟨by exact_mod_cast hlo,by exact_mod_cast hhi⟩
  · rintro ⟨hlo,hhi⟩
    refine ⟨.finite n,Floats.ofInt_small (by omega),unit_iff.mpr ⟨n,rfl,?_,?_⟩⟩
    · exact_mod_cast hlo
    · exact_mod_cast hhi

theorem unitNumber_ok_iff {v : Value} : unitNumber v = .ok true ↔
    ∃ q : ℚ, 0 ≤ q ∧ q ≤ 1 ∧ (v = .float (.finite q) ∨ ∃ n : ℤ, v = .int n ∧ n = q) := by
  cases v with
  | int n =>
    have hvalue : unitNumber (.int n) = .ok true ↔ 0 ≤ n ∧ n ≤ 1 := by
      rw [← ofInt_unit_iff,unitNumber]
      cases Floats.ofInt n <;> simp
    rw [hvalue]
    constructor
    · rintro ⟨hlo,hhi⟩
      exact ⟨n,by exact_mod_cast hlo,by exact_mod_cast hhi,.inr ⟨n,rfl,rfl⟩⟩
    · rintro ⟨q,hlo,hhi,hq | ⟨m,hm,rfl⟩⟩
      · cases hq
      · obtain rfl := Value.int.inj hm
        exact ⟨by exact_mod_cast hlo,by exact_mod_cast hhi⟩
  | float x =>
    rw [unitNumber,Except.ok.injEq,unit_iff]
    constructor
    · rintro ⟨q,rfl,hlo,hhi⟩
      exact ⟨q,hlo,hhi,.inl rfl⟩
    · rintro ⟨q,hlo,hhi,hq | ⟨m,hm,-⟩⟩
      · exact ⟨q,Value.float.inj hq,hlo,hhi⟩
      · cases hm
  | _ => simp [unitNumber]

theorem unitNumber_error_iff {v : Value} {e : ConversionError} : unitNumber v = .error e ↔
    e = .overflow ∧ ∃ n : ℤ, v = .int n ∧ Floats.ofInt n = none := by
  cases v with
  | int n =>
    rw [unitNumber]
    cases hfloat : Floats.ofInt n <;> simp [hfloat,eq_comm]
  | _ => simp [unitNumber]

theorem validateJudgement_ok_iff : validateJudgement item index = .ok () ↔
    unitNumber (field item "confidence") = .ok true ∧ isBool (field item "needs_review") = true ∧
      intWithin 1 3650 (field item "recheck_after_days") = true := by
  rw [validateJudgement]
  cases unitNumber (field item "confidence") with
  | error e => simp
  | ok within => simp [checked_iff]

theorem validateJudgement_escape_iff {f : Failure} (hf : ∀ m, f ≠ .response m) :
    validateJudgement item index = .error f ↔
      ∃ e, f = .escape e ∧ unitNumber (field item "confidence") = .error e := by
  have hr : ∀ m, (.error f : Except Failure Unit) ≠ .error (.response m) :=
    fun m h => hf m (Except.error.inj h)
  rw [validateJudgement]
  cases unitNumber (field item "confidence") with
  | error e => simp [eq_comm]
  | ok within => simp [checked_iff hr]

/-- A result passes exactly if it is as documented. -/
theorem validateResultTypes_ok_iff :
    validateResultTypes host item index allowed = .ok () ↔ Documented allowed item := by
  rw [validateResultTypes_iff (by simp),validateJudgement_ok_iff,unitNumber_ok_iff,isBool_iff,
    intWithin_iff]
  constructor
  · rintro ⟨hlead,hconfidence,hneeds,hrecheck⟩
    exact ⟨hlead,hconfidence,hneeds,hrecheck⟩
  · intro h
    exact ⟨h.toLeading,h.confidence,h.needsReview,h.recheck⟩

/-- The number of a result that no float can hold, once it is reached. -/
def Oversized (allowed : List String) (item : Fields) : Prop :=
  Leading allowed item ∧ ∃ n : ℤ, field item "confidence" = .int n ∧ Floats.ofInt n = none

theorem validateResultTypes_escape_iff {f : Failure} (hf : ∀ m, f ≠ .response m) :
    validateResultTypes host item index allowed = .error f ↔
      f = .escape .overflow ∧ Oversized allowed item := by
  rw [validateResultTypes_iff fun m h => hf m (Except.error.inj h),validateJudgement_escape_iff hf]
  simp only [unitNumber_error_iff,Oversized]
  constructor
  · rintro ⟨hlead,e,rfl,rfl,hbig⟩
    exact ⟨rfl,hlead,hbig⟩
  · rintro ⟨rfl,hlead,hbig⟩
    exact ⟨hlead,_,rfl,rfl,hbig⟩

/-! All results. -/

theorem sortTexts_eq_nil {texts : List String} : sortTexts texts = [] ↔ texts = [] := by
  rw [← List.length_eq_zero_iff,← List.length_eq_zero_iff,sortTexts,List.length_insertionSort]

theorem missing_extra_iff {expected : List String} :
    (missingFields expected item = [] ∧ extraFields expected item = []) ↔ HasExactly expected item := by
  have hfield : ∀ name, hasField item name = true ↔ name ∈ item.map Prod.fst := by
    intro name
    simp [hasField]
  rw [missingFields,extraFields,sortTexts_eq_nil,sortTexts_eq_nil,List.filter_eq_nil_iff,
    List.filter_eq_nil_iff]
  constructor
  · rintro ⟨hmissing,hextra⟩ name
    constructor
    · intro h
      have hname := hextra name (List.mem_eraseDups.mpr ((hfield name).mp h))
      simpa using hname
    · intro h
      have hname := hmissing name h
      simpa using hname
  · intro h
    refine ⟨fun name hname => ?_,fun name hname => ?_⟩
    · simpa using (h name).mpr hname
    · simpa using (h name).mp ((hfield name).mpr (List.mem_eraseDups.mp hname))

/-- A value that is a result as documented, with no other fields. -/
def Sound (allowed : List String) (v : Value) : Prop :=
  ∃ item, v = .dict item ∧ HasExactly resultFields item ∧ Documented allowed item

theorem sound_dict :
    Sound allowed (.dict item) ↔ HasExactly resultFields item ∧ Documented allowed item := by
  constructor
  · rintro ⟨item',heq,h⟩
    obtain rfl := Value.dict.inj heq
    exact h
  · exact fun h => ⟨item,rfl,h⟩

theorem validateResults_ok_iff {results : List Value} :
    validateResults host allowed index results = .ok () ↔ ∀ v ∈ results, Sound allowed v := by
  induction results generalizing index with
  | nil => simp [validateResults]
  | cons v results ih =>
    rw [List.forall_mem_cons]
    cases v with
    | dict item =>
      rw [sound_dict,← missing_extra_iff,← @validateResultTypes_ok_iff _ _ _ index,validateResults,
        checked_iff (by simp),checked_iff (by simp)]
      cases hvalid : validateResultTypes host item index allowed with
      | error f => simp
      | ok u => simp [ih,and_assoc]
    | _ =>
      rw [validateResults]
      · simp [Sound]
      · simp

/-- The first result that does not pass is one with an oversized number. -/
def Overflowing (allowed : List String) (results : List Value) : Prop :=
  ∃ front item rest, results = front++.dict item::rest ∧ (∀ v ∈ front, Sound allowed v) ∧
    HasExactly resultFields item ∧ Oversized allowed item

theorem overflowing_cons {v : Value} {results : List Value} :
    Overflowing allowed (v::results) ↔
      (∃ item, v = .dict item ∧ HasExactly resultFields item ∧ Oversized allowed item) ∨
        Sound allowed v ∧ Overflowing allowed results := by
  constructor
  · rintro ⟨front,item,rest,heq,hfront,h⟩
    cases front with
    | nil =>
      obtain ⟨rfl,-⟩ := List.cons_eq_cons.mp heq
      exact .inl ⟨item,rfl,h⟩
    | cons w front =>
      obtain ⟨rfl,rfl⟩ := List.cons_eq_cons.mp heq
      exact .inr ⟨hfront _ List.mem_cons_self,front,item,rest,rfl,
        fun u hu => hfront u (List.mem_cons_of_mem _ hu),h⟩
  · rintro (⟨item,rfl,h⟩ | ⟨hv,front,item,rest,rfl,hfront,h⟩)
    · exact ⟨[],item,results,rfl,by simp,h⟩
    · exact ⟨v::front,item,rest,rfl,List.forall_mem_cons.mpr ⟨hv,hfront⟩,h⟩

theorem validateResults_escape_iff {results : List Value} {f : Failure} (hf : ∀ m, f ≠ .response m) :
    validateResults host allowed index results = .error f ↔
      f = .escape .overflow ∧ Overflowing allowed results := by
  have hr : ∀ m, (.error f : Except Failure Unit) ≠ .error (.response m) :=
    fun m h => hf m (Except.error.inj h)
  induction results generalizing index with
  | nil => simp [validateResults,Overflowing]
  | cons v results ih =>
    rw [overflowing_cons]
    cases v with
    | dict item =>
      rw [validateResults,checked_iff hr,checked_iff hr,not_not,not_not,← and_assoc,missing_extra_iff]
      have hhead : (∃ item', Value.dict item = .dict item' ∧ HasExactly resultFields item' ∧
          Oversized allowed item') ↔ HasExactly resultFields item ∧ Oversized allowed item := by
        constructor
        · rintro ⟨item',heq,h⟩
          obtain rfl := Value.dict.inj heq
          exact h
        · exact fun h => ⟨item,rfl,h⟩
      have hescape := @validateResultTypes_escape_iff host allowed item index f hf
      rw [hhead,sound_dict,← @validateResultTypes_ok_iff host _ _ index]
      cases hvalid : validateResultTypes host item index allowed with
      | error g =>
        rw [hvalid] at hescape
        simp only [Except.error.injEq] at hescape ⊢
        rw [hescape]
        tauto
      | ok u =>
        rw [hvalid] at hescape
        have hnone : ¬(f = .escape .overflow ∧ Oversized allowed item) := fun h => by
          cases hescape.mpr h
        simp only [ih]
        tauto
    | _ =>
      rw [validateResults]
      · constructor
        · exact fun h => absurd h.symm (hr _)
        · rintro ⟨-,⟨item',heq,-⟩ | ⟨⟨item',heq,-⟩,-⟩⟩ <;> cases heq
      · simp

/-! The payload. -/

/-- The top level as documented, the version apart, which need only equal 1. -/
def Framed (payload : Fields) (results : List Value) : Prop :=
  HasExactly ["schema_version","results"] payload ∧ isVersion (field payload "schema_version") = true ∧
    field payload "results" = .list results

section Payload

variable [CaseTables] {payload : Fields} {tags : List String}

theorem validateBatchPayload_iff {r : Except Failure Unit} (hr : ∀ m, r ≠ .error (.response m)) :
    validateBatchPayload host payload tags = r ↔
      ∃ results, Framed payload results ∧ validateResults host (allowedTags tags) 0 results = r := by
  rw [validateBatchPayload,checked_iff hr,checked_iff hr,checked_iff hr,not_not,not_not,not_not,
    ← and_assoc,missing_extra_iff]
  cases hresults : field payload "results" with
  | list results => simp [Framed,hresults,and_assoc]
  | _ => simp [Framed,hresults,(hr _).symm]

/-- A payload passes exactly if all of it is as documented, the version apart. -/
theorem validateBatchPayload_ok_iff : validateBatchPayload host payload tags = .ok () ↔
    ∃ results, Framed payload results ∧ ∀ v ∈ results, Sound (allowedTags tags) v := by
  simp only [validateBatchPayload_iff (r := .ok ()) (by simp),validateResults_ok_iff]

theorem validateBatchPayload_escape_iff {f : Failure} (hf : ∀ m, f ≠ .response m) :
    validateBatchPayload host payload tags = .error f ↔ f = .escape .overflow ∧
      ∃ results, Framed payload results ∧ Overflowing (allowedTags tags) results := by
  simp only [validateBatchPayload_iff fun m h => hf m (Except.error.inj h),validateResults_escape_iff hf]
  tauto

end Payload

/-! What a documented result becomes. -/

section Building

variable [ValueTexts]

theorem boundedInt_int {n lo hi default : ℤ} (hlo : lo ≤ n) (hhi : n ≤ hi) (h : n.natAbs < 2^53) :
    boundedInt (.int n) lo hi default = .ok n := by
  have hfloat : (Value.int n).toFloat = .ok (.finite n) := by
    rw [Value.toFloat,Floats.ofInt_small h]
  have hint : (Value.float (.finite n)).toInt = .ok n := by
    rw [Value.toInt,Int.floor_intCast,Int.ceil_intCast,ite_self]
  rw [boundedInt,hfloat]
  simp only [bind,Except.bind,hint]
  rw [max_eq_right hlo,min_eq_right hhi]

theorem boundedFloat_documented (h : Documented allowed item) :
    ∃ q, boundedFloat (field item "confidence") 0 1 = .ok q := by
  obtain ⟨q,hlo,hhi,hq | ⟨n,hn,rfl⟩⟩ := h.confidence
  · refine ⟨q,?_⟩
    rw [hq,boundedFloat,Value.toFloat]
    exact congrArg Except.ok (PyFloat.clamp_of_mem hlo hhi)
  · have hsmall : n.natAbs < 2^53 := by
      have hlo' : (0 : ℤ) ≤ n := by exact_mod_cast hlo
      have hhi' : n ≤ 1 := by exact_mod_cast hhi
      omega
    refine ⟨n,?_⟩
    rw [hn,boundedFloat,Value.toFloat,Floats.ofInt_small hsmall]
    exact congrArg Except.ok (PyFloat.clamp_of_mem hlo hhi)

omit [ValueTexts] in
theorem field_text {name : String} (h : Leading allowed item) (hname : name ∈ stringFieldNames) :
    field item name = .str (text item name) := by
  obtain ⟨s,hs⟩ := h.texts name hname
  rw [text,hs,textOf,Option.getD_some]

@[simp] theorem textOr_empty (s : String) : (Value.str s).textOr "" = s := by
  rw [JsonValues.Value.textOr_str]
  split_ifs with h
  · exact h.symm
  · rfl

/-- A documented result always becomes a classification, with the fields read as follows. -/
theorem classificationFromPayload_documented [CaseTables] (h : Documented allowed item)
    (tags : List String) (domain provider rawText : String) (options : ReviewOptions) :
    ∃ c, classificationFromPayload item tags domain provider rawText options = .ok c ∧
      c.domain = normalizeDomain domain ∧ c.policy = normalizePolicy (text item "policy") ∧
      c.category = normalizeTagValue (field item "category") (allowedTags tags) ∧
      c.tags = classificationTags item (allowedTags tags) ∧
      c.serviceRole = normalizeServiceRole (field item "service_role") ∧
      field item "privacy_risk" = .int c.privacyRisk ∧ field item "security_risk" = .int c.securityRisk ∧
      field item "breakage_risk" = .int c.breakageRisk ∧
      (field item "needs_review" = .bool true → c.needsReview = true) := by
  obtain ⟨q,hq⟩ := boundedFloat_documented h
  obtain ⟨privacy,hprivacy,hplo,hphi⟩ := h.risks "privacy_risk" (by decide)
  obtain ⟨security,hsecurity,hslo,hshi⟩ := h.risks "security_risk" (by decide)
  obtain ⟨breakage,hbreakage,hblo,hbhi⟩ := h.risks "breakage_risk" (by decide)
  obtain ⟨recheck,hrecheck,hrlo,hrhi⟩ := h.recheck
  have hpolicy : field item "policy" = .str (text item "policy") := field_text h.toLeading (by decide)
  rw [classificationFromPayload,hq,hprivacy,hsecurity,hbreakage,hrecheck,
    boundedInt_int hplo hphi (by omega),boundedInt_int hslo hshi (by omega),
    boundedInt_int hblo hbhi (by omega),boundedInt_int hrlo hrhi (by omega),hpolicy,textOr_empty]
  refine ⟨_,rfl,rfl,rfl,rfl,rfl,rfl,rfl,rfl,rfl,fun hneeds => ?_⟩
  rw [hneeds]
  rfl

end Building

end Responses
end WormholeObservatory
