import WormholeObservatory.JsonValues
import WormholeObservatory.Letters
import WormholeObservatory.Substrings

/-! Keys of providers are taken out of what is shown or stored: the key itself and the two forms it
has in a URL. A text has no lone surrogates. -/
namespace WormholeObservatory
namespace Redaction

open JsonValues

/-- The order in which a set of texts lists its members. -/
class SetOrder where
  list : List String → List String
  list_perm : ∀ texts, (list texts).Perm texts.dedup

/-- The order of insertion. -/
instance insertionOrder : SetOrder where
  list := List.dedup
  list_perm _ := .refl _

/-! Percent-encoding. -/

/-- `_ALWAYS_SAFE`: letters, digits, `_`, `.`, `-` and `~`. -/
def alwaysSafe (b : ℕ) : Bool :=
  (65 ≤ b && b ≤ 90) || (97 ≤ b && b ≤ 122) || (48 ≤ b && b ≤ 57) || b == 95 || b == 46 || b == 45 ||
    b == 126

/-- A digit of `"{:02X}"`. -/
def upperHex (n : ℕ) : Char := Char.ofNat (if n < 10 then 48+n else 55+n)

/-- A byte as it is or as `%XX`. -/
def quoteByte (safe : List ℕ) (b : UInt8) : List Char :=
  if alwaysSafe b.toNat || b.toNat ∈ safe then [Char.ofNat b.toNat]
  else ['%',upperHex (b.toNat/16),upperHex (b.toNat%16)]

/-- `quote(s, safe=...)`. -/
def quoteSafe (safe : List ℕ) (s : String) : String :=
  String.ofList ((s.toList.flatMap String.utf8EncodeChar).flatMap (quoteByte safe))

/-- `quote(s, safe="")`. -/
def quote (s : String) : String := quoteSafe [] s

/-- `quote_plus(s, safe="")`. -/
def quotePlus (s : String) : String :=
  if ' ' ∈ s.toList then replaceChar ' ' '+' (quoteSafe [32] s) else quote s

/-! Redaction. -/

/-- `redacted.replace(variant, "***")`. -/
def mask (redacted variant : String) : String :=
  String.ofList (Substrings.replace variant.toList ['*','*','*'] redacted.toList)

section Redact

variable [SetOrder]

/-- `sorted(variants, key=len, reverse=True)`. -/
def variants (secret : String) : List String :=
  (SetOrder.list [secret,quote secret,quotePlus secret]).insertionSort fun a b =>
    b.toList.length ≤ a.toList.length

/-- `_redact_secret_text`. -/
def redactSecretText (value apiKey : String) : String :=
  let secret := strip apiKey
  if secret = "" then value
  else (variants secret).foldl (fun redacted variant =>
    if variant = "" then redacted else mask redacted variant) value

mutual

/-- `_redact_metadata`. -/
def redactMetadata (apiKey : String) : Value → Value
  | .dict fields => .dict (redactFields apiKey fields)
  | .list items => .list (redactItems apiKey items)
  | .str s => .str (redactSecretText s apiKey)
  | value => value

def redactFields (apiKey : String) : List (String × Value) → List (String × Value)
  | [] => []
  | (key,value)::fields => (key,redactMetadata apiKey value)::redactFields apiKey fields

def redactItems (apiKey : String) : List Value → List Value
  | [] => []
  | value::items => redactMetadata apiKey value::redactItems apiKey items

end

end Redact

/-! The texts of a value. -/

mutual

/-- The texts at any depth of a value. -/
def texts : Value → List String
  | .dict fields => textsOfFields fields
  | .list items => textsOfItems items
  | .str s => [s]
  | _ => []

def textsOfFields : List (String × Value) → List String
  | [] => []
  | (_,value)::fields => texts value++textsOfFields fields

def textsOfItems : List Value → List String
  | [] => []
  | value::items => texts value++textsOfItems items

end

/-- Neither the key nor one of its two forms in a URL is part of the text. -/
def Clean (secret s : String) : Prop :=
  contains s secret = false ∧ contains s (quote secret) = false ∧ contains s (quotePlus secret) = false

/-! Forms of a key. -/

theorem ne_star_of_toNat {n : ℕ} (hn : n ≠ 42) (hsmall : n < 256) : Char.ofNat n ≠ '*' := by
  have hvalid : n.isValidChar := Or.inl (by omega)
  have hnat : (Char.ofNat n).toNat = n := by
    delta Char.ofNat
    rw [dif_pos hvalid]
    rfl
  intro h
  rw [h] at hnat
  exact hn hnat.symm

theorem upperHex_ne_star {n : ℕ} (h : n < 16) : upperHex n ≠ '*' := by
  rw [upperHex]
  split
  · exact ne_star_of_toNat (by omega) (by omega)
  · exact ne_star_of_toNat (by omega) (by omega)

theorem quoteByte_ne_star {safe : List ℕ} (hsafe : 42 ∉ safe) (b : UInt8) :
    ∀ c ∈ quoteByte safe b, c ≠ '*' := by
  have hb : b.toNat < 256 := b.toNat_lt
  rw [quoteByte]
  split
  · rename_i h
    have hne : b.toNat ≠ 42 := by
      intro hstar
      rw [hstar,Bool.or_eq_true,decide_eq_true_eq] at h
      exact h.elim (fun h => absurd h (by decide)) hsafe
    exact List.forall_mem_singleton.mpr (ne_star_of_toNat hne hb)
  · refine List.forall_mem_cons.mpr ⟨by decide,List.forall_mem_cons.mpr ⟨?_,List.forall_mem_singleton.mpr ?_⟩⟩
    · exact upperHex_ne_star (by omega)
    · exact upperHex_ne_star (by omega)

theorem quoteSafe_ne_star {safe : List ℕ} (hsafe : 42 ∉ safe) (s : String) :
    ∀ c ∈ (quoteSafe safe s).toList, c ≠ '*' := by
  intro c hc
  rw [quoteSafe,String.toList_ofList] at hc
  obtain ⟨b,-,hb⟩ := List.mem_flatMap.mp hc
  exact quoteByte_ne_star hsafe b c hb

theorem quotePlus_ne_star (s : String) : ∀ c ∈ (quotePlus s).toList, c ≠ '*' := by
  rw [quotePlus]
  split
  · intro c hc
    rw [toList_replaceChar] at hc
    obtain ⟨d,hd,rfl⟩ := List.mem_map.mp hc
    split
    · decide
    · exact quoteSafe_ne_star (by decide) s d hd
  · exact quoteSafe_ne_star (by decide) s

theorem quoteSafe_ne_empty {s : String} (h : s ≠ "") (safe : List ℕ) : quoteSafe safe s ≠ "" := by
  intro hempty
  have hlist := congrArg String.toList hempty
  rw [quoteSafe,String.toList_ofList,String.toList_empty] at hlist
  obtain ⟨c,l,hcons⟩ := List.exists_cons_of_ne_nil (fun hnil => h (String.toList_inj.mp hnil) : s.toList ≠ [])
  have hbytes : String.utf8EncodeChar c ≠ [] := by
    rw [← List.length_pos_iff,String.length_utf8EncodeChar]
    exact Char.utf8Size_pos c
  obtain ⟨b,bs,hb⟩ := List.exists_cons_of_ne_nil hbytes
  have hquoted : quoteByte safe b ≠ [] := by
    rw [quoteByte]
    split <;> simp
  rw [hcons,List.flatMap_cons,hb,List.cons_append,List.flatMap_cons] at hlist
  exact hquoted (List.append_eq_nil_iff.mp hlist).1

theorem quotePlus_ne_empty {s : String} (h : s ≠ "") : quotePlus s ≠ "" := by
  rw [quotePlus]
  split
  · intro hempty
    have hlist := congrArg String.toList hempty
    rw [toList_replaceChar,String.toList_empty,List.map_eq_nil_iff] at hlist
    exact quoteSafe_ne_empty h [32] (String.toList_inj.mp hlist)
  · exact quoteSafe_ne_empty h []

/-! What is left. -/

section Clean

variable [SetOrder]

theorem mem_variants (secret variant : String) :
    variant ∈ variants secret ↔ variant = secret ∨ variant = quote secret ∨ variant = quotePlus secret := by
  rw [variants,List.mem_insertionSort,(SetOrder.list_perm _).mem_iff,List.mem_dedup]
  simp

omit [SetOrder] in
theorem foldl_mask {forms : List String} (hne : ∀ form ∈ forms, form ≠ "") (value : String) :
    (forms.foldl (fun redacted variant => if variant = "" then redacted else mask redacted variant)
      value).toList = Substrings.replaceAll ['*','*','*'] (forms.map String.toList) value.toList := by
  induction forms generalizing value with
  | nil => rfl
  | cons form forms ih =>
    obtain ⟨hform,hrest⟩ := List.forall_mem_cons.mp hne
    rw [List.foldl_cons,if_neg hform,ih hrest,mask,String.toList_ofList]
    rfl

/-- Every form of a key without an asterisk is a text without one. -/
theorem variant_free {secret : String} (hne : secret ≠ "") (hstar : '*' ∉ secret.toList) :
    ∀ variant ∈ variants secret, variant ≠ "" ∧ '*' ∉ variant.toList := by
  intro variant hvariant
  rcases (mem_variants secret variant).mp hvariant with rfl | rfl | rfl
  · exact ⟨hne,hstar⟩
  · exact ⟨quoteSafe_ne_empty hne [],fun h => quoteSafe_ne_star (by decide) secret _ h rfl⟩
  · exact ⟨quotePlus_ne_empty hne,fun h => quotePlus_ne_star secret _ h rfl⟩

theorem redactSecretText_clean {apiKey : String} (hne : strip apiKey ≠ "")
    (hstar : '*' ∉ (strip apiKey).toList) (value : String) :
    Clean (strip apiKey) (redactSecretText value apiKey) := by
  have hfree := variant_free hne hstar
  have hresult : (redactSecretText value apiKey).toList = Substrings.replaceAll ['*','*','*']
      ((variants (strip apiKey)).map String.toList) value.toList := by
    rw [redactSecretText,if_neg hne]
    exact foldl_mask (fun variant h => (hfree variant h).1) value
  have hwords : ∀ word ∈ (variants (strip apiKey)).map String.toList,
      word ≠ [] ∧ ∀ c ∈ ['*','*','*'], c ∉ word := by
    intro word hword
    obtain ⟨variant,hvariant,rfl⟩ := List.mem_map.mp hword
    obtain ⟨hempty,hfree⟩ := hfree variant hvariant
    refine ⟨fun h => hempty (String.toList_inj.mp h),fun c hc => ?_⟩
    obtain rfl : c = '*' := by simpa using hc
    exact hfree
  have hgone : ∀ variant ∈ variants (strip apiKey),
      contains (redactSecretText value apiKey) variant = false := by
    intro variant hvariant
    rw [← Bool.not_eq_true,contains_iff,hresult]
    exact Substrings.not_infix_replaceAll (List.cons_ne_nil _ _) hwords _ _ (List.mem_map_of_mem hvariant)
  exact ⟨hgone _ ((mem_variants _ _).mpr (Or.inl rfl)),hgone _ ((mem_variants _ _).mpr (Or.inr (Or.inl rfl))),
    hgone _ ((mem_variants _ _).mpr (Or.inr (Or.inr rfl)))⟩

mutual

/-- The texts of redacted metadata are its texts redacted, at every depth. -/
theorem texts_redactMetadata (apiKey : String) : ∀ value : Value,
    texts (redactMetadata apiKey value) = (texts value).map fun s => redactSecretText s apiKey
  | .dict fields => by
    rw [redactMetadata,texts,texts]
    exact texts_redactFields apiKey fields
  | .list items => by
    rw [redactMetadata,texts,texts]
    exact texts_redactItems apiKey items
  | .str s => rfl
  | .null => rfl
  | .bool _ => rfl
  | .int _ => rfl
  | .float _ => rfl

theorem texts_redactFields (apiKey : String) : ∀ fields : List (String × Value),
    textsOfFields (redactFields apiKey fields) =
      (textsOfFields fields).map fun s => redactSecretText s apiKey
  | [] => rfl
  | (key,value)::fields => by
    rw [redactFields,textsOfFields,textsOfFields,List.map_append,texts_redactMetadata apiKey value,
      texts_redactFields apiKey fields]

theorem texts_redactItems (apiKey : String) : ∀ items : List Value,
    textsOfItems (redactItems apiKey items) = (textsOfItems items).map fun s => redactSecretText s apiKey
  | [] => rfl
  | value::items => by
    rw [redactItems,textsOfItems,textsOfItems,List.map_append,texts_redactMetadata apiKey value,
      texts_redactItems apiKey items]

end

/-- Neither the key nor a form of it is left in a text, or in a text at any depth of metadata. -/
theorem redaction_complete {apiKey : String} (hne : strip apiKey ≠ "")
    (hstar : '*' ∉ (strip apiKey).toList) :
    (∀ value, Clean (strip apiKey) (redactSecretText value apiKey)) ∧
      ∀ value, ∀ s ∈ texts (redactMetadata apiKey value), Clean (strip apiKey) s := by
  refine ⟨redactSecretText_clean hne hstar,fun value s hs => ?_⟩
  rw [texts_redactMetadata] at hs
  obtain ⟨before,-,rfl⟩ := List.mem_map.mp hs
  exact redactSecretText_clean hne hstar before

end Clean

theorem redaction_complete_plus :
    Clean (strip " a b ") (redactSecretText "url?k=a+b+b&m=a b" " a b ") ∧
      ∀ s ∈ texts (redactMetadata " a b " (.dict [("urls",.list [.str "a%20b"])])),
        Clean (strip " a b ") s := by
  have hclean := @redaction_complete _ " a b " (by decide) (by decide)
  exact ⟨hclean.1 _,hclean.2 _⟩

end Redaction
end WormholeObservatory
