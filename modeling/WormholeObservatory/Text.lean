import Mathlib.Data.List.DropRight
import Mathlib.Data.List.Sort
import Mathlib.Tactic

/-! The text operations of the host language that names pass through.
Blanks are the code points `str.strip` removes. The case tables of Unicode stay
a parameter: nothing below depends on how a letter outside ASCII is folded. -/
namespace WormholeObservatory

/-- The letters of a text are few, the code points are not. -/
instance (priority := 2000) decidableLetters (p : Char → Prop) [DecidablePred p] (l : List Char) :
    Decidable (∀ c, c ∈ l → p c) :=
  List.decidableBAll p l

/-- `str.isspace` on one code point, the set `str.strip` works with. -/
def isSpace (c : Char) : Bool :=
  c.toNat ∈ [9,10,11,12,13,28,29,30,31,32,0x85,0xa0,0x1680,0x2000,0x2001,0x2002,0x2003,0x2004,
    0x2005,0x2006,0x2007,0x2008,0x2009,0x200a,0x2028,0x2029,0x202f,0x205f,0x3000]

def asciiLower (s : String) : String := String.ofList (s.toList.map Char.toLower)

/-- `str.lower` and `str.casefold`. Both agree with the plain table on ASCII. -/
class CaseTables where
  lower : String → String
  casefold : String → String
  lower_ascii : ∀ s, (∀ c ∈ s.toList, c.toNat < 128) → lower s = asciiLower s
  casefold_ascii : ∀ s, (∀ c ∈ s.toList, c.toNat < 128) → casefold s = asciiLower s

/-- The table that leaves every letter outside ASCII alone. -/
instance asciiTables : CaseTables where
  lower := asciiLower
  casefold := asciiLower
  lower_ascii _ _ := rfl
  casefold_ascii _ _ := rfl

/-- `str.strip()`. -/
def strip (s : String) : String :=
  String.ofList ((s.toList.dropWhile isSpace).rdropWhile isSpace)

/-- `str.rstrip(".")`. -/
def rstripDots (s : String) : String := String.ofList (s.toList.rdropWhile (· == '.'))

/-- `str.rstrip("/")`. -/
def rstripSlashes (s : String) : String := String.ofList (s.toList.rdropWhile (· == '/'))

def startsWith (s lead : String) : Bool := lead.toList.isPrefixOf s.toList

def endsWith (s tail : String) : Bool := tail.toList.isSuffixOf s.toList

/-- `sub in s`. -/
def contains (s sub : String) : Bool := s.toList.tails.any fun rest => sub.toList.isPrefixOf rest

/-- `s.split()`: the words between blanks. -/
def words (s : String) : List String :=
  ((s.toList.splitOnP isSpace).filter (· ≠ [])).map String.ofList

def joinWith (separator : String) (parts : List String) : String :=
  String.intercalate separator parts

/-- `s.replace(old, new)` for single characters. -/
def replaceChar (old new : Char) (s : String) : String :=
  String.ofList (s.toList.map fun c => if c = old then new else c)

/-- The code points texts are compared by. -/
def codes (s : String) : List ℤ := s.toList.map fun c => (c.toNat : ℤ)

/-- Texts with the same code points are the same. -/
theorem codes_inj {s t : String} (h : codes s = codes t) : s = t := by
  have hchars : Function.Injective fun c : Char => (c.toNat : ℤ) :=
    fun a b hab => Char.toNat_inj.mp (Int.ofNat_inj.mp hab)
  exact String.toList_inj.mp (hchars.list_map h)

/-- `sorted` on texts. -/
def sortTexts (texts : List String) : List String :=
  texts.insertionSort fun a b => codes a ≤ codes b

/-- `s or default`. -/
def orElse (s default : String) : String := if s = "" then default else s

/-- `_normalize_domain`: trim blanks, fold case, then drop trailing dots. The dots
go last, so a name that ends in a blank before its dots keeps that blank. -/
def normalizeDomain [CaseTables] (domain : String) : String :=
  rstripDots (CaseTables.lower (strip domain))

/-- `_domain_matches_suffix`. -/
def domainMatchesSuffix [CaseTables] (domain : String) (suffixes : List String) : Bool :=
  let normalized := normalizeDomain domain
  suffixes.any fun suffix =>
    let folded := rstripDots (CaseTables.lower (strip suffix))
    let bare := if startsWith folded "*" then String.ofList (folded.toList.drop 1) else folded
    if bare = "" then false
    else
      let dotted := if startsWith bare "." then bare else "." ++ bare
      normalized = String.ofList (dotted.toList.dropWhile (· == '.')) || endsWith normalized dotted

theorem dropWhile_append_of_head {α : Type*} (p : α → Bool) {x : α} (hx : p x = false)
    (xs ys : List α) : (x::xs ++ ys).dropWhile p = x::xs ++ ys := by
  simp [hx]

/-- What is trimmed when a leading word neither begins nor ends in a blank comes after it. -/
theorem toList_strip_append {lead rest : List Char} (hhead : ∃ c cs, lead = c::cs ∧ isSpace c = false)
    (hlast : ∃ cs c, lead = cs++[c] ∧ isSpace c = false) :
    (strip (String.ofList (lead++rest))).toList = lead++rest.rdropWhile isSpace := by
  obtain ⟨c,cs,hc,hcs⟩ := hhead
  obtain ⟨ds,d,hd,hds⟩ := hlast
  have hdrop : (lead++rest).dropWhile isSpace = lead++rest := by
    rw [hc]
    exact dropWhile_append_of_head isSpace hcs cs rest
  have hkeep : ∀ xs, (ds++[d]++xs).rdropWhile isSpace = ds++[d]++xs.rdropWhile isSpace := by
    intro xs
    induction xs using List.reverseRecOn with
    | nil => simp [hds]
    | append_singleton xs x ih =>
      rw [← List.append_assoc,List.rdropWhile_concat,List.rdropWhile_concat]
      split <;> simp_all
  simp only [strip,String.toList_ofList]
  rw [hdrop,hd,hkeep]

theorem startsWith_strip {s lead : String} (hs : startsWith s lead = true)
    (hhead : ∃ c cs, lead.toList = c::cs ∧ isSpace c = false)
    (hlast : ∃ cs c, lead.toList = cs++[c] ∧ isSpace c = false) :
    startsWith (strip s) lead = true := by
  obtain ⟨rest,hrest⟩ := List.isPrefixOf_iff_prefix.mp hs
  have hstrip : (strip (String.ofList (lead.toList++rest))).toList =
      lead.toList++rest.rdropWhile isSpace := toList_strip_append hhead hlast
  rw [hrest,String.ofList_toList] at hstrip
  exact List.isPrefixOf_iff_prefix.mpr ⟨rest.rdropWhile isSpace,hstrip.symm⟩

/-- A text that neither begins nor ends in a blank is not trimmed. -/
theorem strip_of_ends {s : String} {c d : Char} {l : List Char} (h : s.toList = c::l++[d])
    (hc : isSpace c = false) (hd : isSpace d = false) : strip s = s := by
  have hdrop : s.toList.dropWhile isSpace = s.toList := by
    rw [h,List.cons_append,List.dropWhile_cons_of_neg (by simp [hc])]
  rw [strip,hdrop,h,List.rdropWhile_concat_neg _ _ _ (by simp [hd]),← h,String.ofList_toList]

theorem strip_within (s : String) : (strip s).toList.IsInfix s.toList := by
  simp only [strip,String.toList_ofList]
  exact ( List.rdropWhile_prefix _ _).isInfix.trans (List.dropWhile_suffix _).isInfix

theorem contains_iff {s sub : String} : contains s sub = true ↔ sub.toList <:+: s.toList := by
  rw [contains,List.any_eq_true]
  constructor
  · rintro ⟨rest,hrest,hfront⟩
    exact (List.isPrefixOf_iff_prefix.mp hfront).isInfix.trans ((List.mem_tails _ _).mp hrest).isInfix
  · rintro ⟨before,after,h⟩
    refine ⟨sub.toList++after,(List.mem_tails _ _).mpr ⟨before,?_⟩,?_⟩
    · rw [← h,List.append_assoc]
    · exact List.isPrefixOf_iff_prefix.mpr (List.prefix_append _ _)

theorem toList_ne_nil {s : String} : s.toList ≠ [] ↔ s ≠ "" := by
  rw [Ne,Ne,← String.toList_inj,String.toList_empty]

theorem rstripDots_initial (s : String) : (rstripDots s).toList.IsPrefix s.toList := by
  simp only [rstripDots,String.toList_ofList]
  exact List.rdropWhile_prefix _ _

/-- A rearrangement of names by a map that only shortens leaves every name as it is. -/
theorem eq_of_shortening_perm {names : List String} {f : String → String}
    (hperm : (names.map f).Perm names)
    (hshort : ∀ d ∈ names, (f d).toList.length ≤ d.toList.length) :
    ∀ d ∈ names, (f d).toList.length = d.toList.length := by
  have hsum : (names.map fun d => (f d).toList.length).sum =
      (names.map fun d => d.toList.length).sum := by
    have h := (hperm.map fun d => d.toList.length).sum_eq
    rwa [List.map_map] at h
  intro d hd
  by_contra hne
  have hlt := List.sum_lt_sum (fun d => (f d).toList.length) (fun d => d.toList.length) hshort
    ⟨d,hd,lt_of_le_of_ne (hshort d hd) hne⟩
  omega

end WormholeObservatory
