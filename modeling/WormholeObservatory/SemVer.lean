import Mathlib.Tactic

/-! Semantic versions, their precedence, and when the order of the texts of two pre-releases is the
order of precedence. -/
namespace SemVer

/-- The order of texts by code points. -/
def textCompare : List Char → List Char → Ordering
  | [],[] => .eq
  | [],_::_ => .lt
  | _::_,[] => .gt
  | c::x,d::y => (compare c.toNat d.toNat).then (textCompare x y)

def digits (x : List Char) : Bool := x.all Char.isDigit

def number (x : List Char) : ℕ := x.foldl (fun n c => 10*n+(c.toNat-48)) 0

/-- Digits without a leading zero. -/
structure IsNumeric (x : List Char) : Prop where
  nonempty : x ≠ []
  digits : digits x = true
  canonical : x.head? = some '0' → x = ['0']

def identifierChar (c : Char) : Bool := c.isAlphanum || c == '-'

/-- Letters, digits and hyphens; of digits alone, none leads with a zero. -/
structure IsIdentifier (x : List Char) : Prop where
  nonempty : x ≠ []
  chars : ∀ c ∈ x, identifierChar c = true
  canonical : digits x = true → x.head? = some '0' → x = ['0']

structure Version where
  major : List Char
  minor : List Char
  patch : List Char
  pre : List (List Char)
  build : List (List Char)
  majorNumeric : IsNumeric major
  minorNumeric : IsNumeric minor
  patchNumeric : IsNumeric patch
  preIdentifiers : ∀ x ∈ pre, IsIdentifier x
  buildIdentifiers : ∀ x ∈ build, x ≠ [] ∧ ∀ c ∈ x, identifierChar c = true

/-- Identifiers joined by dots. -/
def dots (ids : List (List Char)) : List Char := ['.'].intercalate ids

namespace Version

def buildText (v : Version) : List Char := if v.build = [] then [] else '+'::dots v.build

def preText (v : Version) : List Char := if v.pre = [] then [] else '-'::dots v.pre

def text (v : Version) : List Char :=
  v.major++ '.'::(v.minor++ '.'::(v.patch++(v.preText++v.buildText)))

end Version

/-! Precedence. -/

/-- Numbers by value and below the rest, which is in the order of its text. -/
def idCompare (x y : List Char) : Ordering :=
  if digits x then if digits y then compare (number x) (number y) else .lt
  else if digits y then .gt else textCompare x y

/-- The first identifiers that differ decide; of a common beginning, the longer list is higher. -/
def idsCompare : List (List Char) → List (List Char) → Ordering
  | [],[] => .eq
  | [],_::_ => .lt
  | _::_,[] => .gt
  | x::xs,y::ys => (idCompare x y).then (idsCompare xs ys)

/-- A pre-release is below its release. -/
def preCompare : List (List Char) → List (List Char) → Ordering
  | [],[] => .eq
  | [],_::_ => .gt
  | _::_,[] => .lt
  | xs,ys => idsCompare xs ys

/-- Build metadata has no part in it. -/
def precedence (v w : Version) : Ordering :=
  (compare (number v.major) (number w.major)).then
    ((compare (number v.minor) (number w.minor)).then
      ((compare (number v.patch) (number w.patch)).then (preCompare v.pre w.pre)))

/-! Texts. -/

theorem textCompare_self (x : List Char) : textCompare x x = .eq := by
  induction x with
  | nil => rfl
  | cons c x ih => simp [textCompare,ih]

theorem textCompare_eq_iff {x y : List Char} : textCompare x y = .eq ↔ x = y := by
  constructor
  · intro h
    induction x generalizing y with
    | nil =>
      cases y with
      | nil => rfl
      | cons d y => cases h
    | cons c x ih =>
      cases y with
      | nil => cases h
      | cons d y =>
        rw [textCompare,Ordering.then_eq_eq,Nat.compare_eq_eq] at h
        rw [Char.toNat_inj.mp h.1,ih h.2]
  · rintro rfl
    exact textCompare_self x

theorem textCompare_swap (x y : List Char) : (textCompare x y).swap = textCompare y x := by
  induction x generalizing y with
  | nil => cases y <;> rfl
  | cons c x ih =>
    cases y with
    | nil => rfl
    | cons d y => rw [textCompare,textCompare,Ordering.swap_then,ih,Nat.compare_swap]

theorem textCompare_append (l x y : List Char) : textCompare (l++x) (l++y) = textCompare x y := by
  induction l with
  | nil => rfl
  | cons c l ih => simp [textCompare,ih]

theorem textCompare_isLE_trans {x y z : List Char} (hxy : (textCompare x y).isLE)
    (hyz : (textCompare y z).isLE) : (textCompare x z).isLE := by
  induction x generalizing y z with
  | nil => cases z <;> rfl
  | cons c x ih =>
    cases y with
    | nil => cases hxy
    | cons d y =>
      cases z with
      | nil => cases hyz
      | cons e z =>
        rw [textCompare,Ordering.isLE_then_iff_and,Nat.isLE_compare] at hxy hyz
        rw [textCompare,Ordering.isLE_then_iff_and,Nat.isLE_compare]
        refine ⟨hxy.1.trans hyz.1,?_⟩
        rcases Nat.lt_or_ge c.toNat e.toNat with hlt | hge
        · exact Or.inl (Nat.compare_eq_lt.mpr hlt)
        · have hcd : compare c.toNat d.toNat ≠ .lt := fun h => by
            have := Nat.compare_eq_lt.mp h
            omega
          have hde : compare d.toNat e.toNat ≠ .lt := fun h => by
            have := Nat.compare_eq_lt.mp h
            omega
          exact Or.inr (ih (hxy.2.resolve_left hcd) (hyz.2.resolve_left hde))

instance : Std.TransCmp textCompare where
  eq_swap := (textCompare_swap _ _).symm
  isLE_trans := textCompare_isLE_trans

/-- Where two texts part. -/
inductive Gap
  | none
  | leftEnds (next : Char)
  | rightEnds (next : Char)
  | differ (left right : Char)

def gap : List Char → List Char → Gap
  | [],[] => .none
  | [],d::_ => .leftEnds d
  | c::_,[] => .rightEnds c
  | c::x,d::y => if c = d then gap x y else .differ c d

theorem eq_of_gap_none {x y : List Char} (h : gap x y = .none) : x = y := by
  induction x generalizing y with
  | nil =>
    cases y with
    | nil => rfl
    | cons d y => cases h
  | cons c x ih =>
    cases y with
    | nil => cases h
    | cons d y =>
      rw [gap] at h
      split at h
      · rename_i hcd
        rw [hcd,ih h]
      · cases h

theorem of_gap_leftEnds {x y : List Char} {d : Char} (h : gap x y = .leftEnds d) :
    ∃ rest, y = x++d::rest := by
  induction x generalizing y with
  | nil =>
    cases y with
    | nil => cases h
    | cons d' y =>
      obtain rfl := Gap.leftEnds.inj h
      exact ⟨y,rfl⟩
  | cons c x ih =>
    cases y with
    | nil => cases h
    | cons d' y =>
      rw [gap] at h
      split at h
      · rename_i hcd
        obtain ⟨rest,rfl⟩ := ih h
        exact ⟨rest,by rw [hcd]; rfl⟩
      · cases h

theorem of_gap_rightEnds {x y : List Char} {c : Char} (h : gap x y = .rightEnds c) :
    ∃ rest, x = y++c::rest := by
  induction x generalizing y with
  | nil => cases y <;> cases h
  | cons c' x ih =>
    cases y with
    | nil =>
      obtain rfl := Gap.rightEnds.inj h
      exact ⟨x,rfl⟩
    | cons d y =>
      rw [gap] at h
      split at h
      · rename_i hcd
        obtain ⟨rest,rfl⟩ := ih h
        exact ⟨rest,by rw [hcd]; rfl⟩
      · cases h

theorem of_gap_differ {x y : List Char} {c d : Char} (h : gap x y = .differ c d) :
    c ≠ d ∧ ∀ s t, textCompare (x++s) (y++t) = compare c.toNat d.toNat := by
  induction x generalizing y with
  | nil => cases y <;> cases h
  | cons c' x ih =>
    cases y with
    | nil => cases h
    | cons d' y =>
      rw [gap] at h
      split at h
      · rename_i hcd
        obtain ⟨hne,hcompare⟩ := ih h
        refine ⟨hne,fun s t => ?_⟩
        simp [textCompare,hcd,hcompare s t]
      · rename_i hcd
        obtain ⟨rfl,rfl⟩ := Gap.differ.inj h
        refine ⟨hcd,fun s t => ?_⟩
        have hnat : compare c'.toNat d'.toNat ≠ .eq := fun heq =>
          hcd (Char.toNat_inj.mp (Nat.compare_eq_eq.mp heq))
        rw [List.cons_append,List.cons_append,textCompare]
        cases hcompare : compare c'.toNat d'.toNat with
        | lt => rfl
        | gt => rfl
        | eq => exact absurd hcompare hnat

/-! Numbers. -/

theorem foldl_digits (n : ℕ) (x : List Char) :
    x.foldl (fun n c => 10*n+(c.toNat-48)) n = n*10^x.length+number x := by
  induction x generalizing n with
  | nil => simp [number]
  | cons c x ih =>
    rw [number,List.foldl_cons,List.foldl_cons,ih,ih,List.length_cons,Nat.pow_succ]
    ring

theorem number_cons (c : Char) (x : List Char) :
    number (c::x) = (c.toNat-48)*10^x.length+number x := by
  rw [number,List.foldl_cons,foldl_digits]
  simp

theorem digit_range {c : Char} (h : c.isDigit = true) : 48 ≤ c.toNat ∧ c.toNat ≤ 57 := by
  simp only [Char.isDigit,Bool.and_eq_true,decide_eq_true_eq,UInt32.le_iff_toNat_le,ge_iff_le] at h
  exact h

theorem number_lt {x : List Char} (h : digits x = true) : number x < 10^x.length := by
  induction x with
  | nil => simp [number]
  | cons c x ih =>
    rw [digits,List.all_cons,Bool.and_eq_true] at h
    have hrest := ih h.2
    have hc := digit_range h.1
    have hdigit : (c.toNat-48)*10^x.length ≤ 9*10^x.length := Nat.mul_le_mul_right _ (by omega)
    rw [number_cons,List.length_cons,Nat.pow_succ]
    omega

theorem le_number {c : Char} {x : List Char} (h : digits (c::x) = true) (hc : c ≠ '0') :
    10^x.length ≤ number (c::x) := by
  rw [digits,List.all_cons,Bool.and_eq_true] at h
  have hrange := digit_range h.1
  have hzero : c.toNat ≠ 48 := fun heq => hc (Char.toNat_inj.mp heq)
  rw [number_cons]
  have hone : 1*10^x.length ≤ (c.toNat-48)*10^x.length := Nat.mul_le_mul_right _ (by omega)
  omega

/-- Of two numbers without leading zeros, the longer one is greater. -/
theorem number_lt_of_length {x y : List Char} (hx : digits x = true) (hy : digits y = true)
    (hcanonical : y.head? = some '0' → y = ['0']) (hxne : x ≠ []) (h : x.length < y.length) :
    number x < number y := by
  cases y with
  | nil => simp at h
  | cons d y =>
    have hd : d ≠ '0' := by
      rintro rfl
      have hone := hcanonical rfl
      rw [hone,List.length_singleton] at h
      exact hxne (List.length_eq_zero_iff.mp (by omega))
    have hpow : 10^x.length ≤ 10^y.length := Nat.pow_le_pow_right (by omega) (by simpa using h)
    have hless := number_lt hx
    have hmore := le_number hy hd
    omega

/-- Of two numbers of one length, the texts are in the order of the numbers. -/
theorem textCompare_eq_number {x y : List Char} (hx : digits x = true) (hy : digits y = true)
    (h : x.length = y.length) : textCompare x y = compare (number x) (number y) := by
  induction x generalizing y with
  | nil =>
    obtain rfl := List.length_eq_zero_iff.mp h.symm
    rfl
  | cons c x ih =>
    cases y with
    | nil => cases h
    | cons d y =>
      rw [digits,List.all_cons,Bool.and_eq_true] at hx hy
      have hlength : x.length = y.length := by simpa using h
      have hc := digit_range hx.1
      have hd := digit_range hy.1
      have hxless := number_lt hx.2
      have hyless := number_lt hy.2
      rw [textCompare,ih hx.2 hy.2 hlength,number_cons,number_cons,hlength]
      rw [hlength] at hxless
      rcases Nat.lt_trichotomy c.toNat d.toNat with hlt | heq | hgt
      · have hstep : (c.toNat-48+1)*10^y.length ≤ (d.toNat-48)*10^y.length :=
          Nat.mul_le_mul_right _ (by omega)
        rw [Nat.add_mul] at hstep
        have hnumbers : (c.toNat-48)*10^y.length+number x < (d.toNat-48)*10^y.length+number y := by omega
        rw [Nat.compare_eq_lt.mpr hlt,Nat.compare_eq_lt.mpr hnumbers]
        rfl
      · rw [heq,Nat.compare_eq_eq.mpr rfl,Ordering.eq_then]
        rcases Nat.lt_trichotomy (number x) (number y) with h | h | h
        · rw [Nat.compare_eq_lt.mpr h,Nat.compare_eq_lt.mpr (Nat.add_lt_add_left h _)]
        · rw [h,Nat.compare_eq_eq.mpr rfl,Nat.compare_eq_eq.mpr rfl]
        · rw [Nat.compare_eq_gt.mpr h,Nat.compare_eq_gt.mpr (Nat.add_lt_add_left h _)]
      · have hstep : (d.toNat-48+1)*10^y.length ≤ (c.toNat-48)*10^y.length :=
          Nat.mul_le_mul_right _ (by omega)
        rw [Nat.add_mul] at hstep
        have hnumbers : (d.toNat-48)*10^y.length+number y < (c.toNat-48)*10^y.length+number x := by omega
        rw [Nat.compare_eq_gt.mpr hgt,Nat.compare_eq_gt.mpr hnumbers]
        rfl

/-! Identifiers. -/

theorem idCompare_self (x : List Char) : idCompare x x = .eq := by
  rw [idCompare]
  split
  · exact Nat.compare_eq_eq.mpr rfl
  · exact textCompare_self x

theorem idCompare_swap (x y : List Char) : (idCompare x y).swap = idCompare y x := by
  rw [idCompare,idCompare]
  by_cases hx : digits x = true <;> by_cases hy : digits y = true
  · simp [hx,hy,Nat.compare_swap]
  · simp [hx,hy]
  · simp [hx,hy]
  · simp [hx,hy,textCompare_swap]

theorem alphanum_iff {c : Char} : c.isAlphanum = true ↔ (65 ≤ c.toNat ∧ c.toNat ≤ 90) ∨
    (97 ≤ c.toNat ∧ c.toNat ≤ 122) ∨ (48 ≤ c.toNat ∧ c.toNat ≤ 57) := by
  delta Char.isAlphanum Char.isAlpha Char.isUpper Char.isLower Char.isDigit
  simp only [Bool.or_eq_true,Bool.and_eq_true,decide_eq_true_eq,UInt32.le_iff_toNat_le,ge_iff_le]
  exact or_assoc

theorem identifierChar_range {c : Char} (h : identifierChar c = true) : c = '-' ∨ 48 ≤ c.toNat := by
  simp only [identifierChar,Bool.or_eq_true,beq_iff_eq] at h
  rcases h with h | rfl
  · right
    rw [alphanum_iff] at h
    omega
  · exact Or.inl rfl

/-- What follows an identifier: nothing, the next identifier or the build metadata. -/
inductive Tail : List Char → Prop
  | nil : Tail []
  | dot (s : List Char) : Tail ('.'::s)
  | plus (s : List Char) : Tail ('+'::s)

/-- The order of the texts of two identifiers is their precedence. Where one ends first, the
other goes on with a hyphen only if no dot follows the one that ends; where a number differs from
another identifier, its character is the lesser one there, or of two numbers the longer one has the
greater digit. -/
def TextAgrees (x : List Char) (moreX : Prop) (y : List Char) (moreY : Prop) : Prop :=
  match gap x y with
  | .none => True
  | .leftEnds next => moreX → next ≠ '-'
  | .rightEnds next => moreY → next ≠ '-'
  | .differ c d =>
    if digits x then
      if digits y then x.length = y.length ∨ (x.length < y.length ↔ c.toNat < d.toNat)
      else c.toNat < d.toNat
    else if digits y then d.toNat < c.toNat else True

theorem digits_of_append {x y : List Char} (h : digits (x++y) = true) : digits x = true := by
  rw [digits,List.all_append,Bool.and_eq_true] at h
  exact h.1

/-- A longer identifier with the same beginning is higher. -/
theorem idCompare_append {x rest : List Char} {d : Char} (hx : IsIdentifier x)
    (hy : IsIdentifier (x++d::rest)) : idCompare x (x++d::rest) = .lt := by
  rw [idCompare]
  by_cases hdx : digits x = true
  · by_cases hdy : digits (x++d::rest) = true
    · rw [if_pos hdx,if_pos hdy]
      refine Nat.compare_eq_lt.mpr (number_lt_of_length hdx hdy (hy.canonical hdy) hx.nonempty ?_)
      simp
    · rw [if_pos hdx,if_neg hdy]
  · have hdy : ¬digits (x++d::rest) = true := fun h => hdx (digits_of_append h)
    rw [if_neg hdx,if_neg hdy]
    have hnil := textCompare_append x [] (d::rest)
    rwa [List.append_nil] at hnil

theorem tail_lt_iff {s t : List Char} {d : Char} (hs : Tail s) (hd : identifierChar d = true) :
    textCompare s (d::t) = .lt ↔ ((∃ r, s = '.'::r) → d ≠ '-') := by
  have hrange := identifierChar_range hd
  cases hs with
  | nil => exact iff_of_true rfl fun ⟨r,hr⟩ => by cases hr
  | dot s =>
    rw [textCompare]
    constructor
    · rintro h - rfl
      cases h
    · intro h
      have hlow : ('.' : Char).toNat < d.toNat := by
        have hne := hrange.resolve_left (h ⟨s,rfl⟩)
        show 46 < d.toNat
        omega
      rw [Nat.compare_eq_lt.mpr hlow]
      rfl
  | plus s =>
    refine iff_of_true ?_ fun ⟨r,hr⟩ => by cases hr
    have hlow : ('+' : Char).toNat < d.toNat := by
      rcases hrange with rfl | hrange
      · decide
      · show 43 < d.toNat
        omega
    rw [textCompare,Nat.compare_eq_lt.mpr hlow]
    rfl

theorem textAgrees_iff {x y s t : List Char} (hx : IsIdentifier x) (hy : IsIdentifier y) (hne : x ≠ y)
    (hs : Tail s) (ht : Tail t) :
    textCompare (x++s) (y++t) = idCompare x y ↔
      TextAgrees x (∃ r, s = '.'::r) y (∃ r, t = '.'::r) := by
  rw [TextAgrees]
  cases hgap : gap x y with
  | none => exact absurd (eq_of_gap_none hgap) hne
  | leftEnds d =>
    obtain ⟨rest,rfl⟩ := of_gap_leftEnds hgap
    rw [List.append_assoc,textCompare_append,idCompare_append hx hy]
    exact tail_lt_iff hs (hy.chars d (by simp))
  | rightEnds c =>
    obtain ⟨rest,rfl⟩ := of_gap_rightEnds hgap
    rw [List.append_assoc,textCompare_append,← textCompare_swap,← idCompare_swap,
      idCompare_append hy hx,Ordering.swap_inj]
    exact tail_lt_iff ht (hx.chars c (by simp))
  | differ c d =>
    obtain ⟨hcd,hcompare⟩ := of_gap_differ hgap
    have hnat : c.toNat ≠ d.toNat := fun h => hcd (Char.toNat_inj.mp h)
    have hlt : compare c.toNat d.toNat = .lt ↔ c.toNat < d.toNat := Nat.compare_eq_lt
    have hgt : compare c.toNat d.toNat = .gt ↔ d.toNat < c.toNat := Nat.compare_eq_gt
    rw [hcompare,idCompare]
    by_cases hdx : digits x = true <;> by_cases hdy : digits y = true
    · simp only [hdx,hdy,if_true]
      rcases Nat.lt_trichotomy x.length y.length with hlength | hlength | hlength
      · have hless := number_lt_of_length hdx hdy (hy.canonical hdy) hx.nonempty hlength
        rw [Nat.compare_eq_lt.mpr hless,hlt]
        constructor
        · exact fun h => Or.inr (iff_of_true hlength h)
        · rintro (h | h)
          · omega
          · exact h.mp hlength
      · have hsame := hcompare [] []
        rw [List.append_nil,List.append_nil,textCompare_eq_number hdx hdy hlength] at hsame
        exact iff_of_true hsame.symm (Or.inl hlength)
      · have hless := number_lt_of_length hdy hdx (hx.canonical hdx) hy.nonempty hlength
        rw [Nat.compare_eq_gt.mpr hless,hgt]
        constructor
        · exact fun h => Or.inr (iff_of_false (by omega) (by omega))
        · rintro (h | h)
          · omega
          · omega
    · simp only [hdx,hdy,if_true]
      exact hlt
    · simp only [hdx,hdy,if_true]
      exact hgt
    · have hsame := hcompare [] []
      rw [List.append_nil,List.append_nil] at hsame
      simp only [hdx,hdy]
      exact iff_of_true hsame.symm trivial

/-! Pre-releases. -/

/-- What follows the first identifiers of a list. -/
def dotsTail (xs : List (List Char)) (t : List Char) : List Char :=
  if xs = [] then t else '.'::(dots xs++t)

theorem dots_cons (x : List Char) (xs : List (List Char)) (t : List Char) :
    dots (x::xs)++t = x++dotsTail xs t := by
  cases xs with
  | nil => simp [dots,dotsTail]
  | cons y ys => simp [dots,dotsTail]

/-- Build metadata, or nothing. -/
inductive BuildTail : List Char → Prop
  | nil : BuildTail []
  | plus (s : List Char) : BuildTail ('+'::s)

theorem BuildTail.tail {t : List Char} (h : BuildTail t) (xs : List (List Char)) :
    Tail (dotsTail xs t) := by
  rw [dotsTail]
  split
  · cases h with
    | nil => exact .nil
    | plus s => exact .plus s
  · exact .dot _

theorem BuildTail.dot_iff {t : List Char} (h : BuildTail t) (xs : List (List Char)) :
    (∃ r, dotsTail xs t = '.'::r) ↔ xs ≠ [] := by
  rw [dotsTail]
  split
  · rename_i hnil
    refine iff_of_false (fun ⟨r,hr⟩ => ?_) (fun hne => hne hnil)
    cases h <;> cases hr
  · rename_i hne
    exact iff_of_true ⟨_,rfl⟩ hne

/-- The order of two texts of pre-releases is that of precedence, where what follows them is the
same or not. -/
def PreAgrees (same : Prop) : List (List Char) → List (List Char) → Prop
  | [],[] => same
  | [],_::_ => True
  | _::_,[] => True
  | x::xs,y::ys => if x = y then PreAgrees same xs ys else TextAgrees x (xs ≠ []) y (ys ≠ [])

theorem TextAgrees.congr {x y : List Char} {p p' q q' : Prop} (hp : p ↔ p') (hq : q ↔ q') :
    TextAgrees x p y q ↔ TextAgrees x p' y q' := by
  rw [propext hp,propext hq]

theorem idCompare_eq_iff {x y : List Char} (hx : IsIdentifier x) (hy : IsIdentifier y) :
    idCompare x y = .eq ↔ x = y := by
  constructor
  · intro h
    rw [idCompare] at h
    split at h
    · rename_i hdx
      split at h
      · rename_i hdy
        have hnumbers := Nat.compare_eq_eq.mp h
        have hlength : x.length = y.length := by
          rcases Nat.lt_trichotomy x.length y.length with hlt | heq | hgt
          · have := number_lt_of_length hdx hdy (hy.canonical hdy) hx.nonempty hlt
            omega
          · exact heq
          · have := number_lt_of_length hdy hdx (hx.canonical hdx) hy.nonempty hgt
            omega
        exact textCompare_eq_iff.mp ((textCompare_eq_number hdx hdy hlength).trans h)
      · cases h
    · split at h
      · cases h
      · exact textCompare_eq_iff.mp h
  · rintro rfl
    exact idCompare_self x

theorem preAgrees_iff {xs ys : List (List Char)} (hxs : ∀ x ∈ xs, IsIdentifier x)
    (hys : ∀ y ∈ ys, IsIdentifier y) (hx : xs ≠ []) (hy : ys ≠ []) {s t : List Char} (hs : BuildTail s)
    (ht : BuildTail t) :
    textCompare (dots xs++s) (dots ys++t) = idsCompare xs ys ↔ PreAgrees (s = t) xs ys := by
  induction xs generalizing ys with
  | nil => exact absurd rfl hx
  | cons x xs ih =>
    cases ys with
    | nil => exact absurd rfl hy
    | cons y ys =>
      obtain ⟨hxid,hxrest⟩ := List.forall_mem_cons.mp hxs
      obtain ⟨hyid,hyrest⟩ := List.forall_mem_cons.mp hys
      rw [dots_cons,dots_cons,PreAgrees,idsCompare]
      by_cases hxy : x = y
      · subst hxy
        rw [if_pos rfl,textCompare_append,idCompare_self,Ordering.eq_then]
        cases xs with
        | nil =>
          cases ys with
          | nil => exact textCompare_eq_iff
          | cons y ys =>
            refine iff_of_true ?_ trivial
            cases hs <;> rfl
        | cons x' xs =>
          cases ys with
          | nil =>
            refine iff_of_true ?_ trivial
            cases ht <;> rfl
          | cons y ys =>
            have hrest := ih hxrest hyrest (List.cons_ne_nil _ _) (List.cons_ne_nil _ _)
            rw [← hrest]
            simp [dotsTail,textCompare]
      · have hid : idCompare x y ≠ .eq := fun h => hxy ((idCompare_eq_iff hxid hyid).mp h)
        have hfirst : (idCompare x y).then (idsCompare xs ys) = idCompare x y := by
          cases h : idCompare x y with
          | lt => rfl
          | gt => rfl
          | eq => exact absurd h hid
        rw [if_neg hxy,hfirst,textAgrees_iff hxid hyid hxy (hs.tail xs) (ht.tail ys)]
        exact TextAgrees.congr (hs.dot_iff xs) (ht.dot_iff ys)

end SemVer
