import Mathlib.Data.Rat.Floor
import Mathlib.Tactic

/-! Floats as Python compares them. A finite one is a rational; it is rounded only where an integer
becomes a float. No comparison with a value that is not a number holds. -/
namespace Floats

inductive PyFloat
  | finite (q : ℚ)
  | posInf
  | negInf
  | nan
  deriving DecidableEq

namespace PyFloat

/-- `x < y`. -/
def lt : PyFloat → PyFloat → Bool
  | .finite a,.finite b => decide (a < b)
  | .negInf,.finite _ => true
  | .negInf,.posInf => true
  | .finite _,.posInf => true
  | _,_ => false

/-- `x == y`. -/
def eq : PyFloat → PyFloat → Bool
  | .nan,_ => false
  | x,y => decide (x = y)

/-- `x <= y`. -/
def le (x y : PyFloat) : Bool := lt x y || eq x y

/-- `max(x, y)`: the first unless the second is greater. -/
def max (x y : PyFloat) : PyFloat := if lt x y then y else x

/-- `min(x, y)`. -/
def min (x y : PyFloat) : PyFloat := if lt y x then y else x

/-- `min(hi, max(lo, x))`, which is finite for every value. -/
def clamp (lo hi : ℚ) : PyFloat → ℚ
  | .finite q => Min.min hi (Max.max lo q)
  | .posInf => hi
  | _ => Min.min hi lo

@[simp] theorem lt_finite (a b : ℚ) : lt (.finite a) (.finite b) = decide (a < b) := rfl

@[simp] theorem le_finite (a b : ℚ) : le (.finite a) (.finite b) = decide (a ≤ b) := by
  rw [le,lt_finite,eq,← Bool.decide_or]
  · congr 1
    rw [PyFloat.finite.injEq,le_iff_lt_or_eq]
  · exact fun h => PyFloat.noConfusion h

theorem eq_self {x : PyFloat} (h : x ≠ .nan) : eq x x = true := by
  cases x <;> simp_all [eq]

theorem eq_iff {x y : PyFloat} (h : x ≠ .nan) : eq x y = true ↔ x = y := by
  cases x <;> simp_all [eq]

theorem le_ne_nan {x y : PyFloat} (h : le x y = true) : x ≠ .nan ∧ y ≠ .nan := by
  cases x <;> cases y <;> simp_all [le,lt,eq]

theorem le_total {x y : PyFloat} (hx : x ≠ .nan) (hy : y ≠ .nan) : lt y x = false → le x y = true := by
  intro h
  cases x <;> cases y <;> simp_all [lt,le,eq]
  exact lt_or_eq_of_le h

theorem min_le_right {x y : PyFloat} (hx : x ≠ .nan) (hy : y ≠ .nan) : le (min x y) y = true := by
  rw [min]
  split
  · rw [le,eq_self hy,Bool.or_true]
  · rename_i h
    exact le_total hx hy (Bool.eq_false_iff.mpr h)

/-- A value that is not below the first bound stays. -/
theorem max_of_le {x y : PyFloat} (h : le x y = true) : max x y = y := by
  rw [max]
  split
  · rfl
  · rename_i hlt
    rw [le,Bool.or_eq_true,or_iff_right hlt] at h
    exact (eq_iff (le_ne_nan (by rw [le,h,Bool.or_true])).1).mp h

theorem max_finite (a b : ℚ) : max (.finite a) (.finite b) = .finite (Max.max a b) := by
  rw [max_def_lt,max,lt_finite]
  split_ifs <;> simp_all

theorem min_finite (a b : ℚ) : min (.finite a) (.finite b) = .finite (Min.min a b) := by
  rw [min_comm,min_def_lt,min,lt_finite]
  split_ifs <;> simp_all

theorem min_max_eq_clamp (lo hi : ℚ) (x : PyFloat) :
    min (.finite hi) (max (.finite lo) x) = .finite (clamp lo hi x) := by
  cases x with
  | finite q => rw [max_finite,min_finite,clamp]
  | posInf => rfl
  | negInf => exact min_finite hi lo
  | nan => exact min_finite hi lo

theorem lo_le_clamp {lo hi : ℚ} (h : lo ≤ hi) (x : PyFloat) : lo ≤ clamp lo hi x := by
  cases x with
  | finite q => exact le_min h (le_max_left lo q)
  | posInf => exact h
  | negInf => exact le_min h le_rfl
  | nan => exact le_min h le_rfl

/-- The bound of the greater of two values, where the first is a number. -/
theorem clamp_max {lo hi : ℚ} (h : lo ≤ hi) {x : PyFloat} (hx : x ≠ .nan) (y : PyFloat) :
    clamp lo hi (max x y) = Max.max (clamp lo hi x) (clamp lo hi y) := by
  have hlow := lo_le_clamp h
  cases x with
  | nan => exact absurd rfl hx
  | posInf =>
    have hmax : max .posInf y = .posInf := by cases y <;> rfl
    have hhigh : clamp lo hi y ≤ hi := by
      cases y <;> simp [clamp]
    rw [hmax]
    exact (max_eq_left hhigh).symm
  | negInf =>
    have hmin : clamp lo hi .negInf = lo := min_eq_right h
    rw [hmin,max_eq_right (hlow y)]
    cases y with
    | nan => rfl
    | negInf => rfl
    | posInf => rfl
    | finite q => rfl
  | finite a =>
    cases y with
    | finite b =>
      have hmax : Max.max lo (Max.max a b) = Max.max (Max.max lo a) (Max.max lo b) := sup_sup_distrib_left lo a b
      rw [max_finite,clamp,clamp,clamp,hmax,min_max_distrib_left]
    | posInf =>
      show hi = _
      exact (max_eq_right (min_le_left _ _)).symm
    | negInf =>
      have hmin : clamp lo hi .negInf = lo := min_eq_right h
      rw [hmin]
      exact (max_eq_left (hlow _)).symm
    | nan =>
      have hmin : clamp lo hi .nan = lo := min_eq_right h
      rw [hmin]
      exact (max_eq_left (hlow _)).symm

/-- The greatest of some bounded values, or the lower bound. -/
def greatest (lo hi : ℚ) (xs : List PyFloat) : ℚ := xs.foldr (fun x q => Max.max (clamp lo hi x) q) lo

theorem greatest_le_iff {lo hi q : ℚ} {xs : List PyFloat} :
    greatest lo hi xs ≤ q ↔ lo ≤ q ∧ ∀ x ∈ xs, clamp lo hi x ≤ q := by
  induction xs with
  | nil => simp [greatest]
  | cons x xs ih =>
    rw [List.forall_mem_cons,and_left_comm,← ih]
    exact max_le_iff

theorem lo_le_greatest (lo hi : ℚ) (xs : List PyFloat) : lo ≤ greatest lo hi xs :=
  (greatest_le_iff.mp le_rfl).1

theorem clamp_le_greatest {lo hi : ℚ} {x : PyFloat} {xs : List PyFloat} (h : x ∈ xs) :
    clamp lo hi x ≤ greatest lo hi xs :=
  (greatest_le_iff.mp le_rfl).2 x h

/-- One of the values is the greatest where it is above the lower bound. -/
theorem exists_of_lo_lt_greatest {lo hi : ℚ} {xs : List PyFloat} (h : lo < greatest lo hi xs) :
    ∃ x ∈ xs, clamp lo hi x = greatest lo hi xs := by
  induction xs with
  | nil => exact absurd h (lt_irrefl lo)
  | cons x xs ih =>
    rcases LinearOrder.le_total (greatest lo hi xs) (clamp lo hi x) with hle | hle
    · exact ⟨x,List.mem_cons_self,(max_eq_left hle).symm⟩
    · have hsame : greatest lo hi (x::xs) = greatest lo hi xs := max_eq_right hle
      rw [hsame] at h ⊢
      obtain ⟨y,hy,hclamp⟩ := ih h
      exact ⟨y,List.mem_cons_of_mem _ hy,hclamp⟩

theorem max_ne_nan {x y : PyFloat} (hx : x ≠ .nan) : max x y ≠ .nan := by
  rw [max]
  split
  · rename_i h
    rintro rfl
    cases x <;> cases h
  · exact hx

/-- `max` over several values is bounded by the greatest of their bounds, where the first is a
number. -/
theorem clamp_foldl_max {lo hi : ℚ} (h : lo ≤ hi) {x : PyFloat} (hx : x ≠ .nan) (xs : List PyFloat) :
    clamp lo hi (xs.foldl max x) = Max.max (clamp lo hi x) (greatest lo hi xs) := by
  induction xs generalizing x with
  | nil => exact (max_eq_left (lo_le_clamp h x)).symm
  | cons y ys ih =>
    rw [List.foldl_cons,ih (max_ne_nan hx),clamp_max h hx,max_assoc]
    rfl

theorem le_of_le_of_lt {a x y : PyFloat} (h : le a x = true) (hlt : lt x y = true) : le a y = true := by
  obtain ⟨ha,hx⟩ := le_ne_nan h
  cases a <;> cases x <;> cases y <;> simp_all [lt,le,eq]
  rename_i a x y
  rcases h with h | h
  · exact Or.inl (h.trans hlt)
  · exact Or.inl (h ▸ hlt)

theorem le_foldl_max {a x : PyFloat} (h : le a x = true) (xs : List PyFloat) :
    le a (xs.foldl max x) = true := by
  induction xs generalizing x with
  | nil => exact h
  | cons y ys ih =>
    refine ih ?_
    rw [max]
    split
    · rename_i hlt
      exact le_of_le_of_lt h hlt
    · exact h

theorem foldl_max_nan (xs : List PyFloat) : xs.foldl max .nan = .nan := by
  induction xs with
  | nil => rfl
  | cons x xs ih => exact ih

theorem clamp_of_mem {lo hi q : ℚ} (hlo : lo ≤ q) (hhi : q ≤ hi) : clamp lo hi (.finite q) = q := by
  rw [clamp,max_eq_right hlo,min_eq_right hhi]

end PyFloat

/-! Conversions. -/

/-- The nearest multiple of a unit; of two as near the even one. -/
def roundEven (n unit : ℕ) : ℕ :=
  if unit < 2*(n%unit) ∨ unit = 2*(n%unit) ∧ n/unit%2 = 1 then (n/unit+1)*unit else n/unit*unit

/-- An integer with 53 significant binary digits. -/
def significant (n : ℤ) : ℤ := n.sign*roundEven n.natAbs (2^(n.natAbs.log2-52))

/-- `float(n)`, unless that overflows. -/
def ofInt (n : ℤ) : Option PyFloat :=
  if (significant n).natAbs.log2 < 1024 then some (.finite (significant n)) else none

theorem ofInt_eq_some {n : ℤ} {x : PyFloat} (h : ofInt n = some x) : x = .finite (significant n) := by
  rw [ofInt] at h
  split at h
  · exact (Option.some.inj h).symm
  · cases h

theorem log2_lt_of_lt {m k : ℕ} (hk : 0 < k) (h : m < 2^k) : m.log2 < k := by
  by_cases hzero : m = 0
  · rwa [hzero]
  · exact (Nat.log2_lt hzero).mpr h

theorem significant_small {n : ℤ} (h : n.natAbs < 2^53) : significant n = n := by
  have hlog := log2_lt_of_lt (by norm_num) h
  have hunit : n.natAbs.log2-52 = 0 := by omega
  rw [significant,hunit,pow_zero,roundEven]
  simp only [Nat.mod_one,Nat.div_one,mul_one]
  rw [if_neg (by omega)]
  exact Int.sign_mul_natAbs n

/-- An integer that a float can hold is exact. -/
theorem ofInt_small {n : ℤ} (h : n.natAbs < 2^53) : ofInt n = some (.finite n) := by
  have hlog := log2_lt_of_lt (by norm_num) h
  rw [ofInt,significant_small h,if_pos (by omega)]

theorem le_roundEven {n unit : ℕ} (h : unit ≤ n) (hpos : 0 < unit) : unit ≤ roundEven n unit := by
  have hdiv : 1 ≤ n/unit := (Nat.one_le_div_iff hpos).mpr h
  rw [roundEven]
  split
  · exact Nat.le_mul_of_pos_left unit (Nat.succ_pos _)
  · exact Nat.le_mul_of_pos_left unit hdiv

/-- Rounding brings no other integer into the unit interval. -/
theorem significant_unit {n : ℤ} (hlo : 0 ≤ significant n) (hhi : significant n ≤ 1) :
    significant n = n := by
  by_cases h : n.natAbs < 2^53
  · exact significant_small h
  · have hne : n.natAbs ≠ 0 := by omega
    have hlog : 53 ≤ n.natAbs.log2 := (Nat.le_log2 hne).mpr (not_lt.mp h)
    have hunit : 2 ≤ 2^(n.natAbs.log2-52) := by
      calc 2 = 2^1 := rfl
        _ ≤ 2^(n.natAbs.log2-52) := Nat.pow_le_pow_right (by omega) (by omega)
    have hself : 2^(n.natAbs.log2-52) ≤ n.natAbs :=
      (Nat.pow_le_pow_right (by omega) (Nat.sub_le _ _)).trans (Nat.log2_self_le hne)
    have hround := hunit.trans (le_roundEven hself (by omega))
    rw [significant] at hlo hhi
    rcases lt_trichotomy n 0 with hneg | hzero | hpos
    · rw [Int.sign_eq_neg_one_of_neg hneg] at hlo
      omega
    · omega
    · rw [Int.sign_eq_one_of_pos hpos] at hhi
      omega

/-! Rounding. -/

/-- The exponent of the highest binary digit. -/
def binaryExponent (q : ℚ) : ℤ :=
  let e : ℤ := q.num.natAbs.log2-q.den.log2
  if (2 : ℚ)^e ≤ |q| then e else e-1

/-- The float nearest to a number that is not too large for one, of two as near the even one. -/
def nearest (q : ℚ) : ℚ :=
  if q = 0 then 0
  else
    let unit : ℚ := 2^max (binaryExponent q-52) (-1074)
    let steps := |q|/unit
    let whole : ℚ := (roundEven steps.num.natAbs steps.den/steps.den : ℕ)
    if q < 0 then -(whole*unit) else whole*unit

end Floats
