import Mathlib.Tactic

/-! The texts that `ipaddress.ip_address` takes. -/
namespace IpAddresses

/-- `_parse_octet`: no leading zero, at most three digits. -/
def isOctet (octet : List Char) : Bool :=
  !octet.isEmpty && octet.all Char.isDigit && decide (octet.length ≤ 3) &&
    (octet == ['0'] || octet.head? != some '0') &&
    decide (octet.foldl (fun n c => 10*n+(c.toNat-48)) 0 ≤ 255)

/-- `IPv4Address(s)` raises nothing. -/
def isIPv4 (s : List Char) : Bool :=
  let octets := s.splitOn '.'
  !s.contains '/' && decide (octets.length = 4) && octets.all isOctet

def isHexDigit (c : Char) : Bool :=
  c.isDigit || (97 ≤ c.toNat && c.toNat ≤ 102) || (65 ≤ c.toNat && c.toNat ≤ 70)

/-- `_parse_hextet`. -/
def isHextet (part : List Char) : Bool :=
  !part.isEmpty && part.all isHexDigit && decide (part.length ≤ 4)

/-- The parts once an IPv4 suffix stands as two hextets; their value is of no account here. -/
def withoutSuffix (parts : List (List Char)) : Option (List (List Char)) :=
  let suffix := parts.getLastD []
  if suffix.contains '.' then
    if isIPv4 suffix then some (parts.dropLast++[['0'],['0']]) else none
  else some parts

/-- The parts before `::`, where nothing before it stands for no part. -/
def partsHigh (high : List (List Char)) : Option (List (List Char)) :=
  if high.head? = some [] then if high.length = 1 then some [] else none else some high

/-- The parts after `::`. -/
def partsLow (low : List (List Char)) : Option (List (List Char)) :=
  if low.getLast? = some [] then if low.length = 1 then some [] else none else some low

/-- `_ip_int_from_string` of IPv6 after its suffix: eight hextets, or fewer around one `::`. -/
def isGroups (parts : List (List Char)) : Bool :=
  let inner := (parts.drop 1).dropLast
  if 9 < parts.length then false
  else
    match inner.countP List.isEmpty with
    | 0 => decide (parts.length = 8) && parts.all isHextet
    | 1 =>
      let skip := 1+inner.findIdx List.isEmpty
      match partsHigh (parts.take skip),partsLow (parts.drop (skip+1)) with
      | some high,some low =>
        decide (high.length+low.length < 8) && high.all isHextet && low.all isHextet
      | _,_ => false
    | _ => false

/-- `_split_scope_id` finds a scope it takes, or none. -/
def scopeTaken (s : List Char) : Bool :=
  match s.dropWhile (· ≠ '%') with
  | [] => true
  | _::scope => !scope.isEmpty && !scope.contains '%'

/-- `IPv6Address(s)` raises nothing. -/
def isIPv6 (s : List Char) : Bool :=
  let parts := (s.takeWhile (· ≠ '%')).splitOn ':'
  !s.contains '/' && scopeTaken s && decide (3 ≤ parts.length) &&
    (withoutSuffix parts).any isGroups

/-- `ip_address(s)` raises nothing. -/
def isIpAddress (s : String) : Bool := isIPv4 s.toList || isIPv6 s.toList

/-! What an address begins with. -/

theorem alphanum_iff {c : Char} : c.isAlphanum = true ↔ (65 ≤ c.toNat ∧ c.toNat ≤ 90) ∨
    (97 ≤ c.toNat ∧ c.toNat ≤ 122) ∨ (48 ≤ c.toNat ∧ c.toNat ≤ 57) := by
  delta Char.isAlphanum Char.isAlpha Char.isUpper Char.isLower Char.isDigit
  simp only [Bool.or_eq_true,Bool.and_eq_true,decide_eq_true_eq,UInt32.le_iff_toNat_le,ge_iff_le]
  exact or_assoc

/-- The first part of a split, and what follows it. -/
theorem splitOn_head {x : Char} {l h : List Char} {t : List (List Char)} (hsplit : l.splitOn x = h::t) :
    (t = [] ∧ l = h) ∨ ∃ r, l = h++x::r := by
  induction l generalizing h t with
  | nil =>
    simp only [List.splitOn_nil,List.cons.injEq] at hsplit
    exact Or.inl ⟨hsplit.2.symm,hsplit.1⟩
  | cons c l ih =>
    rw [List.splitOn_cons_eq_if_modifyHead] at hsplit
    split at hsplit
    · rename_i hc
      obtain ⟨rfl,-⟩ := List.cons.inj hsplit
      exact Or.inr ⟨l,by rw [eq_of_beq hc]; rfl⟩
    · obtain ⟨h',t',hrest⟩ := List.exists_cons_of_ne_nil (List.splitOn_ne_nil x l)
      rw [hrest,List.modifyHead_cons] at hsplit
      obtain ⟨rfl,rfl⟩ := List.cons.inj hsplit
      rcases ih hrest with ⟨ht,hl⟩ | ⟨r,hr⟩
      · exact Or.inl ⟨ht,by rw [hl]⟩
      · exact Or.inr ⟨r,by rw [hr]; rfl⟩

/-- A hexadecimal digit or a colon. -/
def leads (c : Char) : Bool := isHexDigit c || c == ':'

theorem leads_of_part {x : Char} {l h : List Char} {t : List (List Char)} (hsplit : l.splitOn x = h::t)
    (hne : h ≠ []) (hall : h.all isHexDigit = true) : l.head?.any leads = true := by
  obtain ⟨c,rest,rfl⟩ := List.exists_cons_of_ne_nil hne
  have hc : isHexDigit c = true := List.all_eq_true.mp hall c List.mem_cons_self
  rcases splitOn_head hsplit with ⟨-,rfl⟩ | ⟨r,rfl⟩
  · simp [leads,hc]
  · simp [leads,hc]

theorem isHextet_leads {x : Char} {l h : List Char} {t : List (List Char)} (hsplit : l.splitOn x = h::t)
    (hh : isHextet h = true) : l.head?.any leads = true := by
  simp only [isHextet,Bool.and_eq_true,Bool.not_eq_true',List.isEmpty_eq_false_iff] at hh
  exact leads_of_part hsplit hh.1.1 hh.1.2

theorem isOctet_leads {x : Char} {l h : List Char} {t : List (List Char)} (hsplit : l.splitOn x = h::t)
    (hh : isOctet h = true) : l.head?.any leads = true := by
  simp only [isOctet,Bool.and_eq_true,Bool.not_eq_true',List.isEmpty_eq_false_iff] at hh
  refine leads_of_part hsplit hh.1.1.1.1 (List.all_eq_true.mpr fun c hc => ?_)
  simp [isHexDigit,List.all_eq_true.mp hh.1.1.1.2 c hc]

/-- The first group is empty, before `::`, or a hextet. -/
theorem isGroups_head {h : List Char} {t : List (List Char)} (hgroups : isGroups (h::t) = true) :
    h = [] ∨ isHextet h = true := by
  by_cases hempty : h = []
  · exact Or.inl hempty
  right
  simp only [isGroups] at hgroups
  split at hgroups
  · cases hgroups
  split at hgroups
  · exact List.all_eq_true.mp (Bool.and_eq_true_iff.mp hgroups).2 h List.mem_cons_self
  · have hhigh : ∀ n, partsHigh ((h::t).take (1+n)) = some (h::t.take n) := by
      intro n
      rw [Nat.add_comm,List.take_succ_cons,partsHigh,if_neg (by simpa using hempty)]
    rw [hhigh] at hgroups
    split at hgroups
    · rename_i hsome _
      obtain rfl := Option.some.inj hsome
      simp only [Bool.and_eq_true] at hgroups
      exact List.all_eq_true.mp hgroups.1.2 h List.mem_cons_self
    · cases hgroups
  · cases hgroups

theorem isIPv6_leads {l : List Char} (h : isIPv6 l = true) : l.head?.any leads = true := by
  simp only [isIPv6,Bool.and_eq_true,decide_eq_true_eq] at h
  obtain ⟨⟨-,hlength⟩,hgroups⟩ := h
  set addr := l.takeWhile (· ≠ '%')
  have haddr : addr.head?.any leads = true := by
    obtain ⟨first,rest,hparts⟩ := List.exists_cons_of_ne_nil (List.splitOn_ne_nil ':' addr)
    rw [hparts] at hlength hgroups
    have hrest : rest ≠ [] := by
      rintro rfl
      simp at hlength
    have hfirst : first = [] ∨ isHextet first = true := by
      rw [withoutSuffix] at hgroups
      split at hgroups
      · split at hgroups
        · rw [List.dropLast_cons_of_ne_nil hrest] at hgroups
          exact isGroups_head hgroups
        · cases hgroups
      · exact isGroups_head hgroups
    rcases hfirst with rfl | hfirst
    · rcases splitOn_head hparts with ⟨hnil,-⟩ | ⟨r,hr⟩
      · exact absurd hnil hrest
      · rw [hr]
        rfl
    · exact isHextet_leads hparts hfirst
  cases hl : l with
  | nil => simp [addr,hl] at haddr
  | cons c l' =>
    by_cases hc : c = '%'
    · simp [addr,hl,hc] at haddr
    · simpa [addr,hl,hc] using haddr

theorem isIpAddress_leads {s : String} (h : isIpAddress s = true) : s.toList.head?.any leads = true := by
  rcases Bool.or_eq_true_iff.mp h with h | h
  · simp only [isIPv4,Bool.and_eq_true] at h
    obtain ⟨first,rest,hparts⟩ := List.exists_cons_of_ne_nil (List.splitOn_ne_nil '.' s.toList)
    rw [hparts] at h
    exact isOctet_leads hparts (List.all_eq_true.mp h.2 first List.mem_cons_self)
  · exact isIPv6_leads h

end IpAddresses
