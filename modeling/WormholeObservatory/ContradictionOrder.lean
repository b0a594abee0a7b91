import WormholeObservatory.Contradictions

/-! Contradictions in another order of the findings. Of the pairs of findings of two sources the
first one is reported, whatever its confidence. -/
namespace WormholeObservatory
namespace Quality

open Floats

/-! Pairs. -/

theorem mem_pairs {α : Type} {xs : List α} {x y : α} (h : (x,y) ∈ pairs xs) : x ∈ xs ∧ y ∈ xs := by
  induction xs with
  | nil => cases h
  | cons a xs ih =>
    rw [pairs,List.mem_append,List.mem_map] at h
    rcases h with ⟨b,hb,heq⟩ | h
    · obtain ⟨rfl,rfl⟩ := Prod.mk.inj heq
      exact ⟨List.mem_cons_self,List.mem_cons_of_mem _ hb⟩
    · exact ⟨List.mem_cons_of_mem _ (ih h).1,List.mem_cons_of_mem _ (ih h).2⟩

/-- Two members are paired one way or the other. -/
theorem mem_pairs_or {α : Type} {xs : List α} {x y : α} (hx : x ∈ xs) (hy : y ∈ xs) (hne : x ≠ y) :
    (x,y) ∈ pairs xs ∨ (y,x) ∈ pairs xs := by
  induction xs with
  | nil => cases hx
  | cons a xs ih =>
    rw [pairs,List.mem_append,List.mem_append]
    rcases List.mem_cons.mp hx with rfl | hxs <;> rcases List.mem_cons.mp hy with rfl | hys
    · exact absurd rfl hne
    · exact Or.inl (Or.inl (List.mem_map_of_mem hys))
    · exact Or.inr (Or.inl (List.mem_map_of_mem hxs))
    · exact (ih hxs hys).imp Or.inr Or.inr

theorem sortedPair_eq_iff {a b c d : String} : sortedPair a b = sortedPair c d ↔ s(a,b) = s(c,d) := by
  have hsym : ∀ a b : String, s((sortedPair a b).1,(sortedPair a b).2) = s(a,b) := by
    intro a b
    rw [sortedPair]
    split
    · exact Sym2.eq_swap
    · rfl
  have hswap : ∀ a b : String, sortedPair a b = sortedPair b a := by
    intro a b
    rw [sortedPair,sortedPair]
    rcases lt_trichotomy (codes a) (codes b) with h | h | h
    · rw [if_neg (lt_asymm h),if_pos h]
    · rw [codes_inj h]
    · rw [if_pos h,if_neg (lt_asymm h)]
  constructor
  · intro h
    rw [← hsym a b,h,hsym]
  · intro h
    rcases Sym2.eq_iff.mp h with ⟨rfl,rfl⟩ | ⟨rfl,rfl⟩
    · rfl
    · exact hswap _ _

/-- What follows the last null is known, and what comes before it. -/
theorem append_null_inj {a b c d : List Char} (hb : '\x00' ∉ b) (hd : '\x00' ∉ d)
    (h : a++ '\x00'::b = c++ '\x00'::d) : a = c ∧ b = d := by
  have hspan : ∀ l tail : List Char, '\x00' ∉ tail →
      ((l++ '\x00'::tail).reverse.takeWhile fun c => c ≠ '\x00') = tail.reverse ∧
        ((l++ '\x00'::tail).reverse.dropWhile fun c => c ≠ '\x00') = '\x00'::l.reverse := by
    intro l tail htail
    have hreverse : (l++ '\x00'::tail).reverse = tail.reverse++ '\x00'::l.reverse := by simp
    have hfree : ∀ c ∈ tail.reverse, decide (c ≠ '\x00') = true := by
      intro c hc
      refine decide_eq_true ?_
      rintro rfl
      exact htail (List.mem_reverse.mp hc)
    rw [hreverse]
    exact span_append hfree rfl
  obtain ⟨htake,hdrop⟩ := hspan a b hb
  obtain ⟨htake',hdrop'⟩ := hspan c d hd
  rw [h] at htake hdrop
  rw [htake'] at htake
  rw [hdrop'] at hdrop
  exact ⟨List.reverse_inj.mp (List.cons.inj hdrop).2.symm,List.reverse_inj.mp htake.symm⟩

section Order

variable [CaseTables]

/-- What a contradiction is read as: its dimension, its two sources in no order, its confidence and
its severity. -/
abbrev Reading := Dimension × Sym2 (String × String) × ℚ × Severity

def reading (c : EvidenceContradiction) : Reading :=
  (c.dimension,s((CaseTables.casefold c.leftProvider,c.leftVerdict),
    (CaseTables.casefold c.rightProvider,c.rightVerdict)),c.confidence,c.severity)

/-- Whose finding it is, and what it says. -/
def source (c : Candidate) : String × String :=
  (CaseTables.casefold (providerOf c.finding),verdictOf c.finding)

/-- Two findings that oppose each other. -/
def Contradict (findings : List Finding) (l r : Candidate) : Prop :=
  l ∈ findings.filterMap candidate ∧ r ∈ findings.filterMap candidate ∧ opposed l r = true

def SameSources (l r l' r' : Candidate) : Prop :=
  l.stance.dimension = l'.stance.dimension ∧ s(source l,source r) = s(source l',source r')

/-- The right readings: for the sources of every two findings that oppose each other, the highest
confidence of such findings of theirs. -/
def expected (now : ℤ) (findings : List Finding) : Set Reading :=
  {x | ∃ l r, Contradict findings l r ∧
    x = (l.stance.dimension,s(source l,source r),pairConfidence now l r,
      contradictionSeverity (pairConfidence now l r)) ∧
    ∀ l' r', Contradict findings l' r' → SameSources l' r' l r →
      pairConfidence now l' r' ≤ pairConfidence now l r}

/-- There is one right reading for the sources of every two findings that oppose each other. -/
theorem expected_one (now : ℤ) {findings : List Finding} {l r : Candidate} (h : Contradict findings l r) :
    ∃! x, x ∈ expected now findings ∧ x.1 = l.stance.dimension ∧ x.2.1 = s(source l,source r) := by
  have hfinite : {p : Candidate × Candidate | Contradict findings p.1 p.2 ∧ SameSources p.1 p.2 l r}.Finite := by
    refine (List.finite_toSet ((findings.filterMap candidate).product (findings.filterMap candidate))).subset ?_
    rintro ⟨a,b⟩ ⟨hab,-⟩
    exact List.pair_mem_product.mpr ⟨hab.1,hab.2.1⟩
  obtain ⟨⟨a,b⟩,⟨hab,hsame⟩,hmax⟩ := Set.exists_max_image _
    (fun p : Candidate × Candidate => pairConfidence now p.1 p.2) hfinite ⟨(l,r),h,rfl,rfl⟩
  refine ⟨_,⟨⟨a,b,hab,rfl,fun c d hcd hsources => hmax (c,d) ⟨hcd,?_⟩⟩,hsame.1,hsame.2⟩,?_⟩
  · exact ⟨hsources.1.trans hsame.1,hsources.2.trans hsame.2⟩
  · rintro x ⟨⟨c,d,hcd,rfl,hbest⟩,hdimension,hsources⟩
    have hcdsame : SameSources c d l r := ⟨hdimension,hsources⟩
    have hconfidence : pairConfidence now c d = pairConfidence now a b :=
      le_antisymm (hmax (c,d) ⟨hcd,hcdsame⟩)
        (hbest a b hab ⟨hsame.1.trans hcdsame.1.symm,hsame.2.trans hcdsame.2.symm⟩)
    rw [hsame.1,hsame.2,hcdsame.1,hcdsame.2,hconfidence]

/-! Keys. -/

/-- A candidate says one of the verdicts of the table, which have no null. -/
theorem verdict_of_candidate {f : Finding} {c : Candidate} (h : candidate f = some c) :
    c.finding = f ∧ verdictStances.lookup (verdictOf f) = some c.stance := by
  cases hstance : verdictStances.lookup (CaseTables.lower (strip f.verdict)) with
  | none =>
    rw [candidate,hstance] at h
    cases h
  | some stance =>
    rw [candidate,hstance] at h
    have hverdict : verdictOf f = CaseTables.lower (strip f.verdict) := by
      rw [verdictOf,orElse]
      split
      · rename_i hempty
        have hblank : strip "" = "" := by decide
        have hnone : verdictStances.lookup (asciiLower "") = none := rfl
        rw [hempty,hblank,CaseTables.lower_ascii "" (by decide),hnone] at hstance
        cases hstance
      · rfl
    have hkept : (if CaseTables.lower (strip f.signalType) ≠ "" ∧
        CaseTables.lower (strip f.signalType) ≠ stance.dimension.text ∧
          CaseTables.lower (strip f.signalType) ≠ "behavior" then none
        else some (Candidate.mk f stance)) = some c := h
    split at hkept
    · cases hkept
    · obtain rfl := Option.some.inj hkept
      exact ⟨rfl,by rw [hverdict,hstance]⟩

theorem verdict_no_null {findings : List Finding} {c : Candidate}
    (h : c ∈ findings.filterMap candidate) : '\x00' ∉ (verdictOf c.finding).toList := by
  obtain ⟨f,-,hf⟩ := List.mem_filterMap.mp h
  obtain ⟨rfl,hlookup⟩ := verdict_of_candidate hf
  have htable : ∀ entry ∈ verdictStances, '\x00' ∉ entry.1.toList := by decide
  obtain ⟨l₁,l₂,heq,-⟩ := List.lookup_eq_some_iff.mp hlookup
  exact htable (verdictOf c.finding,c.stance) (by rw [heq]; simp)

theorem keyText_eq_iff {c d : Candidate} (hc : '\x00' ∉ (verdictOf c.finding).toList)
    (hd : '\x00' ∉ (verdictOf d.finding).toList) :
    keyText c.finding = keyText d.finding ↔ source c = source d := by
  constructor
  · intro h
    have hlist := congrArg String.toList h
    simp only [keyText,String.toList_append,String.toList_ofList,List.append_assoc,List.singleton_append] at hlist
    obtain ⟨hprovider,hverdict⟩ := append_null_inj hc hd hlist
    exact Prod.ext (String.toList_inj.mp hprovider) (String.toList_inj.mp hverdict)
  · intro h
    obtain ⟨hprovider,hverdict⟩ := Prod.mk.inj h
    rw [keyText,keyText,hprovider,hverdict]

theorem pairKey_eq_iff {findings : List Finding} {l r l' r' : Candidate} (h : Contradict findings l r)
    (h' : Contradict findings l' r') : pairKey (l,r) = pairKey (l',r') ↔ SameSources l r l' r' := by
  have hnull : ∀ c ∈ findings.filterMap candidate, '\x00' ∉ (verdictOf c.finding).toList :=
    fun c hc => verdict_no_null hc
  have hkey : ∀ c ∈ findings.filterMap candidate, ∀ d ∈ findings.filterMap candidate,
      (keyText c.finding = keyText d.finding ↔ source c = source d) :=
    fun c hc d hd => keyText_eq_iff (hnull c hc) (hnull d hd)
  rw [pairKey,pairKey,Prod.mk.injEq,sortedPair_eq_iff,SameSources,Sym2.eq_iff,Sym2.eq_iff,
    hkey l h.1 l' h'.1,hkey r h.2.1 r' h'.2.1,hkey l h.1 r' h'.2.1,hkey r h.2.1 l' h'.1]

theorem Contradict.swap {findings : List Finding} {l r : Candidate} (h : Contradict findings l r) :
    Contradict findings r l ∧ SameSources r l l r := by
  obtain ⟨hl,hr,hopposed⟩ := h
  rw [opposed,Bool.and_eq_true,decide_eq_true_eq] at hopposed
  have hsides : opposing r.stance.side l.stance.side = true := by
    cases hls : l.stance.side <;> cases hrs : r.stance.side <;> simp_all [opposing]
  refine ⟨⟨hr,hl,?_⟩,hopposed.1.symm,Sym2.eq_swap⟩
  rw [opposed,Bool.and_eq_true,decide_eq_true_eq]
  exact ⟨hopposed.1.symm,hsides⟩

theorem Contradict.ne {findings : List Finding} {l r : Candidate} (h : Contradict findings l r) : l ≠ r := by
  rintro rfl
  have hopposed := h.2.2
  rw [opposed,Bool.and_eq_true] at hopposed
  have hside := hopposed.2
  cases hs : l.stance.side <;> rw [hs] at hside <;> cases hside

theorem Contradict.perm {findings findings' : List Finding} (h : findings'.Perm findings) {l r : Candidate} :
    Contradict findings' l r ↔ Contradict findings l r := by
  rw [Contradict,Contradict,(h.filterMap candidate).mem_iff,(h.filterMap candidate).mem_iff]

/-! What is reported. -/

/-- The reading of two findings that oppose each other. -/
def pairReading (now : ℤ) (l r : Candidate) : Reading :=
  (l.stance.dimension,s(source l,source r),pairConfidence now l r,
    contradictionSeverity (pairConfidence now l r))

theorem pairReading_congr {now : ℤ} {l r l' r' : Candidate} (hsame : SameSources l r l' r')
    (hconfidence : pairConfidence now l r = pairConfidence now l' r') :
    pairReading now l r = pairReading now l' r' := by
  rw [pairReading,pairReading,hsame.1,hsame.2,hconfidence]

/-- The pairs the loops visit. -/
theorem mem_found {findings : List Finding} {l r : Candidate}
    (h : (l,r) ∈ (pairs (findings.filterMap candidate)).filter fun pair => opposed pair.1 pair.2) :
    Contradict findings l r := by
  obtain ⟨hpair,hopposed⟩ := List.mem_filter.mp h
  obtain ⟨hl,hr⟩ := mem_pairs hpair
  exact ⟨hl,hr,hopposed⟩

theorem found_of_contradict {findings : List Finding} {l r : Candidate} (h : Contradict findings l r) :
    ∃ l' r', (l',r') ∈ (pairs (findings.filterMap candidate)).filter (fun pair => opposed pair.1 pair.2) ∧
      SameSources l' r' l r := by
  obtain ⟨hback,hsame⟩ := h.swap
  rcases mem_pairs_or h.1 h.2.1 h.ne with hpair | hpair
  · exact ⟨l,r,List.mem_filter.mpr ⟨hpair,h.2.2⟩,rfl,rfl⟩
  · exact ⟨r,l,List.mem_filter.mpr ⟨hpair,hback.2.2⟩,hsame⟩

theorem mem_detect_iff {now : ℤ} {findings : List Finding} {x : Reading} :
    (∃ c ∈ detectContradictions now findings, reading c = x) ↔
      ∃ l r, (l,r) ∈ Firsts.firsts pairKey []
        ((pairs (findings.filterMap candidate)).filter fun pair => opposed pair.1 pair.2) ∧
          pairReading now l r = x := by
  simp only [detectContradictions,List.mem_insertionSort,List.mem_map]
  constructor
  · rintro ⟨c,⟨⟨l,r⟩,hpair,rfl⟩,hx⟩
    exact ⟨l,r,hpair,hx⟩
  · rintro ⟨l,r,hpair,hx⟩
    exact ⟨_,⟨(l,r),hpair,rfl⟩,hx⟩

/-- Every contradiction is reported with the confidence of some findings of its sources. -/
theorem reported_of_contradict (now : ℤ) {findings : List Finding} {l r : Candidate}
    (h : Contradict findings l r) : ∃ l' r', Contradict findings l' r' ∧ SameSources l' r' l r ∧
      ∃ c ∈ detectContradictions now findings, reading c = pairReading now l' r' := by
  obtain ⟨l₁,r₁,hfound,hsame₁⟩ := found_of_contradict h
  have hkey : pairKey (l₁,r₁) ∈ (Firsts.firsts pairKey []
      ((pairs (findings.filterMap candidate)).filter fun pair => opposed pair.1 pair.2)).map pairKey :=
    (Firsts.mem_keys_firsts [] _ _).mpr ⟨List.mem_map_of_mem hfound,List.not_mem_nil⟩
  obtain ⟨⟨l',r'⟩,hfirst,heq⟩ := List.mem_map.mp hkey
  have h' := mem_found (Firsts.firsts_subset [] _ _ hfirst).2
  have hsame := (pairKey_eq_iff h' (mem_found hfound)).mp heq
  exact ⟨l',r',h',⟨hsame.1.trans hsame₁.1,hsame.2.trans hsame₁.2⟩,mem_detect_iff.mpr ⟨l',r',hfirst,rfl⟩⟩

/-- Two findings at the beginning are reported with their own confidence. -/
theorem reported_first (now : ℤ) {f g : Finding} (rest : List Finding) {l r : Candidate}
    (hf : candidate f = some l) (hg : candidate g = some r) (hopposed : opposed l r = true) :
    ∃ c ∈ detectContradictions now (f::g::rest), reading c = pairReading now l r := by
  refine mem_detect_iff.mpr ⟨l,r,?_,rfl⟩
  have hfilter : ∀ more, ((l,r)::more).filter (fun pair => opposed pair.1 pair.2) =
      (l,r)::more.filter fun pair => opposed pair.1 pair.2 := fun more => List.filter_cons_of_pos hopposed
  rw [List.filterMap_cons_some hf,List.filterMap_cons_some hg,pairs,List.map_cons,List.cons_append,
    hfilter,Firsts.firsts,if_neg List.not_mem_nil]
  exact List.mem_cons_self

omit [CaseTables] in
theorem perm_cons_of_mem {α : Type} {x : α} {xs : List α} (h : x ∈ xs) : ∃ rest, xs.Perm (x::rest) := by
  obtain ⟨before,after,rfl⟩ := List.append_of_mem h
  exact ⟨before++after,List.perm_middle⟩

/-- The right readings are reported in every order exactly when all findings of two sources that
oppose each other have one confidence. -/
theorem contradictions_order_iff (now : ℤ) (findings : List Finding) :
    (∀ findings' : List Finding, findings'.Perm findings →
      {x | ∃ c ∈ detectContradictions now findings', reading c = x} = expected now findings) ↔
      ∀ l r l' r', Contradict findings l r → Contradict findings l' r' → SameSources l' r' l r →
        pairConfidence now l' r' = pairConfidence now l r := by
  constructor
  · intro hall
    have hle : ∀ l r l' r', Contradict findings l r → Contradict findings l' r' → SameSources l' r' l r →
        pairConfidence now l' r' ≤ pairConfidence now l r := by
      intro l r l' r' h h' hsame
      obtain ⟨f,hf,hl⟩ := List.mem_filterMap.mp h.1
      obtain ⟨g,hg,hr⟩ := List.mem_filterMap.mp h.2.1
      have hfg : g ≠ f := by
        rintro rfl
        exact h.ne (Option.some.inj (hl.symm.trans hr))
      obtain ⟨rest₁,hperm₁⟩ := perm_cons_of_mem hf
      have hg₁ := (List.mem_cons.mp (hperm₁.mem_iff.mp hg)).resolve_left hfg
      obtain ⟨rest,hperm⟩ := perm_cons_of_mem hg₁
      have hmem : pairReading now l r ∈ expected now findings := by
        rw [← hall (f::g::rest) (hperm₁.trans (hperm.cons f)).symm]
        exact reported_first now rest hl hr h.2.2
      obtain ⟨l₀,r₀,-,heq,hmax⟩ := hmem
      obtain ⟨hdimension,htail⟩ := Prod.mk.inj heq
      obtain ⟨hsources,htail⟩ := Prod.mk.inj htail
      have hconfidence := (Prod.mk.inj htail).1
      rw [hconfidence]
      exact hmax l' r' h' ⟨hsame.1.trans hdimension,hsame.2.trans hsources⟩
    intro l r l' r' h h' hsame
    exact le_antisymm (hle l r l' r' h h' hsame) (hle l' r' l r h' h ⟨hsame.1.symm,hsame.2.symm⟩)
  · intro hsame findings' hperm
    ext x
    constructor
    · intro hx
      obtain ⟨l,r,hpair,rfl⟩ := mem_detect_iff.mp hx
      have h := (Contradict.perm hperm).mp (mem_found (Firsts.firsts_subset [] _ _ hpair).2)
      exact ⟨l,r,h,rfl,fun l' r' h' hsources => (hsame l r l' r' h h' hsources).le⟩
    · rintro ⟨l,r,h,rfl,-⟩
      obtain ⟨l',r',h',hsources,hx⟩ := reported_of_contradict now ((Contradict.perm hperm).mpr h)
      have hconfidence := hsame l r l' r' h ((Contradict.perm hperm).mp h') hsources
      rw [pairReading_congr hsources hconfidence] at hx
      exact hx

end Order

/-! Two findings of one feed. -/

def weak : Finding := { provider := "Feed", verdict := "malicious", confidence := .finite 0 }

def strong : Finding := { provider := "Feed", verdict := "malicious", confidence := .finite 1 }

def trust : Finding := { provider := "Trust", verdict := "safe", confidence := .finite 1 }

/-- The severity is that of the finding that comes first. -/
theorem order_decides_severity :
    [strong,weak,trust].Perm [weak,strong,trust] ∧
      (detectContradictions 0 [weak,strong,trust]).map EvidenceContradiction.severity = [.low] ∧
      (detectContradictions 0 [strong,weak,trust]).map EvidenceContradiction.severity = [.medium] := by
  refine ⟨.swap _ _ _,?_,?_⟩
  · decide +kernel
  · decide +kernel

end Quality
end WormholeObservatory
