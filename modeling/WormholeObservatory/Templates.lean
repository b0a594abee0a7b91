import Mathlib.Tactic

/-! Texts into which values are written. A reader goes through a text letter by letter, with a
state and with marks that it leaves; a quoting of its language writes a value so that the reader
marks it as the value it is and goes on as if it had been any other. What is read of a text in
which values stand is then what is read of the text, with the values between. -/
namespace Templates

variable {κ ο : Type*}

/-- A reader: the marks it leaves at a letter, and the state it goes on in. -/
structure Reader (κ ο : Type*) where
  step : κ → Char → List ο × κ

namespace Reader

def run (R : Reader κ ο) : κ → List Char → List ο × κ
  | k,[] => ([],k)
  | k,c::cs => ((R.step k c).1++(run R (R.step k c).2 cs).1,(run R (R.step k c).2 cs).2)

theorem run_append (R : Reader κ ο) (k : κ) (a b : List Char) :
    R.run k (a++b) = ((R.run k a).1++(R.run (R.run k a).2 b).1,(R.run (R.run k a).2 b).2) := by
  induction a generalizing k with
  | nil => rfl
  | cons c a ih => simp [run,ih,List.append_assoc]

end Reader

/-- A way to write values: where one may stand, and what is read of it there. -/
structure Quoting (R : Reader κ ο) where
  quote : List Char → List Char
  marks : κ → List Char → List ο
  ready : κ → Bool
  after : κ → κ
  admits : List Char → Prop
  run_quote : ∀ k v, ready k = true → admits v → R.run k (quote v) = (marks k v,after k)

inductive Part
  | text (s : List Char)
  | value (v : List Char)

namespace Quoting

variable {R : Reader κ ο} (q : Quoting R)

def write : Part → List Char
  | .text s => s
  | .value v => q.quote v

/-- The text with its values quoted. -/
def render (parts : List Part) : List Char := parts.flatMap q.write

/-- What is meant by a part, and the state after it. -/
def meant (k : κ) : Part → List ο × κ
  | .text s => R.run k s
  | .value v => (q.marks k v,q.after k)

/-- What is meant by the text. -/
def intend : κ → List Part → List ο × κ
  | k,[] => ([],k)
  | k,part::parts =>
    ((q.meant k part).1++(intend (q.meant k part).2 parts).1,(intend (q.meant k part).2 parts).2)

/-- Whether every value stands where one may stand. -/
def placed : κ → List Part → Bool
  | _,[] => true
  | k,.text s::parts => placed (R.run k s).2 parts
  | k,.value _::parts => q.ready k && placed (q.after k) parts

theorem intend_append (k : κ) (a b : List Part) : q.intend k (a++b) =
    ((q.intend k a).1++(q.intend (q.intend k a).2 b).1,(q.intend (q.intend k a).2 b).2) := by
  induction a generalizing k with
  | nil => rfl
  | cons part a ih => simp [intend,ih,List.append_assoc]

theorem placed_append (k : κ) (a b : List Part) :
    q.placed k (a++b) = (q.placed k a && q.placed (q.intend k a).2 b) := by
  induction a generalizing k with
  | nil => rfl
  | cons part a ih => cases part <;> simp [placed,intend,meant,ih,Bool.and_assoc]

/-- Values that stand in their places are read as what they are. -/
theorem run_render {k : κ} {parts : List Part} (hplaced : q.placed k parts = true)
    (hadmits : ∀ v, Part.value v ∈ parts → q.admits v) :
    R.run k (q.render parts) = q.intend k parts := by
  induction parts generalizing k with
  | nil => rfl
  | cons part parts ih =>
    have hrest : ∀ v, Part.value v ∈ parts → q.admits v := fun v hv =>
      hadmits v (List.mem_cons_of_mem _ hv)
    have hrender : q.render (part::parts) = q.write part++q.render parts := List.flatMap_cons
    rw [hrender,R.run_append,intend]
    cases part with
    | text s => rw [write,meant,ih hplaced hrest]
    | value v =>
      rw [placed,Bool.and_eq_true] at hplaced
      rw [write,meant,q.run_quote k v hplaced.1 (hadmits v List.mem_cons_self),ih hplaced.2 hrest]

/-- A text that leaves the reader where it found it can be repeated. -/
theorem placed_flatMap {α : Type*} {k : κ} {f : α → List Part} {l : List α}
    (h : ∀ a ∈ l, q.placed k (f a) = true ∧ (q.intend k (f a)).2 = k) :
    q.placed k (l.flatMap f) = true ∧
      q.intend k (l.flatMap f) = (l.flatMap fun a => (q.intend k (f a)).1,k) := by
  induction l with
  | nil => exact ⟨rfl,rfl⟩
  | cons a l ih =>
    obtain ⟨hplaced,hback⟩ := h a List.mem_cons_self
    obtain ⟨hplaced',hintend⟩ := ih fun b hb => h b (List.mem_cons_of_mem _ hb)
    rw [List.flatMap_cons,placed_append,intend_append,hback,hplaced,hplaced',hintend]
    exact ⟨rfl,rfl⟩

end Quoting

end Templates
