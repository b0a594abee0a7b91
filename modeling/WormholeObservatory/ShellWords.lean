import WormholeObservatory.Templates

/-! How a POSIX shell takes the letters of a script: those that stand for themselves, those at which
it expands something, and where words, commands and lines end. Here-documents are left out. -/
namespace ShellWords

open Templates

inductive Mode
  | plain
  | single
  | double
  | escape
  | doubleEscape
  | dollar
  | comment
  deriving DecidableEq

inductive Mark
  /-- A word begins with a quotation, so that it is there even if it is empty. -/
  | word
  | literal (c : Char)
  /-- A letter of something that is expanded. -/
  | active (c : Char)
  | gap
  | operator (c : Char)
  | newline
  deriving DecidableEq

/-- The mode, the modes in which the expansions began that it is in, and whether a word has begun. -/
structure State where
  mode : Mode
  outer : List Mode
  begun : Bool
  deriving DecidableEq

def start : State := ⟨.plain,[],false⟩

def operators : List Char := [';','&','|','<','>','(',')']

/-- What a quotation adds to the word it stands in. -/
def State.opening (s : State) : List Mark := if s.begun = true then [] else [.word]

/-- A letter outside of quotes. -/
def plainStep (s : State) (c : Char) : List Mark × State :=
  let s := { s with mode := .plain }
  if c = '\'' then (s.opening,{ s with mode := .single, begun := true })
  else if c = '"' then (s.opening,{ s with mode := .double, begun := true })
  else if c = '\\' then ([],{ s with mode := .escape })
  else if c = '$' then ([.active c],⟨.dollar,.plain::s.outer,true⟩)
  else if c = '`' then ([.active c],{ s with begun := true })
  else
    match s.outer with
    | mode::outer =>
      if c = '(' then ([.active c],{ s with outer := .plain::s.outer })
      else if c = ')' then ([.active c],{ s with mode, outer })
      else ([.active c],s)
    | [] =>
      if c = '#' ∧ s.begun = false then ([],{ s with mode := .comment })
      else if c = '\n' then ([.newline],{ s with begun := false })
      else if c = ' ' ∨ c = '\t' then ([.gap],{ s with begun := false })
      else if c ∈ operators then ([.operator c],{ s with begun := false })
      else ([.literal c],{ s with begun := true })

/-- A letter that stands for itself, if nothing around it is expanded. -/
def State.letter (s : State) (c : Char) : Mark := if s.outer = [] then .literal c else .active c

/-- A letter between double quotes. -/
def doubleStep (s : State) (c : Char) : List Mark × State :=
  let s := { s with mode := .double }
  if c = '"' then ([],{ s with mode := .plain })
  else if c = '\\' then ([],{ s with mode := .doubleEscape })
  else if c = '$' then ([.active c],⟨.dollar,.double::s.outer,true⟩)
  else if c = '`' then ([.active c],s)
  else ([s.letter c],s)

def step (s : State) (c : Char) : List Mark × State :=
  match s.mode with
  | .plain => plainStep s c
  | .double => doubleStep s c
  | .single =>
    if c = '\'' then ([],{ s with mode := .plain }) else ([s.letter c],s)
  | .escape =>
    if c = '\n' then ([],{ s with mode := .plain })
    else ([s.letter c],{ s with mode := .plain, begun := true })
  | .doubleEscape =>
    let s := { s with mode := .double }
    if c = '\n' then ([],s)
    else if c ∈ ['$','`','"','\\'] then ([s.letter c],s)
    else ([s.letter '\\',s.letter c],s)
  | .comment => if c = '\n' then ([.newline],{ s with mode := .plain }) else ([],s)
  | .dollar =>
    if c = '(' then ([.active c],{ s with mode := .plain })
    else
      match s.outer with
      | .double::outer => doubleStep { s with outer } c
      | _::outer => plainStep { s with outer } c
      | [] => plainStep s c

def shell : Reader State Mark := ⟨step⟩

/-- `"'" + value.replace("'", "'\"'\"'") + "'"`. -/
def quote (value : List Char) : List Char :=
  '\''::value.flatMap (fun c => if c = '\'' then ['\'','"','\'','"','\''] else [c])++['\'']

theorem run_quoted (value : List Char) :
    shell.run ⟨.single,[],true⟩
        (value.flatMap (fun c => if c = '\'' then ['\'','"','\'','"','\''] else [c])++['\'']) =
      (value.map .literal,⟨.plain,[],true⟩) := by
  induction value with
  | nil => rfl
  | cons c value ih =>
    rw [List.flatMap_cons,List.append_assoc,shell.run_append,List.map_cons]
    by_cases hc : c = '\''
    · subst hc
      have hquote : shell.run ⟨.single,[],true⟩ ['\'','"','\'','"','\''] =
          ([.literal '\''],⟨.single,[],true⟩) := by decide
      rw [if_pos rfl,hquote,ih]
      rfl
    · have hletter : shell.run ⟨.single,[],true⟩ [c] = ([.literal c],⟨.single,[],true⟩) := by
        simp [Reader.run,shell,step,hc,State.letter]
      rw [if_neg hc,hletter,ih]
      rfl

/-- A quoted value is read as what it is wherever a word may stand. -/
def quoting : Quoting shell where
  quote := quote
  marks s value := s.opening++value.map .literal
  ready s := decide (s.mode = .plain ∧ s.outer = [])
  after s := { s with begun := true }
  admits _ := True
  run_quote s v hready _ := by
    obtain ⟨mode,outer,begun⟩ := s
    simp only [decide_eq_true_eq] at hready
    obtain ⟨rfl,rfl⟩ := hready
    have hopen : shell.step ⟨.plain,[],begun⟩ '\'' =
        (State.opening ⟨.plain,[],begun⟩,⟨.single,[],true⟩) := rfl
    rw [quote,List.cons_append,Reader.run,hopen,run_quoted]

/-- Letters that stand for themselves wherever they are not quoted. -/
def ordinary (c : Char) : Bool :=
  decide (c ∉ ['\'','"','\\','$','`','#','\n',' ','\t']++operators)

theorem step_ordinary {c : Char} (h : ordinary c = true) (begun : Bool) :
    shell.step ⟨.plain,[],begun⟩ c = ([.literal c],⟨.plain,[],true⟩) := by
  simp only [ordinary,operators,List.cons_append,List.nil_append,List.mem_cons,List.not_mem_nil,
    or_false,not_or,decide_eq_true_eq] at h
  simp [shell,step,plainStep,operators,h]

theorem run_ordinary {cs : List Char} (h : ∀ c ∈ cs, ordinary c = true) :
    shell.run ⟨.plain,[],true⟩ cs = (cs.map .literal,⟨.plain,[],true⟩) := by
  induction cs with
  | nil => rfl
  | cons c cs ih =>
    rw [Reader.run,step_ordinary (h c List.mem_cons_self),
      ih fun c hc => h c (List.mem_cons_of_mem _ hc)]
    rfl

/-- They begin a word, too. -/
theorem run_ordinary_cons {c : Char} {cs : List Char} (h : ∀ x ∈ c::cs, ordinary x = true)
    (begun : Bool) :
    shell.run ⟨.plain,[],begun⟩ (c::cs) = ((c::cs).map .literal,⟨.plain,[],true⟩) := by
  rw [Reader.run,step_ordinary (h c List.mem_cons_self),
    run_ordinary fun c hc => h c (List.mem_cons_of_mem _ hc)]
  rfl

/-! Commands of one line. -/

section Lines

variable {β : Type*} (f : List Mark → Option β)

/-- What is found on the lines, the first of which has begun, and what the last one has so far. -/
def scan : List Mark → List Mark → List β × List Mark
  | line,[] => ([],line)
  | line,.newline::marks => ((f line).toList++(scan [] marks).1,(scan [] marks).2)
  | line,mark::marks => scan (line++[mark]) marks

theorem scan_append (line a b : List Mark) : scan f line (a++b) =
    ((scan f line a).1++(scan f (scan f line a).2 b).1,(scan f (scan f line a).2 b).2) := by
  induction a generalizing line with
  | nil => rfl
  | cons mark a ih =>
    rw [List.cons_append]
    cases mark <;> simp [scan,ih,List.append_assoc]

theorem scan_within {line marks : List Mark} (h : Mark.newline ∉ marks) :
    scan f line marks = ([],line++marks) := by
  induction marks generalizing line with
  | nil => simp [scan]
  | cons mark marks ih =>
    obtain ⟨hmark,hmarks⟩ := not_or.mp (List.mem_cons.not.mp h)
    have hnext : scan f line (mark::marks) = scan f (line++[mark]) marks := by
      cases mark <;> first | rfl | exact absurd rfl hmark
    rw [hnext,ih hmarks,List.append_assoc,List.singleton_append]

/-- Lines that each begin with the end of the one before. -/
theorem scan_lines {line : List Mark} {ls : List (List Mark)} (hls : ∀ l ∈ ls, Mark.newline ∉ l)
    (rest : List Mark) : scan f line (ls.flatMap (Mark.newline::·)++.newline::rest) =
      ((line::ls).filterMap f++(scan f [] rest).1,(scan f [] rest).2) := by
  induction ls generalizing line with
  | nil =>
    rw [List.flatMap_nil,List.nil_append,scan]
    cases hline : f line <;> simp [hline]
  | cons l ls ih =>
    have hl := hls l List.mem_cons_self
    rw [List.flatMap_cons,List.append_assoc,List.cons_append,scan,scan_append,scan_within f hl,
      List.nil_append,ih fun l hl => hls l (List.mem_cons_of_mem _ hl),List.nil_append]
    cases hline : f line <;> simp [List.filterMap_cons,hline]

variable {α : Type*} {f} {g : α → List Mark} {l : List α}

/-- Lines on each of which something is found. -/
theorem found_lines {h : α → β} (hl : ∀ a ∈ l, f (g a) = some (h a)) :
    (l.map g).filterMap f = l.map h := by
  induction l with
  | nil => rfl
  | cons a l ih =>
    rw [List.map_cons,List.filterMap_cons_some (hl a List.mem_cons_self),
      ih fun b hb => hl b (List.mem_cons_of_mem _ hb),List.map_cons]

theorem found_nothing (hl : ∀ a ∈ l, f (g a) = none) : (l.map g).filterMap f = [] := by
  rw [List.filterMap_eq_nil_iff]
  intro line hline
  obtain ⟨a,ha,rfl⟩ := List.mem_map.mp hline
  exact hl a ha

end Lines

/-- A word in which nothing is expanded. -/
def plainWord : List Mark → Option (List Char)
  | [] => some []
  | .word::marks => plainWord marks
  | .literal c::marks => (plainWord marks).map (c::·)
  | _::_ => none

theorem plainWord_literals (opening : Bool) (cs : List Char) :
    plainWord ((if opening = true then [] else [.word])++cs.map .literal) = some cs := by
  have hletters : plainWord (cs.map .literal) = some cs := by
    induction cs with
    | nil => rfl
    | cons c cs ih => rw [List.map_cons,plainWord,ih,Option.map_some]
  cases opening
  · exact hletters
  · exact hletters

/-- A line that sets a variable to a word, unquoted up to the sign. -/
def setting : List Mark → Option (List Char × List Char)
  | .literal c::line =>
    if c = '=' then (plainWord line).map fun value => ([],value)
    else if c.isAlphanum || c == '_' then (setting line).map fun (name,value) => (c::name,value)
    else none
  | _ => none

/-- A line that calls a command with one word. -/
def argument (command : List Char) (line : List Mark) : Option (List Char) :=
  if line.take (command.length+1) = command.map .literal++[.gap] then
    plainWord (line.drop (command.length+1))
  else none

theorem setting_word {name : List Char} (hname : ∀ c ∈ name, (c.isAlphanum || c == '_') = true)
    {line : List Mark} {value : List Char} (hline : plainWord line = some value) :
    setting (name.map .literal++.literal '='::line) = some (name,value) := by
  induction name with
  | nil =>
    rw [List.map_nil,List.nil_append,setting,if_pos rfl,hline]
    rfl
  | cons c name ih =>
    have hc := hname c List.mem_cons_self
    have hsign : c ≠ '=' := by
      rintro rfl
      exact absurd hc (by decide)
    rw [List.map_cons,List.cons_append,setting,if_neg hsign,if_pos hc,
      ih fun c hc => hname c (List.mem_cons_of_mem _ hc)]
    rfl

/-- A word and more is no setting. -/
theorem setting_gap {name : List Char} (hname : ∀ c ∈ name, c ≠ '=') (rest : List Mark) :
    setting (name.map .literal++.gap::rest) = none := by
  induction name with
  | nil => rfl
  | cons c name ih =>
    rw [List.map_cons,List.cons_append,setting,if_neg (hname c List.mem_cons_self),
      ih fun c hc => hname c (List.mem_cons_of_mem _ hc)]
    split <;> rfl

theorem argument_gap (c : Char) (command : List Char) (rest : List Mark) :
    argument (c::command) (.gap::rest) = none := by
  simp [argument]

theorem argument_of_no_gap {command : List Char} {line : List Mark} (h : Mark.gap ∉ line) :
    argument command line = none := by
  rw [argument,if_neg]
  intro htake
  refine h (List.mem_of_mem_take (i := command.length+1) ?_)
  rw [htake]
  simp

theorem argument_word {command : List Char} {line : List Mark} :
    argument command (command.map Mark.literal++Mark.gap::line) = plainWord line := by
  have hlength : (command.map Mark.literal++[Mark.gap]).length = command.length+1 := by simp
  have hsplit : command.map Mark.literal++Mark.gap::line =
      (command.map Mark.literal++[Mark.gap])++line := by
    simp
  rw [argument,hsplit,← hlength,List.take_left,List.drop_left,if_pos rfl]

end ShellWords
