import WormholeObservatory.ShellWords
import WormholeObservatory.Text

/-! The text of the script that replaces the program on a POSIX system, and what the shell reads of
it: whatever letters the paths and names of a plan are made of, its settings are those of the plan
and its calls of `preserve_item` are for the names of the plan. -/
namespace WormholeObservatory
namespace InstallerTexts

open ShellWords
open Templates (Part)

/-- The fields of `InstallPlan` that the scripts name. -/
structure ScriptPlan where
  installDirectory : String
  stagedDirectory : String
  stageContainer : String
  backupDirectory : String
  entrypoint : String
  markerPath : String
  statusPath : String
  version : String
  preservedNames : List String

/-- `"\n".join(..)`, and the end of the last line. -/
def lines (texts : List String) : List Char := texts.flatMap fun text => text.toList++['\n']

/-- `separator.join(..)`. -/
def joined (separator : List Char) : List (List Part) → List Part
  | [] => []
  | first::rest => first++rest.flatMap fun parts => .text separator::parts

/-- The variables that are set to a quoted value. -/
def ScriptPlan.settings (plan : ScriptPlan) : List (String × String) :=
  [("install_dir",plan.installDirectory),("stage_dir",plan.stagedDirectory),
    ("stage_container",plan.stageContainer),("backup_dir",plan.backupDirectory),
    ("entrypoint",plan.entrypoint),("marker",plan.markerPath),("status_path",plan.statusPath)]

def shellHead : List Char := lines ["#!/bin/sh","set -u"]++"parent_pid=".toList

def shellStatus : List Char := lines [
    "",
    "",
    "while kill -0 \"$parent_pid\" 2>/dev/null; do sleep 0.25; done",
    "write_status() \x7b",
    "    mkdir -p \"$(dirname \"$status_path\")\"",
    "    printf '\x7b\"state\":\"%s\",\"message\":\"%s\",\"version\":\"%s\"\x7d"]++
  "'         \"$1\" \"$2\" ".toList

def shellCommands : List Char := lines [
    " > \"$status_path\"",
    "\x7d",
    "rollback() \x7b",
    "    message=\"$1\"",
    "    rm -rf \"$install_dir\"",
    "    if [ -d \"$backup_dir\" ]; then mv \"$backup_dir\" \"$install_dir\"; fi",
    "    if [ -x \"$install_dir/$entrypoint\" ]; then \"$install_dir/$entrypoint\" >/dev/null 2>&1 & fi",
    "    write_status rolled_back \"$message\"",
    "    exit 1",
    "\x7d",
    "preserve_item() \x7b",
    "    name=\"$1\"",
    "    if [ -e \"$backup_dir/$name\" ]; then",
    "        rm -rf \"$install_dir/$name\"",
    "        cp -a \"$backup_dir/$name\" \"$install_dir/$name\" ||             rollback 'Could not preserve application data.'",
    "    fi",
    "\x7d",
    "",
    "rm -rf \"$backup_dir\"",
    "mv \"$install_dir\" \"$backup_dir\" || exit 1",
    "mv \"$stage_dir\" \"$install_dir\" || rollback 'Could not move the staged update into place.'"]

def shellEnd : List Char := lines [
    "",
    "\"$install_dir/$entrypoint\" --post-update-marker \"$marker\" >/dev/null 2>&1 &",
    "new_pid=$!",
    "started=0",
    "i=0",
    "while [ \"$i\" -lt 120 ]; do",
    "    if [ -f \"$marker\" ]; then started=1; break; fi",
    "    if ! kill -0 \"$new_pid\" 2>/dev/null; then break; fi",
    "    i=$((i + 1))",
    "    sleep 0.25",
    "done",
    "if [ \"$started\" -ne 1 ]; then",
    "    kill \"$new_pid\" 2>/dev/null || true",
    "    rollback 'The updated application did not start successfully.'",
    "fi",
    "rm -rf \"$backup_dir\"",
    "rm -rf \"$stage_container\"",
    "rm -f \"$marker\"",
    "write_status success 'Update installed successfully.'"]

def setText (entry : String × String) : List Part :=
  [.text ('\n'::entry.1.toList++['=']),.value entry.2.toList]

def preserveItem : List Char := "preserve_item".toList

def preserveText (name : String) : List Part := [.text (preserveItem++[' ']),.value name.toList]

def shellTemplate (plan : ScriptPlan) (parentPid : ℕ) : List Part :=
  [.text shellHead,.text (Nat.toDigits 10 parentPid)]++plan.settings.flatMap setText++
    [.text shellStatus,.value plan.version.toList,.text shellCommands]++
    joined ['\n'] (plan.preservedNames.map preserveText)++[.text shellEnd]

/-- `_shell_script`. -/
def shellScript (plan : ScriptPlan) (parentPid : ℕ) : List Char :=
  quoting.render (shellTemplate plan parentPid)

/-! What the shell reads. -/

/-- In a word that has begun. -/
def word : State := ⟨.plain,[],true⟩

/-- The line on which a variable is set. -/
def settingLine (name value : List Char) : List Mark :=
  name.map .literal++.literal '='::value.map .literal

/-- The line on which a name is preserved. -/
def preserveLine (name : String) : List Mark :=
  preserveItem.map .literal++.gap::.word::name.toList.map .literal

/-! The texts of the script, each in the state in which the shell comes to it: where it leaves the
shell, how its marks are cut into lines, and what is found on them. -/

theorem shellHead_read :
    (shell.run start shellHead).2 = word ∧
      scan setting [] (shell.run start shellHead).1 =
        ([],"parent_pid".toList.map .literal++[.literal '=']) ∧
      scan (argument preserveItem) [] (shell.run start shellHead).1 =
        ([],"parent_pid".toList.map .literal++[.literal '=']) := by
  decide +kernel

/-- The text before the version. -/
def statusMarks : List Mark := (shell.run word shellStatus).1.tail

/-- The last line of it, which the version goes on with. -/
def statusLine : List Mark := (scan setting [] statusMarks).2.tail

theorem shellStatus_read :
    (shell.run word shellStatus).2 = start ∧
      (shell.run word shellStatus).1 = .newline::statusMarks ∧
      scan setting [] statusMarks = ([],.gap::statusLine) ∧
      scan (argument preserveItem) [] statusMarks = ([],.gap::statusLine) := by
  decide +kernel

/-- The rest of the line of the version. -/
def commandsLine : List Mark := (shell.run word shellCommands).1.takeWhile (· ≠ .newline)

/-- The lines after it. -/
def commandsMarks : List Mark := ((shell.run word shellCommands).1.dropWhile (· ≠ .newline)).tail

theorem shellCommands_read :
    (shell.run word shellCommands).2 = start ∧
      (shell.run word shellCommands).1 = commandsLine++.newline::commandsMarks ∧
      Mark.newline ∉ commandsLine ∧ scan setting [] commandsMarks = ([],[]) ∧
      scan (argument preserveItem) [] commandsMarks = ([],[]) := by
  decide +kernel

/-- The text after the names, from its second line on. -/
def endMarks : List Mark := (shell.run word shellEnd).1.tail

theorem shellEnd_read :
    (shell.run start shellEnd).2 = start ∧ (shell.run word shellEnd).2 = start ∧
      (shell.run start shellEnd).1 = .newline::endMarks ∧
      (shell.run word shellEnd).1 = .newline::endMarks ∧
      scan setting [] endMarks = ([("started".toList,['0']),("i".toList,['0'])],[]) ∧
      scan (argument preserveItem) [] endMarks = ([],[]) := by
  decide +kernel

theorem ordinary_of_isDigit {c : Char} (h : c.isDigit = true) : ordinary c = true := by
  have hspecial : ∀ x ∈ ['\'','"','\\','$','`','#','\n',' ','\t']++operators, x.isDigit = false := by
    decide
  refine decide_eq_true fun hc => ?_
  rw [hspecial c hc] at h
  cases h

theorem digits_read (n : ℕ) :
    shell.run word (Nat.toDigits 10 n) = ((Nat.toDigits 10 n).map .literal,word) := by
  refine run_ordinary fun c hc => ordinary_of_isDigit ?_
  exact Nat.isDigit_of_mem_toDigits (by decide) (by decide) hc

/-- The names of the variables are ordinary words. -/
theorem settings_names {plan : ScriptPlan} {entry : String × String} (h : entry ∈ plan.settings) :
    entry.1 ≠ "" ∧ ∀ c ∈ entry.1.toList, (c.isAlphanum || c == '_') = true ∧ ordinary c = true := by
  have hnames : ∀ name ∈ ["install_dir","stage_dir","stage_container","backup_dir","entrypoint",
      "marker","status_path"], name ≠ "" ∧ ∀ c ∈ name.toList,
        (c.isAlphanum || c == '_') = true ∧ ordinary c = true := by
    decide +kernel
  refine hnames entry.1 ?_
  have hmap := List.mem_map_of_mem (f := Prod.fst) h
  exact hmap

/-- A setting, after the line before it. -/
theorem setText_read {plan : ScriptPlan} {entry : String × String} (h : entry ∈ plan.settings) :
    quoting.placed word (setText entry) = true ∧ quoting.intend word (setText entry) =
      (.newline::settingLine entry.1.toList entry.2.toList,word) := by
  obtain ⟨hne,hname⟩ := settings_names h
  obtain ⟨c,cs,hcs⟩ := List.exists_cons_of_ne_nil (toList_ne_nil.mpr hne)
  have hletters : ∀ x ∈ c::(cs++['=']), ordinary x = true := by
    intro x hx
    rw [← List.cons_append,← hcs,List.mem_append,List.mem_singleton] at hx
    rcases hx with hx | rfl
    · exact (hname x hx).2
    · decide
  have hrun : shell.run word ('\n'::entry.1.toList++['=']) =
      (.newline::(entry.1.toList++['=']).map .literal,word) := by
    have hnewline : shell.step word '\n' = ([.newline],start) := rfl
    rw [List.cons_append,Templates.Reader.run,hnewline,hcs,List.cons_append]
    simp only
    rw [start,List.cons_append,run_ordinary_cons hletters]
    rfl
  have hready : quoting.ready word = true := rfl
  refine ⟨?_,?_⟩
  · rw [setText,Templates.Quoting.placed,hrun,Templates.Quoting.placed,hready]
    rfl
  · simp only [setText,Templates.Quoting.intend,Templates.Quoting.meant,hrun]
    simp [quoting,State.opening,word,settingLine]

/-- A name that is preserved. -/
theorem preserveText_read (name : String) :
    quoting.placed start (preserveText name) = true ∧
      quoting.intend start (preserveText name) = (preserveLine name,word) := by
  have hrun : shell.run start (preserveItem++[' ']) =
      (preserveItem.map .literal++[.gap],start) := by decide +kernel
  have hready : quoting.ready start = true := rfl
  refine ⟨?_,?_⟩
  · rw [preserveText,Templates.Quoting.placed,hrun,Templates.Quoting.placed,hready]
    rfl
  · simp only [preserveText,Templates.Quoting.intend,Templates.Quoting.meant,hrun]
    simp [quoting,State.opening,start,word,preserveLine]

/-- What is read of the names that are preserved. -/
def preserveMarks : List String → List Mark
  | [] => []
  | name::names => preserveLine name++(names.map preserveLine).flatMap (Mark.newline::·)

theorem preserve_read (names : List String) :
    quoting.placed start (joined ['\n'] (names.map preserveText)) = true ∧
      quoting.intend start (joined ['\n'] (names.map preserveText)) =
        (preserveMarks names,if names = [] then start else word) := by
  cases names with
  | nil => exact ⟨rfl,rfl⟩
  | cons name names =>
    have hnewline : shell.run word ['\n'] = ([.newline],start) := rfl
    have hrest : ∀ parts ∈ names.map preserveText,
        quoting.placed word (.text ['\n']::parts) = true ∧
          (quoting.intend word (.text ['\n']::parts)).2 = word := by
      intro parts hparts
      obtain ⟨other,-,rfl⟩ := List.mem_map.mp hparts
      rw [Templates.Quoting.placed,Templates.Quoting.intend,Templates.Quoting.meant,hnewline]
      obtain ⟨hplaced,hintend⟩ := preserveText_read other
      rw [hplaced,hintend]
      exact ⟨rfl,rfl⟩
    obtain ⟨hplaced,hintend⟩ := preserveText_read name
    obtain ⟨hplaced',hintend'⟩ := quoting.placed_flatMap hrest
    rw [List.map_cons,joined,Templates.Quoting.placed_append,Templates.Quoting.intend_append,hplaced,
      hintend,hplaced',hintend',if_neg (List.cons_ne_nil _ _)]
    refine ⟨rfl,?_⟩
    rw [preserveMarks,List.flatMap_map,List.flatMap_map]
    congr 2
    refine List.flatMap_congr fun other _ => ?_
    rw [Templates.Quoting.intend,Templates.Quoting.meant,hnewline]
    simp only [(preserveText_read other).2]
    rfl

/-- What is read of the script. -/
def scriptMarks (plan : ScriptPlan) (parentPid : ℕ) : List Mark :=
  (shell.run start shellHead).1++(Nat.toDigits 10 parentPid).map .literal++
    (plan.settings.map fun entry => settingLine entry.1.toList entry.2.toList).flatMap
      (Mark.newline::·)++
    ((shell.run word shellStatus).1++(.word::plan.version.toList.map .literal)++
      (shell.run word shellCommands).1)++
    preserveMarks plan.preservedNames++(shell.run word shellEnd).1

theorem head_read (parentPid : ℕ) :
    quoting.placed start [.text shellHead,.text (Nat.toDigits 10 parentPid)] = true ∧
      quoting.intend start [.text shellHead,.text (Nat.toDigits 10 parentPid)] =
        ((shell.run start shellHead).1++(Nat.toDigits 10 parentPid).map .literal,word) := by
  obtain ⟨hhead,-,-⟩ := shellHead_read
  simp only [Templates.Quoting.placed,Templates.Quoting.intend,Templates.Quoting.meant,hhead,
    digits_read,List.append_nil,and_self]

theorem settings_read (plan : ScriptPlan) :
    quoting.placed word (plan.settings.flatMap setText) = true ∧
      quoting.intend word (plan.settings.flatMap setText) =
        ((plan.settings.map fun entry => settingLine entry.1.toList entry.2.toList).flatMap
          (Mark.newline::·),word) := by
  obtain ⟨hplaced,hintend⟩ := quoting.placed_flatMap (k := word) (f := setText)
    (l := plan.settings) fun entry hentry =>
      ⟨(setText_read hentry).1,by rw [(setText_read hentry).2]⟩
  have hlines : plan.settings.flatMap (fun entry => (quoting.intend word (setText entry)).1) =
      plan.settings.flatMap fun entry => .newline::settingLine entry.1.toList entry.2.toList :=
    List.flatMap_congr fun entry hentry => by rw [(setText_read hentry).2]
  rw [hintend,hlines,List.flatMap_map]
  exact ⟨hplaced,rfl⟩

/-- The version stands as a word between the two texts around it. -/
theorem version_read (version : List Char) :
    quoting.placed word [.text shellStatus,.value version,.text shellCommands] = true ∧
      quoting.intend word [.text shellStatus,.value version,.text shellCommands] =
        ((shell.run word shellStatus).1++(.word::version.map .literal)++
          (shell.run word shellCommands).1,start) := by
  obtain ⟨hstatus,-,-,-⟩ := shellStatus_read
  obtain ⟨hcommands,-,-,-,-⟩ := shellCommands_read
  have hready : quoting.ready start = true := rfl
  have hafter : quoting.after start = word := rfl
  simp only [Templates.Quoting.placed,Templates.Quoting.intend,Templates.Quoting.meant,hstatus,
    hready,hafter,hcommands,List.append_nil,Bool.and_self,true_and,List.append_assoc]
  rfl

/-- The end is read alike with names before it and without. -/
theorem end_read {k : State} (hk : k = start ∨ k = word) :
    quoting.placed k [.text shellEnd] = true ∧
      quoting.intend k [.text shellEnd] = ((shell.run word shellEnd).1,start) := by
  obtain ⟨hstart,hword,hmarks,hmarks',-,-⟩ := shellEnd_read
  rcases hk with rfl | rfl
  · simp only [Templates.Quoting.placed,Templates.Quoting.intend,Templates.Quoting.meant,hstart,hmarks,
      hmarks',List.append_nil,and_self]
  · simp only [Templates.Quoting.placed,Templates.Quoting.intend,Templates.Quoting.meant,hword,
      List.append_nil,and_self]

/-- The values of a plan are read as what they are. -/
theorem shellScript_marks (plan : ScriptPlan) (parentPid : ℕ) :
    shell.run start (shellScript plan parentPid) = (scriptMarks plan parentPid,start) := by
  obtain ⟨hhead,hhead'⟩ := head_read parentPid
  obtain ⟨hsettings,hsettings'⟩ := settings_read plan
  obtain ⟨hversion,hversion'⟩ := version_read plan.version.toList
  obtain ⟨hnames,hnames'⟩ := preserve_read plan.preservedNames
  have hstate : (if plan.preservedNames = [] then start else word) = start ∨
      (if plan.preservedNames = [] then start else word) = word := by
    split
    · exact .inl rfl
    · exact .inr rfl
  obtain ⟨hend,hend'⟩ := end_read hstate
  have hplaced : quoting.placed start (shellTemplate plan parentPid) = true := by
    rw [shellTemplate,Templates.Quoting.placed_append,Templates.Quoting.placed_append,
      Templates.Quoting.placed_append,Templates.Quoting.placed_append]
    simp only [Templates.Quoting.intend_append,hhead,hhead',hsettings,hsettings',hversion,hversion',
      hnames,hnames',hend,Bool.and_self]
  rw [shellScript,quoting.run_render hplaced fun _ _ => trivial,shellTemplate]
  simp only [Templates.Quoting.intend_append,hhead',hsettings',hversion',hnames',hend',scriptMarks]

/-! Reading the plan back. -/

section Scan

variable {β : Type*} {f : List Mark → Option β}

/-- The version ends the last line of one text and begins the first of the next. -/
theorem scan_version {line status commands rest version : List Mark}
    (hindented : ∀ rest, f (.gap::rest) = none) (hversion : Mark.newline ∉ version)
    (hcommands : Mark.newline ∉ commands) (hstatus : scan f [] status = ([],.gap::line))
    (hrest : scan f [] rest = ([],[])) :
    scan f [] (status++(version++(commands++.newline::rest))) = ([],[]) := by
  rw [scan_append,hstatus,scan_append,scan_within f hversion,scan_append,scan_within f hcommands]
  simp only [List.cons_append,scan,hindented,hrest,List.nil_append]
  rfl

theorem preserveLine_lines (names : List String) :
    ∀ l ∈ names.map preserveLine, Mark.newline ∉ l := by
  intro l hl
  obtain ⟨name,-,rfl⟩ := List.mem_map.mp hl
  simp [preserveLine]

/-- Every name has its line; without names the line is empty. -/
theorem scan_preserveMarks {found : List β} {last : List Mark} (hblank : f [] = none)
    (hlast : scan f [] last = (found,[])) (names : List String) :
    scan f [] (preserveMarks names++.newline::last) =
      ((names.map preserveLine).filterMap f++found,[]) := by
  cases names with
  | nil => simp [preserveMarks,scan,hblank,hlast]
  | cons name names =>
    have hlines := preserveLine_lines (name::names)
    have hname := hlines _ (List.mem_map_of_mem List.mem_cons_self)
    rw [preserveMarks,List.append_assoc,scan_append,scan_within f hname,scan_lines f
      fun l hl => hlines l (List.mem_cons_of_mem _ hl)]
    simp [hlast]

/-- What is found on the lines of the script, by what is found on those of its texts. -/
theorem scan_scriptMarks {first line : List Mark} {found : List β} (plan : ScriptPlan)
    (parentPid : ℕ) (hblank : f [] = none) (hindented : ∀ rest, f (.gap::rest) = none)
    (hhead : scan f [] (shell.run start shellHead).1 = ([],first))
    (hline : scan f [] statusMarks = ([],.gap::line)) (hrest : scan f [] commandsMarks = ([],[]))
    (hlast : scan f [] endMarks = (found,[])) :
    scan f [] (scriptMarks plan parentPid) =
      (((first++(Nat.toDigits 10 parentPid).map .literal)::
          plan.settings.map fun entry => settingLine entry.1.toList entry.2.toList).filterMap f++
        (plan.preservedNames.map preserveLine).filterMap f++found,[]) := by
  obtain ⟨-,hstatus,-,-⟩ := shellStatus_read
  obtain ⟨-,hcommands,hwithin,-,-⟩ := shellCommands_read
  obtain ⟨-,-,-,hend,-,-⟩ := shellEnd_read
  have hsettings : ∀ l ∈ plan.settings.map (fun entry => settingLine entry.1.toList entry.2.toList),
      Mark.newline ∉ l := by
    intro l hl
    obtain ⟨entry,-,rfl⟩ := List.mem_map.mp hl
    simp [settingLine]
  have hversion : Mark.newline ∉ Mark.word::plan.version.toList.map Mark.literal := by simp
  have hdigits : Mark.newline ∉ (Nat.toDigits 10 parentPid).map Mark.literal := by simp
  rw [scriptMarks,hstatus,hcommands,hend]
  have hsplit : (shell.run start shellHead).1++(Nat.toDigits 10 parentPid).map Mark.literal++
        (plan.settings.map fun entry => settingLine entry.1.toList entry.2.toList).flatMap
          (Mark.newline::·)++
        (Mark.newline::statusMarks++(Mark.word::plan.version.toList.map Mark.literal)++
          (commandsLine++Mark.newline::commandsMarks))++
        preserveMarks plan.preservedNames++Mark.newline::endMarks =
      (shell.run start shellHead).1++((Nat.toDigits 10 parentPid).map Mark.literal++
        ((plan.settings.map fun entry => settingLine entry.1.toList entry.2.toList).flatMap
          (Mark.newline::·)++Mark.newline::
            ((statusMarks++(Mark.word::plan.version.toList.map Mark.literal++
              (commandsLine++Mark.newline::commandsMarks)))++
                (preserveMarks plan.preservedNames++Mark.newline::endMarks)))) := by
    simp only [List.append_assoc,List.cons_append]
  rw [hsplit,scan_append,hhead,scan_append,scan_within f hdigits,scan_lines f hsettings,scan_append,
    scan_version hindented hversion hwithin hline hrest,scan_preserveMarks hblank hlast]
  simp only [List.nil_append,List.append_assoc]

end Scan

theorem setting_settingLine {name value : List Char}
    (hname : ∀ c ∈ name, (c.isAlphanum || c == '_') = true) :
    setting (settingLine name value) = some (name,value) := by
  refine setting_word hname ?_
  exact plainWord_literals true value

theorem setting_preserveLine (name : String) : setting (preserveLine name) = none := by
  have hletters : ∀ c ∈ preserveItem, c ≠ '=' := by decide +kernel
  exact setting_gap hletters _

theorem argument_settingLine (name value : List Char) :
    argument preserveItem (settingLine name value) = none := by
  refine argument_of_no_gap ?_
  simp [settingLine]

theorem argument_preserveLine (name : String) :
    argument preserveItem (preserveLine name) = some name.toList := by
  rw [preserveLine,argument_word]
  exact plainWord_literals false name.toList

/-- The settings of the script, in their order. -/
def scriptSettings (plan : ScriptPlan) (parentPid : ℕ) : List (List Char × List Char) :=
  ("parent_pid".toList,Nat.toDigits 10 parentPid)::
    plan.settings.map (fun entry => (entry.1.toList,entry.2.toList))++
      [("started".toList,['0']),("i".toList,['0'])]

end InstallerTexts
end WormholeObservatory
