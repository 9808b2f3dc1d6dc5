import Storefront.Command.Run
import Storefront.Files.Memory
import Storefront.Proofs.Reporting

/-!
# The verdict of a check

What a check says about a file is told by what is in the file (`CheckedFile.Prints`), and a file is
faulty when it cannot be read or has a block directive without a place (`CheckedFile.Faulty`). A
directory is told by the files below it (`FileBelow`), each with its own name and the directories on
the way to it. An access to files keeps such a directory when it lists the files in reach in some
order, each of them once, and reads from each what is in it (`FileAccess.Keeps`).

Which files are asked about is stated by their own names (`Config.IsTemplate`), and the counts of a
verdict are counts over the directory, whatever the order in which the files are visited.
-/

namespace Storefront

/-! ## Names -/

namespace FileName

theorem last_append {lead own : List Char} {name : String} (h : name.toList = lead ++ '/' :: own)
    (hplain : '/' ∉ own) : last name = own := by
  rw [last, parts, h, List.splitOn_append_cons_self, List.splitOn_eq_singleton hplain,
    List.map_append, List.map_singleton, List.getLast?_concat, Option.getD_some, String.toList_ofList]

theorem last_of_plain {own : String} (hplain : '/' ∉ own.toList) : last own = own.toList := by
  rw [last, parts, List.splitOn_eq_singleton hplain, List.map_singleton, List.getLast?_singleton,
    Option.getD_some, String.ofList_toList]

/-- The last part of the name of an entry is the entry. -/
theorem last_child (directory : String) {own : String} (hplain : '/' ∉ own.toList) :
    last (child directory own) = own.toList := by
  rw [child]
  split
  · next hslash =>
    obtain ⟨lead, hlead⟩ := List.getLast?_eq_some_iff.1 hslash
    have hname : (directory ++ own).toList = lead ++ '/' :: own.toList := by
      rw [String.toList_append, hlead, List.append_assoc]
      rfl
    exact last_append hname hplain
  · have hname : (directory ++ "/" ++ own).toList = directory.toList ++ '/' :: own.toList := by
      rw [String.toList_append, String.toList_append, List.append_assoc]
      rfl
    exact last_append hname hplain

/-- **The extension of a name** is behind its last point, and something is in front of that. -/
def HasExtension (own extension : String) : Prop :=
  ∃ stem, stem ≠ "" ∧ own = stem ++ "." ++ extension ∧ '.' ∉ extension.toList

theorem extension?_eq_some_iff {name own extension : String} (h : last name = own.toList) :
    extension? name = some extension ↔ HasExtension own extension := by
  rw [extension?, h]
  constructor
  · intro hextension
    split at hextension
    · next c lead tail hcut =>
      cases hextension
      obtain ⟨hown, htail⟩ := Text.cutAtLast?_eq_some_iff.1 hcut
      refine ⟨String.ofList (c :: lead), ?_, String.toList_injective ?_, by simpa using htail⟩
      · exact fun hempty => List.cons_ne_nil c lead (String.ofList_eq_empty_iff.1 hempty)
      · rw [hown]
        simp
    · cases hextension
  · rintro ⟨stem, hstem, rfl, hpoint⟩
    have hcut : Text.cutAtLast? '.' (stem ++ "." ++ extension).toList =
        some (stem.toList, extension.toList) := by
      refine Text.cutAtLast?_eq_some_iff.2 ⟨?_, hpoint⟩
      rw [String.toList_append, String.toList_append, List.append_assoc]
      rfl
    rw [hcut]
    cases hlist : stem.toList with
    | nil => exact absurd (String.toList_eq_nil_iff.1 hlist) hstem
    | cons c lead => exact congrArg some String.ofList_toList

end FileName

namespace Config

/-- The extensions that are asked for: those given, if any are, and else the usual ones. -/
def askedFor (c : Config) : List String :=
  match c.templateExtensions with
  | none | some [] => ["hbs", "html", "tpl"]
  | some given => given

/-- An extension without the points in front of it. -/
def withoutPoints (extension : String) : String :=
  String.ofList (extension.toList.dropWhile (· == '.'))

/-- **A name is that of a template** if its extension is asked for, whatever the case of its letters. -/
def IsTemplate (c : Config) (own : String) : Prop :=
  ∃ extension, FileName.HasExtension own extension ∧
    ∃ wanted ∈ c.askedFor, Text.asciiLower (withoutPoints wanted) = Text.asciiLower extension

theorem extensions_eq (c : Config) : c.extensions = c.askedFor.map normalizedExtension := by
  have husual : usualExtensions = ["hbs", "html", "tpl"].map normalizedExtension := by decide
  rw [extensions, askedFor]
  cases c.templateExtensions with
  | none => exact husual
  | some given =>
    cases given with
    | nil => exact husual
    | cons wanted rest => rfl

theorem sameLetters_normalizedExtension {wanted extension : String} :
    Text.sameLetters (normalizedExtension wanted) extension = true ↔
      Text.asciiLower (withoutPoints wanted) = Text.asciiLower extension := by
  rw [Text.sameLetters_iff, normalizedExtension, Text.asciiLower_asciiLower, withoutPoints]

/-- **The files that a check counts are the templates.** -/
theorem endsIn_extensions_iff (c : Config) {name own : String}
    (h : FileName.last name = own.toList) :
    FileName.endsIn c.extensions name = true ↔ c.IsTemplate own := by
  simp only [FileName.endsIn, Option.any_eq_true, FileName.extension?_eq_some_iff h, extensions_eq,
    List.any_map, List.any_eq_true, Function.comp_apply, sameLetters_normalizedExtension, IsTemplate]

end Config

/-! ## Files -/

theorem Template.diagnostics_eq_nil_iff (source : String) :
    (parse source).diagnostics = [] ↔ Item.strays (Item.ofTemplate source) = [] :=
  Item.diagnostics_eq_nil_iff_strays (Item.formed_ofTemplate source)

namespace CheckedFile

/-- **A file is faulty** if it cannot be read, or has a block directive without a place. -/
def Faulty (f : CheckedFile) : Prop :=
  match f.source with
  | .error _ => True
  | .ok source => Item.strays (Item.ofTemplate source) ≠ []

/-- **What is printed about a file**: nothing if it cannot be read, a line for each block directive
without a place if there are any, and else the one line that says that there are none. -/
inductive Prints (f : CheckedFile) : List String → Prop
  | nothing {fault} (h : f.source = .error fault) : Prints f []
  | fine {source} (h : f.source = .ok source) (hstrays : Item.strays (Item.ofTemplate source) = []) :
      Prints f ["✅ " ++ f.name ++ " - No issues found"]
  | complaints {source ts} (h : f.source = .ok source)
      (hdiagnostics : (Template.parse source).diagnostics = ts.map Token.complaint)
      (hstrays : ts.Perm (Item.strays (Item.ofTemplate source))) (hne : ts ≠ []) :
      Prints f (ts.map fun t =>
        "❌ " ++ f.name ++ ":" ++ intText t.line ++ " - " ++ t.complaint.message)

theorem isSome_fault?_iff (f : CheckedFile) : f.fault?.isSome = true ↔ f.Faulty := by
  rw [fault?, Faulty]
  cases f.source with
  | error fault => exact iff_of_true rfl trivial
  | ok source =>
    dsimp only
    rw [ne_eq, ← Template.diagnostics_eq_nil_iff]
    cases hdiagnostics : (Template.parse source).diagnostics with
    | nil =>
      rw [Template.check_of_nil hdiagnostics]
      exact iff_of_false Bool.false_ne_true fun h => h rfl
    | cons d ds =>
      rw [Template.check_of_cons hdiagnostics]
      exact iff_of_true rfl (List.cons_ne_nil d ds)

instance : DecidablePred Faulty := fun f => decidable_of_iff _ f.isSome_fault?_iff

theorem prints_lines (f : CheckedFile) : f.Prints f.lines := by
  rw [lines]
  cases hsource : f.source with
  | error fault => exact .nothing hsource
  | ok source =>
    have hreported : (Template.parse source).diagnostics =
        (Item.reported (Item.ofTemplate source)).map Token.complaint := Item.diagnostics_eq _
    dsimp only
    split
    · next hnil => exact .fine hsource ((Template.diagnostics_eq_nil_iff source).1 hnil)
    · next hne =>
      have hsome : Item.reported (Item.ofTemplate source) ≠ [] := fun hnil =>
        hne (by rw [hreported, hnil, List.map_nil])
      rw [hreported, List.map_map]
      exact .complaints hsource hreported (Item.reported_perm (Item.formed_ofTemplate source)) hsome

/-- What can be wrong with a template never stops the program. -/
theorem exitCode_of_fault? {f : CheckedFile} {failure : Failure} (h : f.fault? = some failure) :
    failure.exitCode = 1 := by
  rw [fault?] at h
  split at h
  · obtain rfl := Option.some.inj h
    rfl
  · next source _ =>
    cases hdiagnostics : (Template.parse source).diagnostics with
    | nil =>
      rw [Template.check_of_nil hdiagnostics] at h
      cases h
    | cons d ds =>
      rw [Template.check_of_cons hdiagnostics] at h
      obtain rfl := Option.some.inj h
      rfl

/-- **The outcome for one file.** -/
theorem outcome_eq (f : CheckedFile) :
    f.outcome.output = Text.lines f.lines ∧ f.outcome.exitCode = if f.Faulty then 1 else 0 := by
  have hfaulty := f.isSome_fault?_iff
  rw [outcome]
  cases hfault : f.fault? with
  | none =>
    rw [hfault] at hfaulty
    exact ⟨rfl, (if_neg fun h => Bool.false_ne_true (hfaulty.2 h)).symm⟩
  | some failure =>
    rw [hfault] at hfaulty
    exact ⟨rfl, (exitCode_of_fault? hfault).trans (if_pos (hfaulty.1 rfl)).symm⟩

end CheckedFile

/-! ## Directories -/

/-- **A file below a directory.** -/
structure FileBelow where
  /-- The directories on the way to it. -/
  way : List String
  /-- Its own name. -/
  own : String
  /-- Its text, if it can be read. -/
  source : Except FileFault String
  /-- No name in a directory has a slash in it. -/
  plain : ∀ part ∈ own :: way, '/' ∉ part.toList

namespace FileBelow

variable (directory : String) (recursive : Bool) (c : Config) (f : FileBelow)

/-- The whole name of a file. -/
def name : String := FileName.child (f.way.foldl FileName.child directory) f.own

/-- The file as one to check. -/
def checked : CheckedFile := ⟨f.name directory, f.source⟩

/-- **A file is in reach** if it is in the directory itself, or all that is below it is looked at. -/
def InReach : Prop := recursive = true ∨ f.way = []

instance : DecidablePred (InReach recursive) := fun _ => inferInstanceAs (Decidable (_ ∨ _))

theorem endsIn_iff : FileName.endsIn c.extensions (f.name directory) = true ↔ c.IsTemplate f.own :=
  c.endsIn_extensions_iff (FileName.last_child _ (f.plain f.own List.mem_cons_self))

instance : DecidablePred fun f : FileBelow => c.IsTemplate f.own := fun f =>
  decidable_of_iff (FileName.endsIn c.extensions f.own)
    (c.endsIn_extensions_iff (FileName.last_of_plain (f.plain f.own List.mem_cons_self)))

/-- **A file counts in a check** if it is in reach and has the name of a template. -/
def Counts : Prop := f.InReach recursive ∧ c.IsTemplate f.own

instance : DecidablePred (Counts recursive c) := fun _ => inferInstanceAs (Decidable (_ ∧ _))

end FileBelow

namespace FileAccess

variable {σ : Type}

/-- **An access to files keeps a directory**, in a state that it leaves as it is: it lists the files in
reach in some order, each once, and reads from each what is in it. -/
structure Keeps (fs : FileAccess (StateM σ)) (s : σ) (directory : String) (recursive : Bool)
    (files : List FileBelow) : Prop where
  isDirectory : (fs.isDirectory directory).run s = (true, s)
  reads : ∀ f ∈ files, (fs.read (f.name directory)).run s = (f.source, s)
  lists : ∃ visited : List FileBelow, visited.Perm (files.filter fun f => f.InReach recursive) ∧
    (fs.list directory recursive).run s = (visited.map (FileBelow.name directory), s)

end FileAccess

/-- **The verdict on a directory**: what was printed about its templates, how many they are, and how
many of them are faulty. -/
structure CheckedDirectory.Verdict (directory : String) (blocks : List (List String))
    (total faulty : Nat) (o : Outcome) : Prop where
  output : o.output = Text.lines (blocks.flatten ++ ["", "📊 Check Summary:",
    "   Total files: " ++ intText total, "   Files with errors: " ++ intText faulty])
  exitCode : o.exitCode = if 0 < faulty then 1 else 0
  reports : o.reports = if 0 < faulty then
      [(Failure.template directory 0 (intText faulty ++ " files have unmatched directives")).report]
    else []

theorem CheckedDirectory.verdict_outcome (d : CheckedDirectory) :
    Verdict d.name (d.files.map CheckedFile.lines) d.files.length
      (d.files.countP fun f => decide f.Faulty) d.outcome := by
  have hfaulty : (d.files.countP fun f => decide f.Faulty) = d.faulty :=
    List.countP_congr fun f _ => decide_eq_true_iff.trans f.isSome_fault?_iff.symm
  rw [hfaulty, outcome, List.flatMap_def, summary]
  split
  · next hzero =>
    have hnot : ¬ 0 < d.faulty := by rw [hzero]; exact Nat.lt_irrefl 0
    exact ⟨rfl, (if_neg hnot).symm, (if_neg hnot).symm⟩
  · next hne =>
    have hpos := Nat.pos_of_ne_zero hne
    exact ⟨rfl, (if_pos hpos).symm, (if_pos hpos).symm⟩

namespace Command

variable {σ : Type} {fs : FileAccess (StateM σ)} {s : σ}

/-- What comes behind a step that leaves the state as it is. -/
theorem run_bind_eq {α β : Type} {x : StateM σ α} {a : α} (h : x.run s = (a, s)) (f : α → StateM σ β) :
    (x >>= f).run s = (f a).run s := by
  show (f (x.run s).1).run (x.run s).2 = (f a).run s
  rw [h]

theorem run_checkedFile {name : String} {source : Except FileFault String}
    (h : (fs.read name).run s = (source, s)) : (checkedFile fs name).run s = (⟨name, source⟩, s) :=
  run_bind_eq h _

/-- Reading files one after another gives each its text. -/
theorem run_mapM_checkedFile {directory : String} {files : List FileBelow}
    (h : ∀ f ∈ files, (fs.read (f.name directory)).run s = (f.source, s)) :
    (((files.map (FileBelow.name directory)).mapM (checkedFile fs)).run s) =
      (files.map (FileBelow.checked directory), s) := by
  induction files with
  | nil => rfl
  | cons f files ih =>
    obtain ⟨hf, hfiles⟩ := List.forall_mem_cons.1 h
    rw [List.map_cons, List.mapM_cons, run_bind_eq (run_checkedFile hf), run_bind_eq (ih hfiles)]
    rfl

theorem run_runCheck_directory (config : Config) {input : String} {recursive : Bool}
    {files : List FileBelow} (h : fs.Keeps s input recursive files) :
    ∃ templates : List FileBelow, templates.Perm (files.filter fun f => f.Counts recursive config) ∧
      (runCheck fs config input recursive).run s =
        (CheckedDirectory.outcome ⟨input, templates.map (FileBelow.checked input)⟩, s) := by
  obtain ⟨visited, hperm, hlist⟩ := h.lists
  have htemplates : (visited.map (FileBelow.name input)).filter (FileName.endsIn config.extensions) =
      (visited.filter fun f => config.IsTemplate f.own).map (FileBelow.name input) := by
    rw [List.filter_map]
    congr 1
    refine List.filter_congr fun f _ => ?_
    rw [Function.comp_apply, Bool.eq_iff_iff, f.endsIn_iff, decide_eq_true_iff]
  refine ⟨visited.filter fun f => config.IsTemplate f.own, ?_, ?_⟩
  · refine (hperm.filter _).trans (List.Perm.of_eq ?_)
    rw [List.filter_filter]
    exact List.filter_congr fun f _ => (Bool.and_comm _ _).trans (Bool.decide_and _ _).symm
  · have hreads : ∀ f ∈ visited.filter fun f => config.IsTemplate f.own,
        (fs.read (f.name input)).run s = (f.source, s) := fun f hf =>
      h.reads f (List.mem_filter.1 (hperm.subset (List.mem_filter.1 hf).1)).1
    rw [runCheck, run_bind_eq h.isDirectory, if_pos rfl, run_bind_eq hlist]
    dsimp only
    rw [htemplates, run_bind_eq (run_mapM_checkedFile hreads)]
    rfl

theorem run_runCheck_file {config : Config} {input : String} {recursive : Bool}
    {source : Except FileFault String} (hplain : (fs.isDirectory input).run s = (false, s))
    (hread : (fs.read input).run s = (source, s)) :
    (runCheck fs config input recursive).run s = (CheckedFile.outcome ⟨input, source⟩, s) := by
  rw [runCheck, run_bind_eq hplain, if_neg Bool.false_ne_true, run_bind_eq (run_checkedFile hread)]
  rfl

theorem run_check {config : Config} {input : String} {recursive : Bool} {o : Outcome}
    (h : (runCheck fs config input recursive).run s = (o, s)) :
    (run fs config (.check input recursive)).run.run s = (.ok o, s) := by
  show (Except.ok ((runCheck fs config input recursive).run s).1,
    ((runCheck fs config input recursive).run s).2) = (Except.ok o, s)
  rw [h]

/-- **The verdict of a check**, for any access to files, configuration, and setting. A directory that
is kept gives the lines of its templates in reach, each of them once, and the verdict counts these
templates, and those of them that are faulty; it is a failure exactly when some of them are. A file
gives its own lines, and a failure exactly when it is faulty: when it cannot be read, or when parsing
it gives a diagnostic. -/
theorem check_verdict (fs : FileAccess (StateM σ)) (s : σ) (config : Config) (input : String)
    (recursive : Bool) :
    (∀ files, fs.Keeps s input recursive files → ∃ (outcome : Outcome) (visited : List FileBelow)
        (blocks : List (List String)),
      (run fs config (.check input recursive)).run.run s = (.ok outcome, s) ∧
      visited.Perm (files.filter fun f => f.Counts recursive config) ∧
      List.Forall₂ (fun f => CheckedFile.Prints (f.checked input)) visited blocks ∧
      CheckedDirectory.Verdict input blocks
        (files.countP fun f => f.Counts recursive config)
        (files.countP fun f => f.Counts recursive config ∧ (f.checked input).Faulty) outcome) ∧
    ∀ source, (fs.isDirectory input).run s = (false, s) → (fs.read input).run s = (source, s) →
      ∃ outcome lines, (run fs config (.check input recursive)).run.run s = (.ok outcome, s) ∧
        CheckedFile.Prints ⟨input, source⟩ lines ∧ outcome.output = Text.lines lines ∧
        (outcome.exitCode = if CheckedFile.Faulty ⟨input, source⟩ then 1 else 0) ∧
        ∀ text, source = .ok text → (outcome.exitCode = 1 ↔ (Template.parse text).diagnostics ≠ []) := by
  refine ⟨fun files hkeeps => ?_, fun source hplain hread => ?_⟩
  · obtain ⟨templates, hperm, hrun⟩ := run_runCheck_directory config hkeeps
    have hverdict := CheckedDirectory.verdict_outcome
      ⟨input, templates.map (FileBelow.checked input)⟩
    refine ⟨_, templates, templates.map fun f => (f.checked input).lines, run_check hrun, hperm, ?_, ?_⟩
    · rw [List.forall₂_map_right_iff]
      exact List.forall₂_same.2 fun f _ => (f.checked input).prints_lines
    · have htotal : templates.length = files.countP fun f => f.Counts recursive config := by
        rw [hperm.length_eq, List.countP_eq_length_filter]
      have hfaulty : (templates.map (FileBelow.checked input)).countP (fun f => decide f.Faulty) =
          files.countP fun f => f.Counts recursive config ∧ (f.checked input).Faulty := by
        rw [List.countP_map, hperm.countP_eq, List.countP_filter]
        exact List.countP_congr fun f _ => by simp [and_comm]
      rw [List.map_map, List.length_map, htotal, hfaulty] at hverdict
      exact hverdict
  · refine ⟨_, _, run_check (run_runCheck_file hplain hread), CheckedFile.prints_lines _,
      (CheckedFile.outcome_eq _).1, (CheckedFile.outcome_eq _).2, ?_⟩
    rintro text rfl
    rw [(CheckedFile.outcome_eq _).2, ne_eq, Template.diagnostics_eq_nil_iff]
    split
    · next hfaulty => exact iff_of_true rfl hfaulty
    · next hsound => exact iff_of_false Nat.zero_ne_one hsound

end Command

/-! ## A shop to check -/

theorem Files.keeps_of {kept : Files} {directory : String} {recursive : Bool}
    {files visited : List FileBelow} (hdirectory : kept.isDirectory directory = true)
    (hread : ∀ f ∈ files, kept.read (f.name directory) = f.source)
    (hvisited : visited.Perm (files.filter fun f => f.InReach recursive))
    (hlist : kept.list directory recursive = visited.map (FileBelow.name directory)) :
    access.Keeps kept directory recursive files where
  isDirectory := congrArg (·, kept) hdirectory
  reads f hf := congrArg (·, kept) (hread f hf)
  lists := ⟨visited, hvisited, congrArg (·, kept) hlist⟩

namespace Command

/-- A template with notes beside it, and a faulty template in a directory below. -/
def shop : List FileBelow :=
  [⟨[], "good.hbs", .ok (Lexeme.braced "a"), by decide⟩,
    ⟨[], "notes.txt", .ok (Lexeme.braced "/if"), by decide⟩,
    ⟨["parts"], "BAD.HTML", .ok (Lexeme.braced "/if" ++ Lexeme.braced "else"), by decide⟩]

/-- The shop in memory. -/
def shopFiles : Files := .ofList (shop.map fun f => (f.name "shop", f.source.toOption.getD ""))

/-- The shop has one good template, and a faulty one when what is below is looked at; its notes are
no template, and faulty when they are asked about by name. -/
theorem check_verdict_shop :
    let config : Config := { templateExtensions := some [".HBS", "html"] }
    (∃ o blocks, (run Files.access config (.check "shop" false)).run.run shopFiles = (.ok o, shopFiles) ∧
      CheckedDirectory.Verdict "shop" blocks 1 0 o) ∧
    (∃ o blocks, (run Files.access config (.check "shop" true)).run.run shopFiles = (.ok o, shopFiles) ∧
      CheckedDirectory.Verdict "shop" blocks 2 1 o) ∧
    ∃ o, (run Files.access config (.check "shop/notes.txt" false)).run.run shopFiles = (.ok o, shopFiles) ∧
      o.exitCode = 1 := by
  intro config
  have hdirectory : shopFiles.isDirectory "shop" = true := by decide +kernel
  have hread : ∀ f ∈ shop, shopFiles.read (f.name "shop") = f.source := by decide +kernel
  have hflat : Files.access.Keeps shopFiles "shop" false shop :=
    Files.keeps_of hdirectory hread (.refl _) (by decide +kernel)
  have hdeep : Files.access.Keeps shopFiles "shop" true shop :=
    Files.keeps_of hdirectory hread (.refl _) (by decide +kernel)
  refine ⟨?_, ?_, ?_⟩
  · obtain ⟨o, visited, blocks, hrun, -, -, hverdict⟩ :=
      (check_verdict Files.access shopFiles config "shop" false).1 shop hflat
    have htotal : (shop.countP fun f => f.Counts false config) = 1 := by decide +kernel
    have hfaulty : (shop.countP fun f => f.Counts false config ∧ (f.checked "shop").Faulty) = 0 := by
      decide +kernel
    rw [htotal, hfaulty] at hverdict
    exact ⟨o, blocks, hrun, hverdict⟩
  · obtain ⟨o, visited, blocks, hrun, -, -, hverdict⟩ :=
      (check_verdict Files.access shopFiles config "shop" true).1 shop hdeep
    have htotal : (shop.countP fun f => f.Counts true config) = 2 := by decide +kernel
    have hfaulty : (shop.countP fun f => f.Counts true config ∧ (f.checked "shop").Faulty) = 1 := by
      decide +kernel
    rw [htotal, hfaulty] at hverdict
    exact ⟨o, blocks, hrun, hverdict⟩
  · have hplain : shopFiles.isDirectory "shop/notes.txt" = false := by decide +kernel
    have hnotes : shopFiles.read "shop/notes.txt" = .ok (Lexeme.braced "/if") := by decide +kernel
    obtain ⟨o, lines, hrun, -, -, hcode, -⟩ :=
      (check_verdict Files.access shopFiles config "shop/notes.txt" false).2 _
        (congrArg (·, shopFiles) hplain) (congrArg (·, shopFiles) hnotes)
    have hfaulty : CheckedFile.Faulty ⟨"shop/notes.txt", .ok (Lexeme.braced "/if")⟩ := by
      decide +kernel
    rw [if_pos hfaulty] at hcode
    exact ⟨o, hrun, hcode⟩

end Command

end Storefront
