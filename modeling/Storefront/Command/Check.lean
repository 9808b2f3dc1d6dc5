import Storefront.Command.Outcome
import Storefront.Files.Access

/-!
# Checking templates

A template is faulty when it has a directive without a place, or cannot be read.
A check prints a line for each complaint about a template, or one that there are
none. A directory is checked file by file and summed up.
-/

namespace Storefront

/-- **A template to check**: its name, and its text if it can be read. -/
structure CheckedFile where
  /-- The name of the file. -/
  name : String
  /-- Its text. -/
  source : Except FileFault String

namespace CheckedFile

/-- What is wrong with a template, if anything. -/
def fault? (f : CheckedFile) : Option Failure :=
  match f.source with
  | .error fault => some (.unreadable f.name fault)
  | .ok source =>
    match Template.check source f.name with
    | .error failure => some failure
    | .ok _ => none

/-- The line for a complaint. -/
def complaint (f : CheckedFile) (d : Diagnostic) : String :=
  "❌ " ++ f.name ++ ":" ++ intText d.line ++ " - " ++ d.message

/-- **The lines printed about a template**; none when it cannot be read. -/
def lines (f : CheckedFile) : List String :=
  match f.source with
  | .error _ => []
  | .ok source =>
    match (Template.parse source).diagnostics with
    | [] => ["✅ " ++ f.name ++ " - No issues found"]
    | ds => ds.map f.complaint

/-- The outcome of checking one template. -/
def outcome (f : CheckedFile) : Outcome :=
  match f.fault? with
  | some failure => .failed (Text.lines f.lines) failure
  | none => .success (Text.lines f.lines) []

end CheckedFile

/-- **A directory to check**: its name and its templates. -/
structure CheckedDirectory where
  /-- The name of the directory. -/
  name : String
  /-- The templates in it. -/
  files : List CheckedFile

namespace CheckedDirectory

/-- How many templates are faulty. -/
def faulty (d : CheckedDirectory) : Nat := d.files.countP fun f => f.fault?.isSome

/-- The lines that sum up. -/
def summary (d : CheckedDirectory) : List String :=
  ["", "📊 Check Summary:", "   Total files: " ++ intText d.files.length,
    "   Files with errors: " ++ intText d.faulty]

/-- **The outcome of checking a directory.** -/
def outcome (d : CheckedDirectory) : Outcome :=
  let text := Text.lines (d.files.flatMap CheckedFile.lines ++ d.summary)
  if d.faulty = 0 then .success text []
  else .failed text (.template d.name 0 (intText d.faulty ++ " files have unmatched directives"))

end CheckedDirectory

end Storefront
