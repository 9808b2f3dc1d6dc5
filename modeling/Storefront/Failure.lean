import Storefront.Numeric.Print
import Storefront.Template.Grouping

/-!
# Failures

Rendering never fails: malformed templates and odd page data degrade to literal
text or to nothing. What can fail is the reading of files, the decoding of
configuration and bundles, and the check of a template. A header whose cart has
more units than can be counted stops the program. Each cause has one wording.
-/

namespace Storefront

/-- **Why a file could not be read or written.** -/
inductive FileFault where
  /-- There is no such file. -/
  | missing
  /-- A directory is where a file should be. -/
  | isDirectory
  /-- A file is where a directory should be. -/
  | notDirectory
  /-- The file may not be touched. -/
  | denied
  /-- The name, or a part of it, has more bytes than names may have. -/
  | nameTooLong
  /-- The name holds a NUL character. -/
  | nulInName
  /-- The file holds bytes that are no text. -/
  | notText
  /-- Anything else that the system reports, by its own words and number. -/
  | other (details : String) (code : Nat)
  deriving DecidableEq

namespace FileFault

/-- The wording of a fault. -/
def message : FileFault → String
  | .missing => "No such file or directory (os error 2)"
  | .isDirectory => "Is a directory (os error 21)"
  | .notDirectory => "Not a directory (os error 20)"
  | .denied => "Permission denied (os error 13)"
  | .nameTooLong => "File name too long (os error 36)"
  | .nulInName => "file name contained an unexpected NUL byte"
  | .notText => "stream did not contain valid UTF-8"
  | .other details code => details ++ " (os error " ++ intText code ++ ")"

end FileFault

/-- **Why a command fails.** -/
inductive Failure where
  /-- A file could not be written. -/
  | unwritable (fault : FileFault)
  /-- A file could not be read; `label` says which. -/
  | unreadable (label : String) (fault : FileFault)
  /-- A file is no page bundle. -/
  | invalidBundle (path : String)
  /-- The configuration is not what its format, `JSON` or `TOML`, allows. -/
  | invalidConfig (format : String)
  /-- The name of the configuration file tells no format. -/
  | unknownConfigFormat
  /-- A file is not the `store` or the `settings` it should be. -/
  | invalidPart (part path : String)
  /-- A template has directives without a place. -/
  | template (file : String) (line : Nat) (message : String)
  /-- The badge of a header has no count. -/
  | uncounted
  deriving DecidableEq

namespace Failure

/-- **The wording of a failure.** -/
def message : Failure → String
  | .unwritable fault => fault.message
  | .unreadable label fault => "File not found: " ++ label ++ ": " ++ fault.message
  | .invalidBundle path => "Context error: Invalid page bundle " ++ path ++ ":"
  | .invalidConfig format => "Invalid format: Invalid " ++ format ++ " config:"
  | .unknownConfigFormat => "Invalid format: Config file must be .json or .toml format"
  | .invalidPart part path => "Invalid format: Invalid " ++ part ++ " JSON in " ++ path ++ ":"
  | .template file line message =>
    "Template error in " ++ file ++ " at line " ++ intText line ++ ": " ++ message
  | .uncounted => "attempt to add with overflow"

/-- The line that reports a failure. -/
def report (f : Failure) : String :=
  match f with
  | .unwritable _ => "IO Error: " ++ f.message
  | .uncounted => f.message
  | _ => "Error: " ++ f.message

/-- The exit code of a failure: 101 when the program was stopped. -/
def exitCode : Failure → Nat
  | .uncounted => 101
  | _ => 1

end Failure

namespace Template

/-- **A template without complaints**; otherwise the first complaint is the failure. -/
def check (source file : String) : Except Failure Template :=
  let t := parse source
  match t.diagnostics with
  | [] => .ok t
  | d :: _ => .error (.template file d.line d.message)

end Template

end Storefront
