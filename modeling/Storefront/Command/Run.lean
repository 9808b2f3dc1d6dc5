import Storefront.About
import Storefront.Command.Check
import Storefront.Command.Request
import Storefront.Config.Config
import Storefront.Json.Writer
import Storefront.Page.Bundle
import Storefront.Toml.Reader

/-!
# Running commands

A command runs over any access to files. What it needs is read in a fixed order,
and the first thing that cannot be read is its failure: the configuration, the
page bundle, the files that take the place of its store and settings, and last
the template.
-/

namespace Storefront

variable {m : Type → Type} [Monad m]

/-! ## Reading what commands need -/

namespace FileAccess

/-- The text of a file; `label` names it in a failure. -/
def text (fs : FileAccess m) (name label : String) : ExceptT Failure m String :=
  ExceptT.mk do
    match ← fs.read name with
    | .ok s => return .ok s
    | .error fault => return .error (.unreadable label fault)

end FileAccess

namespace Config

/-- **The configuration in the text of a file**, by the format that its name tells. -/
def ofFile (name source : String) : Except Failure Config :=
  if Text.endsWith ".json".toList name.toList then
    match decoder.read? source with
    | some c => .ok c
    | none => .error (.invalidConfig "JSON")
  else if Text.endsWith ".toml".toList name.toList then
    match (Toml.read? source).bind fun t => decoder Document.nestingLimit t.toDocument with
    | some c => .ok c
    | none => .error (.invalidConfig "TOML")
  else .error .unknownConfigFormat

/-- The configuration in a file, or the empty one without a file. -/
def load (fs : FileAccess m) : Option String → ExceptT Failure m Config
  | none => return {}
  | some name => do
    let source ← fs.text name ("Config file " ++ name)
    ofFile name source

/-- The options of pages under a configuration and what overrides it. -/
def optionsFor (c : Config) (page : PageArguments) : PageOptions :=
  let options := c.options
  { options with
    locale := (page.locale.map Locale.ofTag).getD options.locale,
    currency := page.currency.or options.currency }

end Config

namespace PageBundle

/-- A part of a bundle: its own, or that of a file in its place. -/
def part {α : Type} (fs : FileAccess m) (kind : String) (d : Decoder α) (own : α) :
    Option String → ExceptT Failure m α
  | none => return own
  | some name => do
    let source ← fs.text name (kind ++ " file " ++ name)
    match d.read? source with
    | some a => return a
    | none => throw (.invalidPart kind name)

/-- **The bundle that a command is about**: from its file, with the store and the settings that the
configuration puts in place of its own, and with the locale that overrides its own. -/
def load (fs : FileAccess m) (config : Config) (page : PageArguments) : ExceptT Failure m PageBundle := do
  let source ← fs.text page.data page.data
  match decoder.read? source with
  | none => throw (.invalidBundle page.data)
  | some bundle =>
    let store ← part fs "store" Store.decoder bundle.store config.storeFile
    let settings ← part fs "settings" Settings.decoder bundle.settings config.settingsFile
    return { bundle with store, settings, locale := page.locale.or bundle.locale }

end PageBundle

/-! ## Commands -/

namespace RenderedPage

/-- The lines that say what there is to count about a page. -/
def stats (p : RenderedPage) : List String :=
  ["Render statistics:", "   Template: " ++ intText p.templateSize ++ " bytes",
    "   Output: " ++ intText p.outputSize ++ " bytes", "   Variables: " ++ intText p.variableCount,
    "   Unmatched directives: " ++ intText p.diagnosticCount]

end RenderedPage

namespace Command

/-- A result, or the failure for the lack of a count. -/
def counted {α : Type} (result : Option α) : Except Failure α := result.elim (.error .uncounted) .ok

/-- Renders a template, to a file or as the text printed. -/
def runRender (fs : FileAccess m) (config : Config) (template : String) (page : PageArguments)
    (output : Option String) (stats : Bool) : ExceptT Failure m Outcome := do
  let bundle ← PageBundle.load fs config page
  let source ← fs.text template template
  let rendered ← counted (bundle.render? source (config.optionsFor page))
  let reports := if stats then rendered.stats else []
  match output with
  | none => return .success (rendered.html ++ "\n") reports
  | some name =>
    match ← fs.write name rendered.html with
    | .ok () => return .success "" reports
    | .error fault => throw (.unwritable fault)

/-- Prints the context of a page. -/
def runContext (fs : FileAccess m) (config : Config) (page : PageArguments) (oneLine : Bool) :
    ExceptT Failure m Outcome := do
  let bundle ← PageBundle.load fs config page
  let context ← counted (bundle.context? (config.optionsFor page))
  let shown : Value := .obj context.flatten
  return .success ((if oneLine then Json.compact shown else Json.pretty 0 shown) ++ "\n") []

/-- A file with its text, for a check. -/
def checkedFile (fs : FileAccess m) (name : String) : m CheckedFile := return ⟨name, ← fs.read name⟩

/-- Checks a template, or the templates in a directory. -/
def runCheck (fs : FileAccess m) (config : Config) (input : String) (recursive : Bool) : m Outcome := do
  if ← fs.isDirectory input then
    let names := (← fs.list input recursive).filter (FileName.endsIn config.extensions)
    let files ← names.mapM (checkedFile fs)
    return CheckedDirectory.outcome ⟨input, files⟩
  else
    return (← checkedFile fs input).outcome

/-- **Runs a command** under a configuration. -/
def run (fs : FileAccess m) (config : Config) : Command → ExceptT Failure m Outcome
  | .render template page output stats _ => runRender fs config template page output stats
  | .context page oneLine => runContext fs config page oneLine
  | .check input recursive => ExceptT.lift (runCheck fs config input recursive)

end Command

namespace Request

/-- What is printed when no command is given. -/
def hint : String := "No subcommand specified. Use --help for usage information."

/-- **Runs a request.** -/
def run (fs : FileAccess m) : Request → m Outcome
  | .version => return .success (About.name ++ " " ++ About.version ++ "\n") []
  | .command file asked => Outcome.ofExcept <$> ExceptT.run do
    let config ← Config.load fs file
    match asked with
    | none => return .success (hint ++ "\n") []
    | some c => c.run fs config

end Request

/-- **The program**: runs what a command line asks for. -/
def runArguments (fs : FileAccess m) (args : List String) : m Outcome :=
  match Request.ofArguments? args with
  | some request => request.run fs
  | none => return .refused

end Storefront
