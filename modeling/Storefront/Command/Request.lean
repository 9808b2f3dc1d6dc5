import Storefront.Command.Arguments

/-!
# What is asked for

A request is a command with its options, or the version. `Request.ofArguments?`
reads it from the command line; wrong arguments are no request.
-/

namespace Storefront

/-- **What a page is rendered or shown with**: a bundle, and what overrides it. -/
structure PageArguments where
  /-- The file with the page bundle. -/
  data : String
  /-- A locale that overrides those of the bundle and the configuration. -/
  locale : Option String
  /-- A currency that overrides those of the settings and the store. -/
  currency : Option String
  deriving DecidableEq

/-- **A command.** -/
inductive Command where
  /-- Renders a template. -/
  | render (template : String) (page : PageArguments) (output : Option String) (stats watch : Bool)
  /-- Prints the context of a page, on one line or over several. -/
  | context (page : PageArguments) (oneLine : Bool)
  /-- Checks a template, or the templates in a directory. -/
  | check (input : String) (recursive : Bool)
  deriving DecidableEq

/-- **A request.** -/
inductive Request where
  /-- The version of the program. -/
  | version
  /-- A command, or none, under a configuration. -/
  | command (config : Option String) (command : Option Command)
  deriving DecidableEq

namespace Command

/-- The options that override those of a page. -/
def pageOptions : List OptionSpec := [⟨"locale", some 'l', .value⟩, ⟨"currency", none, .value⟩]

/-- The options of `render`. -/
def renderOptions : List OptionSpec :=
  pageOptions ++ [⟨"data", some 'd', .value⟩, ⟨"output", some 'o', .value⟩, ⟨"stats", none, .flag⟩,
    ⟨"watch", some 'w', .flag⟩]

/-- The options of `context`. -/
def contextOptions : List OptionSpec := pageOptions ++ [⟨"format", some 'f', .value⟩]

/-- The options of `check`. -/
def checkOptions : List OptionSpec := [⟨"recursive", some 'r', .flag⟩]

/-- The page that options are about. -/
def page (given : List Given) (data : String) : PageArguments :=
  ⟨data, Arguments.value? given "locale", Arguments.value? given "currency"⟩

/-- `render`: one operand, the template, and a bundle. -/
def render? (given : List Given) : Option Command :=
  match Arguments.operands given, Arguments.value? given "data" with
  | [template], some data =>
    some (.render template (page given data) (Arguments.value? given "output")
      (Arguments.has given "stats") (Arguments.has given "watch"))
  | _, _ => none

/-- `context`: one operand, the bundle. -/
def context? (given : List Given) : Option Command :=
  match Arguments.operands given, Arguments.value? given "format" with
  | [data], none | [data], some "pretty" => some (.context (page given data) false)
  | [data], some "json" => some (.context (page given data) true)
  | _, _ => none

/-- `check`: one operand, a file or a directory. -/
def check? (given : List Given) : Option Command :=
  match Arguments.operands given with
  | [input] => some (.check input (Arguments.has given "recursive"))
  | _ => none

/-- **The command that arguments name**, with its own arguments. -/
def ofArguments? (name : String) (args : List String) : Option Command :=
  match name with
  | "render" => (Arguments.read? renderOptions false args).bind fun given => render? given.1
  | "context" => (Arguments.read? contextOptions false args).bind fun given => context? given.1
  | "check" => (Arguments.read? checkOptions false args).bind fun given => check? given.1
  | _ => none

end Command

namespace Request

/-- The options before the command. -/
def options : List OptionSpec :=
  [⟨"config", some 'c', .value⟩, ⟨"verbose", some 'v', .counted⟩, ⟨"version", some 'V', .final⟩]

/-- **The request that a command line makes**, if its arguments are right. -/
def ofArguments? (args : List String) : Option Request :=
  match Arguments.read? options true args with
  | none => none
  | some (given, rest) =>
    if Arguments.has given "version" then some .version
    else
      let config := Arguments.value? given "config"
      match rest with
      | [] => some (.command config none)
      | name :: args => (Command.ofArguments? name args).map fun c => .command config (some c)

end Request

end Storefront
