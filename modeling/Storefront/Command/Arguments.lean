import Storefront.Text.Search

/-!
# Command-line arguments

Arguments are options, which start with a hyphen, and operands. An option has a
long name and may have a letter; letters may be written together. An option that
takes a value finds it behind an equals sign, directly behind its letter, or in
the next argument unless that looks like an option. After two hyphens alone
everything is an operand.

Reading is the same at every level of a command: `read?` turns arguments into
what is given, by a list of the options there are.
-/

namespace Storefront

/-- **What an option takes.** -/
inductive OptionKind where
  /-- Nothing. -/
  | flag
  /-- Nothing, and it may be repeated. -/
  | counted
  /-- A value. -/
  | value
  /-- Nothing, and the arguments after it do not matter. -/
  | final
  deriving DecidableEq

/-- **An option that there is.** -/
structure OptionSpec where
  /-- Its long name. -/
  long : String
  /-- Its letter, if it has one. -/
  letter : Option Char
  /-- What it takes. -/
  kind : OptionKind

/-- **What an argument gives.** -/
inductive Given where
  /-- An option without a value. -/
  | flag (name : String)
  /-- An option with a value. -/
  | value (name text : String)
  /-- An operand. -/
  | operand (text : String)
  deriving DecidableEq

namespace Arguments

/-- **What one argument says**, before the next one is seen. -/
inductive Reading where
  /-- All of this is given. -/
  | complete (given : List Given)
  /-- This is given, and the next argument is the value of an option. -/
  | awaiting (given : List Given) (name : String)
  /-- This is given, and the rest does not matter. -/
  | last (given : List Given)

/-- Whether an argument looks like an option, and so is no value. -/
def looksLikeOption (arg : String) : Bool :=
  match arg.toList with
  | '-' :: _ :: _ => true
  | _ => false

/-- What an option says that was written with its long name. -/
def readLong? (specs : List OptionSpec) (cs : List Char) : Option Reading :=
  let (name, attached) :=
    match Text.cutAt? ['='] cs with
    | some (name, text) => (String.ofList name, some (String.ofList text))
    | none => (String.ofList cs, none)
  match specs.find? (·.long == name) with
  | none => none
  | some spec =>
    match spec.kind, attached with
    | .value, some text => some (.complete [.value name text])
    | .value, none => some (.awaiting [] name)
    | .final, none => some (.last [.flag name])
    | .flag, none | .counted, none => some (.complete [.flag name])
    | _, some _ => none

/-- The reading with more given before it. -/
def Reading.after (g : Given) : Reading → Reading
  | .complete given => .complete (g :: given)
  | .awaiting given name => .awaiting (g :: given) name
  | .last given => .last (g :: given)

/-- What letters say that were written together. Behind the letter of an option that takes a value
stands the value, with an equals sign before it or not. -/
def readLetters? (specs : List OptionSpec) : List Char → Option Reading
  | [] => some (.complete [])
  | c :: cs =>
    match specs.find? (·.letter == some c) with
    | none => none
    | some spec =>
      match spec.kind with
      | .value =>
        some (match cs with
          | [] => .awaiting [] spec.long
          | '=' :: text => .complete [.value spec.long (String.ofList text)]
          | text => .complete [.value spec.long (String.ofList text)])
      | .final => some (.last [.flag spec.long])
      | .flag | .counted => (readLetters? specs cs).map (.after (.flag spec.long))

/-- What an option says. -/
def readOption? (specs : List OptionSpec) (arg : String) : Option Reading :=
  match arg.toList with
  | '-' :: '-' :: cs => readLong? specs cs
  | '-' :: cs => readLetters? specs cs
  | _ => none

/-- **What arguments give**, and those that are left over: when `stops` is set, reading ends before
the first operand. -/
def scan? (specs : List OptionSpec) (stops : Bool) : List String → Option (List Given × List String)
  | [] => some ([], [])
  | arg :: rest =>
    if arg = "--" then
      if stops then (if rest.isEmpty then some ([], []) else none) else some (rest.map .operand, [])
    else if looksLikeOption arg then
      match readOption? specs arg with
      | none => none
      | some (.last given) => some (given, [])
      | some (.complete given) => (scan? specs stops rest).map fun (more, left) => (given ++ more, left)
      | some (.awaiting given name) =>
        match rest with
        | [] => none
        | text :: rest =>
          if looksLikeOption text then none
          else (scan? specs stops rest).map fun (more, left) =>
            (given ++ .value name text :: more, left)
    else if stops then some ([], arg :: rest)
    else (scan? specs stops rest).map fun (more, left) => (.operand arg :: more, left)

/-- The name of an option that is given. -/
def Given.option? : Given → Option String
  | .flag name | .value name _ => some name
  | .operand _ => none

/-- Whether no option is given twice that may be given once. -/
def areSingle (specs : List OptionSpec) (given : List Given) : Bool :=
  specs.all fun spec => spec.kind == .counted || given.countP (Given.option? · == some spec.long) ≤ 1

/-- **What arguments give, as far as they are right**: every option is known, has its value, and is
not repeated. -/
def read? (specs : List OptionSpec) (stops : Bool) (args : List String) :
    Option (List Given × List String) :=
  (scan? specs stops args).filter fun (given, _) => areSingle specs given

/-! ## Looking up what is given -/

/-- Whether an option is given. -/
def has (given : List Given) (name : String) : Bool := given.any (Given.option? · == some name)

/-- The value of an option. -/
def value? (given : List Given) (name : String) : Option String :=
  given.findSome? fun g =>
    match g with
    | .value n text => if n = name then some text else none
    | _ => none

/-- The operands. -/
def operands (given : List Given) : List String :=
  given.filterMap fun g =>
    match g with
    | .operand text => some text
    | _ => none

end Arguments

end Storefront
