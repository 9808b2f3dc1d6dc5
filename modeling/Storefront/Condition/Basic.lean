import Storefront.Numeric.Decimal
import Storefront.Text.Blank
import Storefront.Text.Search

/-!
# Conditions

A conditional block tests a condition in one of four forms, tried in this order:
the helper `(eq path "literal")`, the helper `(gt path number)`, a comparison
with an operator between two operands, and otherwise the truthiness of a path.
-/

namespace Storefront

/-- **How a comparison compares.** -/
inductive Comparison where
  /-- Greater or equal. -/
  | atLeast
  /-- Less or equal. -/
  | atMost
  /-- Greater. -/
  | greater
  /-- Less. -/
  | less
  /-- Equal. -/
  | equal
  /-- Not equal. -/
  | notEqual
  deriving DecidableEq

/-- **A condition.** -/
inductive Condition where
  /-- The value at `path` has the text `literal`. -/
  | hasText (path literal : String)
  /-- The number at `path` is above the threshold, if that is a number at all. -/
  | exceeds (path : String) (threshold : Option Double)
  /-- Two operands compare as told. -/
  | compares (left : String) (op : Comparison) (right : String)
  /-- The value at `path` is truthy. -/
  | holds (path : String)

namespace Condition

/-- **The operators**, in the order in which they are looked for: the longer spellings first,
so that they are not cut in the middle. -/
def operators : List (String × Comparison) :=
  [("===", .equal), ("!==", .notEqual), (">=", .atLeast), ("<=", .atMost), (">", .greater),
    ("<", .less), ("==", .equal), ("!=", .notEqual)]

/-- A helper call `(name path …`: the path, and what follows the blanks after it. -/
def helper? (name : String) : List Char → Option (List Char × List Char)
  | '(' :: cs =>
    match Text.after? name.toList (Text.trimStart cs) with
    | some (blank :: cs) =>
      if Text.isBlank blank then
        let (path, rest) := Text.spanning (fun c => !Text.isBlank c) (Text.trimStart cs)
        if path.isEmpty || rest.isEmpty then none else some (path, Text.trimStart rest)
      else none
    | _ => none
  | _ => none

/-- Blanks and the closing parenthesis of a helper call, and nothing after it. -/
def closes (cs : List Char) : Bool := Text.trimStart cs == [')']

/-- A bare word up to the end of a helper call. -/
def bareWord? (cs : List Char) : Option (List Char) :=
  if cs.getLast? = some ')' then
    let word := Text.trimEnd cs.dropLast
    if word.isEmpty || word.any Text.isBlank then none else some word
  else none

/-- A word in quotes up to the end of a helper call. -/
def quotedWord? : List Char → Option (List Char)
  | quote :: cs =>
    if quote = '"' || quote = '\'' then
      let (word, rest) := Text.spanning (· != quote) cs
      if closes (rest.drop 1) && !rest.isEmpty then some word else none
    else none
  | [] => none

/-- The literal of an `eq` helper: in quotes, or a bare word. -/
def literal? (cs : List Char) : Option (List Char) :=
  match quotedWord? cs with
  | some word => some word
  | none => bareWord? cs

/-- The helper `(eq path literal)`. -/
def readEq? (cs : List Char) : Option Condition :=
  (helper? "eq" cs).bind fun (path, rest) =>
    (literal? rest).map fun word => .hasText (String.ofList path) (String.ofList word)

/-- The helper `(gt path number)`. -/
def readGt? (cs : List Char) : Option Condition :=
  (helper? "gt" cs).bind fun (path, rest) =>
    (bareWord? rest).map fun word => .exceeds (String.ofList path) (Double.readChars? word)

/-- A comparison, cut at the first operator of the list that occurs with operands on both sides. -/
def readComparison? (cs : List Char) : List (String × Comparison) → Option Condition
  | [] => none
  | (spelling, op) :: more =>
    match Text.cutAt? spelling.toList cs with
    | some (left, right) =>
      let left := Text.trim left
      let right := Text.trim right
      if left.isEmpty || right.isEmpty then readComparison? cs more
      else some (.compares (String.ofList left) op (String.ofList right))
    | none => readComparison? cs more

/-- **The condition that a text spells.** -/
def ofText (text : String) : Condition :=
  let cs := Text.trim text.toList
  match readEq? cs with
  | some c => c
  | none =>
    match readGt? cs with
    | some c => c
    | none =>
      match readComparison? cs operators with
      | some c => c
      | none => .holds (String.ofList cs)

end Condition

end Storefront
