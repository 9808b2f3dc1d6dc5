import Storefront.Data.Value
import Storefront.Text.Blank

/-!
# Paths into page data

A path names a value by object keys and list positions with points between them.
Positions may also be written in brackets: `a[0].b`, `a.[0].b` and `a.0.b` are
the same path, and the last is its normal form.
-/

namespace Storefront

namespace Path

/-- A path with its brackets replaced: an opening one, with a point before it or not, is a
point, and a closing one is dropped. -/
def bracketless : List Char → List Char
  | [] => []
  | '.' :: '[' :: cs => '.' :: bracketless cs
  | c :: cs =>
    if c = '[' then '.' :: bracketless cs
    else if c = ']' then bracketless cs
    else c :: bracketless cs

/-- **The normal form of a path**, from its characters. A path without an opening bracket
only loses the blanks around it. -/
def normalizedChars (cs : List Char) : List Char :=
  let path := Text.trim cs
  if path.contains '[' then bracketless path else path

/-- The normal form of a path. -/
def normalized (path : String) : String := String.ofList (normalizedChars path.toList)

/-- The segments between the points of a path, empty ones left out. -/
def segments (cs : List Char) : List (List Char) :=
  (cs.splitOn '.').filter fun segment => !segment.isEmpty

/-- The list position that a segment denotes: digits, with a plus sign in front or not. -/
def position? (segment : List Char) : Option Nat :=
  let digits :=
    match segment with
    | '+' :: cs => cs
    | cs => cs
  if !digits.isEmpty && digits.all Char.isDigit then
    some (digitsValue digits) |>.filter (· < UInt64.size)
  else none

/-- **One step into a value**: by key into an object, by position into a list. -/
def step (v : Value) (segment : List Char) : Option Value :=
  match v with
  | .obj entries => Object.get? entries (String.ofList segment)
  | .arr items => (position? segment).bind (items[·]?)
  | _ => none

/-- Steps taken one after another. -/
def walk (v : Value) (segments : List (List Char)) : Option Value := segments.foldlM step v

end Path

end Storefront
