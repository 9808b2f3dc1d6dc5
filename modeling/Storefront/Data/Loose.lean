import Storefront.Data.Value
import Storefront.Text.Blank

/-!
# Reading loosely shaped data

Prices arrive as numbers or as numeric texts, flags as booleans, as `1` and `0`
or as words, identifiers as texts or numbers. The readings here are the only
ones: whatever the page builder and the templates take from page data, they take
in one of these ways.
-/

namespace Storefront

namespace Value

/-- **The number a value stands for**: a number, or a text that reads as a finite one. -/
def number? : Value → Option Double
  | .num n => some n.toDouble
  | .str s => (Double.readChars? (Text.trim s.toList)).filter (·.isFinite)
  | _ => none

/-- **Truthiness**: null, `false`, zero, the empty text and the empty list are not truthy. -/
def truthy : Value → Bool
  | .null => false
  | .bool b => b
  | .num n => !n.toDouble.isZero && n.toDouble != .nan
  | .str s => s != ""
  | .arr items => !items.isEmpty
  | .obj _ => true

/-- **A flag**: the words `true`, `1` and `yes`, or any other truthy value. -/
def flag : Value → Bool
  | .str s =>
    let word := (Text.trim s.toList).map Char.toLower
    word = "true".toList || word = "1".toList || word = "yes".toList
  | v => v.truthy

/-- **The text of a scalar**: nothing for null, digits for a number; lists and objects have
none. Whole numbers past the signed 64-bit range are shown as doubles. -/
def scalarText? : Value → Option String
  | .null => some ""
  | .bool b => some (if b then "true" else "false")
  | .num (.int n) => some (if n < (UInt64.size / 2 : Nat) then intText n else (Double.ofInt n).displayText)
  | .num (.float x) => some x.displayText
  | .str s => some s
  | .arr _ => none
  | .obj _ => none

/-- The text of a scalar that has one and is not empty. -/
def filledText? (v : Value) : Option String := v.scalarText?.filter (· != "")

/-- A value that is null or blank text. -/
def isBlank : Value → Bool
  | .null => true
  | .str s => Text.isBlankText s
  | _ => false

end Value

namespace Object

/-- Whether the entry under a key is missing, null or blank text. -/
def blankAt (o : Object) (key : String) : Bool :=
  match o.get? key with
  | none => true
  | some v => v.isBlank

/-- The text under a key, unless it is blank. -/
def text? (o : Object) (key : String) : Option String :=
  (o.getStr? key).filter fun s => !Text.isBlankText s

/-- The number under a key. -/
def number? (o : Object) (key : String) : Option Double := (o.get? key).bind Value.number?

/-- The flag under a key, off when it is missing. -/
def flag (o : Object) (key : String) : Bool :=
  match o.get? key with
  | some v => v.flag
  | none => false

/-- **The identifier under a key**: a text that is not empty, or a number as documents write it. -/
def id? (o : Object) (key : String) : Option String :=
  match o.get? key with
  | some (.str s) => if s = "" then none else some s
  | some (.num n) => some n.documentText
  | _ => none

/-- The place of what says nothing about its order. -/
def defaultSortOrder : Int := 999

/-- **Where an entity stands among others**: its `sort_order` as a whole number. -/
def sortOrder (o : Object) : Int := ((o.number? "sort_order").map (·.toInt64)).getD defaultSortOrder

end Object

end Storefront
