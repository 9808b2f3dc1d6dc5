import Storefront.Data.Loose
import Storefront.Json.Decode
import Storefront.Text.Search

/-!
# Price ranges

A price range has a lower end, may have an upper one, and may be labelled. Its
key, such as `0-50` or `50-`, names it in addresses; reading a key also accepts
`50+` for a range without an upper end.
-/

namespace Storefront

/-- **A range of prices.** -/
structure PriceRange where
  /-- The lower end. -/
  min : Double
  /-- The upper end, if there is one. -/
  max : Option Double := none
  /-- What shoppers see, if it is not made up from the ends. -/
  label : Option String := none

namespace PriceRange

/-- The number in a part of a key, without regard to blanks around it. -/
def bound? (cs : List Char) : Option Double := Double.readChars? (Text.trim cs)

/-- What comes before a plus sign at the end. -/
def beforePlus? (cs : List Char) : Option (List Char) :=
  if cs.getLast? = some '+' then some cs.dropLast else none

/-- **The range of a key**: `0-50`, `50-` or `50+`, split at the first hyphen. -/
def ofKey? (key : String) : Option PriceRange :=
  let cs := Text.trim key.toList
  match beforePlus? cs with
  | some lower => (bound? lower).map fun min => { min }
  | none =>
    match Text.cutAt? ['-'] cs with
    | none => none
    | some (lower, upper) =>
      match bound? lower with
      | none => none
      | some min =>
        if Text.allBlank upper then some { min } else (bound? upper).map fun max => { min, max := some max }

/-- **The key of a range.** -/
def key (r : PriceRange) : String :=
  match r.max with
  | some max => r.min.displayText ++ "-" ++ max.displayText
  | none => r.min.displayText ++ "-"

/-- What shoppers see when the range has no label. -/
def plainLabel (r : PriceRange) : String :=
  match r.max with
  | some max => r.min.displayText ++ " - " ++ max.displayText
  | none => r.min.displayText ++ "+"

/-- What shoppers see: the label, or the ends when it is blank. -/
def displayLabel (r : PriceRange) : String :=
  (r.label.filter fun s => !Text.isBlankText s).getD r.plainLabel

/-- Whether two upper ends are equal in value, or both missing. -/
def sameEnd : Option Double → Option Double → Bool
  | some x, some y => x.sameValue y
  | none, none => true
  | _, _ => false

/-- Whether the ends are `min` and `max`. -/
def hasEnds (r : PriceRange) (min max : Option Double) : Bool :=
  sameEnd min (some r.min) && sameEnd max r.max

mutual

/-- **Whether a selection means this range**: its key, an object with its ends, or a list that
holds one of these. -/
def isSelectedBy (r : PriceRange) : Value → Bool
  | .str key =>
    match ofKey? key with
    | some chosen => r.hasEnds (some chosen.min) chosen.max
    | none => false
  | .obj ends => r.hasEnds (Object.number? ends "min") (Object.number? ends "max")
  | .arr items => r.isSelectedByAny items
  | _ => false

/-- Whether one of the items of a selection means this range. -/
def isSelectedByAny (r : PriceRange) : List Value → Bool
  | [] => false
  | v :: vs => r.isSelectedBy v || r.isSelectedByAny vs

end

/-- The range as page data; without an upper end that entry is null. -/
def toValue (r : PriceRange) (active : Bool) : Value :=
  .obj [("min", .ofDouble r.min), ("max", match r.max with
      | some max => .ofDouble max
      | none => .null),
    ("label", .str r.displayLabel), ("value", .str r.key), ("active", .bool active)]

open Decoder in
/-- Reads a range. -/
def decoder : Decoder PriceRange :=
  record ["min", "max", "label"] true fun fs => do
    let min ← fs.get "min" double none
    let max ← fs.get "max" (optional double) (some none)
    let label ← fs.get "label" (optional text) (some none)
    return { min, max, label }

end PriceRange

end Storefront
