import Storefront.Numeric.Shortest

/-!
# Printing numbers

Three ways of writing a double. *Display text* is what a shopper sees: whole
numbers without a point, everything else with its shortest digits and never in
scientific notation. *Document text* is what a JSON document holds: a point or
an exponent always marks a double. *Fixed places* is the exact binary value
rounded to a number of decimals, a half going to the even digit.
-/

namespace Storefront

/-- A natural number in decimal digits. -/
def natDigits (n : Nat) : List Char := Nat.toDigits 10 n

/-- A natural number in decimal digits, with zeros in front up to `width`. -/
def padded (width n : Nat) : List Char :=
  List.replicate (width - (natDigits n).length) '0' ++ natDigits n

/-- An integer in decimal digits. -/
def intText (i : Int) : String :=
  String.ofList ((if i < 0 then ['-'] else []) ++ natDigits i.natAbs)

namespace Decimal

/-- The power of ten of the first digit. -/
def leadingPlace (d : Decimal) : Int := d.exponent + digitCount d.digits - 1

/-- Digits with a point where it belongs, and zeros up to it. -/
def positional (d : Decimal) : List Char :=
  if d.exponent ≥ 0 then natDigits d.digits ++ List.replicate d.exponent.toNat '0'
  else
    let places := (-d.exponent).toNat
    let ds := padded (places + 1) d.digits
    ds.take (ds.length - places) ++ '.' :: ds.drop (ds.length - places)

/-- One digit before the point, and a power of ten, signed when it is negative or `plus` says so. -/
def scientific (d : Decimal) : List Char :=
  let place := d.leadingPlace
  let power := (if place < 0 then ['-'] else ['+']) ++ natDigits place.natAbs
  match natDigits d.digits with
  | first :: second :: rest => first :: '.' :: second :: rest ++ 'e' :: power
  | ds => ds ++ 'e' :: power

end Decimal

namespace Double

/-- The sign as it is written. -/
def signText (negative : Bool) : List Char := if negative then ['-'] else []

/-- **Display text**: `3`, `2.5`, `-0.25`, never with an exponent. A zero has no sign; from
`10 ^ 15` on whole numbers are written with their shortest digits too. -/
def displayText : Double → String
  | .nan => "NaN"
  | .infinite negative => if negative then "-Infinity" else "Infinity"
  | .finite negative units _ =>
    let text :=
      if units % unitsPerOne = 0 ∧ units / unitsPerOne < 1000000000000000 then
        signText (negative && units != 0) ++ natDigits (units / unitsPerOne)
      else signText negative ++ (shortest .up units).positional
    String.ofList text

/-- **Document text**: `7.0`, `0.00001`, `1e+16`, `5e-324`, `-0.0`. Positional from the fifth
place after the point up to the sixteenth before it. The values that are not finite have no
such text; `null` stands for them. -/
def documentText : Double → String
  | .finite negative units _ =>
    let d := shortest .even units
    let place := d.leadingPlace
    let text :=
      if -5 ≤ place ∧ place ≤ 15 then
        if d.exponent ≥ 0 then d.positional ++ ['.', '0'] else d.positional
      else d.scientific
    String.ofList (signText negative ++ text)
  | _ => "null"

/-- The magnitude rounded to `places` decimals: the digits before the point, and exactly
`places` digits after it. What is not finite counts as zero. -/
def fixedParts (places : Nat) (x : Double) : List Char × List Char :=
  let scaled :=
    match x with
    | .finite _ units _ => roundHalfEven (units * Nat.pow 10 places) unitsPerOne
    | _ => 0
  (natDigits (scaled / Nat.pow 10 places),
    if places = 0 then [] else padded places (scaled % Nat.pow 10 places))

/-- **Fixed places**: the magnitude with exactly `places` decimals, and a point when there are
any. -/
def fixedText (places : Nat) (x : Double) : List Char :=
  let (whole, decimals) := x.fixedParts places
  if decimals.isEmpty then whole else whole ++ '.' :: decimals

end Double

end Storefront
