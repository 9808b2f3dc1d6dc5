import Storefront.Numeric.Double

/-!
# Decimals and the doubles they denote

A decimal is a natural number of digits scaled by a power of ten. It denotes
the double nearest to it (`Decimal.toDouble`), and a text denotes a number when
it is a decimal with an optional sign and exponent, or one of the words for the
values that are not finite (`Double.read?`).
-/

namespace Storefront

/-- **A decimal**: `digits * 10 ^ exponent`. -/
structure Decimal where
  /-- The digits, read as one number. -/
  digits : Nat
  /-- The power of ten they are scaled by. -/
  exponent : Int
  deriving DecidableEq

/-- How many decimal digits a number is written with, counted sixteen at a time. -/
def digitCount (n : Nat) : Nat :=
  if n < 10000000000000000 then (Nat.toDigits 10 n).length
  else digitCount (n / 10000000000000000) + 16
termination_by n
decreasing_by omega

namespace Decimal

/-- The double nearest to `± digits * 10 ^ exponent`, ties to even. Exponents so
far off that the result is certainly infinite or zero are settled before any power
of ten is formed. -/
def toDouble (d : Decimal) (negative : Bool) : Double :=
  if d.digits = 0 then .finite negative 0 fits_zero
  else if d.exponent + digitCount d.digits > 400 then .infinite negative
  else if d.exponent + digitCount d.digits < -400 then .finite negative 0 fits_zero
  else if d.exponent ≥ 0 then
    .rounded negative (d.digits * Nat.pow 10 d.exponent.toNat * unitsPerOne) 1
  else .rounded negative (d.digits * unitsPerOne) (Nat.pow 10 (-d.exponent).toNat)

/-- Trailing zeros moved from the digits into the exponent. -/
def stripped (d : Decimal) : Decimal := go d.digits d
where
  /-- One zero at a time; `fuel` is the number itself, which has fewer digits. -/
  go : (fuel : Nat) → Decimal → Decimal
    | 0, d => d
    | fuel + 1, d =>
      if d.digits ≠ 0 ∧ d.digits % 10 = 0 then go (fuel / 10) ⟨d.digits / 10, d.exponent + 1⟩
      else d
  termination_by fuel => fuel
  decreasing_by omega

end Decimal

/-! ## Reading -/

/-- The number that a run of digits denotes. -/
def digitsValue (ds : List Char) : Nat := Nat.ofDigitChars 10 ds 0

/-- The power of ten after the digits: nothing, or `e` with an optional sign and digits. -/
def readExponent? : List Char → Option Int
  | [] => some 0
  | c :: cs =>
    if c = 'e' || c = 'E' then
      let (negative, ds) :=
        match cs with
        | '+' :: ds => (false, ds)
        | '-' :: ds => (true, ds)
        | ds => (false, ds)
      if !ds.isEmpty && ds.all Char.isDigit then
        some (if negative then -(digitsValue ds : Int) else digitsValue ds)
      else none
    else none

/-- Digits with at most one point among them, at least one digit, and an exponent. -/
def readDecimal? (cs : List Char) : Option Decimal :=
  let whole := cs.takeWhile Char.isDigit
  let (fraction, rest) :=
    match cs.dropWhile Char.isDigit with
    | '.' :: rest => (rest.takeWhile Char.isDigit, rest.dropWhile Char.isDigit)
    | rest => ([], rest)
  if whole.isEmpty && fraction.isEmpty then none
  else (readExponent? rest).map fun exponent =>
    ⟨digitsValue (whole ++ fraction), exponent - fraction.length⟩

namespace Double

/-- A number without its sign: a word for a value that is not finite, or a decimal. -/
def readUnsigned? (negative : Bool) (cs : List Char) : Option Double :=
  let word := cs.map Char.toLower
  if word = "inf".toList || word = "infinity".toList then some (.infinite negative)
  else if word = "nan".toList then some .nan
  else (readDecimal? cs).map (·.toDouble negative)

/-- **The number a text denotes**: an optional sign, then a decimal such as `5`, `.5`,
`5.` or `1e3`, or `inf`, `infinity` or `nan` in any case. No blanks are allowed. -/
def readChars? : List Char → Option Double
  | '+' :: cs => readUnsigned? false cs
  | '-' :: cs => readUnsigned? true cs
  | cs => readUnsigned? false cs

/-- `readChars?` on a text. -/
def read? (s : String) : Option Double := readChars? s.toList

end Double

end Storefront
