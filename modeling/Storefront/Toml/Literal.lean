import Storefront.Calendar.Moment
import Storefront.Json.Literal
import Storefront.Text.Search
import Storefront.Toml.Value

/-!
# TOML literals

What a value may be that is not quoted: a boolean, a whole number in one of four
bases, a decimal number, a date, a time, or both. Digits may be grouped by single
underscores between them.
-/

namespace Storefront.Toml

/-- Whether characters are digits, with single underscores between digits allowed. -/
def isGrouped (isDigit : Char → Bool) : List Char → Bool
  | [] => false
  | [c] => isDigit c
  | c :: '_' :: cs => isDigit c && isGrouped isDigit cs
  | c :: cs => isDigit c && isGrouped isDigit cs

/-- The characters without underscores. -/
def ungrouped (cs : List Char) : List Char := cs.filter (· != '_')

/-- A number without its sign, and whether it is negative. -/
def signed : List Char → Bool × List Char
  | '+' :: cs => (false, cs)
  | '-' :: cs => (true, cs)
  | cs => (false, cs)

/-! ## Numbers -/

/-- Digits of a whole number, without zeros in front. -/
def isWhole (cs : List Char) : Bool :=
  isGrouped Char.isDigit cs && (cs.head? != some '0' || cs.length == 1)

/-- The largest whole number. -/
def largest : Nat := UInt64.size / 2 - 1

/-- A whole number in decimal digits, of 64 bits with its sign. -/
def isDecimal (cs : List Char) : Bool :=
  let (negative, ds) := signed cs
  isWhole ds && digitsValue (ungrouped ds) ≤ largest + (if negative then 1 else 0)

/-- A whole number in another base, marked by a letter after a zero. -/
def isBased : List Char → Bool
  | '0' :: mark :: cs =>
    let base := if mark == 'x' then 16 else if mark == 'o' then 8 else if mark == 'b' then 2 else 0
    let isDigit (c : Char) : Bool := (Json.hexDigit? c).any (· < base)
    isGrouped isDigit cs &&
      ((ungrouped cs).filterMap Json.hexDigit?).foldl (fun n d => n * base + d) 0 ≤ largest
  | _ => false

/-- The power of ten of a decimal number: nothing, or a letter and digits with an optional sign. -/
def isPower : List Char → Bool
  | [] => true
  | c :: cs => (c == 'e' || c == 'E') && isGrouped Char.isDigit (signed cs).2

/-- What may follow the whole digits of a decimal number. -/
def isTail : List Char → Bool
  | '.' :: cs =>
    isGrouped Char.isDigit (cs.takeWhile fun c => c.isDigit || c == '_') &&
      isPower (cs.dropWhile fun c => c.isDigit || c == '_')
  | cs => cs != [] && isPower cs

/-- A decimal number, `inf` or `nan`; none that is written in digits but larger than every
double. -/
def isFloat (cs : List Char) : Bool :=
  let (_, ds) := signed cs
  let isPart (c : Char) : Bool := c.isDigit || c == '_'
  ds == "inf".toList || ds == "nan".toList ||
    (isWhole (ds.takeWhile isPart) && isTail (ds.dropWhile isPart) &&
      Double.readChars? (ungrouped cs) != some (.infinite false))

/-! ## Dates and times -/

/-- The number of exactly `width` digits in front, within `lo` and `hi`, and what follows. -/
def readPart? (width lo hi : Nat) (cs : List Char) : Option (Nat × List Char) :=
  let ds := cs.take width
  let n := digitsValue ds
  if ds.length == width && ds.all Char.isDigit && lo ≤ n && n ≤ hi then some (n, cs.drop width) else none

/-- A date in front, and what follows. -/
def readDate? (cs : List Char) : Option (List Char) := do
  let (year, cs) ← readPart? 4 0 9999 cs
  let (month, cs) ← readPart? 2 1 12 (← Text.after? ['-'] cs)
  let (_, cs) ← readPart? 2 1 (Calendar.daysIn year month) (← Text.after? ['-'] cs)
  return cs

/-- A time in front, with a fraction of a second or without, and what follows. -/
def readTime? (cs : List Char) : Option (List Char) := do
  let (_, cs) ← readPart? 2 0 23 cs
  let (_, cs) ← readPart? 2 0 59 (← Text.after? [':'] cs)
  let (_, cs) ← readPart? 2 0 60 (← Text.after? [':'] cs)
  match cs with
  | '.' :: fraction =>
    if fraction.takeWhile Char.isDigit = [] then none else some (fraction.dropWhile Char.isDigit)
  | cs => some cs

/-- Whether characters are a time zone: none, the letter `Z`, or hours and minutes. -/
def isZone : List Char → Bool
  | [] | ['Z'] | ['z'] => true
  | c :: cs =>
    (c == '+' || c == '-') &&
      match readPart? 2 0 23 cs with
      | some (_, ':' :: rest) =>
        match readPart? 2 0 59 rest with
        | some (_, []) => true
        | _ => false
      | _ => false

/-- Whether characters are a date. -/
def isDate (cs : List Char) : Bool := readDate? cs == some []

/-- Whether characters are a time with a time zone or without. -/
def isZonedTime (cs : List Char) : Bool :=
  match readTime? cs with
  | some rest => isZone rest
  | none => false

/-- Whether characters are a date, a time, or a date and a time with a `T` between them. -/
def isMoment (cs : List Char) : Bool :=
  isDate cs || readTime? cs == some [] ||
    match readDate? cs with
    | some (c :: rest) => (c == 'T' || c == 't') && isZonedTime rest
    | _ => false

/-! ## Values -/

/-- **The value of a literal.** -/
def ofLiteral? (cs : List Char) : Option Toml :=
  if cs = "true".toList then some (.bool true)
  else if cs = "false".toList then some (.bool false)
  else if isDecimal cs || isBased cs || isFloat cs || isMoment cs then some .measure
  else none

end Storefront.Toml
