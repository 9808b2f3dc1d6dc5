import Storefront.Calendar.Moment
import Storefront.Numeric.Decimal
import Storefront.Text.Blank

/-!
# Reading dates

A date is read from a text in one of five shapes, the first that fits the whole
text: an Internet timestamp with an offset, a date and a time with a space or
with a `T` between them, the latter also with a fraction of a second, and a date
alone. Only the timestamp fixes the number of digits. The others allow fewer
digits, blanks in front of each number, and years beyond four digits with a sign.

A shape is read by steps that take something from the front of a text.
-/

namespace Storefront.Calendar

/-- **A reading step**: what was read, and the rest of the text. -/
abbrev Take (α : Type) : Type := List Char → Option (α × List Char)

/-- A character that must stand in front. -/
def takeChar (c : Char) (cs : List Char) : Option (List Char) :=
  match cs with
  | d :: rest => if d = c then some rest else none
  | [] => none

/-- As many digits as there are in front, `least` at least and `most` at most. -/
def takeDigits (least most : Nat) : Take Nat := fun cs =>
  let digits := (cs.take most).takeWhile Char.isDigit
  if least ≤ digits.length then some (digitsValue digits, cs.drop digits.length) else none

/-- A number that must lie between two bounds. -/
def within (lo hi : Nat) (step : Take Nat) : Take Nat := fun cs =>
  (step cs).filter fun (n, _) => lo ≤ n && n ≤ hi

/-- The digits after the point of a second, if there is a point; they are not kept. -/
def takeFraction (cs : List Char) : Option (List Char) :=
  match cs with
  | '.' :: rest =>
    match rest.takeWhile Char.isDigit with
    | [] => none
    | _ => some (rest.dropWhile Char.isDigit)
  | _ => some cs

/-! ## Timestamps -/

/-- The offset of a timestamp in minutes: `Z`, or a sign with hours and minutes. -/
def takeOffset : Take Int := fun cs =>
  match cs with
  | [] => none
  | c :: rest =>
    if c = 'Z' || c = 'z' then some (0, rest)
    else if c = '+' || c = '-' || c = '\u2212' then do
      let (hours, rest) ← within 0 23 (takeDigits 2 2) rest
      let rest ← takeChar ':' rest
      let (minutes, rest) ← within 0 59 (takeDigits 2 2) rest
      let total : Int := hours * 60 + minutes
      return (if c = '+' then total else -total, rest)
    else none

/-- A timestamp such as `2024-03-07T10:00:00.5+01:00`, as a moment without offset. -/
def readTimestamp? (cs : List Char) : Option Moment := do
  let (year, rest) ← takeDigits 4 4 cs
  let rest ← takeChar '-' rest
  let (month, rest) ← takeDigits 2 2 rest
  let rest ← takeChar '-' rest
  let (day, rest) ← takeDigits 2 2 rest
  let rest ← (takeChar 'T' rest).or ((takeChar 't' rest).or (takeChar ' ' rest))
  let (hour, rest) ← within 0 23 (takeDigits 2 2) rest
  let rest ← takeChar ':' rest
  let (minute, rest) ← within 0 59 (takeDigits 2 2) rest
  let rest ← takeChar ':' rest
  let (second, rest) ← within 0 60 (takeDigits 2 2) rest
  let rest ← takeFraction rest
  let (offset, rest) ← takeOffset rest
  if rest.isEmpty && isDate year month day then
    (Moment.mk year month day hour minute second).earlier? offset
  else none

/-! ## Loose dates and times -/

/-- A number of one or two digits, with blanks in front. -/
def takeShort : Take Nat := fun cs => takeDigits 1 2 (Text.trimStart cs)

/-- A year, with blanks in front: up to four digits, or any number of them after a sign. -/
def takeYear : Take Int := fun cs =>
  match Text.trimStart cs with
  | '-' :: rest => (takeDigits 1 rest.length rest).map fun (n, rest) => (-(n : Int), rest)
  | '+' :: rest => (takeDigits 1 rest.length rest).map fun (n, rest) => ((n : Int), rest)
  | rest => (takeDigits 1 4 rest).map fun (n, rest) => ((n : Int), rest)

/-- A year, a month and a day that are a date. -/
def takeDate : Take (Int × Nat × Nat) := fun cs => do
  let (year, rest) ← takeYear cs
  let rest ← takeChar '-' rest
  let (month, rest) ← takeShort rest
  let rest ← takeChar '-' rest
  let (day, rest) ← takeShort rest
  if isDate year month day then some ((year, month, day), rest) else none

/-- An hour, a minute and a second. -/
def takeTime : Take (Nat × Nat × Nat) := fun cs => do
  let (hour, rest) ← within 0 23 takeShort cs
  let rest ← takeChar ':' rest
  let (minute, rest) ← within 0 59 takeShort rest
  let rest ← takeChar ':' rest
  let (second, rest) ← within 0 60 takeShort rest
  return ((hour, minute, second), rest)

/-- A date, then what `between` takes, then a time, then what `after` takes, and the end. -/
def readDateTime? (between after : List Char → Option (List Char)) (cs : List Char) : Option Moment := do
  let ((year, month, day), rest) ← takeDate cs
  let rest ← between rest
  let ((hour, minute, second), rest) ← takeTime rest
  let rest ← after rest
  if rest.isEmpty then some ⟨year, month, day, hour, minute, second⟩ else none

/-- A date alone, at the start of its day. -/
def readDate? (cs : List Char) : Option Moment := do
  let ((year, month, day), rest) ← takeDate cs
  if rest.isEmpty then some ⟨year, month, day, 0, 0, 0⟩ else none

/-- **The moment a text denotes**, without blanks around it. -/
def read? (s : String) : Option Moment :=
  let cs := Text.trim s.toList
  (readTimestamp? cs).or
    ((readDateTime? (some ∘ Text.trimStart) some cs).or
      ((readDateTime? (takeChar 'T') some cs).or
        ((readDateTime? (takeChar 'T') takeFraction cs).or (readDate? cs))))

end Storefront.Calendar
