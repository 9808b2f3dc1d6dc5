import Storefront.Calendar.Reading
import Storefront.Data.Loose
import Storefront.Locale.Tag
import Storefront.Numeric.Print

/-!
# Writing dates

A date is shown in the order and with the separators of the locale's language.
Data that stands for no date is shown as the text it has.
-/

namespace Storefront

namespace Calendar

/-- A year: four digits at least, with a sign when it is not within them. -/
def yearText (year : Int) : List Char :=
  if 0 ≤ year ∧ year ≤ 9999 then padded 4 year.toNat
  else (if year < 0 then '-' else '+') :: padded 4 year.natAbs

/-- **A date as a language writes it.** -/
def dateText (language : String) (year : Int) (month day : Nat) : String :=
  let y := yearText year
  let parts (sep : Char) (a b c : List Char) : List Char := a ++ sep :: b ++ sep :: c
  String.ofList <|
    match language with
    | "en" => parts '/' (natDigits month) (natDigits day) y
    | "de" => parts '.' (natDigits day) (natDigits month) y
    | "nl" => parts '-' (natDigits day) (natDigits month) y
    | "fr" | "es" | "it" | "pt" => parts '/' (padded 2 day) (padded 2 month) y
    | "ja" | "zh" => parts '/' y (natDigits month) (natDigits day)
    | _ => parts '-' y (padded 2 month) (padded 2 day)

end Calendar

namespace Value

/-- **The moment a value stands for**: a number counts milliseconds from the start of 1970, a
text is read as a date. -/
def moment? : Value → Option Moment
  | .num n => Moment.ofMilliseconds? n.toDouble.toInt64
  | .str s => Calendar.read? s
  | _ => none

/-- A value shown as a date, or as the text it has when it stands for none. -/
def dateText (v : Value) (locale : Locale) : String :=
  match v.moment? with
  | some m => Calendar.dateText locale.language m.year m.month m.day
  | none => v.scalarText?.getD ""

end Value

end Storefront
