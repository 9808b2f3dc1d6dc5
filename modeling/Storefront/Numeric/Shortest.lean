import Storefront.Numeric.Decimal

/-!
# The shortest decimal of a double

A double is printed with the fewest digits that read back to it. The exact
decimal expansion of `units * 2 ^ -1074` is the digits of `units * 5 ^ 1074`,
so cutting that number after one, two, … digits gives the decimal below the
value on each grid; the one above has one more in its last place. The first
grid on which either reads back is the one printed from, and of two that read
back the nearer is taken. Two that are equally near go by the `Tie` that the
caller asks for.

Reading back is tested by reading back (`Decimal.toDouble`), so that the printed
decimal denotes the value holds by construction.
-/

namespace Storefront

/-- Where a decimal goes that lies halfway between its two candidates. -/
inductive Tie where
  /-- To the candidate with the even last digit. -/
  | even
  /-- To the larger candidate. -/
  | up
  deriving DecidableEq

namespace Double

/-- The power of ten of a double's last possible decimal place. -/
def lastPlace : Int := -1074

/-- All decimal digits of `units * 2 ^ -1074`, with the last at place `lastPlace`. -/
def exactDigits (units : Nat) : Nat := units * Nat.pow 5 1074

/-- Whether a decimal reads back to a finite double of these units. -/
def readsBack (d : Decimal) (units : Nat) : Bool :=
  match d.toDouble false with
  | .finite _ m _ => m == units
  | _ => false

/-- The candidates with the places below `cut` dropped: the value rounded down and up
there, the nearer first. -/
def candidates (tie : Tie) (exact cut : Nat) : List Decimal :=
  let step := Nat.pow 10 cut
  let below : Decimal := ⟨exact / step, cut + lastPlace⟩
  let above : Decimal := ⟨exact / step + 1, cut + lastPlace⟩
  let twiceRest := 2 * (exact % step)
  let down :=
    twiceRest < step || (twiceRest == step && tie == .even && exact / step % 2 == 0)
  if down then [below, above] else [above, below]

/-- The candidate on one grid that reads back, if any. -/
def candidate? (tie : Tie) (units cut : Nat) : Option Decimal :=
  (candidates tie (exactDigits units) cut).find? fun d => readsBack d units

/-- How many digits are enough to tell a double from all others. -/
def digitLimit : Nat := 17

/-- **The shortest decimal** that reads back to these units: the candidate on the first of the grids
with one digit, two digits and so on. Without a candidate it is the exact expansion, which reads
back too. -/
def shortest (tie : Tie) (units : Nat) : Decimal :=
  if units = 0 then ⟨0, 0⟩
  else
    let places := digitCount (exactDigits units)
    let found := (List.range digitLimit).findSome? fun n => candidate? tie units (places - (n + 1))
    (found.getD ⟨exactDigits units, lastPlace⟩).stripped

end Double

end Storefront
