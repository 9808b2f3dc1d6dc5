/-!
# Double-precision numbers, counted in least units

Every finite double-precision number is a whole multiple of `2 ^ -1074`, the
least positive one. So a finite number is kept here as a sign and a natural
number of such *units*, and the only thing that makes it a double is that its
units *fit*: at most 53 significant bits, and fewer than `2 ^ 2098` units.

The representation is unique, comparison is comparison of integers, and every
operation is exact integer arithmetic followed by one rounding to nearest, ties
to even (`Double.rounded`). The sign of a zero is kept, because it is printed.
-/

namespace Storefront

/-! ## Rounding a quotient -/

/-- **The nearest whole number** to `n / d`, a half going to the even neighbour. -/
def roundHalfEven (n d : Nat) : Nat :=
  let q := n / d
  let r := n % d
  if 2 * r < d then q
  else if d < 2 * r then q + 1
  else q + q % 2

theorem le_roundHalfEven (n d : Nat) : n / d ≤ roundHalfEven n d := by
  unfold roundHalfEven
  dsimp only
  split
  · omega
  · split <;> omega

theorem roundHalfEven_le (n d : Nat) : roundHalfEven n d ≤ n / d + 1 := by
  unfold roundHalfEven
  dsimp only
  split
  · omega
  · split <;> omega

/-- A quotient without remainder is its own rounding. -/
theorem roundHalfEven_of_dvd {n d : Nat} (hd : 0 < d) (h : d ∣ n) :
    roundHalfEven n d = n / d := by
  have h0 : n % d = 0 := Nat.mod_eq_zero_of_dvd h
  simp [roundHalfEven, h0, hd]

/-! ## Units -/

/-- Two to a power. -/
def twoPow (n : Nat) : Nat := Nat.pow 2 n

theorem twoPow_pos (n : Nat) : 0 < twoPow n := Nat.two_pow_pos n

/-- How often one is halved to get a unit. -/
def unitDepth : Nat := 1074

/-- How many units one is. -/
def unitsPerOne : Nat := twoPow unitDepth

theorem unitsPerOne_pos : 0 < unitsPerOne := twoPow_pos unitDepth

/-- Past the largest double: `2 ^ 1024` in units. -/
def unitLimit : Nat := twoPow (unitDepth + 1024)

theorem unitLimit_pos : 0 < unitLimit := twoPow_pos (unitDepth + 1024)

/-- Units in the last place of the binade that `units` lies in. -/
def ulp (units : Nat) : Nat := twoPow (units.log2 - 52)

theorem ulp_pos (units : Nat) : 0 < ulp units := twoPow_pos _

/-- Units of a double have at most 53 significant bits: past the first 53, all are zero. -/
def Fits (units : Nat) : Prop := ulp units ∣ units ∧ units < unitLimit

instance (units : Nat) : Decidable (Fits units) :=
  inferInstanceAs (Decidable (_ ∧ _))

/-- `m * 2 ^ s` has no more significant bits than `m`. -/
theorem ulp_dvd_of_le {m s : Nat} (hm : m ≤ twoPow 53) :
    ulp (m * twoPow s) ∣ m * twoPow s := by
  show 2 ^ ((m * 2 ^ s).log2 - 52) ∣ m * 2 ^ s
  have hm : m ≤ 2 ^ 53 := hm
  by_cases h0 : m = 0
  · simp [h0]
  have hpos : m * 2 ^ s ≠ 0 := Nat.mul_ne_zero h0 (Nat.ne_of_gt (Nat.two_pow_pos s))
  by_cases h53 : m = 2 ^ 53
  · subst h53
    rw [← Nat.pow_add, Nat.log2_two_pow]
    exact Nat.pow_dvd_pow 2 (by omega)
  · have hlt : m * 2 ^ s < 2 ^ (53 + s) := by
      rw [Nat.pow_add]
      exact Nat.mul_lt_mul_of_pos_right (by omega) (Nat.two_pow_pos s)
    have hlog : (m * 2 ^ s).log2 < 53 + s := (Nat.log2_lt hpos).2 hlt
    exact Nat.dvd_trans (Nat.pow_dvd_pow 2 (by omega)) (Nat.dvd_mul_left ..)

/-- The multiple of the last place nearest to `n / d` units. -/
def roundUnits (n d : Nat) : Nat :=
  roundHalfEven n (d * ulp (n / d)) * ulp (n / d)

theorem roundUnits_significant {n d : Nat} :
    ulp (roundUnits n d) ∣ roundUnits n d := by
  refine ulp_dvd_of_le ?_
  refine Nat.le_trans (roundHalfEven_le ..) (Nat.succ_le_of_lt ?_)
  rw [← Nat.div_div_eq_div_mul]
  refine Nat.div_lt_of_lt_mul ?_
  show n / d < 2 ^ ((n / d).log2 - 52) * 2 ^ 53
  rw [← Nat.pow_add]
  refine Nat.lt_of_lt_of_le Nat.lt_log2_self (Nat.pow_le_pow_right (by decide) ?_)
  omega

theorem fits_zero : Fits 0 := ⟨Nat.dvd_zero _, unitLimit_pos⟩

/-- Units that fit are their own rounding. -/
theorem roundUnits_of_fits {units : Nat} (h : Fits units) : roundUnits units 1 = units := by
  have hdvd : ulp units ∣ units := h.1
  simp only [roundUnits, Nat.div_one, Nat.one_mul]
  rw [roundHalfEven_of_dvd (ulp_pos _) hdvd, Nat.div_mul_cancel hdvd]

/-! ## The type -/

/-- **A double-precision number**: a signed number of units of `2 ^ -1074`, an
infinity, or the value that is no number. -/
inductive Double where
  /-- `units * 2 ^ -1074`, with its sign; zero has both signs. -/
  | finite (negative : Bool) (units : Nat) (fits : Fits units)
  /-- Beyond every finite number. -/
  | infinite (negative : Bool)
  /-- The result of an operation without a value; unordered. -/
  | nan
  deriving DecidableEq

namespace Double

/-- **The double nearest to** `n / d` units, ties to even, infinite past the largest one. -/
def rounded (negative : Bool) (n d : Nat) : Double :=
  if h : roundUnits n d < unitLimit then .finite negative (roundUnits n d) ⟨roundUnits_significant, h⟩
  else .infinite negative

/-- The double nearest to a natural number. -/
def ofNat (n : Nat) : Double := rounded false (n * unitsPerOne) 1

/-- The double nearest to an integer; zero is positive. -/
def ofInt (i : Int) : Double := rounded (decide (i < 0)) (i.natAbs * unitsPerOne) 1

/-- Positive zero. -/
def zero : Double := .finite false 0 fits_zero

/-- Negative zero, from which sums start: it changes no summand. -/
def negZero : Double := .finite true 0 fits_zero

/-- One. -/
def one : Double := ofNat 1

instance : Inhabited Double := ⟨zero⟩

/-- Neither infinite nor the value that is no number. -/
def isFinite : Double → Bool
  | .finite .. => true
  | _ => false

/-- Signed units. -/
def signedUnits (negative : Bool) (units : Nat) : Int :=
  if negative then -(units : Int) else units

/-! ## Order -/

/-- How two doubles compare: by value, both zeros alike, and not at all with `nan`. -/
def compare? : Double → Double → Option Ordering
  | .nan, _ => none
  | _, .nan => none
  | .infinite s, .infinite t => some (Ord.compare t s)
  | .infinite s, .finite .. => some (if s then .lt else .gt)
  | .finite .., .infinite t => some (if t then .gt else .lt)
  | .finite s m _, .finite t n _ => some (Ord.compare (signedUnits s m) (signedUnits t n))

/-- Equal in value: `nan` equals nothing, and the zeros equal each other. -/
def sameValue (x y : Double) : Bool := x.compare? y == some .eq

/-- Strictly smaller in value. -/
def less (x y : Double) : Bool := x.compare? y == some .lt

/-- Smaller or equal in value. -/
def atMost (x y : Double) : Bool := x.less y || x.sameValue y

/-- Zero of either sign. -/
def isZero (x : Double) : Bool := x.sameValue zero

/-! ## Arithmetic -/

/-- The opposite number. -/
def neg : Double → Double
  | .finite s m h => .finite (!s) m h
  | .infinite s => .infinite (!s)
  | .nan => .nan

/-- The number without its sign. -/
def abs : Double → Double
  | .finite _ m h => .finite false m h
  | .infinite _ => .infinite false
  | .nan => .nan

/-- The sum, rounded once. A sum that cancels exactly is positive zero, but two
negative zeros sum to a negative one. -/
def add : Double → Double → Double
  | .nan, _ => .nan
  | _, .nan => .nan
  | .infinite s, .infinite t => if s == t then .infinite s else .nan
  | .infinite s, .finite .. => .infinite s
  | .finite .., .infinite t => .infinite t
  | .finite s m _, .finite t n _ =>
    let sum := signedUnits s m + signedUnits t n
    rounded (if sum = 0 then s && t else decide (sum < 0)) sum.natAbs 1

/-- The difference, rounded once. -/
def sub (x y : Double) : Double := x.add y.neg

/-- The product, rounded once. -/
def mul : Double → Double → Double
  | .nan, _ => .nan
  | _, .nan => .nan
  | .infinite s, .infinite t => .infinite (s != t)
  | .infinite s, .finite t n _ => if n = 0 then .nan else .infinite (s != t)
  | .finite s m _, .infinite t => if m = 0 then .nan else .infinite (s != t)
  | .finite s m _, .finite t n _ => rounded (s != t) (m * n) unitsPerOne

/-- The quotient, rounded once. -/
def div : Double → Double → Double
  | .nan, _ => .nan
  | _, .nan => .nan
  | .infinite _, .infinite _ => .nan
  | .infinite s, .finite t _ _ => .infinite (s != t)
  | .finite s _ _, .infinite t => .finite (s != t) 0 fits_zero
  | .finite s m _, .finite t n _ =>
    if n = 0 then (if m = 0 then .nan else .infinite (s != t))
    else rounded (s != t) (m * unitsPerOne) n

/-- The larger of a number and zero; zero for `nan`. -/
def clampNegative (x : Double) : Double := if zero.less x then x else zero

/-- The sum of a list, from negative zero on, left to right. -/
def sum (xs : List Double) : Double := xs.foldl add negZero

/-! ## Whole numbers -/

/-- A finite number without a fraction. -/
def isWhole : Double → Bool
  | .finite _ m _ => m % unitsPerOne == 0
  | _ => false

/-- The whole part, kept within `lo` and `hi`; zero for `nan`. -/
def toIntWithin (lo hi : Int) : Double → Int
  | .finite s m _ => max lo (min hi (signedUnits s (m / unitsPerOne)))
  | .infinite s => if s then lo else hi
  | .nan => 0

/-- The whole part as a signed 64-bit number, saturating. -/
def toInt64 : Double → Int :=
  toIntWithin (-(UInt64.size / 2 : Nat)) (UInt64.size / 2 - 1 : Nat)

/-- The whole part as an unsigned 64-bit number, saturating. -/
def toUInt64 (x : Double) : Nat := (x.toIntWithin 0 (UInt64.size - 1 : Nat)).toNat

end Double

end Storefront
