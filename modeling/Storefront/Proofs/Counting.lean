import Mathlib.Algebra.GroupWithZero.Nat
import Storefront.Numeric.Double

/-!
# Counting with doubles

Quantities are doubles, and counts of units are sums of quantities. A double has
53 significant bits, so up to `2 ^ 53` it counts exactly: the natural numbers fit,
and as long as a sum stays in that range no addition rounds
(`Double.natural?_add`, `Double.natural?_sum`). A sum of doubles starts from
negative zero, which stands for the number zero like the positive one.
-/

namespace Storefront

theorem twoPow_add (m n : Nat) : twoPow (m + n) = twoPow m * twoPow n := Nat.pow_add 2 m n

theorem twoPow_lt {m n : Nat} (h : m < n) : twoPow m < twoPow n :=
  Nat.pow_lt_pow_right Nat.one_lt_two h

/-- Natural numbers up to `2 ^ 53` fit, in units. -/
theorem fits_natural {n : Nat} (h : n ≤ twoPow 53) : Fits (n * unitsPerOne) := by
  refine ⟨ulp_dvd_of_le h, Nat.lt_of_le_of_lt (Nat.mul_le_mul_right _ h) ?_⟩
  rw [unitsPerOne, unitLimit, ← twoPow_add, Nat.add_comm]
  exact twoPow_lt (Nat.add_lt_add_left (by decide) unitDepth)

namespace Double

/-- **The natural number that a double stands for**, when it stands for one. -/
def natural? : Double → Option Nat
  | .finite s m _ => if unitsPerOne ∣ m ∧ (s = true → m = 0) then some (m / unitsPerOne) else none
  | _ => none

theorem finite_congr {s : Bool} {m n : Nat} (h : m = n) (fits : Fits m) :
    finite s m fits = finite s n (h ▸ fits) := by
  subst h
  rfl

/-- The doubles of a natural number: only zero has one with a minus sign. -/
theorem natural?_eq_some {x : Double} {n : Nat} :
    x.natural? = some n ↔
      ∃ s fits, x = .finite s (n * unitsPerOne) fits ∧ (s = true → n = 0) := by
  constructor
  · intro h
    match x with
    | .infinite _ | .nan => exact absurd h.symm (Option.some_ne_none n)
    | .finite s m fits =>
      rw [natural?, Option.ite_none_right_eq_some] at h
      obtain ⟨⟨hdvd, hsign⟩, hm⟩ := h
      have hunits : m = n * unitsPerOne := by
        rw [← Option.some.inj hm, Nat.div_mul_cancel hdvd]
      refine ⟨s, hunits ▸ fits, finite_congr hunits fits, fun hs => ?_⟩
      rw [← Option.some.inj hm, hsign hs, Nat.zero_div]
  · rintro ⟨s, fits, rfl, hsign⟩
    have hm : s = true → n * unitsPerOne = 0 := fun hs => by rw [hsign hs, Nat.zero_mul]
    rw [natural?, if_pos ⟨Nat.dvd_mul_left _ _, hm⟩, Nat.mul_div_cancel _ unitsPerOne_pos]

theorem natural?_finite {n : Nat} (fits : Fits (n * unitsPerOne)) :
    natural? (.finite false (n * unitsPerOne) fits) = some n :=
  natural?_eq_some.2 ⟨false, fits, rfl, fun h => absurd h Bool.false_ne_true⟩

/-- Zero with either sign stands for zero. -/
theorem natural?_finite_zero (s : Bool) : natural? (.finite s 0 fits_zero) = some 0 := by
  rw [natural?, if_pos ⟨Nat.dvd_zero _, fun _ => rfl⟩, Nat.zero_div]

/-- Units that fit are not rounded. -/
theorem rounded_of_fits {units : Nat} (s : Bool) (h : Fits units) :
    rounded s units 1 = .finite s units h := by
  have hround : roundUnits units 1 = units := roundUnits_of_fits h
  rw [rounded, dif_pos (by rw [hround]; exact h.2)]
  congr

/-- **Whole numbers of page data are exact** up to `2 ^ 53`. -/
theorem natural?_ofInt {n : Nat} (h : n ≤ twoPow 53) : (ofInt n).natural? = some n := by
  have hsign : decide ((n : Int) < 0) = false := decide_eq_false (by omega)
  rw [ofInt, hsign, Int.natAbs_natCast, rounded_of_fits false (fits_natural h)]
  exact natural?_finite _

theorem natural?_one : one.natural? = some 1 := by
  have hfits : Fits (1 * unitsPerOne) := fits_natural (twoPow_pos 53)
  rw [one, ofNat, rounded_of_fits false hfits]
  exact natural?_finite _

/-! ## Operations -/

/-- The integer that the units of a natural number are, with either sign. -/
theorem signedUnits_natural {s : Bool} {n : Nat} (h : s = true → n = 0) :
    signedUnits s (n * unitsPerOne) = ((n * unitsPerOne : Nat) : Int) := by
  cases s with
  | false => rfl
  | true =>
    rw [h rfl, Nat.zero_mul]
    rfl

/-- **Sums in the exact range are not rounded.** -/
theorem natural?_add {x y : Double} {m n : Nat} (hx : x.natural? = some m)
    (hy : y.natural? = some n) (h : m + n ≤ twoPow 53) : (x.add y).natural? = some (m + n) := by
  obtain ⟨s, hm, rfl, hs⟩ := natural?_eq_some.1 hx
  obtain ⟨t, hn, rfl, ht⟩ := natural?_eq_some.1 hy
  have hsum : signedUnits s (m * unitsPerOne) + signedUnits t (n * unitsPerOne) =
      (((m + n) * unitsPerOne : Nat) : Int) := by
    rw [signedUnits_natural hs, signedUnits_natural ht, Nat.add_mul, Int.natCast_add]
  have hfits : Fits ((m + n) * unitsPerOne) := fits_natural h
  rw [add, hsum, Int.natAbs_natCast, rounded_of_fits _ hfits]
  refine natural?_eq_some.2 ⟨_, hfits, rfl, fun hsign => ?_⟩
  -- a sum that is not zero has no minus sign
  refine Decidable.by_contra fun hne => ?_
  have hunits : (((m + n) * unitsPerOne : Nat) : Int) ≠ 0 :=
    Int.natCast_ne_zero.2 (Nat.mul_ne_zero hne (Nat.ne_of_gt unitsPerOne_pos))
  rw [if_neg hunits] at hsign
  exact absurd (of_decide_eq_true hsign) (Int.not_lt.2 (Int.natCast_nonneg _))

/-- Sums from a start on: the invariant of adding up a list. -/
theorem natural?_foldl_add {xs : List Double} {ns : List Nat} {x : Double} {n : Nat}
    (hxs : xs.map natural? = ns.map some) (hx : x.natural? = some n)
    (h : n + ns.sum ≤ twoPow 53) : (xs.foldl add x).natural? = some (n + ns.sum) := by
  induction ns generalizing xs x n with
  | nil =>
    obtain rfl : xs = [] := List.map_eq_nil_iff.1 hxs
    exact hx
  | cons m ns ih =>
    obtain ⟨y, ys, rfl, hy, hys⟩ := List.map_eq_cons_iff.1 (hxs.trans List.map_cons)
    rw [List.sum_cons, ← Nat.add_assoc] at h
    rw [List.foldl_cons, List.sum_cons, ← Nat.add_assoc]
    exact ih hys (natural?_add hx hy (by omega)) h

/-- **A sum of natural numbers is exact** as long as it is at most `2 ^ 53`. -/
theorem natural?_sum {xs : List Double} {ns : List Nat} (hxs : xs.map natural? = ns.map some)
    (h : ns.sum ≤ twoPow 53) : (sum xs).natural? = some ns.sum := by
  rw [← Nat.zero_add ns.sum]
  exact natural?_foldl_add hxs (natural?_finite_zero true) (by rwa [Nat.zero_add])

/-- Natural numbers of 64 bits are their own whole part. -/
theorem toUInt64_of_natural? {x : Double} {n : Nat} (hx : x.natural? = some n)
    (h : n < UInt64.size) : x.toUInt64 = n := by
  obtain ⟨s, fits, rfl, hs⟩ := natural?_eq_some.1 hx
  have hunits : signedUnits s n = n := by
    cases s with
    | false => rfl
    | true =>
      rw [hs rfl]
      rfl
  rw [toUInt64, toIntWithin, Nat.mul_div_cancel _ unitsPerOne_pos, hunits]
  omega

end Double

end Storefront
