import Mathlib.Algebra.GroupWithZero.Nat
import Storefront.Numeric.Word
import Storefront.Page.Pagination

/-!
# Words

Counts and pages are numbers of 64 bits. Their arithmetic is exact as long as the
result is such a number, and past that there are two ways to go on: to give no
result (`Word.add?`) or to stop at the end of the range (`Word.addSaturating`).
Each is described here by the exact result: `Word.within?` says whether it is a
word, `Pagination.saturated` where it stops.

Adding up a list is the case in which a word is easily exceeded. Whether some sum on
the way is no word depends on the last one only (`Word.map_toNat_sum?`), as the
sums never fall.
-/

namespace Storefront

namespace Word

/-! ## Results that are words -/

/-- A natural number, if it is a word. -/
def within? (n : Nat) : Option Nat := if n < UInt64.size then some n else none

/-- The difference, if it is a word. -/
def sub? (a b : UInt64) : Option UInt64 := if b.toNat ≤ a.toNat then some (a - b) else none

/-- The product, if it is a word. -/
def mul? (a b : UInt64) : Option UInt64 :=
  if a.toNat * b.toNat < UInt64.size then some (a * b) else none

/-- The quotient, if there is one. -/
def div? (a b : UInt64) : Option UInt64 := if b.toNat = 0 then none else some (a / b)

/-- The remainder, if there is one. -/
def mod? (a b : UInt64) : Option UInt64 := if b.toNat = 0 then none else some (a % b)

theorem toNat_lt (w : UInt64) : w.toNat < UInt64.size := w.toNat_lt_size

theorem exists_toNat {n : Nat} (h : n < UInt64.size) : ∃ w : UInt64, w.toNat = n :=
  ⟨UInt64.ofNatLT n h, UInt64.toNat_ofNatLT⟩

theorem within?_of_lt {n : Nat} (h : n < UInt64.size) : within? n = some n := if_pos h

theorem within?_eq_some_iff {n m : Nat} : within? n = some m ↔ n < UInt64.size ∧ n = m := by
  rw [within?, Option.ite_none_right_eq_some, Option.some.injEq]

theorem within?_eq_none_iff {n : Nat} : within? n = none ↔ UInt64.size ≤ n := by
  rw [within?, ite_eq_right_iff]
  exact ⟨fun h => Nat.le_of_not_lt fun hlt => Option.some_ne_none n (h hlt),
    fun h hlt => absurd hlt (Nat.not_lt.2 h)⟩

/-- An operation that wraps, taken only where nothing is lost. -/
theorem map_toNat_ite {n : Nat} {w : UInt64} (h : w.toNat = n % UInt64.size) :
    (if n < UInt64.size then some w else none).map UInt64.toNat = within? n := by
  unfold within?
  split
  · next hlt => rw [Option.map_some, h, Nat.mod_eq_of_lt hlt]
  · rfl

theorem map_toNat_add? (a b : UInt64) : (add? a b).map UInt64.toNat = within? (a.toNat + b.toNat) :=
  map_toNat_ite (UInt64.toNat_add a b)

theorem map_toNat_mul? (a b : UInt64) : (mul? a b).map UInt64.toNat = within? (a.toNat * b.toNat) :=
  map_toNat_ite (UInt64.toNat_mul a b)

/-! ## Saturation -/

/-- The largest word. -/
def largest : UInt64 := UInt64.ofNatLT (UInt64.size - 1) (by decide)

/-- The sum, or the largest word past the end of the range. -/
def addSaturating (a b : UInt64) : UInt64 := (add? a b).getD largest

/-- The difference, or zero in front of the range. -/
def subSaturating (a b : UInt64) : UInt64 := (sub? a b).getD 0

/-- The product, or the largest word past the end of the range. -/
def mulSaturating (a b : UInt64) : UInt64 := (mul? a b).getD largest

open Pagination (limit saturated)

theorem toNat_getD_largest {r : Option UInt64} {n : Nat} (h : r.map UInt64.toNat = within? n) :
    (r.getD largest).toNat = saturated n := by
  have hlargest : largest.toNat = limit := UInt64.toNat_ofNatLT
  have hsize : UInt64.size = limit + 1 := rfl
  cases r with
  | none =>
    have hn : UInt64.size ≤ n := within?_eq_none_iff.1 h.symm
    rw [Option.getD_none, hlargest, saturated]
    omega
  | some w =>
    obtain ⟨hlt, rfl⟩ := within?_eq_some_iff.1 h.symm
    rw [Option.getD_some, saturated]
    omega

theorem toNat_addSaturating (a b : UInt64) :
    (addSaturating a b).toNat = saturated (a.toNat + b.toNat) :=
  toNat_getD_largest (map_toNat_add? a b)

theorem toNat_mulSaturating (a b : UInt64) :
    (mulSaturating a b).toNat = saturated (a.toNat * b.toNat) :=
  toNat_getD_largest (map_toNat_mul? a b)

theorem toNat_subSaturating (a b : UInt64) : (subSaturating a b).toNat = a.toNat - b.toNat := by
  unfold subSaturating sub?
  split
  · next h => exact UInt64.toNat_sub_of_le _ _ (UInt64.le_iff_toNat_le.2 h)
  · next h =>
    rw [Option.getD_none, Nat.sub_eq_zero_of_le (Nat.le_of_not_le h)]
    rfl

/-! ## Sums of lists -/

/-- Adding on from a start: the invariant of adding up a list. -/
theorem map_toNat_foldlM_add? (ws : List UInt64) (w : UInt64) :
    (ws.foldlM add? w).map UInt64.toNat = within? (w.toNat + (ws.map UInt64.toNat).sum) := by
  induction ws generalizing w with
  | nil => exact (within?_of_lt (toNat_lt w)).symm
  | cons a ws ih =>
    rw [List.foldlM_cons, List.map_cons, List.sum_cons, ← Nat.add_assoc]
    have hstep := map_toNat_add? w a
    cases hadd : add? w a with
    | none =>
      -- what is no word after one step is none after any number of them
      have hover : UInt64.size ≤ w.toNat + a.toNat := by
        rw [hadd] at hstep
        exact within?_eq_none_iff.1 hstep.symm
      exact (within?_eq_none_iff.2 (Nat.le_trans hover (Nat.le_add_right _ _))).symm
    | some v =>
      have hv : w.toNat + a.toNat = v.toNat := by
        rw [hadd] at hstep
        exact (within?_eq_some_iff.1 hstep.symm).2
      rw [hv]
      exact ih v

/-- **A list is added up without leaving the words exactly when its sum is one.** -/
theorem map_toNat_sum? (ws : List UInt64) :
    (sum? ws).map UInt64.toNat = within? (ws.map UInt64.toNat).sum := by
  have h := map_toNat_foldlM_add? ws 0
  rwa [UInt64.toNat_zero, Nat.zero_add] at h

end Word

/-! ## Whole parts of doubles -/

namespace Double

theorem toUInt64_zero : zero.toUInt64 = 0 := by
  rw [toUInt64, zero, toIntWithin, Nat.zero_div]
  rfl

/-- What is cut at the ends of the words need not be cut at zero before. -/
theorem toUInt64_clampNegative (x : Double) : x.clampNegative.toUInt64 = x.toUInt64 := by
  unfold clampNegative
  split
  · rfl
  · next hless =>
    rw [toUInt64_zero]
    match x with
    | .nan | .infinite true => rfl
    | .infinite false => exact absurd rfl hless
    | .finite true m _ =>
      simp only [toUInt64, toIntWithin, signedUnits, if_true]
      generalize m / unitsPerOne = whole
      omega
    | .finite false m fits =>
      -- what is not more than zero is zero
      have hm : m = 0 := Nat.eq_zero_of_not_pos fun hpos => hless <| by
        have hcompare : Ord.compare (signedUnits false 0) (signedUnits false m) = .lt :=
          Int.compare_eq_lt.2 (Int.natCast_pos.2 hpos)
        rw [less, zero, compare?, hcompare]
        rfl
      rw [toUInt64, toIntWithin, hm, Nat.zero_div]
      rfl

theorem toWord_clampNegative (x : Double) : x.clampNegative.toWord = x.toWord :=
  UInt64.toNat_inj.1 <| by rw [toNat_toWord, toNat_toWord, toUInt64_clampNegative]

end Double

end Storefront
