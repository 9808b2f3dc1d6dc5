import Mathlib.Tactic.Ring
import Storefront.Proofs.Sameness

/-!
# Whole numbers past the signed range

A whole number of the signed 64-bit range is written with its own digits, and different ones are
written differently (`intText_inj`). One past that range goes through a double, and is shown with
the shortest digits that read back to it.

Doubles are 2048 apart there, so the double holds another number as a rule (`Double.held`). Since
the spacing is more than 1000, each double has a multiple of 1000 next to it that is rounded to it
(`Double.roundUnits_near`): the grid of thousands has a candidate, and no finer grid is tried
(`Double.exponent_shortest`). So what is shown ends in three zeros (`Double.displayText_word`), and
two numbers are shown alike when the same number is held for both (`Double.ofInt_eq_iff`).
-/

namespace Storefront

/-! ## Digits -/

/-- Zeros behind the digits of a number are digits of its multiple. -/
theorem natDigits_append_zeros {n : Nat} (hn : 0 < n) (k : Nat) :
    natDigits n ++ List.replicate k '0' = natDigits (n * 10 ^ k) := by
  induction k with
  | zero => rw [List.replicate_zero, List.append_nil, Nat.pow_zero, Nat.mul_one]
  | succ k ih =>
    have hpos : 0 < n * 10 ^ k := Nat.mul_pos hn (Nat.pow_pos (by decide))
    have hlast : natDigits (n * 10 ^ k) ++ ['0'] = natDigits (10 * (n * 10 ^ k) + 0) :=
      Nat.toDigits_append_toDigits (b := 10) (d := 0) (by decide) hpos (by decide)
    rw [List.replicate_succ', ← List.append_assoc, ih, hlast, Nat.add_zero, Nat.pow_succ']
    congr 1
    ring

/-- Zeros behind the digits of a number are more digits. -/
theorem digitCount_mul_pow {n : Nat} (hn : 0 < n) (k : Nat) :
    digitCount (n * 10 ^ k) = digitCount n + k := by
  induction k with
  | zero => rw [Nat.pow_zero, Nat.mul_one, Nat.add_zero]
  | succ k ih =>
    have hpos : 0 < n * 10 ^ k := Nat.mul_pos hn (Nat.pow_pos (by decide))
    rw [Nat.pow_succ, ← Nat.mul_assoc, digitCount_mul_ten hpos, ih, Nat.add_assoc]

theorem minus_mem_intText {i : Int} : '-' ∈ (intText i).toList ↔ i < 0 := by
  have hdigits : '-' ∉ natDigits i.natAbs := fun hmem =>
    absurd (isDigit_natDigits _ _ hmem) (by decide)
  rw [toList_intText_eq_sign, List.mem_append, or_iff_left hdigits, Double.signText]
  by_cases hi : i < 0
  · simp [hi]
  · simp [hi]

theorem digits_intText (i : Int) : (intText i).toList.filter Char.isDigit = natDigits i.natAbs := by
  have hsign : (Double.signText (decide (i < 0))).filter Char.isDigit = [] := by
    cases decide (i < 0) with
    | false => rfl
    | true => rfl
  rw [toList_intText_eq_sign, List.filter_append, hsign, List.nil_append,
    List.filter_eq_self.2 (isDigit_natDigits _)]

/-- **Different integers are written differently**: the sign is there or not, and the digits are
those of the magnitude. -/
theorem intText_inj {m n : Int} : intText m = intText n ↔ m = n := by
  refine ⟨fun h => ?_, congrArg intText⟩
  have hsign : m < 0 ↔ n < 0 := by rw [← minus_mem_intText, h, minus_mem_intText]
  have habs : m.natAbs = n.natAbs := by
    rw [← digitsValue_natDigits m.natAbs, ← digits_intText, h, digits_intText, digitsValue_natDigits]
  omega

/-! ## Rounding whole numbers -/

namespace Double

/-- The last place of a whole number with more than 52 bits behind its first one. -/
theorem ulp_natural {n b : Nat} (hb : 52 ≤ b) (hlow : 2 ^ b ≤ n) (hhigh : n < 2 ^ (b + 1)) :
    ulp (n * unitsPerOne) = twoPow (b - 52) * unitsPerOne := by
  have hne : n * unitsPerOne ≠ 0 :=
    Nat.mul_ne_zero (Nat.ne_of_gt ((Nat.two_pow_pos b).trans_le hlow)) (Nat.ne_of_gt unitsPerOne_pos)
  have hlog : (n * unitsPerOne).log2 = b + unitDepth := by
    have hbelow : twoPow (b + unitDepth) ≤ n * unitsPerOne := by
      rw [twoPow_add]
      exact Nat.mul_le_mul_right _ hlow
    have habove : n * unitsPerOne < twoPow (b + 1 + unitDepth) := by
      rw [twoPow_add]
      exact Nat.mul_lt_mul_of_pos_right hhigh unitsPerOne_pos
    rw [Nat.add_right_comm] at habove
    exact (Nat.log2_eq_iff hne).2 ⟨hbelow, habove⟩
  rw [ulp, hlog, Nat.sub_add_comm hb, twoPow_add]
  rfl

/-- **A whole number is rounded to a multiple of a power of two.** -/
theorem roundUnits_natural {n b : Nat} (hb : 52 ≤ b) (hlow : 2 ^ b ≤ n) (hhigh : n < 2 ^ (b + 1)) :
    roundUnits (n * unitsPerOne) 1 =
      roundHalfEven n (twoPow (b - 52)) * twoPow (b - 52) * unitsPerOne := by
  rw [roundUnits, Nat.div_one, Nat.one_mul, ulp_natural hb hlow hhigh,
    roundHalfEven_mul unitsPerOne_pos, Nat.mul_assoc]

/-- Past the signed range, doubles are so far apart that a number is rounded to them from up to 500
away. -/
theorem roundUnits_near {value n : Nat} (hvalue : 2048 ∣ value) (hlow : 2 ^ 63 ≤ value)
    (hhigh : value ≤ 2 ^ 64) (hbelow : value ≤ n + 500) (habove : n ≤ value + 500) :
    roundUnits (n * unitsPerOne) 1 = value * unitsPerOne := by
  have hten : twoPow (62 - 52) = 1024 := by decide
  have heleven : twoPow (63 - 52) = 2048 := by decide
  have htwelve : twoPow (64 - 52) = 4096 := by decide
  obtain ⟨k, rfl⟩ := hvalue
  -- the number may lie a little outside of the range, where the last place is another
  obtain hn | hn := Nat.lt_or_ge n (2 ^ 63)
  · have hround : roundHalfEven n 1024 = 2 * k := roundHalfEven_near (by omega) (by omega)
    rw [roundUnits_natural (b := 62) (by decide) (by omega) hn, hten, hround,
      show 2 * k * 1024 = 2048 * k by omega]
  · obtain hn' | hn' := Nat.lt_or_ge n (2 ^ 64)
    · have hround : roundHalfEven n 2048 = k := roundHalfEven_near (by omega) (by omega)
      rw [roundUnits_natural (b := 63) (by decide) hn hn', heleven, hround, Nat.mul_comm k]
    · have hround : roundHalfEven n 4096 = 2 ^ 52 := roundHalfEven_near (by omega) (by omega)
      rw [roundUnits_natural (b := 64) (by decide) hn' (by omega), htwelve, hround,
        show 2 ^ 52 * 4096 = 2048 * k by omega]

theorem rounded_of_roundUnits {n units : Nat} (fits : Fits units) (h : roundUnits n 1 = units)
    (s : Bool) : rounded s n 1 = .finite s units fits := by
  subst h
  exact dif_pos fits.2

/-- The whole number that a double holds in place of one past the signed range. -/
def held (n : Nat) : Nat := roundHalfEven n 2048 * 2048

theorem le_held {n : Nat} (h : 2 ^ 63 ≤ n) : 2 ^ 63 ≤ held n := by
  have := le_roundHalfEven n 2048
  unfold held
  omega

theorem held_le {n : Nat} (h : n < 2 ^ 64) : held n ≤ 2 ^ 64 := by
  have := roundHalfEven_le n 2048
  unfold held
  omega

/-- A multiple of 2048 of the unsigned range, with the first number behind it, is held as it is. -/
theorem fits_held {value : Nat} (hvalue : 2048 ∣ value) (hlow : 2 ^ 63 ≤ value)
    (hhigh : value ≤ 2 ^ 64) : Fits (value * unitsPerOne) := by
  have hround := roundUnits_near hvalue hlow hhigh (Nat.le_add_right ..) (Nat.le_add_right ..)
  refine ⟨hround ▸ roundUnits_significant, ?_⟩
  have hlimit : twoPow 65 * unitsPerOne ≤ unitLimit := by
    rw [unitsPerOne, unitLimit]
    exact mul_twoPow_le (Nat.le_refl _) (by decide)
  exact (Nat.mul_lt_mul_of_pos_right (hhigh.trans_lt (by decide)) unitsPerOne_pos).trans_le hlimit

/-- **The double of a whole number past the signed range.** -/
theorem ofInt_word {n : Nat} (hlow : 2 ^ 63 ≤ n) (hhigh : n < 2 ^ 64)
    (fits : Fits (held n * unitsPerOne)) : ofInt n = .finite false (held n * unitsPerOne) fits := by
  have hsign : decide ((n : Int) < 0) = false := decide_eq_false (by omega)
  have heleven : twoPow (63 - 52) = 2048 := by decide
  rw [ofInt, hsign, Int.natAbs_natCast]
  refine rounded_of_roundUnits fits ?_ false
  rw [roundUnits_natural (b := 63) (by decide) hlow hhigh, heleven, held]

/-! ## The shortest digits past the signed range -/

theorem le_exponent_stripped (d : Decimal) : d.exponent ≤ d.stripped.exponent := by
  have hgo : ∀ fuel d, d.exponent ≤ (Decimal.stripped.go fuel d).exponent := by
    intro fuel d
    fun_induction Decimal.stripped.go fuel d with
    | case1 d => exact Int.le_refl _
    | case2 fuel d h ih =>
      dsimp only at ih
      omega
    | case3 fuel d h => exact Int.le_refl _
  exact hgo d.digits d

/-- Candidates end at the place they are cut at. -/
theorem exponent_of_candidate? {tie : Tie} {units cut : Nat} {d : Decimal}
    (h : candidate? tie units cut = some d) : d.exponent = cut + lastPlace := by
  have hmem := List.mem_of_find?_eq_some h
  unfold candidates at hmem
  dsimp only at hmem
  split at hmem
  · obtain rfl | rfl := List.mem_pair.1 hmem
    · rfl
    · rfl
  · obtain rfl | rfl := List.mem_pair.1 hmem
    · rfl
    · rfl

/-- The first candidate that is found, coarse grids first. -/
def firstCandidate? (tie : Tie) (units : Nat) : Option Decimal :=
  (List.range digitLimit).findSome? fun n =>
    candidate? tie units (digitCount (exactDigits units) - (n + 1))

theorem shortest_eq {tie : Tie} {units : Nat} (hpos : 0 < units) :
    shortest tie units =
      ((firstCandidate? tie units).getD ⟨exactDigits units, lastPlace⟩).stripped := by
  rw [shortest, if_neg (Nat.ne_of_gt hpos)]
  rfl

/-- **A grid that has a candidate** bounds the last place of the shortest digits, since finer grids
are tried after it. -/
theorem le_exponent_shortest {tie : Tie} {units cut : Nat} (hpos : 0 < units)
    (hcandidate : (candidate? tie units cut).isSome) (hcut : cut < digitCount (exactDigits units))
    (hlimit : digitCount (exactDigits units) ≤ cut + digitLimit) :
    cut + lastPlace ≤ (shortest tie units).exponent := by
  obtain ⟨n, hn⟩ := Nat.exists_eq_add_of_lt hcut
  have hgrid : digitCount (exactDigits units) - (n + 1) = cut := by omega
  have hfound : (firstCandidate? tie units).isSome := by
    refine List.findSome?_isSome_iff.2 ⟨n, List.mem_range.2 (by omega), ?_⟩
    rwa [hgrid]
  obtain ⟨d, hd⟩ := Option.isSome_iff_exists.1 hfound
  obtain ⟨front, k, back, hrange, hk, hfront⟩ := List.findSome?_eq_some_iff.1 hd
  have hfirst : k ≤ n := by
    refine Nat.le_of_not_lt fun hlt => ?_
    have hin : n ∈ front ++ k :: back := hrange ▸ List.mem_range.2 (by omega)
    have hsorted : (front ++ k :: back).Pairwise (· < ·) := hrange ▸ List.pairwise_lt_range
    have hmem : n ∈ front := by
      obtain hin | hin := List.mem_append.1 hin
      · exact hin
      · obtain rfl | hback := List.mem_cons.1 hin
        · exact absurd hlt (Nat.lt_irrefl n)
        · have hlater := (List.pairwise_cons.1 (List.pairwise_append.1 hsorted).2.1).1 n hback
          exact absurd hlt (Nat.lt_asymm hlater)
    have hnone := hfront n hmem
    rw [hgrid] at hnone
    rw [hnone] at hcandidate
    cases hcandidate
  have hexponent := exponent_of_candidate? hk
  have hstripped := le_exponent_stripped d
  rw [shortest_eq hpos, hd, Option.getD_some]
  omega

variable {value : Nat}

/-- Cut before its last three digits, a whole number past the signed range still reads back. -/
theorem readsBack_thousands (hvalue : 2048 ∣ value) (hlow : 2 ^ 63 ≤ value) (hhigh : value ≤ 2 ^ 64)
    {k : Nat} (hbelow : value ≤ k * 1000 + 500) (habove : k * 1000 ≤ value + 500) :
    readsBack ⟨k, 3⟩ (value * unitsPerOne) = true := by
  have hsmall : k * 10 ^ 3 < 10 ^ 100 :=
    (show k * 10 ^ 3 < 10 ^ 20 by omega).trans (Nat.pow_lt_pow_right (by decide) (by decide))
  have hplaces := Decimal.toDouble_mul_pow k 3 false
  rw [readsBack_iff (fits_held hvalue hlow hhigh)]
  refine hplaces.symm.trans ((toDouble_natural hsmall false).trans ?_)
  exact rounded_of_roundUnits _ (roundUnits_near hvalue hlow hhigh hbelow habove) false

/-- The exact expansion of a whole number has its digits in front of the point alone. -/
theorem exactDigits_natural (n : Nat) : exactDigits (n * unitsPerOne) = n * 10 ^ unitDepth := by
  have hscale : unitsPerOne * Nat.pow 5 1074 = 10 ^ unitDepth := by decide +kernel
  rw [exactDigits, Nat.mul_assoc, hscale]

theorem place_lastPlace (k : Nat) : ((k + unitDepth : Nat) : Int) + lastPlace = k := by
  rw [unitDepth, lastPlace]
  omega

/-- **The candidates for a whole number** without its last `k` places. -/
theorem isSome_candidate?_natural {tie : Tie} {n k : Nat}
    (h : readsBack ⟨n / 10 ^ k, k⟩ (n * unitsPerOne) = true ∨
      readsBack ⟨n / 10 ^ k + 1, k⟩ (n * unitsPerOne) = true) :
    (candidate? tie (n * unitsPerOne) (k + unitDepth)).isSome := by
  have hpos : 0 < 10 ^ unitDepth := Nat.pow_pos (by decide)
  have hstep : Nat.pow 10 (k + unitDepth) = 10 ^ k * 10 ^ unitDepth := Nat.pow_add 10 k unitDepth
  rw [candidate?, List.find?_isSome, candidates, exactDigits_natural, hstep,
    Nat.mul_div_mul_right n (10 ^ k) hpos, place_lastPlace]
  split
  · simpa using h
  · simpa using h.symm

theorem candidate?_thousands (hvalue : 2048 ∣ value) (hlow : 2 ^ 63 ≤ value)
    (hhigh : value ≤ 2 ^ 64) (tie : Tie) :
    (candidate? tie (value * unitsPerOne) (3 + unitDepth)).isSome := by
  refine isSome_candidate?_natural ?_
  obtain hrest | hrest := Nat.le_total (value % 1000) 500
  · exact .inl (readsBack_thousands hvalue hlow hhigh (by omega) (by omega))
  · exact .inr (readsBack_thousands hvalue hlow hhigh (by omega) (by omega))

/-- Whole numbers past the signed range have 19 or 20 digits. -/
theorem digitCount_word (hlow : 2 ^ 63 ≤ value) (hhigh : value ≤ 2 ^ 64) :
    19 ≤ digitCount value ∧ digitCount value ≤ 20 := by
  constructor
  · refine Nat.lt_of_not_le fun h => ?_
    have := (digitCount_le_iff (by decide)).1 h
    omega
  · exact (digitCount_le_iff (by decide)).2 (by omega)

/-- **The shortest digits of a whole number past the signed range** leave out its last three
places. -/
theorem exponent_shortest (hvalue : 2048 ∣ value) (hlow : 2 ^ 63 ≤ value) (hhigh : value ≤ 2 ^ 64)
    (tie : Tie) : 3 ≤ (shortest tie (value * unitsPerOne)).exponent := by
  obtain ⟨hmore, hless⟩ := digitCount_word hlow hhigh
  have hpos : 0 < value := by omega
  have hcount : digitCount (exactDigits (value * unitsPerOne)) = digitCount value + unitDepth := by
    rw [exactDigits_natural, digitCount_mul_pow hpos]
  have hlimit : digitLimit = 17 := rfl
  have hplace := le_exponent_shortest (Nat.mul_pos hpos unitsPerOne_pos)
    (candidate?_thousands hvalue hlow hhigh tie) (by omega) (by omega)
  rwa [place_lastPlace] at hplace

/-- A whole number whose digits read as a finite double is rounded to it. -/
theorem ofInt_of_toDouble {n units : Nat} {fits : Fits units}
    (h : Decimal.toDouble ⟨n, 0⟩ false = .finite false units fits) :
    ofInt n = .finite false units fits := by
  have hsign : decide ((n : Int) < 0) = false := decide_eq_false (by omega)
  have hone : n * Nat.pow 10 (0 : Int).toNat * unitsPerOne = n * unitsPerOne := by
    rw [Int.toNat_zero, show Nat.pow 10 0 = 1 from rfl, Nat.mul_one]
  rw [ofInt, hsign, Int.natAbs_natCast]
  rw [Decimal.toDouble, hone] at h
  split at h
  · next hzero =>
    obtain rfl : n = 0 := hzero
    rw [Nat.zero_mul, rounded_of_fits false fits_zero, h]
  · split at h
    · cases h
    · split at h
      · next hsmall =>
        dsimp only at hsmall
        omega
      · rwa [if_pos (Int.le_refl 0)] at h

/-- Digits with three places left out at least, written out. -/
theorem positional_natural {d : Decimal} (hthree : 3 ≤ d.exponent) (hdigits : d.digits ≠ 0) :
    ∃ k : Nat, d.positional = natDigits k ∧ 1000 ∣ k ∧ ∀ s, Decimal.toDouble ⟨k, 0⟩ s = d.toDouble s := by
  obtain ⟨m, exponent⟩ := d
  obtain ⟨e, rfl⟩ := Int.eq_ofNat_of_zero_le (show 0 ≤ exponent from by dsimp only at hthree; omega)
  have he : 3 ≤ e := Int.ofNat_le.1 hthree
  refine ⟨m * 10 ^ e, ?_, Dvd.dvd.mul_left (Nat.pow_dvd_pow 10 he) m, fun s =>
    Decimal.toDouble_mul_pow m e s⟩
  rw [Decimal.positional, if_pos (Int.natCast_nonneg e), Int.toNat_natCast]
  exact natDigits_append_zeros (Nat.pos_of_ne_zero hdigits) e

/-- **What is displayed for a whole number past the signed range**: the digits of a multiple of 1000
that is rounded to the same double. -/
theorem displayText_word {n : Nat} (hlow : 2 ^ 63 ≤ n) (hhigh : n < 2 ^ 64) :
    ∃ k : Nat, (ofInt n).displayText = intText k ∧ 1000 ∣ k ∧ ofInt k = ofInt n := by
  have hvalue : 2048 ∣ held n := Nat.dvd_mul_left ..
  have hheldlow := le_held hlow
  have hheldhigh := held_le hhigh
  have fits := fits_held hvalue hheldlow hheldhigh
  have hpos : 0 < held n := by omega
  have hlarge : ¬ held n < 1000000000000000 := by omega
  have hthree := exponent_shortest hvalue hheldlow hheldhigh .up
  have hback := toDouble_shortest .up fits (Nat.mul_pos hpos unitsPerOne_pos) false
  rw [ofInt_word hlow hhigh fits, displayText, Nat.mul_div_cancel _ unitsPerOne_pos,
    if_neg fun h => hlarge h.2]
  generalize shortest .up (held n * unitsPerOne) = d at *
  have hdigits : d.digits ≠ 0 := by
    intro hzero
    rw [Decimal.toDouble, if_pos hzero] at hback
    injection hback with _ hunits
    exact absurd hunits.symm (Nat.ne_of_gt (Nat.mul_pos hpos unitsPerOne_pos))
  obtain ⟨k, htext, hk, hread⟩ := positional_natural hthree hdigits
  refine ⟨k, ?_, hk, ofInt_of_toDouble ((hread false).trans hback)⟩
  rw [htext, ← toList_intText, signText, if_neg Bool.false_ne_true, List.nil_append,
    String.ofList_toList]

theorem units_inj {s : Bool} {m n : Nat} {hm : Fits m} {hn : Fits n}
    (h : finite s m hm = finite s n hn) : m = n :=
  (finite.inj h).2

theorem roundUnits_of_ofInt {n units : Nat} {fits : Fits units}
    (h : ofInt n = .finite false units fits) : roundUnits (n * unitsPerOne) 1 = units := by
  have hsign : decide ((n : Int) < 0) = false := decide_eq_false (by omega)
  rw [ofInt, hsign, Int.natAbs_natCast, rounded] at h
  split at h
  · exact units_inj h
  · cases h

/-- No multiple of 1000 of the signed range is rounded to a double past it. -/
theorem le_of_ofInt_eq {k n : Nat} (hk : 1000 ∣ k) (hlow : 2 ^ 63 ≤ n) (hhigh : n < 2 ^ 64)
    (h : ofInt k = ofInt n) : 2 ^ 63 ≤ k := by
  have hheld := le_held hlow
  have fits := fits_held (Nat.dvd_mul_left ..) hheld (held_le hhigh)
  have hround := roundUnits_of_ofInt (h.trans (ofInt_word hlow hhigh fits))
  refine Nat.le_of_not_lt fun hsmall => ?_
  obtain hless | hmore := Nat.lt_or_ge k (2 ^ 62)
  · have htwice := roundUnits_le (k * unitsPerOne)
    rw [hround, ← Nat.mul_assoc] at htwice
    have := Nat.le_of_mul_le_mul_right htwice unitsPerOne_pos
    omega
  · have hten : twoPow (62 - 52) = 1024 := by decide
    rw [roundUnits_natural (b := 62) (by decide) hmore hsmall, hten] at hround
    have hword := Nat.eq_of_mul_eq_mul_right unitsPerOne_pos hround
    have hnearest := roundHalfEven_nearest k (d := 1024) (by decide)
    rw [hword, abs_eq_max_neg] at hnearest
    omega

/-- **Two whole numbers past the signed range are rounded to one double** when they are held as the
same number. -/
theorem ofInt_eq_iff {m n : Nat} (hm : 2 ^ 63 ≤ m ∧ m < 2 ^ 64) (hn : 2 ^ 63 ≤ n ∧ n < 2 ^ 64) :
    ofInt m = ofInt n ↔ held m = held n := by
  have hfits : ∀ {k}, 2 ^ 63 ≤ k ∧ k < 2 ^ 64 → Fits (held k * unitsPerOne) := fun hk =>
    fits_held (Nat.dvd_mul_left ..) (le_held hk.1) (held_le hk.2)
  rw [ofInt_word hm.1 hm.2 (hfits hm), ofInt_word hn.1 hn.2 (hfits hn)]
  constructor
  · exact fun h => Nat.eq_of_mul_eq_mul_right unitsPerOne_pos (units_inj h)
  · exact fun h => finite_congr (congrArg (· * unitsPerOne) h) _

end Double

end Storefront
