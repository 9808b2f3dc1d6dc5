import Mathlib.Tactic.NormNum.DivMod
import Storefront.Calendar.Moment

/-!
# Moments fall on dates

Days are numbered, and the date with a number is found by arithmetic: the day within its
era of 400 years, the year of the era, the day of a year that begins in March, its month
and its day of the month. Whatever the number, the result is a date of the calendar
(`Calendar.dateOf_valid`), and every moment that is made from minutes falls on one
(`Moment.isDate_of_ofMinutes?`).

The year of an era is the one that begins on the day or before it
(`Calendar.daysBefore_le_iff`). It is found by leaving out the leap days and dividing by
365. Leaving them out keeps the order of days, so it is enough to look at the first and
the last day of each year, and that is a finite table.
-/

namespace Storefront

namespace Calendar

/-! ## Years of an era -/

/-- How many days of an era lie before a year of it. -/
def daysBefore (year : Nat) : Nat := 365 * year + year / 4 - year / 100 + year / 400

/-- How many days of an era lie before a day of it, without the leap days among them. -/
def commonDaysBefore (day : Nat) : Nat := day - day / 1460 + day / 36524 - day / 146096

theorem commonDaysBefore_mono : Monotone commonDaysBefore := by
  refine monotone_nat_of_le_succ fun day => ?_
  unfold commonDaysBefore
  omega

/-- Years begin and end where they should: a table of the first day and the last day of each. -/
theorem commonDaysBefore_daysBefore : ∀ year < 401,
    365 * year ≤ commonDaysBefore (daysBefore year) ∧
      (0 < year → commonDaysBefore (daysBefore year - 1) < 365 * year) := by
  decide +kernel

/-- **The year of an era** that a day lies in is the last one that begins on it or before. -/
theorem daysBefore_le_iff {year day : Nat} (hyear : year ≤ 400) :
    daysBefore year ≤ day ↔ year ≤ commonDaysBefore day / 365 := by
  obtain ⟨hfirst, hlast⟩ := commonDaysBefore_daysBefore year (Nat.lt_succ_of_le hyear)
  rw [Nat.le_div_iff_mul_le (by decide), Nat.mul_comm]
  constructor
  · exact fun h => hfirst.trans (commonDaysBefore_mono h)
  · intro h
    refine Nat.le_of_not_lt fun hbefore => ?_
    have hpos : 0 < year := by
      refine Nat.pos_of_ne_zero ?_
      rintro rfl
      exact Nat.not_lt_zero day hbefore
    have hle := commonDaysBefore_mono (Nat.le_sub_one_of_lt hbefore)
    exact absurd (h.trans hle) (Nat.not_le_of_lt (hlast hpos))

/-! ## Days of a year -/

/-- The month of a day of the year that begins in March. -/
def monthOf (day : Nat) : Nat :=
  if (5 * day + 2) / 153 < 10 then (5 * day + 2) / 153 + 3 else (5 * day + 2) / 153 - 9

/-- The day of the month of a day of the year that begins in March. -/
def dayOf (day : Nat) : Nat := day - (153 * ((5 * day + 2) / 153) + 2) / 5 + 1

/-- A day of the year is a day of some month; only the last one needs a leap year. -/
theorem dayOf_le_daysIn : ∀ day < 366, 1 ≤ monthOf day ∧ monthOf day ≤ 12 ∧ 1 ≤ dayOf day ∧
    dayOf day ≤
      if monthOf day = 2 then (if day = 365 then 29 else 28) else daysIn 0 (monthOf day) := by
  decide +kernel

theorem natCast_monthOf (day : Nat) :
    (monthOf day : Int) = if (5 * (day : Int) + 2) / 153 < 10 then (5 * (day : Int) + 2) / 153 + 3
      else (5 * (day : Int) + 2) / 153 - 9 := by
  have hcast : (5 * (day : Int) + 2) / 153 = ((5 * day + 2) / 153 : Nat) := by norm_num
  rw [hcast, monthOf]
  split
  · next h =>
    rw [if_pos (by exact_mod_cast h)]
    norm_num
  · next h =>
    rw [if_neg (by exact_mod_cast h), Nat.cast_sub (by omega)]
    norm_num

theorem natCast_dayOf (day : Nat) :
    (dayOf day : Int) = day - (153 * ((5 * (day : Int) + 2) / 153) + 2) / 5 + 1 := by
  have hle : (153 * ((5 * day + 2) / 153) + 2) / 5 ≤ day := by omega
  rw [dayOf, Nat.cast_add, Nat.cast_sub hle]
  norm_num

/-! ## Dates -/

/-- **The parts of a date**: an era, a year of it, and a day of that year. -/
theorem exists_dateOf_eq (number : Int) :
    ∃ (era : Int) (year day : Nat), year < 400 ∧ daysBefore year + day < daysBefore (year + 1) ∧
      dateOf number =
        (year + era * 400 + (if monthOf day ≤ 2 then 1 else 0), monthOf day, dayOf day) := by
  obtain ⟨dayOfEra, hday⟩ : ∃ n : Nat, (number + 719468) % 146097 = n :=
    ⟨((number + 719468) % 146097).toNat, by omega⟩
  have hera : dayOfEra < 146097 := by omega
  obtain ⟨year, hyear⟩ : ∃ year, commonDaysBefore dayOfEra / 365 = year := ⟨_, rfl⟩
  have hlimit : year < 400 := by
    refine Nat.lt_of_not_le fun hle => ?_
    exact Nat.not_lt_of_le ((daysBefore_le_iff le_rfl).2 (hyear ▸ hle)) hera
  have hfirst : daysBefore year ≤ dayOfEra := (daysBefore_le_iff hlimit.le).2 hyear.ge
  have hlast : dayOfEra < daysBefore (year + 1) := by
    refine Nat.lt_of_not_le fun hle => ?_
    exact Nat.not_succ_le_self _ (((daysBefore_le_iff hlimit).1 hle).trans hyear.le)
  obtain ⟨day, hsum⟩ := Nat.exists_eq_add_of_le hfirst
  refine ⟨(number + 719468) / 146097, year, day, hlimit, hsum ▸ hlast, ?_⟩
  -- the same parts, as integers
  have hfloor : ∀ n d : Int, 0 ≤ d → n.fdiv d = n / d := fun n _ hd => Int.fdiv_eq_ediv_of_nonneg n hd
  have hday' : number + 719468 - (number + 719468) / 146097 * 146097 = dayOfEra := by omega
  have hyear' : ((dayOfEra : Int) - dayOfEra / 1460 + dayOfEra / 36524 - dayOfEra / 146096) / 365 =
      year := by
    unfold commonDaysBefore at hyear
    omega
  have hsum' : (dayOfEra : Int) - (365 * year + year / 4 - year / 100) = day := by
    unfold daysBefore at hsum
    omega
  simp only [dateOf, hfloor _ 146097 (by decide), hfloor _ 1460 (by decide), hfloor _ 36524 (by decide),
    hfloor _ 146096 (by decide), hfloor _ 365 (by decide), hfloor _ 4 (by decide),
    hfloor _ 100 (by decide), hfloor _ 153 (by decide), hfloor _ 5 (by decide), hday', hyear', hsum']
  rw [← natCast_monthOf, ← natCast_dayOf]
  simp only [Nat.cast_le_ofNat, Int.toNat_natCast]

/-- **The date with a number is a date**, as far as its month and its day go. -/
theorem dateOf_valid {number year : Int} {month day : Nat} (h : dateOf number = (year, month, day)) :
    1 ≤ month ∧ month ≤ 12 ∧ 1 ≤ day ∧ day ≤ daysIn year month := by
  obtain ⟨era, yearOfEra, dayOfYear, hlimit, hlast, heq⟩ := exists_dateOf_eq number
  rw [heq] at h
  obtain ⟨rfl, rfl, rfl⟩ := h
  unfold daysBefore at hlast
  obtain ⟨hlow, hhigh, hpos, hle⟩ := dayOf_le_daysIn dayOfYear (by omega)
  refine ⟨hlow, hhigh, hpos, hle.trans ?_⟩
  by_cases hmonth : monthOf dayOfYear = 2
  · -- the year that begins in March has a day 365 when the next February has a 29th
    have hleap : dayOfYear = 365 → isLeap (yearOfEra + era * 400 + 1) = true := by
      rintro rfl
      simp only [isLeap, Bool.and_eq_true, Bool.or_eq_true, beq_iff_eq, bne_iff_ne]
      omega
    rw [if_pos hmonth, daysIn, if_pos hmonth, if_pos hmonth.le]
    by_cases hday : dayOfYear = 365
    · rw [if_pos hday, if_pos (hleap hday)]
    · rw [if_neg hday]
      split <;> decide
  · rw [if_neg hmonth, daysIn, daysIn, if_neg hmonth, if_neg hmonth]

theorem isDate_iff {year : Int} {month day : Nat} : isDate year month day = true ↔
    firstYear ≤ year ∧ year ≤ lastYear ∧ 1 ≤ month ∧ month ≤ 12 ∧ 1 ≤ day ∧ day ≤ daysIn year month := by
  simp only [isDate, Bool.and_eq_true, decide_eq_true_eq, and_assoc]

theorem daysIn_le (year : Int) (month : Nat) : daysIn year month ≤ 31 := by
  unfold daysIn
  split
  · split <;> decide
  · split <;> decide

end Calendar

namespace Moment

/-- **A moment counted in minutes falls on a date.** -/
theorem isDate_of_ofMinutes? {minutes : Int} {second : Nat} {m : Moment}
    (h : ofMinutes? minutes second = some m) : Calendar.isDate m.year m.month m.day = true := by
  obtain ⟨⟨year, month, day⟩, hdate⟩ : ∃ date, Calendar.dateOf (minutes.fdiv 1440) = date := ⟨_, rfl⟩
  simp only [ofMinutes?, hdate, Option.ite_none_right_eq_some, Bool.and_eq_true, decide_eq_true_eq] at h
  obtain ⟨⟨hfirst, hlast⟩, heq⟩ := h
  obtain rfl := Option.some.inj heq
  exact Calendar.isDate_iff.2 ⟨hfirst, hlast, Calendar.dateOf_valid hdate⟩

end Moment

end Storefront
