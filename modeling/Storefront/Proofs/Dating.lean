import Storefront.Proofs.Dates

/-!
# Dates that stay as they are written

A text that a date was written as may be shown as a date again. What was written then
stays as it is (`Value.dateText_again`), for every language and whatever the date was made
from, because the text is either no date any more or the same date.

It is the same date in the languages that write the year first, with hyphens and two
digits each for month and day: any year is read back, also with a sign
(`Calendar.readDate?_year_first`). The other languages (`Calendar.ownLanguages`) put a
mark other than a hyphen behind the first number, and nothing reads that
(`Calendar.Apart`). The exception is the order of day, month and year with hyphens. Its
first two numbers are read as year and month, but a year has four digits at least and a
day two at most, so something is left over (`Calendar.readDate?_year_last`).

Data that stands for no date is shown as the text that it has. That text is no date
either: the text of a number has no hyphen behind its digits (`Value.read?_signText`).
-/

namespace Storefront

namespace Calendar

/-! ## Years -/

/-- The three ways of writing a year. -/
theorem yearText_cases (year : Int) :
    (∃ n : Nat, year = n ∧ n < 10 ^ 4 ∧ yearText year = padded 4 n) ∨
      (∃ n : Nat, year = -(n : Int) ∧ yearText year = '-' :: padded 4 n) ∨
        ∃ n : Nat, year = n ∧ yearText year = '+' :: padded 4 n := by
  unfold yearText
  split
  · next h => exact .inl ⟨year.toNat, by omega, by omega, rfl⟩
  · split
    · next h => exact .inr (.inl ⟨year.natAbs, by omega, rfl⟩)
    · next h => exact .inr (.inr ⟨year.natAbs, by omega, rfl⟩)

/-- **A year is a number** of four digits at least, with or without a sign. -/
theorem exists_yearText_eq (year : Int) :
    ∃ sign n, IsSign sign ∧ yearText year = sign ++ padded 4 n := by
  obtain ⟨n, -, -, htext⟩ | ⟨n, -, htext⟩ | ⟨n, -, htext⟩ := yearText_cases year
  · exact ⟨[], n, .inl rfl, htext⟩
  · exact ⟨['-'], n, .inr (.inl rfl), htext⟩
  · exact ⟨['+'], n, .inr (.inr rfl), htext⟩

theorem length_yearText (year : Int) : 4 ≤ (yearText year).length := by
  obtain ⟨sign, n, -, htext⟩ := exists_yearText_eq year
  rw [htext, List.length_append]
  exact Nat.le_add_left_of_le (length_padded 4 n)

/-- **A year is read back** in front of a hyphen. -/
theorem takeYear_yearText (year : Int) (rest : List Char) :
    takeYear (yearText year ++ '-' :: rest) = some (year, '-' :: rest) := by
  have htake : ∀ n most, (padded 4 n).length ≤ most →
      takeDigits 1 most (padded 4 n ++ '-' :: rest) = some (n, '-' :: rest) := by
    intro n most hmost
    rw [takeDigits_append (isDigit_padded 4 n) (List.length_pos_iff.2 (padded_ne_nil 4 n)) hmost
      (by simp), digitsValue_padded]
  have hsigned : ∀ n, takeDigits 1 (padded 4 n ++ '-' :: rest).length (padded 4 n ++ '-' :: rest) =
      some (n, '-' :: rest) := fun n =>
    htake n _ (List.sublist_append_left (padded 4 n) ('-' :: rest)).length_le
  obtain ⟨n, rfl, hn, htext⟩ | ⟨n, rfl, htext⟩ | ⟨n, rfl, htext⟩ := yearText_cases year
  · have hdigits := htake n 4 (length_padded_of_lt (by decide) hn).le
    rw [htext, takeYear, trimStart_digits (isDigit_padded 4 n) (padded_ne_nil 4 n)]
    obtain ⟨c, cs, hcs⟩ := List.exists_cons_of_ne_nil (padded_ne_nil 4 n)
    have hc : c.isDigit = true := isDigit_padded 4 n c (hcs ▸ List.mem_cons_self)
    rw [hcs] at hdigits ⊢
    split
    · next heq => exact absurd (List.cons.inj heq).1 (ne_of_isDigit hc rfl)
    · next heq => exact absurd (List.cons.inj heq).1 (ne_of_isDigit hc rfl)
    · rw [hdigits]
      rfl
  · rw [htext]
    exact congrArg (Option.map _) (hsigned n)
  · rw [htext]
    exact congrArg (Option.map _) (hsigned n)

/-! ## Characters of dates -/

/-- A character that dates are written with: a digit, or a mark or sign. -/
def IsDateChar (c : Char) : Prop := c.isDigit = true ∨ c ∈ ['+', '-', '/', '.']

instance : DecidablePred IsDateChar := fun _ => inferInstanceAs (Decidable (_ ∨ _))

theorem IsDateChar.not_isBlank {c : Char} (h : IsDateChar c) : Text.isBlank c = false := by
  obtain h | h := h
  · exact Text.not_isBlank_of_isDigit h
  · simp only [List.mem_cons, List.not_mem_nil, or_false] at h
    rcases h with rfl | rfl | rfl | rfl <;> rfl

/-- **A text of such characters** is at most a date alone, with no blanks to skip. -/
theorem read?_of_isDateChar {s : String} (h : ∀ c ∈ s.toList, IsDateChar c) :
    read? s = readDate? s.toList := by
  have hcolon : ':' ∉ s.toList := fun hmem => absurd (h ':' hmem) (by decide)
  rw [read?_of_notMem hcolon, Text.trim_of_not_isBlank fun c hc => (h c hc).not_isBlank]

theorem isDateChar_yearText (year : Int) : ∀ c ∈ yearText year, IsDateChar c := by
  obtain ⟨sign, n, hsign, htext⟩ := exists_yearText_eq year
  have hdigits : ∀ c ∈ padded 4 n, IsDateChar c := fun c hc => .inl (isDigit_padded 4 n c hc)
  rw [htext]
  obtain rfl | rfl | rfl := hsign
  · exact hdigits
  · exact List.forall_mem_cons.2 ⟨by decide, hdigits⟩
  · exact List.forall_mem_cons.2 ⟨by decide, hdigits⟩

theorem trimStart_yearText (year : Int) : Text.trimStart (yearText year) = yearText year := by
  cases htext : yearText year with
  | nil => rfl
  | cons c cs =>
    have hc := isDateChar_yearText year c (htext ▸ List.mem_cons_self)
    exact Text.trimStart_cons_of_not_isBlank hc.not_isBlank cs

theorem isDateChar_dateText (language : String) (year : Int) (month day : Nat) :
    ∀ c ∈ (dateText language year month day).toList, IsDateChar c := by
  have hparts : ∀ {sep : Char} {a b c : List Char}, IsDateChar sep → (∀ x ∈ a, IsDateChar x) →
      (∀ x ∈ b, IsDateChar x) → (∀ x ∈ c, IsDateChar x) →
      ∀ x ∈ a ++ sep :: b ++ sep :: c, IsDateChar x := by
    intro sep a b c hsep ha hb hc
    have hfront := List.forall_mem_append.2 ⟨ha, List.forall_mem_cons.2 ⟨hsep, hb⟩⟩
    exact List.forall_mem_append.2 ⟨hfront, List.forall_mem_cons.2 ⟨hsep, hc⟩⟩
  have hplain : ∀ n, ∀ c ∈ natDigits n, IsDateChar c := fun n c hc => .inl (isDigit_natDigits n c hc)
  have htwo : ∀ n, ∀ c ∈ padded 2 n, IsDateChar c := fun n c hc => .inl (isDigit_padded 2 n c hc)
  have hyear := isDateChar_yearText year
  unfold dateText
  rw [String.toList_ofList]
  split
  · exact hparts (by decide) (hplain month) (hplain day) hyear
  · exact hparts (by decide) (hplain day) (hplain month) hyear
  · exact hparts (by decide) (hplain day) (hplain month) hyear
  · exact hparts (by decide) (htwo day) (htwo month) hyear
  · exact hparts (by decide) (htwo day) (htwo month) hyear
  · exact hparts (by decide) (htwo day) (htwo month) hyear
  · exact hparts (by decide) (htwo day) (htwo month) hyear
  · exact hparts (by decide) hyear (hplain month) (hplain day)
  · exact hparts (by decide) hyear (hplain month) (hplain day)
  · exact hparts (by decide) hyear (htwo month) (htwo day)

/-! ## Orders -/

/-- **A date with its year first** is read back. -/
theorem readDate?_year_first {year : Int} {month day : Nat} (h : isDate year month day = true) :
    readDate? (yearText year ++ '-' :: (padded 2 month ++ '-' :: padded 2 day)) =
      some ⟨year, month, day, 0, 0, 0⟩ := by
  obtain ⟨-, -, -, hmonth, -, hday⟩ := isDate_iff.1 h
  have hle := daysIn_le year month
  have hfirst := takeYear_yearText year (padded 2 month ++ '-' :: padded 2 day)
  have hsecond : takeShort (padded 2 month ++ '-' :: padded 2 day) = some (month, '-' :: padded 2 day) :=
    takeShort_padded (by omega) (by simp)
  have hthird : takeShort (padded 2 day ++ []) = some (day, []) := takeShort_padded (by omega) (by simp)
  rw [List.append_nil] at hthird
  exact readDate?_eq_some_iff.2 ⟨takeDate_eq_some_iff.2 ⟨_, _, hfirst, hsecond, hthird, h⟩, rfl⟩

/-- **A date with its year last** is no date, since a day has two digits at most. -/
theorem readDate?_year_last (year : Int) (month day : Nat) :
    readDate? (natDigits day ++ '-' :: (natDigits month ++ '-' :: yearText year)) = none := by
  refine Option.eq_none_iff_forall_ne_some.2 fun m hm => ?_
  obtain ⟨r, s, hyear, hmonth, hday, -⟩ := takeDate_eq_some_iff.1 (readDate?_eq_some_iff.1 hm).1
  -- the day is read as a year, so what is left for the other two is the month and the year
  have hbehind := behindNumber_digits (.inl rfl) (isDigit_natDigits day) (natDigits_ne_nil day)
    (c := '-') rfl (natDigits month ++ '-' :: yearText year)
  obtain rfl := (List.cons.inj (hbehind.symm.trans (behindNumber_of_takeYear hyear))).2
  obtain ⟨ds, hds, hdigits, -⟩ := exists_of_takeShort hmonth
  rw [trimStart_digits (isDigit_natDigits month) (natDigits_ne_nil month)] at hds
  have hrest := dropWhile_isDigit_append hdigits (c := '-') rfl s
  rw [← hds, dropWhile_isDigit_append (isDigit_natDigits month) rfl] at hrest
  obtain rfl := (List.cons.inj hrest).2
  obtain ⟨digits, hall, -, hshort⟩ := exists_of_takeShort hday
  rw [trimStart_yearText, List.append_nil] at hall
  have hlength := length_yearText year
  rw [hall] at hlength
  omega

/-- **A number with something other than a hyphen behind it**. -/
inductive Apart : List Char → Prop where
  | intro {sign ds : List Char} {c : Char} (hsign : IsSign sign) (hds : ∀ d ∈ ds, d.isDigit = true)
      (hne : ds ≠ []) (hc : c.isDigit = false) (hother : c ≠ '-') (rest : List Char) :
      Apart (sign ++ (ds ++ c :: rest))

theorem Apart.readDate?_eq_none {text : List Char} (h : Apart text) : readDate? text = none := by
  obtain ⟨hsign, hds, hne, hc, hother, rest⟩ := h
  refine Calendar.readDate?_eq_none fun r hr => hother ?_
  rw [behindNumber_digits hsign hds hne hc] at hr
  exact (List.cons.inj hr).1

section Apart

variable {c : Char} (hc : c.isDigit = false) (hother : c ≠ '-') (rest : List Char)

include hc hother

theorem apart_natDigits (n : Nat) : Apart (natDigits n ++ c :: rest) :=
  .intro (.inl rfl) (isDigit_natDigits n) (natDigits_ne_nil n) hc hother rest

theorem apart_padded (width n : Nat) : Apart (padded width n ++ c :: rest) :=
  .intro (.inl rfl) (isDigit_padded width n) (padded_ne_nil width n) hc hother rest

theorem apart_yearText (year : Int) : Apart (yearText year ++ c :: rest) := by
  obtain ⟨sign, n, hsign, htext⟩ := exists_yearText_eq year
  rw [htext, List.append_assoc]
  exact .intro hsign (isDigit_padded 4 n) (padded_ne_nil 4 n) hc hother rest

end Apart

/-! ## Languages -/

/-- The languages that write dates in an order or with marks of their own. -/
def ownLanguages : List String := ["en", "de", "nl", "fr", "es", "it", "pt", "ja", "zh"]

theorem dateText_of_notMem {language : String} (h : language ∉ ownLanguages) (year : Int)
    (month day : Nat) : (dateText language year month day).toList =
      yearText year ++ '-' :: (padded 2 month ++ '-' :: padded 2 day) := by
  simp only [ownLanguages, List.mem_cons, List.not_mem_nil, or_false, not_or] at h
  unfold dateText
  simp [h]

theorem readDate?_dateText_of_mem {language : String} (h : language ∈ ownLanguages) (year : Int)
    (month day : Nat) : readDate? (dateText language year month day).toList = none := by
  have htwo : ∀ rest, readDate? (padded 2 day ++ '/' :: rest) = none := fun rest =>
    (apart_padded rfl (by decide) rest 2 day).readDate?_eq_none
  have hyear : ∀ rest, readDate? (yearText year ++ '/' :: rest) = none := fun rest =>
    (apart_yearText rfl (by decide) rest year).readDate?_eq_none
  simp only [ownLanguages, List.mem_cons, List.not_mem_nil, or_false] at h
  unfold dateText
  rcases h with rfl | rfl | rfl | rfl | rfl | rfl | rfl | rfl | rfl
  all_goals simp only [String.toList_ofList, List.append_assoc, List.cons_append]
  · exact (apart_natDigits rfl (by decide) _ month).readDate?_eq_none
  · exact (apart_natDigits rfl (by decide) _ day).readDate?_eq_none
  · exact readDate?_year_last year month day
  · exact htwo _
  · exact htwo _
  · exact htwo _
  · exact htwo _
  · exact hyear _
  · exact hyear _

/-- **A date that is written** is read back, or is no date in the languages with an order or marks
of their own. -/
theorem read?_dateText (language : String) {year : Int} {month day : Nat}
    (h : isDate year month day = true) :
    read? (dateText language year month day) =
      if language ∈ ownLanguages then none else some ⟨year, month, day, 0, 0, 0⟩ := by
  rw [read?_of_isDateChar (isDateChar_dateText language year month day)]
  split
  · next hown => exact readDate?_dateText_of_mem hown year month day
  · next hown =>
    rw [dateText_of_notMem hown]
    exact readDate?_year_first h

end Calendar

namespace Value

/-! ## Texts of other data -/

/-- **The text of a number** is no date: nothing but a point can be behind its digits. -/
theorem read?_signText (negative : Bool) {text : List Char} (h : Double.Plain text) :
    Calendar.read? (String.ofList (Double.signText negative ++ text)) = none := by
  have hsign : Calendar.IsSign (Double.signText negative) := by
    cases negative with
    | true => exact .inr (.inl rfl)
    | false => exact .inl rfl
  have hchars : ∀ c ∈ Double.signText negative ++ text, Calendar.IsDateChar c := by
    refine List.forall_mem_append.2 ⟨fun c hc => ?_, fun c hc => (h.chars c hc).imp_right ?_⟩
    · cases negative with
      | true =>
        obtain rfl := List.mem_singleton.1 hc
        decide
      | false => exact absurd hc List.not_mem_nil
    · rintro rfl
      decide
  rw [Calendar.read?_of_isDateChar (String.toList_ofList ▸ hchars), String.toList_ofList]
  refine Calendar.readDate?_eq_none fun rest hrest => ?_
  obtain ⟨c, cs, rfl, hc⟩ := h.head
  rw [Calendar.behindNumber_sign hsign hc] at hrest
  refine h.notMem (c := '-') rfl (by decide) ?_
  exact (List.dropWhile_sublist Char.isDigit).mem (hrest ▸ List.mem_cons_self)

theorem read?_displayText (x : Double) : Calendar.read? x.displayText = none := by
  cases x with
  | finite negative units fits =>
    obtain ⟨text, -, htext, hplain, -⟩ := Double.displayText_finite negative fits
    exact htext ▸ read?_signText _ hplain
  | infinite negative => cases negative <;> decide
  | nan => decide

theorem read?_intText (i : Int) : Calendar.read? (intText i) = none := by
  have htext : intText i = String.ofList (Double.signText (decide (i < 0)) ++ natDigits i.natAbs) := by
    rw [← toList_intText_eq_sign, String.ofList_toList]
  exact htext ▸ read?_signText _ (Double.plain_of_digits (isDigit_natDigits _) (natDigits_ne_nil _))

/-- **What stands for no moment** has no text that does. -/
theorem read?_scalarText {v : Value} (h : v.moment? = none) :
    Calendar.read? (v.scalarText?.getD "") = none := by
  have hempty : Calendar.read? "" = none := by decide
  cases v with
  | null => exact hempty
  | bool b => cases b <;> decide
  | num n =>
    cases n with
    | int i =>
      rw [scalarText?, Option.getD_some]
      split
      · exact read?_intText i
      · exact read?_displayText _
    | float x => exact read?_displayText x
  | str s => exact h
  | arr items => exact hempty
  | obj entries => exact hempty

/-! ## Dates shown again -/

theorem dateText_of_moment? {v : Value} {m : Moment} (h : v.moment? = some m) (locale : Locale) :
    v.dateText locale = Calendar.dateText locale.language m.year m.month m.day := by
  rw [dateText, h]

theorem dateText_of_moment?_eq_none {v : Value} (h : v.moment? = none) (locale : Locale) :
    v.dateText locale = v.scalarText?.getD "" := by
  rw [dateText, h]

/-- **What a date that is shown stands for**: nothing in the languages with an order or marks of
their own, and in all others the day that is shown. -/
theorem moment?_dateText (v : Value) (locale : Locale) :
    (Value.str (v.dateText locale)).moment? =
      if locale.language ∈ Calendar.ownLanguages then none else v.moment?.map Moment.startOfDay := by
  rw [moment?_str]
  cases h : v.moment? with
  | none => rw [dateText_of_moment?_eq_none h, Option.map_none, ite_self, read?_scalarText h]
  | some m =>
    rw [dateText_of_moment? h, Option.map_some, Calendar.read?_dateText _ (isDate_of_moment? h)]
    rfl

/-- **A date that is shown stays as it is when it is shown again**, and if it stands for a moment at
all, then for the day that was shown. -/
theorem dateText_again (v : Value) (locale : Locale) :
    (Value.str (v.dateText locale)).dateText locale = v.dateText locale ∧
      ∀ again, (Value.str (v.dateText locale)).moment? = some again →
        ∃ m, v.moment? = some m ∧ again = m.startOfDay := by
  have hshown : ∀ again, (Value.str (v.dateText locale)).moment? = some again →
      ∃ m, v.moment? = some m ∧ again = m.startOfDay := by
    intro again hagain
    rw [moment?_dateText, Option.ite_none_left_eq_some] at hagain
    obtain ⟨m, hm, hstart⟩ := Option.map_eq_some_iff.1 hagain.2
    exact ⟨m, hm, hstart.symm⟩
  refine ⟨?_, hshown⟩
  cases hagain : (Value.str (v.dateText locale)).moment? with
  | none => exact dateText_of_moment?_eq_none hagain locale
  | some again =>
    obtain ⟨m, hm, rfl⟩ := hshown again hagain
    rw [dateText_of_moment? hagain, dateText_of_moment? hm]
    rfl

end Value

end Storefront
