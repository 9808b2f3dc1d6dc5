import Storefront.Calendar.Writing
import Storefront.Proofs.Days
import Storefront.Proofs.Ranges

/-!
# Reading dates

What the steps that read a date take, seen from the texts that they accept. Digits that
are taken stand in front of the rest (`Calendar.exists_of_takeDigits`), and digits that
end at other text are taken (`Calendar.takeDigits_append`).

Two things decide about most texts. Every shape with a time of day has a colon in it, so
a text without one is at most a date alone (`Calendar.read?_of_notMem`). And a date has a
hyphen behind the number in front of it, which is its year
(`Calendar.behindNumber_of_takeYear`).

Whatever is read falls on a date (`Calendar.isDate_of_read?`), and so does every moment
that page data stands for.
-/

namespace Storefront

namespace Calendar

/-! ## Steps -/

theorem takeChar_eq_some_iff {c : Char} {cs rest : List Char} :
    takeChar c cs = some rest ↔ cs = c :: rest := by
  cases cs with
  | nil => exact iff_of_false nofun nofun
  | cons d cs => rw [takeChar, Option.ite_none_right_eq_some, Option.some_inj, List.cons.injEq]

/-- **Digits that are taken** stand in front of the rest. -/
theorem exists_of_takeDigits {least most n : Nat} {cs rest : List Char}
    (h : takeDigits least most cs = some (n, rest)) :
    ∃ ds, cs = ds ++ rest ∧ (∀ c ∈ ds, c.isDigit = true) ∧ ds.length ≤ most := by
  simp only [takeDigits, Option.ite_none_right_eq_some, Option.some_inj, Prod.mk.injEq] at h
  obtain ⟨-, -, rfl⟩ := h
  have hprefix : (cs.take most).takeWhile Char.isDigit <+: cs :=
    (List.takeWhile_prefix _).trans (List.take_prefix most cs)
  refine ⟨_, (List.prefix_iff_eq_append.1 hprefix).symm, List.all_eq_true.1 List.all_takeWhile, ?_⟩
  exact (List.takeWhile_prefix _).length_le.trans (List.length_take_le most cs)

/-- **Digits in front of other text** are taken. -/
theorem takeDigits_append {least most : Nat} {ds rest : List Char}
    (hds : ∀ c ∈ ds, c.isDigit = true) (hleast : least ≤ ds.length) (hmost : ds.length ≤ most)
    (hrest : ∀ c ∈ rest.head?, c.isDigit = false) :
    takeDigits least most (ds ++ rest) = some (digitsValue ds, rest) := by
  have htaken : ((ds ++ rest).take most).takeWhile Char.isDigit = ds := by
    rw [List.take_append, List.take_of_length_le hmost, List.takeWhile_append_of_pos hds]
    cases rest with
    | nil => simp
    | cons c rest =>
      have hc := hrest c rfl
      cases most - ds.length with
      | zero => simp
      | succ k => simp [hc]
  simp only [takeDigits, htaken, if_pos hleast, List.drop_left]

/-- Nothing is skipped in front of digits. -/
theorem trimStart_digits {ds : List Char} (hds : ∀ c ∈ ds, c.isDigit = true) (hne : ds ≠ [])
    (rest : List Char) : Text.trimStart (ds ++ rest) = ds ++ rest := by
  obtain ⟨c, cs, rfl⟩ := List.exists_cons_of_ne_nil hne
  exact Text.trimStart_cons_of_not_isBlank (Text.not_isBlank_of_isDigit (hds c List.mem_cons_self)) _

theorem exists_of_takeShort {n : Nat} {cs rest : List Char} (h : takeShort cs = some (n, rest)) :
    ∃ ds, Text.trimStart cs = ds ++ rest ∧ (∀ c ∈ ds, c.isDigit = true) ∧ ds.length ≤ 2 :=
  exists_of_takeDigits h

theorem takeShort_padded {n : Nat} (h : n < 10 ^ 2) {rest : List Char}
    (hrest : ∀ c ∈ rest.head?, c.isDigit = false) :
    takeShort (padded 2 n ++ rest) = some (n, rest) := by
  have hlength : (padded 2 n).length = 2 := length_padded_of_lt (by decide) h
  have htake := takeDigits_append (isDigit_padded 2 n) (Nat.le_of_lt (hlength ▸ Nat.one_lt_two))
    hlength.le hrest
  rw [takeShort, trimStart_digits (isDigit_padded 2 n) (padded_ne_nil 2 n), htake, digitsValue_padded]

/-- **The parts of a date** that is taken. -/
theorem takeDate_eq_some_iff {cs rest : List Char} {year : Int} {month day : Nat} :
    takeDate cs = some ((year, month, day), rest) ↔
      ∃ r s, takeYear cs = some (year, '-' :: r) ∧ takeShort r = some (month, '-' :: s) ∧
        takeShort s = some (day, rest) ∧ isDate year month day = true := by
  simp only [takeDate, bind, Option.bind_eq_some_iff, Prod.exists, takeChar_eq_some_iff,
    Option.ite_none_right_eq_some, Option.some_inj, Prod.mk.injEq]
  constructor
  · rintro ⟨y, -, hyear, r, rfl, m, -, hmonth, s, rfl, d, rest', hday, hdate, ⟨rfl, rfl, rfl⟩, rfl⟩
    exact ⟨r, s, hyear, hmonth, hday, hdate⟩
  · rintro ⟨r, s, hyear, hmonth, hday, hdate⟩
    exact ⟨year, _, hyear, r, rfl, month, _, hmonth, s, rfl, day, rest, hday, hdate, ⟨rfl, rfl, rfl⟩, rfl⟩

theorem isDate_of_takeDate {cs rest : List Char} {year : Int} {month day : Nat}
    (h : takeDate cs = some ((year, month, day), rest)) : isDate year month day = true := by
  obtain ⟨-, -, -, -, -, hdate⟩ := takeDate_eq_some_iff.1 h
  exact hdate

/-! ## Colons -/

theorem mem_of_takeDigits {least most n : Nat} {c : Char} {cs rest : List Char}
    (h : takeDigits least most cs = some (n, rest)) (hc : c ∈ rest) : c ∈ cs := by
  obtain ⟨ds, rfl, -⟩ := exists_of_takeDigits h
  exact List.mem_append_right ds hc

theorem mem_of_takeShort {n : Nat} {c : Char} {cs rest : List Char}
    (h : takeShort cs = some (n, rest)) (hc : c ∈ rest) : c ∈ cs :=
  (List.dropWhile_sublist _).mem (mem_of_takeDigits h hc)

theorem mem_of_takeYear {n : Int} {c : Char} {cs rest : List Char}
    (h : takeYear cs = some (n, rest)) (hc : c ∈ rest) : c ∈ cs := by
  refine (List.dropWhile_sublist Text.isBlank).mem ?_
  change c ∈ Text.trimStart cs
  unfold takeYear at h
  split at h
  all_goals
    simp only [Option.map_eq_some_iff, Prod.exists, Prod.mk.injEq] at h
    obtain ⟨k, s, hs, -, rfl⟩ := h
  · next heq => exact heq ▸ List.mem_cons_of_mem _ (mem_of_takeDigits hs hc)
  · next heq => exact heq ▸ List.mem_cons_of_mem _ (mem_of_takeDigits hs hc)
  · exact mem_of_takeDigits hs hc

theorem mem_of_takeDate {date : Int × Nat × Nat} {c : Char} {cs rest : List Char}
    (h : takeDate cs = some (date, rest)) (hc : c ∈ rest) : c ∈ cs := by
  obtain ⟨year, month, day⟩ := date
  obtain ⟨r, s, hyear, hmonth, hday, -⟩ := takeDate_eq_some_iff.1 h
  have hs := mem_of_takeShort hday hc
  have hr := mem_of_takeShort hmonth (List.mem_cons_of_mem _ hs)
  exact mem_of_takeYear hyear (List.mem_cons_of_mem _ hr)

/-- A time of day has a colon behind its hour. -/
theorem colon_mem_of_takeTime {time : Nat × Nat × Nat} {cs rest : List Char}
    (h : takeTime cs = some (time, rest)) : ':' ∈ cs := by
  simp only [takeTime, within, bind, Option.bind_eq_some_iff, Prod.exists, takeChar_eq_some_iff,
    Option.filter_eq_some_iff] at h
  obtain ⟨hour, -, ⟨hhour, -⟩, r, rfl, -⟩ := h
  exact mem_of_takeShort hhour List.mem_cons_self

/-- **A date with a time of day** falls on the date, and has a colon behind what is between. -/
theorem exists_of_readDateTime? {between after : List Char → Option (List Char)} {cs : List Char}
    {m : Moment} (h : readDateTime? between after cs = some m) :
    ∃ r s, takeDate cs = some ((m.year, m.month, m.day), r) ∧ between r = some s ∧ ':' ∈ s := by
  simp only [readDateTime?, bind, Option.bind_eq_some_iff, Prod.exists, Option.ite_none_right_eq_some,
    Option.some_inj] at h
  obtain ⟨year, month, day, r, hdate, s, hs, hour, minute, second, t, htime, -, -, -, rfl⟩ := h
  exact ⟨r, s, hdate, hs, colon_mem_of_takeTime htime⟩

/-- **A timestamp** has a colon, and is the moment on its clock without the offset. -/
theorem exists_of_readTimestamp? {cs : List Char} {m : Moment} (h : readTimestamp? cs = some m) :
    ':' ∈ cs ∧ ∃ (clock : Moment) (offset : Int), clock.earlier? offset = some m := by
  simp only [readTimestamp?, within, bind, Option.bind_eq_some_iff, Prod.exists, takeChar_eq_some_iff,
    Option.filter_eq_some_iff, Option.or_eq_some_iff, Option.ite_none_right_eq_some] at h
  obtain ⟨year, -, hyear, r, rfl, month, -, hmonth, s, rfl, day, t, hday, u, hu, hour, -,
    ⟨hhour, -⟩, v, rfl, minute, -, -, w, -, second, -, -, x, -, offset, -, -, -, hearlier⟩ := h
  refine ⟨?_, _, offset, hearlier⟩
  have htime : ':' ∈ u := mem_of_takeDigits hhour List.mem_cons_self
  have hbehind : ':' ∈ t := by
    obtain rfl | ⟨-, rfl | ⟨-, rfl⟩⟩ := hu
    all_goals exact List.mem_cons_of_mem _ htime
  have hs := mem_of_takeDigits hday hbehind
  have hr := mem_of_takeDigits hmonth (List.mem_cons_of_mem _ hs)
  exact mem_of_takeDigits hyear (List.mem_cons_of_mem _ hr)

theorem readDateTime?_eq_none {between after : List Char → Option (List Char)} {cs : List Char}
    (hbetween : ∀ r s, between r = some s → s ⊆ r) (hcolon : ':' ∉ cs) :
    readDateTime? between after cs = none := by
  refine Option.eq_none_iff_forall_ne_some.2 fun m h => hcolon ?_
  obtain ⟨r, s, hdate, hs, hmem⟩ := exists_of_readDateTime? h
  exact mem_of_takeDate hdate (hbetween r s hs hmem)

/-- **A text without a colon** is at most a date alone. -/
theorem read?_of_notMem {s : String} (hcolon : ':' ∉ s.toList) :
    read? s = readDate? (Text.trim s.toList) := by
  have htrim : ':' ∉ Text.trim s.toList := fun h =>
    hcolon ((List.dropWhile_sublist _).mem ((Text.trimEnd_sublist _).mem h))
  have hblanks : ∀ r t, (some ∘ Text.trimStart) r = some t → t ⊆ r := by
    intro r t h
    obtain rfl := Option.some.inj h
    exact (List.dropWhile_sublist _).subset
  have hmark : ∀ r t, takeChar 'T' r = some t → t ⊆ r := by
    intro r t h
    rw [takeChar_eq_some_iff.1 h]
    exact List.subset_cons_self 'T' t
  have htimestamp : readTimestamp? (Text.trim s.toList) = none :=
    Option.eq_none_iff_forall_ne_some.2 fun m h => htrim (exists_of_readTimestamp? h).1
  rw [read?, htimestamp, readDateTime?_eq_none hblanks htrim, readDateTime?_eq_none hmark htrim,
    readDateTime?_eq_none hmark htrim, Option.none_or, Option.none_or, Option.none_or, Option.none_or]

end Calendar

/-! ## Moments that are read -/

namespace Moment

/-- The first second of the day that a moment falls on. -/
def startOfDay (m : Moment) : Moment := ⟨m.year, m.month, m.day, 0, 0, 0⟩

end Moment

namespace Calendar

theorem readDate?_eq_some_iff {cs : List Char} {m : Moment} :
    readDate? cs = some m ↔
      takeDate cs = some ((m.year, m.month, m.day), []) ∧ m.startOfDay = m := by
  simp only [readDate?, bind, Option.bind_eq_some_iff, Prod.exists, Option.ite_none_right_eq_some,
    Option.some_inj, List.isEmpty_iff]
  constructor
  · rintro ⟨year, month, day, rest, hdate, rfl, rfl⟩
    exact ⟨hdate, rfl⟩
  · rintro ⟨hdate, hstart⟩
    exact ⟨_, _, _, _, hdate, rfl, hstart⟩

/-- **A moment that is read falls on a date.** -/
theorem isDate_of_read? {s : String} {m : Moment} (h : read? s = some m) :
    isDate m.year m.month m.day = true := by
  have hdateTime : ∀ {between after}, readDateTime? between after (Text.trim s.toList) = some m →
      isDate m.year m.month m.day = true := by
    intro between after h
    obtain ⟨r, -, hdate, -⟩ := exists_of_readDateTime? h
    exact isDate_of_takeDate hdate
  simp only [read?, Option.or_eq_some_iff] at h
  obtain htimestamp | ⟨-, hspaced | ⟨-, hmarked | ⟨-, hfraction | ⟨-, hdate⟩⟩⟩⟩ := h
  · obtain ⟨-, clock, offset, hearlier⟩ := exists_of_readTimestamp? htimestamp
    exact Moment.isDate_of_ofMinutes? hearlier
  · exact hdateTime hspaced
  · exact hdateTime hmarked
  · exact hdateTime hfraction
  · exact isDate_of_takeDate (readDate?_eq_some_iff.1 hdate).1

end Calendar

namespace Value

@[simp] theorem moment?_str (s : String) : (Value.str s).moment? = Calendar.read? s := rfl

/-- **Every moment falls on a date.** -/
theorem isDate_of_moment? {v : Value} {m : Moment} (h : v.moment? = some m) :
    Calendar.isDate m.year m.month m.day = true := by
  cases v with
  | num n => exact Moment.isDate_of_ofMinutes? h
  | str s => exact Calendar.isDate_of_read? h
  | _ => exact absurd h.symm (Option.some_ne_none m)

end Value

/-! ## The number in front -/

namespace Calendar

/-- A sign in front of a number, or none. -/
def IsSign (sign : List Char) : Prop := sign = [] ∨ sign = ['-'] ∨ sign = ['+']

/-- A text without the sign in front of it. -/
def unsigned : List Char → List Char
  | '-' :: rest | '+' :: rest => rest
  | cs => cs

theorem unsigned_of_ne {cs : List Char} (hminus : ∀ rest, cs ≠ '-' :: rest)
    (hplus : ∀ rest, cs ≠ '+' :: rest) : unsigned cs = cs := by
  unfold unsigned
  split
  · next rest => exact absurd rfl (hminus rest)
  · next rest => exact absurd rfl (hplus rest)
  · rfl

/-- What stands behind the number in front of a text. -/
def behindNumber (cs : List Char) : List Char := (unsigned (Text.trimStart cs)).dropWhile Char.isDigit

/-- **A year that is taken** is the number in front, when a hyphen is behind it. -/
theorem behindNumber_of_takeYear {year : Int} {cs rest : List Char}
    (h : takeYear cs = some (year, '-' :: rest)) : behindNumber cs = '-' :: rest := by
  have hbehind : ∀ {least most n : Nat} {r : List Char},
      takeDigits least most r = some (n, '-' :: rest) → r.dropWhile Char.isDigit = '-' :: rest := by
    intro least most n r h
    obtain ⟨ds, rfl, hds, -⟩ := exists_of_takeDigits h
    exact dropWhile_isDigit_append hds rfl rest
  unfold takeYear at h
  rw [behindNumber]
  split at h
  all_goals
    simp only [Option.map_eq_some_iff, Prod.exists, Prod.mk.injEq] at h
    obtain ⟨k, s, hs, -, rfl⟩ := h
  · next heq =>
    rw [heq]
    exact hbehind hs
  · next heq =>
    rw [heq]
    exact hbehind hs
  · next hminus hplus =>
    rw [unsigned_of_ne hminus hplus]
    exact hbehind hs

theorem ne_of_isDigit {c d : Char} (hc : c.isDigit = true) (hd : d.isDigit = false) : c ≠ d := by
  rintro rfl
  exact Bool.false_ne_true (hd.symm.trans hc)

theorem behindNumber_sign {sign : List Char} (hsign : IsSign sign) {c : Char} (hc : c.isDigit = true)
    (cs : List Char) : behindNumber (sign ++ c :: cs) = (c :: cs).dropWhile Char.isDigit := by
  obtain rfl | rfl | rfl := hsign
  · have hplain : unsigned (c :: cs) = c :: cs :=
      unsigned_of_ne (fun _ heq => ne_of_isDigit hc rfl (List.cons.inj heq).1)
        fun _ heq => ne_of_isDigit hc rfl (List.cons.inj heq).1
    rw [behindNumber, List.nil_append,
      Text.trimStart_cons_of_not_isBlank (Text.not_isBlank_of_isDigit hc), hplain]
  · rfl
  · rfl

theorem behindNumber_digits {sign ds : List Char} (hsign : IsSign sign)
    (hds : ∀ c ∈ ds, c.isDigit = true) (hne : ds ≠ []) {c : Char} (hc : c.isDigit = false)
    (rest : List Char) : behindNumber (sign ++ (ds ++ c :: rest)) = c :: rest := by
  have hdrop := dropWhile_isDigit_append hds hc rest
  obtain ⟨d, ds, rfl⟩ := List.exists_cons_of_ne_nil hne
  exact (behindNumber_sign hsign (hds d List.mem_cons_self) _).trans hdrop

/-- **A text without a hyphen behind its number** is no date. -/
theorem readDate?_eq_none {cs : List Char} (h : ∀ rest, behindNumber cs ≠ '-' :: rest) :
    readDate? cs = none := by
  refine Option.eq_none_iff_forall_ne_some.2 fun m hm => ?_
  obtain ⟨r, s, hyear, -⟩ := takeDate_eq_some_iff.1 (readDate?_eq_some_iff.1 hm).1
  exact h r (behindNumber_of_takeYear hyear)

end Calendar

end Storefront
