import Mathlib.Algebra.Group.Nat.Defs
import Mathlib.Algebra.Order.Group.Unbundled.Abs
import Mathlib.Algebra.Ring.Int.Defs
import Mathlib.Data.List.TakeWhile
import Storefront.Numeric.Print
import Storefront.Proofs.Counting

/-!
# Numbers read back

A double is printed with the fewest digits that read back to it. That the digits
found denote the double holds by construction, since each candidate is read back
before it is taken (`Double.toDouble_shortest`). What is left to show is that
nothing changes on the way from the digits to the text and back: zeros at the end
of the digits may be moved into the power of ten (`Decimal.toDouble_times_ten`),
and digits with a point among them are read as the decimal that was written
(`Decimal.readDecimal?_positional`). So the text that shoppers see denotes the
number that it was made from (`Double.readChars?_displayText`); only the sign of a
zero is not written.
-/

namespace Storefront

/-! ## Digits -/

theorem isDigit_natDigits (n : Nat) : ∀ c ∈ natDigits n, c.isDigit = true := fun _ hc =>
  Nat.isDigit_of_mem_toDigits (by decide) (by decide) hc

theorem natDigits_ne_nil (n : Nat) : natDigits n ≠ [] := Nat.toDigits_ne_nil

theorem isDigit_padded (width n : Nat) : ∀ c ∈ padded width n, c.isDigit = true := by
  refine List.forall_mem_append.2 ⟨fun c hc => ?_, isDigit_natDigits n⟩
  rw [List.eq_of_mem_replicate hc]
  rfl

theorem length_padded (width n : Nat) : width ≤ (padded width n).length := by
  rw [padded, List.length_append, List.length_replicate]
  omega

theorem padded_ne_nil (width n : Nat) : padded width n ≠ [] :=
  List.append_ne_nil_of_right_ne_nil _ (natDigits_ne_nil n)

/-- A number that is not too long is written with exactly as many digits. -/
theorem length_padded_of_lt {width n : Nat} (hwidth : 0 < width) (h : n < 10 ^ width) :
    (padded width n).length = width := by
  have hle : (natDigits n).length ≤ width := (Nat.length_toDigits_le_iff (by decide) hwidth).2 h
  rw [padded, List.length_append, List.length_replicate]
  omega

theorem digitsValue_natDigits (n : Nat) : digitsValue (natDigits n) = n :=
  Nat.ofDigitChars_ten_toDigits

theorem digitsValue_padded (width n : Nat) : digitsValue (padded width n) = n := by
  rw [digitsValue, padded, Nat.ofDigitChars_append, Nat.ofDigitChars_replicate_zero, Nat.mul_zero]
  exact digitsValue_natDigits n

/-- Digits end where another character follows. -/
theorem takeWhile_isDigit_append {ds : List Char} (h : ∀ c ∈ ds, c.isDigit = true) {c : Char}
    (hc : c.isDigit = false) (cs : List Char) : (ds ++ c :: cs).takeWhile Char.isDigit = ds := by
  rw [List.takeWhile_append_of_pos h, List.takeWhile_cons_of_neg (Bool.eq_false_iff.1 hc), List.append_nil]

theorem dropWhile_isDigit_append {ds : List Char} (h : ∀ c ∈ ds, c.isDigit = true) {c : Char}
    (hc : c.isDigit = false) (cs : List Char) : (ds ++ c :: cs).dropWhile Char.isDigit = c :: cs := by
  rw [List.dropWhile_append_of_pos h, List.dropWhile_cons_of_neg (Bool.eq_false_iff.1 hc)]

/-- **A number in front of other text** is told from it by its digits. -/
theorem natDigits_append_cons_inj {m n : Nat} {c d : Char} {s t : List Char} (hc : c.isDigit = false)
    (hd : d.isDigit = false) (h : natDigits m ++ c :: s = natDigits n ++ d :: t) :
    m = n ∧ c = d ∧ s = t := by
  have hdigits : natDigits m = natDigits n := by
    rw [← takeWhile_isDigit_append (isDigit_natDigits m) hc s, h,
      takeWhile_isDigit_append (isDigit_natDigits n) hd t]
  rw [hdigits] at h
  obtain ⟨hhead, htail⟩ := List.cons.inj (List.append_cancel_left h)
  refine ⟨?_, hhead, htail⟩
  rw [← digitsValue_natDigits m, hdigits, digitsValue_natDigits]

theorem toList_intText (n : Nat) : (intText n).toList = natDigits n := by
  have hsign : ¬(n : Int) < 0 := Int.not_lt.2 (Int.natCast_nonneg n)
  rw [intText, if_neg hsign, List.nil_append, String.toList_ofList, Int.natAbs_natCast]

/-- An integer is written with a sign when it is less than zero. -/
theorem toList_intText_eq_sign (i : Int) :
    (intText i).toList = Double.signText (decide (i < 0)) ++ natDigits i.natAbs := by
  rw [intText, String.toList_ofList, Double.signText]
  by_cases hi : i < 0
  · rw [if_pos hi, if_pos (decide_eq_true hi)]
  · rw [if_neg hi, if_neg (by rwa [decide_eq_true_eq])]

/-- Zeros behind digits multiply by powers of ten. -/
theorem digitsValue_append_zeros (n k : Nat) :
    digitsValue (natDigits n ++ List.replicate k '0') = n * 10 ^ k := by
  rw [digitsValue, Nat.ofDigitChars_append, Nat.ofDigitChars_replicate_zero, Nat.mul_comm]
  exact congrArg (· * 10 ^ k) (digitsValue_natDigits n)

theorem digitCount_pos (n : Nat) : 0 < digitCount n := by
  rw [digitCount]
  split
  · exact Nat.length_toDigits_pos
  · exact Nat.add_pos_right _ (by decide)

/-- **How many digits a number has** is told by the powers of ten above it. -/
theorem digitCount_le_iff {n k : Nat} (hk : 0 < k) : digitCount n ≤ k ↔ n < 10 ^ k := by
  induction n using digitCount.induct generalizing k with
  | case1 n hn =>
    rw [digitCount, if_pos hn]
    exact Nat.length_toDigits_le_iff (by decide) hk
  | case2 n hn ih =>
    rw [digitCount, if_neg hn]
    have hpow : (10000000000000000 : Nat) = 10 ^ 16 := by decide
    obtain hk16 | hk16 := Nat.lt_or_ge 16 k
    · obtain ⟨j, rfl⟩ := Nat.exists_eq_add_of_lt hk16
      have hj := ih (k := j + 1) (Nat.succ_pos j)
      rw [Nat.div_lt_iff_lt_mul (by decide), hpow, ← Nat.pow_add] at hj
      rw [show 16 + j + 1 = j + 1 + 16 by omega, ← hj]
      exact Nat.add_le_add_iff_right
    · have hle : 10 ^ k ≤ 10 ^ 16 := Nat.pow_le_pow_right (by decide) hk16
      have hpos := digitCount_pos (n / 10000000000000000)
      omega

theorem digitCount_mul_ten {n : Nat} (hn : 0 < n) : digitCount (n * 10) = digitCount n + 1 := by
  have hup : n * 10 < 10 ^ (digitCount n + 1) := by
    rw [Nat.pow_succ]
    exact Nat.mul_lt_mul_of_pos_right ((digitCount_le_iff (digitCount_pos n)).1 le_rfl) (by decide)
  have hle := (digitCount_le_iff (Nat.succ_pos _)).2 hup
  have hlow := (digitCount_le_iff (digitCount_pos (n * 10))).1 le_rfl
  obtain ⟨k, hk⟩ := Nat.exists_eq_add_of_lt (digitCount_pos (n * 10))
  rw [Nat.zero_add] at hk
  rw [hk, Nat.pow_succ] at hlow
  obtain rfl | hkpos := Nat.eq_zero_or_pos k
  · omega
  · have hge := (digitCount_le_iff hkpos).2 (Nat.lt_of_mul_lt_mul_right hlow)
    omega

/-! ## Rounding and scaling -/

/-- **What is rounded** is off by half a unit at most. -/
theorem roundHalfEven_nearest (n : Nat) {d : Nat} (hd : 0 < d) :
    2 * |((roundHalfEven n d * d : Nat) : Int) - n| ≤ d := by
  have hn : n / d * d + n % d = n := Nat.div_add_mod' n d
  have hsucc : (n / d + 1) * d = n / d * d + d := Nat.succ_mul _ _
  have hr := Nat.mod_lt n hd
  rw [abs_eq_max_neg]
  unfold roundHalfEven
  dsimp only
  split
  · omega
  · split
    · omega
    · obtain heven | hodd := Nat.mod_two_eq_zero_or_one (n / d)
      · rw [heven, Nat.add_zero]
        omega
      · rw [hodd]
        omega

/-- **What is nearer than half a unit** to a multiple is rounded to it. -/
theorem roundHalfEven_near {n d k : Nat} (hbelow : 2 * (k * d) < 2 * n + d)
    (habove : 2 * n < 2 * (k * d) + d) : roundHalfEven n d = k := by
  have hnearest := roundHalfEven_nearest n (d := d) (by omega)
  rw [abs_eq_max_neg] at hnearest
  generalize roundHalfEven n d = r at hnearest ⊢
  refine Nat.le_antisymm (Nat.le_of_not_lt fun hlt => ?_) (Nat.le_of_not_lt fun hlt => ?_)
  · have hmore : (k + 1) * d ≤ r * d := Nat.mul_le_mul_right d hlt
    rw [Nat.succ_mul] at hmore
    omega
  · have hmore : (r + 1) * d ≤ k * d := Nat.mul_le_mul_right d hlt
    rw [Nat.succ_mul] at hmore
    omega

theorem roundHalfEven_mul {k : Nat} (hk : 0 < k) (n d : Nat) :
    roundHalfEven (n * k) (d * k) = roundHalfEven n d := by
  have hq : n * k / (d * k) = n / d := Nat.mul_div_mul_right n d hk
  have hr : n * k % (d * k) = n % d * k := Nat.mul_mod_mul_right k n d
  have hlow : 2 * (n % d * k) < d * k ↔ 2 * (n % d) < d := by
    rw [← Nat.mul_assoc]
    exact Nat.mul_lt_mul_right hk
  have hhigh : d * k < 2 * (n % d * k) ↔ d < 2 * (n % d) := by
    rw [← Nat.mul_assoc]
    exact Nat.mul_lt_mul_right hk
  simp only [roundHalfEven, hq, hr, hlow, hhigh]

theorem roundUnits_mul {k : Nat} (hk : 0 < k) (n d : Nat) :
    roundUnits (n * k) (d * k) = roundUnits n d := by
  rw [roundUnits, roundUnits, Nat.mul_div_mul_right n d hk, Nat.mul_right_comm,
    roundHalfEven_mul hk]

theorem Double.rounded_mul {k : Nat} (hk : 0 < k) (s : Bool) (n d : Nat) :
    rounded s (n * k) (d * k) = rounded s n d := by
  simp only [rounded, roundUnits_mul hk]

namespace Decimal

/-- **A zero at the end of the digits may be moved into the power of ten.** -/
theorem toDouble_times_ten (m : Nat) (e : Int) (s : Bool) :
    toDouble ⟨m * 10, e⟩ s = toDouble ⟨m, e + 1⟩ s := by
  obtain rfl | hm := Nat.eq_zero_or_pos m
  · rfl
  have hcount : e + (digitCount (m * 10) : Int) = e + 1 + (digitCount m : Int) := by
    rw [digitCount_mul_ten hm]
    omega
  have hne : m * 10 ≠ 0 := by omega
  simp only [toDouble, hcount, if_neg hne, if_neg (Nat.ne_of_gt hm)]
  split
  · rfl
  split
  · rfl
  have hunits : m * 10 * unitsPerOne = m * unitsPerOne * 10 := Nat.mul_right_comm _ _ _
  -- a negative power of ten divides, so that -1, which goes up to 0, is a case of its own
  cases e with
  | ofNat k =>
    have hpow : m * 10 * Nat.pow 10 k = m * Nat.pow 10 (k + 1) := by
      rw [Nat.mul_assoc]
      exact congrArg (m * ·) (Nat.pow_succ').symm
    have hk : (Int.ofNat k).toNat = k := rfl
    have hk1 : (Int.ofNat k + 1).toNat = k + 1 := rfl
    rw [if_pos (by omega), if_pos (by omega), hk, hk1, hpow]
  | negSucc k =>
    cases k with
    | zero =>
      have hone : (-(Int.negSucc 0)).toNat = 1 := rfl
      have hzero : (Int.negSucc 0 + 1).toNat = 0 := rfl
      have hten : Nat.pow 10 1 = 1 * 10 := rfl
      rw [if_neg (by decide), if_pos (by decide), hone, hzero, hten, hunits,
        Double.rounded_mul (by decide)]
      exact congrArg (Double.rounded s · 1) (congrArg (· * unitsPerOne) (Nat.mul_one m).symm)
    | succ k =>
      have hk2 : (-Int.negSucc (k + 1)).toNat = k + 2 := rfl
      have hk1 : (-(Int.negSucc (k + 1) + 1)).toNat = k + 1 := rfl
      have hpow : Nat.pow 10 (k + 2) = Nat.pow 10 (k + 1) * 10 := rfl
      rw [if_neg (by omega), if_neg (by omega), hk2, hk1, hpow, hunits,
        Double.rounded_mul (by decide)]

/-- So may all of them. -/
theorem toDouble_stripped (d : Decimal) (s : Bool) : d.stripped.toDouble s = d.toDouble s := by
  have hgo : ∀ fuel d, (stripped.go fuel d).toDouble s = d.toDouble s := by
    intro fuel d
    fun_induction stripped.go fuel d with
    | case1 d => rfl
    | case2 fuel d h ih =>
      rw [ih, ← toDouble_times_ten, Nat.div_mul_cancel (Nat.dvd_of_mod_eq_zero h.2)]
    | case3 fuel d h => rfl
  exact hgo d.digits d

/-- Zeros may be written behind the digits instead of a power of ten. -/
theorem toDouble_mul_pow (m k : Nat) (s : Bool) :
    toDouble ⟨m * 10 ^ k, 0⟩ s = toDouble ⟨m, k⟩ s := by
  induction k generalizing m with
  | zero => rw [Nat.pow_zero, Nat.mul_one]; rfl
  | succ k ih =>
    rw [Nat.pow_succ', ← Nat.mul_assoc, ih, toDouble_times_ten]
    rfl

theorem toDouble_true (d : Decimal) : d.toDouble true = (d.toDouble false).neg := by
  have hrounded : ∀ n m, Double.rounded true n m = (Double.rounded false n m).neg := by
    intro n m
    unfold Double.rounded
    split
    · rfl
    · rfl
  have hzero : (Double.finite false 0 fits_zero).neg = .finite true 0 fits_zero := rfl
  have hinfinite : (Double.infinite false).neg = .infinite true := rfl
  simp only [toDouble, apply_ite Double.neg, hrounded, hzero, hinfinite]

/-- **The sign has no part in rounding.** -/
theorem toDouble_of_false {d : Decimal} {units : Nat} {fits : Fits units}
    (h : d.toDouble false = .finite false units fits) (s : Bool) :
    d.toDouble s = .finite s units fits := by
  cases s with
  | false => exact h
  | true =>
    rw [toDouble_true, h]
    rfl

end Decimal

/-! ## Shortest digits -/

namespace Double

theorem sign_toDouble_false (d : Decimal) :
    (∃ units fits, d.toDouble false = .finite false units fits) ∨ d.toDouble false = .infinite false := by
  have hrounded : ∀ n m, (∃ units fits, rounded false n m = .finite false units fits) ∨
      rounded false n m = .infinite false := by
    intro n m
    unfold rounded
    split
    · next hlt => exact .inl ⟨_, ⟨roundUnits_significant, hlt⟩, rfl⟩
    · exact .inr rfl
  unfold Decimal.toDouble
  split
  · exact .inl ⟨0, fits_zero, rfl⟩
  split
  · exact .inr rfl
  split
  · exact .inl ⟨0, fits_zero, rfl⟩
  split
  · exact hrounded _ _
  · exact hrounded _ _

/-- **What reads back** denotes these units. -/
theorem readsBack_iff {d : Decimal} {units : Nat} (fits : Fits units) :
    readsBack d units = true ↔ d.toDouble false = .finite false units fits := by
  unfold readsBack
  obtain ⟨m, hm, hd⟩ | hd := sign_toDouble_false d
  · rw [hd]
    constructor
    · exact fun h => finite_congr (eq_of_beq h) hm
    · intro h
      injection h with _ h
      exact beq_iff_eq.2 h
  · rw [hd]
    exact ⟨fun h => absurd h Bool.false_ne_true, fun h => Double.noConfusion h⟩

/-- Whatever candidate is taken reads back. -/
theorem readsBack_of_candidate? {tie : Tie} {units cut : Nat} {d : Decimal}
    (h : candidate? tie units cut = some d) : readsBack d units = true :=
  List.find?_some (p := fun d => readsBack d units) h

theorem exactDigits_pos {units : Nat} (hpos : 0 < units) : 0 < exactDigits units :=
  Nat.mul_pos hpos (by decide +kernel)

/-- The exact expansion of a double has its first digit not too far from the point. -/
theorem digitCount_exactDigits {units : Nat} (fits : Fits units) (hpos : 0 < units) :
    674 ≤ digitCount (exactDigits units) ∧ digitCount (exactDigits units) ≤ 1474 := by
  have hlow : 10 ^ 673 ≤ Nat.pow 5 1074 := by decide +kernel
  have hhigh : unitLimit * Nat.pow 5 1074 ≤ 10 ^ 1474 := by decide +kernel
  constructor
  · have hle : 10 ^ 673 ≤ exactDigits units :=
      hlow.trans (Nat.le_mul_of_pos_left _ hpos)
    refine Nat.lt_of_not_le fun h => ?_
    exact Nat.not_lt_of_le hle ((digitCount_le_iff (by decide)).1 h)
  · refine (digitCount_le_iff (by decide)).2 (Nat.lt_of_lt_of_le ?_ hhigh)
    exact Nat.mul_lt_mul_of_pos_right fits.2 (by decide +kernel)

/-- **The exact expansion reads back.** -/
theorem toDouble_exact {units : Nat} (fits : Fits units) (hpos : 0 < units) :
    Decimal.toDouble ⟨exactDigits units, lastPlace⟩ false = .finite false units fits := by
  obtain ⟨hlow, hhigh⟩ := digitCount_exactDigits fits hpos
  have hplace : lastPlace = -1074 := rfl
  have hlarge : ¬lastPlace + (digitCount (exactDigits units) : Int) > 400 := by omega
  have hsmall : ¬lastPlace + (digitCount (exactDigits units) : Int) < -400 := by omega
  have hbehind : ¬lastPlace ≥ 0 := by omega
  have hscale : Nat.pow 5 1074 * unitsPerOne = Nat.pow 10 (-lastPlace).toNat := by decide +kernel
  have hunits : exactDigits units * unitsPerOne = units * Nat.pow 10 (-lastPlace).toNat := by
    rw [exactDigits, Nat.mul_assoc, hscale]
  have hpow : 0 < Nat.pow 10 (-lastPlace).toNat := by decide +kernel
  have hround := rounded_mul hpow false units 1
  rw [Nat.one_mul] at hround
  unfold Decimal.toDouble
  rw [if_neg (Nat.ne_of_gt (exactDigits_pos hpos)), if_neg hlarge, if_neg hsmall, if_neg hbehind,
    hunits, hround, rounded_of_fits false fits]

theorem toDouble_getD {units : Nat} (fits : Fits units) (hpos : 0 < units) {found : Option Decimal}
    (h : ∀ d ∈ found, readsBack d units = true) :
    (found.getD ⟨exactDigits units, lastPlace⟩).toDouble false = .finite false units fits := by
  cases found with
  | none => exact toDouble_exact fits hpos
  | some d => exact (readsBack_iff fits).1 (h d rfl)

/-- **The shortest decimal denotes the double** that it is made from. -/
theorem toDouble_shortest (tie : Tie) {units : Nat} (fits : Fits units) (hpos : 0 < units) (s : Bool) :
    (shortest tie units).toDouble s = .finite s units fits := by
  refine Decimal.toDouble_of_false ?_ s
  rw [shortest, if_neg (Nat.ne_of_gt hpos), Decimal.toDouble_stripped]
  refine toDouble_getD fits hpos fun d hd => ?_
  obtain ⟨n, -, hn⟩ := List.exists_of_findSome?_eq_some hd
  exact readsBack_of_candidate? hn

end Double

/-! ## Reading what is written -/

theorem readDecimal?_digits {ds : List Char} (h : ∀ c ∈ ds, c.isDigit = true) (hne : ds ≠ []) :
    readDecimal? ds = some ⟨digitsValue ds, 0⟩ := by
  have hwhole : ds.takeWhile Char.isDigit = ds := List.takeWhile_eq_self_iff.2 h
  have hrest : ds.dropWhile Char.isDigit = [] := List.dropWhile_eq_nil_iff.2 h
  simp [readDecimal?, hwhole, hrest, hne, readExponent?]

theorem readDecimal?_fraction {whole fraction : List Char} (hw : ∀ c ∈ whole, c.isDigit = true)
    (hne : whole ≠ []) (hf : ∀ c ∈ fraction, c.isDigit = true) :
    readDecimal? (whole ++ '.' :: fraction) =
      some ⟨digitsValue (whole ++ fraction), -fraction.length⟩ := by
  have htake := takeWhile_isDigit_append hw (c := '.') rfl fraction
  have hdrop := dropWhile_isDigit_append hw (c := '.') rfl fraction
  have hfraction : fraction.takeWhile Char.isDigit = fraction := List.takeWhile_eq_self_iff.2 hf
  have hrest : fraction.dropWhile Char.isDigit = [] := List.dropWhile_eq_nil_iff.2 hf
  simp [readDecimal?, htake, hdrop, hfraction, hrest, hne, readExponent?]

/-- **A decimal that is written out is read as it is**, but for zeros that stand for a power of
ten. -/
theorem readDecimal?_positional (d : Decimal) :
    ∃ e, readDecimal? d.positional = some e ∧ ∀ s, e.toDouble s = d.toDouble s := by
  obtain ⟨m, exponent⟩ := d
  unfold Decimal.positional
  dsimp only
  split
  · next he =>
    obtain ⟨k, rfl⟩ := Int.eq_ofNat_of_zero_le he
    have hdigits : ∀ c ∈ natDigits m ++ List.replicate k '0', c.isDigit = true := by
      refine List.forall_mem_append.2 ⟨isDigit_natDigits m, fun c hc => ?_⟩
      rw [List.eq_of_mem_replicate hc]
      rfl
    rw [Int.toNat_natCast]
    refine ⟨_, readDecimal?_digits hdigits (by simp [natDigits_ne_nil]), fun s => ?_⟩
    rw [digitsValue_append_zeros, Decimal.toDouble_mul_pow]
  · next he =>
    obtain ⟨k, hk⟩ : ∃ k : Nat, exponent = -k := ⟨(-exponent).toNat, by omega⟩
    subst hk
    rw [Int.neg_neg, Int.toNat_natCast]
    have hdigits := isDigit_padded (k + 1) m
    have hlength := length_padded (k + 1) m
    generalize hds : padded (k + 1) m = ds at hdigits hlength
    have htake : ds.take (ds.length - k) ≠ [] := by
      rw [ne_eq, List.take_eq_nil_iff]
      exact not_or.2 ⟨by omega, List.ne_nil_of_length_pos (by omega)⟩
    refine ⟨_, readDecimal?_fraction (fun c hc => hdigits c (List.mem_of_mem_take hc)) htake
      (fun c hc => hdigits c (List.mem_of_mem_drop hc)), fun s => ?_⟩
    have hplaces : (ds.drop (ds.length - k)).length = k := by
      rw [List.length_drop]
      omega
    rw [List.take_append_drop, hplaces, ← hds, digitsValue_padded]

namespace Double

theorem toLower_of_isDigit {c : Char} (h : c.isDigit = true) : c.toLower = c := by
  rw [Char.isDigit, Bool.and_eq_true, decide_eq_true_iff, decide_eq_true_iff] at h
  refine dif_neg fun hupper => ?_
  exact absurd (UInt32.le_trans hupper.1 h.2) (by decide)

/-- Nothing that begins with a digit is a word for a value that is not finite. -/
theorem readUnsigned?_of_isDigit {c : Char} (h : c.isDigit = true) (cs : List Char) (negative : Bool) :
    readUnsigned? negative (c :: cs) = (readDecimal? (c :: cs)).map (·.toDouble negative) := by
  have hword : ∀ {w : String} {d : Char} {ds : List Char}, w.toList = d :: ds →
      d.isDigit = false → (c :: cs).map Char.toLower ≠ w.toList := by
    intro w d ds hw hd heq
    rw [hw, List.map_cons, toLower_of_isDigit h] at heq
    rw [(List.cons.inj heq).1, hd] at h
    exact Bool.false_ne_true h
  have hinf := hword (w := "inf") rfl rfl
  have hinfinity := hword (w := "infinity") rfl rfl
  have hnan := hword (w := "nan") rfl rfl
  simp only [readUnsigned?, hinf, hinfinity, hnan, decide_false, Bool.or_false, if_false,
    Bool.false_eq_true]

/-- **A sign in front of a number that begins with a digit** is read as its sign. -/
theorem readChars?_signText {c : Char} (h : c.isDigit = true) (cs : List Char) (negative : Bool) :
    readChars? (signText negative ++ c :: cs) =
      (readDecimal? (c :: cs)).map (·.toDouble negative) := by
  rw [← readUnsigned?_of_isDigit h]
  cases negative with
  | true => rfl
  | false =>
    have hplus : c ≠ '+' := by
      rintro rfl
      exact Bool.false_ne_true h
    have hminus : c ≠ '-' := by
      rintro rfl
      exact Bool.false_ne_true h
    rw [signText, if_neg Bool.false_ne_true, List.nil_append]
    unfold readChars?
    split
    · next heq => exact absurd (List.cons.inj heq).1 hplus
    · next heq => exact absurd (List.cons.inj heq).1 hminus
    · rfl

/-- **How a number is written without its sign**: a digit, then digits with at most one point
among them. -/
structure Plain (text : List Char) : Prop where
  chars : ∀ c ∈ text, c.isDigit = true ∨ c = '.'
  head : ∃ c cs, text = c :: cs ∧ c.isDigit = true

/-- Nothing else is in it, such as a sign. -/
theorem Plain.notMem {text : List Char} (h : Plain text) {c : Char} (hdigit : c.isDigit = false)
    (hpoint : c ≠ '.') : c ∉ text := by
  intro hc
  obtain hc | hc := h.chars c hc
  · exact Bool.false_ne_true (hdigit.symm.trans hc)
  · exact hpoint hc

theorem plain_of_digits {ds : List Char} (h : ∀ c ∈ ds, c.isDigit = true) (hne : ds ≠ []) :
    Plain ds where
  chars c hc := .inl (h c hc)
  head := by
    obtain ⟨c, cs, rfl⟩ := List.exists_cons_of_ne_nil hne
    exact ⟨c, cs, rfl, h c List.mem_cons_self⟩

theorem Plain.append_fraction {whole fraction : List Char} (h : Plain whole)
    (hf : ∀ c ∈ fraction, c.isDigit = true) : Plain (whole ++ '.' :: fraction) where
  chars := by
    refine List.forall_mem_append.2 ⟨h.chars, List.forall_mem_cons.2 ⟨.inr rfl, fun c hc => ?_⟩⟩
    exact .inl (hf c hc)
  head := by
    obtain ⟨c, cs, rfl, hc⟩ := h.head
    exact ⟨c, _, List.cons_append, hc⟩

theorem plain_positional (d : Decimal) : Plain d.positional := by
  unfold Decimal.positional
  split
  · refine plain_of_digits (List.forall_mem_append.2 ⟨isDigit_natDigits _, fun c hc => ?_⟩)
      (by simp [natDigits_ne_nil])
    rw [List.eq_of_mem_replicate hc]
    rfl
  · dsimp only
    generalize (-d.exponent).toNat = k
    have hdigits := isDigit_padded (k + 1) d.digits
    have hlength := length_padded (k + 1) d.digits
    refine Plain.append_fraction (plain_of_digits (fun c hc => hdigits c (List.mem_of_mem_take hc)) ?_)
      fun c hc => hdigits c (List.mem_of_mem_drop hc)
    rw [ne_eq, List.take_eq_nil_iff]
    exact not_or.2 ⟨by omega, List.ne_nil_of_length_pos (by omega)⟩

/-- **A whole number in digits** denotes the double nearest to it. -/
theorem toDouble_natural {n : Nat} (hsmall : n < 10 ^ 100) (s : Bool) :
    Decimal.toDouble ⟨n, 0⟩ s = rounded s (n * unitsPerOne) 1 := by
  have hcount : digitCount n ≤ 100 := (digitCount_le_iff (by decide)).2 hsmall
  have hone : n * Nat.pow 10 (0 : Int).toNat * unitsPerOne = n * unitsPerOne := by
    rw [Int.toNat_zero, show Nat.pow 10 0 = 1 from rfl, Nat.mul_one]
  have hlarge : ¬(0 : Int) + (digitCount n : Int) > 400 := by omega
  have hsmall : ¬(0 : Int) + (digitCount n : Int) < -400 := by omega
  have hnone : n = 0 → finite s 0 fits_zero = rounded s (n * unitsPerOne) 1 := by
    rintro rfl
    rw [Nat.zero_mul, rounded_of_fits s fits_zero]
  unfold Decimal.toDouble
  rw [hone, if_neg hlarge, if_neg hsmall, if_pos (Int.le_refl 0)]
  exact ite_eq_right_iff.2 hnone

/-- **A whole number that is not large** denotes itself. -/
theorem toDouble_whole {units n : Nat} (fits : Fits units) (hback : n * unitsPerOne = units)
    (hsmall : n < 10 ^ 15) (s : Bool) :
    Decimal.toDouble ⟨n, 0⟩ s = .finite s units fits := by
  have hlimit : n < 10 ^ 100 := hsmall.trans (Nat.pow_lt_pow_right (by decide) (by decide))
  rw [toDouble_natural hlimit, hback, rounded_of_fits s fits]

/-- **What a finite number is displayed as**: its sign, unless it is zero, and a text that denotes
it. -/
theorem displayText_finite (negative : Bool) {units : Nat} (fits : Fits units) :
    ∃ text d, displayText (.finite negative units fits) =
        String.ofList (signText (negative && units != 0) ++ text) ∧
      Plain text ∧ readDecimal? text = some d ∧ ∀ s, d.toDouble s = .finite s units fits := by
  rw [displayText]
  split
  · next hwhole =>
    refine ⟨_, _, rfl, plain_of_digits (isDigit_natDigits _) (natDigits_ne_nil _),
      readDecimal?_digits (isDigit_natDigits _) (natDigits_ne_nil _), fun s => ?_⟩
    rw [digitsValue_natDigits]
    exact toDouble_whole fits (Nat.div_mul_cancel (Nat.dvd_of_mod_eq_zero hwhole.1)) hwhole.2 s
  · next hwhole =>
    have hpos : 0 < units := by
      refine Nat.pos_of_ne_zero fun hzero => hwhole ?_
      rw [hzero, Nat.zero_mod, Nat.zero_div]
      exact ⟨rfl, Nat.succ_pos _⟩
    have hsign : (negative && units != 0) = negative := by
      rw [bne_iff_ne.2 (Nat.ne_of_gt hpos), Bool.and_true]
    obtain ⟨e, hread, he⟩ := readDecimal?_positional (shortest .up units)
    refine ⟨_, e, by rw [hsign], plain_positional _, hread, fun s => ?_⟩
    rw [he, toDouble_shortest .up fits hpos]

/-- **What is displayed reads back** to the number, except that a zero has no sign. -/
theorem readChars?_displayText (negative : Bool) {units : Nat} (fits : Fits units) :
    readChars? (displayText (.finite negative units fits)).toList =
      some (.finite (negative && units != 0) units fits) := by
  obtain ⟨text, d, htext, hplain, hread, hd⟩ := displayText_finite negative fits
  obtain ⟨c, cs, rfl, hc⟩ := hplain.head
  rw [htext, String.toList_ofList, readChars?_signText hc, hread, Option.map_some, hd]

/-- **A whole number that is written reads back** to the double nearest to it. -/
theorem readChars?_intText {i : Int} (hsmall : i.natAbs < 10 ^ 100) :
    readChars? (intText i).toList = some (ofInt i) := by
  have hdigits := isDigit_natDigits i.natAbs
  have hread := readDecimal?_digits hdigits (natDigits_ne_nil i.natAbs)
  obtain ⟨c, cs, htext⟩ := List.exists_cons_of_ne_nil (natDigits_ne_nil i.natAbs)
  rw [toList_intText_eq_sign, htext, readChars?_signText (hdigits c (htext ▸ List.mem_cons_self)),
    ← htext, hread, Option.map_some, digitsValue_natDigits, toDouble_natural hsmall]
  rfl

end Double

end Storefront
