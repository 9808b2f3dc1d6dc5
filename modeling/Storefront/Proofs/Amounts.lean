import Mathlib.Algebra.Group.Action.Defs
import Mathlib.Tactic.Positivity
import Storefront.Currency.Format
import Storefront.Proofs.Sameness

/-!
# Amounts of money digit by digit

The text of an amount is taken apart into what it is made of: a first group of one to three
digits, further groups of three, and the decimals (`Figures`). Put together without
separators these are the fixed places of the amount (`CurrencyFormat.Carries`), which in turn
are the amount in the least coins of the currency, rounded to the nearest
(`Double.coins_nearest`).

Groups are counted from the end of the digits, while the digits are walked from their front.
So the induction is on the digits: a digit in front of groups goes into the first of them as
long as that has less than three (`Currency.exists_groups`).
-/

namespace Storefront

/-! ## Coins -/

namespace Double

/-- An amount in coins of which `10 ^ places` make one, rounded to the nearest. -/
def coins (places : Nat) : Double → Nat
  | .finite _ units _ => roundHalfEven (units * Nat.pow 10 places) unitsPerOne
  | _ => 0

/-- **Coins are the nearest to the amount.** -/
theorem coins_nearest (places : Nat) {x : Double} (hx : x.isFinite = true) :
    2 * |(x.coins places * unitsPerOne : Int) - |x.amount| * 10 ^ places| ≤ unitsPerOne := by
  cases x with
  | finite s units fits =>
    have habs : |(finite s units fits).amount| = units := by
      cases s with
      | false => exact Nat.abs_cast units
      | true => exact (abs_neg _).trans (Nat.abs_cast units)
    have hnearest := roundHalfEven_nearest (units * Nat.pow 10 places) unitsPerOne_pos
    rw [Nat.cast_mul, Nat.cast_mul units] at hnearest
    rw [habs]
    exact_mod_cast hnearest
  | infinite s => cases hx
  | nan => cases hx

theorem fixedParts_eq (places : Nat) (x : Double) :
    x.fixedParts places = (natDigits (x.coins places / Nat.pow 10 places),
      if places = 0 then [] else padded places (x.coins places % Nat.pow 10 places)) := by
  cases x <;> rfl

theorem fixedText_abs (places : Nat) (x : Double) : x.abs.fixedText places = x.fixedText places := by
  cases x <;> rfl

/-- The decimals of a number: digits, exactly as many as were asked for. -/
theorem fixedParts_decimals (places : Nat) (x : Double) :
    (x.fixedParts places).2.length = places ∧ ∀ c ∈ (x.fixedParts places).2, c.isDigit = true := by
  rw [fixedParts_eq]
  dsimp only
  split
  · next h => exact ⟨h.symm, nofun⟩
  · next h =>
    have hlt : x.coins places % Nat.pow 10 places < 10 ^ places := Nat.mod_lt _ (Nat.pow_pos (by decide))
    exact ⟨length_padded_of_lt (Nat.pos_of_ne_zero h) hlt, isDigit_padded _ _⟩

/-- **The digits of a number in fixed places**, read without the point, are its coins. -/
theorem digitsValue_fixedParts (places : Nat) (x : Double) :
    digitsValue ((x.fixedParts places).1 ++ (x.fixedParts places).2) = x.coins places := by
  have hlength := (fixedParts_decimals places x).1
  have hdecimals : digitsValue (x.fixedParts places).2 = x.coins places % Nat.pow 10 places := by
    rw [fixedParts_eq]
    dsimp only
    split
    · next h =>
      rw [h]
      exact (Nat.mod_one _).symm
    · exact digitsValue_padded _ _
  have hwhole : digitsValue (x.fixedParts places).1 = x.coins places / Nat.pow 10 places := by
    rw [fixedParts_eq]
    exact digitsValue_natDigits _
  rw [digitsValue, Nat.ofDigitChars_append, Nat.ofDigitChars_eq_ofDigitChars_zero, hlength]
  exact (congrArg₂ (fun a b => 10 ^ places * a + b) hwhole hdecimals).trans (Nat.div_add_mod _ _)

end Double

/-! ## Digits -/

theorem digit_eq_zero_iff {c : Char} (h : c.isDigit = true) : c.toNat - '0'.toNat = 0 ↔ c = '0' := by
  have hlow : '0'.toNat ≤ c.toNat := UInt32.le_iff_toNat_le.1 (of_decide_eq_true (Bool.and_eq_true _ _ ▸ h).1)
  rw [Nat.sub_eq_zero_iff_le]
  constructor
  · exact fun hle => Char.toNat_inj.1 (le_antisymm hle hlow)
  · rintro rfl
    exact le_rfl

/-- **Digits denote zero** when all of them are zeros. -/
theorem digitsValue_eq_zero_iff {ds : List Char} (h : ∀ c ∈ ds, c.isDigit = true) :
    digitsValue ds = 0 ↔ ∀ c ∈ ds, c = '0' := by
  induction ds with
  | nil => exact iff_of_true rfl nofun
  | cons c cs ih =>
    obtain ⟨hc, hcs⟩ := List.forall_mem_cons.1 h
    have hvalue : digitsValue (c :: cs) = 10 ^ cs.length * (c.toNat - '0'.toNat) + digitsValue cs := by
      rw [digitsValue, Nat.ofDigitChars_cons, Nat.ofDigitChars_eq_ofDigitChars_zero, Nat.mul_zero,
        Nat.zero_add]
      rfl
    have hpow : 10 ^ cs.length ≠ 0 := by positivity
    rw [hvalue, Nat.add_eq_zero_iff, Nat.mul_eq_zero, or_iff_right hpow, digit_eq_zero_iff hc, ih hcs,
      List.forall_mem_cons]

theorem any_ne_zero_iff {ds : List Char} (h : ∀ c ∈ ds, c.isDigit = true) :
    ds.any (· != '0') = true ↔ digitsValue ds ≠ 0 := by
  rw [ne_eq, digitsValue_eq_zero_iff h, List.any_eq_true, not_forall]
  simp only [bne_iff_ne, Classical.not_imp]

/-! ## Groups of three -/

/-- **A number in groups**: one to three digits, further groups of three, and decimals. -/
structure Figures where
  /-- The first group of the digits before the point. -/
  lead : List Char
  /-- The other groups of them. -/
  groups : List (List Char)
  /-- The digits after the point. -/
  decimals : List Char
  lead_pos : 1 ≤ lead.length
  lead_le : lead.length ≤ 3
  length_of_mem : ∀ g ∈ groups, g.length = 3
  isDigit : ∀ c ∈ lead ++ groups.flatten ++ decimals, c.isDigit = true

namespace Currency

/-- **Digits with separators** are groups with separators between them. -/
theorem exists_groups (sep : List Char) {ds : List Char} (hne : ds ≠ []) :
    ∃ lead groups, ds = lead ++ List.flatten groups ∧ 1 ≤ lead.length ∧ lead.length ≤ 3 ∧
      (∀ g ∈ groups, g.length = 3) ∧ grouped sep ds = lead ++ groups.flatMap (sep ++ ·) := by
  induction ds with
  | nil => exact absurd rfl hne
  | cons c cs ih =>
    obtain rfl | hcs := eq_or_ne cs []
    · exact ⟨[c], [], rfl, le_rfl, Nat.le_add_left 1 2, nofun, rfl⟩
    obtain ⟨lead, groups, hds, hpos, hle, hthree, hgrouped⟩ := ih hcs
    have hflat : groups.flatten.length = groups.length * 3 := by
      rw [List.length_flatten, List.map_congr_left hthree, List.map_const', List.sum_replicate, smul_eq_mul]
    have hlength : cs.length = lead.length + groups.length * 3 := by
      rw [hds, List.length_append, hflat]
    rw [grouped, hgrouped]
    by_cases hfull : lead.length = 3
    · -- the first group is full, and the digit begins a new one
      rw [if_pos ⟨by omega, hcs⟩]
      exact ⟨[c], lead :: groups, by rw [hds]; rfl, le_rfl, Nat.le_add_left 1 2,
        List.forall_mem_cons.2 ⟨hfull, hthree⟩, by simp⟩
    · rw [if_neg fun h => by omega]
      exact ⟨c :: lead, groups, by rw [hds]; rfl, by simp, by simp; omega, hthree, rfl⟩

/-- **Separators that can be told from digits**, and from each other. -/
structure Legible (thousands point : String) : Prop where
  isDigit_eq_false : ∀ c ∈ thousands.toList, c.isDigit = false
  exists_point : ∃ p, point = String.singleton p ∧ p.isDigit = false ∧ p ∉ thousands.toList

/-- **The separators of every language are legible.** -/
theorem legible_layout (language : String) : Legible (layout language).1 (layout language).2.1 := by
  have hmem : ((layout language).1, (layout language).2.1) ∈ [(".", ","), (" ", ","), (",", ".")] := by
    unfold layout
    split <;> decide
  simp only [List.mem_cons, List.not_mem_nil, or_false, Prod.mk.injEq] at hmem
  obtain ⟨hthousands, hpoint⟩ | ⟨hthousands, hpoint⟩ | ⟨hthousands, hpoint⟩ := hmem
  · rw [hthousands, hpoint]
    exact ⟨by simp, ',', rfl, rfl, by simp⟩
  · rw [hthousands, hpoint]
    exact ⟨by simp, ',', rfl, rfl, by simp⟩
  · rw [hthousands, hpoint]
    exact ⟨by simp, '.', rfl, rfl, by simp⟩

end Currency

namespace Figures

/-- The digits before the point. -/
def whole (x : Figures) : List Char := x.lead ++ x.groups.flatten

/-- The number in fixed places, without separators. -/
def plain (x : Figures) : List Char :=
  if x.decimals.isEmpty then x.whole else x.whole ++ '.' :: x.decimals

/-- The number as a format writes it. -/
def text (x : Figures) (f : CurrencyFormat) : List Char :=
  x.lead ++ x.groups.flatMap (f.thousands.toList ++ ·) ++
    if x.decimals.isEmpty then [] else f.point.toList ++ x.decimals

end Figures

namespace CurrencyFormat

/-- The symbol of a format on its side of a number. -/
def around (f : CurrencyFormat) (number : String) : String :=
  match f.position with
  | .before => f.symbol ++ number
  | .beforeSpaced => f.symbol ++ " " ++ number
  | .afterSpaced => number ++ " " ++ f.symbol

/-! ## Separators -/

/-- A number with its thousands separators deleted and its decimal separator read as a point. -/
def withoutSeparators (f : CurrencyFormat) (number : List Char) : List Char :=
  (number.filter (· ∉ f.thousands.toList)).map fun c => if c ∈ f.point.toList then '.' else c

theorem withoutSeparators_append (f : CurrencyFormat) (a b : List Char) :
    f.withoutSeparators (a ++ b) = f.withoutSeparators a ++ f.withoutSeparators b := by
  rw [withoutSeparators, List.filter_append, List.map_append]
  rfl

theorem withoutSeparators_thousands (f : CurrencyFormat) :
    f.withoutSeparators f.thousands.toList = [] := by
  have hnone : f.thousands.toList.filter (· ∉ f.thousands.toList) = [] :=
    List.filter_eq_nil_iff.2 fun c hc => by simpa using hc
  rw [withoutSeparators, hnone, List.map_nil]

section Legible

variable {f : CurrencyFormat} (h : Currency.Legible f.thousands f.point)

include h

theorem withoutSeparators_point : f.withoutSeparators f.point.toList = ['.'] := by
  obtain ⟨p, hpoint, -, hp⟩ := h.exists_point
  simp [withoutSeparators, hpoint, hp]

theorem withoutSeparators_digits {ds : List Char} (hds : ∀ c ∈ ds, c.isDigit = true) :
    f.withoutSeparators ds = ds := by
  obtain ⟨p, hpoint, hp, -⟩ := h.exists_point
  have hkept : ds.filter (· ∉ f.thousands.toList) = ds := by
    refine List.filter_eq_self.2 fun c hc => decide_eq_true fun hmem => ?_
    exact Bool.false_ne_true ((h.isDigit_eq_false c hmem).symm.trans (hds c hc))
  rw [withoutSeparators, hkept]
  refine (List.map_congr_left fun c hc => if_neg fun hmem => ?_).trans (List.map_id ds)
  rw [hpoint, String.toList_singleton, List.mem_singleton] at hmem
  exact Bool.false_ne_true (hp.symm.trans (hmem ▸ hds c hc))

theorem withoutSeparators_groups {groups : List (List Char)}
    (hgroups : ∀ c ∈ groups.flatten, c.isDigit = true) :
    f.withoutSeparators (groups.flatMap (f.thousands.toList ++ ·)) = groups.flatten := by
  induction groups with
  | nil => rfl
  | cons g groups ih =>
    rw [List.flatten_cons] at hgroups ⊢
    obtain ⟨hg, hrest⟩ := List.forall_mem_append.1 hgroups
    rw [List.flatMap_cons, withoutSeparators_append, withoutSeparators_append,
      withoutSeparators_thousands, withoutSeparators_digits h hg, ih hrest, List.nil_append]

/-- **Numbers are read back** as they are without separators. -/
theorem withoutSeparators_text (x : Figures) : f.withoutSeparators (x.text f) = x.plain := by
  obtain ⟨hwhole, hdecimals⟩ := List.forall_mem_append.1 x.isDigit
  obtain ⟨hlead, hgroups⟩ := List.forall_mem_append.1 hwhole
  rw [Figures.text, Figures.plain, Figures.whole, withoutSeparators_append, withoutSeparators_append,
    withoutSeparators_digits h hlead, withoutSeparators_groups h hgroups]
  split
  · exact List.append_nil _
  · rw [withoutSeparators_append, withoutSeparators_point h, withoutSeparators_digits h hdecimals]
    rfl

end Legible

/-! ## Formats -/

/-- **A text carries an amount** in these figures. -/
structure Carries (f : CurrencyFormat) (amount : Double) (x : Figures) (text : String) : Prop where
  /-- The figures are the fixed places of the amount without its sign. -/
  fixed : x.plain = amount.abs.fixedText f.decimals
  /-- There are exactly as many decimals as the format has. -/
  length_decimals : x.decimals.length = f.decimals
  /-- Without the point the figures are the nearest number of coins. -/
  nearest : 2 * |(digitsValue (x.whole ++ x.decimals) * unitsPerOne : Int) -
    |amount.amount| * 10 ^ f.decimals| ≤ unitsPerOne
  /-- They can be read off the number. -/
  legible : Currency.Legible f.thousands f.point → f.withoutSeparators (x.text f) = x.plain
  /-- The symbol stands around the number, and a minus sign leads when the amount is less than zero
  and some figure is not zero. -/
  shown : text = (if amount.less .zero = true ∧ digitsValue (x.whole ++ x.decimals) ≠ 0 then "-" else "") ++
    f.around (String.ofList (x.text f))

/-- **The number of an amount** is written in figures. -/
theorem exists_figures (f : CurrencyFormat) (amount : Double) : ∃ x : Figures,
    x.whole = (amount.fixedParts f.decimals).1 ∧ x.decimals = (amount.fixedParts f.decimals).2 ∧
      f.magnitudeText (amount.fixedParts f.decimals).1 (amount.fixedParts f.decimals).2 =
        String.ofList (x.text f) := by
  have hdigits : ∀ c ∈ (amount.fixedParts f.decimals).1, c.isDigit = true := by
    rw [Double.fixedParts_eq]
    exact isDigit_natDigits _
  have hne : (amount.fixedParts f.decimals).1 ≠ [] := by
    rw [Double.fixedParts_eq]
    exact natDigits_ne_nil _
  obtain ⟨lead, groups, hwhole, hpos, hle, hthree, hgrouped⟩ :=
    Currency.exists_groups f.thousands.toList hne
  rw [hwhole] at hdigits
  have hall := List.forall_mem_append.2 ⟨hdigits, (Double.fixedParts_decimals f.decimals amount).2⟩
  refine ⟨⟨lead, groups, _, hpos, hle, hthree, hall⟩, hwhole.symm, rfl, ?_⟩
  rw [magnitudeText, hgrouped, Figures.text]
  dsimp only
  split
  · rw [List.append_nil, String.append_empty]
  · simp only [String.ofList_append, String.ofList_toList]

/-- **Every finite amount is carried by its text**, in every format; and the formats of currencies in
locales are legible. -/
theorem format_carries (f : CurrencyFormat) {amount : Double} (h : amount.isFinite = true) :
    (∃ x, f.Carries amount x (f.format amount)) ∧ ∀ code locale,
      Currency.Legible (ofCode code locale).thousands (ofCode code locale).point := by
  obtain ⟨x, hwhole, hdecimals, hnumber⟩ := exists_figures f amount
  have hvalue : digitsValue (x.whole ++ x.decimals) = amount.coins f.decimals := by
    rw [hwhole, hdecimals, Double.digitsValue_fixedParts]
  have hdigits : ∀ c ∈ x.whole ++ x.decimals, c.isDigit = true := x.isDigit
  have hnegative : (amount.less .zero && amount.isFinite &&
      ((amount.fixedParts f.decimals).1 ++ (amount.fixedParts f.decimals).2).any (· != '0')) = true ↔
      amount.less .zero = true ∧ digitsValue (x.whole ++ x.decimals) ≠ 0 := by
    rw [h, Bool.and_true, Bool.and_eq_true, ← hwhole, ← hdecimals, any_ne_zero_iff hdigits]
  have hcarries : f.Carries amount x (f.format amount) := {
    fixed := by
      rw [Double.fixedText_abs, Figures.plain, hwhole, hdecimals]
      rfl
    length_decimals := by rw [hdecimals, (Double.fixedParts_decimals f.decimals amount).1]
    nearest := by
      rw [hvalue]
      exact Double.coins_nearest f.decimals h
    legible := fun hlegible => withoutSeparators_text hlegible x
    shown := by
      simp only [format, hnumber, hnegative]
      unfold around
      cases f.position with
      | before => exact String.append_assoc
      | beforeSpaced => simp only [String.append_assoc]
      | afterSpaced => simp only [String.append_assoc] }
  exact ⟨⟨x, hcarries⟩, fun _ locale => Currency.legible_layout locale.language⟩

/-- A negative amount that is rounded up, in groups with points between them. -/
theorem format_carries_rounded_up :
    let f := ofCode "EUR" ⟨"de"⟩
    let amount := Decimal.toDouble ⟨1234567899, -3⟩ true
    amount.isFinite = true ∧ f.format amount = "-1.234.567,90 €" ∧
      ∃ x, f.Carries amount x "-1.234.567,90 €" := by
  intro f amount
  have hfinite : amount.isFinite = true := by decide +kernel
  have htext : f.format amount = "-1.234.567,90 €" := by decide +kernel
  exact ⟨hfinite, htext, htext ▸ (format_carries f hfinite).1⟩

end CurrencyFormat

end Storefront
