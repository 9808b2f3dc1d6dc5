import Mathlib.Data.List.Forall2
import Storefront.Filter.Price
import Storefront.Proofs.Lookup
import Storefront.Proofs.Numerals

/-!
# Price ranges chosen by their own ends

A price filter shows one entry for each of its ranges, with the key that names it in
addresses. Choosing an entry means sending back its key, or its ends, or a list of
such. Both ends of a key are read back as they were written
(`PriceRange.bound?_displayText`), and the key is cut at its first hyphen. So a key is
read as its range as long as that hyphen is the one between the ends
(`PriceRange.ofKey?_key`). The sign of a negative lower end comes before it, and then
nothing is read at all (`PriceRange.ofKey?_key_of_negative`), while the ends themselves
still choose the entry.
-/

namespace Storefront

/-! ## Characters of numbers -/

namespace Text

theorem not_isBlank_of_isDigit {c : Char} (h : c.isDigit = true) : isBlank c = false := by
  rw [Char.isDigit, Bool.and_eq_true, decide_eq_true_iff, decide_eq_true_iff] at h
  have hlow : 48 ≤ c.toNat := UInt32.le_iff_toNat_le.1 h.1
  have hhigh : c.toNat ≤ 57 := UInt32.le_iff_toNat_le.1 h.2
  simp only [isBlank, Bool.or_eq_false_iff, Bool.and_eq_false_iff, decide_eq_false_iff_not,
    beq_eq_false_iff_ne]
  omega

end Text

namespace Double

theorem Plain.not_isBlank {text : List Char} (h : Plain text) : ∀ c ∈ text, Text.isBlank c = false := by
  intro c hc
  obtain hdigit | rfl := h.chars c hc
  · exact Text.not_isBlank_of_isDigit hdigit
  · rfl

theorem signedUnits_signless (s : Bool) (m : Nat) : signedUnits (s && m != 0) m = signedUnits s m := by
  by_cases hm : m = 0
  · subst hm
    cases s <;> rfl
  · rw [bne_iff_ne.2 hm, Bool.and_true]

/-- A zero without its sign has the same value. -/
theorem sameValue_signless (s : Bool) {m : Nat} (fits : Fits m) (y : Double) :
    (finite (s && m != 0) m fits).sameValue y = (finite s m fits).sameValue y := by
  cases y with
  | finite t n fits' => rw [sameValue, sameValue, compare?, compare?, signedUnits_signless]
  | infinite t => rfl
  | nan => rfl

theorem less_zero (s : Bool) {m : Nat} (fits : Fits m) :
    (finite s m fits).less zero = (s && m != 0) := by
  rw [less, zero, compare?, Bool.eq_iff_iff, beq_iff_eq, Option.some_inj, Int.compare_eq_lt]
  cases s with
  | false => simp [signedUnits]
  | true => simp [signedUnits, Nat.pos_iff_ne_zero]

/-- **A finite number is written** with a sign when it is less than zero, and its text reads back to
a number of the same value. -/
theorem exists_text {x : Double} (hx : x.isFinite = true) :
    ∃ text, Plain text ∧ x.displayText.toList = signText (x.less zero) ++ text ∧
      ∃ y, readChars? x.displayText.toList = some y ∧ ∀ z, y.sameValue z = x.sameValue z := by
  cases x with
  | finite s m fits =>
    obtain ⟨text, d, htext, hplain, -⟩ := displayText_finite s fits
    refine ⟨text, hplain, ?_, _, readChars?_displayText s fits, sameValue_signless s fits⟩
    rw [htext, String.toList_ofList, less_zero]
  | infinite s => exact absurd hx Bool.false_ne_true
  | nan => exact absurd hx Bool.false_ne_true

/-- Nothing in the text of a finite number is cut off or taken for the mark of an open end. -/
theorem not_isBlank_of_mem_displayText {x : Double} (hx : x.isFinite = true) :
    ∀ c ∈ x.displayText.toList, Text.isBlank c = false ∧ c ≠ '+' := by
  obtain ⟨text, hplain, htext, -⟩ := exists_text hx
  rw [htext]
  refine List.forall_mem_append.2 ⟨fun c hc => ?_, fun c hc => ⟨hplain.not_isBlank c hc, ?_⟩⟩
  · obtain rfl : c = '-' := by
      rw [signText] at hc
      split at hc
      · exact List.mem_singleton.1 hc
      · exact absurd hc List.not_mem_nil
    exact ⟨rfl, by decide⟩
  · rintro rfl
    exact hplain.notMem rfl (by decide) hc

theorem allBlank_displayText {x : Double} (hx : x.isFinite = true) :
    Text.allBlank x.displayText.toList = false := by
  obtain ⟨text, hplain, htext, -⟩ := exists_text hx
  obtain ⟨c, cs, rfl, hc⟩ := hplain.head
  refine List.all_eq_false.2 ⟨c, htext ▸ List.mem_append_right _ List.mem_cons_self, ?_⟩
  rw [Text.not_isBlank_of_isDigit hc]
  exact Bool.false_ne_true

end Double

/-! ## Keys -/

namespace PriceRange

open Double (zero)

/-- **Finite ends**, as the ends of all ranges that documents hold are. -/
structure FiniteEnds (r : PriceRange) : Prop where
  min : r.min.isFinite = true
  max : ∀ x ∈ r.max, x.isFinite = true

/-- **The same ends**: equal in value, both of them, or no upper one on either side. -/
structure SameEnds (e r : PriceRange) : Prop where
  min : e.min.sameValue r.min = true
  max : Option.Rel (fun x y => x.sameValue y = true) e.max r.max

theorem sameEnd_iff {x y : Option Double} :
    sameEnd x y = true ↔ Option.Rel (fun x y => x.sameValue y = true) x y := by
  cases x with
  | none =>
    cases y with
    | none => exact iff_of_true rfl .none
    | some y => exact iff_of_false Bool.false_ne_true nofun
  | some x =>
    cases y with
    | none => exact iff_of_false Bool.false_ne_true nofun
    | some y => exact (Option.rel_some_some (r := fun x y : Double => x.sameValue y = true)).symm

theorem hasEnds_iff {e r : PriceRange} : r.hasEnds (some e.min) e.max = true ↔ e.SameEnds r := by
  rw [hasEnds, Bool.and_eq_true]
  exact ⟨fun h => ⟨h.1, sameEnd_iff.1 h.2⟩, fun h => ⟨h.min, sameEnd_iff.2 h.max⟩⟩

/-- Ends are compared by value. -/
theorem sameEnds_congr {d r : PriceRange} (hmin : ∀ z, d.min.sameValue z = r.min.sameValue z)
    (hmax : ∀ z, sameEnd d.max z = sameEnd r.max z) (s : PriceRange) :
    d.SameEnds s ↔ r.SameEnds s := by
  rw [← hasEnds_iff, ← hasEnds_iff, hasEnds, hasEnds, sameEnd, sameEnd, hmin, hmax]

/-- The upper end as a key has it. -/
def upperText (r : PriceRange) : List Char := r.max.elim [] fun x => x.displayText.toList

theorem toList_key (r : PriceRange) : r.key.toList = r.min.displayText.toList ++ '-' :: r.upperText := by
  obtain ⟨min, max, label⟩ := r
  cases max with
  | none => exact String.toList_append
  | some max =>
    rw [key, upperText, String.toList_append, String.toList_append, List.append_assoc]
    rfl

section Keys

variable {r : PriceRange} (hr : r.FiniteEnds)

include hr

theorem not_isBlank_of_mem_upperText : ∀ c ∈ r.upperText, Text.isBlank c = false ∧ c ≠ '+' := by
  obtain ⟨min, max, label⟩ := r
  cases max with
  | none => exact fun c hc => absurd hc List.not_mem_nil
  | some max => exact Double.not_isBlank_of_mem_displayText (hr.max max rfl)

theorem not_isBlank_of_mem_key : ∀ c ∈ r.key.toList, Text.isBlank c = false ∧ c ≠ '+' := by
  rw [toList_key]
  refine List.forall_mem_append.2 ⟨Double.not_isBlank_of_mem_displayText hr.min, ?_⟩
  exact List.forall_mem_cons.2 ⟨⟨rfl, by decide⟩, not_isBlank_of_mem_upperText hr⟩

/-- A key of a range has no mark of an open end. -/
theorem beforePlus?_key : beforePlus? r.key.toList = none :=
  if_neg fun hlast => (not_isBlank_of_mem_key hr _ (List.mem_of_getLast? hlast)).2 rfl

theorem trim_key : Text.trim r.key.toList = r.key.toList :=
  Text.trim_of_not_isBlank fun c hc => (not_isBlank_of_mem_key hr c hc).1

end Keys

/-- **The text of an end reads back to it**, in value. -/
theorem bound?_displayText {x : Double} (hx : x.isFinite = true) :
    ∃ y, bound? x.displayText.toList = some y ∧ ∀ z, y.sameValue z = x.sameValue z := by
  obtain ⟨-, -, -, hread⟩ := Double.exists_text hx
  rwa [bound?, Text.trim_of_not_isBlank fun c hc => (Double.not_isBlank_of_mem_displayText hx c hc).1]

/-- **The key of a range is read as that range** when its lower end is not negative: then the first
hyphen is the one between the ends. -/
theorem ofKey?_key {r : PriceRange} (hr : r.FiniteEnds) (hmin : r.min.less zero = false) :
    ∃ d, ofKey? r.key = some d ∧ ∀ s, d.SameEnds s ↔ r.SameEnds s := by
  obtain ⟨text, hplain, htext, -⟩ := Double.exists_text hr.min
  have hnohyphen : '-' ∉ r.min.displayText.toList := by
    rw [htext, hmin]
    exact hplain.notMem rfl (by decide)
  have hcut : Text.cutAt? ['-'] r.key.toList = some (r.min.displayText.toList, r.upperText) := by
    rw [toList_key, Text.cutAt?_append_of_notMem hnohyphen]
    exact congrArg (fun lead => some (lead, r.upperText)) (List.append_nil _)
  obtain ⟨min, hread, hvalue⟩ := bound?_displayText hr.min
  have hkey : ofKey? r.key = if Text.allBlank r.upperText then some { min }
      else (bound? r.upperText).map fun max => { min, max := some max } := by
    rw [ofKey?, trim_key hr, beforePlus?_key hr, hcut]
    dsimp only
    rw [hread]
  obtain ⟨lower, upper, label⟩ := r
  cases upper with
  | none => exact ⟨_, hkey, sameEnds_congr hvalue fun z => rfl⟩
  | some upper =>
    have hupper := hr.max upper rfl
    obtain ⟨max, hread, hmaxvalue⟩ := bound?_displayText hupper
    have hfilled : Text.allBlank upper.displayText.toList = false :=
      Double.allBlank_displayText hupper
    refine ⟨{ min, max := some max }, ?_, sameEnds_congr hvalue fun z => ?_⟩
    · rw [hkey, upperText, Option.elim_some, hfilled, if_neg Bool.false_ne_true, hread]
      rfl
    · cases z with
      | none => rfl
      | some z => exact hmaxvalue z

/-- **The key of a range whose lower end is negative is not read**: it is cut at the sign. -/
theorem ofKey?_key_of_negative {r : PriceRange} (hr : r.FiniteEnds) (hmin : r.min.less zero = true) :
    ofKey? r.key = none := by
  obtain ⟨text, -, htext, -⟩ := Double.exists_text hr.min
  have hcut : ∃ rest, Text.cutAt? ['-'] r.key.toList = some ([], rest) := by
    rw [toList_key, htext, hmin]
    exact ⟨_, rfl⟩
  obtain ⟨rest, hcut⟩ := hcut
  rw [ofKey?, trim_key hr, beforePlus?_key hr, hcut]
  rfl

/-! ## Selections -/

/-- The upper end as page data: null without one. -/
def maxValue (r : PriceRange) : Value := r.max.elim .null .ofDouble

/-- **What a filter shows of a range**: its ends, its label, its key, and whether it is active. -/
structure Shows (r : PriceRange) (active : Prop) (entry : Object) : Prop where
  min : entry.get? "min" = some (.ofDouble r.min)
  max : entry.get? "max" = some r.maxValue
  label : entry.get? "label" = some (.str r.displayLabel)
  value : entry.get? "value" = some (.str r.key)
  active : ∃ b, entry.get? "active" = some (.bool b) ∧ (b = true ↔ active)

theorem exists_shows (r : PriceRange) (b : Bool) :
    ∃ entry : Object, r.toValue b = .obj entry ∧ ∀ P, r.Shows P entry ↔ (b = true ↔ P) := by
  refine ⟨_, rfl, fun P => ⟨?_, fun h => ⟨rfl, ?_, rfl, rfl, b, rfl, h⟩⟩⟩
  · rintro ⟨-, -, -, -, c, hc, hP⟩
    cases hc
    exact hP
  · obtain ⟨min, max, label⟩ := r
    cases max with
    | none => rfl
    | some max => rfl

/-- A list selects what one of its items selects. -/
theorem isSelectedByAny_iff (r : PriceRange) (vs : List Value) :
    r.isSelectedByAny vs = true ↔ ∃ v ∈ vs, r.isSelectedBy v = true := by
  induction vs with
  | nil => simp [isSelectedByAny]
  | cons v vs ih => rw [isSelectedByAny, Bool.or_eq_true, ih, List.exists_mem_cons_iff]

/-- What is missing is as good as null for reading numbers. -/
theorem number?_eq_number?_getD (o : Object) (key : String) :
    o.number? key = ((o.get? key).getD .null).number? := by
  rw [Object.number?]
  cases o.get? key with
  | none => rfl
  | some v => rfl

theorem number?_ofDouble {x : Double} (hx : x.isFinite = true) : (Value.ofDouble x).number? = some x := by
  rw [Value.ofDouble, if_pos hx]
  rfl

section Own

variable {e : PriceRange} (he : e.FiniteEnds) (r : PriceRange)

include he

omit r in
theorem number?_maxValue : e.maxValue.number? = e.max := by
  obtain ⟨min, max, label⟩ := e
  cases max with
  | none => rfl
  | some max => exact number?_ofDouble (he.max max rfl)

/-- **A range is selected by its key** unless its lower end is negative. -/
theorem isSelectedBy_key :
    r.isSelectedBy (.str e.key) = true ↔ e.min.less zero = false ∧ e.SameEnds r := by
  rw [isSelectedBy]
  cases hmin : e.min.less zero with
  | true =>
    rw [ofKey?_key_of_negative he hmin]
    exact iff_of_false Bool.false_ne_true fun h => Bool.noConfusion h.1
  | false =>
    obtain ⟨d, hd, hsame⟩ := ofKey?_key he hmin
    rw [hd]
    exact hasEnds_iff.trans ((hsame r).trans (and_iff_right rfl).symm)

/-- **A range is selected by its ends.** -/
theorem isSelectedBy_ends {ends : Object} (hmin : ends.get? "min" = some (.ofDouble e.min))
    (hmax : (ends.get? "max").getD .null = e.maxValue) :
    r.isSelectedBy (.obj ends) = true ↔ e.SameEnds r := by
  have hlower : ends.number? "min" = some e.min := by
    rw [Object.number?, hmin]
    exact number?_ofDouble he.min
  have hupper : ends.number? "max" = e.max := by
    rw [number?_eq_number?_getD, hmax, number?_maxValue he]
  rw [isSelectedBy, hlower, hupper, hasEnds_iff]

end Own

end PriceRange

namespace PriceFilter

/-- **The ranges that a filter lists**: those of a list, or those of the keys that can be read, with
their labels. -/
def listed? : PriceFilter → Option (List PriceRange)
  | .slider _ _ => none
  | .ranges rs => some rs
  | .labelled labels => some (labels.filterMap labelledRange?)

/-- **What a filter shows under a selection**: one entry for each range, in their order, and active
are those with `P`. -/
def Marks (f : PriceFilter) (rs : List PriceRange) (selected : Option Value)
    (P : PriceRange → Prop) : Prop :=
  ∃ entries : List Object,
    f.normalize selected =
      .obj [("kind", .str "ranges"), ("ranges", .arr (entries.map .obj))] ∧
    List.Forall₂ (fun r entry => r.Shows (P r) entry) rs entries

theorem exists_entries (rs : List PriceRange) (selected : Option Value) :
    ∃ entries : List Object,
      (rs.map fun r => r.toValue (selected.any r.isSelectedBy)) = entries.map .obj ∧
      ∀ P : PriceRange → Prop, List.Forall₂ (fun r entry => r.Shows (P r) entry) rs entries ↔
        ∀ r ∈ rs, (selected.any r.isSelectedBy = true ↔ P r) := by
  induction rs with
  | nil => exact ⟨[], rfl, fun P => iff_of_true .nil (List.forall_mem_nil _)⟩
  | cons r rs ih =>
    obtain ⟨entries, hentries, hP⟩ := ih
    obtain ⟨entry, hentry, hshows⟩ := r.exists_shows (selected.any r.isSelectedBy)
    refine ⟨entry :: entries, ?_, fun P => ?_⟩
    · rw [List.map_cons, List.map_cons, hentry, hentries]
    · rw [List.forall₂_cons, hshows, hP, List.forall_mem_cons]

/-- Marks are a matter of which ranges are selected. -/
theorem marks_iff {f : PriceFilter} {rs : List PriceRange} (h : f.listed? = some rs)
    {selected : Option Value} {P : PriceRange → Prop} :
    f.Marks rs selected P ↔ ∀ r ∈ rs, (selected.any r.isSelectedBy = true ↔ P r) := by
  have hnormalize : f.normalize selected = rangesValue rs selected := by
    cases f with
    | slider min max => cases h
    | ranges rs => cases h; rfl
    | labelled labels => cases h; rfl
  obtain ⟨entries, hentries, hP⟩ := exists_entries rs selected
  rw [Marks, hnormalize, rangesValue, hentries, ← hP]
  constructor
  · rintro ⟨others, hothers, hmarks⟩
    simp only [Value.obj.injEq, List.cons.injEq, Prod.mk.injEq, Value.arr.injEq, true_and,
      and_true] at hothers
    rwa [List.map_injective_iff.2 (fun _ _ => Value.obj.inj) hothers]
  · exact fun hmarks => ⟨entries, rfl, hmarks⟩

/-- **Entries are chosen by their own ends.** A filter that lists ranges shows one entry for each, in
their order, whatever is selected. An entry's own ends, as an object, make exactly the entries with
the same ends active; so does its own key if the lower end is not less than zero, and if it is, then
nothing. A list makes active what one of its items does. -/
theorem normalize_marks {f : PriceFilter} {rs : List PriceRange} (h : f.listed? = some rs) :
    (∀ selected, ∃ P, f.Marks rs selected P) ∧
    (∀ e ∈ rs, e.FiniteEnds →
      (f.Marks rs (some (.str e.key)) fun r => e.min.less .zero = false ∧ e.SameEnds r) ∧
      ∀ ends : Object, ends.get? "min" = some (.ofDouble e.min) →
        (ends.get? "max").getD .null = e.maxValue → f.Marks rs (some (.obj ends)) e.SameEnds) ∧
    ∀ (vs : List Value) (P : Value → PriceRange → Prop), (∀ v ∈ vs, f.Marks rs (some v) (P v)) →
      f.Marks rs (some (.arr vs)) fun r => ∃ v ∈ vs, P v r := by
  refine ⟨fun selected => ⟨_, (marks_iff h).2 fun r _ => Iff.rfl⟩, fun e _ he => ⟨?_, ?_⟩, ?_⟩
  · exact (marks_iff h).2 fun r _ => PriceRange.isSelectedBy_key he r
  · exact fun ends hmin hmax => (marks_iff h).2 fun r _ => PriceRange.isSelectedBy_ends he r hmin hmax
  · intro vs P hvs
    refine (marks_iff h).2 fun r hr => ?_
    rw [Option.any_some, PriceRange.isSelectedBy, PriceRange.isSelectedByAny_iff]
    exact exists_congr fun v => and_congr_right fun hv => (marks_iff h).1 (hvs v hv) r hr

/-- The last of two ranges, chosen by its key. -/
theorem normalize_marks_last :
    Marks (.ranges [{ min := .zero, max := some .one }, { min := .one }])
      [{ min := .zero, max := some .one }, { min := .one }] (some (.str "1-"))
      fun r => Double.less .one .zero = false ∧ PriceRange.SameEnds { min := .one } r := by
  have hkey : PriceRange.key { min := .one } = "1-" := by decide +kernel
  have hends : PriceRange.FiniteEnds { min := .one } :=
    ⟨by decide +kernel, fun x hx => absurd hx (Option.not_mem_none x)⟩
  have hmarks := (normalize_marks (f := .ranges [{ min := .zero, max := some .one }, { min := .one }])
    rfl).2.1 { min := .one } (List.mem_cons_of_mem _ List.mem_cons_self) hends
  rw [hkey] at hmarks
  dsimp only at hmarks
  exact hmarks.1

/-- **A range with a negative lower end is not chosen by its own key**: what is shown under the key
`-5--1` does not become active when that key is sent back. -/
theorem normalize_misses_negative :
    normalize (.ranges [{ min := .ofInt (-5), max := some (.ofInt (-1)) }]) (some (.str "-5--1")) =
      .obj [("kind", .str "ranges"), ("ranges", .arr [.obj [("min", .ofDouble (.ofInt (-5))),
        ("max", .ofDouble (.ofInt (-1))), ("label", .str "-5 - -1"), ("value", .str "-5--1"),
        ("active", .bool false)]])] := by
  have hkey : PriceRange.key { min := .ofInt (-5), max := some (.ofInt (-1)) } = "-5--1" := by
    decide +kernel
  have hlabel : PriceRange.displayLabel { min := .ofInt (-5), max := some (.ofInt (-1)) } = "-5 - -1" := by
    decide +kernel
  have hread : PriceRange.ofKey? "-5--1" = none := Option.isNone_iff_eq_none.1 (by decide +kernel)
  rw [normalize, rangesValue, List.map_singleton, PriceRange.toValue, hkey, hlabel, Option.any_some,
    PriceRange.isSelectedBy, hread]

end PriceFilter

end Storefront
