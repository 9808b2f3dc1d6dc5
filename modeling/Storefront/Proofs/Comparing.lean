import Mathlib.Data.String.Basic
import Storefront.Condition.Evaluate
import Storefront.Proofs.Sameness

/-!
# The laws of comparison

Conditions compare values of any kind. Equality looks at both values together to decide
whether to compare numbers, texts or structures, and yet it is an equivalence: each value is
compared as one thing, whatever it is compared with (`Value.Reads`). It is nothing, a number,
a text or a structure, and values that are compared as different things are never equal
(`Value.Reads.looselyEquals_eq`). That a number does not equal any text that is no number
rests on printing: the text of a number is one that reads as a number.

The order looks at the values in another way. Two texts are ordered even if one of them is a
number and the other is not, which equality then tells apart by their texts too.
-/

namespace Storefront

namespace Value

/-! ## What a value is compared as -/

/-- **What a value is compared as.** -/
inductive Reading where
  /-- Null. -/
  | nothing
  /-- A number. -/
  | number (x : Double)
  /-- A text that is no number. -/
  | text (s : String)
  /-- A list or an object. -/
  | structured (v : Value)

/-- Equality of what values are compared as. -/
def Reading.equals : Reading → Reading → Bool
  | .nothing, .nothing => true
  | .number x, .number y => x.sameValue y
  | .text s, .text t => s == t
  | .structured v, .structured w => v.same w
  | _, _ => false

/-- **How a value is read when it is compared.** A number has a text that is a number again, and
a text that is no number is read as a text. -/
inductive Reads : Value → Reading → Prop where
  | nothing : Reads .null .nothing
  | number {v : Value} {x : Double} {s : String} (numeric : v.number? = some x)
      (finite : x.isFinite = true) (text : v.scalarText? = some s)
      (text_numeric : (Value.str s).number? ≠ none) : Reads v (.number x)
  | text {v : Value} {s : String} (filled : v.isNull = false) (not_numeric : v.number? = none)
      (text : v.scalarText? = some s) (text_not_numeric : (Value.str s).number? = none) :
      Reads v (.text s)
  | structured {v : Value} (proper : v.Proper) (not_numeric : v.number? = none)
      (no_text : v.scalarText? = none) : Reads v (.structured v)

theorem number?_str {s : String} {x : Double} (hblank : ∀ c ∈ s.toList, Text.isBlank c = false)
    (hread : Double.readChars? s.toList = some x) (hx : x.isFinite = true) :
    (Value.str s).number? = some x := by
  rw [number?, Text.trim_of_not_isBlank hblank, hread, Option.filter_some, if_pos hx]

/-- The text of a finite number is a number. -/
theorem number?_displayText {x : Double} (hx : x.isFinite = true) :
    (Value.str x.displayText).number? ≠ none := by
  obtain ⟨-, -, -, y, hread, hy⟩ := Double.exists_text hx
  have hfinite : y.isFinite = true := by
    have hsame : x.sameValue y = true :=
      Double.sameValue_symm ((hy x).trans ((Double.sameValue_iff hx hx).2 rfl))
    exact Double.isFinite_of_sameValue hx hsame
  rw [number?_str (fun c hc => (Double.not_isBlank_of_mem_displayText hx c hc).1) hread hfinite]
  exact Option.some_ne_none y

/-- The text of a whole number is a number. -/
theorem number?_intText {n : Int} (hn : (Number.int n).Proper) :
    (Value.str (intText n)).number? ≠ none := by
  have hblank : ∀ c ∈ (intText n).toList, Text.isBlank c = false := by
    rw [toList_intText_eq_sign]
    refine List.forall_mem_append.2 ⟨fun c hc => ?_, fun c hc =>
      Text.not_isBlank_of_isDigit (isDigit_natDigits _ c hc)⟩
    rw [Double.signText] at hc
    split at hc
    · rw [List.mem_singleton.1 hc]
      rfl
    · cases hc
  have hread := Double.readChars?_intText (hn.natAbs_lt.trans (by decide) : n.natAbs < 10 ^ 100)
  rw [number?_str hblank hread (Double.isFinite_ofInt hn.natAbs_lt)]
  exact Option.some_ne_none _

/-- **Every value is compared as something.** -/
theorem Proper.exists_reads {v : Value} (h : v.Proper) : ∃ r, Reads v r := by
  cases h with
  | null => exact ⟨_, .nothing⟩
  | bool b =>
    have hword : (Value.str (if b then "true" else "false")).number? = none := by
      cases b <;> decide
    exact ⟨_, .text rfl rfl rfl hword⟩
  | @num n hn =>
    cases n with
    | int n =>
      by_cases hsmall : n < (UInt64.size / 2 : Nat)
      · exact ⟨_, .number rfl hn.isFinite (congrArg some (if_pos hsmall)) (number?_intText hn)⟩
      · exact ⟨_, .number rfl hn.isFinite (congrArg some (if_neg hsmall)) (number?_displayText hn.isFinite)⟩
    | float x => exact ⟨_, .number rfl hn rfl (number?_displayText hn)⟩
  | str s =>
    cases hs : (Value.str s).number? with
    | none => exact ⟨_, .text rfl hs rfl hs⟩
    | some x =>
      have hx : x.isFinite = true := (Option.filter_eq_some_iff.1 hs).2
      exact ⟨_, .number hs hx rfl (hs ▸ Option.some_ne_none x)⟩
  | arr hitems => exact ⟨_, .structured (.arr hitems) rfl rfl⟩
  | obj hdistinct hvalues => exact ⟨_, .structured (.obj hdistinct hvalues) rfl rfl⟩

theorem isNull_of_number? {v : Value} {x : Double} (h : v.number? = some x) : v.isNull = false := by
  cases v with
  | null => cases h
  | _ => rfl

theorem isNull_of_scalarText? {v : Value} (h : v.scalarText? = none) : v.isNull = false := by
  cases v with
  | null => cases h
  | _ => rfl

/-- Null equals nothing else. -/
theorem looselyEquals_null (v : Value) :
    Value.null.looselyEquals v = v.isNull ∧ v.looselyEquals .null = v.isNull := by
  cases v <;> exact ⟨rfl, rfl⟩

/-- A scalar has another structure than a list or an object. -/
theorem same_eq_false {v w : Value} (hv : v.scalarText? = none) (hw : w.scalarText? ≠ none) :
    v.same w = false ∧ w.same v = false := by
  cases v with
  | arr items =>
    cases w with
    | arr items' => exact absurd rfl hw
    | _ => exact ⟨rfl, rfl⟩
  | obj entries =>
    cases w with
    | obj entries' => exact absurd rfl hw
    | _ => exact ⟨rfl, rfl⟩
  | num n => cases n <;> cases hv
  | _ => cases hv

section Equality

variable {v w : Value} (hv : v.isNull = false) (hw : w.isNull = false)
include hv hw

/-- Two numbers are equal by their values. -/
theorem looselyEquals_numbers {x y : Double} (hx : v.number? = some x) (hy : w.number? = some y) :
    v.looselyEquals w = x.sameValue y := by
  rw [looselyEquals, hv, hw, if_neg (by decide), hx, hy]

/-- Two scalars are equal by their texts, unless both are numbers. -/
theorem looselyEquals_texts (hnumber : v.number? = none ∨ w.number? = none) {s t : String}
    (hs : v.scalarText? = some s) (ht : w.scalarText? = some t) : v.looselyEquals w = (s == t) := by
  rw [looselyEquals, hv, hw, if_neg (by decide)]
  obtain hnone | hnone := hnumber
  · rw [hnone]
    dsimp only
    rw [hs, ht]
  · rw [hnone]
    cases v.number? <;> dsimp only <;> rw [hs, ht]

/-- What is no scalar is equal by its structure. -/
theorem looselyEquals_structures (h : v.number? = none ∧ v.scalarText? = none ∨
    w.number? = none ∧ w.scalarText? = none) : v.looselyEquals w = v.same w := by
  rw [looselyEquals, hv, hw, if_neg (by decide)]
  obtain ⟨hnumber, htext⟩ | ⟨hnumber, htext⟩ := h
  · rw [hnumber, htext]
  · rw [hnumber, htext]
    cases v.number? <;> cases v.scalarText? <;> rfl

end Equality

/-- A text that is a number is no text that is none. -/
theorem beq_texts {s t : String} (hs : (Value.str s).number? ≠ none) (ht : (Value.str t).number? = none) :
    (s == t) = false ∧ (t == s) = false := by
  have hne : s ≠ t := by
    rintro rfl
    exact hs ht
  exact ⟨beq_eq_false_iff_ne.2 hne, beq_eq_false_iff_ne.2 hne.symm⟩

/-- **Values are equal when they are compared as the same thing**, and as equal ones. -/
theorem Reads.looselyEquals_eq {v w : Value} {r q : Reading} (hv : Reads v r) (hw : Reads w q) :
    v.looselyEquals w = r.equals q := by
  cases hv with
  | nothing =>
    rw [(looselyEquals_null w).1]
    cases hw with
    | nothing => rfl
    | number hy => exact isNull_of_number? hy
    | text hfilled => exact hfilled
    | structured _ _ ht => exact isNull_of_scalarText? ht
  | number hx _ hs hnumeric =>
    have hfilled := isNull_of_number? hx
    cases hw with
    | nothing => exact (looselyEquals_null v).2.trans hfilled
    | number hy => exact looselyEquals_numbers hfilled (isNull_of_number? hy) hx hy
    | text hfilled' hnone ht hother =>
      exact (looselyEquals_texts hfilled hfilled' (.inr hnone) hs ht).trans (beq_texts hnumeric hother).1
    | structured _ hnone ht =>
      exact (looselyEquals_structures hfilled (isNull_of_scalarText? ht) (.inr ⟨hnone, ht⟩)).trans
        (same_eq_false ht (hs ▸ Option.some_ne_none _)).2
  | text hfilled hnone hs hother =>
    cases hw with
    | nothing => exact (looselyEquals_null v).2.trans hfilled
    | number hy _ ht hnumeric =>
      exact (looselyEquals_texts hfilled (isNull_of_number? hy) (.inl hnone) hs ht).trans
        (beq_texts hnumeric hother).2
    | text hfilled' _ ht => exact looselyEquals_texts hfilled hfilled' (.inl hnone) hs ht
    | structured _ hnone' ht =>
      exact (looselyEquals_structures hfilled (isNull_of_scalarText? ht) (.inr ⟨hnone', ht⟩)).trans
        (same_eq_false ht (hs ▸ Option.some_ne_none _)).2
  | structured _ hnone hs =>
    have hfilled := isNull_of_scalarText? hs
    cases hw with
    | nothing => exact (looselyEquals_null v).2.trans hfilled
    | number hy _ ht =>
      exact (looselyEquals_structures hfilled (isNull_of_number? hy) (.inl ⟨hnone, hs⟩)).trans
        (same_eq_false hs (ht ▸ Option.some_ne_none _)).1
    | text hfilled' _ ht =>
      exact (looselyEquals_structures hfilled hfilled' (.inl ⟨hnone, hs⟩)).trans
        (same_eq_false hs (ht ▸ Option.some_ne_none _)).1
    | structured _ _ ht =>
      exact looselyEquals_structures hfilled (isNull_of_scalarText? ht) (.inl ⟨hnone, hs⟩)

/-! ## Equality -/

namespace Reading

/-- **What page data is compared as**: finite numbers, and structures that documents hold. -/
def Proper : Reading → Prop
  | number x => x.isFinite = true
  | structured v => v.Proper
  | _ => True

theorem Proper.equals_refl {r : Reading} (h : r.Proper) : r.equals r = true := by
  cases r with
  | nothing => rfl
  | number x => exact (Double.sameValue_iff h h).2 rfl
  | text s => exact beq_self_eq_true s
  | structured v => exact Value.Proper.same_refl h

theorem Proper.equals_symm {r q : Reading} (hr : r.Proper) (hq : q.Proper) (h : r.equals q = true) :
    q.equals r = true := by
  cases r with
  | nothing =>
    cases q with
    | nothing => rfl
    | _ => cases h
  | number x =>
    cases q with
    | number y => exact Double.sameValue_symm h
    | _ => cases h
  | text s =>
    cases q with
    | text t => exact beq_iff_eq.2 (beq_iff_eq.1 h).symm
    | _ => cases h
  | structured v =>
    cases q with
    | structured w => exact Value.Proper.same_symm hr hq h
    | _ => cases h

theorem Proper.equals_trans {r q p : Reading} (hr : r.Proper) (hrq : r.equals q = true)
    (hqp : q.equals p = true) : r.equals p = true := by
  cases r with
  | nothing =>
    cases q with
    | nothing => exact hqp
    | _ => cases hrq
  | number x =>
    cases q with
    | number y =>
      cases p with
      | number z => exact Double.sameValue_trans hr hrq hqp
      | _ => cases hqp
    | _ => cases hrq
  | text s =>
    cases q with
    | text t => exact beq_iff_eq.1 hrq ▸ hqp
    | _ => cases hrq
  | structured v =>
    cases q with
    | structured w =>
      cases p with
      | structured u => exact Value.Proper.same_trans hr hrq hqp
      | _ => cases hqp
    | _ => cases hrq

end Reading

theorem Reads.proper {v : Value} {r : Reading} (h : Reads v r) : r.Proper := by
  cases h with
  | nothing => trivial
  | number _ hx => exact hx
  | text => trivial
  | structured hproper => exact hproper

/-- **Page data that documents hold**, together with the fact that it is such. -/
abbrev Held := {v : Value // v.Proper}

/-- **Equality is an equivalence.** -/
theorem equivalence_looselyEquals : Equivalence fun v w : Held => v.1.looselyEquals w.1 = true where
  refl v := by
    obtain ⟨r, hr⟩ := v.2.exists_reads
    rw [hr.looselyEquals_eq hr]
    exact hr.proper.equals_refl
  symm {v w} h := by
    obtain ⟨r, hr⟩ := v.2.exists_reads
    obtain ⟨q, hq⟩ := w.2.exists_reads
    rw [hr.looselyEquals_eq hq] at h
    rw [hq.looselyEquals_eq hr]
    exact hr.proper.equals_symm hq.proper h
  trans {v w u} hvw hwu := by
    obtain ⟨r, hr⟩ := v.2.exists_reads
    obtain ⟨q, hq⟩ := w.2.exists_reads
    obtain ⟨p, hp⟩ := u.2.exists_reads
    rw [hr.looselyEquals_eq hq] at hvw
    rw [hq.looselyEquals_eq hp] at hwu
    rw [hr.looselyEquals_eq hp]
    exact hr.proper.equals_trans hvw hwu

/-! ## Order -/

/-- **Values that have an order**: two numbers, or two texts. -/
def Comparable (v w : Value) : Prop :=
  (∃ x y, v.number? = some x ∧ w.number? = some y) ∨ ∃ s t, v = .str s ∧ w = .str t

theorem Comparable.symm {v w : Value} (h : Comparable v w) : Comparable w v := by
  obtain ⟨x, y, hx, hy⟩ | ⟨s, t, hs, ht⟩ := h
  · exact .inl ⟨y, x, hy, hx⟩
  · exact .inr ⟨t, s, ht, hs⟩

theorem looseOrder?_numbers {v w : Value} {x y : Double} (hx : v.number? = some x)
    (hy : w.number? = some y) : v.looseOrder? w = x.compare? y := by
  unfold looseOrder?
  rw [hx, hy]

/-- Two texts that are not both numbers are ordered by their characters. -/
theorem looseOrder?_texts {s t : String} (h : (Value.str s).number? = none ∨ (Value.str t).number? = none) :
    (Value.str s).looseOrder? (.str t) = some (compare s t) := by
  unfold looseOrder?
  obtain hnone | hnone := h
  · rw [hnone]
    rfl
  · rw [hnone]
    cases (Value.str s).number? <;> rfl

/-- Anything else has no order. -/
theorem looseOrder?_eq_none {v w : Value} (h : ¬Comparable v w) : v.looseOrder? w = none := by
  unfold looseOrder?
  split
  · next x y hx hy => exact absurd (.inl ⟨x, y, hx, hy⟩) h
  · split
    · exact absurd (.inr ⟨_, _, rfl, rfl⟩) h
    · rfl

theorem Proper.isFinite_of_number? {v : Value} (h : v.Proper) {x : Double} (hx : v.number? = some x) :
    x.isFinite = true := by
  cases h with
  | num hn => exact Option.some.inj hx ▸ hn.isFinite
  | str s => exact (Option.filter_eq_some_iff.1 hx).2
  | _ => cases hx

/-- **Of values that have an order, those are equal that it does not tell apart.** -/
theorem Comparable.exists_order {v w : Value} (h : Comparable v w) (hv : v.Proper) (hw : w.Proper) :
    ∃ o : Ordering, v.looseOrder? w = some o ∧ w.looseOrder? v = some o.swap ∧
      v.looselyEquals w = (o == .eq) := by
  by_cases hnumbers : ∃ x y, v.number? = some x ∧ w.number? = some y
  · obtain ⟨x, y, hx, hy⟩ := hnumbers
    have horder := Double.compare?_of_finite (hv.isFinite_of_number? hx) (hw.isFinite_of_number? hy)
    refine ⟨compare x.amount y.amount, (looseOrder?_numbers hx hy).trans horder, ?_, ?_⟩
    · rw [looseOrder?_numbers hy hx, Double.compare?_swap, horder]
      rfl
    · rw [looselyEquals_numbers (isNull_of_number? hx) (isNull_of_number? hy) hx hy, Double.sameValue, horder]
      rfl
  · obtain ⟨s, t, rfl, rfl⟩ := h.resolve_left hnumbers
    have hnone : (Value.str s).number? = none ∨ (Value.str t).number? = none := by
      cases hx : (Value.str s).number? with
      | none => exact .inl rfl
      | some x =>
        cases hy : (Value.str t).number? with
        | none => exact .inr rfl
        | some y => exact absurd ⟨x, y, hx, hy⟩ hnumbers
    refine ⟨compare s t, looseOrder?_texts hnone, ?_, ?_⟩
    · rw [looseOrder?_texts hnone.symm]
      exact congrArg some Std.OrientedCmp.eq_swap
    · rw [looselyEquals_texts rfl rfl hnone rfl rfl, Bool.eq_iff_iff, beq_iff_eq, beq_iff_eq,
        compare_eq_iff_eq]

/-- Whether values compare as told, by their order. -/
theorem compares_of_order {v w : Value} {o : Ordering} (h : v.looseOrder? w = some o) :
    v.compares .less w = (o == .lt) ∧ v.compares .greater w = (o == .gt) ∧
      v.compares .atMost w = (o != .gt) ∧ v.compares .atLeast w = (o != .lt) := by
  simp only [compares, h, Option.any_some, and_self]

theorem compares_of_no_order {v w : Value} (h : v.looseOrder? w = none) :
    ∀ op ∈ [Comparison.less, .atMost, .greater, .atLeast], v.compares op w = false := by
  simp [compares, h]

/-- The operator that an order satisfies. -/
def orderOperator : Ordering → Comparison
  | .lt => .less
  | .eq => .equal
  | .gt => .greater

/-- **Exactly one of less, equal and greater holds** of values that have an order. -/
theorem Comparable.existsUnique {v w : Value} (h : Comparable v w) (hv : v.Proper) (hw : w.Proper) :
    ∃! op, op ∈ [Comparison.less, .equal, .greater] ∧ v.compares op w = true := by
  obtain ⟨o, horder, -, hequal⟩ := h.exists_order hv hw
  obtain ⟨hless, hgreater, -⟩ := compares_of_order horder
  have hequals : v.compares .equal w = (o == .eq) := hequal
  have hholds : ∀ op ∈ [Comparison.less, .equal, .greater],
      v.compares op w = true ↔ op = orderOperator o := by
    intro op hop
    simp only [List.mem_cons, List.not_mem_nil, or_false] at hop
    obtain rfl | rfl | rfl := hop
    · rw [hless]
      cases o <;> decide
    · rw [hequals]
      cases o <;> decide
    · rw [hgreater]
      cases o <;> decide
  refine ⟨orderOperator o, ⟨?_, (hholds _ ?_).2 rfl⟩, fun op hop => (hholds op hop.1).1 hop.2⟩
  · cases o <;> decide
  · cases o <;> decide

/-- **The laws of comparison**, for page data that documents hold. Equality is an equivalence. What
is less is the other way round greater. Of two values that have an order, exactly one is less, equal
or greater, and the other two operators join these; values without an order are neither. -/
theorem compares_laws :
    Equivalence (fun v w : Held => v.1.compares .equal w.1 = true) ∧
      ∀ v w : Held,
        v.1.compares .less w.1 = w.1.compares .greater v.1 ∧
        v.1.compares .atMost w.1 = w.1.compares .atLeast v.1 ∧
        (Comparable v.1 w.1 →
          (∃! op, op ∈ [Comparison.less, .equal, .greater] ∧ v.1.compares op w.1 = true) ∧
          v.1.compares .atMost w.1 = (v.1.compares .less w.1 || v.1.compares .equal w.1) ∧
          v.1.compares .atLeast w.1 = (v.1.compares .greater w.1 || v.1.compares .equal w.1)) ∧
        (¬Comparable v.1 w.1 →
          ∀ op ∈ [Comparison.less, .atMost, .greater, .atLeast], v.1.compares op w.1 = false) := by
  refine ⟨equivalence_looselyEquals, fun v w => ?_⟩
  by_cases h : Comparable v.1 w.1
  · obtain ⟨o, horder, hswap, hequal⟩ := h.exists_order v.2 w.2
    obtain ⟨hless, hgreater, hatMost, hatLeast⟩ := compares_of_order horder
    obtain ⟨-, hgreater', -, hatLeast'⟩ := compares_of_order hswap
    have hequals : v.1.compares .equal w.1 = (o == .eq) := hequal
    have hunique := h.existsUnique v.2 w.2
    rw [hless, hgreater', hatMost, hatLeast', hatLeast, hgreater, hequals]
    refine ⟨?_, ?_, fun _ => ⟨hunique, ?_, ?_⟩, fun hnot => absurd h hnot⟩
    all_goals cases o <;> rfl
  · have hnone := compares_of_no_order (looseOrder?_eq_none h)
    have hnone' := compares_of_no_order (looseOrder?_eq_none (mt Comparable.symm h))
    refine ⟨?_, ?_, fun hcomparable => absurd hcomparable h, fun _ => hnone⟩
    · rw [hnone .less (by decide), hnone' .greater (by decide)]
    · rw [hnone .atMost (by decide), hnone' .atLeast (by decide)]

/-- A number, the same number as a text with blanks, a text that is no number, and an object. -/
theorem compares_laws_mixed :
    let five : Held := ⟨.num (.int 5), .num (by decide)⟩
    let text : Held := ⟨.str " 5.0 ", .str _⟩
    let word : Held := ⟨.str "five", .str _⟩
    let object : Held := ⟨.obj [("five", .num (.int 5))], .obj (by decide) fun e he => by
      rw [List.mem_singleton.1 he]
      exact .num (by decide)⟩
    five.1.compares .equal text.1 = true ∧ text.1.compares .equal five.1 = true ∧
      Comparable text.1 word.1 ∧
      (∃! op, op ∈ [Comparison.less, .equal, .greater] ∧ text.1.compares op word.1 = true) ∧
      ¬Comparable five.1 object.1 ∧ five.1.compares .atMost object.1 = false := by
  intro five text word object
  obtain ⟨hequivalence, hlaws⟩ := compares_laws
  have hfive : five.1.compares .equal text.1 = true := by decide +kernel
  have hword : Comparable text.1 word.1 := .inr ⟨_, _, rfl, rfl⟩
  have hobject : ¬Comparable five.1 object.1 := by
    rintro (⟨x, y, -, hy⟩ | ⟨s, t, hs, -⟩)
    · cases hy
    · cases hs
  obtain ⟨-, -, hunique, -⟩ := hlaws text word
  obtain ⟨-, -, -, hnone⟩ := hlaws five object
  exact ⟨hfive, hequivalence.symm hfive, hword, (hunique hword).1, hobject,
    hnone hobject .atMost (by decide)⟩

end Value

end Storefront
