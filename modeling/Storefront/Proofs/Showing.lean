import Storefront.Proofs.Escaping
import Storefront.Proofs.Families
import Storefront.Proofs.Integers
import Storefront.Proofs.Pricing

/-!
# Where integers are shown

An integer of page data becomes text in two ways. Where it names an entity (as an identifier, in an
address, in the link from a child to its parent) it is written with its digits
(`NamedByDigits`). Everywhere else it is shown as a scalar (`ShownAs`), and a scalar past the
signed 64-bit range is shown as a double. So exactly the integers of the signed range are sure to be
shown with their digits, and two integers past it are shown alike when one double holds both
(`Value.integers_shown`).
-/

namespace Storefront

/-! ## The text of an integer -/

namespace Value

/-- An integer of the signed range has its own digits. -/
theorem scalarText?_signed {n : Int} (h : n < 2 ^ 63) :
    scalarText? (.num (.int n)) = some (intText n) :=
  congrArg some (if_pos h)

theorem scalarText?_word {n : Nat} (h : 2 ^ 63 ≤ n) :
    scalarText? (.num (.int n)) = some (Double.ofInt n).displayText :=
  congrArg some (if_neg (by
    have hhalf : UInt64.size / 2 = 2 ^ 63 := by decide
    omega))

/-- An integer past the signed range has the digits of a multiple of 1000. -/
theorem exists_scalarText?_word {n : Nat} (hlow : 2 ^ 63 ≤ n) (hhigh : n < 2 ^ 64) :
    ∃ k : Nat, scalarText? (.num (.int n)) = some (intText k) ∧ 1000 ∣ k ∧
      Double.ofInt k = Double.ofInt n := by
  obtain ⟨k, htext, hk, hround⟩ := Double.displayText_word hlow hhigh
  exact ⟨k, (scalarText?_word hlow).trans (congrArg some htext), hk, hround⟩

/-- **An integer past the signed range and one within it never have the same text.** -/
theorem scalarText?_word_ne {m : Int} {n : Nat} (hm : m < 2 ^ 63) (hlow : 2 ^ 63 ≤ n)
    (hhigh : n < 2 ^ 64) : scalarText? (.num (.int m)) ≠ scalarText? (.num (.int n)) := by
  obtain ⟨k, htext, hk, hround⟩ := exists_scalarText?_word hlow hhigh
  rw [scalarText?_signed hm, htext]
  intro h
  obtain rfl : m = k := intText_inj.1 (Option.some.inj h)
  have := Double.le_of_ofInt_eq hk hlow hhigh hround
  omega

/-- **Two integers past the signed range have the same text when the same double holds them.** -/
theorem scalarText?_words {m n : Nat} (hm : 2 ^ 63 ≤ m ∧ m < 2 ^ 64) (hn : 2 ^ 63 ≤ n ∧ n < 2 ^ 64) :
    scalarText? (.num (.int m)) = scalarText? (.num (.int n)) ↔ Double.held m = Double.held n := by
  rw [← Double.ofInt_eq_iff hm hn]
  constructor
  · intro h
    obtain ⟨j, hj, -, hmj⟩ := exists_scalarText?_word hm.1 hm.2
    obtain ⟨k, hk, -, hnk⟩ := exists_scalarText?_word hn.1 hn.2
    rw [hj, hk] at h
    obtain rfl : j = k := Int.ofNat.inj (intText_inj.1 (Option.some.inj h))
    rw [← hmj, hnk]
  · intro h
    rw [scalarText?_word hm.1, scalarText?_word hn.1, h]

end Value

/-! ## Where it is shown -/

theorem mem_intText {i : Int} {c : Char} (hc : c ∈ (intText i).toList) : c = '-' ∨ c.isDigit = true := by
  rw [toList_intText_eq_sign, List.mem_append] at hc
  obtain hc | hc := hc
  · left
    unfold Double.signText at hc
    split at hc
    · exact List.mem_singleton.1 hc
    · cases hc
  · exact .inr (isDigit_natDigits _ c hc)

theorem intText_ne_empty (i : Int) : intText i ≠ "" := by
  intro h
  have hdigits : natDigits i.natAbs = [] := by
    rw [← digits_intText, h]
    rfl
  exact natDigits_ne_nil _ hdigits

namespace Markup

/-- Digits are no markup. -/
theorem escape_intText (i : Int) : escape (intText i) = intText i := by
  have hspecials : ∀ d ∈ specials, d.isDigit = false ∧ d ≠ '-' := by simp [specials, marks]
  refine escape_of_not_special fun c hc hspecial => ?_
  obtain ⟨hdigit, hminus⟩ := hspecials c hspecial
  obtain hc | hc := mem_intText hc
  · exact hminus hc
  · exact Bool.false_ne_true (hdigit.symm.trans hc)

end Markup

namespace Display

/-- **A path whose values are shown as they are**: no rule of its own is about it, and it makes a
number no price, no date and no stock. -/
structure Verbatim (path : String) : Prop where
  unruled : path ∉ Renderer.ruledPaths
  price : isPricePath path = false
  stock : Text.mentions "stock_status" path = false
  date : Text.mentions "date" path = false

theorem Verbatim.text_num {path : String} (h : Verbatim path) (d : Display) (n : Number)
    (owner : Option Object) : d.text (.num n) path owner = (Value.num n).coercedText := by
  simp only [text, h.price, plainText, h.stock, h.date, Bool.false_and, Bool.false_eq_true, if_false]
  split
  · next hlist => cases hlist
  · rfl

end Display

theorem Value.coercedText_of_scalarText? {v : Value} {s : String} (h : v.scalarText? = some s) :
    v.coercedText = s := by
  unfold coercedText
  rw [h]

theorem Value.coercedText_of_mapM {items : List Value} {texts : List String}
    (h : items.mapM Value.scalarText? = some texts) :
    Value.coercedText (.arr items) = Text.joined "," texts := by
  simp only [coercedText, scalarText?, h]

theorem Value.filledText?_of_scalarText? {v : Value} {i : Int} (h : v.scalarText? = some (intText i)) :
    v.filledText? = some (intText i) := by
  rw [filledText?, h]
  exact Option.filter_eq_some_iff.2 ⟨rfl, bne_iff_ne.2 (intText_ne_empty i)⟩

/-- **The text `text` is shown for the integer `n`**, wherever one is shown as text: by a variable,
in the comparison with a quoted text, as a value of an attribute, and among the items of a list. -/
structure ShownAs (n : Int) (text : String) : Prop where
  scalar : Value.scalarText? (.num (.int n)) = some text
  output : ∀ (r : Renderer) (ctx : Context) (written path : String) (raw : Bool),
    Path.normalized written = path → Display.Verbatim path →
    ctx.resolve path = some (.num (.int n)) → r.variableText ctx written raw = text
  condition : ∀ (ctx : Context) (path literal : String), ctx.resolve path = some (.num (.int n)) →
    ((Condition.hasText path literal).eval ctx = true ↔ text = literal)
  option : ∀ locale, FilterOption.read? locale (.num (.int n)) = some (text, [], [])
  optionObject : ∀ option : Object, option.get? "value" = some (.num (.int n)) →
    Attribute.optionValue? option = some text
  carried : ∀ value, Attribute.isValue (.num (.int n)) value = true ↔ text = value
  selected : Attribute.selectedValues (some (.num (.int n))) = [text]
  joined : ∀ (before after : List Value) (ss ts : List String),
    before.mapM Value.scalarText? = some ss → after.mapM Value.scalarText? = some ts →
    Value.coercedText (.arr (before ++ .num (.int n) :: after)) = Text.joined "," (ss ++ text :: ts)

/-- **What decides is the text of the value alone.** -/
theorem shownAs_of_scalarText? {n i : Int} (h : Value.scalarText? (.num (.int n)) = some (intText i)) :
    ShownAs n (intText i) where
  scalar := h
  output r ctx written path raw hnormal hpath hvalue := by
    have houtput := r.output_of_resolve hnormal hpath.unruled hvalue
    rw [Renderer.variableText, houtput, hpath.text_num, Value.coercedText_of_scalarText? h]
    cases raw with
    | true => rfl
    | false => exact Markup.escape_intText i
  condition ctx path literal hvalue := by
    rw [Condition.eval, hvalue, Option.bind_some, h, Option.any_some, beq_iff_eq]
  option locale := by
    have hread : FilterOption.read? locale (.num (.int n)) =
        (Value.filledText? (.num (.int n))).map fun value => (value, [], []) := rfl
    rw [hread, Value.filledText?_of_scalarText? h, Option.map_some]
  optionObject option hvalue := by
    have hfirst : ["value", "id", "code"].findSome? (fun key => (option.get? key).bind Value.scalarText?) =
        some (intText i) := by
      rw [List.findSome?_cons, hvalue, Option.bind_some, h]
    rw [Attribute.optionValue?, hfirst]
    simp [Option.filter, intText_ne_empty]
  carried value := by
    have hcarried : Attribute.isValue (.num (.int n)) value =
        (Value.scalarText? (.num (.int n)) == some value) := rfl
    rw [hcarried, h, beq_iff_eq, Option.some_inj]
  selected := by
    have hselected : Attribute.selectedValues (some (.num (.int n))) =
        (Value.filledText? (.num (.int n))).toList := rfl
    rw [hselected, Value.filledText?_of_scalarText? h, Option.toList_some]
  joined before after ss ts hbefore hafter := by
    have hitems : (before ++ .num (.int n) :: after).mapM Value.scalarText? =
        some (ss ++ intText i :: ts) := by
      rw [List.mapM_append, hbefore, List.mapM_cons, h, hafter]
      rfl
    exact Value.coercedText_of_mapM hitems

/-- **The integer `n` is named by its digits**, wherever one names an entity: as its identifier, in
addresses, and in the links from children to their parents. -/
structure NamedByDigits (n : Int) : Prop where
  id : ∀ (entity : Object) (key : String), entity.get? key = some (.num (.int n)) →
    entity.id? key = some (intText n)
  address : ∀ (b : PageBuilder) (entity : Object), entity.text? "slug" = none →
    entity.get? "id" = some (.num (.int n)) →
    b.productUrl entity = b.storeUrl ++ "/product/" ++ intText n ∧
      b.categoryUrl entity = b.storeUrl ++ "/category/" ++ intText n
  parent : ∀ (categories : List Value), ∀ e ∈ MenuEntry.ofCategories categories,
    ∀ f ∈ MenuEntry.ofCategories categories, ∀ m : Int,
    e.category.get? "parent_id" = some (.num (.int m)) → f.category.get? "id" = some (.num (.int n)) →
    (e.parent = f.id ↔ m = n)

theorem Object.id?_int {o : Object} {key : String} {n : Int} (h : o.get? key = some (.num (.int n))) :
    o.id? key = some (intText n) := by
  unfold id?
  rw [h]
  rfl

theorem namedByDigits (n : Int) : NamedByDigits n where
  id _ _ h := Object.id?_int h
  address b entity hslug hid := by
    have hhandle : PageBuilder.handle entity = intText n := by
      rw [PageBuilder.handle, hslug, Object.id?_int hid, Option.none_or, Option.getD_some]
    rw [PageBuilder.productUrl, PageBuilder.categoryUrl, hhandle]
    exact ⟨rfl, rfl⟩
  parent categories e he f hf m hparent hid := by
    have hfid := Object.id?_int hid
    rw [MenuEntry.id_eq hf, hfid, MenuEntry.parent_eq_some_iff he, Object.id?_int hparent,
      Option.some_inj, intText_inj]
    exact and_iff_left ⟨f.category, MenuEntry.category_mem hf, hfid⟩

/-! ## Integers of the 64-bit ranges -/

/-- **How integers are shown and named.** They are named by their digits. Those of the signed range
are shown with their digits too; those past it with the digits of a multiple of 1000 that is rounded
to the same double. So two integers are shown alike when they are the same, or past the signed range
and held as the same number. -/
theorem Value.integers_shown {n : Int} (hn : (Number.int n).Proper) :
    NamedByDigits n ∧
    (n < 2 ^ 63 → ShownAs n (intText n)) ∧
    (2 ^ 63 ≤ n → ∃ k : Int, ShownAs n (intText k) ∧ 1000 ∣ k ∧ Double.ofInt k = Double.ofInt n) ∧
    (∀ m : Int, intText m = intText n ↔ m = n) ∧
    ∀ m : Int, (Number.int m).Proper →
      (scalarText? (.num (.int m)) = scalarText? (.num (.int n)) ↔
        m = n ∨ 2 ^ 63 ≤ m ∧ 2 ^ 63 ≤ n ∧ Double.held m.toNat = Double.held n.toNat) := by
  have hword : ∀ {i : Int}, (Number.int i).Proper → 2 ^ 63 ≤ i →
      ∃ k : Nat, i = k ∧ 2 ^ 63 ≤ k ∧ k < 2 ^ 64 := by
    rintro i ⟨-, hi⟩ hlow
    have hsize : UInt64.size = 2 ^ 64 := by decide
    exact ⟨i.toNat, by omega, by omega, by omega⟩
  refine ⟨namedByDigits n, fun h => shownAs_of_scalarText? (scalarText?_signed h), fun h => ?_,
    fun m => intText_inj, fun m hm => ?_⟩
  · obtain ⟨j, rfl, hlow, hhigh⟩ := hword hn h
    obtain ⟨k, htext, hk, hround⟩ := exists_scalarText?_word hlow hhigh
    exact ⟨k, shownAs_of_scalarText? htext, Int.natCast_dvd_natCast.2 hk, hround⟩
  · obtain hmlow | hmhigh := Int.lt_or_le m (2 ^ 63)
    · obtain hnlow | hnhigh := Int.lt_or_le n (2 ^ 63)
      · rw [scalarText?_signed hmlow, scalarText?_signed hnlow, Option.some_inj, intText_inj]
        omega
      · obtain ⟨j, rfl, hlow, hhigh⟩ := hword hn hnhigh
        have hne := scalarText?_word_ne hmlow hlow hhigh
        exact iff_of_false hne (by omega)
    · obtain ⟨j, rfl, hj⟩ := hword hm hmhigh
      obtain hnlow | hnhigh := Int.lt_or_le n (2 ^ 63)
      · have hne := scalarText?_word_ne hnlow hj.1 hj.2
        exact iff_of_false hne.symm (by omega)
      · obtain ⟨k, rfl, hk⟩ := hword hn hnhigh
        rw [scalarText?_words hj hk, Int.toNat_natCast, Int.toNat_natCast]
        constructor
        · exact fun h => .inr ⟨hmhigh, hnhigh, h⟩
        · rintro (h | h)
          · rw [Int.ofNat.inj h]
          · exact h.2.2

/-- The last two integers of the unsigned range: named by their digits, and shown alike. -/
theorem Value.integers_shown_last :
    NamedByDigits 18446744073709551615 ∧
      scalarText? (.num (.int 18446744073709551614)) =
        scalarText? (.num (.int 18446744073709551615)) := by
  have hshown := integers_shown (n := 18446744073709551615) (by decide)
  exact ⟨hshown.1, (hshown.2.2.2.2 18446744073709551614 (by decide)).2
    (.inr ⟨by decide, by decide, by decide⟩)⟩

/-- **Not every integer is shown with its digits**: the last one of the unsigned range and the one
before it both show another one, which neither is named by. -/
theorem Value.integers_lose_digits :
    scalarText? (.num (.int 18446744073709551615)) = some "18446744073709552000" ∧
      scalarText? (.num (.int 18446744073709551614)) = some "18446744073709552000" ∧
      Object.id? [("id", .num (.int 18446744073709551615))] "id" = some "18446744073709551615" ∧
      Object.id? [("id", .num (.int 18446744073709551614))] "id" = some "18446744073709551614" := by
  decide +kernel

end Storefront
