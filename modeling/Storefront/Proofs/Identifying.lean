import Storefront.Proofs.Candidates
import Storefront.Proofs.Offers

/-!
# What an option goes by

An option given as an object, and a value that a product carries as one, have up to three names:
a `value`, an `id` and a `code`. One wants the first of them that is a scalar with a text
(`Attribute.named?`). What counts is the first that is a scalar, and null and the empty text are
scalars too, so one of these in front masks the name behind it (`Attribute.Masked`). That is the
only case in which the two part (`Attribute.identity?_obj`); an option or a value that is masked
goes by nothing, so no filter shows the one and no option is counted for the other.
-/

namespace Storefront

namespace Attribute

/-- Where the names of an option are, the one that counts most first. -/
def nameKeys : List String := ["value", "id", "code"]

/-- The texts of the scalars among the names of an option, empty for null. -/
def nameTexts (option : Object) : List (Option String) :=
  nameKeys.map fun key => (option.get? key).bind Value.scalarText?

/-- **The name of an option**: the first of its `value`, `id` and `code` that is a scalar with a text. -/
def named? (option : Object) : Option String :=
  nameKeys.findSome? fun key => (option.get? key).bind Value.filledText?

/-- **An option is masked** if the first of its `value`, `id` and `code` that is a scalar has no text,
and one behind it has one. -/
def Masked (option : Object) : Prop := Candidates.Hides (· != "") (nameTexts option)

instance : DecidablePred Masked := fun option =>
  inferInstanceAs (Decidable (Candidates.Hides (· != "") (nameTexts option)))

theorem named?_eq (option : Object) :
    named? option = (nameTexts option).findSome? (Option.filter (· != "")) := by
  rw [named?, nameTexts, List.findSome?_map]
  congr 1
  funext key
  cases hvalue : option.get? key with
  | none => simp [hvalue]
  | some v => simp [hvalue, Value.filledText?]

/-- **An object goes by its name**, unless it is masked. -/
theorem identity?_obj (option : Object) :
    identity? (.obj option) = if Masked option then none else named? option :=
  calc identity? (.obj option)
    _ = ((nameTexts option).findSome? id).filter (· != "") := by
      rw [nameTexts, List.findSome?_map]
      rfl
    _ = if Masked option then none else (nameTexts option).findSome? (Option.filter (· != "")) :=
      Candidates.filter_findSome? (· != "") (nameTexts option)
    _ = if Masked option then none else named? option := by rw [named?_eq]

theorem identity?_obj_eq_some_iff {option : Object} {text : String} :
    identity? (.obj option) = some text ↔ ¬Masked option ∧ named? option = some text := by
  rw [identity?_obj]
  split
  · next hmasked => exact iff_of_false (Option.some_ne_none text).symm fun h => h.1 hmasked
  · next hshown => exact (and_iff_right hshown).symm

variable {product : Object} {code text : String}

/-- A product has one value under a code. -/
theorem Has.unique {v w : Value} (hv : Has product code v) (hw : Has product code w) : v = w :=
  Option.some.inj ((has_iff.2 hv).symm.trans (has_iff.2 hw))

/-- A product that has an object carries what it goes by. -/
theorem carries_obj_iff {value : Object} (h : Has product code (.obj value)) :
    Carries product code text ↔ ¬Masked value ∧ named? value = some text := by
  rw [← identity?_obj_eq_some_iff]
  constructor
  · intro hcarries
    cases hcarries with
    | single hv htext =>
      cases h.unique hv
      exact htext
    | item hvs hv htext => cases h.unique hvs
  · exact .single h

/-- A product that has a list carries what the items go by. -/
theorem carries_arr_iff {vs : List Value} (h : Has product code (.arr vs)) :
    Carries product code text ↔
      (∃ value, .obj value ∈ vs ∧ ¬Masked value ∧ named? value = some text) ∨
        ∃ v ∈ vs, v.scalarText? = some text := by
  constructor
  · intro hcarries
    cases hcarries with
    | single hv htext =>
      -- a list as a whole goes by nothing
      cases h.unique hv
      exact absurd htext (Option.some_ne_none text).symm
    | @item _ v hvs hv htext =>
      cases h.unique hvs
      obtain ⟨value, rfl⟩ | ⟨hscalar, -⟩ := FilterOption.scalar_or_object v
      · exact .inl ⟨value, hv, identity?_obj_eq_some_iff.1 htext⟩
      · exact .inr ⟨v, hv, hscalar.symm.trans htext⟩
  · rintro (⟨value, hv, hvalue⟩ | ⟨v, hv, htext⟩)
    · exact .item h hv (identity?_obj_eq_some_iff.2 hvalue)
    · obtain ⟨value, rfl⟩ | ⟨hscalar, -⟩ := FilterOption.scalar_or_object v
      · exact absurd htext (Option.some_ne_none text).symm
      · exact .item h hv (hscalar.trans htext)

end Attribute

namespace FilterSource

open Attribute AttributeFilter

variable {s : FilterSource} {locale : Locale}

/-- A filter is made from an attribute, and its options from those that the attribute offers. -/
theorem exists_offered_of_mem {f : AttributeFilter} (hf : f ∈ s.attributeFilters locale)
    {o : FilterOption} (ho : o ∈ f.options) :
    ∃ entity ∈ Value.objects s.attributes, ∃ option ∈ offered entity,
      FilterOption.ofValue? locale f.code (selectedValues (s.selected.get? f.code))
        (Value.objects s.products) option = some o := by
  obtain ⟨entity, hentity, hobject⟩ := List.mem_filterMap.1 hf
  obtain ⟨code, -, -, rfl⟩ := ofObject?_eq_some_iff.1 hobject
  obtain ⟨option, hoption, hvalue⟩ := List.mem_filterMap.1 (List.mem_mergeSort.1 ho)
  exact ⟨entity, hentity, option, hoption, hvalue⟩

/-- An option that is made has a place among those of a filter. -/
theorem exists_mem_of_offered {entity : Object} (hentity : entity ∈ Value.objects s.attributes)
    {code : String} (hcode : codeOf? entity = some code) {option : Value}
    (hoption : option ∈ offered entity) {o : FilterOption}
    (hvalue : FilterOption.ofValue? locale code (selectedValues (s.selected.get? code))
      (Value.objects s.products) option = some o) :
    ∃ f ∈ s.attributeFilters locale, f.code = code ∧ o ∈ f.options := by
  have hkept : o ∈ keptOptions locale (Value.objects s.products) s.selected entity code :=
    List.mem_filterMap.2 ⟨option, hoption, hvalue⟩
  exact ⟨_, List.mem_filterMap.2 ⟨entity, hentity,
    ofObject?_eq_some_iff.2 ⟨code, hcode, List.ne_nil_of_mem hkept, rfl⟩⟩, rfl,
    List.mem_mergeSort.2 hkept⟩

/-- **An option that goes by a text is shown** if some product carries the text. -/
theorem exists_shown_of_identity {entity : Object} (hentity : entity ∈ Value.objects s.attributes)
    {code : String} (hcode : codeOf? entity = some code) {option : Object}
    (hoption : .obj option ∈ offered entity) {text : String}
    (hidentity : identity? (.obj option) = some text)
    (hcarried : ∃ p ∈ Value.objects s.products, Carries p code text) :
    ∃ f ∈ s.attributeFilters locale, f.code = code ∧ ∃ o ∈ f.options, o.raw = option ∧
      o.value = text ∧ o.count = (Value.objects s.products).countP fun p => Carries p code text := by
  obtain ⟨p, hp, hcarries⟩ := hcarried
  have hread : FilterOption.read? locale (.obj option) =
      some (text, option, [option.translated "label" locale, option.translated "name" locale]) := by
    rw [FilterOption.read?, ← identity?, hidentity, Option.map_some]
  have hpos : 0 < (Value.objects s.products).countP fun p => carries p code text :=
    List.countP_pos_iff.2 ⟨p, hp, carries_iff.2 hcarries⟩
  obtain ⟨f, hf, hfcode, ho⟩ := exists_mem_of_offered hentity hcode hoption
    (FilterOption.ofValue?_eq_some_iff.2 ⟨text, option, _, hread, hpos, rfl⟩)
  exact ⟨f, hf, hfcode, _, ho, rfl, rfl, countP_carries _ code text⟩

/-- **An option that is shown goes by its value**, and products carry it. -/
theorem identity_of_shown {f : AttributeFilter} (hf : f ∈ s.attributeFilters locale)
    {o : FilterOption} (ho : o ∈ f.options) (hraw : o.raw ≠ []) :
    identity? (.obj o.raw) = some o.value ∧ 0 < o.count ∧
      o.count = (Value.objects s.products).countP fun p => Carries p f.code o.value := by
  obtain ⟨entity, -, option, -, hmade⟩ := exists_offered_of_mem hf ho
  obtain ⟨text, raw, labels, hread, hpos, rfl⟩ := FilterOption.ofValue?_eq_some_iff.1 hmade
  have hcount := countP_carries (Value.objects s.products) f.code text
  obtain ⟨fields, rfl⟩ | ⟨-, -, hscalar⟩ := FilterOption.scalar_or_object option
  · obtain ⟨value, hvalue, hfields⟩ := Option.map_eq_some_iff.1 hread
    cases hfields
    exact ⟨hvalue, hpos, hcount⟩
  · -- what is no object brings no fields
    rw [hscalar] at hread
    obtain ⟨value, -, hfields⟩ := Option.map_eq_some_iff.1 hread
    cases hfields
    exact absurd rfl hraw

/-- **What options and values go by**, for any attributes, products and selection. An option with a
name that some product carries is shown under it, with the count of these products, unless it is
masked; one that is shown is not masked, and stands under its name; and what a product carries is the
name of the object that it has, unless that is masked, or of those in a list that it has. -/
theorem options_identified (s : FilterSource) (locale : Locale) :
    (∀ entity ∈ Value.objects s.attributes, ∀ code, codeOf? entity = some code →
      ∀ option text, .obj option ∈ offered entity → named? option = some text → ¬Masked option →
        (∃ p ∈ Value.objects s.products, Carries p code text) →
        ∃ f ∈ s.attributeFilters locale, f.code = code ∧ ∃ o ∈ f.options, o.raw = option ∧
          o.value = text ∧ o.count = (Value.objects s.products).countP fun p => Carries p code text) ∧
    (∀ f ∈ s.attributeFilters locale, ∀ o ∈ f.options, o.raw ≠ [] →
      ¬Masked o.raw ∧ named? o.raw = some o.value ∧ 0 < o.count ∧
        o.count = (Value.objects s.products).countP fun p => Carries p f.code o.value) ∧
    (∀ p code value text, Has p code (.obj value) →
      (Carries p code text ↔ ¬Masked value ∧ named? value = some text)) ∧
    ∀ p code values text, Has p code (.arr values) →
      (Carries p code text ↔
        (∃ value, .obj value ∈ values ∧ ¬Masked value ∧ named? value = some text) ∨
          ∃ v ∈ values, v.scalarText? = some text) := by
  refine ⟨?_, ?_, fun p code value text => carries_obj_iff, fun p code values text => carries_arr_iff⟩
  · intro entity hentity code hcode option text hoption hnamed hshown
    exact exists_shown_of_identity hentity hcode hoption (identity?_obj_eq_some_iff.2 ⟨hshown, hnamed⟩)
  · intro f hf o ho hraw
    obtain ⟨hidentity, hpos, hcount⟩ := identity_of_shown hf ho hraw
    obtain ⟨hshown, hnamed⟩ := identity?_obj_eq_some_iff.1 hidentity
    exact ⟨hshown, hnamed, hpos, hcount⟩

/-- An option whose value is a list goes by its id, and a product with an object goes with it. -/
theorem options_identified_by_id :
    let option : Object := [("value", .arr []), ("id", .str "red")]
    let product : Object := [("color", .obj [("code", .str "red")])]
    ∃ f ∈ (ofColor (.obj option) product).attributeFilters .english, f.code = "color" ∧
      ∃ o ∈ f.options, o.raw = option ∧ o.value = "red" ∧
        o.count = (Value.objects [.obj product]).countP fun p => Carries p "color" "red" := by
  intro option product
  have h := options_identified (ofColor (.obj option) product) .english
  have hcarries : Carries product "color" "red" :=
    (h.2.2.1 product "color" [("code", .str "red")] "red" (has_iff.1 rfl)).2 ⟨by decide, rfl⟩
  exact h.1 _ (List.mem_singleton_self _) "color" rfl option "red" (List.mem_singleton_self _) rfl
    (by decide) ⟨product, List.mem_singleton_self _, hcarries⟩

/-- **A missing value hides an option**: null in front of the id `red` takes the option away, and an
empty text in front of the code `red` keeps a product from being counted. -/
theorem missing_value_hides :
    let option : Object := [("value", .null), ("id", .str "red")]
    let carried : Object := [("value", .str ""), ("code", .str "red")]
    named? option = some "red" ∧ Carries [("color", .str "red")] "color" "red" ∧
      (ofColor (.obj option) [("color", .str "red")]).attributeFilters .english = [] ∧
      named? carried = some "red" ∧ Has [("color", .obj carried)] "color" (.obj carried) ∧
      (ofColor (.str "red") [("color", .obj carried)]).attributeFilters .english = [] := by
  refine ⟨rfl, by decide +kernel, ?_, rfl, has_iff.1 rfl, ?_⟩
  · exact List.isEmpty_iff.1 (by decide +kernel)
  · exact List.isEmpty_iff.1 (by decide +kernel)

end FilterSource

end Storefront
