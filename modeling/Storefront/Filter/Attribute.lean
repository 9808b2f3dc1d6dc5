import Storefront.Locale.Catalog

/-!
# Attribute filters

An attribute such as colour or size offers options. An option is kept when at
least one product carries its value, and is shown with the number of products
that do. Products carry values in an object or a list of attributes, or as fields
of their own; a list of values carries each of them.
-/

namespace Storefront

namespace Attribute

/-! ## Values -/

/-- The value of an option or attribute given as an object: the first of `value`, `id` and `code`
that is a scalar, unless its text is empty. -/
def optionValue? (option : Object) : Option String :=
  (["value", "id", "code"].findSome? fun key => (option.get? key).bind Value.scalarText?).filter (· != "")

/-- Whether a value that a product carries is `value`. -/
def isValue (carried : Value) (value : String) : Bool :=
  match carried with
  | .obj option => optionValue? option == some value
  | v => v.scalarText? == some value

/-- What a product carries among its attributes. -/
def listed? (product : Object) (code : String) : Option Value :=
  match product.get? "attributes" with
  | some (.obj attributes) => Object.get? attributes code
  | some (.arr attributes) =>
    ((Value.objects attributes).find? fun a => a.text? "code" == some code).bind fun a => a.get? "value"
  | _ => none

/-- **Whether a product carries a value of an attribute.** -/
def carries (product : Object) (code value : String) : Bool :=
  match (listed? product code).or (product.get? code) with
  | some (.arr values) => values.any fun v => isValue v value
  | some v => isValue v value
  | none => false

/-- The values that are selected: those of a list, the parts between the commas of a text, or
the text of another scalar. -/
def selectedValues : Option Value → List String
  | some (.arr values) => values.filterMap Value.scalarText?
  | some (.str joined) =>
    ((joined.toList.splitOn ',').map fun part => String.ofList (Text.trim part)).filter (· != "")
  | some v => v.filledText?.toList
  | none => []

end Attribute

/-! ## Options -/

/-- **An option of an attribute filter.** -/
structure FilterOption where
  /-- The raw option, empty for one given as a scalar. -/
  raw : Object
  /-- Its value. -/
  value : String
  /-- What shoppers see. -/
  label : String
  /-- How many products carry it. -/
  count : Nat
  /-- Where it stands among the others. -/
  order : Int
  /-- Whether it is selected. -/
  active : Bool

namespace FilterOption

/-- The first of the texts that is not empty, else `fallback`. -/
def firstFilled (texts : List String) (fallback : String) : String := (texts.find? (· != "")).getD fallback

/-- The value and fields of an option, and the label that it brings. -/
def read? (locale : Locale) : Value → Option (String × Object × List String)
  | .obj option =>
    (Attribute.optionValue? option).map fun value =>
      (value, option, [Object.translated option "label" locale, Object.translated option "name" locale])
  | v => v.filledText?.map fun value => (value, [], [])

/-- **An option as page data offers it**, unless no product carries it. -/
def ofValue? (locale : Locale) (code : String) (selected : List String) (products : List Object)
    (option : Value) : Option FilterOption :=
  match read? locale option with
  | none => none
  | some (value, raw, labels) =>
    match products.countP fun p => Attribute.carries p code value with
    | 0 => none
    | count =>
      some { raw, value, label := firstFilled labels value, count, order := raw.sortOrder,
             active := selected.contains value }

/-- The option as page data: the raw fields with those of the filter set. -/
def toValue (o : FilterOption) : Value :=
  .obj (o.raw.extend
    [("active", .bool o.active), ("value", .str o.value), ("label", .str o.label),
      ("count", .ofNat o.count), ("sort_order", .ofInt o.order)])

end FilterOption

/-! ## Attributes -/

/-- **A filter by an attribute.** -/
structure AttributeFilter where
  /-- The code of the attribute. -/
  code : String
  /-- What shoppers see. -/
  name : String
  /-- Its options in their order. -/
  options : List FilterOption

namespace AttributeFilter

/-- The options that an attribute offers. -/
def offered (entity : Object) : List Value :=
  match (entity.get? "options").or (entity.get? "values") with
  | some (.arr options) => options
  | _ => []

/-- **The filter by an attribute**; none without a code or an option that a product carries.
Options of the same order stay as they come. -/
def ofObject? (locale : Locale) (products : List Object) (selected entity : Object) :
    Option AttributeFilter :=
  match (entity.text? "code").or (entity.text? "slug") with
  | none => none
  | some code =>
    let chosen := Attribute.selectedValues (selected.get? code)
    match (offered entity).filterMap (FilterOption.ofValue? locale code chosen products) with
    | [] => none
    | options =>
      some { code, name := FilterOption.firstFilled [entity.translated "name" locale] code,
             options := options.mergeSort fun a b => a.order ≤ b.order }

/-- The filter as page data. -/
def toValue (f : AttributeFilter) : Value :=
  .obj [("code", .str f.code), ("name", .str f.name), ("options", .arr (f.options.map (·.toValue)))]

end AttributeFilter

end Storefront
