import Storefront.Filter.Attribute
import Storefront.Filter.Price

/-!
# The filters of a category

A price filter, if the category has one that can be read, and the filters by
attribute that some product of the category answers to.
-/

namespace Storefront

/-- **What the filters of a category are made from.** -/
structure FilterSource where
  /-- The filters of the raw data, of which only the price filter counts. -/
  filters : Option Value
  /-- The attributes to filter by. -/
  attributes : List Value
  /-- All products of the category. -/
  products : List Value
  /-- What is selected, by attribute. -/
  selected : Object

namespace FilterSource

/-- The price filter, null when it is missing or cannot be read. -/
def price (s : FilterSource) : Value :=
  match (s.filters.bind Value.object?).bind fun filters => filters.get? "price" with
  | none => .null
  | some raw =>
    match PriceFilter.decoder.ofValue? raw with
    | some filter => filter.normalize (s.selected.get? "price")
    | none => .null

/-- The filters by attribute. -/
def attributeFilters (s : FilterSource) (locale : Locale) : List AttributeFilter :=
  (Value.objects s.attributes).filterMap
    (AttributeFilter.ofObject? locale (Value.objects s.products) s.selected)

/-- **The filters as page data.** -/
def toValue (s : FilterSource) (locale : Locale) : Value :=
  .obj [("price", s.price), ("attributes", .arr ((s.attributeFilters locale).map (·.toValue)))]

end FilterSource

end Storefront
