import Storefront.Filter.Range

/-!
# The price filter

The price filter of a category comes in three kinds: a slider between two prices,
a list of ranges, or a table of range keys and their labels. Templates see only
two: a slider, or a list of ranges.
-/

namespace Storefront

/-- **A price filter.** -/
inductive PriceFilter where
  /-- Any part of the range between two prices. -/
  | slider (min max : Double)
  /-- One of the ranges. -/
  | ranges (ranges : List PriceRange)
  /-- One of the ranges whose keys have labels. -/
  | labelled (labels : Object)

namespace PriceFilter

/-- The range of a key with its label, unless that is empty. -/
def labelledRange? (entry : String × Value) : Option PriceRange :=
  (PriceRange.ofKey? entry.1).map fun range => { range with label := entry.2.filledText? }

/-- Ranges as page data, each with the mark whether it is selected. -/
def rangesValue (ranges : List PriceRange) (selected : Option Value) : Value :=
  .obj [("kind", .str "ranges"), ("ranges", .arr (ranges.map fun r =>
    r.toValue (selected.any r.isSelectedBy)))]

/-- **The price filter that a template sees**, with what is selected marked. -/
def normalize (f : PriceFilter) (selected : Option Value) : Value :=
  match f with
  | .slider min max =>
    let current :=
      match selected with
      | some (.obj ends) => [("current", .obj ends)]
      | _ => []
    .obj ([("kind", .str "slider"), ("min", .ofDouble min), ("max", .ofDouble max)] ++ current)
  | .ranges rs => rangesValue rs selected
  | .labelled labels => rangesValue (labels.filterMap labelledRange?) selected

/-! ## Reading -/

open Decoder in
/-- Reads a filter of the kind that its name tells. -/
def ofKind (kind : String) : Decoder PriceFilter :=
  match kind with
  | "slider" =>
    record ["min", "max"] false fun fs => do
      let min ← fs.get "min" double none
      let max ← fs.get "max" double none
      return .slider min max
  | "rangeList" =>
    record ["ranges"] false fun fs => do
      let ranges ← fs.get "ranges" (list PriceRange.decoder) none
      return .ranges ranges
  | "map" =>
    record ["values"] false fun fs => do
      let labels ← fs.get "values" object none
      return .labelled labels
  | _ => fun _ _ => none

/-- **Reads a price filter**: an object whose `kind` tells what else it holds, or an array with
the kind in front. -/
def decoder : Decoder PriceFilter
  | room, .obj members =>
    match members.find? (·.1 == some "kind") with
    | some (_, .str (some kind)) => ofKind kind room (.obj (members.filter (·.1 != some "kind")))
    | _ => none
  | room, .arr (.str (some kind) :: items) => ofKind kind room (.arr items)
  | _, _ => none

end PriceFilter

end Storefront
