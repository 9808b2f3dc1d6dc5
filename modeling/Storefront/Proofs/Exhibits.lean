import Mathlib.Data.List.Flatten
import Storefront.Page.Product
import Storefront.Proofs.Layers
import Storefront.Proofs.Naming

/-!
# Products for display

A product for display is the raw product with entries written over it
(`PageBuilder.product_eq_extend`). What is written is read from the raw product, and
the names it is written under are known (`PageBuilder.shownNames`), none of them
twice. Under every other name the product for display has what the raw product has
(`PageBuilder.get?_product`), so it keeps its price, and no name with a point comes
in. The text of the price is that of the number under `price`
(`PageBuilder.get?_product_price_formatted`), as the fields of other prices are
written under names of their own.
-/

namespace Storefront

namespace PageBuilder

/-- **The names under which a product for display may differ from the raw one.** -/
def shownNames : List String :=
  ["name", "description", "short_description"] ++
    priceFields.flatMap (fun field => [field ++ "_number", field ++ "_formatted"]) ++
    ["image_url", "url", "in_stock", "stock_label", "labels"]

/-! ## What is written -/

/-- A text of the product in the page's language, if the product has that field at all. -/
def textEntries (b : PageBuilder) (product : Object) (field : String) : Object :=
  if product.has field then [(field, .str (b.translated product field))] else []

/-- A price of the product as number and as text, if it is shown. -/
def priceEntries (b : PageBuilder) (product : Object) (field : String) : Object :=
  match product.number? field with
  | none => []
  | some amount =>
    if field ≠ "price" ∧ amount.isZero then []
    else [(field ++ "_number", .ofDouble amount), (field ++ "_formatted", b.priceText amount)]

/-- **What is written into a product for display**, all of it read from the raw product. -/
def decorations (b : PageBuilder) (product : Object) : Object :=
  ("name", .str (b.translated product "name")) ::
    (["description", "short_description"].flatMap (b.textEntries product) ++
      priceFields.flatMap (b.priceEntries product) ++
      [("image_url", .str (b.imageUrl product)), ("url", .str (b.productUrl product)),
        ("in_stock", .bool (!Stock.isOut product)),
        ("stock_label", ((b.display.labeler.label? product).map StockLabel.toValue).getD .null),
        ("labels", .arr ((b.productLabels product).map .obj))])

theorem insertText_eq_extend (b : PageBuilder) (product shown : Object) (field : String) :
    b.insertText product shown field = shown.extend (b.textEntries product field) := by
  unfold insertText textEntries
  split
  · rfl
  · rfl

theorem insertPrice_eq_extend (b : PageBuilder) (product shown : Object) (field : String) :
    b.insertPrice product shown field = shown.extend (b.priceEntries product field) := by
  unfold insertPrice priceEntries
  cases product.number? field with
  | none => rfl
  | some amount =>
    dsimp only
    split
    · rfl
    · rfl

/-- **A product for display is the raw one with its decorations written over it.** -/
theorem product_eq_extend (b : PageBuilder) (product : Object) :
    b.product product = product.extend (b.decorations product) := by
  have htexts : b.insertText product = fun shown field => shown.extend (b.textEntries product field) :=
    funext fun shown => funext (b.insertText_eq_extend product shown)
  have hprices : b.insertPrice product = fun shown field =>
      shown.extend (b.priceEntries product field) :=
    funext fun shown => funext (b.insertPrice_eq_extend product shown)
  rw [PageBuilder.product, htexts, hprices, decorations]
  simp only [Object.extend, List.foldl_cons, List.foldl_append, List.foldl_flatMap]

theorem keys_textEntries (b : PageBuilder) (product : Object) (field : String) :
    (b.textEntries product field).map Prod.fst = if product.has field then [field] else [] := by
  unfold textEntries
  split
  · rfl
  · rfl

theorem keys_priceEntries_sublist (b : PageBuilder) (product : Object) (field : String) :
    ((b.priceEntries product field).map Prod.fst).Sublist [field ++ "_number", field ++ "_formatted"] := by
  unfold priceEntries
  split
  · exact List.nil_sublist _
  · split
    · exact List.nil_sublist _
    · exact List.Sublist.refl _

theorem keys_decorations (b : PageBuilder) (product : Object) :
    (b.decorations product).map Prod.fst =
      "name" :: (["description", "short_description"].flatMap
          (fun field => if product.has field then [field] else []) ++
        priceFields.flatMap (fun field => (b.priceEntries product field).map Prod.fst) ++
        ["image_url", "url", "in_stock", "stock_label", "labels"]) := by
  rw [decorations, List.map_cons, List.map_append, List.map_append, List.map_flatMap, List.map_flatMap]
  simp only [keys_textEntries]
  rfl

/-- The names that are written are among those known, in their order. -/
theorem keys_decorations_sublist (b : PageBuilder) (product : Object) :
    ((b.decorations product).map Prod.fst).Sublist shownNames := by
  rw [keys_decorations]
  refine List.Sublist.cons_cons "name"
    (List.Sublist.append (List.Sublist.append ?_ ?_) (List.Sublist.refl _))
  · refine List.Sublist.flatMap_right (g := fun field => [field]) ["description", "short_description"]
      fun field _ => ?_
    split
    · exact List.Sublist.refl _
    · exact List.nil_sublist _
  · exact List.Sublist.flatMap_right priceFields fun field _ => b.keys_priceEntries_sublist product field

/-- A text that the raw product does not have is not written. -/
theorem not_mem_keys_decorations (b : PageBuilder) {product : Object} {field : String}
    (h : field ∈ ["description", "short_description"]) (hhas : product.has field = false) :
    field ∉ (b.decorations product).map Prod.fst := by
  have hothers : ∀ field ∈ ["description", "short_description"], field ≠ "name" ∧
      field ∉ priceFields.flatMap (fun price => [price ++ "_number", price ++ "_formatted"]) ∧
      field ∉ ["image_url", "url", "in_stock", "stock_label", "labels"] := by decide
  obtain ⟨hname, hprices, hlast⟩ := hothers field h
  rw [keys_decorations, List.mem_cons, List.mem_append, List.mem_append]
  rintro (heq | ((htext | hprice) | hmem))
  · exact hname heq
  · obtain ⟨other, -, hkey⟩ := List.mem_flatMap.1 htext
    split at hkey
    · next hother => exact Bool.false_ne_true (hhas.symm.trans (List.mem_singleton.1 hkey ▸ hother))
    · exact List.not_mem_nil hkey
  · obtain ⟨price, hmem, hkey⟩ := List.mem_flatMap.1 hprice
    have hnames := (b.keys_priceEntries_sublist product price).subset hkey
    exact hprices (List.mem_flatMap.2 ⟨price, hmem, hnames⟩)
  · exact hlast hmem

/-- No name is written twice. -/
theorem distinct_decorations (b : PageBuilder) (product : Object) : (b.decorations product).Distinct := by
  have hnames : shownNames.Nodup := by decide
  exact hnames.sublist (b.keys_decorations_sublist product)

/-- What is written is there. -/
theorem get?_product_of_mem (b : PageBuilder) {product : Object} {key : String} {v : Value}
    (h : (key, v) ∈ b.decorations product) : (b.product product).get? key = some v := by
  rw [product_eq_extend]
  exact Object.get?_extend_of_mem product (b.distinct_decorations product) h

/-- **A product for display keeps the raw product** under all other names. -/
theorem get?_product (b : PageBuilder) (product : Object) {key : String} (h : key ∉ shownNames) :
    (b.product product).get? key = product.get? key := by
  rw [product_eq_extend]
  exact Object.get?_extend_of_not_mem product (b.distinct_decorations product)
    fun hkey => h ((b.keys_decorations_sublist product).subset hkey)

/-- **The text of a product's price.** -/
theorem get?_product_price_formatted (b : PageBuilder) {product : Object} {amount : Double}
    (h : product.number? "price" = some amount) :
    (b.product product).get? "price_formatted" = some (b.priceText amount) := by
  have hprice : ("price_formatted", b.priceText amount) ∈ b.priceEntries product "price" := by
    rw [priceEntries, h]
    exact List.mem_cons_of_mem _ List.mem_cons_self
  exact b.get?_product_of_mem (List.mem_cons_of_mem _ (List.mem_append_left _
    (List.mem_append_right _ (List.mem_flatMap.2 ⟨"price", List.mem_cons_self, hprice⟩))))

/-- A product for display has no names with points, unless the raw one has. -/
theorem undotted_product (b : PageBuilder) {product : Object} (h : product.Undotted) :
    (b.product product).Undotted := by
  intro key hkey
  by_cases hshown : key ∈ shownNames
  · have hnames : ∀ key ∈ shownNames, '.' ∉ key.toList := by decide
    exact hnames key hshown
  · refine h key (Decidable.by_contra fun hraw => ?_)
    refine Object.get?_eq_none_iff.1 ?_ hkey
    rw [b.get?_product product hshown, Object.get?_eq_none_iff.2 hraw]

end PageBuilder

end Storefront
