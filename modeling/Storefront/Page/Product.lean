import Storefront.Page.Builder

/-!
# Products on a page

A product keeps its raw fields and gets others for display: its texts in the
page's language, its prices as numbers and as amounts of money, its picture and
address, the state of its stock, and the promotional labels that apply to it.
-/

namespace Storefront

/-- A stock label in page data. -/
def StockLabel.toValue (l : StockLabel) : Value :=
  .obj [("text", .str l.text), ("textColor", .str l.textColor), ("bgColor", .str l.backgroundColor)]

namespace PageBuilder

/-! ## Promotional labels -/

/-- The kinds of label that a product asks for. -/
def wantedLabels (product : Object) : List String :=
  (if product.flag "is_new" then ["new"] else []) ++
    (if (product.get? "compare_price").any Value.truthy then ["sale"] else []) ++
    (if product.flag "is_featured" then ["featured"] else [])

/-- Whether a label is in use, as it is unless it says otherwise. -/
def labelIsActive (label : Object) : Bool :=
  match label.get? "is_active" with
  | some v => v.flag
  | none => true

/-- The kind of a label. -/
def labelKind? (label : Object) : Option String :=
  ["type", "key", "slug"].findSome? fun key => label.text? key

/-- A label with its text in the page's language, when it has one. -/
def localizedLabel (b : PageBuilder) (label : Object) : Object :=
  let text := b.translated label "text"
  if text = "" then label else label.insert "text" (.str text)

/-- **The promotional labels of a product**, in the order of the settings. -/
def productLabels (b : PageBuilder) (product : Object) : List Object :=
  let wanted := wantedLabels product
  let fitting := (Value.objects b.settings.productLabels).filter fun label =>
    labelIsActive label && (labelKind? label).any fun kind => wanted.contains (Text.asciiLower kind)
  fitting.map b.localizedLabel

/-! ## Products -/

/-- The fields that hold prices. -/
def priceFields : List String := ["price", "compare_price", "original_price", "sale_price"]

/-- The product with a price as number and as text. A price of zero is left out, unless it is the
price of the product itself. -/
def insertPrice (b : PageBuilder) (product shown : Object) (field : String) : Object :=
  match product.number? field with
  | none => shown
  | some amount =>
    if field ≠ "price" ∧ amount.isZero then shown
    else (shown.insert (field ++ "_number") (.ofDouble amount)).insert (field ++ "_formatted")
      (b.priceText amount)

/-- The product with a text in the page's language, if it has that field at all. -/
def insertText (b : PageBuilder) (product shown : Object) (field : String) : Object :=
  if product.has field then shown.insert field (.str (b.translated product field)) else shown

/-- **A product for display.** -/
def product (b : PageBuilder) (product : Object) : Object :=
  let named := product.insert "name" (.str (b.translated product "name"))
  let described := ["description", "short_description"].foldl (b.insertText product) named
  let priced := priceFields.foldl (b.insertPrice product) described
  priced.extend
    [("image_url", .str (b.imageUrl product)), ("url", .str (b.productUrl product)),
      ("in_stock", .bool (!Stock.isOut product)),
      ("stock_label", ((b.display.labeler.label? product).map StockLabel.toValue).getD .null),
      ("labels", .arr ((b.productLabels product).map .obj))]

/-- The products of a list for display; what is no object is left out. -/
def products (b : PageBuilder) (items : List Value) : List Value :=
  (Value.objects items).map fun p => .obj (b.product p)

end PageBuilder

end Storefront
