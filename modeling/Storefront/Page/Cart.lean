import Storefront.Numeric.Word
import Storefront.Page.Builder

/-!
# The cart

A line of the cart has a quantity, a price for one unit and a total. The price of
a unit is that of the product plus those of the selected options. The totals of
the cart come with the raw data, or else follow from the lines: a total that is
not a finite number counts for nothing in the sum of the lines, and has no place
in page data.
-/

namespace Storefront

/-! ## Lines -/

/-- **A line of a cart.** -/
structure CartLine where
  /-- The raw line. -/
  raw : Object
  /-- The product of the line, empty when there is none. -/
  product : Object
  /-- The selected options. -/
  options : List Object

namespace CartLine

/-- The options under the first of the accepted keys that is there. -/
def selectedOptions (raw : Object) : List Object :=
  match ((raw.get? "selected_options").or (raw.get? "selectedOptions")).or (raw.get? "options") with
  | some (.arr items) => Value.objects items
  | _ => []

/-- A line from its raw data. -/
def ofObject (raw : Object) : CartLine := ⟨raw, (raw.getObj? "product").getD [], selectedOptions raw⟩

/-- How many units are in the cart. -/
def quantity (l : CartLine) : Double := (l.raw.number? "quantity").getD .one

/-- The price of a unit without options: that of the line, else the product's sale price if it is
more than zero, else its price. -/
def basePrice (l : CartLine) : Double :=
  (((l.raw.number? "price").or ((l.product.number? "sale_price").filter fun x => Double.zero.less x)).or
    (l.product.number? "price")).getD .zero

/-- The prices of the options together. -/
def optionsPrice (l : CartLine) : Double := .sum (l.options.filterMap fun o => o.number? "price")

/-- The price of a unit. -/
def unitPrice (l : CartLine) : Double := l.basePrice.add l.optionsPrice

/-- The price of all units. -/
def total (l : CartLine) : Double := l.quantity.mul l.unitPrice

/-- The text of an option: its name, its value, or both. -/
def optionText? (option : Object) : Option String :=
  match option.text? "name", (option.get? "value").bind Value.filledText? with
  | some name, some value => some (name ++ ": " ++ value)
  | none, some value => some value
  | some name, none => some name
  | none, none => none

/-- The texts of the options, joined. -/
def optionsText (l : CartLine) : String := Text.joined ", " (l.options.filterMap optionText?)

end CartLine

namespace PageBuilder

/-- The name of a line: that of its product, else its own. -/
def lineName (b : PageBuilder) (l : CartLine) : String :=
  match b.translated l.product "name" with
  | "" => (l.raw.text? "name").getD ""
  | name => name

/-- The picture of a line: that of its product, else its own. -/
def lineImage (b : PageBuilder) (l : CartLine) : String :=
  let first := b.imageUrl (if l.product.isEmpty then l.raw else l.product)
  if first = b.options.placeholderImage then b.imageUrl l.raw else first

/-- The line with its address, when it has a product. -/
def lineAddress (b : PageBuilder) (l : CartLine) : Object :=
  if l.product.isEmpty then [] else [("url", .str (b.productUrl l.product))]

/-- **A line for display.** -/
def cartLine (b : PageBuilder) (l : CartLine) : Object :=
  l.raw.extend
    ([("name", .str (b.lineName l)), ("quantity", .ofDouble l.quantity),
      ("unit_price", .ofDouble l.unitPrice), ("unit_price_formatted", b.priceText l.unitPrice),
      ("line_total", .ofDouble l.total), ("line_total_formatted", b.priceText l.total),
      ("image_url", .str (b.lineImage l)), ("options_text", .str l.optionsText)] ++ b.lineAddress l)

end PageBuilder

/-! ## Totals -/

/-- **The totals of a cart.** -/
structure CartTotals where
  /-- The sum of the lines. -/
  subtotal : Double
  /-- What is taken off. -/
  discount : Double
  /-- The tax. -/
  tax : Double
  /-- The price of the delivery. -/
  shipping : Double
  /-- What is to be paid. -/
  total : Double

/-- **A cart**: its lines and its totals. -/
structure Cart where
  /-- The lines. -/
  lines : List CartLine
  /-- The totals. -/
  totals : CartTotals

namespace Cart

/-- The lines under the first of the accepted keys that is there. -/
def linesOf (raw : Object) : List CartLine :=
  match ((raw.get? "cartItems").or (raw.get? "cart_items")).or (raw.get? "items") with
  | some (.arr items) => (Value.objects items).map CartLine.ofObject
  | _ => []

/-- A total that comes with the raw data, among its `totals` or beside them. -/
def given? (raw : Object) (field : String) : Option Double :=
  ((raw.getObj? "totals").bind fun totals => totals.number? field).or (raw.number? field)

/-- The sum of the totals of the lines, as far as they are finite. -/
def linesTotal (lines : List CartLine) : Double :=
  .sum ((lines.map CartLine.total).filter Double.isFinite)

/-- **A cart from the raw data of a page.** -/
def ofObject (raw : Object) : Cart :=
  let lines := linesOf raw
  let subtotal := (given? raw "subtotal").getD (linesTotal lines)
  let discount := (given? raw "discount").getD .zero
  let tax := (given? raw "tax").getD .zero
  let shipping := (given? raw "shipping").getD .zero
  let total := (given? raw "total").getD (((subtotal.sub discount).add tax).add shipping)
  ⟨lines, { subtotal, discount, tax, shipping, total }⟩

/-- How many units are in the cart, as a whole number. -/
def itemCount (c : Cart) : Nat := (Double.sum (c.lines.map CartLine.quantity)).toUInt64

/-- **How many units the badge of the header shows**: the count in the raw data, else that of the
lines, each cut to a word. Lines of more units than a word holds have no count. -/
def badge? (raw : Object) : Option UInt64 :=
  match ((raw.get? "cartCount").or (raw.get? "cart_count")).bind Value.number? with
  | some count => some count.clampNegative.toWord
  | none =>
    let items :=
      match raw.get? "cartItems" with
      | some (.arr items) => items
      | _ => raw.getList "cart_items"
    Word.sum? ((Value.objects items).map fun item =>
      ((item.number? "quantity").getD .one).clampNegative.toWord)

end Cart

namespace PageBuilder

/-- A total as number and as text. -/
def totalEntries (b : PageBuilder) (field : String) (amount : Double) : Object :=
  [(field, .ofDouble amount), (field ++ "_formatted", b.priceText amount)]

/-- **A cart for display**, without its lines. -/
def cartSummary (b : PageBuilder) (c : Cart) : Object :=
  b.totalEntries "subtotal" c.totals.subtotal ++ b.totalEntries "discount" c.totals.discount ++
    b.totalEntries "tax" c.totals.tax ++ b.totalEntries "shipping" c.totals.shipping ++
    b.totalEntries "total" c.totals.total ++
    [("item_count", .ofNat c.itemCount), ("is_empty", .bool c.lines.isEmpty)]

/-- The lines of a cart for display. -/
def cartLines (b : PageBuilder) (c : Cart) : Value := .arr (c.lines.map fun l => .obj (b.cartLine l))

/-- **A cart for display.** -/
def cart (b : PageBuilder) (c : Cart) : Object := b.cartSummary c ++ [("items", b.cartLines c)]

end PageBuilder

end Storefront
