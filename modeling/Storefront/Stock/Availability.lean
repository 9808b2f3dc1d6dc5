import Storefront.Data.Loose

/-!
# Availability

How many units of a product a shopper may order depends on loosely shaped fields
of the product: whether its stock is infinite or not managed, whether orders
beyond the stock are taken, and its quantity. A quantity that is not known is no
limit.
-/

namespace Storefront

namespace Stock

/-- Whether a product never runs out. -/
def isInfinite (product : Object) : Bool := product.flag "infinite_stock"

/-- Whether the stock of a product is not kept track of. -/
def isUnmanaged (product : Object) : Bool :=
  match product.get? "manage_stock" with
  | some v => !v.isNull && !v.flag
  | none => false

/-- Whether more can be ordered than there is. -/
def allowsBackorders (product : Object) : Bool := product.flag "allow_backorders"

/-- The quantity in stock, when it is known. -/
def quantity? (product : Object) : Option Double := product.number? "stock_quantity"

/-- Whether a number is zero or less. -/
def isNothing (quantity : Double) : Bool := quantity.atMost .zero

/-- **Whether a product cannot be ordered**: its quantity is tracked, known and nothing, and
there are no backorders. -/
def isOut (product : Object) : Bool :=
  !isInfinite product && !isUnmanaged product &&
    ((quantity? product).any isNothing && !allowsBackorders product)

/-- **How many units can be ordered.** -/
inductive Available where
  /-- Any number. -/
  | unlimited
  /-- That many. -/
  | limited (quantity : Double)
  deriving DecidableEq

/-- How many units of a product can be ordered. -/
def available (product : Object) : Available :=
  if isInfinite product || isUnmanaged product || allowsBackorders product then .unlimited
  else
    match quantity? product with
    | some quantity => .limited quantity.clampNegative
    | none => .unlimited

end Stock

end Storefront
