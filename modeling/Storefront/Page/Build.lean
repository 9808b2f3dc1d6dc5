import Storefront.Filter.Filters
import Storefront.Menu.Language
import Storefront.Menu.Tree
import Storefront.Context.Scope
import Storefront.Page.Base
import Storefront.Page.Cart
import Storefront.Page.Pagination
import Storefront.Page.Product

/-!
# Building a page

The context of a page has two layers: what every page has, and the data of the
page itself. Category, product, cart and header pages have their collections
prepared for display; the data of all others is passed through. There is always
such a context, except for a header whose badge has no count.
-/

namespace Storefront

namespace PageBuilder

/-! ## Categories and breadcrumbs -/

/-- A category with its name in the page's language and its address. -/
def listedCategory (b : PageBuilder) (category : Object) : Object :=
  category.extend [("name", .str (b.translated category "name")), ("url", .str (b.categoryUrl category))]

/-- The category that a page is about: its description is translated too. -/
def mainCategory (b : PageBuilder) (category : Object) : Object :=
  let described :=
    category.extend
      [("name", .str (b.translated category "name")),
        ("description", .str (b.translated category "description"))]
  described.insert "url" (.str (b.categoryUrl category))

/-- A step of the breadcrumbs; one without an address is taken for a category. -/
def breadcrumb (b : PageBuilder) (crumb : Object) (isLast : Bool) : Object :=
  let named := crumb.insert "name" (.str (b.translated crumb "name"))
  let addressed :=
    if (crumb.text? "url").isNone && (crumb.has "slug" || crumb.has "id") then
      named.insert "url" (.str (b.categoryUrl crumb))
    else named
  addressed.insert "is_last" (.bool isLast)

/-- **The breadcrumbs of a page.** What is no object is left out, but counts for which one is
the last. -/
def breadcrumbs (b : PageBuilder) (crumbs : List Value) : Value :=
  .arr (crumbs.zipIdx.filterMap fun (v, i) =>
    v.object?.map fun crumb => .obj (b.breadcrumb crumb (i + 1 == crumbs.length)))

/-! ## Pages -/

/-- All products of a category, of which a page may show a part. -/
def allProducts (raw : Object) : List Value :=
  match raw.get? "allProducts" with
  | some (.arr items) => items
  | _ => raw.getList "products"

/-- What the filters of a category are made from. -/
def filterSource (raw : Object) : FilterSource where
  filters := raw.get? "filters"
  attributes := raw.getList "filterableAttributes"
  products := allProducts raw
  selected := (raw.getObj? "selectedFilters").getD []

/-- The entry for the category of a page, if it has one. -/
def categoryEntry (raw : Object) (prepare : Object → Object) : Object :=
  match raw.getObj? "category" with
  | some category => [("category", .obj (prepare category))]
  | none => []

/-- The order in which products are sorted, if the raw data tells. -/
def sortEntry (raw : Object) : Object :=
  match (raw.get? "sortBy").or (raw.get? "sort_by") with
  | some order => [("sort_by", order)]
  | none => []

/-- **The page of a category.** -/
def categoryPage (b : PageBuilder) (raw : Object) : Object :=
  let pagination := Pagination.ofRaw (raw.get? "pagination") (allProducts raw).length
  let subcategories := (Value.objects (raw.getList "subcategories")).map fun c => .obj (b.listedCategory c)
  raw.extend
    (categoryEntry raw b.mainCategory ++
      [("products", .arr (b.products (raw.getList "products"))),
        ("subcategories", .arr subcategories),
        ("breadcrumbs", b.breadcrumbs (raw.getList "breadcrumbs")),
        ("filters", (filterSource raw).toValue b.locale),
        ("product_count_text", .str pagination.text),
        ("pagination", pagination.toValue)] ++ sortEntry raw)

/-- The entry for the product of a page, if it has one. -/
def productEntry (b : PageBuilder) (raw : Object) : Object :=
  match raw.getObj? "product" with
  | some p => [("product", .obj (b.product p))]
  | none => []

/-- **The page of a product.** -/
def productPage (b : PageBuilder) (raw : Object) : Object :=
  raw.extend
    (b.productEntry raw ++
      [("related_products", .arr (b.products (raw.getList "relatedProducts"))),
        ("breadcrumbs", b.breadcrumbs (raw.getList "breadcrumbs"))] ++
      categoryEntry raw b.listedCategory)

/-- **The page of the cart**: the cart, and its entries beside it. -/
def cartPage (b : PageBuilder) (raw : Object) : Object :=
  let cart := Cart.ofObject raw
  raw.extend (b.cartSummary cart ++ [("cart_items", b.cartLines cart), ("cart", .obj (b.cart cart))])

/-- **The header of every page**, if its badge has a count. -/
def headerPage? (b : PageBuilder) (raw : Object) : Option Object :=
  (Cart.badge? raw).map fun count =>
    raw.extend
      [("categories", .arr (b.categoryTree (raw.getList "categories"))),
        ("languages", .arr (b.languages (raw.getList "languages"))),
        ("cart_count", .ofNat count.toNat), ("logo_url", .ofOption b.store.logoUrl)]

/-- The data of a page of some kind. -/
def pageLayer? (b : PageBuilder) (kind : PageKind) (raw : Object) : Option Object :=
  match kind with
  | .category => some (b.categoryPage raw)
  | .product => some (b.productPage raw)
  | .cart => some (b.cartPage raw)
  | .header => b.headerPage? raw
  | .checkout | .success | .account | .login | .other _ => some raw

/-- **The context of a page**, if there is one. -/
def build? (b : PageBuilder) (kind : PageKind) (raw : Object) : Option Context :=
  (b.pageLayer? kind raw).map fun page =>
    (Context.ofLayers (b.baseLayer kind raw) page).withItemShadowing b.options.itemsShadow

end PageBuilder

end Storefront
