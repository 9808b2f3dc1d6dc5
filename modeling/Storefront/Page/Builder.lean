import Storefront.Display.Value
import Storefront.Locale.Catalog
import Storefront.Text.Search

/-!
# The page builder

A builder turns the raw data of a page into the data that its template sees. It
knows the store, its settings and the options of the request; how amounts and
stock are shown follows from these (`PageBuilder.display`).

Products and categories have addresses below that of the store, and pictures
with a placeholder for those that have none.
-/

namespace Storefront

/-- **What a request decides**, beside the store and its settings. -/
structure PageOptions where
  /-- The locale of the page. -/
  locale : Locale := .english
  /-- A currency that overrides those of the settings and the store. -/
  currency : Option String := none
  /-- How the addresses of stores begin. -/
  urlPrefix : String := "/public"
  /-- The picture of what has none. -/
  placeholderImage : String := "/placeholder-product.svg"
  /-- Whether the fields of a loop's item hide other variables. -/
  itemsShadow : Bool := true

/-- **A builder of pages.** -/
structure PageBuilder where
  /-- The store. -/
  store : Store
  /-- Its settings. -/
  settings : Settings
  /-- What the request decides. -/
  options : PageOptions

namespace PageBuilder

/-- The locale of the page. -/
def locale (b : PageBuilder) : Locale := b.options.locale

/-- How values are shown on the page. -/
def display (b : PageBuilder) : Display :=
  .ofSettings b.settings b.store.currency b.options.locale b.options.currency

/-- An amount of money as text, in page data. -/
def priceText (b : PageBuilder) (amount : Double) : Value := .str (b.display.price amount)

/-- A field of an entity for the locale of the page. -/
def translated (b : PageBuilder) (entity : Object) (field : String) : String :=
  entity.translated field b.locale

/-! ## Addresses -/

/-- The address of the store: the prefix without slashes at its end, and the store's name. -/
def storeUrl (b : PageBuilder) : String :=
  let lead := (b.options.urlPrefix.toList.reverse.dropWhile (· == '/')).reverse
  String.ofList lead ++ "/" ++ b.store.slug

/-- How an entity is named in addresses: its slug, else its identifier, else not at all. -/
def handle (entity : Object) : String := ((entity.text? "slug").or (entity.id? "id")).getD ""

/-- The address of a product. -/
def productUrl (b : PageBuilder) (product : Object) : String :=
  b.storeUrl ++ "/product/" ++ handle product

/-- The address of a category. -/
def categoryUrl (b : PageBuilder) (category : Object) : String :=
  b.storeUrl ++ "/category/" ++ handle category

/-! ## Pictures -/

/-- The address of a picture in a list of them: a text, or an object with a `url`. -/
def listedImage? : Value → Option String
  | .str url => some url
  | .obj image => Object.text? image "url"
  | _ => none

/-- **The picture of an entity**: `image_url`, `image`, or the first of its `images`; the
placeholder when there is none or it is blank. -/
def imageUrl (b : PageBuilder) (entity : Object) : String :=
  let first := (entity.getList "images").head?.bind listedImage?
  let found := ((entity.text? "image_url").or (entity.text? "image")).or first
  (found.filter fun url => !Text.isBlankText url).getD b.options.placeholderImage

end PageBuilder

end Storefront
