import Storefront.Page.Builder
import Storefront.Page.Kind

/-!
# What every page has

The bottom layer of a page's data: the store, its settings and theme, language
and currency, and the user when one is logged in.
-/

namespace Storefront

namespace PageBuilder

/-- The store as templates see it. -/
def storeEntry (b : PageBuilder) : Value :=
  .obj [("name", .str b.store.name), ("slug", .str b.store.slug),
    ("logo_url", .ofOption b.store.logoUrl), ("code", .ofOption b.store.code),
    ("url", .str b.storeUrl)]

/-- The user of the page: nobody is logged in without data about one, or with data that is not
truthy. -/
def userEntries (raw : Object) : Object :=
  match (raw.get? "user").filter fun v => !v.isNull with
  | some user => [("user", user), ("is_logged_in", .bool user.truthy)]
  | none => [("is_logged_in", .bool false)]

/-- **The bottom layer of a page.** -/
def baseLayer (b : PageBuilder) (kind : PageKind) (raw : Object) : Object :=
  [("store", b.storeEntry), ("settings", b.settings.toValue), ("theme", .obj b.settings.theme),
    ("current_language", .str b.locale.tag), ("currency_code", .str b.display.currency.code),
    ("store_url", .str b.storeUrl), ("page_type", .str kind.name)] ++ userEntries raw

end PageBuilder

end Storefront
