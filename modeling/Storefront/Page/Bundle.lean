import Storefront.Page.Build
import Storefront.Render.Render
import Storefront.Text.Bytes

/-!
# Page bundles

A bundle holds all that a page is made from: its kind, its locale, the store and
its settings, and the raw data. A bundle becomes a context, and with a template
it becomes a page, unless it is a header whose badge has no count.
-/

namespace Storefront

/-- **A page bundle.** -/
structure PageBundle where
  /-- The name of the page's kind. -/
  pageType : String := ""
  /-- The locale of the page. -/
  locale : Option String := none
  /-- The store. -/
  store : Store := {}
  /-- Its settings. -/
  settings : Settings := {}
  /-- The raw data of the page. -/
  data : Object := []

/-- **A rendered page**, and what there is to count about it. -/
structure RenderedPage where
  /-- The page. -/
  html : String
  /-- The size of the template in bytes. -/
  templateSize : Nat
  /-- The size of the page in bytes. -/
  outputSize : Nat
  /-- How many different variables the template has. -/
  variableCount : Nat
  /-- How many complaints there are about the template. -/
  diagnosticCount : Nat
  deriving DecidableEq

namespace PageBundle

open Decoder in
/-- Reads a bundle. -/
def decoder : Decoder PageBundle :=
  record ["page_type", "locale", "store", "settings", "data"] true fun fs => do
    let pageType ← fs.get "page_type" text (some "")
    let locale ← fs.get "locale" (optional text) (some none)
    let store ← fs.get "store" Store.decoder (some {})
    let settings ← fs.get "settings" Settings.decoder (some {})
    let data ← fs.get "data" object (some [])
    return { pageType, locale, store, settings, data }

/-- A bundle as page data. -/
def toValue (p : PageBundle) : Value :=
  .obj [("page_type", .str p.pageType), ("locale", .ofOption p.locale), ("store", p.store.toValue),
    ("settings", p.settings.toValue), ("data", .obj p.data)]

/-- The kind of the page; a blank name stands for some other kind. -/
def kind (p : PageBundle) : PageKind :=
  if Text.isBlankText p.pageType then .other "other" else .ofName p.pageType

/-- **The locale of the page**: that of the bundle, else the store's language. The first one given
counts, and if it is blank, `fallback` does. -/
def resolvedLocale (p : PageBundle) (fallback : Locale) : Locale :=
  match (p.locale.or p.store.defaultLanguage).filter fun tag => !Text.isBlankText tag with
  | some tag => .ofTag tag
  | none => fallback

/-- The builder of the page. -/
def builder (p : PageBundle) (options : PageOptions) : PageBuilder where
  store := p.store
  settings := p.settings
  options := { options with locale := p.resolvedLocale options.locale }

/-- **The context of the page**, if there is one. -/
def context? (p : PageBundle) (options : PageOptions) : Option Context :=
  (p.builder options).build? p.kind p.data

/-- The renderer of the page. -/
def renderer (p : PageBundle) (options : PageOptions) : Renderer :=
  .ofSettings p.settings p.store (p.resolvedLocale options.locale) options.currency

/-- **The page that a template makes of a bundle**, if the bundle has a context. -/
def render? (p : PageBundle) (template : String) (options : PageOptions) : Option RenderedPage :=
  (p.context? options).map fun context =>
    let parsed := Template.parse template
    let html := (p.renderer options).template parsed context
    { html, templateSize := Text.byteCount template.toList, outputSize := Text.byteCount html.toList,
      variableCount := parsed.variablePaths.length, diagnosticCount := parsed.diagnostics.length }

end PageBundle

end Storefront
