import Storefront.Json.Decode

/-!
# Stores and their settings

A store and its settings are decoded strictly, field by field, and written back
with all fields in their declared order.
-/

namespace Storefront

/-- **A store.** -/
structure Store where
  /-- Its name in addresses. -/
  slug : String := ""
  /-- Its name for readers. -/
  name : String := ""
  /-- The address of its logo. -/
  logoUrl : Option String := none
  /-- Its code. -/
  code : Option String := none
  /-- The currency of its prices. -/
  currency : Option String := none
  /-- The language of its texts. -/
  defaultLanguage : Option String := none

/-- **How stock is shown.** -/
structure StockSettings where
  /-- Whether products have a stock label at all. -/
  showStockLabel : Bool := true
  /-- The label template for products in stock. -/
  inStockLabel : Option String := none
  /-- The label template for products that run low. -/
  lowStockLabel : Option String := none
  /-- The label template for products out of stock. -/
  outOfStockLabel : Option String := none
  /-- Up to which quantity a product runs low. -/
  lowStockThreshold : Option Double := none
  /-- Label templates for each language. -/
  labels : Object := []

/-- **The settings of a store.** -/
structure Settings where
  /-- How stock is shown. -/
  stock : StockSettings := {}
  /-- The phrases of the user interface for each language. -/
  phrases : Object := []
  /-- Colours and other looks. -/
  theme : Object := []
  /-- Whether quantities in stock are kept from shoppers. -/
  hideStockQuantity : Bool := false
  /-- Up to which quantity a product is shown to run low. -/
  displayLowStockThreshold : Option Double := none
  /-- The currency of prices. -/
  currency : Option String := none
  /-- The promotional labels that products may carry. -/
  productLabels : List Value := []

namespace Value

/-- An optional double, null when it is missing. -/
def ofOptionalDouble : Option Double → Value
  | some x => .ofDouble x
  | none => .null

end Value

open Decoder in
/-- Reads a store. -/
def Store.decoder : Decoder Store :=
  record ["slug", "name", "logo_url", "code", "currency", "default_language"] true fun fs => do
    let slug ← fs.get "slug" text (some "")
    let name ← fs.get "name" text (some "")
    let logoUrl ← fs.get "logo_url" (optional text) (some none)
    let code ← fs.get "code" (optional text) (some none)
    let currency ← fs.get "currency" (optional text) (some none)
    let defaultLanguage ← fs.get "default_language" (optional text) (some none)
    return { slug, name, logoUrl, code, currency, defaultLanguage }

/-- A store as page data. -/
def Store.toValue (s : Store) : Value :=
  .obj [("slug", .str s.slug), ("name", .str s.name), ("logo_url", .ofOption s.logoUrl),
    ("code", .ofOption s.code), ("currency", .ofOption s.currency),
    ("default_language", .ofOption s.defaultLanguage)]

open Decoder in
/-- Reads how stock is shown. -/
def StockSettings.decoder : Decoder StockSettings :=
  record ["show_stock_label", "in_stock_label", "low_stock_label", "out_of_stock_label",
      "low_stock_threshold", "translations"] true fun fs => do
    let showStockLabel ← fs.get "show_stock_label" bool (some true)
    let inStockLabel ← fs.get "in_stock_label" (optional text) (some none)
    let lowStockLabel ← fs.get "low_stock_label" (optional text) (some none)
    let outOfStockLabel ← fs.get "out_of_stock_label" (optional text) (some none)
    let lowStockThreshold ← fs.get "low_stock_threshold" (optional double) (some none)
    let labels ← fs.get "translations" object (some [])
    return { showStockLabel, inStockLabel, lowStockLabel, outOfStockLabel, lowStockThreshold,
             labels }

/-- How stock is shown, as page data. -/
def StockSettings.toValue (s : StockSettings) : Value :=
  .obj [("show_stock_label", .bool s.showStockLabel), ("in_stock_label", .ofOption s.inStockLabel),
    ("low_stock_label", .ofOption s.lowStockLabel),
    ("out_of_stock_label", .ofOption s.outOfStockLabel),
    ("low_stock_threshold", .ofOptionalDouble s.lowStockThreshold),
    ("translations", .obj s.labels)]

open Decoder in
/-- Reads the settings of a store. -/
def Settings.decoder : Decoder Settings :=
  record ["stock_settings", "ui_translations", "theme", "hide_stock_quantity",
      "display_low_stock_threshold", "currency", "product_labels"] true fun fs => do
    let stock ← fs.get "stock_settings" StockSettings.decoder (some {})
    let phrases ← fs.get "ui_translations" object (some [])
    let theme ← fs.get "theme" object (some [])
    let hideStockQuantity ← fs.get "hide_stock_quantity" bool (some false)
    let displayLowStockThreshold ← fs.get "display_low_stock_threshold" (optional double) (some none)
    let currency ← fs.get "currency" (optional text) (some none)
    let productLabels ← fs.get "product_labels" (list value) (some [])
    return { stock, phrases, theme, hideStockQuantity, displayLowStockThreshold, currency,
             productLabels }

/-- The settings of a store as page data. -/
def Settings.toValue (s : Settings) : Value :=
  .obj [("stock_settings", s.stock.toValue), ("ui_translations", .obj s.phrases),
    ("theme", .obj s.theme), ("hide_stock_quantity", .bool s.hideStockQuantity),
    ("display_low_stock_threshold", .ofOptionalDouble s.displayLowStockThreshold),
    ("currency", .ofOption s.currency), ("product_labels", .arr s.productLabels)]

end Storefront
