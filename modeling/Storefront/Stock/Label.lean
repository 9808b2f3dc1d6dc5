import Storefront.Locale.Tag
import Storefront.Stock.Availability
import Storefront.Stock.Seam
import Storefront.Store.Settings

/-!
# Stock labels

A product shows one of three labels: in stock, low stock, out of stock. Each has
a template, taken from the labels of the locale, else from the settings,
else a built-in one, and two colours, taken from the theme.
-/

namespace Storefront

/-- **A stock label.** -/
structure StockLabel where
  /-- Its text. -/
  text : String
  /-- The colour of the text. -/
  textColor : String
  /-- The colour behind the text. -/
  backgroundColor : String
  deriving DecidableEq

/-- **The state of a product's stock.** -/
inductive StockState where
  /-- There is enough. -/
  | inStock
  /-- It runs low. -/
  | lowStock
  /-- There is none. -/
  | outOfStock
  deriving DecidableEq

namespace StockState

/-- The setting that holds the label template. -/
def settingKey : StockState → String
  | .inStock => "in_stock_label"
  | .lowStock => "low_stock_label"
  | .outOfStock => "out_of_stock_label"

/-- How the theme entries for the state begin. -/
def themeStem : StockState → String
  | .inStock => "stock_in_stock"
  | .lowStock => "stock_low_stock"
  | .outOfStock => "stock_out_of_stock"

/-- The colour of the text when the theme has none. -/
def textColor : StockState → String
  | .inStock => "#166534"
  | .lowStock => "#92400e"
  | .outOfStock => "#991b1b"

/-- The colour behind the text when the theme has none. -/
def backgroundColor : StockState → String
  | .inStock => "#dcfce7"
  | .lowStock => "#fef3c7"
  | .outOfStock => "#fee2e2"

/-- The label template of stores that configure none. -/
def defaultTemplate : StockState → String
  | .inStock => "In Stock\x7b (\x7bquantity\x7d \x7bitem\x7d available)\x7d"
  | .lowStock => "Low Stock\x7b, only \x7bquantity\x7d \x7bitem\x7d left\x7d"
  | .outOfStock => "Out of Stock"

/-- The label template that the settings hold. -/
def configured : StockState → StockSettings → Option String
  | .inStock, s => s.inStockLabel
  | .lowStock, s => s.lowStockLabel
  | .outOfStock, s => s.outOfStockLabel

end StockState

/-- **What decides about stock labels**: the settings and the locale. -/
structure StockLabeler where
  /-- The settings of the store. -/
  settings : Settings
  /-- The locale of the label. -/
  locale : Locale

namespace StockLabeler

/-- Up to which quantity products of the store run low. -/
def storeThreshold (l : StockLabeler) : Option Double :=
  l.settings.displayLowStockThreshold.or l.settings.stock.lowStockThreshold

/-- The label template for a state. -/
def template (l : StockLabeler) (state : StockState) : String :=
  let key := state.settingKey
  let translated :=
    [l.locale.tag, l.locale.language].findSome? fun language =>
      (l.settings.stock.labels.getObj? language).bind fun table => table.text? key
  match translated with
  | some s => s
  | none =>
    ((state.configured l.settings.stock).filter fun s => !Text.isBlankText s).getD
      state.defaultTemplate

/-- A colour of the theme. -/
def themeColor (l : StockLabeler) (key fallback : String) : String :=
  match (l.settings.theme.getStr? key).map Text.trimmed with
  | some s => if s = "" then fallback else s
  | none => fallback

/-- The label for a state; without a quantity to show, the blocks around it go away. -/
def build (l : StockLabeler) (state : StockState) (shown : Option Double) : StockLabel where
  text :=
    match shown with
    | some quantity => Label.fill (l.template state) quantity
    | none => Label.strip (l.template state)
  textColor := l.themeColor (state.themeStem ++ "_text_color") state.textColor
  backgroundColor := l.themeColor (state.themeStem ++ "_bg_color") state.backgroundColor

/-- Whether products of a type are only ever bought through others. -/
def isParentType (kind : String) : Bool :=
  ["configurable", "grouped"].contains (Text.asciiLower kind)

/-- The state of a product's stock and the quantity to show with it. -/
def assess (l : StockLabeler) (product : Object) : StockState × Option Double :=
  if Stock.isInfinite product || Stock.isUnmanaged product then (.inStock, none)
  else
    match Stock.quantity? product with
    | none => (.inStock, none)
    | some quantity =>
      if Stock.isNothing quantity then (.outOfStock, none)
      else if ((product.number? "low_stock_threshold").or l.storeThreshold).any quantity.atMost then
        (.lowStock, some quantity)
      else (.inStock, if l.settings.hideStockQuantity then none else some quantity)

/-- **The stock label of a product**, if it has one. -/
def label? (l : StockLabeler) (product : Object) : Option StockLabel :=
  if !l.settings.stock.showStockLabel then none
  else if (product.text? "type").any isParentType then none
  else
    let (state, shown) := l.assess product
    some (l.build state shown)

end StockLabeler

end Storefront
