import Storefront.Calendar.Writing
import Storefront.Currency.Format
import Storefront.Stock.Label

/-!
# Showing values

What a variable shows depends on its value and on its path: prices become amounts
of money, stock fields become stock labels, lists of labels are joined, dates are
written for the locale. Everything else is shown as it is, and a list or object
that has no text is shown as nothing.
-/

namespace Storefront

namespace Value

/-- The text of a label, which is a text itself or an object with one. -/
def labelText? : Value → Option String
  | .obj entries =>
    ["text", "name", "label"].findSome? fun key => Object.getStr? entries key
  | v => v.filledText?

/-- The texts of labels, joined. -/
def labelTexts (labels : List Value) : String := Text.joined ", " (labels.filterMap labelText?)

/-- **The text of any value**: of a scalar its own, of a list of scalars theirs with commas, and
nothing otherwise. -/
def coercedText (v : Value) : String :=
  match v.scalarText? with
  | some s => s
  | none =>
    match v with
    | .arr items =>
      match items.mapM scalarText? with
      | some texts => Text.joined "," texts
      | none => ""
    | _ => ""

end Value

/-- **What decides about the text of values**: currency, locale and settings. -/
structure Display where
  /-- How amounts of money are written. -/
  currency : CurrencyFormat
  /-- The locale of dates and labels. -/
  locale : Locale
  /-- The settings of the store. -/
  settings : Settings

namespace Display

/-- What decides about stock labels. -/
def labeler (d : Display) : StockLabeler := ⟨d.settings, d.locale⟩

/-- The display of a store for a locale, with a currency that overrides its own. -/
def ofSettings (settings : Settings) (storeCurrency : Option String) (locale : Locale)
    (override : Option String) : Display :=
  ⟨.ofCode (Currency.chosen override settings storeCurrency) locale, locale, settings⟩

/-- An amount of money. -/
def price (d : Display) (amount : Double) : String := d.currency.format amount

/-- A loosely shaped price: a number is an amount of money, a text is shown as it is. -/
def priceValue (d : Display) : Value → String
  | .num n => d.price n.toDouble
  | v => v.scalarText?.getD ""

/-- The text of a product's stock label, empty when it has none. -/
def stockText (d : Display) (product : Object) : String :=
  match d.labeler.label? product with
  | some label => label.text
  | none => ""

/-- Whether the path of a value makes it an amount of money. -/
def isPricePath (path : String) : Bool :=
  Text.mentions "price" path && !Text.mentions "filters.price" path

/-- A value shown as something other than a price: as stock, labels, a date or plain text. -/
def plainText (d : Display) (v : Value) (path : String) (owner : Option Object) : String :=
  if Text.mentions "stock_status" path then
    match v with
    | .obj product => d.stockText product
    | .str s => s
    | _ =>
      match owner with
      | some product => d.stockText product
      | none => ""
  else
    match Text.mentions "labels" path, v with
    | true, .arr labels => Value.labelTexts labels
    | _, _ =>
      if Text.mentions "date" path && !v.isNull then v.dateText d.locale else v.coercedText

/-- **The text of a value at a path.** `owner` is the object that holds the value; stock text is
about it when the value itself is no stock. -/
def text (d : Display) (v : Value) (path : String) (owner : Option Object) : String :=
  match isPricePath path, v with
  | true, .num n => d.price n.toDouble
  | _, _ => d.plainText v path owner

end Display

end Storefront
