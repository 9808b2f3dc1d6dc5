import Storefront.Locale.Tag
import Storefront.Numeric.Print
import Storefront.Store.Settings

/-!
# Amounts of money

The currency decides the symbol and the number of decimals, the locale decides
the separators and on which side the symbol stands. The magnitude is written with
a fixed number of decimals, and a minus sign is shown only when a digit other than
zero is.
-/

namespace Storefront

/-- **Where the symbol stands.** -/
inductive SymbolPosition where
  /-- Directly before the number. -/
  | before
  /-- Before the number, with a space. -/
  | beforeSpaced
  /-- After the number, with a space. -/
  | afterSpaced
  deriving DecidableEq

/-- **How amounts of one currency are written in one locale.** -/
structure CurrencyFormat where
  /-- The code of the currency. -/
  code : String
  /-- Its symbol. -/
  symbol : String
  /-- How many decimals it has. -/
  decimals : Nat
  /-- What stands between groups of three digits. -/
  thousands : String
  /-- What stands before the decimals. -/
  point : String
  /-- Where the symbol stands. -/
  position : SymbolPosition
  deriving DecidableEq

namespace Currency

/-- The currency of stores that name none. -/
def fallbackCode : String := "USD"

/-- The symbol of a currency; its code when it has none. -/
def symbol (code : String) : String :=
  match code with
  | "USD" => "$"
  | "EUR" => "€"
  | "GBP" => "£"
  | "JPY" | "CNY" => "¥"
  | "INR" => "₹"
  | "KRW" => "₩"
  | "AUD" => "A$"
  | "CAD" => "CA$"
  | "NZD" => "NZ$"
  | "BRL" => "R$"
  | "MXN" => "MX$"
  | "CHF" => "CHF"
  | "SEK" | "NOK" | "DKK" => "kr"
  | "PLN" => "zł"
  | "TRY" => "₺"
  | "ZAR" => "R"
  | other => other

/-- How many decimals a currency has. -/
def decimals (code : String) : Nat :=
  match code with
  | "JPY" | "KRW" | "VND" | "CLP" | "ISK" => 0
  | _ => 2

/-- The separators of a language and where it puts the symbol. -/
def layout (language : String) : String × String × SymbolPosition :=
  match language with
  | "de" | "es" | "it" | "pt" | "da" => (".", ",", .afterSpaced)
  | "nl" => (".", ",", .beforeSpaced)
  | "fr" => (" ", ",", .afterSpaced)
  | "sv" | "nb" | "no" | "fi" | "pl" => (" ", ",", .afterSpaced)
  | _ => (",", ".", .before)

/-- A code in capitals without blanks around it; the fallback for a blank one. -/
def normalizedCode (code : String) : String :=
  match Text.trim code.toList with
  | [] => fallbackCode
  | cs => String.ofList (cs.map Char.toUpper)

/-- **The currency of a store's prices**: an override, else that of the settings, else that of
the store. The first one given counts, even if it is blank. -/
def chosen (override : Option String) (settings : Settings) (store : Option String) : String :=
  ((override.or settings.currency).or store).getD fallbackCode

/-- Digits with `sep` between groups of three, counted from the end. -/
def grouped (sep : List Char) : List Char → List Char
  | [] => []
  | c :: cs =>
    if cs.length % 3 = 0 ∧ cs ≠ [] then c :: sep ++ grouped sep cs else c :: grouped sep cs

end Currency

namespace CurrencyFormat

/-- The format of a currency in a locale. -/
def ofCode (code : String) (locale : Locale) : CurrencyFormat :=
  let code := Currency.normalizedCode code
  let (thousands, point, position) := Currency.layout locale.language
  { code, symbol := Currency.symbol code, decimals := Currency.decimals code, thousands, point,
    position }

/-- The format of the currency that settings and store choose. -/
def ofSettings (settings : Settings) (store : Option String) (locale : Locale) : CurrencyFormat :=
  ofCode (Currency.chosen none settings store) locale

/-- The magnitude with separators. -/
def magnitudeText (f : CurrencyFormat) (whole decimals : List Char) : String :=
  String.ofList (Currency.grouped f.thousands.toList whole) ++
    if decimals.isEmpty then "" else f.point ++ String.ofList decimals

/-- **An amount of money as text.** What is not finite counts as zero. -/
def format (f : CurrencyFormat) (amount : Double) : String :=
  let (whole, decimals) := amount.fixedParts f.decimals
  let number := f.magnitudeText whole decimals
  let negative := amount.less .zero && amount.isFinite && (whole ++ decimals).any (· != '0')
  let sign := if negative then "-" else ""
  match f.position with
  | .before => sign ++ f.symbol ++ number
  | .beforeSpaced => sign ++ f.symbol ++ " " ++ number
  | .afterSpaced => sign ++ number ++ " " ++ f.symbol

end CurrencyFormat

end Storefront
