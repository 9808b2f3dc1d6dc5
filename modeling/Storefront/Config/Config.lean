import Storefront.Page.Builder

/-!
# The configuration file

A configuration sets what requests share: a default locale, a currency, the
addresses of stores and placeholder pictures, files that take the place of a
bundle's store and settings, and which files are templates. Everything in it is
optional.
-/

namespace Storefront

/-- **A configuration.** -/
structure Config where
  /-- The locale of pages whose bundle has none. -/
  defaultLocale : Option String := none
  /-- A currency that overrides those of the settings and the store. -/
  currency : Option String := none
  /-- How the addresses of stores begin. -/
  urlPrefix : Option String := none
  /-- The picture of what has none. -/
  placeholderImage : Option String := none
  /-- A file with the store, in place of the bundle's. -/
  storeFile : Option String := none
  /-- A file with the settings, in place of the bundle's. -/
  settingsFile : Option String := none
  /-- How the names of templates end. -/
  templateExtensions : Option (List String) := none
  /-- Whether the fields of a loop's item hide other variables. -/
  itemsShadow : Option Bool := none

namespace Config

open Decoder in
/-- Reads a configuration. -/
def decoder : Decoder Config :=
  record ["default_locale", "currency", "url_prefix", "placeholder_image", "store_file", "settings_file",
      "template_extensions", "item_keys_shadow_context"] false fun fs => do
    let defaultLocale ← fs.get "default_locale" (optional text) (some none)
    let currency ← fs.get "currency" (optional text) (some none)
    let urlPrefix ← fs.get "url_prefix" (optional text) (some none)
    let placeholderImage ← fs.get "placeholder_image" (optional text) (some none)
    let storeFile ← fs.get "store_file" (optional text) (some none)
    let settingsFile ← fs.get "settings_file" (optional text) (some none)
    let templateExtensions ← fs.get "template_extensions" (optional (list text)) (some none)
    let itemsShadow ← fs.get "item_keys_shadow_context" (optional bool) (some none)
    return { defaultLocale, currency, urlPrefix, placeholderImage, storeFile, settingsFile,
             templateExtensions, itemsShadow }

/-- A configuration as page data. -/
def toValue (c : Config) : Value :=
  .obj [("default_locale", .ofOption c.defaultLocale), ("currency", .ofOption c.currency),
    ("url_prefix", .ofOption c.urlPrefix), ("placeholder_image", .ofOption c.placeholderImage),
    ("store_file", .ofOption c.storeFile), ("settings_file", .ofOption c.settingsFile),
    ("template_extensions", match c.templateExtensions with
      | some extensions => .arr (extensions.map .str)
      | none => .null),
    ("item_keys_shadow_context", match c.itemsShadow with
      | some b => .bool b
      | none => .null)]

/-- **The options of pages**: those of the configuration, and the usual ones for the rest. -/
def options (c : Config) : PageOptions :=
  let usual : PageOptions := {}
  { locale := (c.defaultLocale.map Locale.ofTag).getD usual.locale,
    currency := c.currency,
    urlPrefix := c.urlPrefix.getD usual.urlPrefix,
    placeholderImage := c.placeholderImage.getD usual.placeholderImage,
    itemsShadow := c.itemsShadow.getD usual.itemsShadow }

/-- How the names of templates end when the configuration does not say. -/
def usualExtensions : List String := ["hbs", "html", "tpl"]

/-- An extension without points in front, in small letters. -/
def normalizedExtension (extension : String) : String :=
  Text.asciiLower (String.ofList (extension.toList.dropWhile (· == '.')))

/-- **How the names of templates end.** -/
def extensions (c : Config) : List String :=
  match c.templateExtensions with
  | none | some [] => usualExtensions
  | some given => given.map normalizedExtension

end Config

end Storefront
