import Storefront.Data.Loose
import Storefront.Locale.Tag

/-!
# Phrases for each language

The user interface has a catalog of phrases per language. A phrase is found under
its whole key, or by following the segments of the key through nested objects. A
phrase that no language has is shown as its key, made readable.

Entities such as products and categories bring their own texts for each language,
in one object of languages.
-/

namespace Storefront

/-- **The phrases of the user interface**: a table for each language, named in small letters. -/
structure Catalog where
  /-- The tables, each language once. -/
  tables : List (String × Object) := []

namespace Catalog

/-- The table of a language, whatever the case of its letters. -/
def table? (c : Catalog) (language : String) : Option Object :=
  (c.tables.find? (·.1 == Text.asciiLower language)).map (·.2)

/-- Entries added to the table `name` in a list of tables. -/
def extendTable (name : String) (entries : Object) : List (String × Object) → List (String × Object)
  | [] => [(name, Object.extend [] entries)]
  | (n, table) :: rest =>
    if n = name then (n, table.extend entries) :: rest
    else (n, table) :: extendTable name entries rest

/-- The catalog with entries added to a language; an entry that is there already is replaced. -/
def add (c : Catalog) (language : String) (entries : Object) : Catalog :=
  ⟨extendTable (Text.asciiLower language) entries c.tables⟩

/-- The catalog of an object of languages; what is no table is left out. -/
def ofObject (languages : Object) : Catalog :=
  languages.foldl (fun c (language, v) =>
    match v with
    | .obj entries => c.add language entries
    | _ => c) {}

/-- The value at nested keys. -/
def nested? : Value → List (List Char) → Option Value
  | v, [] => some v
  | .obj entries, key :: keys =>
    (Object.get? entries (String.ofList key)).bind fun v => nested? v keys
  | _, _ :: _ => none

/-- The phrase of a key in a table: under the whole key, or nested under its segments. -/
def phraseIn? (table : Object) (key : String) : Option String :=
  match table.getStr? key with
  | some s => some s
  | none =>
    match nested? (.obj table) (key.toList.splitOn '.') with
    | some (.str s) => some s
    | _ => none

/-- **The phrase of a key in one language.** -/
def lookup? (c : Catalog) (language key : String) : Option String :=
  (c.table? language).bind fun table => phraseIn? table key

/-- **The phrase of a key for a locale**, or the key made readable. -/
def translate (c : Catalog) (key : String) (locale : Locale) : String :=
  let key := Text.trimmed key
  match locale.candidates.findSome? fun language => (c.lookup? language key).filter (· != "") with
  | some s => s
  | none => Text.humanized key

end Catalog

namespace Object

/-- The text of a field in the table of the first of `languages` that has one. -/
def textInLanguages? (tables : Object) (languages : List String) (field : String) : Option String :=
  languages.findSome? fun language => (tables.getObj? language).bind fun table => table.text? field

/-- **A field of an entity for a locale**: translated, else as it is, else empty. -/
def translated (entity : Object) (field : String) (locale : Locale) : String :=
  let found :=
    (entity.getObj? "translations").bind fun tables =>
      textInLanguages? tables locale.candidates field
  match found with
  | some s => s
  | none => (entity.text? field).getD ""

end Object

end Storefront
