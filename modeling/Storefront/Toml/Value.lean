import Storefront.Json.Document

/-!
# TOML values

What a configuration in TOML can say: texts, booleans, lists and tables. Numbers,
dates and times are checked but their values are not kept, since no setting takes
one.
-/

namespace Storefront

/-- **A value of a TOML document.** -/
inductive Toml where
  /-- A text. -/
  | text (s : String)
  /-- A boolean. -/
  | bool (b : Bool)
  /-- A number, a date or a time. -/
  | measure
  /-- A list. -/
  | list (items : List Toml)
  /-- A table: its entries, each key once. -/
  | table (entries : List (String × Toml))

namespace Toml

/-- How deep lists and tables may be nested in one another, and how many keys one path may have. -/
def nestingLimit : Nat := 79

mutual

/-- A TOML value as a document, in which numbers, dates and times are numbers without a value. -/
def toDocument : Toml → Document
  | .text s => .str (some s)
  | .bool b => .bool b
  | .measure => .num none
  | .list items => .arr (toDocuments items)
  | .table entries => .obj (toMembers entries)

/-- The items of a list as documents. -/
def toDocuments : List Toml → List Document
  | [] => []
  | v :: vs => v.toDocument :: toDocuments vs

/-- The entries of a table as members. -/
def toMembers : List (String × Toml) → List (Option String × Document)
  | [] => []
  | (key, v) :: rest => (some key, v.toDocument) :: toMembers rest

end

end Toml

end Storefront
