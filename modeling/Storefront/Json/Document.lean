import Storefront.Data.Value

/-!
# JSON documents

A document is what the grammar of JSON admits, which is more than page data can
hold: a number may lie beyond every double, a text may contain half of a
surrogate pair, an object may repeat a key, and nesting has no bound. What a
reader does about these depends on whether it looks at the place where they
occur, so they are kept: as `none` in place of a number or a text, and as
members in the order in which they were written.

`Document.value?` reads a document as page data and refuses all of them but the
repeated key, of which the last value counts.
-/

namespace Storefront

/-- **A JSON document.** -/
inductive Document where
  /-- `null`. -/
  | null
  /-- `true` or `false`. -/
  | bool (b : Bool)
  /-- A number; `none` when its magnitude is beyond every double. -/
  | num (n : Option Number)
  /-- A text; `none` when it holds half of a surrogate pair. -/
  | str (s : Option String)
  /-- An array. -/
  | arr (items : List Document)
  /-- An object: all its members as written. -/
  | obj (members : List (Option String × Document))

namespace Document

/-- How many arrays and objects may enclose one another in a document that is read. -/
def nestingLimit : Nat := 127

mutual

/-- **A document as page data**, inside at most `room` more arrays and objects. -/
def value? (room : Nat) : Document → Option Value
  | .null => some .null
  | .bool b => some (.bool b)
  | .num n => n.map .num
  | .str s => s.map .str
  | .arr items =>
    match room with
    | 0 => none
    | room + 1 => (values? room items).map .arr
  | .obj members =>
    match room with
    | 0 => none
    | room + 1 => (entries? room members []).map .obj

/-- The items of an array as page data. -/
def values? (room : Nat) : List Document → Option (List Value)
  | [] => some []
  | d :: ds =>
    match value? room d, values? room ds with
    | some v, some vs => some (v :: vs)
    | _, _ => none

/-- The members of an object inserted in turn into `seen`. -/
def entries? (room : Nat) : List (Option String × Document) → Object → Option Object
  | [], seen => some seen
  | (key, d) :: ds, seen =>
    match key, value? room d with
    | some key, some v => entries? room ds (seen.insert key v)
    | _, _ => none

end

mutual

/-- Page data as a document. -/
def ofValue : Value → Document
  | .null => .null
  | .bool b => .bool b
  | .num n => .num (some n)
  | .str s => .str (some s)
  | .arr items => .arr (ofValues items)
  | .obj entries => .obj (ofEntries entries)

/-- A list of page data as the items of an array. -/
def ofValues : List Value → List Document
  | [] => []
  | v :: vs => ofValue v :: ofValues vs

/-- Entries as members. -/
def ofEntries : List (String × Value) → List (Option String × Document)
  | [] => []
  | (k, v) :: rest => (some k, ofValue v) :: ofEntries rest

end

end Document

end Storefront
