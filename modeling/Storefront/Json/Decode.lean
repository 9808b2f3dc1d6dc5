import Storefront.Json.Reader

/-!
# Decoding records

Settings, stores and page bundles have a fixed shape and are decoded strictly: a
field of the wrong kind refuses the whole document. A field that is missing takes
a default, one that the record does not know is skipped unread, and one that is
given twice is refused. A record may also be written as an array of its fields in
their declared order.
-/

namespace Storefront

/-- **A decoder**: how a document is read as an `α` inside at most `room` more arrays and
objects; `none` when it has the wrong shape. -/
abbrev Decoder (α : Type) : Type := (room : Nat) → Document → Option α

namespace Decoder

/-- A text. -/
def text : Decoder String
  | _, .str s => s
  | _, _ => none

/-- A boolean. -/
def bool : Decoder Bool
  | _, .bool b => some b
  | _, _ => none

/-- Any number, as a double. -/
def double : Decoder Double
  | _, .num n => n.map (·.toDouble)
  | _, _ => none

/-- Page data of any kind. -/
def value : Decoder Value := Document.value?

/-- An object of page data. -/
def object : Decoder Object
  | room, .obj members => (Document.value? room (.obj members)).bind Value.object?
  | _, _ => none

/-- Null, or what `d` decodes. -/
def optional {α : Type} (d : Decoder α) : Decoder (Option α)
  | _, .null => some none
  | room, doc => (d room doc).map some

/-- An array of what `d` decodes. -/
def list {α : Type} (d : Decoder α) : Decoder (List α)
  | room + 1, .arr items => items.mapM (d room)
  | _, _ => none

/-! ## Records -/

/-- The fields of a record that are present. -/
structure Fields where
  /-- How much nesting is left inside the record. -/
  room : Nat
  /-- The fields that the record knows, each at most once. -/
  present : List (String × Document)

namespace Fields

/-- The fields among `members` that are named in `names`; `none` when one comes twice or a name
cannot be read. -/
def ofMembers? (names : List String) : List (Option String × Document) → Option (List (String × Document))
  | [] => some []
  | (none, _) :: _ => none
  | (some name, d) :: rest =>
    match ofMembers? names rest with
    | none => none
    | some known =>
      if names.contains name then
        if known.any (·.1 == name) then none else some ((name, d) :: known)
      else some known

/-- A field decoded by `d`, or `missing` when it is not there. -/
def get {α : Type} (fs : Fields) (name : String) (d : Decoder α) (missing : Option α) : Option α :=
  match fs.present.find? (·.1 == name) with
  | some (_, doc) => d fs.room doc
  | none => missing

end Fields

/-- **A record** with the fields `names`. Written as an array it may hold fewer items than
`names` when `short` allows it, and never more. -/
def record {α : Type} (names : List String) (short : Bool) (build : Fields → Option α) : Decoder α
  | room + 1, .obj members => (Fields.ofMembers? names members).bind fun present => build ⟨room, present⟩
  | room + 1, .arr items =>
    if items.length ≤ names.length && (short || items.length == names.length) then
      build ⟨room, names.zip items⟩
    else none
  | _, _ => none

/-- What a text decodes to. -/
def read? {α : Type} (d : Decoder α) (s : String) : Option α :=
  (Document.read? s).bind (d Document.nestingLimit)

/-- What page data decodes to. -/
def ofValue? {α : Type} (d : Decoder α) (v : Value) : Option α :=
  d Document.nestingLimit (Document.ofValue v)

end Decoder

end Storefront
