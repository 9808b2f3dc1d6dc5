import Storefront.Toml.Value

/-!
# TOML tables

A document defines its tables piece by piece: by headers, by paths of keys, and
one inside another. What may still be added to a table depends on how it came to
be (`Origin`): a header may complete a table that was only passed through, paths
may extend what paths have made, and nothing else is defined twice.
-/

namespace Storefront.Toml

/-- **How a table came to be.** -/
inductive Origin where
  /-- By a header of its own. -/
  | header
  /-- On the way to a table with a header. -/
  | passing
  /-- By a path of keys. -/
  | path
  deriving DecidableEq

/-- **What is under a key.** -/
inductive Item where
  /-- A value, which is complete. -/
  | value (v : Toml)
  /-- A table. -/
  | table (origin : Origin) (entries : List (String × Item))
  /-- A list of tables with headers; the last of them may be added to. -/
  | tables (earlier : List (List (String × Item))) (last : List (String × Item))

/-- **The entries of a table** that is being defined. -/
abbrev Entries := List (String × Item)

namespace Entries

/-- The entries with what is under a key changed; nothing when that is refused. -/
def update? (es : Entries) (key : String) (change : Option Item → Option Item) : Option Entries :=
  match es with
  | [] => (change none).map fun item => [(key, item)]
  | (k, item) :: rest =>
    if k = key then (change (some item)).map fun item => (k, item) :: rest
    else (update? rest key change).map ((k, item) :: ·)

/-- **The entries with a value added** at a path. Tables on the way are made if they are missing;
only a table that paths have made, or the one where the path starts, takes the value. -/
def assign? (takes : Bool) : Entries → List String → Toml → Option Entries
  | _, [], _ => none
  | es, [key], v =>
    es.update? key fun item =>
      match item with
      | none => if takes then some (.value v) else none
      | some _ => none
  | es, key :: rest, v =>
    es.update? key fun item =>
      match item with
      | none => (assign? true [] rest v).map (.table .path)
      | some (.table .header _) => none
      | some (.table origin inner) => (assign? (origin == .path) inner rest v).map (.table origin)
      | some (.tables earlier last) => (assign? false last rest v).map (.tables earlier)
      | some (.value _) => none

/-- The entries with those of the table at a path changed. -/
def within? : Entries → List String → (Entries → Option Entries) → Option Entries
  | es, [], change => change es
  | es, key :: rest, change =>
    es.update? key fun item =>
      match item with
      | some (.table origin inner) => (within? inner rest change).map (.table origin)
      | some (.tables earlier last) => (within? last rest change).map (.tables earlier)
      | _ => none

/-- The entries with what the last key of a header's path is for changed; tables on the way are
made if they are missing. -/
def atHeader? (change : Option Item → Option Item) : Entries → List String → Option Entries
  | _, [] => none
  | es, [key] => es.update? key change
  | es, key :: rest =>
    es.update? key fun item =>
      match item with
      | none => (atHeader? change [] rest).map (.table .passing)
      | some (.table origin inner) => (atHeader? change inner rest).map (.table origin)
      | some (.tables earlier last) => (atHeader? change last rest).map (.tables earlier)
      | some (.value _) => none

/-- **The entries with a table begun by its header**; it must be new or only passed through. -/
def begin? : Entries → List String → Option Entries :=
  atHeader? fun item =>
    match item with
    | none => some (.table .header [])
    | some (.table .passing inner) => some (.table .header inner)
    | _ => none

/-- **The entries with a table begun at the end of a list of tables.** -/
def append? : Entries → List String → Option Entries :=
  atHeader? fun item =>
    match item with
    | none => some (.tables [] [])
    | some (.tables earlier last) => some (.tables (earlier ++ [last]) [])
    | _ => none

end Entries

mutual

/-- What is under a key, as a value. -/
def Item.toToml : Item → Toml
  | .value v => v
  | .table _ entries => .table (entriesToToml entries)
  | .tables earlier last => .list (listToToml earlier ++ [.table (entriesToToml last)])

/-- The entries of a table as values. -/
def entriesToToml : List (String × Item) → List (String × Toml)
  | [] => []
  | (key, item) :: rest => (key, item.toToml) :: entriesToToml rest

/-- The entries of tables as values. -/
def listToToml : List (List (String × Item)) → List Toml
  | [] => []
  | entries :: rest => .table (entriesToToml entries) :: listToToml rest

end

end Storefront.Toml
