import Storefront.Condition.Evaluate
import Storefront.Display.Value
import Storefront.Locale.Catalog
import Storefront.Render.Escape
import Storefront.Template.Grouping

/-!
# Rendering

A template is rendered against a context, node by node; the texts of the nodes
are put after one another. There is one context for all of them: a loop pushes
the frames of an item on it, writes its body and pops them again
(`Renderer.writeNodes`). What a node shows may be said without that: its text in
a context (`Renderer.nodes`), where a loop renders its body against the context
with the frames over it.

Some paths of a product have rules of their own. Its stock status is a fragment
that the page fills in later, the only output besides raw variables that is not
escaped; its formatted prices are shown only when it has a price; and its short
description falls back to the long one.
-/

namespace Storefront

/-- **What a renderer knows besides the context**: how values are shown, and the texts of the
user interface. -/
structure Renderer where
  /-- How values are shown. -/
  display : Display
  /-- The texts of the user interface. -/
  catalog : Catalog

/-- **The output of a variable.** -/
inductive Output where
  /-- Text, which is escaped unless the variable is raw. -/
  | text (s : String)
  /-- Markup, which is never escaped. -/
  | markup (s : String)
  deriving DecidableEq

namespace Renderer

/-- The renderer of a store for a locale, with a currency that overrides its own. -/
def ofSettings (settings : Settings) (store : Store) (locale : Locale) (override : Option String) :
    Renderer :=
  ⟨.ofSettings settings store.currency locale override, .ofObject settings.phrases⟩

/-- How deep loops may be nested; deeper ones are shown as they are written. -/
def loopLimit : Nat := 10

/-- The fragment that stands for a product's stock status. -/
def stockStatusFragment : String := "<span class=\"stock-status\" data-stock-status></span>"

/-! ## Variables -/

/-- Whether a text is a formatted price that was never filled in. -/
def isUnfilled (s : String) : Bool :=
  let cs := Text.trim s.toList
  cs.isEmpty || Text.contains Piece.opener cs || cs = "undefined".toList || cs = "null".toList

/-- The formatted price of the product in a context; empty unless its price is truthy. -/
def productPrice (r : Renderer) (ctx : Context) (priceKey formattedKey : String) : String :=
  match (ctx.resolve "product").bind Value.object? with
  | none => ""
  | some product =>
    match (product.get? priceKey).filter Value.truthy with
    | none => ""
    | some price =>
      match (product.getStr? formattedKey).filter fun s => !isUnfilled s with
      | some formatted => formatted
      | none =>
        match price.number? with
        | some amount => r.display.price amount
        | none => price.scalarText?.getD ""

/-- The short description of the product in a context, or else its description. -/
def shortDescription? (ctx : Context) : Option Value :=
  match (ctx.resolve "product.short_description").filter fun v => !v.isBlank with
  | some v => some v
  | none => ctx.resolve "product.description"

/-- The object that a stock status at a path is about, when there is no value there: the one that
would hold it, or the item of the loop for a path of one segment. -/
def stockOwner? (ctx : Context) (path : String) : Option Object :=
  if path.toList.contains '.' then ctx.owner? path else (ctx.resolve "this").bind Value.object?

/-- The output at a path without a rule of its own. -/
def valueText (r : Renderer) (ctx : Context) (path : String) : String :=
  match ctx.resolve path with
  | some v => r.display.text v path (ctx.owner? path)
  | none =>
    if Text.mentions "stock_status" path then r.display.text .null path (stockOwner? ctx path) else ""

/-- **The output of a variable.** -/
def output (r : Renderer) (ctx : Context) (path : String) : Output :=
  let path := Path.normalized path
  if path = "product.stock_status" then .markup stockStatusFragment
  else if path = "product.compare_price_formatted" then
    .text (r.productPrice ctx "compare_price" "compare_price_formatted")
  else if path = "product.price_formatted" then
    .text (r.productPrice ctx "price" "price_formatted")
  else if path = "product.short_description" then
    .text (match shortDescription? ctx with
      | some v => r.display.text v path none
      | none => "")
  else .text (r.valueText ctx path)

/-- The text of a variable. -/
def variableText (r : Renderer) (ctx : Context) (path : String) (raw : Bool) : String :=
  match r.output ctx path with
  | .markup s => s
  | .text s => if raw then s else Markup.escape s

/-! ## Phrases -/

/-- The phrase of a key, before its variables are filled in. -/
def translate (r : Renderer) (key : String) : String := r.catalog.translate key r.display.locale

/-- The text of a node of a phrase, in which only variables are live. -/
def inlineNode (r : Renderer) (ctx : Context) : Node → String
  | .variable path raw => r.variableText ctx path raw
  | .text s => s
  | _ => ""

/-- The phrase of a key with its variables filled in. -/
def phraseText (r : Renderer) (ctx : Context) (key : String) : String :=
  let s := r.translate key
  if Text.mentions "\x7b\x7b" s then String.join ((Template.inline s).map (r.inlineNode ctx)) else s

/-! ## Loops -/

/-- The state of a loop at one of its items. -/
def iteration (index count : Nat) (item : Value) : Object :=
  [("@index", .ofNat index), ("@first", .bool (index == 0)), ("@last", .bool (index + 1 == count)),
    ("this", item)]

/-- The context for one item of a loop: the state of the loop, and over it the fields of the item
if it has any. -/
def enter (ctx : Context) (index count : Nat) (item : Value) : Context :=
  let ctx := ctx.push .iteration (iteration index count item)
  match item with
  | .obj fields => ctx.push .item fields
  | _ => ctx

/-- The contexts for the items of a list. -/
def entered (ctx : Context) (items : List Value) : List Context :=
  items.zipIdx.map fun (item, index) => enter ctx index items.length item

/-- The items that a loop runs over. -/
def loopItems (ctx : Context) (path : String) : List Value :=
  match ctx.resolve path with
  | some (.arr items) => items
  | _ => []

/-! ## Nodes -/

mutual

/-- **The text of a node** inside `depth` loops. -/
def node (r : Renderer) (depth : Nat) (ctx : Context) : Node → String
  | .text s => s
  | .variable path raw => r.variableText ctx path raw
  | .phrase key => r.phraseText ctx key
  | .loop path body source _ =>
    if depth ≥ loopLimit then source
    else String.join ((entered ctx (loopItems ctx path)).map fun inner => nodes r (depth + 1) inner body)
  | .conditional condition negated shown hidden _ =>
    if ctx.satisfies condition != negated then nodes r depth ctx shown else nodes r depth ctx hidden

/-- **The text of a list of nodes.** -/
def nodes (r : Renderer) (depth : Nat) (ctx : Context) : List Node → String
  | [] => ""
  | n :: rest => node r depth ctx n ++ nodes r depth ctx rest

end

/-! ## Writing a page -/

/-- **A page in the making**: the context of its next part, and the text so far. -/
structure Draft where
  /-- The context of the next part. -/
  ctx : Context
  /-- The text so far. -/
  text : String

/-- A draft with more text. -/
def Draft.put (d : Draft) (s : String) : Draft := { d with text := d.text ++ s }

/-- How many frames a loop pushes for an item. -/
def frameCount : Value → Nat
  | .obj _ => 2
  | _ => 1

/-- **One pass of a loop**: its frames for the item are pushed, the body is written, and as many
frames are popped. -/
def pass (body : Draft → Draft) (count : Nat) (d : Draft) : Value × Nat → Draft
  | (item, index) =>
    let written := body { d with ctx := enter d.ctx index count item }
    { written with ctx := written.ctx.popped (frameCount item) }

mutual

/-- **Writes a node** inside `depth` loops. -/
def writeNode (r : Renderer) (depth : Nat) (d : Draft) : Node → Draft
  | .text s => d.put s
  | .variable path raw => d.put (r.variableText d.ctx path raw)
  | .phrase key => d.put (r.phraseText d.ctx key)
  | .loop path body source _ =>
    if depth ≥ loopLimit then d.put source
    else
      let items := loopItems d.ctx path
      items.zipIdx.foldl (pass (fun inner => writeNodes r (depth + 1) inner body) items.length) d
  | .conditional condition negated shown hidden _ =>
    if d.ctx.satisfies condition != negated then writeNodes r depth d shown
    else writeNodes r depth d hidden

/-- **Writes a list of nodes**, each after the one before it. -/
def writeNodes (r : Renderer) (depth : Nat) (d : Draft) : List Node → Draft
  | [] => d
  | n :: rest => writeNodes r depth (writeNode r depth d n) rest

end

/-- A parsed template rendered. -/
def template (r : Renderer) (t : Template) (ctx : Context) : String :=
  (r.writeNodes 0 ⟨ctx, ""⟩ t.nodes).text

/-- **A template rendered.** Text without an opening pair of braces is shown as it is. -/
def render (r : Renderer) (source : String) (ctx : Context) : String :=
  if Text.mentions "\x7b\x7b" source then r.template (Template.parse source) ctx else source

end Renderer

end Storefront
