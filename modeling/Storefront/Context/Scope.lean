import Storefront.Context.Path
import Storefront.Text.Search

/-!
# The context of a template

A template looks up names in a stack of scopes, innermost first: what the page
builder put there at the bottom, and on top of it, inside loops, the state of
each loop and the fields of its current item. Those fields may hide names of the
page (`itemsShadow`) or stand back behind all other scopes.

The bottom scope is a field of its own, so it cannot be popped: `pop` has nothing
to take from a context without further frames.
-/

namespace Storefront

/-- What a scope is for. -/
inductive Scope where
  /-- What every page has. -/
  | base
  /-- The data of the page. -/
  | page
  /-- The state of a loop: its item, index, and whether it is the first or last. -/
  | iteration
  /-- The fields of a loop's item. -/
  | item
  deriving DecidableEq

/-- **A scope with its variables.** -/
structure Frame where
  /-- What the scope is for. -/
  scope : Scope
  /-- Its variables. -/
  vars : Object

namespace Frame

/-- Whether the frame holds the fields of an item. -/
def isItem (f : Frame) : Bool := f.scope == .item

/-- The variable of that name in the first frame that has one. -/
def lookup (frames : List Frame) (key : String) : Option Value := frames.findSome? (·.vars.get? key)

end Frame

/-- **The context of a template**: a bottom scope and the frames above it. -/
structure Context where
  /-- The variables of the bottom scope. -/
  bottom : Object := []
  /-- The frames above the bottom, innermost first. -/
  above : List Frame := []
  /-- Whether the fields of an item hide other variables. -/
  itemsShadow : Bool := true

namespace Context

/-- The context of a page. -/
def ofLayers (base page : Object) : Context := ⟨base, [⟨.page, page⟩], true⟩

/-- The context with `itemsShadow` set. -/
def withItemShadowing (ctx : Context) (enabled : Bool) : Context := { ctx with itemsShadow := enabled }

/-- All frames, innermost first. -/
def frames (ctx : Context) : List Frame := ctx.above ++ [⟨.base, ctx.bottom⟩]

/-- The context with one more frame. -/
def push (ctx : Context) (scope : Scope) (vars : Object) : Context :=
  { ctx with above := ⟨scope, vars⟩ :: ctx.above }

/-- The innermost frame and the context without it; the bottom stays. -/
def pop? (ctx : Context) : Option (Frame × Context) :=
  match ctx.above with
  | [] => none
  | f :: rest => some (f, { ctx with above := rest })

/-- The context without its innermost frame. -/
def pop (ctx : Context) : Context :=
  match ctx.pop? with
  | none => ctx
  | some (_, rest) => rest

/-- The context after so many frames are popped. -/
def popped (ctx : Context) : Nat → Context
  | 0 => ctx
  | n + 1 => ctx.pop.popped n

/-- The context with a variable set in the innermost frame. -/
def set (ctx : Context) (key : String) (v : Value) : Context :=
  match ctx.above with
  | [] => { ctx with bottom := ctx.bottom.insert key v }
  | f :: rest => { ctx with above := { f with vars := f.vars.insert key v } :: rest }

/-- The frames in the order in which names are looked up. -/
def lookupOrder (ctx : Context) : List Frame :=
  if ctx.itemsShadow then ctx.frames
  else ctx.frames.filter (!·.isItem) ++ ctx.frames.filter (·.isItem)

/-- **The variable of a name.** -/
def get? (ctx : Context) (key : String) : Option Value := Frame.lookup ctx.lookupOrder key

/-- The frames in the order in which they are written over one another: all of them from the bottom
up, or those of items first and then the others. -/
def writeOrder (ctx : Context) : List Frame :=
  let bottomUp := ctx.frames.reverse
  let (items, others) := bottomUp.partition (·.isItem)
  if ctx.itemsShadow then bottomUp else items ++ others

/-- **All variables as one object**: frames are written over one another. -/
def flatten (ctx : Context) : Object :=
  ctx.writeOrder.foldl (fun merged f => merged.extend f.vars) []

/-- The value at a path in normal form: the variable of that very name, or the steps from the
variable that the first segment names. -/
def resolveNormal (ctx : Context) (path : List Char) : Option Value :=
  if path.isEmpty then none
  else
    match ctx.get? (String.ofList path) with
    | some v => some v
    | none =>
      match Path.segments path with
      | [] => none
      | head :: rest => (ctx.get? (String.ofList head)).bind (Path.walk · rest)

/-- **The value at a path.** -/
def resolve (ctx : Context) (path : String) : Option Value :=
  ctx.resolveNormal (Path.normalizedChars path.toList)

/-- **The object that holds the last segment of a path**: what is at the path before its last
point. -/
def owner? (ctx : Context) (path : String) : Option Object :=
  (Text.cutAtLast? '.' (Path.normalizedChars path.toList)).bind fun (parent, _) =>
    (ctx.resolveNormal (Path.normalizedChars parent)).bind Value.object?

end Context

end Storefront
