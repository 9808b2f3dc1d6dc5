import Storefront.Template.Tree
import Storefront.Text.Bytes

/-!
# Matching blocks

Blocks are matched one kind at a time. Looking for the end of a block of some
kind, only the directives of that kind count: an opening one goes one level
deeper, a closing one comes back, and the one that closes the level of the block
ends it. An `else` belongs to the block that is being matched when it stands on
the block's own level; a loop takes none.

Outside of loops, loops are matched first, then `if`, then `unless`; inside a
loop, `if` and `unless` come before further loops. A stage sees only what no
earlier stage has taken, so an `else` goes to the first stage that finds it on
its own level.

While this goes on the template is a list of *items*: tokens that no stage has
taken, and blocks. A block keeps the tokens that open, divide and close it, so
the items of a template hold all of its tokens, in order and each of them once.
The block directives that still stand alone in the end are those without a
place.
-/

namespace Storefront

/-- **A template on the way to a tree.** -/
inductive Item where
  /-- A token that no stage has taken. -/
  | token (t : Token)
  /-- A block with its opening token, what is in it up to its `else`, the `else`, what is in it
  after that, and its closing token. -/
  | block (kind : BlockKind) (opening : Token) (shown : List Item) (border : Option Token)
      (hidden : List Item) (closing : Token)

namespace Token

/-- Whether a token is a block directive: it opens, divides or closes a block. -/
def isBlock (t : Token) : Bool :=
  match t.lexeme with
  | .opening _ _ => true
  | .otherwise => true
  | .closing _ => true
  | _ => false

/-- Whether a token opens a block of some kind. -/
def opens (kind : BlockKind) (t : Token) : Bool :=
  match t.lexeme with
  | .opening k _ => k = kind
  | _ => false

/-- What the block that a token opens loops over or tests. -/
def argument (t : Token) : String :=
  match t.lexeme with
  | .opening _ argument => argument
  | _ => ""

end Token

namespace Item

/-! ## The end of a block -/

/-- **Where a block ends**, counted in items after its opening one. -/
structure Extent where
  /-- Where its `else` is, if it has one, with the token. -/
  border : Option (Nat × Token)
  /-- Where its closing token is. -/
  closeAt : Nat
  /-- The closing token. -/
  closing : Token
  deriving DecidableEq

namespace Extent

/-- The extent seen from some items earlier. -/
def later (n : Nat) (e : Extent) : Extent :=
  ⟨e.border.map fun b => (b.1 + n, b.2), e.closeAt + n, e.closing⟩

/-- The extent seen from an item that is an `else` of its block. -/
def fromElse (t : Token) (e : Extent) : Extent := ⟨some (0, t), e.closeAt + 1, e.closing⟩

/-- The items of the block among those after its opening token. -/
def inside (e : Extent) (items : List Item) : List Item := items.take e.closeAt

/-- The items of the block before its `else`. -/
def shown (e : Extent) (items : List Item) : List Item :=
  match e.border with
  | some (i, _) => (e.inside items).take i
  | none => e.inside items

/-- The items of the block after its `else`. -/
def hidden (e : Extent) (items : List Item) : List Item :=
  match e.border with
  | some (i, _) => (e.inside items).drop (i + 1)
  | none => []

/-- The items after the block. -/
def after (e : Extent) (items : List Item) : List Item := items.drop (e.closeAt + 1)

end Extent

/-- **The extent of a block** of some kind from the items after its opening token; `deeper`
counts the blocks of that kind that have been opened since. -/
def extent? (kind : BlockKind) : (deeper : Nat) → List Item → Option Extent
  | _, [] => none
  | deeper, .token t :: rest =>
    if t.opens kind then (extent? kind (deeper + 1) rest).map (Extent.later 1)
    else if t.lexeme = .closing kind then
      match deeper with
      | 0 => some ⟨none, 0, t⟩
      | deeper + 1 => (extent? kind deeper rest).map (Extent.later 1)
    else if t.lexeme = .otherwise ∧ kind ≠ .each ∧ deeper = 0 then
      (extent? kind deeper rest).map (Extent.fromElse t)
    else (extent? kind deeper rest).map (Extent.later 1)
  | deeper, .block _ _ _ _ _ _ :: rest => (extent? kind deeper rest).map (Extent.later 1)

/-- The extent of the block that a token opens, when it opens one of some kind and that ends. -/
def extentFrom? (kind : BlockKind) (t : Token) (rest : List Item) : Option Extent :=
  if t.opens kind then extent? kind 0 rest else none

/-! ## One stage -/

mutual

/-- What is left to do in an item: one, and one for each item in it. -/
def weight : Item → Nat
  | .token _ => 1
  | .block _ _ shown _ hidden _ => 1 + weights shown + weights hidden

/-- What is left to do in a list of items. -/
def weights : List Item → Nat
  | [] => 0
  | item :: rest => weight item + weights rest

end

theorem weights_append (a b : List Item) : weights (a ++ b) = weights a + weights b := by
  induction a with
  | nil => simp [weights]
  | cons item a ih => simp [weights, ih, Nat.add_assoc]

theorem weights_take_add_drop (n : Nat) (items : List Item) :
    weights (items.take n) + weights (items.drop n) = weights items := by
  rw [← weights_append, List.take_append_drop]

theorem weights_take_add_drop_succ_le (n : Nat) (items : List Item) :
    weights (items.take n) + weights (items.drop (n + 1)) ≤ weights items := by
  have hsum := weights_take_add_drop n items
  have hrest := weights_take_add_drop 1 (items.drop n)
  rw [List.drop_drop] at hrest
  omega

/-- The parts of a block and what follows it hold no more than what follows its opening token. -/
theorem weights_extent_le (e : Extent) (items : List Item) :
    weights (e.shown items) + weights (e.hidden items) + weights (e.after items) ≤
      weights items := by
  have hafter := weights_take_add_drop_succ_le e.closeAt items
  unfold Extent.shown Extent.hidden Extent.after Extent.inside
  split
  · rename_i i _ _
    have hbranches := weights_take_add_drop_succ_le i (items.take e.closeAt)
    omega
  · simp only [weights]
    omega

theorem weights_inside_le (e : Extent) (items : List Item) :
    weights (e.inside items) + weights (e.after items) ≤ weights items :=
  weights_take_add_drop_succ_le e.closeAt items

/-- **A stage for conditionals**: all blocks of one kind, also in the branches of conditionals
that an earlier stage has made. -/
def groupConditionals (kind : BlockKind) (items : List Item) : List Item :=
  match items with
  | [] => []
  | .token t :: rest =>
    match extentFrom? kind t rest with
    | none => .token t :: groupConditionals kind rest
    | some e =>
      .block kind t (groupConditionals kind (e.shown rest)) (e.border.map Prod.snd)
          (groupConditionals kind (e.hidden rest)) e.closing ::
        groupConditionals kind (e.after rest)
  | .block .each opening body border hidden closing :: rest =>
    .block .each opening body border hidden closing :: groupConditionals kind rest
  | .block k opening shown border hidden closing :: rest =>
    .block k opening (groupConditionals kind shown) border (groupConditionals kind hidden)
        closing ::
      groupConditionals kind rest
termination_by weights items
decreasing_by
  all_goals simp only [weights, weight]
  · omega
  · have := weights_extent_le e rest
    omega
  · have := weights_extent_le e rest
    omega
  · have := weights_extent_le e rest
    omega
  · omega
  · omega
  · omega
  · omega

theorem weights_groupConditionals_le (kind : BlockKind) (items : List Item) :
    weights (groupConditionals kind items) ≤ weights items := by
  fun_induction groupConditionals kind items with
  | case1 => exact Nat.le_refl _
  | case2 _ _ _ ih => simp only [weights]; omega
  | case3 _ rest e _ ih1 ih2 ih3 =>
    have := weights_extent_le e rest
    simp only [weights, weight]
    omega
  | case4 _ _ _ _ _ _ ih => simp only [weights]; omega
  | case5 _ _ _ _ _ _ _ _ ih1 ih2 ih3 => simp only [weights, weight]; omega

/-- **The stage for loops.** The inside of a loop goes through the stages for conditionals and
then through this one; after that it is settled. -/
def groupLoops (items : List Item) : List Item :=
  match items with
  | [] => []
  | .token t :: rest =>
    match extentFrom? .each t rest with
    | none => .token t :: groupLoops rest
    | some e =>
      .block .each t
          (groupLoops (groupConditionals .unlessTrue (groupConditionals .ifTrue (e.inside rest))))
          none [] e.closing ::
        groupLoops (e.after rest)
  | .block .each opening body border hidden closing :: rest =>
    .block .each opening body border hidden closing :: groupLoops rest
  | .block k opening shown border hidden closing :: rest =>
    .block k opening (groupLoops shown) border (groupLoops hidden) closing :: groupLoops rest
termination_by weights items
decreasing_by
  all_goals simp only [weights, weight]
  · omega
  · have := weights_inside_le e rest
    have := weights_groupConditionals_le .ifTrue (e.inside rest)
    have := weights_groupConditionals_le .unlessTrue (groupConditionals .ifTrue (e.inside rest))
    omega
  · have := weights_inside_le e rest
    omega
  · omega
  · omega
  · omega
  · omega

/-- **The items of a template**, with everything grouped that has its place. -/
def ofTemplate (template : String) : List Item :=
  groupConditionals .unlessTrue (groupConditionals .ifTrue
    (groupLoops ((Token.ofTemplate template).map .token)))

end Item

/-! ## The tree -/

namespace Token

/-- **A token on its own as a node**; a block directive without a place is the text it was written
as. -/
def node (t : Token) : Node :=
  match t.lexeme with
  | .text content => .text content
  | .variable path => .variable path false
  | .raw path => .variable path true
  | .phrase key => .phrase key
  | _ => .text t.source

end Token

namespace Item

mutual

/-- An item of a template as a node. -/
def node (template : List Char) : Item → Node
  | .token t => t.node
  | .block .each opening body _ _ closing =>
    .loop opening.argument (nodes template body)
      (String.ofList (Text.slice opening.start closing.stop template)) opening.line
  | .block kind opening shown _ hidden _ =>
    .conditional opening.argument (kind == .unlessTrue) (nodes template shown)
      (nodes template hidden) opening.line

/-- Items as nodes, with neighbouring text merged. -/
def nodes (template : List Char) : List Item → List Node
  | [] => []
  | item :: rest => (node template item).prepend (nodes template rest)

end

end Item

namespace Token

/-- **What is wrong with a directive** that has no place. -/
def complaint (t : Token) : Diagnostic where
  line := t.line
  message :=
    match t.lexeme with
    | .opening kind _ => "unclosed " ++ Lexeme.braced ("#" ++ kind.name) ++ " block"
    | .closing kind => "unexpected " ++ Lexeme.braced ("/" ++ kind.name) ++ " without a matching open"
    | .otherwise => Lexeme.braced "else" ++ " outside of an if/unless block"
    | other => "unexpected " ++ other.display

end Token

namespace Item

mutual

/-- Complaints about the tokens of an item, leaving out the insides of loops. -/
def strayComplaints : Item → List Diagnostic
  | .token t => if t.isBlock then [t.complaint] else []
  | .block .each _ _ _ _ _ => []
  | .block _ _ shown _ hidden _ => straysComplaints shown ++ straysComplaints hidden

/-- Complaints about the tokens in a list of items, leaving out the insides of loops. -/
def straysComplaints : List Item → List Diagnostic
  | [] => []
  | item :: rest => strayComplaints item ++ straysComplaints rest

end

mutual

/-- Complaints about what is inside the loops of an item: for each loop first about the loops in
it and then about its other tokens. -/
def loopComplaints : Item → List Diagnostic
  | .token _ => []
  | .block .each _ body _ _ _ => loopsComplaints body ++ straysComplaints body
  | .block _ _ shown _ hidden _ => loopsComplaints shown ++ loopsComplaints hidden

/-- Complaints about what is inside the loops in a list of items. -/
def loopsComplaints : List Item → List Diagnostic
  | [] => []
  | item :: rest => loopComplaints item ++ loopsComplaints rest

end

/-- **The complaints about a list of items**: what is inside its loops comes first. -/
def diagnostics (items : List Item) : List Diagnostic :=
  loopsComplaints items ++ straysComplaints items

end Item

namespace Template

/-- **The tree of a template**; it never fails. -/
def parse (template : String) : Template :=
  let items := Item.ofTemplate template
  ⟨Item.nodes template.toList items, Item.diagnostics items⟩

/-- The nodes of a text in which only variables are live, such as a phrase. -/
def inline (text : String) : List Node :=
  (Token.ofTemplate text).foldr (fun t rest =>
    let node : Node :=
      match t.lexeme with
      | .variable path => .variable path false
      | .raw path => .variable path true
      | _ => .text t.source
    node.prepend rest) []

end Template

end Storefront
