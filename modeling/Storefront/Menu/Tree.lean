import Storefront.Page.Builder

/-!
# The category tree

A flat list of categories becomes a tree: each category names its parent by
identifier, and one whose parent is not in the list is a root. Categories that
are inactive or hidden in menus are left out before that.

Identifiers may repeat and parents may form cycles. So a level of the tree is
built from the categories that are still open, which are those not on the path
from the root: a category that is entered is closed for everything below it. Each
level has fewer open categories than the one above, and the tree is finite.
-/

namespace Storefront

/-- **A category that menus show.** -/
structure MenuEntry where
  /-- Its position among the visible categories. -/
  position : Nat
  /-- Its raw data. -/
  category : Object
  /-- Its identifier. -/
  id : Option String
  /-- The identifier of its parent, if some visible category has it. -/
  parent : Option String
  /-- Where it stands among its siblings. -/
  order : Int

namespace MenuEntry

/-- Whether menus show a category: it is not inactive and not hidden. -/
def isVisible (category : Object) : Bool :=
  (!category.has "is_active" || category.flag "is_active") && !category.flag "hide_in_menu"

/-- The visible categories of a list, in its order. -/
def ofCategories (categories : List Value) : List MenuEntry :=
  let visible := (Value.objects categories).filter isVisible
  let ids := visible.map fun category => category.id? "id"
  visible.zipIdx.map fun (category, position) =>
    { position, category, id := category.id? "id",
      parent := (category.id? "parent_id").filter fun parent => ids.contains (some parent),
      order := category.sortOrder }

/-- Entries in the order in which menus show siblings: by their place, and as they come when they
have the same one. -/
def sorted (entries : List MenuEntry) : List MenuEntry := entries.mergeSort fun a b => a.order ≤ b.order

/-- The entries without the one at a position. -/
def without (entries : List MenuEntry) (e : MenuEntry) : List MenuEntry :=
  entries.filter fun other => other.position != e.position

/-- The entries with a parent, or without one. -/
def childrenOf (entries : List MenuEntry) (parent : Option String) : List MenuEntry :=
  entries.filter fun e => e.parent == parent

theorem length_without_lt {entries : List MenuEntry} {e : MenuEntry} (h : e ∈ entries) :
    (without entries e).length < entries.length :=
  List.length_filter_lt_length_iff_exists.2 ⟨e, h, by simp⟩

theorem mem_of_mem_childrenOf {entries : List MenuEntry} {parent : Option String} {e : MenuEntry}
    (h : e ∈ childrenOf entries parent) : e ∈ entries :=
  (List.mem_filter.1 h).1

end MenuEntry

/-- **A tree of categories.** -/
inductive MenuTree where
  /-- A category and the trees of its children. -/
  | node (entry : MenuEntry) (children : List MenuTree)

namespace MenuTree

/-- **A level of the tree**: the open categories with a parent, each with the level below it. A
category without an identifier has no children. -/
def level (unused : List MenuEntry) (parent : Option String) : List MenuTree :=
  (MenuEntry.childrenOf unused parent).attach.map fun ⟨e, _⟩ =>
    .node e
      (match e.id with
      | some id => level (MenuEntry.without unused e) (some id)
      | none => [])
termination_by unused.length
decreasing_by exact MenuEntry.length_without_lt (MenuEntry.mem_of_mem_childrenOf ‹_›)

/-- **The tree of a list of categories**: its roots. -/
def ofCategories (categories : List Value) : List MenuTree :=
  level (MenuEntry.sorted (MenuEntry.ofCategories categories)) none

mutual

/-- A tree as page data: each category with its name, its address and its children. -/
def toValue (b : PageBuilder) : MenuTree → Value
  | .node e children =>
    .obj (e.category.extend
      [("name", .str (b.translated e.category "name")), ("url", .str (b.categoryUrl e.category)),
        ("has_children", .bool (!children.isEmpty)), ("children", .arr (toValues b children))])

/-- Trees as page data. -/
def toValues (b : PageBuilder) : List MenuTree → List Value
  | [] => []
  | t :: ts => t.toValue b :: toValues b ts

end

end MenuTree

/-- The category tree as page data. -/
def PageBuilder.categoryTree (b : PageBuilder) (categories : List Value) : List Value :=
  MenuTree.toValues b (MenuTree.ofCategories categories)

end Storefront
