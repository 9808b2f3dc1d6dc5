import Mathlib.Data.Finset.Card
import Mathlib.Data.List.Chain
import Storefront.Proofs.Menus

/-!
# Ways through the category tree

Identifiers need not be distinct. A category that names one which two others have
is a child of both, and the tree shows it below each, so how often it is shown
cannot be read off its own data. It can be read off the *ways* to it: a way starts
at a category without a parent, goes from each category to one that names it as
its parent, and comes back to none (`MenuTree.IsWay`). The tree has one node for
each way (`MenuTree.mem_waysOf_ofCategories`, `MenuTree.nodup_waysOf_ofCategories`),
and nothing else is in it. A category that has one parent at most has at most one
way to it, which is the case in which nothing is shown twice.

That no way comes back is also why the tree ends. Looking up the children of a
category over and over is driven by the data, and the data may send it round in
circles; passing over the categories that are on the way already stops it after as
many steps as there are categories (`MenuTree.levelWithin_eq_level`).
-/

namespace Storefront

namespace MenuTree

open MenuEntry

/-! ## Ways -/

mutual

/-- **The ways down a tree**: for each node, in the order in which they are shown, the positions of
the categories that lead to it, from the root of the tree to the node itself. -/
def ways : MenuTree → List (List Nat)
  | .node e children => [e.position] :: (waysOf children).map (e.position :: ·)

/-- The ways down several trees. -/
def waysOf : List MenuTree → List (List Nat)
  | [] => []
  | t :: ts => ways t ++ waysOf ts

end

theorem ways_eq (t : MenuTree) :
    t.ways = [t.entry.position] :: (waysOf t.children).map (t.entry.position :: ·) := by
  cases t with
  | node e children => rw [ways, MenuTree.entry, MenuTree.children]

theorem waysOf_eq_flatMap (ts : List MenuTree) : waysOf ts = ts.flatMap ways := by
  induction ts with
  | nil => rw [waysOf, List.flatMap_nil]
  | cons t ts ih => rw [waysOf, List.flatMap_cons, ih]

theorem mem_waysOf {w : List Nat} {ts : List MenuTree} :
    w ∈ waysOf ts ↔ ∃ t ∈ ts,
      w = [t.entry.position] ∨ ∃ v ∈ waysOf t.children, w = t.entry.position :: v := by
  simp only [waysOf_eq_flatMap ts, List.mem_flatMap, ways_eq, List.mem_cons, List.mem_map,
    eq_comm (b := w)]

theorem ne_nil_of_mem_waysOf {w : List Nat} {ts : List MenuTree} (h : w ∈ waysOf ts) : w ≠ [] := by
  obtain ⟨t, -, rfl | ⟨v, -, rfl⟩⟩ := mem_waysOf.1 h
  · exact List.cons_ne_nil _ _
  · exact List.cons_ne_nil _ _

mutual

theorem map_getLast?_ways (t : MenuTree) :
    t.ways.map List.getLast? = t.nodes.map fun s => some s.entry.position := by
  cases t with
  | node e children =>
    have hbelow : ((waysOf children).map (e.position :: ·)).map List.getLast? =
        (waysOf children).map List.getLast? := by
      rw [List.map_map]
      refine List.map_congr_left fun v hv => ?_
      exact List.getLast?_cons_of_ne_nil (ne_nil_of_mem_waysOf hv)
    rw [ways, nodes, List.map_cons, List.map_cons, hbelow, map_getLast?_waysOf children]
    rfl

/-- **There is one way for each node**, and it ends there. -/
theorem map_getLast?_waysOf (ts : List MenuTree) :
    (waysOf ts).map List.getLast? = (nodesOf ts).map fun s => some s.entry.position := by
  cases ts with
  | nil => rfl
  | cons t ts =>
    rw [waysOf, nodesOf, List.map_append, List.map_append, map_getLast?_ways t,
      map_getLast?_waysOf ts]

end

theorem occurrences_nodesOf (p : Nat) (ts : List MenuTree) :
    occurrences p (nodesOf ts) = (waysOf ts).countP fun w => w.getLast? == some p := by
  have hmap : ((nodesOf ts).map fun s => some s.entry.position).countP (· == some p) =
      ((waysOf ts).map List.getLast?).countP (· == some p) := by rw [map_getLast?_waysOf]
  rw [List.countP_map, List.countP_map] at hmap
  rw [occurrences_eq_countP]
  refine Eq.trans (List.countP_congr fun s _ => ?_) hmap
  simp

/-! ## Depth -/

mutual

/-- **How deep a tree is nested**: one for its root, and the depth of what is below. -/
def depth : MenuTree → Nat
  | .node _ children => depthOf children + 1

/-- The depth of the deepest of several trees. -/
def depthOf : List MenuTree → Nat
  | [] => 0
  | t :: ts => max (depth t) (depthOf ts)

end

mutual

theorem depth_le_iff {n : Nat} (t : MenuTree) : t.depth ≤ n ↔ ∀ w ∈ t.ways, w.length ≤ n := by
  cases t with
  | node e children =>
    rw [depth, ways, List.forall_mem_cons, List.forall_mem_map]
    simp only [List.length_cons, List.length_nil]
    cases n with
    | zero => simp
    | succ n =>
      rw [Nat.add_le_add_iff_right, depthOf_le_iff children]
      simp

/-- **The depth is the length of the longest way.** -/
theorem depthOf_le_iff {n : Nat} (ts : List MenuTree) :
    depthOf ts ≤ n ↔ ∀ w ∈ waysOf ts, w.length ≤ n := by
  cases ts with
  | nil => simp [depthOf, waysOf]
  | cons t ts =>
    rw [depthOf, waysOf, List.forall_mem_append, Nat.max_le, depth_le_iff t, depthOf_le_iff ts]

end

/-! ## Ways down a level -/

/-- **A step down**: from a category to one that has its identifier as parent. -/
def Below (e f : MenuEntry) : Prop := ∃ id, e.id = some id ∧ f.parent = some id

section Levels

variable {all unused : List MenuEntry} {parent : Option String} {e : MenuEntry} {w : List Nat}

theorem mem_waysOf_childTrees {v : List Nat} : v ∈ waysOf (childTrees unused e) ↔
    ∃ id, e.id = some id ∧ v ∈ waysOf (level (without unused e) (some id)) := by
  unfold childTrees
  split
  · next id hid => simp [hid]
  · next hid => simp [hid, waysOf]

theorem cons_mem_waysOf_level {p : Nat} : p :: w ∈ waysOf (level unused parent) ↔
    ∃ e ∈ childrenOf unused parent, e.position = p ∧
      (w = [] ∨ ∃ id, e.id = some id ∧ w ∈ waysOf (level (without unused e) (some id))) := by
  rw [mem_waysOf, level_eq]
  constructor
  · rintro ⟨t, ht, hw⟩
    obtain ⟨e, he, rfl⟩ := List.mem_map.1 ht
    obtain hw | ⟨v, hv, hw⟩ := hw
    · obtain ⟨rfl, rfl⟩ := List.cons.inj hw
      exact ⟨e, he, rfl, .inl rfl⟩
    · obtain ⟨rfl, rfl⟩ := List.cons.inj hw
      exact ⟨e, he, rfl, .inr (mem_waysOf_childTrees.1 hv)⟩
  · rintro ⟨e, he, rfl, hw⟩
    refine ⟨_, List.mem_map_of_mem he, ?_⟩
    obtain rfl | hw := hw
    · exact .inl rfl
    · exact .inr ⟨w, mem_waysOf_childTrees.2 hw, rfl⟩

/-- **The ways down a level** are the chains of open entries that start below the parent, go on
step by step and come back to none. -/
theorem mem_waysOf_level : w ∈ waysOf (level unused parent) ↔
    ∃ es : List MenuEntry, es.map (·.position) = w ∧ (∀ e ∈ es, e ∈ unused) ∧ w.Nodup ∧
      es.IsChain Below ∧ ∃ e ∈ es.head?, e.parent = parent := by
  induction w generalizing unused parent with
  | nil =>
    constructor
    · exact fun h => absurd rfl (ne_nil_of_mem_waysOf h)
    · rintro ⟨es, hes, -, -, -, e, he, -⟩
      rw [List.map_eq_nil_iff.1 hes] at he
      exact absurd he (Option.not_mem_none e)
  | cons p w ih =>
    rw [cons_mem_waysOf_level]
    constructor
    · rintro ⟨e, he, rfl, hw⟩
      obtain ⟨hopen, hparent⟩ := mem_childrenOf.1 he
      obtain rfl | ⟨id, hid, hbelow⟩ := hw
      · exact ⟨[e], rfl, by simpa using hopen, List.nodup_singleton _, List.isChain_singleton e, e,
          rfl, hparent⟩
      · obtain ⟨es, rfl, hes, hnodup, hchain, f, hf, hfparent⟩ := ih.1 hbelow
        have hother : e.position ∉ es.map (·.position) := fun hmem => by
          obtain ⟨g, hg, hposition⟩ := List.mem_map.1 hmem
          exact (mem_without.1 (hes g hg)).2 hposition
        refine ⟨e :: es, rfl, List.forall_mem_cons.2 ⟨hopen, fun g hg => ?_⟩,
          List.nodup_cons.2 ⟨hother, hnodup⟩, List.isChain_cons.2 ⟨fun g hg => ?_, hchain⟩, e, rfl,
          hparent⟩
        · exact (mem_without.1 (hes g hg)).1
        · obtain rfl := Option.mem_unique hf hg
          exact ⟨id, hid, hfparent⟩
    · rintro ⟨es, hmap, hes, hnodup, hchain, e, he, hparent⟩
      obtain ⟨rest, rfl⟩ := List.head?_eq_some_iff.1 he
      obtain ⟨rfl, rfl⟩ := List.cons.inj hmap
      obtain ⟨hopen, hrest⟩ := List.forall_mem_cons.1 hes
      obtain ⟨hhead, hchain⟩ := List.isChain_cons.1 hchain
      obtain ⟨hother, hnodup⟩ := List.nodup_cons.1 hnodup
      refine ⟨e, mem_childrenOf.2 ⟨hopen, hparent⟩, rfl, ?_⟩
      cases rest with
      | nil => exact .inl rfl
      | cons f rest =>
        obtain ⟨id, hid, hfparent⟩ := hhead f rfl
        refine .inr ⟨id, hid, ih.2 ⟨f :: rest, rfl, fun g hg => ?_, hnodup, hchain, f, rfl, hfparent⟩⟩
        refine mem_without.2 ⟨hrest g hg, fun hposition => hother ?_⟩
        exact List.mem_map.2 ⟨g, hg, hposition⟩

/-- **No way is there twice.** -/
theorem nodup_waysOf_level (h : (unused.map (·.position)).Nodup) (parent : Option String) :
    (waysOf (level unused parent)).Nodup := by
  induction hlength : unused.length using Nat.strong_induction_on generalizing unused parent with
  | _ n ih =>
    have hpositions : ((childrenOf unused parent).map (·.position)).Nodup :=
      h.sublist (List.filter_sublist.map _)
    rw [waysOf_eq_flatMap, level_eq, List.flatMap_map, List.nodup_flatMap]
    constructor
    · intro e he
      have hbelow : (waysOf (childTrees unused e)).Nodup := by
        unfold childTrees
        split
        · exact ih _ (hlength ▸ length_without_lt (mem_of_mem_childrenOf he))
            (h.sublist (List.filter_sublist.map _)) _ rfl
        · exact List.nodup_nil
      rw [ways, List.nodup_cons]
      refine ⟨fun hmem => ?_, hbelow.map List.cons_injective⟩
      obtain ⟨v, hv, heq⟩ := List.mem_map.1 hmem
      exact ne_nil_of_mem_waysOf hv (List.cons.inj heq).2
    · -- ways that start at different entries differ there
      refine (List.pairwise_map.1 hpositions).imp fun {e f} hne => ?_
      intro w hw hw'
      refine hne (Option.some.inj ?_)
      have hhead : ∀ g : MenuEntry, w ∈ ways (.node g (childTrees unused g)) →
          w.head? = some g.position := fun g hg => by
        rw [ways, List.mem_cons, List.mem_map] at hg
        obtain rfl | ⟨v, -, rfl⟩ := hg
        · rfl
        · rfl
      exact (hhead e hw).symm.trans (hhead f hw')

theorem Visited.sublist (hv : Visited all unused parent) : unused.Sublist all := by
  induction hv with
  | top => exact List.Sublist.refl _
  | down _ _ _ ih => exact List.filter_sublist.trans ih

end Levels

/-! ## Levels by looking up -/

/-- The entries that are not on a path. -/
def offPath (all : List MenuEntry) (path : List Nat) : List MenuEntry :=
  all.filter fun e => e.position ∉ path

/-- **A level by looking up**: the entries with a parent, each with the level for its identifier
below it, passing over those on the path from the root. Nothing gets fewer on the way down, so the
number of levels that may follow is given, and there is no result when it does not suffice. -/
def levelWithin (all : List MenuEntry) :
    (levels : Nat) → (path : List Nat) → (parent : Option String) → Option (List MenuTree)
  | 0, _, _ => none
  | levels + 1, path, parent =>
    (offPath (childrenOf all parent) path).mapM fun e =>
      (match e.id with
        | some own => levelWithin all levels (e.position :: path) (some own)
        | none => some []).map (.node e)

section Levels

variable {all : List MenuEntry} {path : List Nat} {e : MenuEntry}

theorem offPath_childrenOf (parent : Option String) :
    offPath (childrenOf all parent) path = childrenOf (offPath all path) parent :=
  List.filter_comm _ _ _

theorem offPath_nil (all : List MenuEntry) : offPath all [] = all :=
  List.filter_eq_self.2 fun _ _ => decide_eq_true List.not_mem_nil

theorem offPath_cons : offPath all (e.position :: path) = without (offPath all path) e := by
  rw [offPath, without, offPath, List.filter_filter]
  refine List.filter_congr fun f _ => ?_
  rw [Bool.eq_iff_iff]
  simp

theorem mapM_eq_some_map {α β : Type} {f : α → Option β} {g : α → β} {l : List α}
    (h : ∀ a ∈ l, f a = some (g a)) : l.mapM f = some (l.map g) := by
  induction l with
  | nil => rfl
  | cons a l ih =>
    obtain ⟨ha, hl⟩ := List.forall_mem_cons.1 h
    rw [List.mapM_cons, ha, ih hl]
    rfl

/-- **Looking up ends**, and it makes the level of what is not on the path. -/
theorem levelWithin_eq_level {levels : Nat} (h : (offPath all path).length < levels)
    (parent : Option String) :
    levelWithin all levels path parent = some (level (offPath all path) parent) := by
  induction levels generalizing path parent with
  | zero => exact absurd h (Nat.not_lt_zero _)
  | succ levels ih =>
    rw [levelWithin, offPath_childrenOf, level_eq]
    refine mapM_eq_some_map fun e he => ?_
    rw [childTrees]
    cases e.id with
    | none => rfl
    | some own =>
      -- one entry fewer is off the path below
      have hless := length_without_lt (mem_of_mem_childrenOf he)
      rw [← offPath_cons] at hless
      dsimp only
      rw [← offPath_cons, ih (by omega), Option.map_some]

/-- So it makes the tree of a list of categories, with more levels than there are visible ones. -/
theorem levelWithin_ofCategories {categories : List Value} {levels : Nat}
    (h : (visible categories).length < levels) :
    levelWithin (sorted (MenuEntry.ofCategories categories)) levels [] none =
      some (ofCategories categories) := by
  have hlength : (sorted (MenuEntry.ofCategories categories)).length = (visible categories).length := by
    rw [sorted, List.length_mergeSort, MenuEntry.ofCategories_eq, List.length_map, List.length_zipIdx]
  rw [← hlength, ← offPath_nil (sorted _)] at h
  rw [levelWithin_eq_level h, offPath_nil, ofCategories]

/-- What is told of a tree is told of what looking up makes, if the categories come as they are
shown. -/
theorem eq_of_map_levelWithin {α : Type} {tell : List MenuTree → α} {categories : List Value} {a : α}
    (levels : Nat)
    (hsorted : (MenuEntry.ofCategories categories).Pairwise fun e f => e.order ≤ f.order)
    (hlevels : (visible categories).length < levels)
    (h : (levelWithin (MenuEntry.ofCategories categories) levels [] none).map tell = some a) :
    tell (ofCategories categories) = a := by
  have hsame : sorted (MenuEntry.ofCategories categories) = MenuEntry.ofCategories categories :=
    List.mergeSort_of_pairwise (hsorted.imp decide_eq_true)
  have htree := levelWithin_ofCategories hlevels
  rw [hsame] at htree
  rw [htree, Option.map_some] at h
  exact Option.some.inj h

end Levels

/-! ## Ways through the categories -/

/-- **A way through visible categories**, given by their positions: it starts at one without a
parent, each other one names the one before it as its parent, and none is there twice. -/
structure IsWay (visible : List Object) (w : List Nat) : Prop where
  /-- The first category has no parent. -/
  root : ∃ p ∈ w.head?, ∃ c, visible[p]? = some c ∧ ∀ d, ¬IsParent visible c d
  /-- The others have the one before them as a parent. -/
  steps : w.IsChain fun p q =>
    ∃ c d, visible[p]? = some c ∧ visible[q]? = some d ∧ IsParent visible d c
  /-- No category is there twice. -/
  nodup : w.Nodup

/-- **Categories of which none has two parents**: if two have the same identifier, no category names
it as its parent. -/
def SoleParents (visible : List Object) : Prop :=
  ∀ c ∈ visible, ∀ (p q : Nat) (d d' : Object), visible[p]? = some d → visible[q]? = some d' →
    IsParent visible c d → IsParent visible c d' → p = q

section Categories

variable {visible : List Object} {w : List Nat}

theorem IsWay.lt_length (h : IsWay visible w) : ∀ p ∈ w, p < visible.length := by
  obtain ⟨p, hp, c, hc, -⟩ := h.root
  obtain ⟨rest, rfl⟩ := List.head?_eq_some_iff.1 hp
  refine List.IsChain.induction (fun p => p < visible.length) _ h.steps ?_ ?_
  · rintro p q ⟨c, d, -, hd, -⟩ -
    exact (List.getElem?_eq_some_iff.1 hd).1
  · intro _
    exact (List.getElem?_eq_some_iff.1 hc).1

theorem IsWay.length_le (h : IsWay visible w) : w.length ≤ visible.length := by
  have hsubset : w ⊆ List.range visible.length := fun p hp => List.mem_range.2 (h.lt_length p hp)
  simpa using (List.subperm_of_subset h.nodup hsubset).length_le

/-- The last step of a way: it has none, or it leads from the end of a way to a child. -/
theorem IsWay.of_concat {p : Nat} (h : IsWay visible (w ++ [p])) :
    (w = [] ∧ ∃ c, visible[p]? = some c ∧ ∀ d, ¬IsParent visible c d) ∨
      IsWay visible w ∧ ∃ q ∈ w.getLast?, ∃ c d, visible[q]? = some c ∧ visible[p]? = some d ∧
        IsParent visible d c := by
  obtain ⟨hsteps, -, hlast⟩ := List.isChain_append.1 h.steps
  cases w with
  | nil =>
    obtain ⟨q, hq, c, hc, hroot⟩ := h.root
    obtain rfl := Option.some.inj hq
    exact .inl ⟨rfl, c, hc, hroot⟩
  | cons q w =>
    have hend := List.getLast?_eq_some_getLast (List.cons_ne_nil q w)
    exact .inr ⟨⟨h.root, hsteps, h.nodup.of_append_left⟩, _, hend, hlast _ hend _ rfl⟩

/-- **There is one way at most to a category** when none has two parents. -/
theorem IsWay.eq_of_getLast? (hsole : SoleParents visible) (h : IsWay visible w) {v : List Nat}
    (hv : IsWay visible v) (hlast : w.getLast? = v.getLast?) : w = v := by
  induction w using List.reverseRecOn generalizing v with
  | nil =>
    obtain ⟨p, hp, -⟩ := h.root
    exact absurd hp (Option.not_mem_none p)
  | append_singleton w p ih =>
    rw [List.getLast?_concat] at hlast
    obtain ⟨v, rfl⟩ := List.getLast?_eq_some_iff.1 hlast.symm
    refine congrArg (· ++ [p]) ?_
    -- the last category is a root on both ways, or it has the same parent on both
    obtain ⟨rfl, c, hc, hroot⟩ | ⟨hw, q, hq, c, d, hqc, hd, hparent⟩ := h.of_concat
    · obtain ⟨rfl, -⟩ | ⟨-, q, -, d, c', -, hc', hparent⟩ := hv.of_concat
      · rfl
      · obtain rfl := Option.some.inj (hc.symm.trans hc')
        exact absurd hparent (hroot d)
    · obtain ⟨rfl, d', hd', hroot⟩ | ⟨hv, q', hq', c', d', hqc', hd', hparent'⟩ := hv.of_concat
      · obtain rfl := Option.some.inj (hd.symm.trans hd')
        exact absurd hparent (hroot c)
      · obtain rfl := Option.some.inj (hd.symm.trans hd')
        obtain rfl := hsole d (List.mem_of_getElem? hd) q q' c c' hqc hqc' hparent hparent'
        exact ih hw hv (hq.trans hq'.symm)

end Categories

section Entries

variable {categories : List Value} {e f : MenuEntry} {w : List Nat}

/-- The entry of the visible category at a position. -/
def entryAt (visible : List Object) (p : Nat) : MenuEntry := ofVisible visible (visible[p]?.getD []) p

theorem entryAt_mem {p : Nat} {c : Object} (hc : (visible categories)[p]? = some c) :
    entryAt (visible categories) p ∈ MenuEntry.ofCategories categories ∧
      (entryAt (visible categories) p).category = c := by
  have hgetD : (visible categories)[p]?.getD [] = c := by rw [hc, Option.getD_some]
  exact ⟨ofVisible_mem (hgetD.symm ▸ hc), hgetD⟩

theorem below_iff (he : e ∈ MenuEntry.ofCategories categories)
    (hf : f ∈ MenuEntry.ofCategories categories) :
    Below e f ↔ IsParent (visible categories) f.category e.category := by
  rw [isParent_iff hf he]
  exact exists_congr fun id => and_comm

/-- **The tree of a list has the ways through its visible categories**, and no others. -/
theorem mem_waysOf_ofCategories :
    w ∈ waysOf (ofCategories categories) ↔ IsWay (visible categories) w := by
  rw [ofCategories, mem_waysOf_level]
  constructor
  · rintro ⟨es, rfl, hes, hnodup, hchain, e, he, hroot⟩
    have hmem : ∀ e ∈ es, e ∈ MenuEntry.ofCategories categories := fun e he =>
      mem_sorted.1 (hes e he)
    have hcategory : ∀ e ∈ es, (visible categories)[e.position]? = some e.category := fun e he =>
      (mem_ofCategories.1 (hmem e he)).1
    have hfirst : e ∈ es := List.mem_of_mem_head? he
    refine ⟨⟨e.position, ?_, e.category, hcategory e hfirst, ?_⟩, ?_, hnodup⟩
    · rw [List.head?_map]
      exact Option.mem_map_of_mem _ he
    · exact (parent_eq_none_iff (hmem e hfirst)).1 hroot
    · rw [List.isChain_map]
      exact hchain.imp_of_mem_imp fun e f he hf hbelow =>
        ⟨_, _, hcategory e he, hcategory f hf, (below_iff (hmem e he) (hmem f hf)).1 hbelow⟩
  · intro h
    obtain ⟨p, hp, c, hc, hroot⟩ := h.root
    refine ⟨w.map (entryAt (visible categories)), ?_, ?_, h.nodup, ?_, _,
      List.head?_map ▸ Option.mem_map_of_mem _ hp, ?_⟩
    · rw [List.map_map]
      exact List.map_id w
    · rw [List.forall_mem_map]
      intro q hq
      exact mem_sorted.2 (entryAt_mem (List.getElem?_eq_getElem (h.lt_length q hq))).1
    · rw [List.isChain_map]
      refine h.steps.imp ?_
      rintro q r ⟨c, d, hc, hd, hparent⟩
      obtain ⟨he, rfl⟩ := entryAt_mem hc
      obtain ⟨hf, rfl⟩ := entryAt_mem hd
      exact (below_iff he hf).2 hparent
    · obtain ⟨he, rfl⟩ := entryAt_mem hc
      exact (parent_eq_none_iff he).2 hroot

theorem nodup_waysOf_ofCategories (categories : List Value) :
    (waysOf (ofCategories categories)).Nodup :=
  nodup_waysOf_level (nodup_sorted categories) none

/-- Every node of the tree is a visible category. -/
theorem getElem?_of_mem_nodesOf : ∀ t ∈ nodesOf (ofCategories categories),
    (visible categories)[t.entry.position]? = some t.entry.category := by
  intro t ht
  obtain ⟨unused, parent, hv, he, -⟩ := placed_nodes _ t ht
  have hmem := mem_sorted.1 (hv.sublist.subset (mem_childrenOf.1 he).1)
  exact (mem_ofCategories.1 hmem).1

end Entries

/-! ## The tree of a list -/

/-- **A forest that follows the ways through categories**: it has a node for each, and no others. -/
structure Follows (visible : List Object) (forest : List MenuTree) : Prop where
  /-- Every node is a visible category. -/
  shown : ∀ t ∈ nodesOf forest, visible[t.entry.position]? = some t.entry.category
  /-- Each node is at the end of one way, in their order. -/
  ends : (waysOf forest).map List.getLast? = (nodesOf forest).map fun t => some t.entry.position
  /-- These are the ways through the categories. -/
  ways : ∀ w, w ∈ waysOf forest ↔ IsWay visible w
  /-- None is there twice. -/
  once : (waysOf forest).Nodup

theorem follows_ofCategories (categories : List Value) :
    Follows (visible categories) (ofCategories categories) where
  shown := getElem?_of_mem_nodesOf
  ends := map_getLast?_waysOf _
  ways _ := mem_waysOf_ofCategories
  once := nodup_waysOf_ofCategories categories

section Follows

variable {visible : List Object} {forest : List MenuTree} (h : Follows visible forest)
include h

/-- **A category is shown once at most** exactly if there is one way to it at most. -/
theorem Follows.occurrences_le_one_iff (p : Nat) : occurrences p (nodesOf forest) ≤ 1 ↔
    ∀ w v, IsWay visible w → IsWay visible v → w.getLast? = some p → v.getLast? = some p → w = v := by
  have hnodup := h.once.filter fun w => w.getLast? == some p
  rw [occurrences_nodesOf, List.countP_eq_length_filter, ← List.toFinset_card_of_nodup hnodup,
    Finset.card_le_one]
  simp only [List.mem_toFinset, List.mem_filter, h.ways, beq_iff_eq]
  exact ⟨fun hsame w v hw hv hwp hvp => hsame w ⟨hw, hwp⟩ v ⟨hv, hvp⟩,
    fun hsame w hw v hv => hsame w v hw.1 hv.1 hw.2 hv.2⟩

/-- **A tree that shows no category twice** has no more nodes than there are categories. -/
theorem Follows.length_nodesOf_le (honce : ∀ p, occurrences p (nodesOf forest) ≤ 1) :
    (nodesOf forest).length ≤ visible.length := by
  have hnodup : ((nodesOf forest).map fun t => t.entry.position).Nodup :=
    List.nodup_iff_count_le_one.2 honce
  have hsubset : (nodesOf forest).map (fun t => t.entry.position) ⊆ List.range visible.length := by
    intro p hp
    obtain ⟨t, ht, rfl⟩ := List.mem_map.1 hp
    exact List.mem_range.2 (List.getElem?_eq_some_iff.1 (h.shown t ht)).1
  simpa using (List.subperm_of_subset hnodup hsubset).length_le

end Follows

end MenuTree

/-- **A category tree shows each category once for every way to it.** For any list, with repeated
identifiers and cycles of parents among them, the tree has one node for each way through the visible
categories and no others. So it shows no category twice exactly if there is one way at most to each,
as there is when none has two parents, and then it has no more nodes than there are visible
categories. -/
theorem PageBuilder.categoryTree_follows (b : PageBuilder) (categories : List Value) :
    b.categoryTree categories = (MenuTree.ofCategories categories).map (MenuTree.toValue b) ∧
      (∀ t ∈ MenuTree.nodesOf (MenuTree.ofCategories categories),
        ∃ o, t.toValue b = .obj o ∧ t.Shows b o) ∧
      MenuTree.Follows (MenuEntry.visible categories) (MenuTree.ofCategories categories) ∧
      (∀ p, MenuTree.occurrences p (MenuTree.nodesOf (MenuTree.ofCategories categories)) ≤ 1 ↔
        ∀ w v, MenuTree.IsWay (MenuEntry.visible categories) w →
          MenuTree.IsWay (MenuEntry.visible categories) v →
            w.getLast? = some p → v.getLast? = some p → w = v) ∧
      (MenuTree.SoleParents (MenuEntry.visible categories) →
        (∀ p, MenuTree.occurrences p (MenuTree.nodesOf (MenuTree.ofCategories categories)) ≤ 1) ∧
          (MenuTree.nodesOf (MenuTree.ofCategories categories)).length ≤
            (MenuEntry.visible categories).length) := by
  have hfollows := MenuTree.follows_ofCategories categories
  refine ⟨MenuTree.toValues_eq_map b _, fun t _ => t.exists_shows b, hfollows,
    hfollows.occurrences_le_one_iff, fun hsole => ?_⟩
  have honce : ∀ p, MenuTree.occurrences p
      (MenuTree.nodesOf (MenuTree.ofCategories categories)) ≤ 1 := fun p =>
    (hfollows.occurrences_le_one_iff p).2 fun w v hw hv hwp hvp =>
      hw.eq_of_getLast? hsole hv (hwp.trans hvp.symm)
  exact ⟨honce, hfollows.length_nodesOf_le honce⟩

/-- Two categories with one identifier, which no other names, beside a category with a child. -/
theorem PageBuilder.categoryTree_follows_unnamed :
    let b : PageBuilder := ⟨{}, {}, {}⟩
    let categories : List Value := [
      .obj [("id", .str "new")], .obj [("id", .str "mugs"), ("parent_id", .str "kitchen")],
      .obj [("id", .str "new")], .obj [("id", .str "kitchen")]]
    let forest := MenuTree.ofCategories categories
    MenuTree.SoleParents (MenuEntry.visible categories) ∧
      b.categoryTree categories = forest.map (MenuTree.toValue b) ∧
      MenuTree.waysOf forest = [[0], [2], [3], [3, 1]] ∧
      (∀ p, MenuTree.occurrences p (MenuTree.nodesOf forest) ≤ 1) ∧
      (MenuTree.nodesOf forest).length ≤ 4 := by
  intro b categories forest
  have hnames : ∀ c ∈ MenuEntry.visible categories, ∀ p < 4, ∀ q < 4, p = q ∨
      c.id? "parent_id" = none ∨
      (MenuEntry.visible categories)[p]?.bind (·.id? "id") ≠ c.id? "parent_id" ∨
      (MenuEntry.visible categories)[q]?.bind (·.id? "id") ≠ c.id? "parent_id" := by decide
  have hsole : MenuTree.SoleParents (MenuEntry.visible categories) := by
    rintro c hc p q d d' hp hq ⟨-, id, hid, hd⟩ ⟨-, id', hid', hd'⟩
    obtain rfl := Option.some.inj (hid.symm.trans hid')
    obtain h | h | h | h := hnames c hc p (List.getElem?_eq_some_iff.1 hp).1 q
      (List.getElem?_eq_some_iff.1 hq).1
    · exact h
    · exact absurd (hid.symm.trans h) (Option.some_ne_none id)
    · rw [hp] at h
      exact absurd (hd.trans hid.symm) h
    · rw [hq] at h
      exact absurd (hd'.trans hid.symm) h
  have hways : MenuTree.waysOf (MenuTree.ofCategories categories) = [[0], [2], [3], [3, 1]] :=
    MenuTree.eq_of_map_levelWithin 5 (by decide) (by decide) (by decide)
  obtain ⟨htree, -, -, -, honce⟩ := b.categoryTree_follows categories
  exact ⟨hsole, htree, hways, honce hsole⟩

/-- **A child of two categories with one identifier** is shown below each, so that there are more
nodes than categories. -/
theorem PageBuilder.categoryTree_repeats_child :
    let categories : List Value := [
      .obj [("id", .ofNat 1)], .obj [("id", .ofNat 1)],
      .obj [("id", .ofNat 2), ("parent_id", .ofNat 1)]]
    let forest := MenuTree.ofCategories categories
    (MenuEntry.visible categories).length = 3 ∧
      MenuTree.waysOf forest = [[0], [0, 2], [1], [1, 2]] ∧
      MenuTree.occurrences 2 (MenuTree.nodesOf forest) = 2 ∧
      (MenuTree.nodesOf forest).length = 4 := by
  intro categories forest
  have hways : MenuTree.waysOf (MenuTree.ofCategories categories) = [[0], [0, 2], [1], [1, 2]] :=
    MenuTree.eq_of_map_levelWithin 4 (by decide) (by decide) (by decide)
  have hnodes : (MenuTree.nodesOf (MenuTree.ofCategories categories)).length = 4 := by
    have hlength := congrArg List.length (MenuTree.map_getLast?_waysOf forest)
    rwa [List.length_map, List.length_map, hways, eq_comm] at hlength
  refine ⟨rfl, hways, ?_, hnodes⟩
  rw [MenuTree.occurrences_nodesOf, hways]
  rfl

/-- **A category tree ends**, for any list. Looking up the children of categories over and over,
passing over those on the path, makes no more levels than there are visible categories, and what it
makes is the tree. No category comes twice on a way down from a root, and the tree is nested no
deeper than there are visible categories. -/
theorem PageBuilder.categoryTree_ends (b : PageBuilder) (categories : List Value) :
    b.categoryTree categories = (MenuTree.ofCategories categories).map (MenuTree.toValue b) ∧
      (∀ t ∈ MenuTree.nodesOf (MenuTree.ofCategories categories),
        ∃ o, t.toValue b = .obj o ∧ t.Shows b o) ∧
      (∀ levels, (MenuEntry.visible categories).length < levels →
        MenuTree.levelWithin (MenuEntry.sorted (MenuEntry.ofCategories categories)) levels [] none =
          some (MenuTree.ofCategories categories)) ∧
      (∀ t ∈ MenuTree.nodesOf (MenuTree.ofCategories categories),
        (MenuEntry.visible categories)[t.entry.position]? = some t.entry.category) ∧
      (∀ w ∈ MenuTree.waysOf (MenuTree.ofCategories categories), w.Nodup) ∧
      MenuTree.depthOf (MenuTree.ofCategories categories) ≤ (MenuEntry.visible categories).length := by
  have hfollows := MenuTree.follows_ofCategories categories
  refine ⟨MenuTree.toValues_eq_map b _, fun t _ => t.exists_shows b,
    fun _ hlevels => MenuTree.levelWithin_ofCategories hlevels, hfollows.shown,
    fun w hw => ((hfollows.ways w).1 hw).nodup, ?_⟩
  exact (MenuTree.depthOf_le_iff _).2 fun w hw => ((hfollows.ways w).1 hw).length_le

/-- Two categories that have one identifier with a third and name it as their parent. Each is below
the other, and the tree is as deep as there are categories. -/
theorem PageBuilder.categoryTree_ends_in_cycle :
    let b : PageBuilder := ⟨{}, {}, {}⟩
    let categories : List Value := [
      .obj [("id", .str "x")], .obj [("id", .str "x"), ("parent_id", .str "x")],
      .obj [("id", .str "x"), ("parent_id", .str "x")]]
    let forest := MenuTree.ofCategories categories
    b.categoryTree categories = forest.map (MenuTree.toValue b) ∧
      MenuTree.levelWithin (MenuEntry.sorted (MenuEntry.ofCategories categories)) 4 [] none =
        some forest ∧
      MenuTree.waysOf forest = [[0], [0, 1], [0, 1, 2], [0, 2], [0, 2, 1]] ∧
      (∀ w ∈ MenuTree.waysOf forest, w.Nodup) ∧
      MenuTree.depthOf forest = 3 := by
  intro b categories forest
  obtain ⟨htree, -, hends, -, hnodup, -⟩ := b.categoryTree_ends categories
  have hlevels : (MenuEntry.visible categories).length < 4 := by decide
  have hways : MenuTree.waysOf (MenuTree.ofCategories categories) =
      [[0], [0, 1], [0, 1, 2], [0, 2], [0, 2, 1]] :=
    MenuTree.eq_of_map_levelWithin 4 (by decide) hlevels (by decide)
  have hdepth : MenuTree.depthOf (MenuTree.ofCategories categories) = 3 :=
    MenuTree.eq_of_map_levelWithin 4 (by decide) hlevels (by decide)
  exact ⟨htree, hends 4 hlevels, hways, hnodup, hdepth⟩

end Storefront
