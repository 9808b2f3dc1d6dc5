import Storefront.Proofs.Agreement

/-!
# When items hide nothing

Whether the fields of a loop's item are looked up before all other variables or
behind them is a setting of the page. It decides about names that an item shares
with the page or with the loop, and about nothing else: when no item in the data
has a field named like a variable of the page or of a loop, the setting does not
show (`Renderer.template_withItemShadowing`).

The reason is that two sets of names stay apart while loops are entered
(`Frame.Separated`). Items come from lists in the data, which a path reaches step
by step from a variable (`Value.itemKeys_step`), so the fields of every item that
becomes a frame have names of their own. Every name then is looked up in the
frames of items only or in the others only, and among these both orders are the
same. Two nested loops over the same kind of items do hide fields of one another,
and they do so alike in both orders.
-/

namespace Storefront

/-! ## The fields of items -/

namespace Value

mutual

/-- **The names that items bring along**: the keys of all objects that are an item of a list
anywhere in a value. -/
def itemKeys : Value → List String
  | .arr items => itemsKeys items
  | .obj entries => entriesKeys entries
  | .null => []
  | .bool _ => []
  | .num _ => []
  | .str _ => []

/-- The names that the items of a list bring along, and those in them. -/
def itemsKeys : List Value → List String
  | [] => []
  | v :: vs => (v.object?.getD []).map Prod.fst ++ itemKeys v ++ itemsKeys vs

/-- The names that items in the values of entries bring along. -/
def entriesKeys : List (String × Value) → List String
  | [] => []
  | (_, v) :: rest => itemKeys v ++ entriesKeys rest

end

theorem itemKeys_subset_of_mem_items {items : List Value} {v : Value} (h : v ∈ items) :
    v.itemKeys ⊆ (arr items).itemKeys ∧ (v.object?.getD []).map Prod.fst ⊆ (arr items).itemKeys := by
  rw [itemKeys]
  induction items with
  | nil => exact absurd h List.not_mem_nil
  | cons w items ih =>
    rw [itemsKeys]
    obtain rfl | h := List.mem_cons.1 h
    · exact ⟨fun _ hk => List.mem_append_left _ (List.mem_append_right _ hk),
        fun _ hk => List.mem_append_left _ (List.mem_append_left _ hk)⟩
    · exact ⟨fun _ hk => List.mem_append_right _ ((ih h).1 hk),
        fun _ hk => List.mem_append_right _ ((ih h).2 hk)⟩

theorem itemKeys_subset_of_mem_entries {entries : List (String × Value)} {e : String × Value}
    (h : e ∈ entries) : e.2.itemKeys ⊆ entriesKeys entries := by
  induction entries with
  | nil => exact absurd h List.not_mem_nil
  | cons d entries ih =>
    rw [entriesKeys]
    obtain rfl | h := List.mem_cons.1 h
    · exact fun _ hk => List.mem_append_left _ hk
    · exact fun _ hk => List.mem_append_right _ (ih h hk)

/-- **A step into a value leaves nothing behind that was not there.** -/
theorem itemKeys_step {v w : Value} {segment : List Char} (h : Path.step v segment = some w) :
    w.itemKeys ⊆ v.itemKeys := by
  cases v with
  | obj entries =>
    rw [itemKeys]
    exact itemKeys_subset_of_mem_entries (Object.mem_of_get? h)
  | arr items =>
    obtain ⟨index, -, hitem⟩ := Option.bind_eq_some_iff.1 h
    exact (itemKeys_subset_of_mem_items (List.mem_of_getElem? hitem)).1
  | null | bool | num | str => exact absurd h.symm (Option.some_ne_none w)

end Value

/-! ## Separated names -/

/-- **A frame whose names are apart from those of items**: what is in its variables brings along
other names than `names`, and its own are among them unless it is an item itself. -/
structure Frame.Separated (names : List String) (f : Frame) : Prop where
  /-- Items in its variables have other names. -/
  values : ∀ e ∈ f.vars, ∀ key ∈ e.2.itemKeys, key ∉ names
  /-- Its variables have one of the names, except for those of an item. -/
  mem_iff : ∀ e ∈ f.vars, (e.1 ∈ names ↔ f.isItem = false)

theorem Frame.Separated.get?_eq_none {names : List String} {f : Frame} (h : f.Separated names)
    {key : String} (hkey : ¬(key ∈ names ↔ f.isItem = false)) : f.vars.get? key = none := by
  rw [Object.get?_eq_none_iff]
  intro hmem
  obtain ⟨e, he, rfl⟩ := List.mem_map.1 hmem
  exact hkey (h.mem_iff e he)

namespace Context

/-- **Both orders of looking up agree when names are separated.** -/
theorem agree_withItemShadowing {names : List String} {ctx : Context}
    (h : ∀ f ∈ ctx.frames, f.Separated names) :
    (ctx.withItemShadowing true).Agree (ctx.withItemShadowing false) := by
  intro key
  have hshadow : (ctx.withItemShadowing true).get? key = Frame.lookup ctx.frames key := rfl
  have hbehind : (ctx.withItemShadowing false).get? key =
      (Frame.lookup (ctx.frames.filter (!·.isItem)) key).or
        (Frame.lookup (ctx.frames.filter (·.isItem)) key) := Frame.lookup_append _ _ key
  rw [hshadow, hbehind]
  by_cases hkey : key ∈ names
  · have hitem : ∀ f ∈ ctx.frames, f.isItem = true → f.vars.get? key = none := fun f hf hf' =>
      (h f hf).get?_eq_none (by simp [hkey, hf'])
    rw [Frame.lookup_filter_eq_none hitem, Option.or_none]
    exact (Frame.lookup_filter fun f hf hf' => hitem f hf (by simpa using hf')).symm
  · have hother : ∀ f ∈ ctx.frames, f.isItem = false → f.vars.get? key = none := fun f hf hf' =>
      (h f hf).get?_eq_none (by simp [hkey, hf'])
    rw [Frame.lookup_filter_eq_none fun f hf hf' => hother f hf (by simpa using hf'), Option.none_or]
    exact (Frame.lookup_filter hother).symm

end Context

namespace Renderer

/-- The names that a loop gives to its state. -/
def loopNames : List String := ["@index", "@first", "@last", "this"]

section Separated

variable {names : List String}

/-- A frame of other variables than an item's. -/
theorem separated_other {vars : Object} {scope : Scope} (hscope : scope ≠ .item)
    (hvalues : ∀ key ∈ Value.entriesKeys vars, key ∉ names) (hkeys : vars.map Prod.fst ⊆ names) :
    Frame.Separated names ⟨scope, vars⟩ where
  values _ he key hkey := hvalues key (Value.itemKeys_subset_of_mem_entries he hkey)
  mem_iff _ he := iff_of_true (hkeys (List.mem_map_of_mem he)) (beq_false_of_ne hscope)

/-- The state of a loop holds nothing but its item. -/
theorem separated_iteration (hnames : loopNames ⊆ names) (index count : Nat) {item : Value}
    (hitem : ∀ key ∈ item.itemKeys, key ∉ names) :
    Frame.Separated names ⟨.iteration, iteration index count item⟩ := by
  have hvalues : Value.entriesKeys (iteration index count item) = item.itemKeys :=
    List.append_nil _
  exact separated_other Scope.noConfusion (by rwa [hvalues]) hnames

/-- The fields of an item. -/
theorem separated_item {fields : Object} (hkeys : ∀ key ∈ fields.map Prod.fst, key ∉ names)
    (hvalues : ∀ key ∈ Value.entriesKeys fields, key ∉ names) :
    Frame.Separated names ⟨.item, fields⟩ where
  values _ he key hkey := hvalues key (Value.itemKeys_subset_of_mem_entries he hkey)
  mem_iff e he := iff_of_false (hkeys e.1 (List.mem_map_of_mem he)) Bool.noConfusion

/-- **Names stay separated in loops.** -/
theorem separated_enter (hnames : loopNames ⊆ names) {ctx : Context}
    (h : ∀ f ∈ ctx.frames, f.Separated names) {items : List Value}
    (hitems : ∀ key ∈ (Value.arr items).itemKeys, key ∉ names) {item : Value} (hitem : item ∈ items)
    (index count : Nat) : ∀ f ∈ (enter ctx index count item).frames, f.Separated names := by
  obtain ⟨hvalues, hkeys⟩ := Value.itemKeys_subset_of_mem_items hitem
  have hiteration : Frame.Separated names ⟨.iteration, iteration index count item⟩ :=
    separated_iteration hnames index count fun key hkey => hitems key (hvalues hkey)
  cases item with
  | obj fields =>
    rw [Value.itemKeys] at hvalues
    have hfields : Frame.Separated names ⟨.item, fields⟩ :=
      separated_item (fun key hkey => hitems key (hkeys hkey))
        fun key hkey => hitems key (hvalues hkey)
    exact List.forall_mem_cons.2 ⟨hfields, List.forall_mem_cons.2 ⟨hiteration, h⟩⟩
  | null | bool | num | str | arr => exact List.forall_mem_cons.2 ⟨hiteration, h⟩

/-- Contexts with separated names are rendered alike whether items hide other variables or not. -/
theorem bisimulation_withItemShadowing (hnames : loopNames ⊆ names) :
    Bisimulation fun a b => ∃ ctx : Context, (∀ f ∈ ctx.frames, f.Separated names) ∧
      a = ctx.withItemShadowing true ∧ b = ctx.withItemShadowing false where
  agree := by
    rintro _ _ ⟨ctx, h, rfl, rfl⟩
    exact Context.agree_withItemShadowing h
  enter := by
    rintro _ _ ⟨ctx, h, rfl, rfl⟩ path items hresolve index item hitem
    have hvars : ∀ f ∈ (ctx.withItemShadowing true).frames, ∀ e ∈ f.vars,
        ∀ key ∈ e.2.itemKeys, key ∉ names := fun f hf => (h f hf).values
    have hitems : ∀ key ∈ (Value.arr items).itemKeys, key ∉ names :=
      @Context.resolve_induction (fun v => ∀ key ∈ v.itemKeys, key ∉ names)
        (fun v segment w hv hw key hkey => hv key (Value.itemKeys_step hw hkey)) _ hvars _ _ hresolve
    refine ⟨enter ctx index items.length item,
      separated_enter hnames h hitems (List.mem_of_getElem? hitem) index items.length, ?_, ?_⟩
    · rw [enter_eq_under, enter_eq_under]
      rfl
    · rw [enter_eq_under, enter_eq_under]
      rfl

end Separated

/-- **Whether items hide other variables shows only where names collide.** When no object that is an
item of a list anywhere in the data has a key that is a variable of the page or of a loop, every
template is rendered alike with both settings. -/
theorem template_withItemShadowing {base page : Object}
    (h : ∀ key ∈ Value.entriesKeys base ++ Value.entriesKeys page,
      key ∉ base.map Prod.fst ++ page.map Prod.fst ++ loopNames)
    (r : Renderer) (t : Template) :
    r.template t ((Context.ofLayers base page).withItemShadowing true) =
      r.template t ((Context.ofLayers base page).withItemShadowing false) := by
  have hpage : Frame.Separated (base.map Prod.fst ++ page.map Prod.fst ++ loopNames) ⟨.page, page⟩ :=
    separated_other Scope.noConfusion (fun key hkey => h key (List.mem_append_right _ hkey))
      fun _ hkey => List.mem_append_left _ (List.mem_append_right _ hkey)
  have hbase : Frame.Separated (base.map Prod.fst ++ page.map Prod.fst ++ loopNames) ⟨.base, base⟩ :=
    separated_other Scope.noConfusion (fun key hkey => h key (List.mem_append_left _ hkey))
      fun _ hkey => List.mem_append_left _ (List.mem_append_left _ hkey)
  have hframes : ∀ f ∈ (Context.ofLayers base page).frames,
      f.Separated (base.map Prod.fst ++ page.map Prod.fst ++ loopNames) :=
    List.forall_mem_cons.2 ⟨hpage, List.forall_mem_singleton.2 hbase⟩
  exact (bisimulation_withItemShadowing (List.subset_append_right _ _)).template r t
    ⟨_, hframes, rfl, rfl⟩

/-- Loops in one another, over items that share a field with each other but none with the page. -/
theorem template_withItemShadowing_nested :
    let base : Object := [("store", .str "shop")]
    let page : Object := [("rows", .arr [
      .obj [("name", .str "first"), ("cells", .arr [.obj [("name", .str "inner")], .str "plain"])],
      .obj [("name", .str "second")]])]
    let t : Template := ⟨[.loop "rows" [.loop "cells" [.variable "name" false, .variable "this" false,
      .variable "store" false] "" 1, .variable "name" false] "" 1], []⟩
    (∀ key ∈ Value.entriesKeys base ++ Value.entriesKeys page,
      key ∉ base.map Prod.fst ++ page.map Prod.fst ++ loopNames) ∧
      ∀ r : Renderer, r.template t ((Context.ofLayers base page).withItemShadowing true) =
        r.template t ((Context.ofLayers base page).withItemShadowing false) := by
  intro base page t
  have hnames : ∀ key ∈ Value.entriesKeys base ++ Value.entriesKeys page,
      key ∉ base.map Prod.fst ++ page.map Prod.fst ++ loopNames := by decide
  exact ⟨hnames, fun r => template_withItemShadowing hnames r t⟩

end Renderer

end Storefront
