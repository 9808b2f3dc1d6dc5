import Mathlib.Data.List.Basic
import Storefront.Filter.Filters
import Storefront.Proofs.Lookup
import Storefront.Proofs.Sorting

/-!
# What attribute filters offer

An attribute filter is a list made from a list in three steps: options that no product
answers to are dropped, the others are counted and marked, and a stable sort puts them
in the order of a number that they carry. What such a list shows is described by the
places of the items that it shows (`Listing`): every place whose item is kept occurs,
once, in a stated order. The three steps keep that description (`Listing.filterMap`,
`Listing.map`, `Listing.sorted`), and the attributes of a category are a listing of
listings (`FilterSource.toValue_listing`).

What it is for a product to carry a value is stated apart from the search for it
(`Attribute.Carries`). A product has its value of an attribute in one place: among its
attributes, and there in the first entry with the code if they are a list, or else as a
field of its own.
-/

namespace Storefront

/-! ## Listings -/

/-- **A listing of the items that have `P`**: the place of each of them occurs in `placed`, in the order
`before` and so only once, beside what shows the item. -/
structure Listing {α β : Type} (items : List α) (P : α → Prop) (before : Nat → Nat → Prop)
    (R : α → β → Prop) (placed : List (Nat × β)) : Prop where
  mem_iff : ∀ i, (∃ b, (i, b) ∈ placed) ↔ ∃ a ∈ items[i]?, P a
  ordered : placed.Pairwise fun p q => before p.1 q.1
  shows : ∀ p ∈ placed, ∃ a ∈ items[p.1]?, R a p.2

/-- **The order by a key**, and by place among items with the same one. -/
def Ahead {α : Type} (key : α → Int) (items : List α) (i j : Nat) : Prop :=
  ∃ a ∈ items[i]?, ∃ b ∈ items[j]?, key a < key b ∨ key a = key b ∧ i < j

namespace Listing

variable {α β γ : Type} {items : List α} {P : α → Prop} {before : Nat → Nat → Prop}
  {R : α → β → Prop} {placed : List (Nat × β)}

/-- What a function keeps is listed in the order of the list. -/
theorem filterMap (f : α → Option β) (items : List α) :
    ∃ placed, placed.map Prod.snd = items.filterMap f ∧
      Listing items (fun a => ∃ b, f a = some b) (· < ·) (fun a b => f a = some b) placed := by
  have hmem : ∀ {i b}, (i, b) ∈ items.zipIdx.filterMap (fun p => (f p.1).map (p.2, ·)) ↔
      ∃ a ∈ items[i]?, f a = some b := by
    intro i b
    simp only [List.mem_filterMap, Prod.exists, Option.map_eq_some_iff, Prod.mk.injEq,
      List.mem_zipIdx_iff_getElem?, Option.mem_def]
    constructor
    · rintro ⟨a, j, ha, c, hc, rfl, rfl⟩
      exact ⟨a, ha, hc⟩
    · rintro ⟨a, ha, hb⟩
      exact ⟨a, i, ha, b, hb, rfl, rfl⟩
  refine ⟨items.zipIdx.filterMap fun p => (f p.1).map (p.2, ·), ?_, ⟨fun i => ?_, ?_, ?_⟩⟩
  · have hsnd : (fun p : α × Nat => ((f p.1).map (p.2, ·)).map Prod.snd) = fun p => f p.1 := by
      funext p
      rw [Option.map_map]
      exact Option.map_id'
    rw [List.map_filterMap, hsnd]
    calc items.zipIdx.filterMap (fun p => f p.1) = (items.zipIdx.map Prod.fst).filterMap f :=
          List.filterMap_map.symm
      _ = items.filterMap f := by rw [List.zipIdx_map_fst]
  · constructor
    · rintro ⟨b, hb⟩
      obtain ⟨a, ha, hab⟩ := hmem.1 hb
      exact ⟨a, ha, b, hab⟩
    · rintro ⟨a, ha, b, hab⟩
      exact ⟨b, hmem.2 ⟨a, ha, hab⟩⟩
  · refine (pairwise_zipIdx items).filterMap _ fun p q hpq => ?_
    intro b hb c hc
    obtain ⟨-, -, rfl⟩ := Option.map_eq_some_iff.1 hb
    obtain ⟨-, -, rfl⟩ := Option.map_eq_some_iff.1 hc
    exact hpq
  · rintro ⟨i, b⟩ hp
    exact hmem.1 hp

/-- Each item may be shown in another way. -/
theorem map (h : Listing items P before R placed) (g : β → γ) {R' : α → γ → Prop}
    (hR : ∀ a b, R a b → R' a (g b)) :
    Listing items P before R' (placed.map fun p => (p.1, g p.2)) where
  mem_iff i := by
    rw [← h.mem_iff i]
    constructor
    · rintro ⟨c, hc⟩
      obtain ⟨⟨j, b⟩, hb, hpair⟩ := List.mem_map.1 hc
      cases hpair
      exact ⟨b, hb⟩
    · rintro ⟨b, hb⟩
      exact ⟨g b, List.mem_map_of_mem hb⟩
  ordered := List.pairwise_map.2 h.ordered
  shows := by
    rw [List.forall_mem_map]
    intro p hp
    obtain ⟨a, ha, hab⟩ := h.shows p hp
    exact ⟨a, ha, hR a p.2 hab⟩

theorem congr (h : Listing items P before R placed) {P' : α → Prop} (hP : ∀ a ∈ items, P a ↔ P' a) :
    Listing items P' before R placed where
  mem_iff i := by
    rw [h.mem_iff i]
    exact exists_congr fun a => and_congr_right fun ha => hP a (List.mem_of_getElem? ha)
  ordered := h.ordered
  shows := h.shows

/-- **A stable sort by a key** lists by the key, and by place where it is the same. -/
theorem sorted (h : Listing items P (· < ·) R placed) {key : α → Int} {order : β → Int}
    (hkey : ∀ a b, R a b → order b = key a) :
    Listing items P (Ahead key items) R (placed.mergeSort fun p q => order p.2 ≤ order q.2) where
  mem_iff i := by simpa only [List.mem_mergeSort] using h.mem_iff i
  ordered := by
    refine (pairwise_mergeSort_key (fun p : Nat × β => order p.2) h.ordered).imp_of_mem ?_
    intro p q hp hq hpq
    obtain ⟨a, ha, hap⟩ := h.shows p (List.mem_mergeSort.1 hp)
    obtain ⟨b, hb, hbq⟩ := h.shows q (List.mem_mergeSort.1 hq)
    rw [hkey a p.2 hap, hkey b q.2 hbq] at hpq
    exact ⟨a, ha, b, hb, hpq⟩
  shows p hp := h.shows p (List.mem_mergeSort.1 hp)

end Listing

/-! ## What a product carries -/

namespace Attribute

/-- **The text that an option or a value goes by**: a scalar by its own, an object by its value. -/
def identity? : Value → Option String
  | .obj option => optionValue? option
  | v => v.scalarText?

/-- **What a product lists under a code**: the entry of its attributes, or the value of the first of
its attributes with the code if they are a list. -/
inductive Lists (product : Object) (code : String) : Value → Prop
  | entry {attributes : Object} {v : Value} :
      product.get? "attributes" = some (.obj attributes) → attributes.get? code = some v →
      Lists product code v
  | item {items : List Value} {front behind : List Object} {a : Object} {v : Value} :
      product.get? "attributes" = some (.arr items) → Value.objects items = front ++ a :: behind →
      (∀ b ∈ front, b.text? "code" ≠ some code) → a.text? "code" = some code →
      a.get? "value" = some v → Lists product code v

/-- **What a product has under a code**: what it lists, or else its own field. -/
inductive Has (product : Object) (code : String) : Value → Prop
  | listed {v : Value} : Lists product code v → Has product code v
  | direct {v : Value} : (∀ w, ¬Lists product code w) → product.get? code = some v →
      Has product code v

/-- **A product carries a text**: what it has goes by it, or is a list with an item that does. -/
inductive Carries (product : Object) (code text : String) : Prop
  | single {v : Value} : Has product code v → identity? v = some text → Carries product code text
  | item {vs : List Value} {v : Value} : Has product code (.arr vs) → v ∈ vs →
      identity? v = some text → Carries product code text

variable {product : Object} {code text : String}

theorem isValue_iff (v : Value) : isValue v text = true ↔ identity? v = some text := by
  cases v with
  | obj option => exact beq_iff_eq
  | null | bool | num | str | arr => exact beq_iff_eq

theorem listed?_eq_some_iff {v : Value} : listed? product code = some v ↔ Lists product code v := by
  rw [listed?]
  constructor
  · intro h
    split at h
    · next attributes hattributes => exact .entry hattributes h
    · next items hitems =>
      obtain ⟨a, hfind, hv⟩ := Option.bind_eq_some_iff.1 h
      obtain ⟨hcode, front, behind, happ, hfront⟩ := List.find?_eq_some_iff_append.1 hfind
      refine .item hitems happ (fun b hb => ?_) (eq_of_beq hcode) hv
      simpa using hfront b hb
    · exact absurd h (Option.some_ne_none v).symm
  · intro h
    cases h with
    | entry hattributes hv => rw [hattributes]; exact hv
    | item hitems happ hfront hcode hv =>
      rw [hitems]
      refine Option.bind_eq_some_iff.2 ⟨_, List.find?_eq_some_iff_append.2 ?_, hv⟩
      exact ⟨beq_iff_eq.2 hcode, _, _, happ, fun b hb => by simpa using hfront b hb⟩

theorem has_iff {v : Value} :
    (listed? product code).or (product.get? code) = some v ↔ Has product code v := by
  rw [Option.or_eq_some_iff, Option.eq_none_iff_forall_ne_some]
  constructor
  · rintro (h | ⟨hnone, hv⟩)
    · exact .listed (listed?_eq_some_iff.1 h)
    · exact .direct (fun w hw => hnone w (listed?_eq_some_iff.2 hw)) hv
  · rintro (h | ⟨hnone, hv⟩)
    · exact .inl (listed?_eq_some_iff.2 h)
    · exact .inr ⟨fun w hw => hnone w (listed?_eq_some_iff.1 hw), hv⟩

/-- **The search finds what is carried.** -/
theorem carries_iff : carries product code text = true ↔ Carries product code text := by
  rw [carries]
  constructor
  · intro h
    split at h
    · next vs hvs =>
      obtain ⟨v, hv, htext⟩ := List.any_eq_true.1 h
      exact .item (has_iff.1 hvs) hv ((isValue_iff v).1 htext)
    · next hv => exact .single (has_iff.1 hv) ((isValue_iff _).1 h)
    · exact absurd h Bool.false_ne_true
  · intro h
    cases h with
    | item hvs hv htext =>
      rw [has_iff.2 hvs]
      exact List.any_eq_true.2 ⟨_, hv, (isValue_iff _).2 htext⟩
    | @single v hv htext =>
      rw [has_iff.2 hv]
      cases v with
      | arr vs => exact absurd htext (Option.some_ne_none text).symm
      | null | bool | num | str | obj => exact (isValue_iff _).2 htext

instance : Decidable (Carries product code text) := decidable_of_iff _ carries_iff

/-- **An option is kept** if it goes by a text, not the empty one, and some product carries it. -/
def Kept (products : List Object) (code : String) (option : Value) : Prop :=
  ∃ text, identity? option = some text ∧ text ≠ "" ∧ ∃ p ∈ products, Carries p code text

/-- Where an option is to stand: the `sort_order` of an object, and the default for a scalar. -/
def place : Value → Int
  | .obj option => Object.sortOrder option
  | _ => Object.defaultSortOrder

/-- **What is shown of an option**: its text, how many products carry it, whether it is selected, and
where it stands. -/
structure ShowsOption (products : List Object) (code : String) (chosen : List String)
    (option : Value) (text : String) (entry : Object) : Prop where
  identity : identity? option = some text
  value : entry.get? "value" = some (.str text)
  count : entry.get? "count" = some (.ofNat (products.countP fun p => Carries p code text))
  pos : 0 < products.countP fun p => Carries p code text
  active : entry.get? "active" = some (.bool (decide (text ∈ chosen)))
  order : entry.get? "sort_order" = some (.ofInt (place option))

theorem countP_carries (products : List Object) (code text : String) :
    (products.countP fun p => carries p code text) = products.countP fun p => Carries p code text :=
  List.countP_congr fun _ _ => carries_iff.trans decide_eq_true_iff.symm

end Attribute

/-! ## Options -/

namespace FilterOption

open Attribute

variable {locale : Locale} {code : String} {chosen : List String} {products : List Object}
  {option : Value} {o : FilterOption}

/-- An option that is no object goes by its own text and has no fields. -/
theorem scalar_or_object (option : Value) : (∃ fields, option = .obj fields) ∨
    identity? option = option.scalarText? ∧ place option = Object.defaultSortOrder ∧
      ∀ locale, read? locale option = option.filledText?.map fun value => (value, [], []) := by
  cases option with
  | obj fields => exact .inl ⟨fields, rfl⟩
  | null | bool | num | str | arr => exact .inr ⟨rfl, rfl, fun _ => rfl⟩

/-- **An option is read** when it goes by a text that is not empty. -/
theorem exists_read?_iff {text : String} :
    (∃ raw labels, read? locale option = some (text, raw, labels)) ↔
      identity? option = some text ∧ text ≠ "" := by
  obtain ⟨fields, rfl⟩ | ⟨hidentity, -, hread⟩ := scalar_or_object option
  · have hfilled : optionValue? fields = some text → text ≠ "" := fun h =>
      bne_iff_ne.1 (Option.filter_eq_some_iff.1 h).2
    rw [identity?, and_iff_left_of_imp hfilled]
    simp [read?]
  · rw [hidentity, hread]
    simp [Value.filledText?, Option.filter_eq_some_iff]

theorem sortOrder_of_read? {text : String} {raw : Object} {labels : List String}
    (h : read? locale option = some (text, raw, labels)) : raw.sortOrder = place option := by
  obtain ⟨fields, rfl⟩ | ⟨-, hplace, hread⟩ := scalar_or_object option
  · obtain ⟨value, -, hraw⟩ := Option.map_eq_some_iff.1 h
    cases hraw
    rfl
  · rw [hread] at h
    obtain ⟨value, -, hraw⟩ := Option.map_eq_some_iff.1 h
    cases hraw
    exact hplace.symm

/-- **What becomes of an option** that is read and that some product carries. -/
theorem ofValue?_eq_some_iff :
    ofValue? locale code chosen products option = some o ↔
      ∃ text raw labels, read? locale option = some (text, raw, labels) ∧
        0 < (products.countP fun p => carries p code text) ∧
        o = { raw, value := text, label := firstFilled labels text,
              count := products.countP fun p => carries p code text, order := raw.sortOrder,
              active := chosen.contains text } := by
  rw [ofValue?]
  cases hread : read? locale option with
  | none => simp
  | some read =>
    obtain ⟨text, raw, labels⟩ := read
    dsimp only
    cases hcount : products.countP fun p => carries p code text with
    | zero =>
      constructor
      · exact fun h => absurd h (Option.some_ne_none o).symm
      · rintro ⟨_, _, _, heq, hpos, -⟩
        cases heq
        exact absurd hcount (Nat.ne_of_gt hpos)
    | succ n =>
      constructor
      · intro h
        cases h
        exact ⟨text, raw, labels, rfl, hcount ▸ Nat.succ_pos n, by rw [hcount]⟩
      · rintro ⟨_, _, _, heq, -, rfl⟩
        cases heq
        rw [hcount]
        rfl

theorem exists_ofValue?_iff :
    (∃ o, ofValue? locale code chosen products option = some o) ↔ Kept products code option := by
  constructor
  · rintro ⟨o, h⟩
    obtain ⟨text, raw, labels, hread, hpos, -⟩ := ofValue?_eq_some_iff.1 h
    obtain ⟨hidentity, hne⟩ := exists_read?_iff.1 ⟨raw, labels, hread⟩
    obtain ⟨p, hp, hcarries⟩ := List.countP_pos_iff.1 hpos
    exact ⟨text, hidentity, hne, p, hp, carries_iff.1 hcarries⟩
  · rintro ⟨text, hidentity, hne, p, hp, hcarries⟩
    obtain ⟨raw, labels, hread⟩ := exists_read?_iff.2 ⟨hidentity, hne⟩
    have hpos : 0 < products.countP fun p => carries p code text :=
      List.countP_pos_iff.2 ⟨p, hp, carries_iff.2 hcarries⟩
    exact ⟨_, ofValue?_eq_some_iff.2 ⟨text, raw, labels, hread, hpos, rfl⟩⟩

theorem order_of_ofValue? (h : ofValue? locale code chosen products option = some o) :
    o.order = place option := by
  obtain ⟨text, raw, labels, hread, -, rfl⟩ := ofValue?_eq_some_iff.1 h
  exact sortOrder_of_read? hread

/-- The fields that a filter sets on an option. -/
def fields (o : FilterOption) : Object :=
  [("active", .bool o.active), ("value", .str o.value), ("label", .str o.label),
    ("count", .ofNat o.count), ("sort_order", .ofInt o.order)]

theorem get?_of_mem_fields {key : String} {v : Value} (h : (key, v) ∈ o.fields) :
    (o.raw.extend o.fields).get? key = some v :=
  Object.get?_extend_of_mem o.raw (by simp [Object.Distinct, fields]) h

/-- **An option is shown with its text, its count, its mark and its place.** -/
theorem shows_of_ofValue? (h : ofValue? locale code chosen products option = some o) :
    ∃ text entry, o.toValue = .obj entry ∧ ShowsOption products code chosen option text entry := by
  obtain ⟨text, raw, labels, hread, hpos, rfl⟩ := ofValue?_eq_some_iff.1 h
  exact ⟨text, _, rfl, {
    identity := (exists_read?_iff.1 ⟨raw, labels, hread⟩).1
    value := get?_of_mem_fields (by simp [fields])
    count := get?_of_mem_fields (by simp [fields, countP_carries])
    pos := countP_carries products code text ▸ hpos
    active := get?_of_mem_fields (by simp [fields])
    order := get?_of_mem_fields (by simp [fields, sortOrder_of_read? hread]) }⟩

end FilterOption

/-! ## Attributes -/

namespace AttributeFilter

open Attribute

/-- The code of an attribute: its `code`, or else its `slug`, neither of them blank. -/
def codeOf? (entity : Object) : Option String := (entity.text? "code").or (entity.text? "slug")

/-- **An attribute is answered to** if it has a code and one of its options is kept. -/
def Answered (products : List Object) (entity : Object) : Prop :=
  ∃ code, codeOf? entity = some code ∧ ∃ option ∈ offered entity, Kept products code option

/-- **What is shown of an attribute**: its code, and a listing of the options that are kept, in the
order of where they are to stand. -/
structure Shows (products : List Object) (selected entity : Object) (code : String)
    (placed : List (Nat × Value)) (entry : Object) : Prop where
  codeOf : codeOf? entity = some code
  codeEntry : entry.get? "code" = some (.str code)
  options : entry.get? "options" = some (.arr (placed.map Prod.snd))
  listing : Listing (offered entity) (Kept products code) (Ahead place (offered entity))
    (fun option shown => ∃ text fields, shown = .obj fields ∧
      ShowsOption products code (selectedValues (selected.get? code)) option text fields) placed

variable {locale : Locale} {products : List Object} {selected entity : Object} {f : AttributeFilter}

/-- The options of an attribute that are kept, as they come. -/
def keptOptions (locale : Locale) (products : List Object) (selected entity : Object) (code : String) :
    List FilterOption :=
  (offered entity).filterMap
    (FilterOption.ofValue? locale code (selectedValues (selected.get? code)) products)

theorem keptOptions_ne_nil_iff {code : String} :
    keptOptions locale products selected entity code ≠ [] ↔
      ∃ option ∈ offered entity, Kept products code option := by
  simp only [keptOptions, ne_eq, List.filterMap_eq_nil_iff, not_forall, exists_prop,
    Option.ne_none_iff_exists', FilterOption.exists_ofValue?_iff]

/-- **What becomes of an attribute** that has a code and keeps options. -/
theorem ofObject?_eq_some_iff :
    ofObject? locale products selected entity = some f ↔
      ∃ code, codeOf? entity = some code ∧ keptOptions locale products selected entity code ≠ [] ∧
        f = { code, name := FilterOption.firstFilled [entity.translated "name" locale] code,
              options := (keptOptions locale products selected entity code).mergeSort
                fun a b => a.order ≤ b.order } := by
  rw [ofObject?, codeOf?]
  cases hcode : (entity.text? "code").or (entity.text? "slug") with
  | none =>
    constructor
    · exact fun h => absurd h (Option.some_ne_none f).symm
    · rintro ⟨_, heq, -⟩
      exact absurd heq (Option.some_ne_none _).symm
  | some code =>
    dsimp only
    rw [← keptOptions]
    cases hkept : keptOptions locale products selected entity code with
    | nil =>
      constructor
      · exact fun h => absurd h (Option.some_ne_none f).symm
      · rintro ⟨_, heq, hne, -⟩
        cases heq
        exact absurd hkept hne
    | cons o options =>
      constructor
      · intro h
        cases h
        exact ⟨code, rfl, hkept ▸ List.cons_ne_nil o options, by rw [hkept]⟩
      · rintro ⟨_, heq, -, rfl⟩
        cases heq
        rw [hkept]

theorem exists_ofObject?_iff :
    (∃ f, ofObject? locale products selected entity = some f) ↔ Answered products entity := by
  constructor
  · rintro ⟨f, h⟩
    obtain ⟨code, hcode, hkept, -⟩ := ofObject?_eq_some_iff.1 h
    exact ⟨code, hcode, keptOptions_ne_nil_iff.1 hkept⟩
  · rintro ⟨code, hcode, hkept⟩
    exact ⟨_, ofObject?_eq_some_iff.2 ⟨code, hcode, keptOptions_ne_nil_iff.2 hkept, rfl⟩⟩

/-- **An attribute is shown with a listing of its options.** -/
theorem shows_of_ofObject? (h : ofObject? locale products selected entity = some f) :
    ∃ code placed entry, f.toValue = .obj entry ∧ Shows products selected entity code placed entry := by
  obtain ⟨code, hcode, -, rfl⟩ := ofObject?_eq_some_iff.1 h
  obtain ⟨placed, hplaced, hlisting⟩ := Listing.filterMap
    (FilterOption.ofValue? locale code (selectedValues (selected.get? code)) products) (offered entity)
  have hsorted := hlisting.sorted fun _ _ => FilterOption.order_of_ofValue?
  have hoptions : (placed.mergeSort fun p q => p.2.order ≤ q.2.order).map Prod.snd =
      (keptOptions locale products selected entity code).mergeSort fun a b => a.order ≤ b.order := by
    rw [keptOptions, ← hplaced]
    exact List.map_mergeSort fun _ _ _ _ => rfl
  refine ⟨code, _, _, rfl, {
    codeOf := hcode
    codeEntry := rfl
    options := ?_
    listing := (hsorted.congr fun _ _ => FilterOption.exists_ofValue?_iff).map
      FilterOption.toValue fun _ _ => FilterOption.shows_of_ofValue? }⟩
  rw [← hoptions, List.map_map, List.map_map]
  rfl

end AttributeFilter

namespace FilterSource

/-- **The attribute filters are a listing of listings.** -/
theorem toValue_listing (s : FilterSource) (locale : Locale) :
    ∃ placed : List (Nat × Value),
      s.toValue locale = .obj [("price", s.price), ("attributes", .arr (placed.map Prod.snd))] ∧
      Listing (Value.objects s.attributes) (AttributeFilter.Answered (Value.objects s.products)) (· < ·)
        (fun entity shown => ∃ code options entry, shown = .obj entry ∧
          AttributeFilter.Shows (Value.objects s.products) s.selected entity code options entry)
        placed := by
  obtain ⟨placed, hplaced, hlisting⟩ := Listing.filterMap
    (AttributeFilter.ofObject? locale (Value.objects s.products) s.selected)
    (Value.objects s.attributes)
  refine ⟨placed.map fun p => (p.1, p.2.toValue), ?_,
    (hlisting.congr fun _ _ => AttributeFilter.exists_ofObject?_iff).map AttributeFilter.toValue
      fun _ _ => AttributeFilter.shows_of_ofObject?⟩
  rw [toValue, attributeFilters, ← hplaced, List.map_map, List.map_map]
  rfl

/-- A category with one product and one colour to choose. -/
def ofColor (option : Value) (product : Object) : FilterSource where
  filters := none
  attributes := [.obj [("code", .str "color"), ("options", .arr [option])]]
  products := [.obj product]
  selected := []

/-- **What is written on a product does not always count**: an empty text never does, a field of its
own does not when the product lists another value under the code, and of several entries with the
code only the first does. -/
theorem attributeFilters_pass_over :
    (Value.scalarText? (.str "") = some "" ∧
      (ofColor (.str "") [("color", .str "")]).attributeFilters .english = []) ∧
    (Object.get? [("attributes", .obj [("color", .str "blue")]), ("color", .str "red")] "color" =
        some (.str "red") ∧
      (ofColor (.str "red") [("attributes", .obj [("color", .str "blue")]),
        ("color", .str "red")]).attributeFilters .english = []) ∧
    (ofColor (.str "blue") [("attributes", .arr [.obj [("code", .str "color"), ("value", .str "red")],
        .obj [("code", .str "color"), ("value", .str "blue")]])]).attributeFilters .english = [] := by
  refine ⟨⟨rfl, ?_⟩, ⟨rfl, ?_⟩, ?_⟩
  · exact List.isEmpty_iff.1 (by decide +kernel)
  · exact List.isEmpty_iff.1 (by decide +kernel)
  · exact List.isEmpty_iff.1 (by decide +kernel)

end FilterSource

end Storefront
