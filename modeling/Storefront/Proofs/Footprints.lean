import Mathlib.Data.List.Basic
import Storefront.Proofs.Exhibits

/-!
# Products displayed twice

What is written into a product for display is read from the product itself, and a
product that is for display already is a product, too. Nothing changes when it is made
ready for display once more (`PageBuilder.product_idempotent`), for two reasons. Most of
what is written is read from names under which nothing is written, so it is enough to know
which names a reading looks at (`Object.ReadsOnly`). The texts and the picture are stored
back where they are read first; there a text that is found is found again, and where
none was, what was stored is blank and the search goes on as before.

Entries are written in place or added at the end, so that all that the raw product has
stays where it was.
-/

namespace Storefront

/-! ## Writing over entries -/

namespace Object

variable {o more : Object} {key field : String} {v w : Value}

/-- What is there already may be written again. -/
theorem insert_of_get? (h : o.get? key = some v) : o.insert key v = o := by
  induction o with
  | nil => exact absurd h.symm (Option.some_ne_none v)
  | cons e rest ih =>
    obtain ⟨k, w⟩ := e
    by_cases hk : k = key
    · subst hk
      rw [get?_cons_self] at h
      rw [insert, if_pos rfl, Option.some.inj h]
    · rw [get?_cons_of_ne hk] at h
      rw [insert, if_neg hk, ih h]

theorem extend_of_get? (h : ∀ e ∈ more, o.get? e.1 = some e.2) : o.extend more = o := by
  induction more with
  | nil => rfl
  | cons e more ih =>
    obtain ⟨he, hmore⟩ := List.forall_mem_cons.1 h
    have hstep : o.extend (e :: more) = (o.insert e.1 e.2).extend more := rfl
    rw [hstep, insert_of_get? he, ih hmore]

/-- **Writing over an object twice** is writing over it once. -/
theorem extend_extend (o : Object) (h : more.Distinct) : (o.extend more).extend more = o.extend more :=
  extend_of_get? fun _ he => get?_extend_of_mem o h he

/-- **An entry that is there may be written over before or after another one.** -/
theorem insert_comm (hne : key ≠ field) (hhas : o.has field = true) :
    (o.insert field w).insert key v = (o.insert key v).insert field w := by
  induction o with
  | nil => cases hhas
  | cons e rest ih =>
    obtain ⟨k, u⟩ := e
    by_cases hfield : k = field
    · subst hfield
      rw [insert, if_pos rfl, insert, if_neg hne.symm, insert, if_neg hne.symm, insert, if_pos rfl]
    · have hrest : has rest field = true := by
        rwa [has, get?_cons_of_ne hfield] at hhas
      by_cases hkey : k = key
      · subst hkey
        rw [insert, if_neg hfield, insert, if_pos rfl, insert, if_pos rfl, insert, if_neg hfield]
      · rw [insert, if_neg hfield, insert, if_neg hkey, insert, if_neg hkey, insert, if_neg hfield,
          ih hrest]

theorem extend_insert (hnot : field ∉ more.map Prod.fst) (hhas : o.has field = true) :
    (o.insert field w).extend more = (o.extend more).insert field w := by
  induction more generalizing o with
  | nil => rfl
  | cons e more ih =>
    rw [List.map_cons, List.mem_cons, not_or] at hnot
    obtain ⟨hne, hmore⟩ := hnot
    have hstill : (o.insert e.1 e.2).has field = true := by
      rwa [has, get?_insert, if_neg hne]
    have hstep : (o.insert field w).extend (e :: more) = ((o.insert field w).insert e.1 e.2).extend more := rfl
    rw [hstep, insert_comm (Ne.symm hne) hhas]
    exact ih hmore hstill

/-- An entry stays in its place when another key is written. -/
theorem getElem?_insert {i : Nat} {k : String} {w : Value} (h : o[i]? = some (k, w)) (hne : k ≠ key) :
    (o.insert key v)[i]? = some (k, w) := by
  induction o generalizing i with
  | nil => exact absurd h.symm (Option.some_ne_none _)
  | cons e rest ih =>
    by_cases he : e.1 = key
    · rw [insert, if_pos he]
      cases i with
      | zero =>
        have hhead : e = (k, w) := Option.some.inj h
        rw [hhead] at he
        exact absurd he hne
      | succ i => exact h
    · rw [insert, if_neg he]
      cases i with
      | zero => exact h
      | succ i => exact ih h

theorem getElem?_extend {i : Nat} {k : String} {w : Value} (h : o[i]? = some (k, w))
    (hnot : k ∉ more.map Prod.fst) : (o.extend more)[i]? = some (k, w) := by
  induction more generalizing o with
  | nil => exact h
  | cons e more ih =>
    rw [List.map_cons, List.mem_cons, not_or] at hnot
    exact ih (getElem?_insert h hnot.1) hnot.2

/-- **All keys stay where they are**, and others come behind them. -/
theorem keys_prefix_extend (o more : Object) : o.map Prod.fst <+: (o.extend more).map Prod.fst := by
  induction more generalizing o with
  | nil => exact List.prefix_rfl
  | cons e more ih =>
    have hstep : o.map Prod.fst <+: (o.insert e.1 e.2).map Prod.fst := by
      rw [keys_insert]
      split
      · exact List.prefix_rfl
      · exact List.prefix_append _ _
    exact hstep.trans (ih (o.insert e.1 e.2))

/-! ## What a reading looks at -/

/-- **A reading of objects that looks at these keys only.** -/
def ReadsOnly {α : Type} (keys : List String) (read : Object → α) : Prop :=
  ∀ o o' : Object, (∀ key ∈ keys, o.get? key = o'.get? key) → read o = read o'

/-- What is read from other names does not change. -/
theorem ReadsOnly.insert {α : Type} {keys : List String} {read : Object → α} (h : ReadsOnly keys read)
    (hkey : field ∉ keys) (o : Object) (v : Value) : read (o.insert field v) = read o := by
  refine h _ _ fun key hmem => ?_
  rw [get?_insert, if_neg]
  rintro rfl
  exact hkey hmem

/-- **What is found is found again where it was stored**, if a text that is there is what is found.
What is stored may be blank, and then it is passed over as what was there before. -/
theorem find_of_get? (find : Option String → String) {o o' : Object} {key : String}
    (hfind : ∀ s, Text.isBlankText s = false → find (some s) = s)
    (h : o'.get? key = some (.str (find (o.text? key)))) : find (o'.text? key) = find (o.text? key) := by
  have hstored : o'.text? key = (some (find (o.text? key))).filter fun s => !Text.isBlankText s := by
    rw [text?, getStr?, h]
  cases hblank : Text.isBlankText (find (o.text? key)) with
  | false => rw [hstored, Option.filter_some_pos (by rw [hblank]; rfl), hfind _ hblank]
  | true =>
    rw [hstored, Option.filter_some_neg (by rw [hblank]; rfl)]
    cases htext : o.text? key with
    | none => rfl
    | some s =>
      -- a text that was there is not blank, and would have been found
      have hs : Text.isBlankText s = false := Bool.not_eq_true' _ ▸ (Option.filter_eq_some_iff.1 htext).2
      rw [htext, hfind s hs, hs] at hblank
      exact absurd hblank Bool.false_ne_true

end Object

/-! ## What decorations read -/

open Object (ReadsOnly)

theorem Stock.readsOnly_isOut :
    ReadsOnly ["infinite_stock", "manage_stock", "stock_quantity", "allow_backorders"] Stock.isOut := by
  intro o o' h
  obtain ⟨hinfinite, hmanaged, hquantity, hbackorders, -⟩ := by simpa only [List.forall_mem_cons] using h
  unfold isOut isInfinite isUnmanaged quantity? allowsBackorders Object.number? Object.flag
  rw [hinfinite, hmanaged, hquantity, hbackorders]

theorem StockLabeler.readsOnly_label? (l : StockLabeler) :
    ReadsOnly ["type", "infinite_stock", "manage_stock", "stock_quantity", "low_stock_threshold"]
      l.label? := by
  intro o o' h
  obtain ⟨htype, hinfinite, hmanaged, hquantity, hthreshold, -⟩ := by
    simpa only [List.forall_mem_cons] using h
  unfold label? assess Stock.isInfinite Stock.isUnmanaged Stock.quantity? Object.text? Object.getStr?
    Object.number? Object.flag
  rw [htype, hinfinite, hmanaged, hquantity, hthreshold]

namespace PageBuilder

theorem readsOnly_translated (b : PageBuilder) (field : String) :
    ReadsOnly ["translations", field] (b.translated · field) := by
  intro o o' h
  obtain ⟨htables, hfield, -⟩ := by simpa only [List.forall_mem_cons] using h
  show b.translated o field = b.translated o' field
  unfold translated Object.translated Object.getObj? Object.text? Object.getStr?
  rw [htables, hfield]

theorem readsOnly_textEntries (b : PageBuilder) (field : String) :
    ReadsOnly ["translations", field] (b.textEntries · field) := by
  intro o o' h
  have hfield : o.get? field = o'.get? field := h field (List.mem_cons_of_mem _ List.mem_cons_self)
  have htext : b.translated o field = b.translated o' field := b.readsOnly_translated field o o' h
  show b.textEntries o field = b.textEntries o' field
  rw [textEntries, textEntries, Object.has, Object.has, hfield, htext]

theorem readsOnly_imageUrl (b : PageBuilder) :
    ReadsOnly ["image_url", "image", "images"] b.imageUrl := by
  intro o o' h
  obtain ⟨hurl, himage, himages, -⟩ := by simpa only [List.forall_mem_cons] using h
  unfold imageUrl Object.text? Object.getStr? Object.getList
  rw [hurl, himage, himages]

theorem readsOnly_productUrl (b : PageBuilder) : ReadsOnly ["slug", "id"] b.productUrl := by
  intro o o' h
  obtain ⟨hslug, hid, -⟩ := by simpa only [List.forall_mem_cons] using h
  unfold productUrl handle Object.text? Object.getStr? Object.id?
  rw [hslug, hid]

theorem readsOnly_productLabels (b : PageBuilder) :
    ReadsOnly ["is_new", "compare_price", "is_featured"] b.productLabels := by
  intro o o' h
  obtain ⟨hnew, hcompare, hfeatured, -⟩ := by simpa only [List.forall_mem_cons] using h
  unfold productLabels wantedLabels Object.flag
  rw [hnew, hcompare, hfeatured]

theorem readsOnly_priceEntries (b : PageBuilder) (field : String) :
    ReadsOnly [field] (b.priceEntries · field) := by
  intro o o' h
  simp only [priceEntries, Object.number?, h field List.mem_cons_self]

/-- **What is read from other names** is read from a product for display as from the raw one. -/
theorem read_product {α : Type} {read : Object → α} {keys : List String} (h : ReadsOnly keys read)
    (hkeys : ∀ key ∈ keys, key ∉ shownNames) (b : PageBuilder) (p : Object) :
    read (b.product p) = read p :=
  h _ _ fun key hkey => b.get?_product p (hkeys key hkey)

/-! ## What is stored back -/

/-- A text of the page's language stays when it is stored in the field that it was looked for in. -/
theorem translated_of_get? (b : PageBuilder) {o o' : Object} {field : String}
    (htables : o'.get? "translations" = o.get? "translations")
    (hfield : o'.get? field = some (.str (b.translated o field))) :
    b.translated o' field = b.translated o field := by
  unfold translated Object.translated at hfield ⊢
  rw [Object.getObj?, htables, ← Object.getObj?]
  cases hfound : (o.getObj? "translations").bind fun tables =>
    Object.textInLanguages? tables b.locale.candidates field with
  | some s => rfl
  | none =>
    rw [hfound] at hfield
    exact Object.find_of_get? (fun text => text.getD "") (fun _ _ => rfl) hfield

/-- So does the address of a picture. A placeholder that is blank is looked for again, with no other
result. -/
theorem imageUrl_of_get? (b : PageBuilder) {o o' : Object} (himage : o'.get? "image" = o.get? "image")
    (himages : o'.get? "images" = o.get? "images")
    (hfield : o'.get? "image_url" = some (.str (b.imageUrl o))) : b.imageUrl o' = b.imageUrl o := by
  have hrest : o'.text? "image" = o.text? "image" ∧ o'.getList "images" = o.getList "images" := by
    unfold Object.text? Object.getStr? Object.getList
    rw [himage, himages]
    exact ⟨rfl, rfl⟩
  unfold imageUrl at hfield ⊢
  rw [hrest.1, hrest.2]
  refine Object.find_of_get? (fun text => (((text.or (o.text? "image")).or
    ((o.getList "images").head?.bind listedImage?)).filter fun url => !Text.isBlankText url).getD
      b.options.placeholderImage) (fun s hs => ?_) hfield
  rw [Option.some_or, Option.some_or, Option.filter_some_pos (by rw [hs]; rfl), Option.getD_some]

variable (b : PageBuilder) (p : Object)

theorem translated_product {field : String}
    (h : (field, .str (b.translated p field)) ∈ b.decorations p) :
    b.translated (b.product p) field = b.translated p field :=
  b.translated_of_get? (b.get?_product p (by decide)) (b.get?_product_of_mem h)

/-- **No text is added**: a text is written again exactly when it was written, and it is the same. -/
theorem textEntries_product {field : String} (h : field ∈ ["description", "short_description"]) :
    b.textEntries (b.product p) field = b.textEntries p field := by
  cases hhas : p.has field with
  | true =>
    have hmem : (field, .str (b.translated p field)) ∈ b.decorations p := by
      refine List.mem_cons_of_mem _ (List.mem_append_left _ (List.mem_append_left _
        (List.mem_flatMap.2 ⟨field, h, ?_⟩)))
      rw [textEntries, hhas, if_pos rfl]
      exact List.mem_cons_self
    have hproduct : (b.product p).has field = true := by
      rw [Object.has, b.get?_product_of_mem hmem, Option.isSome_some]
    rw [textEntries, textEntries, hhas, hproduct, b.translated_product p hmem]
  | false =>
    have hproduct : (b.product p).has field = p.has field := by
      rw [Object.has, product_eq_extend, Object.get?_extend_of_not_mem p (b.distinct_decorations p)
        (b.not_mem_keys_decorations h hhas), Object.has]
    rw [textEntries, textEntries, hproduct, hhas, if_neg Bool.false_ne_true, if_neg Bool.false_ne_true]

/-- **Decorations are read from a product for display as from the raw one.** -/
theorem decorations_product : b.decorations (b.product p) = b.decorations p := by
  have htexts : ["description", "short_description"].flatMap (b.textEntries (b.product p)) =
      ["description", "short_description"].flatMap (b.textEntries p) :=
    List.flatMap_congr fun field hfield => b.textEntries_product p hfield
  have hraw : ∀ field ∈ priceFields, ∀ key ∈ [field], key ∉ shownNames := by decide
  have hprices : priceFields.flatMap (b.priceEntries (b.product p)) =
      priceFields.flatMap (b.priceEntries p) :=
    List.flatMap_congr fun field hfield =>
      read_product (b.readsOnly_priceEntries field) (hraw field hfield) b p
  have himage : b.imageUrl (b.product p) = b.imageUrl p :=
    b.imageUrl_of_get? (b.get?_product p (by decide)) (b.get?_product p (by decide))
      (b.get?_product_of_mem (List.mem_cons_of_mem _ (List.mem_append_right _ List.mem_cons_self)))
  rw [decorations, htexts, hprices, himage, b.translated_product p List.mem_cons_self,
    read_product b.readsOnly_productUrl (by decide) b p,
    read_product Stock.readsOnly_isOut (by decide) b p,
    read_product b.display.labeler.readsOnly_label? (by decide) b p,
    read_product b.readsOnly_productLabels (by decide) b p, decorations]

/-- **A product for display is displayed as it is.** -/
theorem product_product : b.product (b.product p) = b.product p :=
  calc b.product (b.product p)
    _ = (p.extend (b.decorations p)).extend (b.decorations p) := by
      rw [b.product_eq_extend (b.product p), decorations_product, ← product_eq_extend]
    _ = b.product p := by rw [Object.extend_extend p (b.distinct_decorations p), product_eq_extend]

/-- **Displaying a product once more changes nothing**, neither entries nor their order, **and what
the raw product has is kept**: all its keys stay in their places, and so does every entry under a name
that is not written. -/
theorem product_idempotent :
    b.product (b.product p) = b.product p ∧
      p.map Prod.fst <+: (b.product p).map Prod.fst ∧
      ∀ (i : Nat) (key : String) (v : Value), p[i]? = some (key, v) → key ∉ shownNames →
        (b.product p)[i]? = some (key, v) := by
  refine ⟨b.product_product p, ?_, fun i key v hentry hname => ?_⟩
  · rw [product_eq_extend]
    exact Object.keys_prefix_extend p (b.decorations p)
  · rw [product_eq_extend]
    exact Object.getElem?_extend hentry fun hkey => hname ((b.keys_decorations_sublist p).subset hkey)

/-- The number of a product between a name and a picture that are blank. -/
theorem product_idempotent_between :
    let p : Object := [("name", .str " "), ("sku", .ofNat 7), ("image_url", .str "")]
    let b : PageBuilder := ⟨{}, {}, {}⟩
    b.product (b.product p) = b.product p ∧
      (p[1]? = some ("sku", .ofNat 7) ∧ "sku" ∉ shownNames) ∧
      (b.product p)[1]? = some ("sku", .ofNat 7) := by
  intro p b
  have hentry : p[1]? = some ("sku", .ofNat 7) := rfl
  have hname : "sku" ∉ shownNames := by decide
  obtain ⟨htwice, -, hkept⟩ := product_idempotent b p
  exact ⟨htwice, ⟨hentry, hname⟩, hkept 1 "sku" _ hentry hname⟩

end PageBuilder

end Storefront
