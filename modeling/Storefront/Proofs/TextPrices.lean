import Storefront.Proofs.Footprints
import Storefront.Proofs.Pricing

/-!
# Prices that are texts

A feed may write the price of a product as a number or as a text (`Retold`). Both read as the
same number, and what is written into a product for display from its prices is read as
numbers. The label of a sale and the formatted price on the page of a product depend on
whether the raw price is truthy, too, and this is where a zero makes a difference: as a number
it is not truthy, but the text of one is, as it is not empty (`Retold.truthy_iff`). Any other
number and its text are displayed alike.
-/

namespace Storefront

/-! ## Prices -/

/-- **A price of a product is told as a text**: the text reads as the number that the product has. -/
structure Retold (product : Object) (field : String) (n : Number) (s : String) : Prop where
  /-- The field holds prices. -/
  field_price : field ∈ PageBuilder.priceFields
  /-- The number is the price of the product. -/
  number : product.get? field = some (.num n)
  /-- The text reads as the number. -/
  reads : (Value.str s).number? = some n.toDouble

namespace Retold

variable {product : Object} {field : String} {n : Number} {s : String} (h : Retold product field n s)

include h

/-- The texts of numbers are not empty. -/
theorem truthy_text : (Value.str s).truthy = true := by
  have hne : s ≠ "" := by
    rintro rfl
    have hempty : (Value.str "").number? = none := by decide
    exact Option.some_ne_none _ (h.reads.symm.trans hempty)
  exact bne_iff_ne.2 hne

/-- **A number that a text reads as is truthy unless it is zero.** -/
theorem truthy_iff : (Value.num n).truthy = !n.toDouble.isZero := by
  have hfinite : n.toDouble.isFinite = true := (Option.filter_eq_some_iff.1 h.reads).2
  have hnumber : n.toDouble ≠ .nan := by
    intro hnan
    rw [hnan] at hfinite
    exact Bool.false_ne_true hfinite
  rw [Value.truthy, bne_iff_ne.2 hnumber, Bool.and_true]

/-- **Prices read as before.** -/
theorem number?_insert (key : String) :
    (product.insert field (.str s)).number? key = product.number? key := by
  rw [Object.number?, Object.number?, Object.get?_insert]
  split
  · next hkey =>
    rw [hkey, h.number, Option.bind_some, Option.bind_some, h.reads]
    rfl
  · rfl

theorem has : product.has field = true := by
  rw [Object.has, h.number, Option.isSome_some]

end Retold

/-! ## Products for display -/

namespace PageBuilder

/-- **What is written into a product for display besides its labels.** -/
def plainDecorations (b : PageBuilder) (product : Object) : Object :=
  ("name", .str (b.translated product "name")) ::
    (["description", "short_description"].flatMap (b.textEntries product) ++
      priceFields.flatMap (b.priceEntries product) ++
      [("image_url", .str (b.imageUrl product)), ("url", .str (b.productUrl product)),
        ("in_stock", .bool (!Stock.isOut product)),
        ("stock_label", ((b.display.labeler.label? product).map StockLabel.toValue).getD .null)])

theorem decorations_eq (b : PageBuilder) (product : Object) :
    b.decorations product =
      b.plainDecorations product ++ [("labels", .arr ((b.productLabels product).map .obj))] := by
  simp only [decorations, plainDecorations, List.cons_append, List.append_assoc, List.nil_append]

/-- **Products with the same decorations but for their labels** show the same under all names that
both have alike. -/
theorem get?_product_congr (b : PageBuilder) {p q : Object} (h : b.plainDecorations q = b.plainDecorations p)
    {key : String} (hkey : key ≠ "labels") (hget : q.get? key = p.get? key) :
    (b.product q).get? key = (b.product p).get? key := by
  have hdecorations : (b.decorations q).get? key = (b.decorations p).get? key := by
    rw [decorations_eq, decorations_eq, h, Object.get?_append, Object.get?_append,
      Object.get?_cons_of_ne hkey.symm, Object.get?_cons_of_ne hkey.symm]
  rw [product_eq_extend, product_eq_extend, Object.get?_extend q (b.distinct_decorations q),
    Object.get?_extend p (b.distinct_decorations p), hdecorations, hget]

end PageBuilder

namespace Retold

open Object (ReadsOnly)

variable {product : Object} {field : String} {n : Number} {s : String} (h : Retold product field n s)
  (b : PageBuilder)

include h

/-- What is read from other names is read as before. -/
theorem read_insert {α : Type} {keys : List String} {read : Object → α} (hread : ReadsOnly keys read)
    (hkeys : ∀ f ∈ PageBuilder.priceFields, f ∉ keys) :
    read (product.insert field (.str s)) = read product :=
  hread.insert (hkeys field h.field_price) product (.str s)

theorem priceEntries_insert (f : String) :
    b.priceEntries (product.insert field (.str s)) f = b.priceEntries product f := by
  rw [PageBuilder.priceEntries, h.number?_insert, PageBuilder.priceEntries]

/-- **Nothing but the labels may change** of what is written into the product for display. -/
theorem plainDecorations_insert :
    b.plainDecorations (product.insert field (.str s)) = b.plainDecorations product := by
  have htexts : ["description", "short_description"].flatMap
        (b.textEntries (product.insert field (.str s))) =
      ["description", "short_description"].flatMap (b.textEntries product) := by
    refine List.flatMap_congr fun text htext => ?_
    have hkeys : ∀ text ∈ ["description", "short_description"], ∀ f ∈ PageBuilder.priceFields,
        f ∉ ["translations", text] := by decide
    exact h.read_insert (b.readsOnly_textEntries text) (hkeys text htext)
  have hprices : PageBuilder.priceFields.flatMap (b.priceEntries (product.insert field (.str s))) =
      PageBuilder.priceFields.flatMap (b.priceEntries product) :=
    List.flatMap_congr fun f _ => h.priceEntries_insert b f
  have hname : b.translated (product.insert field (.str s)) "name" = b.translated product "name" :=
    h.read_insert (b.readsOnly_translated "name") (by decide)
  rw [PageBuilder.plainDecorations, htexts, hprices, hname,
    h.read_insert b.readsOnly_imageUrl (by decide), h.read_insert b.readsOnly_productUrl (by decide),
    h.read_insert Stock.readsOnly_isOut (by decide),
    h.read_insert b.display.labeler.readsOnly_label? (by decide), PageBuilder.plainDecorations]

/-- **Amounts and their texts** are those of the number. -/
theorem get?_product_insert {f : String} (hf : f ∈ PageBuilder.priceFields) {suffix : String}
    (hsuffix : suffix ∈ ["_number", "_formatted"]) :
    (b.product (product.insert field (.str s))).get? (f ++ suffix) =
      (b.product product).get? (f ++ suffix) := by
  have hother : ∀ field ∈ PageBuilder.priceFields, ∀ f ∈ PageBuilder.priceFields,
      ∀ suffix ∈ ["_number", "_formatted"], f ++ suffix ≠ "labels" ∧ f ++ suffix ≠ field := by decide
  obtain ⟨hlabels, hfield⟩ := hother field h.field_price f hf suffix hsuffix
  refine b.get?_product_congr (h.plainDecorations_insert b) hlabels ?_
  rw [Object.get?_insert, if_neg hfield]

/-- **The labels that a product asks for** are the same, unless the text is that of a zero under
`compare_price`: this asks for the label of a sale. -/
theorem wantedLabels_insert_iff :
    PageBuilder.wantedLabels (product.insert field (.str s)) = PageBuilder.wantedLabels product ↔
      ¬(field = "compare_price" ∧ n.toDouble.isZero = true) := by
  have hflag : ∀ key ∈ ["is_new", "is_featured"],
      (product.insert field (.str s)).flag key = product.flag key := by
    have hkeys : ∀ key ∈ ["is_new", "is_featured"], ∀ f ∈ PageBuilder.priceFields, key ≠ f := by decide
    intro key hkey
    rw [Object.flag, Object.get?_insert, if_neg (hkeys key hkey field h.field_price), Object.flag]
  have hsale : (((product.insert field (.str s)).get? "compare_price").any Value.truthy =
      (product.get? "compare_price").any Value.truthy) ↔
        ¬(field = "compare_price" ∧ n.toDouble.isZero = true) := by
    rw [Object.get?_insert]
    by_cases hfield : field = "compare_price"
    · subst hfield
      rw [if_pos rfl, h.number, Option.any_some, Option.any_some, h.truthy_text, h.truthy_iff]
      simp
    · rw [if_neg (Ne.symm hfield)]
      simp [hfield]
  rw [← hsale, PageBuilder.wantedLabels, PageBuilder.wantedLabels, hflag "is_new" (by decide),
    hflag "is_featured" (by decide), List.append_left_inj, List.append_right_inj]
  cases ((product.insert field (.str s)).get? "compare_price").any Value.truthy <;>
    cases (product.get? "compare_price").any Value.truthy <;> decide

/-- **The product for display is the one with the number**, with the text in the place of the
number. -/
theorem product_insert (hkept : ¬(field = "compare_price" ∧ n.toDouble.isZero = true)) :
    b.productLabels (product.insert field (.str s)) = b.productLabels product ∧
      b.product (product.insert field (.str s)) = (b.product product).insert field (.str s) := by
  have hlabels : b.productLabels (product.insert field (.str s)) = b.productLabels product := by
    rw [PageBuilder.productLabels, h.wantedLabels_insert_iff.2 hkept, PageBuilder.productLabels]
  have hdecorations : b.decorations (product.insert field (.str s)) = b.decorations product := by
    rw [PageBuilder.decorations_eq, h.plainDecorations_insert, hlabels, ← PageBuilder.decorations_eq]
  have hraw : ∀ f ∈ PageBuilder.priceFields, f ∉ PageBuilder.shownNames := by decide
  refine ⟨hlabels, ?_⟩
  rw [PageBuilder.product_eq_extend, hdecorations, PageBuilder.product_eq_extend]
  refine Object.extend_insert (fun hkey => ?_) h.has
  exact hraw field h.field_price ((b.keys_decorations_sublist product).subset hkey)

end Retold

/-! ## Pages of products -/

namespace Renderer

/-- The variable for a formatted price of the product of a page. -/
def formattedVariable (key : String) : String := "product." ++ key ++ "_formatted"

/-- The prices that have such a variable. -/
def formattedPrices : List String := ["price", "compare_price"]

variable (r : Renderer) {ctx : Context}

theorem output_formattedVariable (ctx : Context) {key : String} (hkey : key ∈ formattedPrices) :
    r.output ctx (formattedVariable key) = .text (r.productPrice ctx key (key ++ "_formatted")) := by
  obtain rfl | rfl := List.mem_pair.1 hkey
  · exact r.output_productPrice ctx
  · have hnormal : Path.normalized (formattedVariable "compare_price") = "product.compare_price_formatted" := by
      decide
    simp only [output, hnormal]
    rw [if_neg (by decide), if_pos trivial]
    rfl

/-- The formatted price in page data, unless it looks unfilled. -/
def filled? (product : Object) (key : String) : Option String :=
  (product.getStr? (key ++ "_formatted")).filter fun s => !isUnfilled s

/-- **A price that is not truthy is shown as nothing.** -/
theorem productPrice_of_not_truthy {product : Object} {v : Value} {key : String}
    (hproduct : ctx.resolve "product" = some (.obj product)) (hget : product.get? key = some v)
    (hv : v.truthy = false) : r.productPrice ctx key (key ++ "_formatted") = "" := by
  unfold productPrice
  simp only [hproduct, Option.bind_some, Value.object?, hget, Option.filter_some, hv,
    Bool.false_eq_true, if_false]

/-- **A truthy price that is a number is shown as its amount**, as page data have it. -/
theorem productPrice_of_truthy {product : Object} {v : Value} {key : String} {amount : Double}
    (hproduct : ctx.resolve "product" = some (.obj product)) (hget : product.get? key = some v)
    (hv : v.truthy = true) (hnumber : v.number? = some amount) :
    r.productPrice ctx key (key ++ "_formatted") =
      (filled? product key).getD (r.display.price amount) := by
  unfold productPrice
  simp only [hproduct, Option.bind_some, Value.object?, hget, Option.filter_some, hv, if_true, hnumber]
  unfold filled?
  split
  · next formatted hfilled => rw [hfilled, Option.getD_some]
  · next hfilled => rw [hfilled, Option.getD_none]

/-- The formatted price depends on the raw price and its text only. -/
theorem productPrice_congr {ctx ctx' : Context} {product product' : Object} {key : String}
    (hproduct : ctx.resolve "product" = some (.obj product))
    (hproduct' : ctx'.resolve "product" = some (.obj product'))
    (hget : product'.get? key = product.get? key)
    (htext : product'.get? (key ++ "_formatted") = product.get? (key ++ "_formatted")) :
    r.productPrice ctx' key (key ++ "_formatted") = r.productPrice ctx key (key ++ "_formatted") := by
  unfold productPrice Object.getStr?
  simp only [hproduct, hproduct', Option.bind_some, Value.object?, hget, htext]

end Renderer

namespace PageBundle

open Renderer

variable (p : PageBundle) (options : PageOptions)

/-- The bundle with another product. -/
def withProduct (product : Object) : PageBundle := { p with data := p.data.insert "product" (.obj product) }

theorem resolve_product {product : Object} (hkind : p.kind = .product)
    (hproduct : p.data.getObj? "product" = some product) :
    ∃ ctx, p.context? options = some ctx ∧
      ctx.resolve "product" = some (.obj ((p.builder options).product product)) := by
  refine Option.bind_eq_some_iff.1 (p.resolve_of_get? options (by decide) (by decide) ?_)
  rw [context?, hkind, PageBuilder.get?_build?_product _ hproduct]

theorem resolve_product_withProduct (product : Object) (hkind : p.kind = .product) :
    ∃ ctx, (p.withProduct product).context? options = some ctx ∧
      ctx.resolve "product" = some (.obj ((p.builder options).product product)) := by
  have hdata : (p.withProduct product).data.getObj? "product" = some product := by
    rw [withProduct, Object.getObj?, Object.get?_insert, if_pos rfl]
  exact (p.withProduct product).resolve_product options hkind hdata

/-- **The page of the variable for a formatted price.** -/
def priceHtml? (key : String) : Option String :=
  p.html? (Lexeme.braced (formattedVariable key)) options

theorem priceHtml?_eq {key : String} (hkey : key ∈ formattedPrices) {ctx : Context}
    (hctx : p.context? options = some ctx) :
    p.priceHtml? options key =
      some (Markup.escape ((p.renderer options).productPrice ctx key (key ++ "_formatted"))) := by
  have hread : ∀ key ∈ formattedPrices, Token.ofTemplate (Lexeme.braced (formattedVariable key)) =
      [Token.soleVariable (formattedVariable key)] := by decide +kernel
  rw [priceHtml?, html_variable p options (hread key hkey), hctx, Option.map_some, variableText,
    output_formattedVariable _ _ hkey]
  rfl

end PageBundle

namespace Retold

open Renderer

variable {product : Object} {field : String} {n : Number} {s : String} (h : Retold product field n s)
  (p : PageBundle) (options : PageOptions)

include h

/-- **The page of a product shows the same formatted price**, unless the price that is shown is a
zero and a text: then it shows an amount where it shows nothing for the number. -/
theorem priceHtml?_insert (hkind : p.kind = .product)
    (hproduct : p.data.getObj? "product" = some product) {key : String} (hkey : key ∈ formattedPrices) :
    let texts := p.withProduct (product.insert field (.str s))
    (¬(field = key ∧ n.toDouble.isZero = true) →
        ∃ html, p.priceHtml? options key = some html ∧ texts.priceHtml? options key = some html) ∧
      (field = key ∧ n.toDouble.isZero = true →
        p.priceHtml? options key = some "" ∧
          texts.priceHtml? options key =
            some (Markup.escape ((filled? ((p.builder options).product product) key).getD
              ((p.renderer options).display.price n.toDouble)))) := by
  intro texts
  obtain ⟨ctx, hctx, hnumbers⟩ := p.resolve_product options hkind hproduct
  obtain ⟨ctx', hctx', htexts⟩ :=
    p.resolve_product_withProduct options (product.insert field (.str s)) hkind
  have hprices : ∀ key ∈ formattedPrices, key ∈ PageBuilder.priceFields ∧ key ∉ PageBuilder.shownNames := by
    decide
  obtain ⟨hfield, hraw⟩ := hprices key hkey
  have hformatted := h.get?_product_insert (p.builder options) hfield
    (List.mem_cons_of_mem "_number" List.mem_cons_self : "_formatted" ∈ ["_number", "_formatted"])
  have hfilled : filled? ((p.builder options).product (product.insert field (.str s))) key =
      filled? ((p.builder options).product product) key := by
    rw [filled?, Object.getStr?, hformatted, filled?, Object.getStr?]
  have hrenderer : texts.renderer options = p.renderer options := rfl
  rw [p.priceHtml?_eq options hkey hctx, texts.priceHtml?_eq options hkey hctx', hrenderer]
  by_cases hsame : field = key
  · subst hsame
    have hget : ((p.builder options).product product).get? field = some (.num n) :=
      (PageBuilder.get?_product _ _ hraw).trans h.number
    have hget' : ((p.builder options).product (product.insert field (.str s))).get? field =
        some (.str s) := by
      rw [PageBuilder.get?_product _ _ hraw, Object.get?_insert, if_pos rfl]
    rw [productPrice_of_truthy _ htexts hget' h.truthy_text h.reads, hfilled]
    refine ⟨fun hnonzero => ?_, fun hzero => ⟨?_, rfl⟩⟩
    · have htruthy : (Value.num n).truthy = true := by
        rw [h.truthy_iff, Bool.not_eq_true', Bool.eq_false_iff]
        exact fun hzero => hnonzero ⟨rfl, hzero⟩
      rw [productPrice_of_truthy _ hnumbers hget htruthy rfl]
      exact ⟨_, rfl, rfl⟩
    · have htruthy : (Value.num n).truthy = false := by
        rw [h.truthy_iff, hzero.2]
        rfl
      rw [productPrice_of_not_truthy _ hnumbers hget htruthy]
      rfl
  · have hget : ((p.builder options).product (product.insert field (.str s))).get? key =
        ((p.builder options).product product).get? key := by
      rw [PageBuilder.get?_product _ _ hraw, PageBuilder.get?_product _ _ hraw, Object.get?_insert,
        if_neg (Ne.symm hsame)]
    rw [productPrice_congr _ hnumbers htexts hget hformatted]
    exact ⟨fun _ => ⟨_, rfl, rfl⟩, fun hzero => absurd hzero.1 hsame⟩

/-- **A price that is told as a text is displayed as the number is, unless it is zero.** The amounts
of the product for display and their texts are always the same. So are its labels, and all else that
is written into it, unless a zero under `compare_price` is told as a text. On the page of a product
the variables for formatted prices show the same, unless the price that they show is such a zero: it
is shown as nothing when it is a number, and as an amount when it is a text. -/
theorem displayed_alike (b : PageBuilder) :
    let texts := product.insert field (.str s)
    (∀ f ∈ PageBuilder.priceFields, ∀ suffix ∈ ["_number", "_formatted"],
        (b.product texts).get? (f ++ suffix) = (b.product product).get? (f ++ suffix)) ∧
      (PageBuilder.wantedLabels texts = PageBuilder.wantedLabels product ↔
        ¬(field = "compare_price" ∧ n.toDouble.isZero = true)) ∧
      (¬(field = "compare_price" ∧ n.toDouble.isZero = true) →
        b.productLabels texts = b.productLabels product ∧
          b.product texts = (b.product product).insert field (.str s)) ∧
      (p.kind = .product → p.data.getObj? "product" = some product → ∀ key ∈ formattedPrices,
        (¬(field = key ∧ n.toDouble.isZero = true) →
            ∃ html, p.priceHtml? options key = some html ∧
              (p.withProduct texts).priceHtml? options key = some html) ∧
          (field = key ∧ n.toDouble.isZero = true →
            p.priceHtml? options key = some "" ∧
              (p.withProduct texts).priceHtml? options key =
                some (Markup.escape ((filled? ((p.builder options).product product) key).getD
                  ((p.renderer options).display.price n.toDouble))))) := by
  intro texts
  exact ⟨fun f hf suffix hsuffix => h.get?_product_insert b hf hsuffix, h.wantedLabels_insert_iff,
    h.product_insert b, fun hkind hproduct key hkey =>
      h.priceHtml?_insert p options hkind hproduct hkey⟩

end Retold

/-- A price with two decimals, on a page that shows it. -/
theorem Retold.displayed_alike_decimals :
    let product : Object := [("name", .str "Mug"), ("compare_price", .num (.int 1500))]
    let texts : Object := [("name", .str "Mug"), ("compare_price", .str " 1500.00 ")]
    let page : PageBundle := { pageType := "product", data := [("product", .obj product)] }
    Retold product "compare_price" (.int 1500) " 1500.00 " ∧
      (∀ b : PageBuilder, b.productLabels texts = b.productLabels product) ∧
      ∃ html, page.priceHtml? {} "compare_price" = some html ∧
        (page.withProduct texts).priceHtml? {} "compare_price" = some html := by
  intro product texts page
  have h : Retold product "compare_price" (.int 1500) " 1500.00 " := ⟨by decide, rfl, by decide +kernel⟩
  have hnonzero : (Number.int 1500).toDouble.isZero = false := by decide +kernel
  have hkept : ¬("compare_price" = "compare_price" ∧ (Number.int 1500).toDouble.isZero = true) :=
    fun hzero => Bool.false_ne_true (hnonzero.symm.trans hzero.2)
  refine ⟨h, fun b => ?_, ?_⟩
  · obtain ⟨-, -, hlabels, -⟩ := h.displayed_alike page {} b
    exact (hlabels hkept).1
  · obtain ⟨-, -, -, hpages⟩ := h.displayed_alike page {} ⟨{}, {}, {}⟩
    exact (hpages (by decide) rfl "compare_price" (by decide)).1 hkept

/-- **A zero that is told as a text is displayed in another way**: with such a `compare_price` the
product is labelled as being on sale, and its page shows an amount where it showed nothing. -/
theorem zero_text_displayed :
    let product : Object := [("price", .num (.int 0)), ("compare_price", .num (.int 0))]
    let priced := product.insert "price" (.str "0")
    let compared := product.insert "compare_price" (.str "0.00")
    let sale : Object := [("type", .str "sale"), ("text", .str "Sale")]
    let b : PageBuilder := ⟨{}, { productLabels := [.obj sale] }, {}⟩
    let page (raw : Object) : PageBundle := { pageType := "product", data := [("product", .obj raw)] }
    let shown (raw : Object) (key : String) := (page raw).priceHtml? {} key
    (Retold product "price" (.int 0) "0" ∧ Retold product "compare_price" (.int 0) "0.00") ∧
      ((b.productLabels product).length = 0 ∧ (b.productLabels compared).length = 1) ∧
      (shown product "price" = some "" ∧ shown priced "price" = some "$0.00") ∧
      (shown product "compare_price" = some "" ∧ shown compared "compare_price" = some "$0.00") := by
  refine ⟨⟨⟨by decide, rfl, by decide +kernel⟩, by decide, rfl, by decide +kernel⟩, ?_⟩
  decide +kernel

end Storefront
