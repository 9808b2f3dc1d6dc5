import Storefront.Page.Bundle
import Storefront.Proofs.Agreement
import Storefront.Proofs.Exhibits
import Storefront.Proofs.Wrapping

/-!
# Prices on a page

The price of a product becomes text in two places. The builder of a page writes it
into the product, as `price_formatted`; the renderer writes it when a variable names
the number under `price`. Both show amounts in the way that settings, store, locale
and override choose, and a bundle gives both the same (`PageBundle.display_eq`). So
the two variables show the same text, whether a loop runs over products or a page is
about one (`PageBundle.prices_agree`).

On the page of a product the formatted price has a rule of its own, by which the
renderer replaces text that looks unfilled, such as that of a currency whose code is
a pair of braces. What it puts there is the amount again (`Renderer.productPrice_eq`).
-/

namespace Storefront

/-! ## Products with prices -/

/-- **A product with a price**: a number other than zero. -/
structure Priced (product : Object) (amount : Number) : Prop where
  /-- The number is the price of the product. -/
  price : product.get? "price" = some (.num amount)
  /-- It is not zero. -/
  nonzero : (Value.num amount).truthy = true

/-- **A product whose fields a loop can tell from other names**: none has a point in its name, and
none is called as the item of a loop is. -/
structure Listed (product : Object) : Prop where
  /-- No field has a point in its name. -/
  undotted : product.Undotted
  /-- No field is called `this`. -/
  unnamed : product.get? "this" = none

namespace Priced

variable {product : Object} {amount : Number} (h : Priced product amount) (b : PageBuilder)

include h

/-- The number is kept for display. -/
theorem get?_price : (b.product product).get? "price" = some (.num amount) :=
  (b.get?_product product (by decide)).trans h.price

/-- The text for display is that of the number. -/
theorem get?_price_formatted :
    (b.product product).get? "price_formatted" = some (b.priceText amount.toDouble) :=
  b.get?_product_price_formatted (by rw [Object.number?, h.price]; rfl)

end Priced

/-! ## Values shown -/

namespace Display

/-- A number whose path is that of a price is an amount of money. -/
theorem text_num (d : Display) (n : Number) {path : String} (h : isPricePath path = true)
    (owner : Option Object) : d.text (.num n) path owner = d.price n.toDouble := by
  simp only [text, h]

/-- A text is shown as it is, unless its path makes it a date. -/
theorem text_str (d : Display) (s : String) {path : String} (h : Text.mentions "date" path = false)
    (owner : Option Object) : d.text (.str s) path owner = s := by
  have hplain : d.plainText (.str s) path owner = s := by
    unfold plainText
    simp only [h]
    split
    · rfl
    · split
      · next hlabels => cases hlabels
      · rfl
  unfold text
  split
  · next hnum => cases hnum
  · exact hplain

end Display

namespace Renderer

/-- **How a renderer shows an amount**, raw or escaped. -/
def amountText (r : Renderer) (amount : Number) (raw : Bool) : String :=
  if raw then r.display.price amount.toDouble else Markup.escape (r.display.price amount.toDouble)

/-- The variables for the price of a loop's item. -/
def itemPrices : List String := ["this.price", "this.price_formatted"]

/-- The variables for the price of the product of a page. -/
def productPrices : List String := ["product.price", "product.price_formatted"]

/-- The paths that have rules of their own. -/
def ruledPaths : List String :=
  ["product.stock_status", "product.compare_price_formatted", "product.price_formatted",
    "product.short_description"]

/-- A variable without a rule of its own shows the value at its path. -/
theorem output_of_resolve (r : Renderer) {ctx : Context} {written path : String} {v : Value}
    (hnormal : Path.normalized written = path) (hpath : path ∉ ruledPaths)
    (h : ctx.resolve path = some v) :
    r.output ctx written = .text (r.display.text v path (ctx.owner? path)) := by
  simp only [ruledPaths, List.mem_cons, List.not_mem_nil, or_false, not_or] at hpath
  obtain ⟨hstatus, hcompare, hprice, hshort⟩ := hpath
  simp only [output, hnormal, if_neg hstatus, if_neg hcompare, if_neg hprice, if_neg hshort,
    valueText, h]

/-- The variable for the formatted price of a product has a rule of its own. -/
theorem output_productPrice (r : Renderer) (ctx : Context) :
    r.output ctx "product.price_formatted" =
      .text (r.productPrice ctx "price" "price_formatted") := by
  have hnormal : Path.normalized "product.price_formatted" = "product.price_formatted" := by decide
  simp only [output, hnormal]
  rw [if_neg (by decide), if_neg (by decide), if_pos trivial]

/-- **The formatted price of a product is that of its number**, whether the text in the page data
counts as filled in or not. -/
theorem productPrice_eq (r : Renderer) {ctx : Context} {product : Object} {amount : Number}
    (hproduct : ctx.resolve "product" = some (.obj product))
    (hprice : product.get? "price" = some (.num amount))
    (hnonzero : (Value.num amount).truthy = true)
    (htext : product.get? "price_formatted" = some (.str (r.display.price amount.toDouble))) :
    r.productPrice ctx "price" "price_formatted" = r.display.price amount.toDouble := by
  have hstr : product.getStr? "price_formatted" = some (r.display.price amount.toDouble) := by
    rw [Object.getStr?, htext]
  have htruthy : (product.get? "price").filter Value.truthy = some (.num amount) := by
    rw [hprice, Option.filter_some, if_pos hnonzero]
  unfold productPrice
  simp only [hproduct, Option.bind_some, Value.object?, htruthy, hstr]
  split
  · next formatted hfilled => exact (Option.some.inj (Option.filter_eq_some_iff.1 hfilled).1).symm
  · rfl

end Renderer

/-! ## Templates of one variable -/

/-- The token of a template that is one variable. -/
def Token.soleVariable (name : String) : Token := ⟨.variable name, Lexeme.braced name, 0, 1⟩

namespace Item

open Token (soleVariable)

theorem placed_soleVariable (p : Place) (name : String) : Placed p [.token (soleVariable name)] := by
  simp only [Placed, and_true]
  exact fun hother => Lexeme.noConfusion hother

theorem nodes_soleVariable (template : List Char) (name : String) :
    nodes template [.token (soleVariable name)] = [.variable name false] := by
  simp only [nodes, node]
  rfl

theorem derivation_soleVariable {name : String}
    (h : Token.ofTemplate (Lexeme.braced name) = [soleVariable name]) :
    Derivation (Token.ofTemplate (Lexeme.braced name)) [.token (soleVariable name)] := by
  rw [h]
  refine ⟨?_, by simp only [tokens]⟩
  simp only [Nested, and_true]
  rfl

end Item

namespace Template

open Item
open Token (soleVariable)

variable {name : String} (h : Token.ofTemplate (Lexeme.braced name) = [soleVariable name])
include h

/-- The tree of a variable. -/
theorem parse_variable : (parse (Lexeme.braced name)).nodes = [.variable name false] := by
  show Item.nodes _ (Item.ofTemplate _) = _
  rw [ofTemplate_of_derivation (derivation_soleVariable h) (placed_soleVariable _ _),
    nodes_soleVariable]

/-- The tree of a variable in a loop. -/
theorem parse_enclosed_variable (hself : Piece.SelfContained (Lexeme.braced name).toList)
    {path : String} (hpath : Lexeme.Writable path) :
    (parse (enclosed .each path (Lexeme.braced name))).nodes =
      [.loop (Text.trimmed path) [.variable name false]
        (enclosed .each path (Lexeme.braced name)) 1] := by
  have hderivation := derivation_soleVariable h
  have hitems : Item.ofTemplate (enclosed .each path (Lexeme.braced name)) =
      Item.enclosed .each path (Lexeme.braced name) [.token (soleVariable name)] :=
    ofTemplate_of_derivation (hderivation.enclosed hpath hself)
      (placed_enclosed.2 (placed_soleVariable _ _))
  show Item.nodes _ (Item.ofTemplate _) = _
  rw [hitems, nodes_enclosed hderivation, nodes_soleVariable]
  simp only [Node.moved]

end Template

/-! ## Pages -/

namespace PageBundle

open Renderer

variable (p : PageBundle) (options : PageOptions)

/-- **The builder and the renderer of a page show values alike.** -/
theorem display_eq : (p.renderer options).display = (p.builder options).display := rfl

/-- So the text of an amount in page data is what the renderer would write. -/
theorem priceText_eq (amount : Double) :
    (p.builder options).priceText amount = .str ((p.renderer options).display.price amount) := by
  rw [display_eq, PageBuilder.priceText]

/-! ### Variables -/

section Variables

variable {p options} {product : Object} {amount : Number} {ctx : Context} (hctx : ctx.Undotted)
  (h : Priced product amount) (raw : Bool)
include hctx h

/-- **The price of the item of a loop**, as number and as text. -/
theorem variableText_itemPrice
    (hthis : ctx.get? "this" = some (.obj ((p.builder options).product product)))
    {name : String} (hname : name ∈ itemPrices) :
    (p.renderer options).variableText ctx name raw =
      (p.renderer options).amountText amount raw := by
  have hnumber : ctx.resolve "this.price" = some (.num amount) := by
    have hentry : Path.IsEntry "this.price" "this" "price" := by decide
    rw [hctx.resolve_entry hentry, hthis]
    exact h.get?_price _
  have htext : ctx.resolve "this.price_formatted" =
      some (.str ((p.renderer options).display.price amount.toDouble)) := by
    have hentry : Path.IsEntry "this.price_formatted" "this" "price_formatted" := by decide
    rw [hctx.resolve_entry hentry, hthis, ← priceText_eq]
    exact h.get?_price_formatted _
  rcases List.mem_pair.1 hname with rfl | rfl
  · rw [variableText, output_of_resolve _ (by decide) (by decide) hnumber,
      Display.text_num _ _ (by decide)]
    rfl
  · rw [variableText, output_of_resolve _ (by decide) (by decide) htext,
      Display.text_str _ _ (by decide)]
    rfl

/-- **The price of the product of a page**, as number and as text. -/
theorem variableText_productPrice
    (hproduct : ctx.get? "product" = some (.obj ((p.builder options).product product)))
    {name : String} (hname : name ∈ productPrices) :
    (p.renderer options).variableText ctx name raw =
      (p.renderer options).amountText amount raw := by
  have hnumber : ctx.resolve "product.price" = some (.num amount) := by
    have hentry : Path.IsEntry "product.price" "product" "price" := by decide
    rw [hctx.resolve_entry hentry, hproduct]
    exact h.get?_price _
  have hresolve : ctx.resolve "product" = some (.obj ((p.builder options).product product)) :=
    Context.resolve_of_get? (by decide) (by decide) hproduct
  have hformatted : ((p.builder options).product product).get? "price_formatted" =
      some (.str ((p.renderer options).display.price amount.toDouble)) := by
    rw [h.get?_price_formatted, priceText_eq]
  have htext : (p.renderer options).productPrice ctx "price" "price_formatted" =
      (p.renderer options).display.price amount.toDouble :=
    productPrice_eq _ hresolve (h.get?_price _) h.nonzero hformatted
  rcases List.mem_pair.1 hname with rfl | rfl
  · rw [variableText, output_of_resolve _ (by decide) (by decide) hnumber,
      Display.text_num _ _ (by decide)]
    rfl
  · rw [variableText, output_productPrice, htext]
    rfl

end Variables

/-! ### Loops -/

/-- A loop over products for display enters each of them in turn. -/
theorem getElem?_entered_products (b : PageBuilder) {ctx : Context} {path : String}
    {raws : List Value} (hpath : ctx.resolve path = some (.arr (b.products raws))) {index : Nat}
    {product : Object} (hproduct : (Value.objects raws)[index]? = some product) :
    (entered ctx (loopItems ctx path))[index]? =
      some (enter ctx index (b.products raws).length (.obj (b.product product))) := by
  have hitems : loopItems ctx path = b.products raws := by rw [loopItems, hpath]
  have hitem : (b.products raws)[index]? = some (.obj (b.product product)) := by
    rw [PageBuilder.products, List.getElem?_map, hproduct, Option.map_some]
  rw [getElem?_entered, hitems, hitem, Option.map_some]

/-- **The prices in a loop over products**, wherever the loop stands. -/
theorem variableText_entered {ctx : Context} (hctx : ctx.Undotted) {index : Nat} (count : Nat)
    {product : Object} {amount : Number} (hlisted : Listed product) (h : Priced product amount)
    (raw : Bool) {name : String} (hname : name ∈ itemPrices) :
    (p.renderer options).variableText
        (enter ctx index count (.obj ((p.builder options).product product))) name raw =
      (p.renderer options).amountText amount raw := by
  have hthis : ((p.builder options).product product).get? "this" = none :=
    ((p.builder options).get?_product product (by decide)).trans hlisted.unnamed
  exact variableText_itemPrice
    (undotted_enter hctx _ _ (PageBuilder.undotted_product _ hlisted.undotted)) h raw
    (get?_enter_this ctx _ _ hthis) hname

/-- **The page of a loop that shows a price of its items**: the prices after one another. -/
theorem html_itemPrices {path : String} (hpath : Lexeme.Writable path) {name : String}
    (hname : name ∈ itemPrices) :
    p.html? (Template.enclosed .each path (Lexeme.braced name)) options =
      (p.context? options).map fun ctx =>
        String.join ((entered ctx (loopItems ctx (Text.trimmed path))).map fun inner =>
          (p.renderer options).variableText inner name false) := by
  have hread : Piece.SelfContained (Lexeme.braced name).toList ∧
      Token.ofTemplate (Lexeme.braced name) = [Token.soleVariable name] := by
    rcases List.mem_pair.1 hname with rfl | rfl
    · exact ⟨by decide +kernel, by decide +kernel⟩
    · exact ⟨by decide +kernel, by decide +kernel⟩
  have hdepth : ¬0 ≥ loopLimit := by decide
  refine html?_eq_map p _ options fun ctx => ?_
  rw [template_eq_nodes, Template.parse_enclosed_variable hread.2 hread.1 hpath]
  simp only [nodes, node, if_neg hdepth, String.append_empty]

/-- The page of a template that is one variable. -/
theorem html_variable {name : String} (h : Token.ofTemplate (Lexeme.braced name) = [Token.soleVariable name]) :
    p.html? (Lexeme.braced name) options =
      (p.context? options).map fun ctx => (p.renderer options).variableText ctx name false := by
  refine html?_eq_map p _ options fun ctx => ?_
  rw [template_eq_nodes, Template.parse_variable h]
  simp only [nodes, node, String.append_empty]

/-- The page of a variable for the price of its product. -/
theorem html_productPrice {name : String} (hname : name ∈ productPrices) :
    p.html? (Lexeme.braced name) options =
      (p.context? options).map fun ctx => (p.renderer options).variableText ctx name false := by
  refine html_variable p options ?_
  rcases List.mem_pair.1 hname with rfl | rfl
  · decide +kernel
  · decide +kernel

/-! ### Where products are -/

/-- A name of a page is resolved to its value. -/
theorem resolve_of_get? {name : String} {v : Value}
    (hnormal : Path.normalizedChars name.toList = name.toList) (hne : name ≠ "")
    (h : (p.context? options).bind (·.get? name) = some v) :
    (p.context? options).bind (·.resolve name) = some v := by
  obtain ⟨ctx, hctx, hget⟩ := Option.bind_eq_some_iff.1 h
  rw [hctx, Option.bind_some]
  exact Context.resolve_of_get? hnormal hne hget

/-- The page of a category has its products under `products`. -/
theorem resolve_products (hkind : p.kind = .category) :
    (p.context? options).bind (·.resolve "products") =
      some (.arr ((p.builder options).products (p.data.getList "products"))) := by
  refine p.resolve_of_get? options (by decide) (by decide) ?_
  rw [context?, hkind, PageBuilder.get?_build?_products]

/-- The page of a product has the products related to it under `related_products`. -/
theorem resolve_related_products (hkind : p.kind = .product) :
    (p.context? options).bind (·.resolve "related_products") =
      some (.arr ((p.builder options).products (p.data.getList "relatedProducts"))) := by
  refine p.resolve_of_get? options (by decide) (by decide) ?_
  rw [context?, hkind, PageBuilder.get?_build?_related_products]

/-! ### The agreement -/

/-- **The prices of a page agree**: wherever a page can show the price of a product, the variable
for the number and the variable for the text show the same. -/
structure PricesAgree : Prop where
  /-- In a loop over products for display, wherever it stands: when it is at a product with a price,
  both variables show that amount. -/
  inLoops : ∀ {ctx : Context} {path : String} {raws : List Value}, ctx.Undotted →
    ctx.resolve path = some (.arr ((p.builder options).products raws)) →
      ∀ {index : Nat} {product : Object} {amount : Number},
        (Value.objects raws)[index]? = some product → Listed product → Priced product amount →
          ∃ inner, (entered ctx (loopItems ctx path))[index]? = some inner ∧
            ∀ name ∈ itemPrices, ∀ raw, (p.renderer options).variableText inner name raw =
              (p.renderer options).amountText amount raw
  /-- The page of a template that is such a loop has the prices after one another, whichever
  variable shows them, so the pages of both are one when all products have prices. -/
  loopPages : ∀ {ctx : Context} {path : String} {raws : List Value}, ctx ∈ p.context? options →
    Lexeme.Writable path →
    ctx.resolve (Text.trimmed path) = some (.arr ((p.builder options).products raws)) →
      (∀ name ∈ itemPrices,
        p.html? (Template.enclosed .each path (Lexeme.braced name)) options =
          some (String.join ((entered ctx (loopItems ctx (Text.trimmed path))).map fun inner =>
            (p.renderer options).variableText inner name false))) ∧
      ((∀ product ∈ Value.objects raws, Listed product ∧ ∃ amount, Priced product amount) →
        p.html? (Template.enclosed .each path (Lexeme.braced "this.price")) options =
          p.html? (Template.enclosed .each path (Lexeme.braced "this.price_formatted")) options)
  /-- Pages of categories have a list of products for display. -/
  products : p.kind = .category → (p.context? options).bind (·.resolve "products") =
    some (.arr ((p.builder options).products (p.data.getList "products")))
  /-- Pages of products have one too. -/
  relatedProducts : p.kind = .product → (p.context? options).bind (·.resolve "related_products") =
    some (.arr ((p.builder options).products (p.data.getList "relatedProducts")))
  /-- Where a product for display is called `product`, both variables show its price. -/
  ofProduct : ∀ {ctx : Context} {product : Object} {amount : Number}, ctx.Undotted →
    ctx.get? "product" = some (.obj ((p.builder options).product product)) →
      Priced product amount → ∀ name ∈ productPrices, ∀ raw,
        (p.renderer options).variableText ctx name raw =
          (p.renderer options).amountText amount raw
  /-- That is so on the page of a product. -/
  productPages : p.kind = .product → ∀ {product : Object} {amount : Number},
    p.data.getObj? "product" = some product → Priced product amount → ∀ name ∈ productPrices,
      p.html? (Lexeme.braced name) options = some ((p.renderer options).amountText amount false)

variable {p options}

/-- **Prices that were written when the page was built are those that are written when it is
rendered.** For every bundle and all options, in names without points: a loop over products for
display shows the same text for the price of its item and for the formatted price, and the page of a
product does so for the price of the product. -/
theorem prices_agree (h : ∀ ctx ∈ p.context? options, ctx.Undotted) : p.PricesAgree options where
  inLoops hctx hpath _ _ _ hproduct hlisted hpriced :=
    ⟨_, getElem?_entered_products _ hpath hproduct,
      fun _ hname raw => variableText_entered p options hctx _ hlisted hpriced raw hname⟩
  loopPages {ctx path raws} hctx hwritable hpath := by
    have hhtml : ∀ name ∈ itemPrices, p.html? _ options = some _ := fun name hname => by
      rw [html_itemPrices p options hwritable hname, hctx, Option.map_some]
    refine ⟨hhtml, fun hall => ?_⟩
    have hplain : "this.price" ∈ itemPrices := List.mem_cons_self
    have htext : "this.price_formatted" ∈ itemPrices := List.mem_cons_of_mem _ List.mem_cons_self
    rw [hhtml _ hplain, hhtml _ htext]
    refine congrArg (some ∘ String.join) (List.map_congr_left fun inner hinner => ?_)
    -- every context of the loop is that of a product, which has a price
    obtain ⟨index, hindex⟩ := List.mem_iff_getElem?.1 hinner
    have hlength : index < (Value.objects raws).length := by
      have hlt := (List.getElem?_eq_some_iff.1 hindex).1
      rwa [entered, List.length_map, List.length_zipIdx, loopItems, hpath, PageBuilder.products,
        List.length_map] at hlt
    have hproduct := List.getElem?_eq_getElem hlength
    obtain ⟨hlisted, amount, hpriced⟩ := hall _ (List.getElem_mem hlength)
    obtain rfl := Option.some.inj
      (hindex.symm.trans (getElem?_entered_products _ hpath hproduct))
    rw [variableText_entered p options (h ctx hctx) _ hlisted hpriced false hplain,
      variableText_entered p options (h ctx hctx) _ hlisted hpriced false htext]
  products := resolve_products p options
  relatedProducts := resolve_related_products p options
  ofProduct hctx hproduct hpriced _ hname raw :=
    variableText_productPrice hctx hpriced raw hproduct hname
  productPages hkind product _ hproduct hpriced name hname := by
    have hget : (p.context? options).bind (·.get? "product") =
        some (.obj ((p.builder options).product product)) := by
      rw [context?, hkind, PageBuilder.get?_build?_product _ hproduct]
    obtain ⟨ctx, hctx, hget⟩ := Option.bind_eq_some_iff.1 hget
    rw [html_productPrice p options hname, hctx, Option.map_some]
    exact congrArg some (variableText_productPrice (h ctx hctx) hpriced false hget hname)

/-- A currency whose code looks like a variable that was not filled in. -/
theorem prices_agree_unfilled :
    let shirt : Object := [("name", .str "Shirt"), ("price", .num (.int 5))]
    let data : Object := [("products", .arr [.obj shirt, .str "sold out"]), ("product", .obj shirt)]
    let shelf : PageBundle := { pageType := "category", locale := some "de", data }
    let detail : PageBundle := { pageType := "product", data }
    let options : PageOptions := { currency := some "\x7b\x7b" }
    let looped (name : String) := Template.enclosed .each "products" (Lexeme.braced name)
    ((∀ ctx ∈ shelf.context? options, ctx.Undotted) ∧ (∀ ctx ∈ detail.context? options, ctx.Undotted) ∧
      Listed shirt ∧ Priced shirt (.int 5)) ∧
      shelf.html? (looped "this.price") options = shelf.html? (looped "this.price_formatted") options ∧
      detail.html? (Lexeme.braced "product.price") options =
        detail.html? (Lexeme.braced "product.price_formatted") options := by
  intro shirt data shelf detail options looped
  have hshelf : ∀ ctx ∈ shelf.context? options, ctx.Undotted := by decide +kernel
  have hdetail : ∀ ctx ∈ detail.context? options, ctx.Undotted := by decide +kernel
  have hlisted : Listed shirt := ⟨by decide, rfl⟩
  have hpriced : Priced shirt (.int 5) := ⟨rfl, by decide +kernel⟩
  have hwritable : Lexeme.Writable "products" := by decide
  obtain ⟨ctx, hctx, hpath⟩ :=
    Option.bind_eq_some_iff.1 ((prices_agree hshelf).products (by decide))
  have htrimmed : Text.trimmed "products" = "products" := by decide
  rw [← htrimmed] at hpath
  obtain ⟨-, hloop⟩ := (prices_agree hshelf).loopPages hctx hwritable hpath
  have hproduct := (prices_agree hdetail).productPages (by decide) rfl hpriced
  refine ⟨⟨hshelf, hdetail, hlisted, hpriced⟩, hloop ?_, ?_⟩
  · exact List.forall_mem_singleton.2 ⟨hlisted, _, hpriced⟩
  · exact (hproduct _ List.mem_cons_self).trans
      (hproduct _ (List.mem_cons_of_mem _ List.mem_cons_self)).symm

end PageBundle

end Storefront
