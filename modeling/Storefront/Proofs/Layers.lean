import Storefront.Page.Bundle
import Storefront.Proofs.Lookup

/-!
# What a page has under a name

The context of a page has two layers, and neither of them is an item of a loop. So
whether items hide other variables makes no difference for the names of a page:
the layer of its data comes first, then what every page has
(`PageBuilder.get?_of_build?`). The layer of a page is the raw data with entries
written over it, and what was written is there (`Object.get?_extend_of_mem`).

There is such a context for every page but a header whose badge has no count
(`PageBuilder.build?_eq_none_iff`), and where there is one, every template makes
a page of it (`PageBundle.html?_eq`).
-/

namespace Storefront

namespace PageBuilder

variable {b : PageBuilder} {kind : PageKind} {raw page : Object}

/-! ## Whether there is a page -/

/-- **The only page that there may not be** is a header whose badge has no count. -/
theorem pageLayer?_eq_none_iff :
    b.pageLayer? kind raw = none ↔ kind = .header ∧ Cart.badge? raw = none := by
  cases kind with
  | header => exact Option.map_eq_none_iff.trans (and_iff_right rfl).symm
  | category | product | cart | checkout | success | account | login | other =>
    exact iff_of_false (Option.some_ne_none _) fun h => PageKind.noConfusion h.1

theorem build?_eq_none_iff : b.build? kind raw = none ↔ kind = .header ∧ Cart.badge? raw = none :=
  Option.map_eq_none_iff.trans pageLayer?_eq_none_iff

theorem exists_build? (hpage : b.pageLayer? kind raw = some page) :
    ∃ ctx, b.build? kind raw = some ctx :=
  ⟨_, by rw [build?, hpage, Option.map_some]⟩

/-! ## Its names -/

/-- **The names of a page**: those of its data, and behind them those of every page. -/
theorem get?_of_build? (hpage : b.pageLayer? kind raw = some page) {ctx : Context}
    (h : b.build? kind raw = some ctx) (key : String) :
    ctx.get? key = (page.get? key).or ((b.baseLayer kind raw).get? key) := by
  rw [build?, hpage, Option.map_some, Option.some.injEq] at h
  have horder : ctx.lookupOrder = [⟨.page, page⟩, ⟨.base, b.baseLayer kind raw⟩] := by
    rw [← h]
    unfold Context.lookupOrder Context.withItemShadowing
    split
    · rfl
    · rfl
  rw [Context.get?, horder, Frame.lookup_cons, Frame.lookup_cons]
  exact congrArg _ (Option.or_none ..)

/-- A name of every page, if there is one. -/
theorem map_get?_build? (b : PageBuilder) (kind : PageKind) (raw : Object) (key : String) :
    (b.build? kind raw).map (·.get? key) =
      (b.pageLayer? kind raw).map fun page =>
        (page.get? key).or ((b.baseLayer kind raw).get? key) := by
  cases hpage : b.pageLayer? kind raw with
  | none => rw [build?, hpage, Option.map_none, Option.map_none, Option.map_none]
  | some page =>
    obtain ⟨ctx, hbuild⟩ := exists_build? hpage
    rw [hbuild, Option.map_some, get?_of_build? hpage hbuild, Option.map_some]

/-- A name of the data of a page is a name of the page. -/
theorem get?_build?_of_pageLayer? (hpage : b.pageLayer? kind raw = some page) {key : String} {v : Value}
    (h : page.get? key = some v) : (b.build? kind raw).bind (·.get? key) = some v := by
  obtain ⟨ctx, hbuild⟩ := exists_build? hpage
  rw [hbuild, Option.bind_some, get?_of_build? hpage hbuild, h, Option.some_or]

/-! ## The header and the cart -/

/-- The badge of the header. -/
theorem get?_build?_cart_count (b : PageBuilder) (raw : Object) :
    (b.build? .header raw).bind (·.get? "cart_count") =
      (Cart.badge? raw).map fun count => .ofNat count.toNat := by
  cases hcount : Cart.badge? raw with
  | none => rw [build?_eq_none_iff.2 ⟨rfl, hcount⟩, Option.bind_none, Option.map_none]
  | some count =>
    refine get?_build?_of_pageLayer? (by rw [pageLayer?, headerPage?, hcount, Option.map_some]) ?_
    exact Object.get?_extend_of_mem raw (by simp [Object.Distinct]) (by simp)

theorem distinct_cartEntries (b : PageBuilder) (c : Cart) :
    Object.Distinct (b.cartSummary c ++ [("cart_items", b.cartLines c), ("cart", .obj (b.cart c))]) := by
  simp [Object.Distinct, cartSummary, totalEntries]

/-- The count of units beside the cart. -/
theorem get?_build?_item_count (b : PageBuilder) (raw : Object) :
    (b.build? .cart raw).bind (·.get? "item_count") = some (.ofNat (Cart.ofObject raw).itemCount) :=
  get?_build?_of_pageLayer? rfl <|
    Object.get?_extend_of_mem raw (distinct_cartEntries b (Cart.ofObject raw))
      (by simp [cartSummary])

/-- The cart itself. -/
theorem get?_build?_cart (b : PageBuilder) (raw : Object) :
    (b.build? .cart raw).bind (·.get? "cart") = some (.obj (b.cart (Cart.ofObject raw))) :=
  get?_build?_of_pageLayer? rfl <|
    Object.get?_extend_of_mem raw (distinct_cartEntries b (Cart.ofObject raw)) (by simp)

/-- The count of units in the cart. -/
theorem get?_cart_item_count (b : PageBuilder) (c : Cart) :
    (b.cart c).get? "item_count" = some (.ofNat c.itemCount) := by
  refine Object.Distinct.get?_of_mem ?_ ?_
  · simp [Object.Distinct, cart, cartSummary, totalEntries]
  · simp [cart, cartSummary]

/-! ## Categories and products -/

/-- The products of a category. -/
theorem get?_build?_products (b : PageBuilder) (raw : Object) :
    (b.build? .category raw).bind (·.get? "products") =
      some (.arr (b.products (raw.getList "products"))) := by
  refine get?_build?_of_pageLayer? rfl (Object.get?_extend_of_mem raw ?_ (by simp))
  unfold categoryEntry sortEntry
  split
  · split
    · simp [Object.Distinct]
    · simp [Object.Distinct]
  · split
    · simp [Object.Distinct]
    · simp [Object.Distinct]

theorem distinct_productEntries (b : PageBuilder) (raw : Object) (related crumbs : Value) :
    Object.Distinct (b.productEntry raw ++ [("related_products", related), ("breadcrumbs", crumbs)] ++
      categoryEntry raw b.listedCategory) := by
  unfold productEntry categoryEntry
  split
  · split
    · simp [Object.Distinct]
    · simp [Object.Distinct]
  · split
    · simp [Object.Distinct]
    · simp [Object.Distinct]

/-- The products related to that of a page. -/
theorem get?_build?_related_products (b : PageBuilder) (raw : Object) :
    (b.build? .product raw).bind (·.get? "related_products") =
      some (.arr (b.products (raw.getList "relatedProducts"))) :=
  get?_build?_of_pageLayer? rfl
    (Object.get?_extend_of_mem raw (distinct_productEntries ..) (by simp))

/-- The product of a page. -/
theorem get?_build?_product (b : PageBuilder) {raw product : Object}
    (h : raw.getObj? "product" = some product) :
    (b.build? .product raw).bind (·.get? "product") = some (.obj (b.product product)) := by
  refine get?_build?_of_pageLayer? rfl
    (Object.get?_extend_of_mem raw (distinct_productEntries ..) ?_)
  rw [productEntry, h]
  simp

end PageBuilder

/-! ## Bundles -/

namespace PageBundle

/-- **The text of the page** that a template makes of a bundle. -/
def html? (p : PageBundle) (source : String) (options : PageOptions) : Option String :=
  (p.render? source options).map RenderedPage.html

theorem html?_eq (p : PageBundle) (source : String) (options : PageOptions) :
    p.html? source options =
      (p.context? options).map ((p.renderer options).template (Template.parse source)) := by
  rw [html?, render?, Option.map_map]
  rfl

/-- What is said of the page in every context is said of the page. -/
theorem html?_eq_map (p : PageBundle) (source : String) (options : PageOptions) {f : Context → String}
    (h : ∀ ctx, (p.renderer options).template (Template.parse source) ctx = f ctx) :
    p.html? source options = (p.context? options).map f := by
  rw [html?_eq, funext h]

end PageBundle

end Storefront
