import Storefront.Proofs.Comparing
import Storefront.Proofs.Footprints
import Storefront.Stock.Label

/-!
# Stock rules that agree

Three rules read the stock of a product: whether it cannot be ordered, how many units can be
ordered, and which label it has. All of them turn on whether the product is used up
(`Stock.IsUsedUp`): its stock is tracked, and its quantity is known and nothing. Such a product
is labelled out of stock, and unless there are backorders it cannot be ordered and its limit is
zero (`Stock.isOut_iff`, `Stock.available_eq_zero_iff`).

At a larger quantity the limit is no smaller and the label no worse. Where stock is not tracked
the quantity is not looked at. Where it is, both are told by the quantity alone, compared with
zero and with a threshold that stays the same (`StockState.ofQuantity`), so it is enough that
what is at most some bound stays so when it gets smaller
(`Double.less_of_less_of_atMost`).
-/

namespace Storefront

namespace Double

theorem less_iff {x y : Double} : x.less y = true ↔ x.compare? y = some .lt := beq_iff_eq

theorem atMost_iff {x y : Double} :
    x.atMost y = true ↔ x.compare? y = some .lt ∨ x.compare? y = some .eq := by
  rw [atMost, Bool.or_eq_true, less_iff, sameValue, beq_iff_eq]

theorem atMost_of_less {x y : Double} (h : x.less y = true) : x.atMost y = true :=
  atMost_iff.2 (.inl (less_iff.1 h))

/-- **Less than what is at most a bound** is less than the bound. -/
theorem less_of_less_of_atMost {x y z : Double} (hxy : x.less y = true) (hyz : y.atMost z = true) :
    x.less z = true := by
  have hsigns : ∀ s t : Bool, compare s t = .lt ↔ s = false ∧ t = true := by decide
  rw [less_iff] at hxy ⊢
  rw [atMost_iff] at hyz
  cases x with
  | nan => cases hxy
  | infinite s =>
    cases y with
    | nan => cases hxy
    | infinite t => cases z <;> grind [compare?]
    | finite t n => cases z <;> grind [compare?]
  | finite s m =>
    cases y with
    | nan => cases hxy
    | infinite t => cases z <;> grind [compare?]
    | finite t n =>
      cases z with
      | nan => rcases hyz with h | h <;> cases h
      | infinite u => grind [compare?]
      | finite u k =>
        simp only [compare?, Option.some_inj, compare_lt_iff_lt, compare_eq_iff_eq] at hxy hyz ⊢
        omega

theorem clampNegative_atMost_of_less {x y : Double} (h : x.less y = true) :
    x.clampNegative.atMost y.clampNegative = true := by
  unfold clampNegative
  by_cases hx : zero.less x = true
  · rw [if_pos hx, if_pos (less_of_less_of_atMost hx (atMost_of_less h))]
    exact atMost_of_less h
  · rw [if_neg hx]
    split
    · next hy => exact atMost_of_less hy
    · decide

theorem clampNegative_eq_zero_iff {x : Double} (hx : x.isFinite = true) :
    x.clampNegative = zero ↔ x.atMost zero = true := by
  have hcompare : zero.less x = true ↔ ¬x.atMost zero = true := by
    rw [less_iff, atMost_iff, compare?_of_finite rfl hx, compare?_of_finite hx rfl, Option.some_inj,
      Option.some_inj, Option.some_inj, compare_lt_iff_lt, compare_lt_iff_lt, compare_eq_iff_eq,
      ← le_iff_lt_or_eq, not_le]
  unfold clampNegative
  split
  · next hpos =>
    refine iff_of_false ?_ (hcompare.1 hpos)
    rintro rfl
    exact absurd hpos (by decide)
  · next hpos => exact iff_of_true rfl (Decidable.of_not_not fun h => hpos (hcompare.2 h))

end Double

/-! ## Used-up products -/

namespace Stock

/-- **Stock that is kept track of**: it is finite and managed. -/
def IsTracked (product : Object) : Prop := isInfinite product = false ∧ isUnmanaged product = false

theorem or_eq_true_iff_not_isTracked {product : Object} :
    (isInfinite product || isUnmanaged product) = true ↔ ¬IsTracked product := by
  rw [IsTracked, ← Bool.or_eq_false_iff, Bool.not_eq_false]

/-- **A product that is used up**: its stock is tracked, and its quantity is known and nothing. -/
structure IsUsedUp (product : Object) : Prop where
  tracked : IsTracked product
  nothing : ∃ quantity, quantity? product = some quantity ∧ quantity.atMost .zero = true

theorem isUsedUp_iff {product : Object} : IsUsedUp product ↔
    IsTracked product ∧
      ∃ quantity, quantity? product = some quantity ∧ quantity.atMost .zero = true :=
  ⟨fun h => ⟨h.tracked, h.nothing⟩, fun h => ⟨h.1, h.2⟩⟩

theorem isUsedUp_iff_of_quantity? {product : Object} {quantity : Double}
    (h : quantity? product = some quantity) :
    IsUsedUp product ↔ IsTracked product ∧ quantity.atMost .zero = true := by
  constructor
  · rintro ⟨htracked, other, hother, hnothing⟩
    obtain rfl := Option.some.inj (hother.symm.trans h)
    exact ⟨htracked, hnothing⟩
  · rintro ⟨htracked, hnothing⟩
    exact ⟨htracked, quantity, h, hnothing⟩

theorem not_isUsedUp_of_quantity? {product : Object} (h : quantity? product = none) :
    ¬IsUsedUp product := by
  rintro ⟨-, quantity, hquantity, -⟩
  exact Option.some_ne_none quantity (hquantity.symm.trans h)

/-- **A product cannot be ordered** when it is used up and there are no backorders. -/
theorem isOut_iff {product : Object} :
    isOut product = true ↔ IsUsedUp product ∧ allowsBackorders product = false := by
  unfold isOut
  rw [Bool.and_eq_true, Bool.and_eq_true, Bool.and_eq_true, Bool.not_eq_true', Bool.not_eq_true',
    Bool.not_eq_true', ← and_assoc]
  refine and_congr_left fun _ => ?_
  cases hquantity : quantity? product with
  | none =>
    exact iff_of_false (fun h => Bool.false_ne_true h.2) (not_isUsedUp_of_quantity? hquantity)
  | some quantity => exact (isUsedUp_iff_of_quantity? hquantity).symm

theorem available_of_not_isTracked {product : Object} (h : ¬IsTracked product) :
    available product = .unlimited := by
  rw [available, or_eq_true_iff_not_isTracked.2 h, Bool.true_or, if_pos rfl]

theorem available_of_isTracked {product : Object} (h : IsTracked product) :
    available product = if allowsBackorders product = true then .unlimited
      else (quantity? product).elim .unlimited fun quantity => .limited quantity.clampNegative := by
  unfold available
  rw [h.1, h.2, Bool.or_self, Bool.false_or]
  refine ite_congr rfl (fun _ => rfl) fun _ => ?_
  cases quantity? product <;> rfl

/-- **No unit can be ordered** under the same conditions. -/
theorem available_eq_zero_iff {product : Object}
    (hfinite : ∀ quantity, quantity? product = some quantity → quantity.isFinite = true) :
    available product = .limited .zero ↔ IsUsedUp product ∧ allowsBackorders product = false := by
  by_cases htracked : IsTracked product
  · rw [available_of_isTracked htracked]
    cases hbackorders : allowsBackorders product with
    | true => exact iff_of_false nofun fun h => absurd h.2 nofun
    | false =>
      rw [if_neg Bool.false_ne_true, and_iff_left rfl]
      cases hquantity : quantity? product with
      | none => exact iff_of_false nofun (not_isUsedUp_of_quantity? hquantity)
      | some quantity =>
        rw [Option.elim_some, Available.limited.injEq, isUsedUp_iff_of_quantity? hquantity,
          Double.clampNegative_eq_zero_iff (hfinite quantity hquantity), and_iff_right htracked]
  · rw [available_of_not_isTracked htracked]
    exact iff_of_false nofun fun h => htracked h.1.tracked

/-- **At most as many units**: no limit at all is more than any limit. -/
inductive Available.AtMost : Available → Available → Prop where
  | unlimited (a : Available) : AtMost a .unlimited
  | limited {x y : Double} (h : x.atMost y = true) : AtMost (.limited x) (.limited y)

end Stock

/-! ## Labels -/

namespace StockState

/-- How good a state is: out of stock, low stock, in stock. -/
def level : StockState → Nat
  | .outOfStock => 0
  | .lowStock => 1
  | .inStock => 2

/-- **The state of tracked stock at a quantity**, low up to a threshold. -/
def ofQuantity (threshold : Option Double) (quantity : Double) : StockState :=
  if Stock.isNothing quantity then .outOfStock
  else if threshold.any quantity.atMost then .lowStock
  else .inStock

theorem ofQuantity_eq_outOfStock_iff {threshold : Option Double} {quantity : Double} :
    ofQuantity threshold quantity = .outOfStock ↔ quantity.atMost .zero = true := by
  unfold ofQuantity Stock.isNothing
  split
  · next h => exact iff_of_true rfl h
  · next h =>
    refine iff_of_false ?_ h
    split <;> exact nofun

/-- **More stock is no worse.** -/
theorem level_ofQuantity_le (threshold : Option Double) {x y : Double} (h : x.less y = true) :
    (ofQuantity threshold x).level ≤ (ofQuantity threshold y).level := by
  have hbound : ∀ z : Double, y.atMost z = true → x.atMost z = true := fun z hz =>
    Double.atMost_of_less (Double.less_of_less_of_atMost h hz)
  have hlow : threshold.any y.atMost = true → threshold.any x.atMost = true := by
    cases threshold with
    | none => exact id
    | some z => exact hbound z
  unfold ofQuantity
  by_cases hx : Stock.isNothing x = true
  · rw [if_pos hx]
    exact Nat.zero_le _
  · have hy : ¬Stock.isNothing y = true := fun hy => hx (hbound .zero hy)
    rw [if_neg hx, if_neg hy]
    by_cases hz : threshold.any y.atMost = true
    · rw [if_pos hz, if_pos (hlow hz)]
    · rw [if_neg hz]
      split <;> decide

end StockState

namespace StockLabeler

variable (l : StockLabeler) {product : Object}

/-- **Whether a product has a label**: labels are shown, and it is not only bought through
others. -/
def Labels (product : Object) : Prop :=
  l.settings.stock.showStockLabel = true ∧ (product.text? "type").any isParentType = false

/-- Up to which quantity a product runs low. -/
def threshold (product : Object) : Option Double :=
  (product.number? "low_stock_threshold").or l.storeThreshold

/-- The label of a product is that of its state. -/
theorem label?_eq (h : l.Labels product) :
    l.label? product = some (l.build (l.assess product).1 (l.assess product).2) := by
  rw [label?, h.1, h.2]
  rfl

theorem assess_of_not_isTracked (h : ¬Stock.IsTracked product) :
    l.assess product = (.inStock, none) :=
  if_pos (Stock.or_eq_true_iff_not_isTracked.2 h)

theorem assess_of_isTracked (h : Stock.IsTracked product) :
    (l.assess product).1 =
      (Stock.quantity? product).elim .inStock (StockState.ofQuantity (l.threshold product)) := by
  unfold assess
  rw [h.1, h.2, Bool.or_self, if_neg Bool.false_ne_true]
  cases Stock.quantity? product with
  | none => rfl
  | some quantity =>
    dsimp only [Option.elim_some]
    unfold StockState.ofQuantity threshold
    split
    · rfl
    · split <;> rfl

/-- **A product is labelled out of stock** when it is used up. -/
theorem assess_eq_outOfStock_iff : (l.assess product).1 = .outOfStock ↔ Stock.IsUsedUp product := by
  by_cases htracked : Stock.IsTracked product
  · rw [l.assess_of_isTracked htracked]
    cases hquantity : Stock.quantity? product with
    | none => exact iff_of_false nofun (Stock.not_isUsedUp_of_quantity? hquantity)
    | some quantity =>
      rw [Option.elim_some, StockState.ofQuantity_eq_outOfStock_iff,
        Stock.isUsedUp_iff_of_quantity? hquantity, and_iff_right htracked]
  · rw [l.assess_of_not_isTracked htracked]
    exact iff_of_false nofun fun h => htracked h.tracked

/-- No quantity is shown with a product that is used up. -/
theorem assess_of_isUsedUp (h : Stock.IsUsedUp product) :
    l.assess product = (.outOfStock, none) := by
  obtain ⟨quantity, hquantity, hnothing⟩ := h.nothing
  unfold assess
  rw [h.tracked.1, h.tracked.2, Bool.or_self, if_neg Bool.false_ne_true, hquantity]
  exact if_pos hnothing

/-- **The label of a product that is used up**: what is left of the template for that without its
blocks, in the colours that the theme has for it. -/
theorem label?_of_isUsedUp (hlabels : l.Labels product) (h : Stock.IsUsedUp product) :
    l.label? product = some {
      text := Label.strip (l.template .outOfStock)
      textColor := l.themeColor "stock_out_of_stock_text_color" "#991b1b"
      backgroundColor := l.themeColor "stock_out_of_stock_bg_color" "#fee2e2" } := by
  rw [l.label?_eq hlabels, l.assess_of_isUsedUp h]
  rfl

end StockLabeler

/-! ## Other entries -/

open Object (ReadsOnly)

namespace Stock

theorem readsOnly_isTracked : ReadsOnly ["infinite_stock", "manage_stock"] IsTracked := by
  intro o o' h
  obtain ⟨hinfinite, hmanaged, -⟩ := by simpa only [List.forall_mem_cons] using h
  unfold IsTracked isInfinite isUnmanaged Object.flag
  rw [hinfinite, hmanaged]

theorem readsOnly_quantity? : ReadsOnly ["stock_quantity"] quantity? := by
  intro o o' h
  rw [quantity?, quantity?, Object.number?, Object.number?, h _ List.mem_cons_self]

theorem readsOnly_allowsBackorders : ReadsOnly ["allow_backorders"] allowsBackorders := by
  intro o o' h
  rw [allowsBackorders, allowsBackorders, Object.flag, Object.flag, h _ List.mem_cons_self]

/-- **A product is used up if it could not be ordered without backorders.** -/
theorem isOut_withoutBackorders_iff {product : Object} :
    isOut (product.insert "allow_backorders" (.bool false)) = true ↔ IsUsedUp product := by
  let strict := product.insert "allow_backorders" (.bool false)
  have hbackorders : allowsBackorders strict = false := by
    rw [allowsBackorders, Object.flag, Object.get?_insert, if_pos rfl]
    rfl
  have htracked : IsTracked strict = IsTracked product :=
    readsOnly_isTracked.insert (by decide) product _
  have hquantity : quantity? strict = quantity? product :=
    readsOnly_quantity?.insert (by decide) product _
  rw [isOut_iff, and_iff_left hbackorders, isUsedUp_iff, isUsedUp_iff, htracked, hquantity]

theorem isTracked_insert (product : Object) (v : Value) :
    IsTracked (product.insert "stock_quantity" v) ↔ IsTracked product :=
  (readsOnly_isTracked.insert (by decide) product v).to_iff

theorem quantity?_insert (product : Object) (v : Value) :
    quantity? (product.insert "stock_quantity" v) = v.number? := by
  rw [quantity?, Object.number?, Object.get?_insert, if_pos rfl, Option.bind_some]

/-- **Of more stock, no fewer units can be ordered.** -/
theorem available_atMost_insert {product : Object} {v : Value} {before after : Double}
    (hbefore : quantity? product = some before) (hafter : v.number? = some after)
    (h : before.less after = true) :
    (available product).AtMost (available (product.insert "stock_quantity" v)) := by
  by_cases htracked : IsTracked product
  · rw [available_of_isTracked htracked, available_of_isTracked ((isTracked_insert _ v).2 htracked),
      readsOnly_allowsBackorders.insert (by decide), quantity?_insert, hbefore, hafter]
    split
    · exact .unlimited _
    · exact .limited (Double.clampNegative_atMost_of_less h)
  · rw [available_of_not_isTracked fun hinserted => htracked ((isTracked_insert _ v).1 hinserted)]
    exact .unlimited _

end Stock

namespace StockLabeler

variable (l : StockLabeler) {product : Object}

theorem readsOnly_labels : ReadsOnly ["type"] l.Labels := by
  intro o o' h
  rw [Labels, Labels, Object.text?, Object.text?, Object.getStr?, Object.getStr?,
    h _ List.mem_cons_self]

theorem readsOnly_threshold : ReadsOnly ["low_stock_threshold"] l.threshold := by
  intro o o' h
  rw [threshold, threshold, Object.number?, Object.number?, h _ List.mem_cons_self]

/-- **More stock has no worse label.** -/
theorem level_assess_le_insert {v : Value} {before after : Double}
    (hbefore : Stock.quantity? product = some before) (hafter : v.number? = some after)
    (h : before.less after = true) :
    (l.assess product).1.level ≤ (l.assess (product.insert "stock_quantity" v)).1.level := by
  by_cases htracked : Stock.IsTracked product
  · rw [l.assess_of_isTracked htracked,
      l.assess_of_isTracked ((Stock.isTracked_insert _ v).2 htracked),
      l.readsOnly_threshold.insert (by decide), Stock.quantity?_insert, hbefore, hafter]
    exact StockState.level_ofQuantity_le _ h
  · rw [l.assess_of_not_isTracked htracked,
      l.assess_of_not_isTracked fun hinserted =>
        htracked ((Stock.isTracked_insert _ v).1 hinserted)]

/-- **The stock rules agree.** A product of page data cannot be ordered exactly when the limit on
its units is zero. When it has a label, that is the label of its state, which is out of stock
exactly when it is used up; and that is so exactly when it could not be ordered but for
backorders. The label then has the text and the colours for that state. When its quantity alone is
raised, no fewer units can be ordered, it has a label as before, and the state of the label is no
worse. -/
theorem rules_agree (h : (Value.obj product).Proper) :
    (Stock.isOut product = true ↔ Stock.available product = .limited .zero) ∧
      (l.Labels product →
        l.label? product = some (l.build (l.assess product).1 (l.assess product).2) ∧
          ((l.assess product).1 = .outOfStock ↔ Stock.IsUsedUp product) ∧
          (Stock.IsUsedUp product ↔
            Stock.isOut (product.insert "allow_backorders" (.bool false)) = true) ∧
          (Stock.IsUsedUp product → l.label? product = some {
            text := Label.strip (l.template .outOfStock)
            textColor := l.themeColor "stock_out_of_stock_text_color" "#991b1b"
            backgroundColor := l.themeColor "stock_out_of_stock_bg_color" "#fee2e2" })) ∧
      ∀ v before after, Stock.quantity? product = some before → v.number? = some after →
        before.less after = true →
          let restocked := product.insert "stock_quantity" v
          (Stock.available product).AtMost (Stock.available restocked) ∧
            (l.Labels restocked ↔ l.Labels product) ∧
            (l.assess product).1.level ≤ (l.assess restocked).1.level := by
  have hfinite : ∀ quantity, Stock.quantity? product = some quantity →
      quantity.isFinite = true := by
    intro quantity hquantity
    obtain ⟨v, hv, hnumber⟩ := Option.bind_eq_some_iff.1 hquantity
    cases h with
    | obj _ hvalues => exact (hvalues _ (Object.mem_of_get? hv)).isFinite_of_number? hnumber
  refine ⟨Stock.isOut_iff.trans (Stock.available_eq_zero_iff hfinite).symm, fun hlabels => ?_, ?_⟩
  · exact ⟨l.label?_eq hlabels, l.assess_eq_outOfStock_iff, Stock.isOut_withoutBackorders_iff.symm,
      l.label?_of_isUsedUp hlabels⟩
  · intro v before after hbefore hafter hless
    exact ⟨Stock.available_atMost_insert hbefore hafter hless,
      (l.readsOnly_labels.insert (by decide) product v).to_iff,
      l.level_assess_le_insert hbefore hafter hless⟩

/-- Backorders are taken on a product that is used up, and then a few units come in. -/
theorem rules_agree_backordered :
    let l : StockLabeler := ⟨{ displayLowStockThreshold := some (.ofNat 5) }, .english⟩
    let product : Object :=
      [("manage_stock", .str " Yes"), ("stock_quantity", .str "-0.0"),
        ("allow_backorders", .ofNat 1)]
    let three : Value := .ofNat 3
    ((Value.obj product).Proper ∧ l.Labels product ∧ Stock.quantity? product = some .negZero ∧
        three.number? = some (.ofInt 3) ∧ Double.negZero.less (.ofInt 3) = true) ∧
      Stock.IsUsedUp product ∧ Stock.isOut product = false ∧
      Stock.available product ≠ .limited .zero ∧
      l.label? product = some ⟨"Out of Stock", "#991b1b", "#fee2e2"⟩ ∧
      (Stock.available product).AtMost (Stock.available (product.insert "stock_quantity" three)) ∧
      (l.assess product).1.level ≤ (l.assess (product.insert "stock_quantity" three)).1.level := by
  intro l product three
  have hproper : (Value.obj product).Proper :=
    .obj (by decide) (List.forall_mem_cons.2 ⟨.str _, List.forall_mem_cons.2
      ⟨.str _, List.forall_mem_singleton.2 (.num (by decide))⟩⟩)
  have hlabels : l.Labels product := ⟨rfl, rfl⟩
  have hbefore : Stock.quantity? product = some .negZero := by decide +kernel
  have hafter : three.number? = some (.ofInt 3) := by decide +kernel
  have hless : Double.negZero.less (.ofInt 3) = true := by decide +kernel
  have hstate : (l.assess product).1 = .outOfStock := by decide +kernel
  have hcleared : Label.strip (l.template .outOfStock) = "Out of Stock" := by decide +kernel
  have hbackorders : Stock.isOut product = false := by decide +kernel
  obtain ⟨hout, hlabel, hraised⟩ := l.rules_agree hproper
  obtain ⟨-, husedUp, -, hlabel⟩ := hlabel hlabels
  obtain ⟨hunits, -, hlevel⟩ := hraised _ _ _ hbefore hafter hless
  refine ⟨⟨hproper, hlabels, hbefore, hafter, hless⟩, husedUp.1 hstate, hbackorders, ?_, ?_, hunits,
    hlevel⟩
  · exact fun hzero => Bool.false_ne_true (hbackorders.symm.trans (hout.2 hzero))
  · rw [hlabel (husedUp.1 hstate), hcleared]
    rfl

end StockLabeler

end Storefront
