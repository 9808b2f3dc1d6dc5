import Mathlib.Algebra.Order.BigOperators.Group.List
import Mathlib.Algebra.Order.Group.Nat
import Storefront.Proofs.Counting
import Storefront.Proofs.Layers
import Storefront.Proofs.Words

/-!
# The badge and the cart

The header shows in a badge how many units are in the cart, and the page of the
cart shows the same count. They read it in different ways: the badge from the
list under `cartItems` or else under `cart_items`, in whole numbers of 64 bits;
the page from whatever is under the first of `cartItems`, `cart_items` and `items`
that is there, in doubles. In the range in which doubles count exactly, the
arithmetic makes no difference (`Cart.badge_of_holds`, `Cart.itemCount_of_holds`):
each shows how many units are in the items that it reads.

The items need not be the same. The badge has no use for `items`, and a
`cartItems` that is no list ends the search of the page but not that of the badge.
The two read the same items exactly when neither matters (`Cart.ReadsAlike`).
-/

namespace Storefront

namespace Cart

/-! ## Items -/

/-- **The items that the badge counts.** -/
def badgeItems (raw : Object) : List Value :=
  match raw.get? "cartItems" with
  | some (.arr items) => items
  | _ => raw.getList "cart_items"

/-- **The items that the page of the cart lists.** -/
def listedItems (raw : Object) : List Value :=
  match ((raw.get? "cartItems").or (raw.get? "cart_items")).or (raw.get? "items") with
  | some (.arr items) => items
  | _ => []

theorem linesOf_eq (raw : Object) :
    linesOf raw = (Value.objects (listedItems raw)).map CartLine.ofObject := by
  unfold linesOf listedItems
  match ((raw.get? "cartItems").or (raw.get? "cart_items")).or (raw.get? "items") with
  | some (.arr _) => rfl
  | none | some .null | some (.bool _) | some (.num _) | some (.str _) | some (.obj _) => rfl

/-- **Raw data in which the badge and the page read the same items**: a list under `cartItems`, or
nothing there, but then `items` must not be what the page falls back to. -/
def ReadsAlike (raw : Object) : Prop :=
  match raw.get? "cartItems" with
  | some (.arr _) => True
  | some _ => raw.getList "cart_items" = []
  | none => (raw.get? "cart_items").isSome ∨ raw.getList "items" = []

/-- The items of the page are those of the badge in no other case. -/
theorem readsAlike_iff {raw : Object} : ReadsAlike raw ↔ badgeItems raw = listedItems raw := by
  unfold ReadsAlike badgeItems listedItems
  match raw.get? "cartItems" with
  | some (.arr items) => exact iff_of_true trivial rfl
  | some .null | some (.bool _) | some (.num _) | some (.str _) | some (.obj _) => exact Iff.rfl
  | none =>
    unfold Object.getList
    match raw.get? "cart_items" with
    | some (.arr items) => exact iff_of_true (Or.inl rfl) rfl
    | some .null | some (.bool _) | some (.num _) | some (.str _) | some (.obj _) =>
      exact iff_of_true (Or.inl rfl) rfl
    | none => exact (or_iff_right Bool.false_ne_true).trans eq_comm

/-! ## Units -/

/-- **The units that items hold**, one number for each line; other quantities than natural numbers
are not counted in units. -/
def Holds (items : List Value) (units : List Nat) : Prop :=
  (Value.objects items).map (fun item => (CartLine.ofObject item).quantity.natural?) = units.map some

/-- The units of a line as its quantity is usually written: one when it is not there, and so many
when it is a whole number that is not negative. -/
def lineUnits? (item : Object) : Option Nat :=
  match item.get? "quantity" with
  | none => some 1
  | some (.num (.int n)) => if 0 ≤ n then some n.toNat else none
  | some _ => none

theorem natural?_quantity {item : Object} {n : Nat} (h : lineUnits? item = some n)
    (hn : n ≤ twoPow 53) : (CartLine.ofObject item).quantity.natural? = some n := by
  show ((item.number? "quantity").getD .one).natural? = some n
  unfold lineUnits? at h
  split at h
  · next hnone =>
    obtain rfl := Option.some.inj h
    rw [Object.number?, hnone, Option.bind_none, Option.getD_none]
    exact Double.natural?_one
  · next m hint =>
    obtain ⟨hm, hmn⟩ := Option.ite_none_right_eq_some.1 h
    have hcast : m = (n : Int) := by
      rw [← Option.some.inj hmn, Int.toNat_of_nonneg hm]
    have hnumber : item.number? "quantity" = some (.ofInt n) := by
      rw [Object.number?, hint, hcast, Option.bind_some]
      rfl
    rw [hnumber, Option.getD_some]
    exact Double.natural?_ofInt hn
  · exact absurd h.symm (Option.some_ne_none n)

/-- Items with such quantities hold units, as many as doubles count. -/
theorem holds_of_lineUnits {items : List Value} {units : List Nat}
    (h : (Value.objects items).map lineUnits? = units.map some) (hsum : units.sum ≤ twoPow 53) :
    Holds items units := by
  rw [Holds, ← h]
  refine List.map_congr_left fun item hitem => ?_
  have hmem : lineUnits? item ∈ units.map some := h ▸ List.mem_map_of_mem hitem
  obtain ⟨n, hn, hunits⟩ := List.mem_map.1 hmem
  rw [← hunits]
  exact natural?_quantity hunits.symm (Nat.le_trans (List.le_sum_of_mem hn) hsum)

/-- **The page counts the units of the items that it lists.** -/
theorem itemCount_of_holds {raw : Object} {units : List Nat} (h : Holds (listedItems raw) units)
    (hsum : units.sum < 2 ^ 53) : (ofObject raw).itemCount = units.sum := by
  have hquantities : ((ofObject raw).lines.map CartLine.quantity).map Double.natural? =
      units.map some := by
    rw [← h]
    show ((linesOf raw).map CartLine.quantity).map Double.natural? = _
    rw [linesOf_eq, List.map_map, List.map_map]
    rfl
  have hexact : units.sum ≤ twoPow 53 := Nat.le_of_lt hsum
  refine Double.toUInt64_of_natural? (Double.natural?_sum hquantities hexact) ?_
  exact Nat.lt_trans hsum (by decide)

/-! ## The badge -/

/-- The count of units in the raw data, which goes before that of the lines. -/
def givenCount? (raw : Object) : Option Double :=
  ((raw.get? "cartCount").or (raw.get? "cart_count")).bind Value.number?

/-- **The units of a line**: the whole part of its quantity, and one without a quantity. -/
def lineUnits (item : Object) : UInt64 := ((item.number? "quantity").getD .one).toWord

/-- **The units that the badge adds**, line by line. -/
def badgeUnits (raw : Object) : List UInt64 := (Value.objects (badgeItems raw)).map lineUnits

/-- How many units there are in the lines together. -/
def unitCount (raw : Object) : Nat := ((badgeUnits raw).map UInt64.toNat).sum

variable {raw : Object}

theorem badge?_of_givenCount? {count : Double} (h : givenCount? raw = some count) :
    badge? raw = some count.toWord := by
  rw [badge?, ← givenCount?, h]
  exact congrArg some count.toWord_clampNegative

/-- **The badge is the sum of its lines.** -/
theorem badge?_eq_sum? (h : givenCount? raw = none) : badge? raw = Word.sum? (badgeUnits raw) := by
  rw [badge?, ← givenCount?, h]
  simp only [Double.toWord_clampNegative]
  rfl

/-- **The badge counts the units of its lines**, if they are a word together. -/
theorem map_toNat_badge? (h : givenCount? raw = none) :
    (badge? raw).map UInt64.toNat = Word.within? (unitCount raw) := by
  rw [badge?_eq_sum? h, Word.map_toNat_sum?, unitCount]

/-- The whole part of a quantity is what the badge counts for a line. -/
theorem unitCount_of_holds {units : List Nat} (h : Holds (badgeItems raw) units)
    (hsum : units.sum < 2 ^ 53) : unitCount raw = units.sum := by
  have hsome : ((badgeUnits raw).map UInt64.toNat).map some = units.map some := by
    rw [badgeUnits, List.map_map, List.map_map, ← h]
    refine List.map_congr_left fun item hitem => ?_
    have hmem : (CartLine.ofObject item).quantity.natural? ∈ units.map some := by
      rw [← h]
      exact List.mem_map_of_mem hitem
    obtain ⟨n, hn, hquantity⟩ := List.mem_map.1 hmem
    have hsize : n < UInt64.size :=
      Nat.lt_of_le_of_lt (List.le_sum_of_mem hn) (Nat.lt_trans hsum (by decide))
    show some (CartLine.ofObject item).quantity.toWord.toNat = _
    rw [Double.toNat_toWord, Double.toUInt64_of_natural? hquantity.symm hsize, hquantity]
  rw [unitCount, (List.map_inj_right fun _ _ => Option.some.inj).1 hsome]

/-- **The badge counts the units of the items that it reads**, unless the raw data has a count. -/
theorem badge?_of_holds {units : List Nat} (hcount : givenCount? raw = none)
    (h : Holds (badgeItems raw) units) (hsum : units.sum < 2 ^ 53) :
    (badge? raw).map UInt64.toNat = some units.sum := by
  rw [map_toNat_badge? hcount, unitCount_of_holds h hsum]
  exact Word.within?_of_lt (Nat.lt_trans hsum (by decide))

end Cart

/-! ## Pages -/

namespace PageBuilder

open Cart

/-- The badge of a header whose items hold units. -/
theorem cart_count_of_holds (b : PageBuilder) {raw : Object} {units : List Nat}
    (hcount : givenCount? raw = none) (h : Holds (badgeItems raw) units) (hsum : units.sum < 2 ^ 53) :
    (b.build? .header raw).bind (·.get? "cart_count") = some (.ofNat units.sum) := by
  have hshown := congrArg (Option.map Value.ofNat) (badge?_of_holds hcount h hsum)
  rw [Option.map_map, Option.map_some] at hshown
  exact (b.get?_build?_cart_count raw).trans hshown

/-- **The badge and the page of the cart agree where they read the same items.** The data has no
count of its own, and the lines of the items hold natural numbers of units that doubles count, as
they do when every quantity is a whole number or left out (`Cart.holds_of_lineUnits`). Then
the badge shows the units of its items, the page of the cart shows those of the items that it lists,
beside the cart and in it, and this is one count for data that both read alike. -/
theorem cart_count_agrees (b b' : PageBuilder) {raw : Object} {badged listed : List Nat}
    (hcount : ((raw.get? "cartCount").or (raw.get? "cart_count")).bind Value.number? = none)
    (hbadged : Holds (badgeItems raw) badged) (hbadgedSum : badged.sum < 2 ^ 53)
    (hlisted : Holds (listedItems raw) listed) (hlistedSum : listed.sum < 2 ^ 53) :
    (b.build? .header raw).bind (·.get? "cart_count") = some (.ofNat badged.sum) ∧
      (b'.build? .cart raw).bind (·.get? "item_count") = some (.ofNat listed.sum) ∧
      (∃ cart : Object, (b'.build? .cart raw).bind (·.get? "cart") = some (.obj cart) ∧
        cart.get? "item_count" = some (.ofNat listed.sum)) ∧
      (ReadsAlike raw → (b.build? .header raw).bind (·.get? "cart_count") =
        (b'.build? .cart raw).bind (·.get? "item_count")) := by
  have hbadge := b.cart_count_of_holds hcount hbadged hbadgedSum
  have hlines : (ofObject raw).itemCount = listed.sum := itemCount_of_holds hlisted hlistedSum
  refine ⟨hbadge, ?_, ⟨_, get?_build?_cart b' raw, ?_⟩, fun halike => ?_⟩
  · rw [get?_build?_item_count, hlines]
  · rw [get?_cart_item_count, hlines]
  · -- the same items hold the same units
    have hunits : badged.map some = listed.map some := by
      rw [← hbadged, ← hlisted, readsAlike_iff.1 halike]
    have hsame : badged = listed := (List.map_inj_right fun _ _ => Option.some.inj).1 hunits
    rw [hbadge, get?_build?_item_count, hlines, hsame]

/-- Items under `cart_items`, in front of others that neither reads. -/
theorem cart_count_agrees_behind :
    let raw : Object := [("items", .arr [.obj [("quantity", .ofNat 9)]]),
      ("cart_items", .arr [.obj [("quantity", .ofNat 2)], .str "gift", .obj []])]
    let b : PageBuilder := ⟨{}, {}, {}⟩
    (((raw.get? "cartCount").or (raw.get? "cart_count")).bind Value.number? = none ∧
      Holds (badgeItems raw) [2, 1] ∧ Holds (listedItems raw) [2, 1] ∧ ReadsAlike raw) ∧
      (b.build? .header raw).bind (·.get? "cart_count") = some (.ofNat 3) ∧
      (b.build? .header raw).bind (·.get? "cart_count") =
        (b.build? .cart raw).bind (·.get? "item_count") := by
  intro raw b
  have hholds : Holds [.obj [("quantity", .ofNat 2)], .str "gift", .obj []] [2, 1] :=
    holds_of_lineUnits rfl (by decide)
  have hcount : ((raw.get? "cartCount").or (raw.get? "cart_count")).bind Value.number? = none := rfl
  have halike : ReadsAlike raw := Or.inl rfl
  obtain ⟨hheader, -, -, hsame⟩ :=
    cart_count_agrees b b hcount hholds (by decide) hholds (by decide)
  exact ⟨⟨hcount, hholds, hholds, halike⟩, hheader, hsame halike⟩

/-- **Where they read different items.** The badge does not count the items under `items`, which the
page of the cart lists, and the page does not list the items under `cart_items` when there is a
`cartItems` that is no list, while the badge counts them. -/
theorem cart_count_differs :
    let items : Value := .arr [.obj [("quantity", .ofNat 5)]]
    let b : PageBuilder := ⟨{}, {}, {}⟩
    ((b.build? .header [("items", items)]).bind (·.get? "cart_count") = some (.ofNat 0) ∧
      (b.build? .cart [("items", items)]).bind (·.get? "item_count") = some (.ofNat 5)) ∧
      (b.build? .header [("cartItems", .null), ("cart_items", items)]).bind (·.get? "cart_count") =
        some (.ofNat 5) ∧
      (b.build? .cart [("cartItems", .null), ("cart_items", items)]).bind (·.get? "item_count") =
        some (.ofNat 0) := by
  intro items b
  have hfive : Holds [.obj [("quantity", .ofNat 5)]] [5] := holds_of_lineUnits rfl (by decide)
  have hnone : Holds [] [] := rfl
  have hlisted : (ofObject [("items", items)]).itemCount = List.sum [5] :=
    itemCount_of_holds hfive (by decide)
  have hstopped : (ofObject [("cartItems", .null), ("cart_items", items)]).itemCount = List.sum [] :=
    itemCount_of_holds hnone (by decide)
  have hmissed : (b.build? .header [("items", items)]).bind (·.get? "cart_count") =
      some (.ofNat (List.sum [])) := b.cart_count_of_holds rfl hnone (by decide)
  have hcounted :
      (b.build? .header [("cartItems", .null), ("cart_items", items)]).bind (·.get? "cart_count") =
        some (.ofNat (List.sum [5])) := b.cart_count_of_holds rfl hfive (by decide)
  simp only [hmissed, hcounted, get?_build?_item_count, hlisted, hstopped]
  exact ⟨⟨rfl, rfl⟩, rfl, rfl⟩

end PageBuilder

end Storefront
