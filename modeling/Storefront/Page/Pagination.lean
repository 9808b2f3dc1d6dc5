import Storefront.Data.Loose

/-!
# Pagination

A list of products is cut into pages. Numbers of pages and products are natural
numbers of 64 bits; sums and products that exceed them stop at the largest one
(`Pagination.limit`), so whatever a request asks for, nothing wraps.
-/

namespace Storefront

/-- **Where one is in a list of pages.** -/
structure Pagination where
  /-- The current page, counted from one. -/
  current : Nat
  /-- How many products a page holds, at least one. -/
  perPage : Nat
  /-- How many products there are. -/
  total : Nat
  /-- Pages are counted from one. -/
  current_pos : 1 ≤ current
  /-- No page is empty by its size. -/
  perPage_pos : 1 ≤ perPage
  deriving DecidableEq

namespace Pagination

/-- The largest number of 64 bits. -/
def limit : Nat := UInt64.size - 1

/-- A number that stops at the limit. -/
def saturated (n : Nat) : Nat := min n limit

/-- The pagination of a page, which is at least the first and holds at least one product. -/
def ofNumbers (current perPage total : Nat) : Pagination :=
  ⟨max current 1, max perPage 1, total, Nat.le_max_right .., Nat.le_max_right ..⟩

/-! ## Reading -/

/-- The number under the first of the keys that has one, cut to a whole number; none when it is
negative. -/
def read? (raw : Option Value) (keys : List String) : Option Nat :=
  match raw.bind Value.object? with
  | none => none
  | some fields =>
    ((keys.findSome? fun key => fields.number? key).filter fun x => Double.zero.atMost x).map (·.toUInt64)

/-- **The pagination in the raw data of a page.** Without it, the `fallback` products are all on
one page. -/
def ofRaw (raw : Option Value) (fallback : Nat) : Pagination :=
  let total := (read? raw ["total", "totalItems", "total_items"]).getD fallback
  let current := (read? raw ["currentPage", "current_page", "page"]).getD 1
  let perPage :=
    (read? raw ["itemsPerPage", "items_per_page", "per_page", "perPage"]).getD (max total 1)
  ofNumbers current perPage total

/-! ## Pages -/

/-- How many pages there are. -/
def totalPages (p : Pagination) : Nat :=
  if p.total = 0 then 0 else p.total / p.perPage + if p.total % p.perPage = 0 then 0 else 1

/-- The first product of the page, counted from one, even past the last. -/
def start (p : Pagination) : Nat := saturated (saturated ((p.current - 1) * p.perPage) + 1)

/-- The last product of the page. -/
def stop (p : Pagination) : Nat := min (saturated (p.current * p.perPage)) p.total

/-- Whether there is a page before. -/
def hasPrevious (p : Pagination) : Bool := 1 < p.current

/-- Whether there is a page after. -/
def hasNext (p : Pagination) : Bool := p.current < p.totalPages

/-- **What shoppers see**: how many products there are, and which are on the page unless all
are. -/
def text (p : Pagination) : String :=
  if p.total = 0 then "No products found"
  else
    let noun := if p.total = 1 then "product" else "products"
    let count := intText p.total ++ " " ++ noun
    if p.start ≤ 1 ∧ p.total ≤ p.stop then count
    else intText p.start ++ "-" ++ intText p.stop ++ " of " ++ count

/-- **The pagination as page data.** -/
def toValue (p : Pagination) : Value :=
  .obj [("current_page", .ofNat p.current), ("per_page", .ofNat p.perPage), ("total", .ofNat p.total),
    ("total_pages", .ofNat p.totalPages), ("start", .ofNat (min p.start p.total)),
    ("end", .ofNat p.stop), ("has_previous", .bool p.hasPrevious), ("has_next", .bool p.hasNext),
    ("previous_page", if p.hasPrevious then .ofNat (p.current - 1) else .null),
    ("next_page", if p.hasNext then .ofNat (saturated (p.current + 1)) else .null),
    ("text", .str p.text)]

end Pagination

end Storefront
