import Mathlib.Algebra.Order.Floor.Div
import Storefront.Proofs.Numerals
import Storefront.Proofs.Words

/-!
# Pages of products

Whether a page is there at all, and whether another one follows it, is one question
about products and pages: how many products the pages up to it hold
(`Pagination.totalPages_le_iff`). All else about pages follows from it. Those that
are there part the products among themselves, so that each product is on one page
(`Pagination.pages_partition`), and since no page that is there begins past the last
product, saturating products and sums are exact on them.

Past the last page there are no products to show, and there the text and the page
data go different ways: page data names the last product, the text the place where
the page would begin (`Pagination.text_range`).
-/

namespace Storefront

namespace Pagination

open Word (toNat_lt)

/-! ## Numbers that are words -/

/-- **The pagination of a page, a size and a number of products**, each a word. -/
def ofWords (page perPage total : UInt64) : Pagination :=
  ofNumbers page.toNat perPage.toNat total.toNat

theorem lt_size_of_read? {raw : Option Value} {keys : List String} {n : Nat}
    (h : read? raw keys = some n) : n < UInt64.size := by
  unfold read? at h
  split at h
  · exact absurd h.symm (Option.some_ne_none n)
  · obtain ⟨x, -, rfl⟩ := Option.map_eq_some_iff.1 h
    exact x.toUInt64_lt

theorem getD_read?_lt {raw : Option Value} {keys : List String} {n : Nat} (h : n < UInt64.size) :
    (read? raw keys).getD n < UInt64.size := by
  cases hread : read? raw keys with
  | none => exact h
  | some m => exact lt_size_of_read? hread

/-- **The words that raw data gives**: the numbers under the keys for them, and what stands in for
those that are missing. -/
structure Gives (raw : Option Value) (fallback page perPage total : UInt64) : Prop where
  /-- How many products there are, or else how many came along. -/
  total_eq : total.toNat = (read? raw ["total", "totalItems", "total_items"]).getD fallback.toNat
  /-- The page, or else the first. -/
  page_eq : page.toNat = (read? raw ["currentPage", "current_page", "page"]).getD 1
  /-- How many products a page holds, or else all of them. -/
  perPage_eq : perPage.toNat =
    (read? raw ["itemsPerPage", "items_per_page", "per_page", "perPage"]).getD (max total.toNat 1)

/-- **What is read from raw data are words**, whatever the data is. -/
theorem exists_ofRaw_eq (raw : Option Value) (fallback : UInt64) :
    ∃ page perPage total, Gives raw fallback page perPage total ∧
      ofRaw raw fallback.toNat = ofWords page perPage total := by
  have hone : 1 < UInt64.size := by decide
  have hread : ∀ (keys : List String) {n : Nat}, n < UInt64.size →
      ∃ w : UInt64, w.toNat = (read? raw keys).getD n :=
    fun _ _ h => Word.exists_toNat (getD_read?_lt h)
  obtain ⟨total, htotal⟩ := hread ["total", "totalItems", "total_items"] (toNat_lt fallback)
  obtain ⟨page, hpage⟩ := hread ["currentPage", "current_page", "page"] hone
  obtain ⟨perPage, hperPage⟩ :=
    hread ["itemsPerPage", "items_per_page", "per_page", "perPage"] (Nat.max_lt.2 ⟨toNat_lt total, hone⟩)
  refine ⟨page, perPage, total, ⟨htotal, hpage, hperPage⟩, ?_⟩
  rw [ofRaw, ofWords, hpage, hperPage, htotal]

theorem one_lt_limit : 1 < limit := by decide

theorem total_ofWords_le (page perPage total : UInt64) : (ofWords page perPage total).total ≤ limit :=
  Nat.le_of_lt_succ (toNat_lt total)

/-! ## Pages -/

/-- Another page of the same products. -/
def turnedTo (p : Pagination) (page : Nat) : Pagination := ofNumbers page p.perPage p.total

/-- Whether there is a page of that number. -/
def IsPage (p : Pagination) (page : Nat) : Prop := 1 ≤ page ∧ page ≤ p.totalPages

/-- Whether a product, counted from one, is on the page. -/
def Shows (p : Pagination) (n : Nat) : Prop := p.start ≤ n ∧ n ≤ p.stop

variable {p : Pagination}

/-- **So many pages are enough exactly when they hold all products.** -/
theorem totalPages_le_iff {n : Nat} : p.totalPages ≤ n ↔ p.total ≤ n * p.perPage := by
  have hpos := p.perPage_pos
  unfold totalPages
  split
  · next hzero =>
    rw [hzero]
    exact iff_of_true (Nat.zero_le n) (Nat.zero_le _)
  · split
    · next hrest =>
      have hwhole : p.total / p.perPage * p.perPage = p.total :=
        Nat.div_mul_cancel (Nat.dvd_of_mod_eq_zero hrest)
      rw [Nat.add_zero, ← Nat.mul_le_mul_right_iff hpos, hwhole]
    · next hrest =>
      rw [Nat.succ_le_iff, Nat.div_lt_iff_lt_mul hpos]
      refine ⟨Nat.le_of_lt, fun h => Nat.lt_of_le_of_ne h fun heq => hrest ?_⟩
      rw [heq, Nat.mul_mod_left]

theorem lt_totalPages_iff {n : Nat} : n < p.totalPages ↔ n * p.perPage < p.total := by
  rw [← Nat.not_le, totalPages_le_iff, Nat.not_le]

theorem totalPages_eq_ceilDiv : p.totalPages = p.total ⌈/⌉ p.perPage :=
  eq_of_forall_ge_iff fun n => by
    rw [totalPages_le_iff, ceilDiv_le_iff_le_mul p.perPage_pos, Nat.mul_comm]

/-- The current page is there exactly when there is a product behind the pages in front of it. -/
theorem current_le_totalPages_iff :
    p.current ≤ p.totalPages ↔ (p.current - 1) * p.perPage < p.total := by
  have hpos := p.current_pos
  rw [← lt_totalPages_iff]
  omega

/-- A page that is there begins behind the products in front of it. -/
theorem start_eq (htotal : p.total ≤ limit) (h : p.current ≤ p.totalPages) :
    p.start = (p.current - 1) * p.perPage + 1 := by
  have hlt := current_le_totalPages_iff.1 h
  unfold start saturated
  omega

/-- A page that is not there begins past the last product, as far as there are words. -/
theorem start_past (htotal : p.total ≤ limit) (h : ¬p.current ≤ p.totalPages) :
    min (p.total + 1) limit ≤ p.start := by
  have hle := Nat.le_of_not_lt fun hlt => h (current_le_totalPages_iff.2 hlt)
  unfold start saturated
  omega

theorem start_le_limit : p.start ≤ limit := Nat.min_le_right _ _

/-- The last product of a page is not cut where words end. -/
theorem stop_eq (htotal : p.total ≤ limit) : p.stop = min (p.current * p.perPage) p.total := by
  unfold stop saturated
  omega

/-- **The pages that begin among the products** are those that are there, and one more where the
products end with the words. -/
theorem start_le_total_iff (htotal : p.total ≤ limit) :
    p.start ≤ p.total ↔ p.current ≤ p.totalPages ∨ p.total = limit := by
  by_cases h : p.current ≤ p.totalPages
  · have hlt := current_le_totalPages_iff.1 h
    rw [start_eq htotal h]
    exact iff_of_true hlt (.inl h)
  · have hpast := start_past htotal h
    have hlimit := p.start_le_limit
    rw [or_iff_right h]
    omega

/-- A page that begins among the products has some. -/
theorem start_le_stop_iff (htotal : p.total ≤ limit) : p.start ≤ p.stop ↔ p.start ≤ p.total := by
  have hpos := p.perPage_pos
  have hnext : (p.current - 1) * p.perPage + p.perPage = p.current * p.perPage := by
    rw [← Nat.succ_mul, Nat.succ_eq_add_one, Nat.sub_add_cancel p.current_pos]
  have hstart : p.start ≤ (p.current - 1) * p.perPage + 1 := by
    unfold start saturated
    omega
  rw [stop_eq htotal]
  omega

theorem hasNext_iff_stop_lt (htotal : p.total ≤ limit) : p.hasNext = true ↔ p.stop < p.total := by
  rw [hasNext, decide_eq_true_iff, lt_totalPages_iff, stop_eq htotal]
  omega

theorem hasPrevious_iff_lt_start : p.hasPrevious = true ↔ 1 < p.start := by
  have hlimit := one_lt_limit
  have hsome : 1 < p.current ↔ 0 < (p.current - 1) * p.perPage := by
    rw [Nat.mul_pos_iff_of_pos_right p.perPage_pos, Nat.sub_pos_iff_lt]
  rw [hasPrevious, decide_eq_true_iff, hsome]
  unfold start saturated
  omega

/-! ## Turning pages -/

theorem perPage_turnedTo (k : Nat) : (p.turnedTo k).perPage = p.perPage :=
  Nat.max_eq_left p.perPage_pos

theorem totalPages_turnedTo (k : Nat) : (p.turnedTo k).totalPages = p.totalPages := by
  unfold totalPages
  rw [perPage_turnedTo]
  rfl

theorem current_turnedTo {k : Nat} (h : 1 ≤ k) : (p.turnedTo k).current = k := Nat.max_eq_left h

/-- A page of that number is there. -/
theorem IsPage.current_le {k : Nat} (h : p.IsPage k) :
    (p.turnedTo k).current ≤ (p.turnedTo k).totalPages := by
  rw [current_turnedTo h.1, totalPages_turnedTo]
  exact h.2

theorem start_turnedTo (htotal : p.total ≤ limit) {k : Nat} (h : p.IsPage k) :
    (p.turnedTo k).start = (k - 1) * p.perPage + 1 := by
  rw [start_eq (p := p.turnedTo k) htotal h.current_le, current_turnedTo h.1, perPage_turnedTo]

theorem stop_turnedTo (htotal : p.total ≤ limit) {k : Nat} (h : 1 ≤ k) :
    (p.turnedTo k).stop = min (k * p.perPage) p.total := by
  rw [stop_eq (p := p.turnedTo k) htotal, current_turnedTo h, perPage_turnedTo]
  rfl

/-- A page ends before its last product's successor, which the next page begins with. -/
theorem stop_turnedTo_of_isPage (htotal : p.total ≤ limit) {k : Nat} (h : 1 ≤ k)
    (hnext : p.IsPage (k + 1)) : (p.turnedTo k).stop = k * p.perPage := by
  have hlt := lt_totalPages_iff.1 (Nat.lt_of_succ_le hnext.2)
  rw [stop_turnedTo htotal h]
  omega

/-- **The page of a product** is told by the products in front of it. -/
theorem shows_turnedTo_iff (htotal : p.total ≤ limit) {k n : Nat} (h : p.IsPage k) (hn : 1 ≤ n)
    (hle : n ≤ p.total) : (p.turnedTo k).Shows n ↔ (n - 1) / p.perPage = k - 1 := by
  have hpos := p.perPage_pos
  have hnext : (k - 1) * p.perPage + p.perPage = k * p.perPage := by
    rw [← Nat.succ_mul, Nat.succ_eq_add_one, Nat.sub_add_cancel h.1]
  rw [Shows, start_turnedTo htotal h, stop_turnedTo htotal h.1, Nat.div_eq_iff hpos]
  omega

/-- **Each product is on one page.** -/
theorem existsUnique_page (htotal : p.total ≤ limit) {n : Nat} (hn : 1 ≤ n) (hle : n ≤ p.total) :
    ∃! k, p.IsPage k ∧ (p.turnedTo k).Shows n := by
  have hpage : p.IsPage ((n - 1) / p.perPage + 1) := by
    refine ⟨Nat.succ_pos _, Nat.succ_le_of_lt (lt_totalPages_iff.2 ?_)⟩
    have hfront := Nat.div_mul_le_self (n - 1) p.perPage
    omega
  refine ⟨_, ⟨hpage, (shows_turnedTo_iff htotal hpage hn hle).2 rfl⟩, ?_⟩
  rintro k ⟨hk, hshows⟩
  have hdiv := (shows_turnedTo_iff htotal hk hn hle).1 hshows
  have hpos := hk.1
  omega

/-- **Pages that part the products among themselves.** -/
structure Parted (p : Pagination) : Prop where
  /-- There are as many pages as are needed. -/
  totalPages_eq : p.totalPages = p.total ⌈/⌉ p.perPage
  /-- No page is empty. -/
  start_le_stop : ∀ k, p.IsPage k → (p.turnedTo k).start ≤ (p.turnedTo k).stop
  /-- The first page begins with the first product. -/
  start_first : (p.turnedTo 1).start = 1
  /-- Each page begins where the one in front of it ends. -/
  start_next : ∀ k, 1 ≤ k → p.IsPage (k + 1) → (p.turnedTo (k + 1)).start = (p.turnedTo k).stop + 1
  /-- The last page ends with the last product. -/
  stop_last : p.IsPage p.totalPages → (p.turnedTo p.totalPages).stop = p.total
  /-- Each product is on one page. -/
  existsUnique : ∀ n, 1 ≤ n → n ≤ p.total → ∃! k, p.IsPage k ∧ (p.turnedTo k).Shows n
  /-- Another page follows exactly when there are products left. -/
  hasNext_iff : p.hasNext = true ↔ p.stop < p.total
  /-- Another page comes before exactly when there are products in front. -/
  hasPrevious_iff : p.hasPrevious = true ↔ 1 < p.start

theorem parted (htotal : p.total ≤ limit) : p.Parted where
  totalPages_eq := totalPages_eq_ceilDiv
  start_le_stop k h :=
    (start_le_stop_iff (p := p.turnedTo k) htotal).2
      ((start_le_total_iff (p := p.turnedTo k) htotal).2 (.inl h.current_le))
  start_first := by
    have hlimit := one_lt_limit
    have hzero : ((p.turnedTo 1).current - 1) * (p.turnedTo 1).perPage = 0 := Nat.zero_mul _
    rw [start, hzero, saturated, saturated]
    omega
  start_next k h hnext := by
    rw [start_turnedTo htotal hnext, stop_turnedTo_of_isPage htotal h hnext, Nat.add_sub_cancel]
  stop_last h := by
    rw [stop_turnedTo htotal h.1]
    exact Nat.min_eq_right (totalPages_le_iff.1 le_rfl)
  existsUnique _ hn hle := existsUnique_page htotal hn hle
  hasNext_iff := hasNext_iff_stop_lt htotal
  hasPrevious_iff := hasPrevious_iff_lt_start

/-! ## Figures in words -/

/-- **The figures of a page**, as words. -/
structure Figures where
  /-- How many pages there are. -/
  totalPages : UInt64
  /-- The first product of the page. -/
  start : UInt64
  /-- The last one. -/
  stop : UInt64
  /-- The page before, if there is one. -/
  previous : Option UInt64
  /-- The page after, if there is one. -/
  next : Option UInt64

namespace Figures

open Word

/-- The number of pages, computed in words. -/
def totalPages? (perPage total : UInt64) : Option UInt64 :=
  if total = 0 then some 0
  else do
    let whole ← div? total perPage
    let rest ← mod? total perPage
    add? whole (if rest = 0 then 0 else 1)

/-- The page before, computed in words, once it is known that there is one. -/
def previous? (page : UInt64) : Option (Option UInt64) :=
  if 1 < page then (sub? page 1).map some else some none

/-- **The figures computed in words.** There are none when a quotient, a sum or a difference is no
word; products, and the sums and differences around them, saturate. -/
def ofWords? (page perPage total : UInt64) : Option Figures := do
  let page := max page 1
  let perPage := max perPage 1
  let totalPages ← totalPages? perPage total
  let previous ← previous? page
  return {
    totalPages
    start := addSaturating (mulSaturating (subSaturating page 1) perPage) 1
    stop := min (mulSaturating page perPage) total
    previous
    next := if page < totalPages then some (addSaturating page 1) else none }

/-- **Figures that are those of a pagination**, none of them cut. -/
structure Exact (f : Figures) (p : Pagination) : Prop where
  /-- The number of pages. -/
  totalPages : f.totalPages.toNat = p.totalPages
  /-- The first product. -/
  start : f.start.toNat = p.start
  /-- The last product. -/
  stop : f.stop.toNat = p.stop
  /-- The page before. -/
  previous : f.previous.map UInt64.toNat = if p.hasPrevious then some (p.current - 1) else none
  /-- The page after. -/
  next : f.next.map UInt64.toNat = if p.hasNext then some (p.current + 1) else none

variable {p : Pagination}

/-- **The pages are counted without leaving the words**: there are no more of them than products. -/
theorem exists_totalPages? {perPage total : UInt64} (hperPage : perPage.toNat = p.perPage)
    (htotal : total.toNat = p.total) :
    ∃ w, totalPages? perPage total = some w ∧ w.toNat = p.totalPages := by
  have hzero : total = 0 ↔ p.total = 0 := by rw [← htotal, ← UInt64.toNat_inj, UInt64.toNat_zero]
  have hrest : total % perPage = 0 ↔ p.total % p.perPage = 0 := by
    rw [← htotal, ← hperPage, ← UInt64.toNat_mod, ← UInt64.toNat_inj, UInt64.toNat_zero]
  unfold totalPages?
  split
  · next h => exact ⟨0, rfl, by rw [Pagination.totalPages, if_pos (hzero.1 h), UInt64.toNat_zero]⟩
  · next h =>
    have hpos : perPage.toNat ≠ 0 := hperPage ▸ Nat.ne_of_gt p.perPage_pos
    have hsum : (total / perPage).toNat + (if total % perPage = 0 then 0 else 1 : UInt64).toNat =
        p.totalPages := by
      rw [Pagination.totalPages, if_neg (mt hzero.2 h), UInt64.toNat_div, htotal, hperPage,
        apply_ite UInt64.toNat]
      simp only [hrest]
      rfl
    have hlt : p.totalPages < UInt64.size :=
      Nat.lt_of_le_of_lt (totalPages_le_iff.2 (Nat.le_mul_of_pos_right _ p.perPage_pos))
        (htotal ▸ toNat_lt total)
    have hadd := map_toNat_add? (total / perPage) (if total % perPage = 0 then 0 else 1)
    rw [hsum, within?_of_lt hlt] at hadd
    obtain ⟨w, hw, hpages⟩ := Option.map_eq_some_iff.1 hadd
    refine ⟨w, ?_, hpages⟩
    rw [div?, mod?, if_neg hpos, if_neg hpos]
    exact hw

/-- The page before is there when it is asked for. -/
theorem exists_previous? {page : UInt64} (hpage : page.toNat = p.current) :
    ∃ r, previous? page = some r ∧
      r.map UInt64.toNat = if p.hasPrevious then some (p.current - 1) else none := by
  have hone : (1 : UInt64).toNat ≤ page.toNat := hpage ▸ p.current_pos
  have hmore : 1 < page ↔ p.hasPrevious = true := by
    rw [hasPrevious, decide_eq_true_iff, ← hpage]
    exact UInt64.lt_iff_toNat_lt
  unfold previous?
  split
  · next h =>
    refine ⟨some (page - 1), ?_, ?_⟩
    · rw [sub?, if_pos hone, Option.map_some]
    · rw [if_pos (hmore.1 h), Option.map_some, ← hpage,
        UInt64.toNat_sub_of_le _ _ (UInt64.le_iff_toNat_le.2 hone)]
      rfl
  · next h => exact ⟨none, rfl, (if_neg (mt hmore.2 h)).symm⟩

/-- The page after is one more, which is a word as long as there is such a page. -/
theorem map_next {page totalPages : UInt64} (hpage : page.toNat = p.current)
    (hpages : totalPages.toNat = p.totalPages) :
    (if page < totalPages then some (addSaturating page 1) else none).map UInt64.toNat =
      if p.hasNext then some (p.current + 1) else none := by
  have hmore : page < totalPages ↔ p.hasNext = true := by
    rw [hasNext, decide_eq_true_iff, ← hpages, ← hpage]
    exact UInt64.lt_iff_toNat_lt
  split
  · next h =>
    have hword : p.current + 1 ≤ limit := by
      rw [← hpage]
      exact Nat.le_trans (UInt64.lt_iff_toNat_lt.1 h) (Nat.le_of_lt_succ (toNat_lt totalPages))
    rw [if_pos (hmore.1 h), Option.map_some, toNat_addSaturating, hpage]
    exact congrArg some (Nat.min_eq_left hword)
  · next h => exact (if_neg (mt hmore.2 h)).symm

/-- **All figures are computed without leaving the words.** -/
theorem exists_ofWords? (page perPage total : UInt64) :
    ∃ f, ofWords? page perPage total = some f ∧ f.Exact (Pagination.ofWords page perPage total) := by
  have hpage : (max page 1).toNat = (Pagination.ofWords page perPage total).current :=
    UInt64.toNat_max _ _
  have hperPage : (max perPage 1).toNat = (Pagination.ofWords page perPage total).perPage :=
    UInt64.toNat_max _ _
  obtain ⟨w, hw, hpages⟩ :=
    exists_totalPages? hperPage (p := Pagination.ofWords page perPage total) rfl
  obtain ⟨r, hr, hprevious⟩ := exists_previous? hpage
  refine ⟨_, by rw [ofWords?, hw, hr]; rfl, {
    totalPages := hpages
    start := ?_
    stop := ?_
    previous := hprevious
    next := map_next hpage hpages }⟩
  · rw [toNat_addSaturating, toNat_mulSaturating, toNat_subSaturating, hpage, hperPage]
    rfl
  · rw [UInt64.toNat_min, toNat_mulSaturating, hpage, hperPage]
    rfl

end Figures

/-- **Pages part the products among themselves.** Whatever words the page, its size and the number of
products are, and whatever raw data gives them, sizes and pages count as one at least, the pages
that there are part the products, the pages before and after are there when products are, and
all this is computed without leaving the words. -/
theorem pages_partition :
    (∀ (raw : Option Value) (fallback : UInt64), ∃ page perPage total,
      Gives raw fallback page perPage total ∧
        ofRaw raw fallback.toNat = ofWords page perPage total) ∧
    ∀ page perPage total : UInt64,
      ((ofWords page perPage total).current = max page.toNat 1 ∧
        (ofWords page perPage total).perPage = max perPage.toNat 1 ∧
        (ofWords page perPage total).total = total.toNat) ∧
      (ofWords page perPage total).Parted ∧
      ∃ f, Figures.ofWords? page perPage total = some f ∧ f.Exact (ofWords page perPage total) :=
  ⟨exists_ofRaw_eq, fun page perPage total =>
    ⟨⟨rfl, rfl, rfl⟩, parted (total_ofWords_le page perPage total),
      Figures.exists_ofWords? page perPage total⟩⟩

/-! ## What the text says -/

/-- **A text that names a range of products.** -/
def rangeText (first last total : Nat) (rest : String) : String :=
  intText first ++ "-" ++ intText last ++ " of " ++ intText total ++ rest

theorem toList_rangeText (first last total : Nat) (rest : String) :
    (rangeText first last total rest).toList =
      natDigits first ++ '-' :: (natDigits last ++ ' ' ::
        ("of ".toList ++ natDigits total ++ rest.toList)) := by
  simp only [rangeText, String.toList_append, toList_intText, List.append_assoc]
  rfl

/-- A range is told by its text. -/
theorem rangeText_inj {first last first' last' total : Nat} {rest rest' : String}
    (h : rangeText first last total rest = rangeText first' last' total rest') :
    first = first' ∧ last = last' := by
  have hchars := congrArg String.toList h
  rw [toList_rangeText, toList_rangeText] at hchars
  obtain ⟨hfirst, -, htail⟩ := natDigits_append_cons_inj rfl rfl hchars
  exact ⟨hfirst, (natDigits_append_cons_inj rfl rfl htail).1⟩

/-- A text that names no range is none that does. -/
theorem count_ne_rangeText (n : Nat) (noun : String) (first last total : Nat) (rest : String) :
    intText n ++ " " ++ noun ≠ rangeText first last total rest := by
  intro h
  have hchars := congrArg String.toList h
  have hcount : (intText n ++ " " ++ noun).toList = natDigits n ++ ' ' :: noun.toList := by
    simp only [String.toList_append, toList_intText, List.append_assoc]
    rfl
  rw [hcount, toList_rangeText] at hchars
  exact absurd (natDigits_append_cons_inj rfl rfl hchars).2.1 (by decide)

/-- **The text names a range of products** when there are some, and not all of them are on the page;
the range is that of the page. -/
theorem text_eq_rangeText_iff (htotal : 0 < p.total) {first last : Nat} :
    (∃ rest, p.text = rangeText first last p.total rest) ↔
      (first = p.start ∧ last = p.stop) ∧ ¬(p.start ≤ 1 ∧ p.total ≤ p.stop) := by
  unfold text
  rw [if_neg (Nat.ne_of_gt htotal)]
  dsimp only
  split
  · next hall =>
    refine iff_of_false ?_ fun h => h.2 hall
    rintro ⟨rest, h⟩
    exact count_ne_rangeText _ _ _ _ _ _ h
  · next hpart =>
    have htext : ∀ noun, intText p.start ++ "-" ++ intText p.stop ++ " of " ++
        (intText p.total ++ " " ++ noun) = rangeText p.start p.stop p.total (" " ++ noun) :=
      fun noun => by simp only [rangeText, String.append_assoc]
    rw [htext]
    constructor
    · rintro ⟨rest, h⟩
      obtain ⟨hfirst, hlast⟩ := rangeText_inj h
      exact ⟨⟨hfirst.symm, hlast.symm⟩, hpart⟩
    · rintro ⟨⟨rfl, rfl⟩, -⟩
      exact ⟨_, rfl⟩

/-- The range in page data, of which the first product is never past the last one there is. -/
theorem exists_toValue (p : Pagination) :
    ∃ fields : Object, p.toValue = .obj fields ∧
      fields.get? "start" = some (.ofNat (min p.start p.total)) ∧
      fields.get? "end" = some (.ofNat p.stop) :=
  ⟨_, rfl, rfl, rfl⟩

/-- The last page that is there ends with the last product, and so do those behind it. -/
theorem stop_past (htotal : p.total ≤ limit) (h : p.totalPages ≤ p.current) : p.stop = p.total := by
  rw [stop_eq htotal]
  exact Nat.min_eq_right (totalPages_le_iff.1 h)

/-- **The text and the page data name the same range on a page that is there.** The last product is
the same on every page. So is the first one, and it is not behind the last one, if the page is there or the
products end with the words; on all other pages both products of the page data are the last one there is,
and the text begins past it. -/
theorem text_range (page perPage total : UInt64) (htotal : 0 < total) {first last : Nat}
    {rest : String}
    (h : (ofWords page perPage total).text = rangeText first last total.toNat rest) :
    ∃ fields : Object, (ofWords page perPage total).toValue = .obj fields ∧
      fields.get? "end" = some (.ofNat last) ∧
      ((ofWords page perPage total).current ≤ (ofWords page perPage total).totalPages ∨
          total.toNat = limit → fields.get? "start" = some (.ofNat first) ∧ first ≤ last) ∧
      (¬((ofWords page perPage total).current ≤ (ofWords page perPage total).totalPages ∨
          total.toNat = limit) →
        fields.get? "start" = some (.ofNat last) ∧ last = total.toNat ∧ total.toNat < first) := by
  have hle := total_ofWords_le page perPage total
  have hsome : 0 < (ofWords page perPage total).total := UInt64.lt_iff_toNat_lt.1 htotal
  obtain ⟨⟨rfl, rfl⟩, -⟩ := (text_eq_rangeText_iff hsome).1 ⟨rest, h⟩
  obtain ⟨fields, hvalue, hstart, hstop⟩ := exists_toValue (ofWords page perPage total)
  refine ⟨fields, hvalue, hstop, fun hthere => ?_, fun hpast => ?_⟩
  · have hwithin := (start_le_total_iff hle).2 hthere
    rw [Nat.min_eq_left hwithin] at hstart
    exact ⟨hstart, (start_le_stop_iff hle).2 hwithin⟩
  · have hbehind := Nat.lt_of_not_le (mt (start_le_total_iff hle).1 hpast)
    have hlast := stop_past hle (Nat.le_of_not_le fun hcurrent => hpast (.inl hcurrent))
    rw [Nat.min_eq_right (Nat.le_of_lt hbehind), ← hlast] at hstart
    exact ⟨hstart, hlast, hbehind⟩

/-- The last of three pages. -/
theorem text_range_last :
    ((0 : UInt64) < 30 ∧ (ofWords 3 12 30).text = rangeText 25 30 30 " products") ∧
      ∃ fields : Object, (ofWords 3 12 30).toValue = .obj fields ∧
        fields.get? "start" = some (.ofNat 25) ∧ fields.get? "end" = some (.ofNat 30) := by
  have hsome : (0 : UInt64) < 30 := by decide
  have htext : (ofWords 3 12 30).text = rangeText 25 30 30 " products" := by decide +kernel
  obtain ⟨fields, hvalue, hend, hthere, -⟩ := text_range 3 12 30 hsome htext
  exact ⟨⟨hsome, htext⟩, fields, hvalue, (hthere (.inl (by decide))).1, hend⟩

/-- **A page that is not there**: its text begins behind the products and behind its own end, where
the page data has another number. -/
theorem text_range_past :
    (ofWords 5 10 24).text = rangeText 41 24 24 " products" ∧ ¬41 ≤ 24 ∧
      ∃ fields : Object, (ofWords 5 10 24).toValue = .obj fields ∧
        fields.get? "start" = some (.ofNat 24) ∧ fields.get? "start" ≠ some (.ofNat 41) := by
  obtain ⟨fields, hvalue, hstart, -⟩ := exists_toValue (ofWords 5 10 24)
  have hlast : min (ofWords 5 10 24).start (ofWords 5 10 24).total = 24 := by decide
  rw [hlast] at hstart
  refine ⟨by decide +kernel, by decide, fields, hvalue, hstart, ?_⟩
  rw [hstart]
  simp [Value.ofNat]

end Pagination

end Storefront
