import Storefront.Proofs.Badges

/-!
# How the badge adds up

The units of a line are a word: the whole part of its quantity, cut to the range of
words, whatever the quantity is. The badge adds these words, and its sum is not cut:
as long as the units of all lines together are no more than a word holds, the badge
shows them all; one unit more, and there is no badge, and so no header either
(`PageBuilder.cart_count_exact_or_none`). The largest quantity in a line and a
single unit in another are enough. Nothing else keeps a page from being made.
-/

namespace Storefront

open Pagination (limit)

namespace Cart

/-- **When there is no badge**: the raw data has no count of its own, and the lines have more units
than a word holds. -/
theorem badge?_eq_none_iff {raw : Object} :
    badge? raw = none ↔ givenCount? raw = none ∧ UInt64.size ≤ unitCount raw := by
  cases hcount : givenCount? raw with
  | some count =>
    rw [badge?_of_givenCount? hcount]
    exact iff_of_false (Option.some_ne_none _) fun h => Option.some_ne_none _ h.1
  | none =>
    rw [← Option.map_eq_none_iff (f := UInt64.toNat), map_toNat_badge? hcount,
      Word.within?_eq_none_iff, and_iff_right rfl]

/-- A count that is shown if it is a word is the cut count exactly if nothing is cut. -/
theorem map_within?_eq_min_iff (n : Nat) :
    (Word.within? n).map Value.ofNat = some (.ofNat (min n limit)) ↔ n < UInt64.size := by
  have hsize : UInt64.size = limit + 1 := rfl
  by_cases h : n < UInt64.size
  · have hle : n ≤ limit := by omega
    rw [Word.within?_of_lt h, Nat.min_eq_left hle]
    exact iff_of_true rfl h
  · rw [Word.within?_eq_none_iff.2 (Nat.le_of_not_lt h)]
    exact iff_of_false nofun h

end Cart

theorem PageBundle.render?_eq_none_iff {p : PageBundle} {source : String} {options : PageOptions} :
    p.render? source options = none ↔ p.kind = .header ∧ Cart.badge? p.data = none :=
  Option.map_eq_none_iff.trans PageBuilder.build?_eq_none_iff

namespace PageBuilder

open Cart

/-- **The badge shows all units, or there is no header.** A count in the raw data is cut to the range
of words. Without one the badge shows the units of all lines together as long as they are a word, and
otherwise nothing is made of the raw data. So the badge is the cut count exactly if nothing
is cut. A bundle gives no page in this case only, whatever its template is. -/
theorem cart_count_exact_or_none (b : PageBuilder) (raw : Object) :
    (∀ count, givenCount? raw = some count →
      (b.build? .header raw).bind (·.get? "cart_count") = some (.ofNat count.toWord.toNat)) ∧
    (givenCount? raw = none →
      (b.build? .header raw).bind (·.get? "cart_count") =
          (Word.within? (unitCount raw)).map Value.ofNat ∧
        (b.build? .header raw = none ↔ UInt64.size ≤ unitCount raw) ∧
        ((b.build? .header raw).bind (·.get? "cart_count") = some (.ofNat (min (unitCount raw) limit)) ↔
          unitCount raw < UInt64.size)) ∧
    ∀ (p : PageBundle) (options : PageOptions) (source : String),
      p.render? source options = none ↔
        p.kind = .header ∧ givenCount? p.data = none ∧ UInt64.size ≤ unitCount p.data := by
  refine ⟨fun count hcount => ?_, fun hcount => ?_, fun p options source => ?_⟩
  · rw [get?_build?_cart_count, badge?_of_givenCount? hcount, Option.map_some]
  · have hshown : (b.build? .header raw).bind (·.get? "cart_count") =
        (Word.within? (unitCount raw)).map Value.ofNat := by
      rw [get?_build?_cart_count, ← map_toNat_badge? hcount, Option.map_map]
      rfl
    refine ⟨hshown, ?_, ?_⟩
    · rw [build?_eq_none_iff, badge?_eq_none_iff, and_iff_right rfl, and_iff_right hcount]
    · rw [hshown]
      exact map_within?_eq_min_iff (unitCount raw)
  · rw [PageBundle.render?_eq_none_iff, badge?_eq_none_iff]

/-- Quantities as number, as text and left out, and a count that hides them. -/
theorem cart_count_exact_or_none_kinds :
    let items : Value :=
      .arr [.obj [("quantity", .str " 2.9 ")], .null, .obj [("quantity", .ofNat 3)], .obj []]
    let counted : Object := [("cartItems", items), ("cart_count", .str "1e30")]
    let b : PageBuilder := ⟨{}, {}, {}⟩
    (givenCount? [("cartItems", items)] = none ∧
      (b.build? .header [("cartItems", items)]).bind (·.get? "cart_count") = some (.ofNat 6)) ∧
    (∃ count, givenCount? counted = some count ∧
      (b.build? .header counted).bind (·.get? "cart_count") = some (.ofNat limit)) := by
  intro items counted b
  have hnone : givenCount? [("cartItems", items)] = none := rfl
  have hunits : unitCount [("cartItems", items)] = 6 := by decide +kernel
  have hshown := ((cart_count_exact_or_none b [("cartItems", items)]).2.1 hnone).1
  rw [hunits] at hshown
  obtain ⟨count, hcount⟩ : ∃ count, givenCount? counted = some count :=
    Option.isSome_iff_exists.1 (by decide +kernel)
  have hgiven := (cart_count_exact_or_none b counted).1 count hcount
  have hlimit : (givenCount? counted).map (·.toWord.toNat) = some limit := by decide +kernel
  rw [hcount, Option.map_some, Option.some.injEq] at hlimit
  rw [hlimit] at hgiven
  exact ⟨⟨hnone, hshown⟩, count, hcount, hgiven⟩

/-- **One unit too many**: a line with as many units as a word holds and a line with one leave no
badge and no header. -/
theorem cart_count_missing :
    let raw : Object := [("cartItems", .arr [.obj [("quantity", .ofNat limit)], .obj []])]
    let b : PageBuilder := ⟨{}, {}, {}⟩
    (badgeUnits raw).map UInt64.toNat = [limit, 1] ∧ badge? raw = none ∧
      b.build? .header raw = none ∧
      (b.build? .header raw).bind (·.get? "cart_count") ≠ some (.ofNat (min (unitCount raw) limit)) := by
  intro raw b
  have hunits : (badgeUnits raw).map UInt64.toNat = [limit, 1] := by decide +kernel
  have hcount : unitCount raw = UInt64.size := by rw [unitCount, hunits]; rfl
  have hbadge : badge? raw = none := badge?_eq_none_iff.2 ⟨rfl, Nat.le_of_eq hcount.symm⟩
  have hbuild : b.build? .header raw = none := build?_eq_none_iff.2 ⟨rfl, hbadge⟩
  refine ⟨hunits, hbadge, hbuild, ?_⟩
  rw [hbuild, Option.bind_none]
  exact (Option.some_ne_none _).symm

end PageBuilder

end Storefront
