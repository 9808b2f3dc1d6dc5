import Mathlib.Data.List.Pairwise

/-!
# Sorting by a whole number

Entries of a menu and options of a filter stand in the order of a whole number that
they carry, and sorting is stable: those with the same number stay as they come
(`filter_mergeSort_key`). So whatever held of each item and all behind it before
sorting, such as the order of their positions, still holds of items with the same
number (`pairwise_mergeSort_key`).
-/

namespace Storefront

variable {α : Type*} (key : α → Int)

/-- Items that are numbered stand in the order of their numbers. -/
theorem pairwise_zipIdx (items : List α) : items.zipIdx.Pairwise fun p q => p.2 < q.2 := by
  rw [← List.pairwise_map (f := Prod.snd) (R := fun i j => i < j), List.zipIdx_map_snd]
  exact List.pairwise_lt_range'

theorem key_trans (a b c : α) (hab : decide (key a ≤ key b)) (hbc : decide (key b ≤ key c)) :
    decide (key a ≤ key c) :=
  decide_eq_true (Int.le_trans (of_decide_eq_true hab) (of_decide_eq_true hbc))

theorem key_total (a b : α) : decide (key a ≤ key b) || decide (key b ≤ key a) := by
  rw [Bool.or_eq_true, decide_eq_true_eq, decide_eq_true_eq]
  exact Int.le_total (key a) (key b)

/-- **Sorting keeps the order of items that have the same key.** -/
theorem filter_mergeSort_key (items : List α) (k : Int) :
    (items.mergeSort fun a b => key a ≤ key b).filter (key · == k) = items.filter (key · == k) := by
  have hsame : (items.filter (key · == k)).Pairwise fun a b => decide (key a ≤ key b) := by
    refine List.pairwise_of_forall_mem_list fun a ha b hb => ?_
    rw [List.mem_filter, beq_iff_eq] at ha hb
    exact decide_eq_true (Int.le_of_eq (ha.2.trans hb.2.symm))
  have hsublist : (items.filter (key · == k)).Sublist (items.mergeSort fun a b => key a ≤ key b) :=
    List.sublist_mergeSort (key_trans key) (key_total key) hsame List.filter_sublist
  have hfilter := hsublist.filter (key · == k)
  simp only [List.filter_filter, Bool.and_self] at hfilter
  exact (hfilter.eq_of_length ((List.mergeSort_perm items _).filter _).length_eq.symm).symm

/-- **Sorted items come in the order of their keys**, and in the order they had where the keys are
the same. -/
theorem pairwise_mergeSort_key {R : α → α → Prop} {items : List α} (h : items.Pairwise R) :
    (items.mergeSort fun a b => key a ≤ key b).Pairwise
      fun a b => key a < key b ∨ key a = key b ∧ R a b := by
  have horder := (List.pairwise_mergeSort (key_trans key) (key_total key) items).imp of_decide_eq_true
  refine List.pairwise_iff_forall_sublist.2 fun {a b} hpair => ?_
  obtain hlt | heq := Int.lt_or_eq_of_le (horder.forall_sublist hpair)
  · exact .inl hlt
  · have hfilter := hpair.filter (key · == key a)
    rw [filter_mergeSort_key] at hfilter
    simp only [List.filter_cons, List.filter_nil, heq, beq_self_eq_true, if_true] at hfilter
    exact .inr ⟨heq, h.forall_sublist (hfilter.trans List.filter_sublist)⟩

end Storefront
