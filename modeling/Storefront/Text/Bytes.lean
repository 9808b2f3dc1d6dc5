/-!
# Slices by bytes

Positions in a template count the bytes of its UTF-8 form. A slice is taken from
the characters by adding up their sizes.
-/

namespace Storefront.Text

/-- How many bytes characters take. -/
def byteCount : List Char → Nat
  | [] => 0
  | c :: cs => c.utf8Size + byteCount cs

theorem byteCount_append (a b : List Char) : byteCount (a ++ b) = byteCount a + byteCount b := by
  induction a with
  | nil => exact (Nat.zero_add _).symm
  | cons c a ih => rw [List.cons_append, byteCount, byteCount, ih, Nat.add_assoc]

theorem utf8ByteSize_ofList (cs : List Char) : (String.ofList cs).utf8ByteSize = byteCount cs := by
  induction cs with
  | nil => rfl
  | cons c cs ih =>
    have hone : (String.ofList [c]).utf8ByteSize = c.utf8Size := by
      rw [← String.singleton_eq_ofList, String.utf8ByteSize_singleton]
    rw [← List.singleton_append, String.ofList_append, String.utf8ByteSize_append, hone, ih,
      byteCount_append]
    rfl

theorem byteCount_toList (s : String) : byteCount s.toList = s.utf8ByteSize := by
  rw [← utf8ByteSize_ofList, String.ofList_toList]

/-- The characters after the first `n` bytes. -/
def dropBytes : (n : Nat) → List Char → List Char
  | 0, cs => cs
  | _ + 1, [] => []
  | n + 1, c :: cs => dropBytes (n + 1 - c.utf8Size) cs

/-- The characters of the first `n` bytes. -/
def takeBytes : (n : Nat) → List Char → List Char
  | 0, _ => []
  | _ + 1, [] => []
  | n + 1, c :: cs => c :: takeBytes (n + 1 - c.utf8Size) cs

/-- The characters from byte `start` up to byte `stop`. -/
def slice (start stop : Nat) (cs : List Char) : List Char :=
  takeBytes (stop - start) (dropBytes start cs)

theorem dropBytes_byteCount_append (a b : List Char) : dropBytes (byteCount a) (a ++ b) = b := by
  induction a with
  | nil => simp [byteCount, dropBytes]
  | cons c a ih =>
    have hpos := c.utf8Size_pos
    obtain ⟨n, hn⟩ : ∃ n, byteCount (c :: a) = n + 1 :=
      ⟨byteCount (c :: a) - 1, by rw [byteCount]; omega⟩
    rw [hn, List.cons_append, dropBytes, ← hn, byteCount, Nat.add_sub_cancel_left, ih]

theorem takeBytes_byteCount_append (a b : List Char) : takeBytes (byteCount a) (a ++ b) = a := by
  induction a with
  | nil => simp [byteCount, takeBytes]
  | cons c a ih =>
    have hpos := c.utf8Size_pos
    obtain ⟨n, hn⟩ : ∃ n, byteCount (c :: a) = n + 1 :=
      ⟨byteCount (c :: a) - 1, by rw [byteCount]; omega⟩
    rw [hn, List.cons_append, takeBytes, ← hn, byteCount, Nat.add_sub_cancel_left, ih]

/-- **A slice is the part between what comes before and after it.** -/
theorem slice_append (a b c : List Char) :
    slice (byteCount a) (byteCount a + byteCount b) (a ++ b ++ c) = b := by
  rw [slice, Nat.add_sub_cancel_left, List.append_assoc, dropBytes_byteCount_append,
    takeBytes_byteCount_append]

end Storefront.Text
