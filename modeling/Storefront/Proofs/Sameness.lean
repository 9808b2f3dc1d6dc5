import Mathlib.Data.List.Perm.Subperm
import Storefront.Proofs.Lookup
import Storefront.Proofs.Ranges

/-!
# Equality of page data

Structural equality is an equivalence on page data as documents hold it (`Value.Proper`):
numbers are finite, and no object has a key twice. Reflexivity needs both, as the value
that is no number is not even equal to itself, and of a key that is there twice only the
first value is found. Symmetry needs that keys differ: an object has all keys of another
one as soon as the other one has all of its keys and is as long. Transitivity holds along
the entries of the first object.

The order of finite numbers is the order of their signed units (`Double.compare?_of_finite`).
-/

namespace Storefront

/-! ## The order of doubles -/

namespace Double

/-- The signed units of a finite number. -/
def amount : Double → Int
  | finite s m _ => signedUnits s m
  | _ => 0

/-- **Finite numbers compare by their units.** -/
theorem compare?_of_finite {x y : Double} (hx : x.isFinite = true) (hy : y.isFinite = true) :
    x.compare? y = some (compare x.amount y.amount) := by
  cases x with
  | finite s m =>
    cases y with
    | finite t n => rfl
    | infinite t => cases hy
    | nan => cases hy
  | infinite s => cases hx
  | nan => cases hx

theorem sameValue_iff {x y : Double} (hx : x.isFinite = true) (hy : y.isFinite = true) :
    x.sameValue y = true ↔ x.amount = y.amount := by
  rw [sameValue, compare?_of_finite hx hy, beq_iff_eq, Option.some_inj, compare_eq_iff_eq]

/-- Comparing the other way round swaps the result. -/
theorem compare?_swap (x y : Double) : y.compare? x = (x.compare? y).map Ordering.swap := by
  cases x with
  | finite s m =>
    cases y with
    | finite t n => exact congrArg some (Int.compare_swap (signedUnits s m) (signedUnits t n)).symm
    | infinite t => cases t <;> rfl
    | nan => rfl
  | infinite s =>
    cases y with
    | finite t n => cases s <;> rfl
    | infinite t => cases s <;> cases t <;> rfl
    | nan => rfl
  | nan => cases y <;> rfl

theorem sameValue_symm {x y : Double} (h : x.sameValue y = true) : y.sameValue x = true := by
  rw [sameValue, beq_iff_eq] at h ⊢
  rw [compare?_swap, h]
  rfl

/-- What equals a finite number is finite. -/
theorem isFinite_of_sameValue {x y : Double} (hx : x.isFinite = true) (h : x.sameValue y = true) :
    y.isFinite = true := by
  cases x with
  | finite s m =>
    cases y with
    | finite t n => rfl
    | infinite t => cases t <;> cases h
    | nan => cases h
  | infinite s => cases hx
  | nan => cases hx

theorem sameValue_trans {x y z : Double} (hx : x.isFinite = true) (hxy : x.sameValue y = true)
    (hyz : y.sameValue z = true) : x.sameValue z = true := by
  have hy := isFinite_of_sameValue hx hxy
  have hz := isFinite_of_sameValue hy hyz
  exact (sameValue_iff hx hz).2 (((sameValue_iff hx hy).1 hxy).trans ((sameValue_iff hy hz).1 hyz))

theorem ulp_le {units : Nat} (h : units ≠ 0) : ulp units ≤ units :=
  (Nat.pow_le_pow_right (by decide) (Nat.sub_le _ 52)).trans (Nat.log2_self_le h)

/-- Rounding at most doubles a number. -/
theorem roundUnits_le (n : Nat) : roundUnits n 1 ≤ 2 * n := by
  obtain rfl | hn := eq_or_ne n 0
  · exact (roundUnits_of_fits fits_zero).le
  · rw [roundUnits, Nat.div_one, Nat.one_mul]
    calc roundHalfEven n (ulp n) * ulp n
        ≤ (n / ulp n + 1) * ulp n := Nat.mul_le_mul_right _ (roundHalfEven_le n (ulp n))
      _ = n / ulp n * ulp n + ulp n := Nat.succ_mul _ _
      _ ≤ n + n := Nat.add_le_add (Nat.div_mul_le_self n _) (ulp_le hn)
      _ = 2 * n := (Nat.two_mul n).symm

theorem mul_twoPow_le {k a b c : Nat} (hk : k ≤ twoPow b) (hb : b ≤ c) :
    k * twoPow a ≤ twoPow (a + c) := by
  show k * 2 ^ a ≤ 2 ^ (a + c)
  rw [Nat.pow_add, Nat.mul_comm]
  exact Nat.mul_le_mul_left _ (hk.trans (Nat.pow_le_pow_right Nat.two_pos hb))

/-- **Whole numbers in words are finite doubles.** -/
theorem isFinite_ofInt {i : Int} (h : i.natAbs < UInt64.size) : (ofInt i).isFinite = true := by
  have hsize : 2 * (UInt64.size * unitsPerOne) ≤ unitLimit := by
    rw [unitsPerOne, unitLimit, ← Nat.mul_assoc]
    exact mul_twoPow_le (by decide : 2 * UInt64.size ≤ twoPow 65) (by decide)
  have hlimit : roundUnits (i.natAbs * unitsPerOne) 1 < unitLimit :=
    calc roundUnits (i.natAbs * unitsPerOne) 1
        ≤ 2 * (i.natAbs * unitsPerOne) := roundUnits_le _
      _ < 2 * (UInt64.size * unitsPerOne) :=
        Nat.mul_lt_mul_of_pos_left (Nat.mul_lt_mul_of_pos_right h unitsPerOne_pos) Nat.two_pos
      _ ≤ unitLimit := hsize
  rw [ofInt, rounded, dif_pos hlimit]
  rfl

end Double

/-! ## Page data that documents hold -/

/-- **A number that a document can hold**: a whole number of the signed or unsigned 64-bit range, or
any finite number. -/
def Number.Proper : Number → Prop
  | .int n => -(UInt64.size / 2 : Nat) ≤ n ∧ n < UInt64.size
  | .float x => x.isFinite = true

instance : DecidablePred Number.Proper
  | .int _ => inferInstanceAs (Decidable (_ ∧ _))
  | .float x => inferInstanceAs (Decidable (x.isFinite = true))

theorem Number.Proper.natAbs_lt {n : Int} (h : (Number.int n).Proper) : n.natAbs < UInt64.size := by
  obtain ⟨hlow, hhigh⟩ := h
  have hhalf : UInt64.size / 2 < UInt64.size := by decide
  omega

theorem Number.same_refl {n : Number} (h : n.Proper) : n.same n = true := by
  cases n with
  | int n => exact beq_self_eq_true n
  | float x => exact (Double.sameValue_iff h h).2 rfl

theorem Number.same_symm {m n : Number} (h : m.same n = true) : n.same m = true := by
  cases m with
  | int m =>
    cases n with
    | int n => exact beq_iff_eq.2 (beq_iff_eq.1 h).symm
    | float y => cases h
  | float x =>
    cases n with
    | int n => cases h
    | float y => exact Double.sameValue_symm h

theorem Number.same_trans {k m n : Number} (hk : k.Proper) (hkm : k.same m = true) (hmn : m.same n = true) :
    k.same n = true := by
  cases k with
  | int k =>
    cases m with
    | int m => exact beq_iff_eq.1 hkm ▸ hmn
    | float y => cases hkm
  | float x =>
    cases m with
    | int m => cases hkm
    | float y =>
      cases n with
      | int n => cases hmn
      | float z => exact Double.sameValue_trans hk hkm hmn

theorem Number.Proper.isFinite {n : Number} (h : n.Proper) : n.toDouble.isFinite = true := by
  cases n with
  | int n => exact Double.isFinite_ofInt h.natAbs_lt
  | float x => exact h

/-- An object that is as long as another one, and whose keys the other one has, has all keys of the
other one. -/
theorem Object.Distinct.keys_subset {a b : Object} (ha : a.Distinct)
    (hlength : a.length = b.length) (hkeys : a.map Prod.fst ⊆ b.map Prod.fst) :
    b.map Prod.fst ⊆ a.map Prod.fst := by
  have hle : (b.map Prod.fst).length ≤ (a.map Prod.fst).length := by
    rw [List.length_map, List.length_map, hlength]
  exact ((List.Nodup.subperm ha hkeys).perm_of_length_le hle).symm.subset

namespace Value

/-- **Page data as documents hold it**: all numbers are such, and no object has a key twice. -/
inductive Proper : Value → Prop where
  | null : Proper .null
  | bool (b : Bool) : Proper (.bool b)
  | num {n : Number} (number : n.Proper) : Proper (.num n)
  | str (s : String) : Proper (.str s)
  | arr {items : List Value} (items_proper : ∀ v ∈ items, Proper v) : Proper (.arr items)
  | obj {entries : Object} (distinct : entries.Distinct) (values_proper : ∀ e ∈ entries, Proper e.2) :
      Proper (.obj entries)

/-! ## Structural equality -/

theorem sameItems_iff {vs ws : List Value} :
    sameItems vs ws = true ↔ List.Forall₂ (fun v w => v.same w = true) vs ws := by
  induction vs generalizing ws with
  | nil =>
    cases ws with
    | nil => exact iff_of_true rfl .nil
    | cons w ws => exact iff_of_false Bool.false_ne_true nofun
  | cons v vs ih =>
    cases ws with
    | nil => exact iff_of_false Bool.false_ne_true nofun
    | cons w ws => rw [sameItems, Bool.and_eq_true, ih, List.forall₂_cons]

theorem sameEntries_iff {entries o : Object} :
    sameEntries entries o = true ↔ ∀ e ∈ entries, ∃ w, o.get? e.1 = some w ∧ e.2.same w = true := by
  induction entries with
  | nil => exact iff_of_true rfl nofun
  | cons e entries ih =>
    obtain ⟨k, v⟩ := e
    rw [sameEntries, Bool.and_eq_true, ih, List.forall_mem_cons]
    refine and_congr_left fun _ => ?_
    cases hget : o.get? k with
    | none => simp
    | some w => simp

/-- Objects are equal when they are as long as each other and the second one has the entries of the
first. -/
theorem same_obj_iff {a b : Object} :
    (obj a).same (.obj b) = true ↔
      a.length = b.length ∧ ∀ e ∈ a, ∃ w, b.get? e.1 = some w ∧ e.2.same w = true := by
  rw [same, Bool.and_eq_true, beq_iff_eq, sameEntries_iff]

/-- Lists are equal when their items at each place are. -/
theorem same_arr_iff {vs ws : List Value} :
    (arr vs).same (.arr ws) = true ↔ vs.length = ws.length ∧
      ∀ i (hv : i < vs.length) (hw : i < ws.length), (vs.get ⟨i, hv⟩).same (ws.get ⟨i, hw⟩) = true := by
  rw [same, sameItems_iff, List.forall₂_iff_get]

/-- **Page data equals itself.** -/
theorem Proper.same_refl {v : Value} (h : v.Proper) : v.same v = true := by
  induction h with
  | null => rfl
  | bool b => exact beq_self_eq_true b
  | num hn => exact Number.same_refl hn
  | str s => exact beq_self_eq_true s
  | arr _ ih => exact same_arr_iff.2 ⟨rfl, fun _ _ _ => ih _ (List.get_mem _ _)⟩
  | obj hdistinct _ ih =>
    exact same_obj_iff.2 ⟨rfl, fun e he => ⟨e.2, hdistinct.get?_of_mem he, ih e he⟩⟩

/-- **Structural equality is symmetric.** -/
theorem Proper.same_symm {v w : Value} (hv : v.Proper) (hw : w.Proper) (h : v.same w = true) :
    w.same v = true := by
  induction hv generalizing w with
  | null =>
    cases w with
    | null => rfl
    | _ => cases h
  | bool a =>
    cases w with
    | bool b => exact beq_iff_eq.2 (beq_iff_eq.1 h).symm
    | _ => cases h
  | num _ =>
    cases w with
    | num n => exact Number.same_symm h
    | _ => cases h
  | str s =>
    cases w with
    | str t => exact beq_iff_eq.2 (beq_iff_eq.1 h).symm
    | _ => cases h
  | @arr vs _ ih =>
    cases hw with
    | arr hws =>
      obtain ⟨hlength, hitems⟩ := same_arr_iff.1 h
      exact same_arr_iff.2 ⟨hlength.symm, fun i hw hv =>
        ih _ (List.get_mem _ _) (hws _ (List.get_mem _ _)) (hitems i hv hw)⟩
    | _ => cases h
  | @obj a hdistinct hvalues ih =>
    cases hw with
    | @obj b hdistinct' hvalues' =>
      obtain ⟨hlength, hentries⟩ := same_obj_iff.1 h
      have hkeys : a.map Prod.fst ⊆ b.map Prod.fst := by
        rintro k hk
        obtain ⟨e, he, rfl⟩ := List.mem_map.1 hk
        obtain ⟨w, hget, -⟩ := hentries e he
        exact List.mem_map.2 ⟨_, Object.mem_of_get? hget, rfl⟩
      refine same_obj_iff.2 ⟨hlength.symm, fun e he => ?_⟩
      -- the other object has no other value under the key of this entry
      obtain ⟨d, hd, hkey⟩ := List.mem_map.1
        (hdistinct.keys_subset hlength hkeys (List.mem_map_of_mem he))
      obtain ⟨w, hget, hsame⟩ := hentries d hd
      rw [hkey, hdistinct'.get?_of_mem he] at hget
      obtain rfl := Option.some.inj hget
      exact ⟨d.2, hkey ▸ hdistinct.get?_of_mem hd, ih d hd (hvalues' e he) hsame⟩
    | _ => cases h

/-- **Structural equality is transitive.** -/
theorem Proper.same_trans {v w u : Value} (hv : v.Proper) (hvw : v.same w = true)
    (hwu : w.same u = true) : v.same u = true := by
  induction hv generalizing w u with
  | null =>
    cases w with
    | null => exact hwu
    | _ => cases hvw
  | bool a =>
    cases w with
    | bool b => exact beq_iff_eq.1 hvw ▸ hwu
    | _ => cases hvw
  | num hm =>
    cases w with
    | num n =>
      cases u with
      | num k => exact Number.same_trans hm hvw hwu
      | _ => cases hwu
    | _ => cases hvw
  | str s =>
    cases w with
    | str t => exact beq_iff_eq.1 hvw ▸ hwu
    | _ => cases hvw
  | arr _ ih =>
    cases w with
    | arr ws =>
      cases u with
      | arr us =>
        obtain ⟨hlength, hitems⟩ := same_arr_iff.1 hvw
        obtain ⟨hlength', hitems'⟩ := same_arr_iff.1 hwu
        exact same_arr_iff.2 ⟨hlength.trans hlength', fun i hv hu =>
          ih _ (List.get_mem _ _) (hitems i hv (hlength ▸ hv)) (hitems' i (hlength ▸ hv) hu)⟩
      | _ => cases hwu
    | _ => cases hvw
  | obj _ _ ih =>
    cases w with
    | obj b =>
      cases u with
      | obj c =>
        obtain ⟨hlength, hentries⟩ := same_obj_iff.1 hvw
        obtain ⟨hlength', hentries'⟩ := same_obj_iff.1 hwu
        refine same_obj_iff.2 ⟨hlength.trans hlength', fun e he => ?_⟩
        obtain ⟨w, hget, hsame⟩ := hentries e he
        obtain ⟨u, hget', hsame'⟩ := hentries' (e.1, w) (Object.mem_of_get? hget)
        exact ⟨u, hget', ih e he hsame hsame'⟩
      | _ => cases hwu
    | _ => cases hvw

end Value

end Storefront
