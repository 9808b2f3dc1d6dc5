import Storefront.Context.Scope

/-!
# Looking up names

The variables of a context are found frame by frame, and `Context.flatten` writes
the frames over one another. It does so in an order of its own, which is the
opposite one (`Context.writeOrder_eq`): what is found first is written last. For the
two to agree (`Context.get?_flatten`), no frame may hold a name twice: a lookup takes
the first entry of a name, and writing entries in turn leaves the last one. Objects
that are only ever inserted into are like that (`Object.Distinct`), and so is every
frame of a context that is made of such objects (`Context.Distinct`).

What is at a path is a part of what is under a name. A property that passes from
values to their parts therefore holds of what is at any path as soon as it holds
of all variables (`Context.resolve_induction`).
-/

namespace Storefront

/-! ## Objects -/

namespace Object

/-- **An object that holds no key twice.** -/
def Distinct (o : Object) : Prop := (o.map Prod.fst).Nodup

instance : DecidablePred Distinct := fun o => inferInstanceAs (Decidable (o.map Prod.fst).Nodup)

theorem distinct_nil : Distinct [] := List.nodup_nil

theorem get?_cons_self (key : String) (v : Value) (rest : Object) :
    get? ((key, v) :: rest) key = some v := if_pos rfl

theorem get?_cons_of_ne {k key : String} (h : k ≠ key) (v : Value) (rest : Object) :
    get? ((k, v) :: rest) key = rest.get? key := if_neg h

theorem get?_eq_none_iff {o : Object} {key : String} : o.get? key = none ↔ key ∉ o.map Prod.fst := by
  induction o with
  | nil => simp
  | cons e rest ih =>
    obtain ⟨k, v⟩ := e
    by_cases hk : k = key
    · subst hk
      simp [get?_cons_self]
    · rw [get?_cons_of_ne hk, ih, List.map_cons, List.mem_cons, not_or]
      exact (and_iff_right (Ne.symm hk)).symm

/-- What stands behind other entries is found if its key is not among theirs. -/
theorem get?_append (o more : Object) (key : String) :
    get? (o ++ more) key = (o.get? key).or (more.get? key) := by
  induction o with
  | nil => rfl
  | cons e rest ih =>
    obtain ⟨k, v⟩ := e
    rw [List.cons_append]
    by_cases hk : k = key
    · subst hk
      rw [get?_cons_self, get?_cons_self]
      rfl
    · rw [get?_cons_of_ne hk, get?_cons_of_ne hk, ih]

theorem mem_of_get? {o : Object} {key : String} {v : Value} (h : o.get? key = some v) :
    (key, v) ∈ o := by
  induction o with
  | nil => exact absurd h.symm (Option.some_ne_none v)
  | cons e rest ih =>
    obtain ⟨k, w⟩ := e
    by_cases hk : k = key
    · subst hk
      rw [get?_cons_self] at h
      obtain rfl := Option.some.inj h
      exact List.mem_cons_self
    · rw [get?_cons_of_ne hk] at h
      exact List.mem_cons_of_mem _ (ih h)

/-- An insertion adds its key at the end, unless it is there. -/
theorem keys_insert (o : Object) (key : String) (v : Value) :
    (o.insert key v).map Prod.fst =
      if key ∈ o.map Prod.fst then o.map Prod.fst else o.map Prod.fst ++ [key] := by
  induction o with
  | nil => rfl
  | cons e rest ih =>
    obtain ⟨k, w⟩ := e
    by_cases hk : k = key
    · subst hk
      simp [insert]
    · simp only [insert, if_neg hk, List.map_cons, ih, List.mem_cons, Ne.symm hk, false_or]
      split
      · rfl
      · rfl

theorem Distinct.insert {o : Object} (h : o.Distinct) (key : String) (v : Value) :
    (o.insert key v).Distinct := by
  rw [Distinct, keys_insert]
  split
  · exact h
  · next hkey =>
    refine List.nodup_append.2 ⟨h, by simp, ?_⟩
    rintro k hk _ hsingle rfl
    exact hkey (List.mem_singleton.1 hsingle ▸ hk)

theorem Distinct.extend {o : Object} (h : o.Distinct) (more : Object) : (o.extend more).Distinct := by
  induction more generalizing o with
  | nil => exact h
  | cons e more ih => exact ih (h.insert e.1 e.2)

/-- **What an object shows that was written over another one**: its own values, and those of the
other for keys that it does not have. -/
theorem get?_extend (o : Object) {more : Object} (h : more.Distinct) (key : String) :
    (o.extend more).get? key = (more.get? key).or (o.get? key) := by
  induction more generalizing o with
  | nil => rfl
  | cons e more ih =>
    obtain ⟨k, v⟩ := e
    obtain ⟨hk, hmore⟩ := List.nodup_cons.1 h
    have hstep : (o.extend ((k, v) :: more)).get? key =
        (get? more key).or ((o.insert k v).get? key) := ih (o.insert k v) hmore
    rw [hstep, get?_insert]
    by_cases hkey : key = k
    · subst hkey
      rw [get?_eq_none_iff.2 hk, get?_cons_self, if_pos rfl]
      rfl
    · rw [get?_cons_of_ne (Ne.symm hkey), if_neg hkey]

/-- An object that holds no key twice has each of its entries. -/
theorem Distinct.get?_of_mem {o : Object} (h : o.Distinct) {key : String} {v : Value}
    (hmem : (key, v) ∈ o) : o.get? key = some v := by
  induction o with
  | nil => exact absurd hmem List.not_mem_nil
  | cons e rest ih =>
    obtain ⟨hkey, hrest⟩ := List.nodup_cons.1 h
    rcases List.mem_cons.1 hmem with rfl | hmem
    · exact get?_cons_self _ _ _
    · have hne : e.1 ≠ key := fun heq => hkey (heq ▸ List.mem_map_of_mem hmem)
      rw [get?_cons_of_ne hne]
      exact ih hrest hmem

/-- What was written over an object is there. -/
theorem get?_extend_of_mem (o : Object) {more : Object} (h : more.Distinct) {key : String} {v : Value}
    (hmem : (key, v) ∈ more) : (o.extend more).get? key = some v := by
  rw [get?_extend o h, h.get?_of_mem hmem, Option.some_or]

/-- What was not written over is as it was. -/
theorem get?_extend_of_not_mem (o : Object) {more : Object} (h : more.Distinct) {key : String}
    (hmem : key ∉ more.map Prod.fst) : (o.extend more).get? key = o.get? key := by
  rw [get?_extend o h, get?_eq_none_iff.2 hmem, Option.none_or]

end Object

/-! ## Frames -/

namespace Frame

theorem lookup_cons (f : Frame) (fs : List Frame) (key : String) :
    lookup (f :: fs) key = (f.vars.get? key).or (lookup fs key) := by
  rw [lookup, List.findSome?_cons]
  cases f.vars.get? key with
  | none => rfl
  | some v => rfl

theorem lookup_append (fs gs : List Frame) (key : String) :
    lookup (fs ++ gs) key = (lookup fs key).or (lookup gs key) := List.findSome?_append

theorem lookup_eq_none_iff {fs : List Frame} {key : String} :
    lookup fs key = none ↔ ∀ f ∈ fs, f.vars.get? key = none := List.findSome?_eq_none_iff

theorem exists_of_lookup {fs : List Frame} {key : String} {v : Value} (h : lookup fs key = some v) :
    ∃ f ∈ fs, (key, v) ∈ f.vars := by
  obtain ⟨f, hf, hv⟩ := List.exists_of_findSome?_eq_some h
  exact ⟨f, hf, Object.mem_of_get? hv⟩

theorem lookup_filter_eq_none {fs : List Frame} {key : String} {p : Frame → Bool}
    (h : ∀ f ∈ fs, p f = true → f.vars.get? key = none) : lookup (fs.filter p) key = none := by
  refine lookup_eq_none_iff.2 fun f hf => ?_
  obtain ⟨hmem, hp⟩ := List.mem_filter.1 hf
  exact h f hmem hp

/-- Frames that do not have a name may be left out when it is looked up. -/
theorem lookup_filter {fs : List Frame} {key : String} {p : Frame → Bool}
    (h : ∀ f ∈ fs, p f = false → f.vars.get? key = none) :
    lookup (fs.filter p) key = lookup fs key := by
  induction fs with
  | nil => rfl
  | cons f fs ih =>
    obtain ⟨hf, hfs⟩ := List.forall_mem_cons.1 h
    cases hp : p f with
    | true => rw [List.filter_cons_of_pos hp, lookup_cons, lookup_cons, ih hfs]
    | false =>
      rw [List.filter_cons_of_neg (Bool.eq_false_iff.1 hp), ih hfs, lookup_cons, hf hp,
        Option.none_or]

/-- Frames written over one another, the innermost last. -/
theorem get?_foldl_extend {fs : List Frame} (h : ∀ f ∈ fs, f.vars.Distinct) (o : Object)
    (key : String) :
    Object.get? (fs.foldl (fun merged f => merged.extend f.vars) o) key =
      (lookup fs.reverse key).or (o.get? key) := by
  induction fs generalizing o with
  | nil => rfl
  | cons f fs ih =>
    obtain ⟨hf, hfs⟩ := List.forall_mem_cons.1 h
    have hsingle : lookup [f] key = f.vars.get? key := List.findSome?_singleton
    rw [List.foldl_cons, ih hfs, Object.get?_extend o hf, List.reverse_cons, lookup_append, hsingle,
      Option.or_assoc]

end Frame

/-! ## Contexts -/

namespace Context

/-- **A context in which no frame holds a name twice.** -/
def Distinct (ctx : Context) : Prop := ∀ f ∈ ctx.frames, f.vars.Distinct

instance : DecidablePred Distinct :=
  fun ctx => inferInstanceAs (Decidable (∀ f ∈ ctx.frames, f.vars.Distinct))

theorem distinct_iff {ctx : Context} :
    ctx.Distinct ↔ (∀ f ∈ ctx.above, f.vars.Distinct) ∧ ctx.bottom.Distinct := by
  rw [Distinct, frames, List.forall_mem_append, List.forall_mem_singleton]

theorem distinct_ofLayers {base page : Object} (hbase : base.Distinct) (hpage : page.Distinct) :
    (ofLayers base page).Distinct :=
  distinct_iff.2 ⟨List.forall_mem_singleton.2 hpage, hbase⟩

theorem Distinct.withItemShadowing {ctx : Context} (h : ctx.Distinct) (enabled : Bool) :
    (ctx.withItemShadowing enabled).Distinct := h

theorem mem_lookupOrder {ctx : Context} {f : Frame} : f ∈ ctx.lookupOrder ↔ f ∈ ctx.frames := by
  unfold lookupOrder
  split
  · exact Iff.rfl
  · cases hf : f.isItem with
    | false => simp [hf]
    | true => simp [hf]

/-- **Frames are written over one another in the order opposite to that in which they are looked
up.** -/
theorem writeOrder_eq (ctx : Context) : ctx.writeOrder = ctx.lookupOrder.reverse := by
  unfold writeOrder lookupOrder
  simp only [List.partition_eq_filter_filter]
  split
  · rfl
  · -- items are looked up behind the other frames, so they are written in front of them
    rw [List.reverse_append, List.filter_reverse, List.filter_reverse]
    rfl

/-- **What is written last is what is found first.** -/
theorem get?_flatten {ctx : Context} (h : ctx.Distinct) (key : String) :
    ctx.flatten.get? key = ctx.get? key := by
  have horder : ∀ f ∈ ctx.writeOrder, f.vars.Distinct := fun f hf => by
    rw [writeOrder_eq, List.mem_reverse, mem_lookupOrder] at hf
    exact h f hf
  rw [flatten, Frame.get?_foldl_extend horder, writeOrder_eq, List.reverse_reverse, Object.get?_nil,
    Option.or_none]
  rfl

/-! ## Paths -/

theorem mem_frames_of_get? {ctx : Context} {key : String} {v : Value} (h : ctx.get? key = some v) :
    ∃ f ∈ ctx.frames, (key, v) ∈ f.vars := by
  obtain ⟨f, hf, hv⟩ := Frame.exists_of_lookup h
  exact ⟨f, mem_lookupOrder.1 hf, hv⟩

end Context

theorem Path.walk_induction {P : Value → Prop}
    (hstep : ∀ v segment w, P v → Path.step v segment = some w → P w) {segments : List (List Char)}
    {v w : Value} (hv : P v) (h : Path.walk v segments = some w) : P w := by
  induction segments generalizing v with
  | nil =>
    cases h
    exact hv
  | cons segment rest ih =>
    rw [walk, List.foldlM_cons] at h
    obtain ⟨u, hu, hrest⟩ := Option.bind_eq_some_iff.1 h
    exact ih (hstep v segment u hv hu) hrest

/-- **What is at a path has every property that the variables have and that passes from values to
their parts.** -/
theorem Context.resolve_induction {P : Value → Prop}
    (hstep : ∀ v segment w, P v → Path.step v segment = some w → P w) {ctx : Context}
    (hvars : ∀ f ∈ ctx.frames, ∀ e ∈ f.vars, P e.2) {path : String} {v : Value}
    (h : ctx.resolve path = some v) : P v := by
  have hget : ∀ key w, ctx.get? key = some w → P w := fun key w hw => by
    obtain ⟨f, hf, he⟩ := mem_frames_of_get? hw
    exact hvars f hf (key, w) he
  unfold resolve resolveNormal at h
  split at h
  · exact absurd h.symm (Option.some_ne_none v)
  · split at h
    · next w hw =>
      cases h
      exact hget _ _ hw
    · split at h
      · exact absurd h.symm (Option.some_ne_none v)
      · next head rest hsegments =>
        obtain ⟨w, hw, hwalk⟩ := Option.bind_eq_some_iff.1 h
        exact Path.walk_induction hstep (hget _ _ hw) hwalk

end Storefront
