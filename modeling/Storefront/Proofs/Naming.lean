import Storefront.Proofs.Lookup
import Storefront.Render.Render

/-!
# Names without points

A path with a point in it may itself be the name of a variable, and then no step is
taken. In a context whose names have no points (`Context.Undotted`) that cannot
happen: a path of two segments is the entry of a variable
(`Context.Undotted.resolve_entry`).

The item of a loop is called `this` in it, unless one of its own fields is
(`Renderer.get?_enter_this`). The state of the loop and the fields of its item are
looked up before all else where items hide other variables, and where they do not,
the state still is.
-/

namespace Storefront

/-! ## Points -/

namespace Object

/-- **An object in whose keys there is no point.** -/
def Undotted (o : Object) : Prop := ∀ key ∈ o.map Prod.fst, '.' ∉ key.toList

instance : DecidablePred Undotted :=
  fun o => inferInstanceAs (Decidable (∀ key ∈ o.map Prod.fst, '.' ∉ key.toList))

theorem Undotted.get?_eq_none {o : Object} (h : o.Undotted) {key : String}
    (hkey : '.' ∈ key.toList) : o.get? key = none :=
  get?_eq_none_iff.2 fun hmem => h key hmem hkey

end Object

namespace Path

/-- **A path to an entry of a variable**, as it is written: two segments with a point between. -/
structure IsEntry (path head key : String) : Prop where
  /-- The path is in normal form. -/
  normal : normalizedChars path.toList = path.toList
  /-- There is a point in it. -/
  dotted : '.' ∈ path.toList
  /-- The variable comes first, and then its entry. -/
  segments : segments path.toList = [head.toList, key.toList]

instance (path head key : String) : Decidable (IsEntry path head key) :=
  decidable_of_iff
    (normalizedChars path.toList = path.toList ∧ '.' ∈ path.toList ∧
      Path.segments path.toList = [head.toList, key.toList])
    ⟨fun h => ⟨h.1, h.2.1, h.2.2⟩, fun h => ⟨h.normal, h.dotted, h.segments⟩⟩

end Path

namespace Context

/-- **A context in whose names there is no point.** -/
def Undotted (ctx : Context) : Prop := ∀ f ∈ ctx.frames, f.vars.Undotted

instance : DecidablePred Undotted :=
  fun ctx => inferInstanceAs (Decidable (∀ f ∈ ctx.frames, f.vars.Undotted))

theorem Undotted.get?_eq_none {ctx : Context} (h : ctx.Undotted) {key : String}
    (hkey : '.' ∈ key.toList) : ctx.get? key = none :=
  Frame.lookup_eq_none_iff.2 fun f hf =>
    (h f (mem_lookupOrder.1 hf)).get?_eq_none hkey

theorem Undotted.push {ctx : Context} (h : ctx.Undotted) (scope : Scope) {vars : Object}
    (hvars : vars.Undotted) : (ctx.push scope vars).Undotted :=
  List.forall_mem_cons.2 ⟨hvars, h⟩

/-- A path with a point in it is walked from the variable that its first segment names. -/
theorem Undotted.resolveNormal_of_segments {ctx : Context} (h : ctx.Undotted)
    {cs head : List Char} {rest : List (List Char)} (hpoint : '.' ∈ cs)
    (hsegments : Path.segments cs = head :: rest) :
    ctx.resolveNormal cs = (ctx.get? (String.ofList head)).bind (Path.walk · rest) := by
  have hne : cs.isEmpty = false := List.isEmpty_eq_false_iff.2 (List.ne_nil_of_mem hpoint)
  have hname : ctx.get? (String.ofList cs) = none :=
    h.get?_eq_none (by rwa [String.toList_ofList])
  rw [resolveNormal, hne, if_neg Bool.false_ne_true, hname, hsegments]

/-- **A path of two segments is the entry of a variable**, where names have no points. -/
theorem Undotted.resolve_entry {ctx : Context} (h : ctx.Undotted) {path head key : String}
    (hpath : Path.IsEntry path head key) :
    ctx.resolve path = (ctx.get? head).bind fun v => Path.step v key.toList := by
  rw [resolve, hpath.normal, h.resolveNormal_of_segments hpath.dotted hpath.segments]
  simp only [String.ofList_toList, Path.walk, List.foldlM_cons, List.foldlM_nil, bind_pure]

/-- A name in normal form is the path to its variable. -/
theorem resolve_of_get? {ctx : Context} {key : String} {v : Value}
    (hnormal : Path.normalizedChars key.toList = key.toList) (hne : key ≠ "")
    (h : ctx.get? key = some v) : ctx.resolve key = some v := by
  have hchars : key.toList.isEmpty = false :=
    List.isEmpty_eq_false_iff.2 fun hnil => hne (String.toList_inj.1 hnil)
  rw [resolve, hnormal, resolveNormal, hchars, if_neg Bool.false_ne_true, String.ofList_toList, h]

end Context

/-! ## Loops -/

namespace Renderer

/-- **The item of a loop is `this`**, unless it has a field of that name. -/
theorem get?_enter_this (ctx : Context) (index count : Nat) {fields : Object}
    (h : fields.get? "this" = none) :
    (enter ctx index count (.obj fields)).get? "this" = some (.obj fields) := by
  have hstate : (iteration index count (.obj fields)).get? "this" = some (.obj fields) := rfl
  unfold enter Context.get? Context.lookupOrder Context.push Context.frames
  simp only [List.cons_append]
  split
  · rw [Frame.lookup_cons, Frame.lookup_cons, h, hstate, Option.none_or, Option.some_or]
  · -- the state of the loop is the first frame that is no item
    rw [List.filter_cons_of_neg Bool.false_ne_true, List.filter_cons_of_pos rfl, List.cons_append,
      Frame.lookup_cons, hstate, Option.some_or]

/-- A loop over an item adds no name with a point. -/
theorem undotted_enter {ctx : Context} (h : ctx.Undotted) (index count : Nat) {fields : Object}
    (hfields : fields.Undotted) : (enter ctx index count (.obj fields)).Undotted := by
  have hstate : (iteration index count (.obj fields)).Undotted := by
    unfold Object.Undotted iteration
    simp only [List.map_cons, List.map_nil]
    decide
  exact (h.push .iteration hstate).push .item hfields

end Renderer

end Storefront
