import Storefront.Render.Render
import Storefront.Proofs.Drafting
import Storefront.Proofs.Lookup

/-!
# What rendering sees of a context

A renderer asks a context for the values of names and for nothing else, so two
contexts that give every name the same value (`Context.Agree`) are the same to
everything that is shown or tested in them. In a loop it also puts frames over
them. Contexts that agree need not do so any longer then: where items stand back
behind all other frames, a new frame comes before the items that are there and
behind everything else, and where a value came from makes a difference.

`Renderer.Bisimulation` is what a relation between contexts must satisfy for
templates to be rendered alike in both: it implies agreement, and it is kept when
a loop is entered. Agreement itself is kept in contexts whose frames stay
together under others (`Context.Contiguous`). One of these is the flattened
context, so what is rendered in a context is what is rendered in its variables
as one object (`Context.template_collapsed`).
-/

namespace Storefront

/-! ## Agreement -/

namespace Context

/-- **Contexts that agree**: every name has the same value in both. -/
def Agree (a b : Context) : Prop := ∀ key, a.get? key = b.get? key

variable {a b : Context} (h : a.Agree b)
include h

theorem Agree.resolveNormal (path : List Char) : a.resolveNormal path = b.resolveNormal path := by
  unfold Context.resolveNormal
  simp only [h _]

theorem Agree.resolve (path : String) : a.resolve path = b.resolve path := h.resolveNormal _

theorem Agree.owner? (path : String) : a.owner? path = b.owner? path := by
  unfold Context.owner?
  simp only [h.resolveNormal]

theorem Agree.satisfies (condition : String) : a.satisfies condition = b.satisfies condition := by
  have hoperand : ∀ token, Condition.operand token a = Condition.operand token b := fun token => by
    unfold Condition.operand
    simp only [h.resolve]
  unfold Context.satisfies Condition.eval
  cases Condition.ofText condition with
  | hasText path literal => simp only [h.resolve]
  | exceeds path threshold => simp only [h.resolve]
  | compares left op right => simp only [hoperand]
  | holds path => simp only [h.resolve]

end Context

namespace Renderer

section Agree

variable {a b : Context} (h : a.Agree b)
include h

theorem output_eq_of_agree (r : Renderer) (path : String) : r.output a path = r.output b path := by
  have hprice : ∀ priceKey formattedKey,
      r.productPrice a priceKey formattedKey = r.productPrice b priceKey formattedKey :=
    fun _ _ => by simp only [productPrice, h.resolve]
  have hdescription : shortDescription? a = shortDescription? b := by
    simp only [shortDescription?, h.resolve]
  have hvalue : ∀ path, r.valueText a path = r.valueText b path := fun path => by
    simp only [valueText, stockOwner?, h.resolve, h.owner?]
  simp only [output, hprice, hdescription, hvalue]

theorem variableText_eq_of_agree (r : Renderer) (path : String) (raw : Bool) :
    r.variableText a path raw = r.variableText b path raw := by
  rw [variableText, variableText, output_eq_of_agree h]

theorem phraseText_eq_of_agree (r : Renderer) (key : String) :
    r.phraseText a key = r.phraseText b key := by
  have hinline : r.inlineNode a = r.inlineNode b := by
    funext n
    cases n with
    | «variable» path raw => exact variableText_eq_of_agree h r path raw
    | text | phrase | loop | conditional => rfl
  rw [phraseText, phraseText, hinline]

theorem loopItems_eq_of_agree (path : String) : loopItems a path = loopItems b path := by
  rw [loopItems, loopItems, h.resolve]

end Agree

/-! ## Contexts that are rendered alike -/

/-- **A relation between contexts in which templates are rendered alike**: related contexts agree,
and stay related when a loop over a list in them is entered at one of its items. -/
structure Bisimulation (R : Context → Context → Prop) : Prop where
  /-- Related contexts agree. -/
  agree : ∀ {a b}, R a b → a.Agree b
  /-- They stay related in loops. -/
  enter : ∀ {a b}, R a b → ∀ {path items}, a.resolve path = some (.arr items) →
    ∀ {index item}, items[index]? = some item →
      R (Renderer.enter a index items.length item) (Renderer.enter b index items.length item)

/-- The context of a loop at its item number `index`. -/
theorem getElem?_entered (ctx : Context) (items : List Value) (index : Nat) :
    (entered ctx items)[index]? =
      items[index]?.map fun item => enter ctx index items.length item := by
  simp only [entered, List.getElem?_map, List.getElem?_zipIdx, Option.map_map, Nat.zero_add]
  rfl

/-- The bodies of a loop are rendered alike if they are in related contexts. -/
theorem Bisimulation.map_entered {R : Context → Context → Prop} (hR : Bisimulation R)
    {f g : Context → String} (hfg : ∀ a b, R a b → f a = g b) {a b : Context} (h : R a b)
    (path : String) :
    (entered a (loopItems a path)).map f = (entered b (loopItems b path)).map g := by
  rw [← loopItems_eq_of_agree (hR.agree h)]
  refine List.ext_getElem? fun index => ?_
  rw [List.getElem?_map, List.getElem?_map, getElem?_entered, getElem?_entered]
  cases hitem : (loopItems a path)[index]? with
  | none => rfl
  | some item =>
    have hitems : a.resolve path = some (.arr (loopItems a path)) := by
      unfold loopItems at hitem ⊢
      split at hitem
      · next items hresolve => exact hresolve
      · exact absurd hitem.symm (Option.some_ne_none item)
    exact congrArg some (hfg _ _ (hR.enter h hitems hitem))

mutual

/-- **A node is rendered alike in related contexts.** -/
theorem Bisimulation.node (r : Renderer) {R : Context → Context → Prop} (hR : Bisimulation R)
    (n : Node) (depth : Nat) (a b : Context) (h : R a b) : r.node depth a n = r.node depth b n := by
  cases n with
  | text s => rw [Renderer.node, Renderer.node]
  | «variable» path raw =>
    rw [Renderer.node, Renderer.node, variableText_eq_of_agree (hR.agree h)]
  | phrase key => rw [Renderer.node, Renderer.node, phraseText_eq_of_agree (hR.agree h)]
  | loop path body source line =>
    -- the only node whose parts are rendered in other contexts
    have hbody := hR.map_entered (Bisimulation.nodes r hR body (depth + 1)) h path
    rw [Renderer.node, Renderer.node, hbody]
  | conditional condition negated shown hidden line =>
    rw [Renderer.node, Renderer.node, (hR.agree h).satisfies,
      Bisimulation.nodes r hR shown depth a b h, Bisimulation.nodes r hR hidden depth a b h]

/-- Nodes are rendered alike in related contexts. -/
theorem Bisimulation.nodes (r : Renderer) {R : Context → Context → Prop} (hR : Bisimulation R)
    (ns : List Node) (depth : Nat) (a b : Context) (h : R a b) :
    r.nodes depth a ns = r.nodes depth b ns := by
  cases ns with
  | nil => rw [Renderer.nodes, Renderer.nodes]
  | cons n rest =>
    rw [Renderer.nodes, Renderer.nodes, Bisimulation.node r hR n depth a b h,
      Bisimulation.nodes r hR rest depth a b h]

end

/-- **Templates are rendered alike in related contexts.** -/
theorem Bisimulation.template {R : Context → Context → Prop} (hR : Bisimulation R) (r : Renderer)
    (t : Template) {a b : Context} (h : R a b) : r.template t a = r.template t b := by
  rw [template_eq_nodes, template_eq_nodes]
  exact Bisimulation.nodes r hR t.nodes 0 a b h

end Renderer

/-! ## Frames over a context -/

namespace Context

/-- The context with more frames over it. -/
def under (ctx : Context) (fs : List Frame) : Context := { ctx with above := fs ++ ctx.above }

theorem under_under (ctx : Context) (fs gs : List Frame) :
    (ctx.under fs).under gs = ctx.under (gs ++ fs) := by
  unfold under
  rw [List.append_assoc]

/-- **A context whose frames stay together under others**: fields of items hide what is behind them,
or there are none in it. -/
def Contiguous (ctx : Context) : Prop :=
  ctx.itemsShadow = true ∨ ∀ f ∈ ctx.frames, f.isItem = false

/-- Frames over a contiguous context come before it, except for the items when these stand back. -/
theorem lookupOrder_under {ctx : Context} (h : ctx.Contiguous) (fs : List Frame) :
    (ctx.under fs).lookupOrder =
      (if ctx.itemsShadow then fs else fs.filter (!·.isItem)) ++ ctx.lookupOrder ++
        (if ctx.itemsShadow then [] else fs.filter (·.isItem)) := by
  have hframes : (ctx.under fs).frames = fs ++ ctx.frames := List.append_assoc _ _ _
  have hflag : (ctx.under fs).itemsShadow = ctx.itemsShadow := rfl
  rw [lookupOrder, lookupOrder, hframes, hflag]
  cases hshadow : ctx.itemsShadow with
  | true => simp
  | false =>
    have hplain : ∀ f ∈ ctx.frames, f.isItem = false :=
      h.resolve_left (by rw [hshadow]; exact Bool.false_ne_true)
    have hitems : ctx.frames.filter (·.isItem) = [] :=
      List.filter_eq_nil_iff.2 fun f hf => by rw [hplain f hf]; exact Bool.false_ne_true
    simp [List.filter_append, hitems]

/-- **Contiguous contexts agree under the same frames when they do without.** -/
theorem Agree.under {a b : Context} (h : a.Agree b) (hflag : a.itemsShadow = b.itemsShadow)
    (ha : a.Contiguous) (hb : b.Contiguous) (fs : List Frame) : (a.under fs).Agree (b.under fs) := by
  intro key
  have hkey : Frame.lookup a.lookupOrder key = Frame.lookup b.lookupOrder key := h key
  rw [get?, get?, lookupOrder_under ha, lookupOrder_under hb, Frame.lookup_append,
    Frame.lookup_append, Frame.lookup_append, Frame.lookup_append, hkey, hflag]

end Context

namespace Renderer

/-- **The frames of a loop** at one of its items. -/
def loopFrames (index count : Nat) (item : Value) : List Frame :=
  match item with
  | .obj fields => [⟨.item, fields⟩, ⟨.iteration, iteration index count item⟩]
  | _ => [⟨.iteration, iteration index count item⟩]

/-- A loop puts the same frames over every context. -/
theorem enter_eq_under (ctx : Context) (index count : Nat) (item : Value) :
    enter ctx index count item = ctx.under (loopFrames index count item) := by
  cases item with
  | obj fields => rfl
  | null | bool | num | str | arr => rfl

/-- **Rendering sees a context only through the values of names**, as long as its frames stay
together under those of loops. -/
theorem template_eq_of_agree {a b : Context} (h : a.Agree b) (hflag : a.itemsShadow = b.itemsShadow)
    (ha : a.Contiguous) (hb : b.Contiguous) (r : Renderer) (t : Template) :
    r.template t a = r.template t b := by
  have hR : Bisimulation fun a' b' => ∃ fs, a' = a.under fs ∧ b' = b.under fs := by
    constructor
    · rintro _ _ ⟨fs, rfl, rfl⟩
      exact h.under hflag ha hb fs
    · rintro _ _ ⟨fs, rfl, rfl⟩ path items - index item -
      refine ⟨loopFrames index items.length item ++ fs, ?_, ?_⟩
      · rw [enter_eq_under, Context.under_under]
      · rw [enter_eq_under, Context.under_under]
  exact hR.template r t ⟨[], rfl, rfl⟩

end Renderer

/-! ## Flattened contexts -/

namespace Context

/-- **The context of one layer** that holds all variables of a context. -/
def collapsed (ctx : Context) : Context :=
  (ofLayers ctx.flatten []).withItemShadowing ctx.itemsShadow

theorem contiguous_ofLayers (base page : Object) (enabled : Bool) :
    ((ofLayers base page).withItemShadowing enabled).Contiguous := by
  refine Or.inr fun f hf => ?_
  simp only [frames, withItemShadowing, ofLayers, List.cons_append, List.nil_append, List.mem_cons,
    List.not_mem_nil, or_false] at hf
  obtain rfl | rfl := hf
  · rfl
  · rfl

theorem agree_collapsed {ctx : Context} (h : ctx.Distinct) : ctx.collapsed.Agree ctx := by
  intro key
  have horder : ctx.collapsed.lookupOrder = [⟨.page, []⟩] ++ [⟨.base, ctx.flatten⟩] := by
    unfold lookupOrder
    cases hshadow : ctx.collapsed.itemsShadow with
    | true => rfl
    | false => rfl
  rw [← get?_flatten h, get?, horder, Frame.lookup_append]
  exact List.findSome?_singleton

/-- **A template is rendered in the variables of a context as in the context.** -/
theorem template_collapsed {ctx : Context} (h : ctx.Distinct) (hcontiguous : ctx.Contiguous)
    (r : Renderer) (t : Template) : r.template t ctx.collapsed = r.template t ctx :=
  r.template_eq_of_agree (agree_collapsed h) rfl (contiguous_ofLayers _ _ _) hcontiguous t

-- Where items stand back, one that is flattened comes before the next item instead of behind it.
example :
    let ctx := ((ofLayers [] []).withItemShadowing false).push .item [("title", .str "outer")]
    let inner : Object := [("title", .str "inner")]
    (ctx.push .item inner).get? "title" = some (.str "inner") ∧
      (ctx.collapsed.push .item inner).get? "title" = some (.str "outer") := ⟨rfl, rfl⟩

end Context

end Storefront
