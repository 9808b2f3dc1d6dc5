import Storefront.Context.Scope

/-!
# The discipline of scopes

A context is changed by four operations: a scope is pushed or popped, a variable is set, and
`itemsShadow` is switched. What a context holds after any number of them, in any order, can be read
off their history. A stretch of it is *balanced* (`ScopeStep.Balanced`) when the scopes pushed in it
are popped in it and no others are. Such a stretch changes one frame only, the innermost, and by no
more than the variables set outside of all its scopes.

Every history takes apart into balanced stretches between the pushes that are still open
(`Context.Stacked`). Each of these pushes has a frame, with the variables of its stretch. What comes
before the first one belongs to the bottom, which is all there is then, so that there is nothing to
pop (`ScopeStep.Grounded`). Each operation keeps this description (`Context.Stacked.after`), hence
every run does (`Context.stacked_run`).
-/

namespace Storefront

/-! ## Histories -/

/-- **One change of a context.** -/
inductive ScopeStep where
  /-- A scope is pushed. -/
  | push (scope : Scope) (vars : Object)
  /-- The innermost scope is popped; the bottom stays. -/
  | pop
  /-- A variable is set. -/
  | set (key : String) (v : Value)
  /-- `itemsShadow` is set. -/
  | shadow (enabled : Bool)

namespace ScopeStep

/-- **A balanced stretch**: the scopes pushed in it are popped in it, and no others are. What is set
outside of all of them is `own`. -/
inductive Balanced : List ScopeStep → List (String × Value) → Prop
  | nil : Balanced [] []
  | set {key : String} {v : Value} {steps : List ScopeStep} {own : List (String × Value)} :
      Balanced steps own → Balanced (.set key v :: steps) ((key, v) :: own)
  | shadow {enabled : Bool} {steps : List ScopeStep} {own : List (String × Value)} :
      Balanced steps own → Balanced (.shadow enabled :: steps) own
  | scope {scope : Scope} {vars : Object} {inside rest : List ScopeStep}
      {inner own : List (String × Value)} :
      Balanced inside inner → Balanced rest own →
      Balanced (.push scope vars :: (inside ++ .pop :: rest)) own

/-- **A stretch at the bottom**: balanced ones, with pops between them that find nothing. -/
inductive Grounded : List ScopeStep → List (String × Value) → Prop
  | balanced {steps : List ScopeStep} {own : List (String × Value)} :
      Balanced steps own → Grounded steps own
  | idle {steps more : List ScopeStep} {own new : List (String × Value)} :
      Grounded steps own → Balanced more new → Grounded (steps ++ .pop :: more) (own ++ new)

theorem Balanced.append {steps more : List ScopeStep} {own new : List (String × Value)}
    (h : Balanced steps own) (hmore : Balanced more new) : Balanced (steps ++ more) (own ++ new) := by
  induction h with
  | nil => exact hmore
  | set _ ih => exact .set ih
  | shadow _ ih => exact .shadow ih
  | scope hinside _ _ ih =>
    rw [List.cons_append, List.append_assoc, List.cons_append]
    exact .scope hinside ih

theorem Grounded.append {steps more : List ScopeStep} {own new : List (String × Value)}
    (h : Grounded steps own) (hmore : Balanced more new) : Grounded (steps ++ more) (own ++ new) := by
  cases h with
  | balanced hsteps => exact .balanced (hsteps.append hmore)
  | idle hfront hback =>
    rw [List.append_assoc, List.append_assoc, List.cons_append]
    exact .idle hfront (hback.append hmore)

end ScopeStep

namespace Object

theorem extend_append (o a b : Object) : o.extend (a ++ b) = (o.extend a).extend b :=
  List.foldl_append

end Object

namespace Frame

/-- A frame with some variables set in turn. -/
def extend (f : Frame) (own : List (String × Value)) : Frame := { f with vars := f.vars.extend own }

theorem extend_append (f : Frame) (a b : List (String × Value)) :
    f.extend (a ++ b) = (f.extend a).extend b := by
  rw [extend, Object.extend_append]
  rfl

end Frame

namespace Context

open ScopeStep (Balanced Grounded)

/-- The context after a change. -/
def after (ctx : Context) : ScopeStep → Context
  | .push scope vars => ctx.push scope vars
  | .pop => ctx.pop
  | .set key v => ctx.set key v
  | .shadow enabled => ctx.withItemShadowing enabled

/-- **The context after a run of changes.** -/
def run (ctx : Context) (steps : List ScopeStep) : Context := steps.foldl after ctx

theorem run_append (ctx : Context) (steps more : List ScopeStep) :
    ctx.run (steps ++ more) = (ctx.run steps).run more := List.foldl_append

/-! ## Operations, frame by frame -/

variable {ctx rest : Context} {f : Frame} {below : List Frame}

theorem exists_frames_eq (ctx : Context) : ∃ f below, ctx.frames = f :: below := by
  cases h : ctx.above with
  | nil => exact ⟨⟨.base, ctx.bottom⟩, [], by rw [frames, h, List.nil_append]⟩
  | cons f rest => exact ⟨f, _, by rw [frames, h, List.cons_append]⟩

/-- **A variable is set in the innermost frame**, and in no other. -/
theorem frames_set (h : ctx.frames = f :: below) (key : String) (v : Value) :
    (ctx.set key v).frames = f.extend [(key, v)] :: below := by
  unfold Context.set
  cases habove : ctx.above with
  | nil =>
    rw [frames, habove, List.nil_append, List.cons.injEq] at h
    obtain ⟨rfl, rfl⟩ := h
    rfl
  | cons g rest =>
    rw [frames, habove, List.cons_append, List.cons.injEq] at h
    obtain ⟨rfl, rfl⟩ := h
    rfl

theorem itemsShadow_set (ctx : Context) (key : String) (v : Value) :
    (ctx.set key v).itemsShadow = ctx.itemsShadow := by
  unfold Context.set
  cases ctx.above with
  | nil => rfl
  | cons f rest => rfl

/-- **What is popped is the innermost frame**, and the others are left. -/
theorem frames_of_pop? (h : ctx.pop? = some (f, rest)) : ctx.frames = f :: rest.frames := by
  unfold pop? at h
  split at h
  · exact absurd h.symm (Option.some_ne_none _)
  · next habove =>
    cases h
    rw [frames, habove]
    rfl

/-- A pop fails when the bottom is all there is. -/
theorem pop?_eq_none_iff : ctx.pop? = none ↔ ctx.frames.length = 1 := by
  unfold pop?
  cases habove : ctx.above with
  | nil => simp [frames, habove]
  | cons f rest => simp [frames, habove]

/-- Above another frame, the innermost one can be popped. -/
theorem exists_pop? {g : Frame} (h : ctx.frames = f :: g :: below) :
    ∃ rest, ctx.pop? = some (f, rest) ∧ rest.frames = g :: below := by
  cases hpop : ctx.pop? with
  | none =>
    have hlength := pop?_eq_none_iff.1 hpop
    rw [h] at hlength
    exact absurd hlength (by simp)
  | some popped =>
    obtain ⟨f', rest⟩ := popped
    have hframes := frames_of_pop? hpop
    rw [h, List.cons.injEq] at hframes
    obtain ⟨rfl, hrest⟩ := hframes
    exact ⟨rest, rfl, hrest.symm⟩

theorem pop_of_pop? (h : ctx.pop? = some (f, rest)) : ctx.pop = rest := by
  rw [pop, h]

theorem pop_of_pop?_eq_none (h : ctx.pop? = none) : ctx.pop = ctx := by
  rw [pop, h]

/-! ## Runs -/

section Runs

variable {base : Object} {steps : List ScopeStep} {own : List (String × Value)}

/-- **A balanced stretch sets its own variables in the innermost frame**, and changes no frame
otherwise. -/
theorem frames_run_of_balanced (h : Balanced steps own) (hctx : ctx.frames = f :: below) :
    (ctx.run steps).frames = f.extend own :: below := by
  induction h generalizing ctx f below with
  | nil => exact hctx
  | @set key v steps own _ ih =>
    have hset : ((ctx.set key v).run steps).frames = (f.extend [(key, v)]).extend own :: below :=
      ih (frames_set hctx key v)
    rw [← Frame.extend_append] at hset
    exact hset
  | shadow _ ih => exact ih hctx
  | @scope scope vars inside rest inner own _ _ ihinside ihrest =>
    have hpush : (ctx.push scope vars).frames = ⟨scope, vars⟩ :: f :: below :=
      congrArg (List.cons _) hctx
    obtain ⟨popped, hpop, hframes⟩ := exists_pop? (ihinside hpush)
    have hrun : ctx.run (.push scope vars :: (inside ++ .pop :: rest)) = popped.run rest := by
      rw [← pop_of_pop? hpop]
      exact run_append (ctx.push scope vars) inside (.pop :: rest)
    rw [hrun]
    exact ihrest hframes

/-- **The frames that a history leaves** over a bottom with given variables: one for each scope that
is still open, with what was set in it, and the bottom below them. -/
inductive Stacked (base : Object) : List ScopeStep → List Frame → Prop
  | bottom {steps : List ScopeStep} {own : List (String × Value)} :
      Grounded steps own → Stacked base steps [Frame.extend ⟨.base, base⟩ own]
  | push {before inside : List ScopeStep} {scope : Scope} {vars : Object}
      {own : List (String × Value)} {below : List Frame} :
      Stacked base before below → Balanced inside own →
      Stacked base (before ++ .push scope vars :: inside) (Frame.extend ⟨scope, vars⟩ own :: below)

theorem Stacked.exists_cons {frames : List Frame} (h : Stacked base steps frames) :
    ∃ f below, frames = f :: below := by
  cases h with
  | bottom => exact ⟨_, _, rfl⟩
  | push => exact ⟨_, _, rfl⟩

/-- A balanced stretch behind a history belongs to the scope that was opened last. -/
theorem Stacked.append {more : List ScopeStep} (h : Stacked base steps (f :: below))
    (hmore : Balanced more own) : Stacked base (steps ++ more) (f.extend own :: below) := by
  cases h with
  | bottom hground =>
    rw [← Frame.extend_append]
    exact .bottom (hground.append hmore)
  | push hbefore hinside =>
    rw [← Frame.extend_append, List.append_assoc, List.cons_append]
    exact .push hbefore (hinside.append hmore)

/-- **What each change does to the frames** is what it adds to the history. -/
theorem Stacked.after (h : Stacked base steps ctx.frames) (step : ScopeStep) :
    Stacked base (steps ++ [step]) (ctx.after step).frames := by
  obtain ⟨f, below, hctx⟩ := ctx.exists_frames_eq
  cases step with
  | push scope vars => exact .push h .nil
  | set key v =>
    rw [hctx] at h
    rw [Context.after, frames_set hctx]
    exact h.append (.set .nil)
  | shadow enabled =>
    rw [hctx] at h
    have hframes : (ctx.after (.shadow enabled)).frames = f.extend [] :: below := hctx
    rw [hframes]
    exact h.append (.shadow .nil)
  | pop =>
    rw [Context.after]
    rw [hctx] at h
    cases h with
    | @bottom _ own hground =>
      have hpop : ctx.pop? = none := pop?_eq_none_iff.2 (congrArg List.length hctx)
      rw [pop_of_pop?_eq_none hpop, hctx, ← List.append_nil own]
      exact .bottom (.idle hground .nil)
    | @push before inside scope vars own below hbefore hinside =>
      obtain ⟨g, lower, rfl⟩ := hbefore.exists_cons
      obtain ⟨rest, hpop, hframes⟩ := exists_pop? hctx
      -- the push and its pop are together a balanced stretch that sets nothing of its own
      have hscope : Balanced (.push scope vars :: (inside ++ [.pop])) [] := .scope hinside .nil
      rw [pop_of_pop? hpop, hframes, List.append_assoc, List.cons_append]
      exact hbefore.append hscope

/-- **Every run leaves the frames of its history.** -/
theorem Stacked.run (h : Stacked base steps ctx.frames) (more : List ScopeStep) :
    Stacked base (steps ++ more) (ctx.run more).frames := by
  induction more generalizing steps ctx with
  | nil =>
    rw [List.append_nil]
    exact h
  | cons step more ih =>
    rw [List.append_cons]
    exact ih (h.after step)

/-- The context that has nothing but a bottom. -/
def ofBottom (base : Object) : Context := { bottom := base }

theorem frames_run_of_grounded (h : Grounded steps own) :
    ((ofBottom base).run steps).frames = [Frame.extend ⟨.base, base⟩ own] := by
  induction h with
  | balanced hsteps => exact frames_run_of_balanced hsteps rfl
  | @idle steps more own new _ hmore ih =>
    have hidle : ((ofBottom base).run steps).pop? = none :=
      pop?_eq_none_iff.2 (congrArg List.length ih)
    have hrun : (ofBottom base).run (steps ++ .pop :: more) = ((ofBottom base).run steps).run more :=
      calc (ofBottom base).run (steps ++ .pop :: more)
          = (((ofBottom base).run steps).pop).run more := run_append _ steps (.pop :: more)
        _ = ((ofBottom base).run steps).run more := by rw [pop_of_pop?_eq_none hidle]
    rw [hrun, Frame.extend_append]
    exact frames_run_of_balanced hmore ih

/-- **A history leaves the frames of its run**, and no others. -/
theorem stacked_iff {frames : List Frame} :
    Stacked base steps frames ↔ frames = ((ofBottom base).run steps).frames := by
  constructor
  · intro h
    induction h with
    | bottom hground => exact (frames_run_of_grounded hground).symm
    | @push before inside scope vars own below _ hinside ih =>
      have hpush : (((ofBottom base).run before).push scope vars).frames = ⟨scope, vars⟩ :: below :=
        congrArg (List.cons _) ih.symm
      rw [run_append]
      exact (frames_run_of_balanced hinside hpush).symm
  · rintro rfl
    have hstart : Stacked base [] (ofBottom base).frames := .bottom (.balanced .nil)
    exact hstart.run steps

/-- The bottom is the last frame. It has the variables that were set when nothing was above it. -/
theorem Stacked.getLast? {frames : List Frame} (h : Stacked base steps frames) :
    ∃ ground behind own, steps = ground ++ behind ∧ Grounded ground own ∧
      frames.getLast? = some ⟨.base, base.extend own⟩ := by
  induction h with
  | @bottom steps own hground => exact ⟨steps, [], own, (List.append_nil steps).symm, hground, rfl⟩
  | @push before inside scope vars own below hbefore _ ih =>
    obtain ⟨ground, behind, own', rfl, hground, hlast⟩ := ih
    obtain ⟨g, lower, rfl⟩ := hbefore.exists_cons
    refine ⟨ground, behind ++ .push scope vars :: inside, own', List.append_assoc .., hground, ?_⟩
    rw [List.getLast?_cons_cons]
    exact hlast

/-- The innermost frame above another is that of the last push that is still open. -/
theorem Stacked.exists_push {g : Frame} (h : Stacked base steps (f :: g :: below)) :
    ∃ before scope vars inside own, steps = before ++ .push scope vars :: inside ∧
      Stacked base before (g :: below) ∧ Balanced inside own ∧ f = ⟨scope, vars.extend own⟩ := by
  cases h with
  | push hbefore hinside => exact ⟨_, _, _, _, _, rfl, hbefore, hinside, rfl⟩

end Runs

/-! ## Contexts as they are made -/

/-- **How a context is made**: with nothing in it, or of the two layers of a page. -/
inductive Origin where
  /-- With nothing in it. -/
  | empty
  /-- Of what every page has and the data of the page. -/
  | layers (base page : Object)

namespace Origin

/-- The context that is made. -/
def context : Origin → Context
  | empty => {}
  | layers base page => ofLayers base page

/-- The variables at its bottom. -/
def base : Origin → Object
  | empty => []
  | layers base _ => base

/-- What is pushed on its bottom to begin with: the data of a page. -/
def opening : Origin → List ScopeStep
  | empty => []
  | layers _ page => [.push .page page]

theorem context_eq (o : Origin) : o.context = (ofBottom o.base).run o.opening := by
  cases o with
  | empty => rfl
  | layers base page => rfl

end Origin

/-- **Scopes are a stack**, whatever is pushed, popped, set and switched after a context is made. At
the bottom is the base scope, with the variables set while nothing was above it, and it cannot be
popped. A variable is set in the innermost frame, and nothing else is changed. What is popped is the
frame of the last push that is still open, with the variables set in it since, and what is left is
what there was before that push. And a balanced stretch that sets nothing outside of its scopes leaves
all frames as they were. -/
theorem scopes_stack (o : Origin) (steps : List ScopeStep) :
    (∃ ground behind own, o.opening ++ steps = ground ++ behind ∧ Grounded ground own ∧
        (o.context.run steps).frames.getLast? = some ⟨.base, o.base.extend own⟩) ∧
      ((o.context.run steps).pop? = none ↔ (o.context.run steps).frames.length = 1) ∧
      (∀ key v, ∃ f below, (o.context.run steps).frames = f :: below ∧
        ((o.context.run steps).set key v).frames = ⟨f.scope, f.vars.insert key v⟩ :: below ∧
        ((o.context.run steps).set key v).itemsShadow = (o.context.run steps).itemsShadow) ∧
      (∀ f rest, (o.context.run steps).pop? = some (f, rest) →
        (o.context.run steps).frames = f :: rest.frames ∧
          ∃ before scope vars inside own, o.opening ++ steps = before ++ .push scope vars :: inside ∧
            Balanced inside own ∧ f = ⟨scope, vars.extend own⟩ ∧
            rest.frames = ((ofBottom o.base).run before).frames) ∧
      ∀ stretch, Balanced stretch [] →
        (o.context.run (steps ++ stretch)).frames = (o.context.run steps).frames := by
  have hrun : o.context.run steps = (ofBottom o.base).run (o.opening ++ steps) := by
    rw [o.context_eq, run_append]
  have hstacked : Stacked o.base (o.opening ++ steps) (o.context.run steps).frames :=
    stacked_iff.2 (congrArg frames hrun)
  obtain ⟨f, below, hframes⟩ := (o.context.run steps).exists_frames_eq
  refine ⟨hstacked.getLast?, pop?_eq_none_iff, fun key v => ?_, fun f rest hpop => ?_,
    fun stretch hstretch => ?_⟩
  · exact ⟨f, below, hframes, frames_set hframes key v, itemsShadow_set _ key v⟩
  · have htop := frames_of_pop? hpop
    obtain ⟨g, lower, hrest⟩ := rest.exists_frames_eq
    rw [htop, hrest] at hstacked
    obtain ⟨before, scope, vars, inside, own, hhistory, hbefore, hinside, hf⟩ := hstacked.exists_push
    exact ⟨htop, before, scope, vars, inside, own, hhistory, hinside, hf,
      hrest.trans (stacked_iff.1 hbefore)⟩
  · rw [run_append, hframes]
    exact frames_run_of_balanced hstretch hframes

/-- A loop over mugs, with an item that was entered and left: what is popped is the frame of the loop
with all that was set in it, and below it the page is untouched. -/
theorem scopes_stack_loop :
    let o : Origin := .layers [("title", .str "Shop")] [("title", .str "Mugs")]
    let item : List ScopeStep := [.push .item [("title", .str "Red mug")], .set "title" .null, .pop]
    let steps := [.push .iteration [("this", .null)], .set "this" (.str "mug")] ++ item ++
      [.shadow true, .set "seen" (.bool true)]
    let f : Frame := ⟨.iteration, [("this", .str "mug"), ("seen", .bool true)]⟩
    (o.context.run steps).pop? = some (f, o.context) ∧
      (∃ before scope vars inside own, o.opening ++ steps = before ++ .push scope vars :: inside ∧
        Balanced inside own ∧ f = ⟨scope, vars.extend own⟩ ∧
        o.context.frames = ((ofBottom o.base).run before).frames) ∧
      Balanced item [] ∧ (o.context.run (steps ++ item)).frames = (o.context.run steps).frames := by
  intro o item steps f
  have hpop : (o.context.run steps).pop? = some (f, o.context) := rfl
  have hset : Balanced [.set "title" .null] [("title", .null)] := .set .nil
  have hitem : Balanced item [] := .scope hset .nil
  obtain ⟨-, -, -, hpopped, hstretch⟩ := scopes_stack o steps
  exact ⟨hpop, (hpopped f o.context hpop).2, hitem, hstretch item hitem⟩

end Context

end Storefront
