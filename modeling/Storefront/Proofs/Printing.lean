import Storefront.Command.Run
import Storefront.Proofs.Agreement
import Storefront.Proofs.Layers

/-!
# Contexts that are printed

The context of a page is printed as one object. This object shows what templates
see (`Context.flatten_faithful`): every name has the same value in it, and a
template makes the same page of the object alone as of the context, if frames stay
together under those of loops. The context of a page has no items in it, and no
frame of it holds a name twice, as the data of a bundle that is read does not. So
the command that prints the context of a bundle prints what the command that renders
a template of the same bundle has to go on.
-/

namespace Storefront

/-! ## Bundles that are read -/

theorem Document.distinct_of_entries? {room : Nat} {members : List (Option String × Document)}
    {seen o : Object} (hseen : seen.Distinct) (h : entries? room members seen = some o) :
    o.Distinct := by
  induction members generalizing seen with
  | nil =>
    rw [entries?] at h
    exact Option.some.inj h ▸ hseen
  | cons member rest ih =>
    unfold entries? at h
    split at h
    · exact ih (hseen.insert _ _) h
    · exact absurd h.symm (Option.some_ne_none o)

/-- An object that is read holds no key twice, even if the document does. -/
theorem Decoder.distinct_of_object {room : Nat} {d : Document} {o : Object}
    (h : Decoder.object room d = some o) : o.Distinct := by
  unfold Decoder.object at h
  split at h
  · next members =>
    obtain ⟨v, hv, ho⟩ := Option.bind_eq_some_iff.1 h
    unfold Document.value? at hv
    split at hv
    · exact absurd hv.symm (Option.some_ne_none v)
    · obtain ⟨entries, hentries, rfl⟩ := Option.map_eq_some_iff.1 hv
      cases ho
      exact Document.distinct_of_entries? Object.distinct_nil hentries
  · exact absurd h.symm (Option.some_ne_none o)

theorem Decoder.exists_fields_of_record {α : Type} {names : List String} {short : Bool}
    {build : Fields → Option α} {room : Nat} {d : Document} {a : α}
    (h : record names short build room d = some a) : ∃ fs, build fs = some a := by
  unfold record at h
  split at h
  · obtain ⟨present, -, hbuild⟩ := Option.bind_eq_some_iff.1 h
    exact ⟨_, hbuild⟩
  · split at h
    · exact ⟨_, h⟩
    · exact absurd h.symm (Option.some_ne_none a)
  · exact absurd h.symm (Option.some_ne_none a)

namespace PageBundle

/-- The data of a bundle that is read holds no key twice. -/
theorem distinct_data {room : Nat} {d : Document} {p : PageBundle} (h : decoder room d = some p) :
    p.data.Distinct := by
  obtain ⟨fs, hbuild⟩ := Decoder.exists_fields_of_record h
  simp only [bind, Option.bind_eq_some_iff, pure, Option.some.injEq] at hbuild
  obtain ⟨pageType, -, locale, -, store, -, settings, -, data, hdata, rfl⟩ := hbuild
  unfold Decoder.Fields.get at hdata
  split at hdata
  · exact Decoder.distinct_of_object hdata
  · cases hdata
    exact Object.distinct_nil

/-- So the context of such a bundle holds no name twice in one frame. -/
theorem distinct_of_context? {p : PageBundle} (h : p.data.Distinct) {options : PageOptions}
    {ctx : Context} (hctx : p.context? options = some ctx) : ctx.Distinct := by
  have hbase : ∀ (b : PageBuilder) (kind : PageKind), (b.baseLayer kind p.data).Distinct := by
    intro b kind
    unfold PageBuilder.baseLayer PageBuilder.userEntries
    split
    · simp [Object.Distinct]
    · simp [Object.Distinct]
  have hpage : ∀ (b : PageBuilder) (kind : PageKind) (page : Object),
      b.pageLayer? kind p.data = some page → page.Distinct := by
    intro b kind page hpage
    cases kind with
    | category | product | cart =>
      cases hpage
      exact h.extend _
    | header =>
      obtain ⟨count, -, rfl⟩ := Option.map_eq_some_iff.1 hpage
      exact h.extend _
    | checkout | success | account | login | other =>
      cases hpage
      exact h
  obtain ⟨page, hlayer, rfl⟩ := Option.map_eq_some_iff.1 hctx
  exact (Context.distinct_ofLayers (hbase _ _) (hpage _ _ page hlayer)).withItemShadowing _

/-- **The page of such a bundle is what its template makes of its variables as one object.** -/
theorem html?_eq_collapsed (p : PageBundle) (h : p.data.Distinct) (options : PageOptions)
    (source : String) :
    p.html? source options = (p.context? options).map fun ctx =>
      (p.renderer options).template (Template.parse source)
        ((Context.ofLayers ctx.flatten []).withItemShadowing options.itemsShadow) := by
  rw [html?_eq]
  cases hctx : p.context? options with
  | none => rfl
  | some ctx =>
    obtain ⟨page, -, hlayers⟩ := Option.map_eq_some_iff.1 hctx
    have hcontiguous : ctx.Contiguous := hlayers ▸ Context.contiguous_ofLayers _ _ _
    have hflag : ctx.itemsShadow = options.itemsShadow := hlayers ▸ rfl
    rw [Option.map_some, Option.map_some, ← hflag]
    exact congrArg some
      (Context.template_collapsed (distinct_of_context? h hctx) hcontiguous _ _).symm

end PageBundle

/-! ## Bundles that are loaded -/

namespace Command

variable {σ α β : Type} {x : ExceptT Failure (StateM σ) α} {f : α → ExceptT Failure (StateM σ) β}
  {s s' : σ}

theorem run_bind (x : ExceptT Failure (StateM σ) α) (f : α → ExceptT Failure (StateM σ) β) (s : σ) :
    (x >>= f).run.run s =
      match x.run.run s with
      | (.ok a, between) => (f a).run.run between
      | (.error fault, between) => (.error fault, between) := by
  show (ExceptT.bindCont f (x.run.run s).1).run (x.run.run s).2 = _
  cases x.run.run s with
  | mk result between => cases result <;> rfl

/-- What comes behind a step that gives a result. -/
theorem run_bind_of_ok {a : α} (h : x.run.run s = (.ok a, s')) (f : α → ExceptT Failure (StateM σ) β) :
    (x >>= f).run.run s = (f a).run.run s' := by
  rw [run_bind, h]

/-- Steps that give a result together do so one after another. -/
theorem exists_of_run_bind {b : β} (h : (x >>= f).run.run s = (.ok b, s')) :
    ∃ a between, x.run.run s = (.ok a, between) ∧ (f a).run.run between = (.ok b, s') := by
  rw [run_bind] at h
  split at h
  · next a between hx => exact ⟨a, between, hx, h⟩
  · exact absurd (congrArg Prod.fst h) nofun

end Command

namespace PageBundle

open Command

variable {σ : Type} {fs : FileAccess (StateM σ)} {config : Config} {page : PageArguments} {s s' : σ}
  {p : PageBundle}

/-- The data of a bundle that a command loads holds no key twice. -/
theorem distinct_of_load (h : (load fs config page).run.run s = (.ok p, s')) : p.data.Distinct := by
  unfold load at h
  obtain ⟨source, s₁, -, h⟩ := exists_of_run_bind h
  split at h
  · exact absurd (congrArg Prod.fst h) nofun
  · next bundle hread =>
    obtain ⟨store, s₂, -, h⟩ := exists_of_run_bind h
    obtain ⟨settings, s₃, -, h⟩ := exists_of_run_bind h
    obtain ⟨d, -, hdecoded⟩ := Option.bind_eq_some_iff.1 hread
    have hdata : bundle.data.Distinct := distinct_data hdecoded
    cases h
    exact hdata

/-- **What the command that prints contexts does** with the bundle that it loads. -/
theorem run_runContext (h : (load fs config page).run.run s = (.ok p, s')) (oneLine : Bool) :
    (runContext fs config page oneLine).run.run s =
      ((p.context? (config.optionsFor page)).elim (.error .uncounted) fun ctx =>
        .ok (.success ((if oneLine then Json.compact (.obj ctx.flatten)
          else Json.pretty 0 (.obj ctx.flatten)) ++ "\n") []), s') := by
  rw [runContext, run_bind_of_ok h]
  cases hctx : p.context? (config.optionsFor page) with
  | none => rfl
  | some ctx => rfl

/-- **What the command that renders templates does** with the bundle that it loads and the text of
its template. -/
theorem run_runRender (h : (load fs config page).run.run s = (.ok p, s')) {template source : String}
    {read : σ} (htext : (fs.text template template).run.run s' = (.ok source, read)) (stats : Bool) :
    (runRender fs config template page none stats).run.run s =
      ((p.render? source (config.optionsFor page)).elim (.error .uncounted) fun rendered =>
        .ok (.success (rendered.html ++ "\n") (if stats then rendered.stats else [])), read) := by
  rw [runRender, run_bind_of_ok h, run_bind_of_ok htext]
  cases hrendered : p.render? source (config.optionsFor page) with
  | none => rfl
  | some rendered => rfl

end PageBundle

/-! ## The variables of a context are all that templates see -/

namespace Context

/-- **Flattening keeps what a context shows.** Every name has the same value in the flattened
context. A template is rendered alike in the context of one layer that is made of it, unless items
stand back behind other frames and there are some already. The context of a page has no items in
it, so for a bundle that is read, with any store, settings and locale in place of its own, the
flattened context is what its template sees. It is also what the command for contexts prints: what
the command for templates prints, with the same files, is made of that object and nothing else. -/
theorem flatten_faithful {ctx : Context} (h : ctx.Distinct) :
    (∀ key, ctx.flatten.get? key = ctx.get? key) ∧
      (ctx.Contiguous → ∀ (r : Renderer) (t : Template),
        r.template t ((ofLayers ctx.flatten []).withItemShadowing ctx.itemsShadow) =
          r.template t ctx) ∧
      (∀ (room : Nat) (d : Document) (read : PageBundle), PageBundle.decoder room d = some read →
        ∀ (store : Store) (settings : Settings) (locale : Option String) (options : PageOptions)
          (source : String),
          let p : PageBundle := { read with store, settings, locale }
          p.html? source options = (p.context? options).map fun shown =>
            (p.renderer options).template (Template.parse source)
              ((ofLayers shown.flatten []).withItemShadowing options.itemsShadow)) ∧
      ∀ {σ : Type} (fs : FileAccess (StateM σ)) (config : Config) (page : PageArguments)
        (s loaded : σ) (p : PageBundle),
        (PageBundle.load fs config page).run.run s = (.ok p, loaded) →
          let options := config.optionsFor page
          (p.context? options = none → ∀ oneLine,
            (Command.runContext fs config page oneLine).run.run s = (.error .uncounted, loaded)) ∧
          ∀ shown ∈ p.context? options,
            (∀ oneLine, (Command.runContext fs config page oneLine).run.run s =
              (.ok (.success ((if oneLine then Json.compact (.obj shown.flatten)
                else Json.pretty 0 (.obj shown.flatten)) ++ "\n") []), loaded)) ∧
            ∀ (template source : String) (read : σ),
              (fs.text template template).run.run loaded = (.ok source, read) →
                ∀ stats, ∃ reports,
                  (Command.runRender fs config template page none stats).run.run s =
                    (.ok (.success ((p.renderer options).template (Template.parse source)
                      ((ofLayers shown.flatten []).withItemShadowing options.itemsShadow) ++ "\n")
                        reports), read) := by
  refine ⟨get?_flatten h, fun hcontiguous r t => template_collapsed h hcontiguous r t, ?_, ?_⟩
  · intro room d read hread store settings locale options source p
    have hdata : read.data.Distinct := PageBundle.distinct_data hread
    exact p.html?_eq_collapsed hdata options source
  · intro σ fs config page s loaded p hload options
    refine ⟨fun hnone oneLine => ?_, fun shown hshown => ⟨fun oneLine => ?_, ?_⟩⟩
    · rw [PageBundle.run_runContext hload, hnone, Option.elim_none]
    · rw [PageBundle.run_runContext hload, hshown, Option.elim_some]
    · intro template source read htext stats
      have hhtml := p.html?_eq_collapsed (PageBundle.distinct_of_load hload) options source
      rw [hshown, Option.map_some] at hhtml
      obtain ⟨rendered, hrendered, hpage⟩ := Option.map_eq_some_iff.1 hhtml
      refine ⟨if stats then rendered.stats else [], ?_⟩
      rw [PageBundle.run_runRender hload htext, hrendered, Option.elim_some, hpage]

/-- A file with an empty bundle and one with a template, and how often they were read. -/
def twoFiles : FileAccess (StateM Nat) where
  read name := do
    modify (· + 1)
    return .ok (if name = "page.json" then "\x7b\x7d" else Lexeme.braced "current_language")
  write _ _ := return .error .denied
  isDirectory _ := return false
  list _ _ := return []

/-- An item that hides a name of its page, a bundle that is read from a document with a key given
twice, and two commands for an empty bundle. -/
theorem flatten_faithful_hidden :
    let fields : Object := [("title", .str "item"), ("tags", .arr [.str "new"])]
    let ctx := ((ofLayers [("title", .str "store")] [("title", .str "page"), ("n", .ofNat 2)]).push
      .iteration (Renderer.iteration 0 1 (.obj fields))).push .item fields
    let d : Document := .obj [(some "data", .obj [(some "title", .str (some "first")),
      (some "user", .null), (some "title", .str (some "last"))])]
    let p : PageBundle := { data := [("title", .str "last"), ("user", .null)] }
    let page : PageArguments := ⟨"page.json", none, none⟩
    (ctx.Distinct ∧ ctx.Contiguous ∧ PageBundle.decoder Document.nestingLimit d = some p ∧
        (PageBundle.load twoFiles {} page).run.run 0 = (.ok {}, 1)) ∧
      (ctx.flatten.get? "title" = some (.str "item") ∧ ctx.flatten.get? "n" = some (.ofNat 2)) ∧
      (∀ (r : Renderer) (t : Template),
        r.template t ((ofLayers ctx.flatten []).withItemShadowing true) = r.template t ctx) ∧
      (∀ source, p.html? source {} = (p.context? {}).map fun shown =>
        (p.renderer {}).template (Template.parse source)
          ((ofLayers shown.flatten []).withItemShadowing true)) ∧
      ∃ shown : Object, ∃ reports,
        (Command.runContext twoFiles {} page true).run.run 0 =
          (.ok (.success (Json.compact (.obj shown) ++ "\n") []), 1) ∧
        (Command.runRender twoFiles {} "page.hbs" page none true).run.run 0 =
          (.ok (.success ((PageBundle.renderer {} {}).template
            (Template.parse (Lexeme.braced "current_language"))
              ((ofLayers shown []).withItemShadowing true) ++ "\n") reports), 2) := by
  intro fields ctx d p page
  have hdistinct : ctx.Distinct := by decide
  have hcontiguous : ctx.Contiguous := Or.inl rfl
  have hdecoded : PageBundle.decoder Document.nestingLimit d = some p := rfl
  have hread : PageBundle.decoder.read? "\x7b\x7d" = some {} := by cbv
  have hload : (PageBundle.load twoFiles {} page).run.run 0 = (.ok {}, 1) := by
    have htext : (twoFiles.text page.data page.data).run.run 0 = (.ok "\x7b\x7d", 1) := rfl
    rw [PageBundle.load, Command.run_bind_of_ok htext]
    simp only [hread]
    rfl
  obtain ⟨hget, hrender, hpage, hcommands⟩ := flatten_faithful hdistinct
  obtain ⟨hprints, hrenders⟩ := (hcommands twoFiles {} page 0 1 {} hload).2 _ rfl
  obtain ⟨reports, hrendered⟩ := hrenders "page.hbs" _ 2 rfl true
  exact ⟨⟨hdistinct, hcontiguous, hdecoded, hload⟩, ⟨(hget "title").trans rfl, (hget "n").trans rfl⟩,
    hrender hcontiguous, hpage _ d p hdecoded p.store p.settings p.locale {},
    _, reports, hprints true, hrendered⟩

end Context

end Storefront
