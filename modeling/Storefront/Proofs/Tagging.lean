import Storefront.Proofs.Merging
import Storefront.Stock.Label

/-!
# Texts under the tag of a language

Texts are kept by language in three places: in the catalog of the user interface, in the entities
that bring their own, and in the label templates of the stock settings. All three are asked for
the tag of a locale first.

The tag of a locale is written with hyphens, whatever it was made from, and so are the other tags
that it is looked up under (`Locale.hyphened_of_mem_candidates`); the catalog makes letters small,
which changes no underscore. Where texts are kept, the tags stay as they are written. A text under
a tag with hyphens is thus found under this tag (`Locale.found_under_tag`), and a text under a tag
with an underscore in it is found for no locale at all, not even for the one that is made from the
same tag (`Locale.underscored_passed_over`).
-/

namespace Storefront

/-! ## Tags of locales -/

/-- A tag without underscores. -/
def Text.Hyphened (tag : String) : Prop := '_' ∉ tag.toList

instance : DecidablePred Text.Hyphened := fun tag => inferInstanceAs (Decidable ('_' ∉ tag.toList))

theorem Text.eq_underscore_of_toLower {c : Char} (h : c.toLower = '_') : c = '_' := by
  unfold Char.toLower at h
  split at h
  · next hupper =>
    -- what a capital becomes is behind the underscore
    obtain ⟨hlow, hhigh⟩ := hupper
    have hval : c.val + ('a'.val - 'A'.val) = '_'.val := congrArg Char.val h
    have hc : c.val = '_'.val - ('a'.val - 'A'.val) := by rw [← hval, UInt32.add_sub_cancel]
    rw [hc] at hlow
    exact absurd hlow (by decide)
  · exact h

/-- Underscores stay when letters are made small. -/
theorem Text.hyphened_asciiLower {tag : String} : Hyphened (asciiLower tag) ↔ Hyphened tag := by
  unfold Hyphened asciiLower
  rw [String.toList_ofList, List.mem_map, not_iff_not]
  constructor
  · rintro ⟨c, hc, hlower⟩
    exact eq_underscore_of_toLower hlower ▸ hc
  · exact fun h => ⟨'_', h, rfl⟩

namespace Locale

open Text (Hyphened hyphened_asciiLower)

theorem hyphened_tag_ofTag (tag : String) : Hyphened (ofTag tag).tag := by
  unfold ofTag
  split
  · decide
  · rw [Hyphened, String.toList_ofList, List.mem_map]
    rintro ⟨c, -, hc⟩
    split at hc
    · exact absurd hc (by decide)
    · next hne => exact hne hc

theorem hyphened_language {l : Locale} (h : Hyphened l.tag) : Hyphened l.language := by
  rw [l.language_eq_asciiLower, hyphened_asciiLower, Hyphened, String.toList_ofList]
  exact fun hmem => h ((List.takeWhile_sublist _).subset hmem)

/-- **No tag that a locale is looked up under has an underscore.** -/
theorem hyphened_of_mem_candidates (tag : String) :
    ∀ language ∈ (ofTag tag).candidates, Hyphened language := by
  rw [candidates, List.forall_mem_cons, List.forall_mem_cons, List.forall_mem_singleton]
  exact ⟨hyphened_tag_ofTag tag, hyphened_language (hyphened_tag_ofTag tag), by decide⟩

theorem ofTag_of_hyphened {tag : String} (hne : tag ≠ "") (htrim : Text.trimmed tag = tag)
    (h : Hyphened tag) : ofTag tag = ⟨tag⟩ := by
  have hmap : (tag.toList.map fun c => if c = '_' then '-' else c) = tag.toList := by
    refine (List.map_congr_left fun c hc => if_neg ?_).trans (List.map_id _)
    rintro rfl
    exact h hc
  unfold ofTag
  split
  · next hnil =>
    rw [Text.trim_of_trimmed htrim] at hnil
    exact absurd (String.toList_eq_nil_iff.1 hnil) hne
  · rw [Text.trim_of_trimmed htrim, hmap, String.ofList_toList]

end Locale

/-! ## What is found -/

theorem Catalog.translate_of_lookup? {c : Catalog} {tag key text : String}
    (hkey : Text.trimmed key = key) (h : c.lookup? tag key = some text) (hne : text ≠ "") :
    c.translate key ⟨tag⟩ = text := by
  have hfound : (c.lookup? tag key).filter (· != "") = some text := by
    rw [h, Option.filter_some, if_pos (bne_iff_ne.2 hne)]
  rw [translate, hkey, Locale.candidates, List.findSome?_cons, hfound]

/-- Tables by language none of which holds a key twice. -/
def Object.TablesDistinct (languages : Object) : Prop :=
  ∀ e ∈ languages, ∀ table, e.2.object? = some table → table.Distinct

/-- **Tables by language that have nothing under a key for a tag**, whatever its letters. -/
def Object.Lacks (languages : Object) (tag name : String) : Prop :=
  ∀ e ∈ languages, ∀ table, e.2.object? = some table →
    Text.asciiLower e.1 = Text.asciiLower tag → table.has name = false

/-- Tables by language that have no text under a key for a tag, whatever its letters. -/
def Object.LacksText (languages : Object) (tag name : String) : Prop :=
  ∀ e ∈ languages, ∀ table, e.2.object? = some table →
    Text.asciiLower e.1 = Text.asciiLower tag → table.getStr? name = none

/-- Tables that have nothing under a key do not matter to it. -/
theorem Catalog.get?_tableOf_foldl {languages : Object} {tag name : String}
    (hdistinct : languages.TablesDistinct) (h : languages.Lacks tag name) (c : Catalog) :
    ((languages.foldl addEntry c).tableOf tag).get? name = (c.tableOf tag).get? name := by
  induction languages generalizing c with
  | nil => rfl
  | cons e languages ih =>
    obtain ⟨he, hdistinct⟩ := List.forall_mem_cons.1 hdistinct
    obtain ⟨hnone, h⟩ := List.forall_mem_cons.1 h
    rw [List.foldl_cons, ih hdistinct h, addEntry_eq]
    cases htable : e.2.object? with
    | none => rfl
    | some table =>
      rw [Option.map_some, Option.getD_some, tableOf_add]
      split
      · next hlower =>
        rw [Object.get?_extend _ (he table htable),
          get?_of_has_eq_false (hnone table htable hlower.symm), Option.none_or, tableOf, tableOf,
          table?_congr c hlower]
      · rfl

/-- Tables that have no text under a key leave it without one. -/
theorem Catalog.getStr?_tableOf_foldl {languages : Object} {tag name : String}
    (hdistinct : languages.TablesDistinct) (h : languages.LacksText tag name) {c : Catalog}
    (hc : (c.tableOf tag).getStr? name = none) :
    ((languages.foldl addEntry c).tableOf tag).getStr? name = none := by
  induction languages generalizing c with
  | nil => exact hc
  | cons e languages ih =>
    obtain ⟨he, hdistinct⟩ := List.forall_mem_cons.1 hdistinct
    obtain ⟨hnone, h⟩ := List.forall_mem_cons.1 h
    refine ih hdistinct h ?_
    rw [addEntry_eq]
    cases htable : e.2.object? with
    | none => exact hc
    | some table =>
      rw [Option.map_some, Option.getD_some, tableOf_add]
      split
      · next hlower =>
        have hsame : c.tableOf e.1 = c.tableOf tag := by rw [tableOf, tableOf, table?_congr c hlower]
        rw [read_extend (readsOnly_getStr? name) rfl (he table htable), hnone table htable hlower.symm,
          hsame, hc, ite_self, Option.none_or]
      · exact hc

section Stored

variable {before table after : Object} {tag key text : String}
  (hdistinct : Object.TablesDistinct (before ++ (tag, .obj table) :: after))
include hdistinct

/-- What is under a key for a tag is what was written there last. -/
theorem Catalog.get?_tableOf_ofObject (hafter : after.Lacks tag key) :
    ((ofObject (before ++ (tag, .obj table) :: after)).tableOf tag).get? key =
      (((before.foldl addEntry {}).tableOf tag).extend table).get? key := by
  obtain ⟨-, hlater⟩ := List.forall_mem_cons.1 (List.forall_mem_append.1 hdistinct).2
  rw [ofObject_eq, List.foldl_append, List.foldl_cons, get?_tableOf_foldl hlater hafter]
  exact congrArg (Object.get? · key) ((tableOf_add _ tag tag table).trans (if_pos rfl))

/-- **A text under the whole key is in the catalog**, unless the tag comes again in other letters with
an entry there. -/
theorem Catalog.lookup?_ofObject_of_getStr? (htext : table.getStr? key = some text)
    (hafter : after.Lacks tag key) :
    (ofObject (before ++ (tag, .obj table) :: after)).lookup? tag key = some text := by
  obtain ⟨htable, -⟩ := List.forall_mem_cons.1 (List.forall_mem_append.1 hdistinct).2
  have hget := get?_tableOf_ofObject hdistinct hafter
  have hwhole := readsOnly_getStr? key _ _ (List.forall_mem_singleton.2 hget)
  dsimp only at hwhole
  rw [lookup?_eq, phraseIn?_eq, hwhole, read_extend (readsOnly_getStr? key) rfl (htable table rfl), htext,
    Option.some_or, Option.some_or]

/-- **A nested text is in the catalog**, unless the tag comes again in other letters with an entry
that replaces its branch, or with a text under the whole key. -/
theorem Catalog.lookup?_ofObject_of_nestedText? (htext : nestedText? table key = some text)
    (hflat : table.getStr? key = none) (hstem : after.Lacks tag (stem key))
    (hafter : after.LacksText tag key) (hfirst : table.has key = true ∨ before.LacksText tag key) :
    (ofObject (before ++ (tag, .obj table) :: after)).lookup? tag key = some text := by
  obtain ⟨hbefore, hlater⟩ := List.forall_mem_append.1 hdistinct
  obtain ⟨htable, hlater⟩ := List.forall_mem_cons.1 hlater
  have hearlier : (((before.foldl addEntry {}).tableOf tag).extend table).getStr? key = none := by
    rw [read_extend (readsOnly_getStr? key) rfl (htable table rfl), hflat, Option.none_or]
    obtain hkey | hlacks := hfirst
    · rw [if_pos hkey]
    · rw [getStr?_tableOf_foldl hbefore hlacks rfl, ite_self]
  have hwhole : ((ofObject (before ++ (tag, .obj table) :: after)).tableOf tag).getStr? key = none := by
    rw [ofObject_eq, List.foldl_append, List.foldl_cons]
    refine getStr?_tableOf_foldl hlater hafter ?_
    exact (congrArg (Object.getStr? · key) ((tableOf_add _ tag tag table).trans (if_pos rfl))).trans
      hearlier
  have hget := get?_tableOf_ofObject hdistinct hstem
  have hnested := readsOnly_nestedText? key _ _ (List.forall_mem_singleton.2 hget)
  dsimp only at hnested
  rw [lookup?_eq, phraseIn?_eq, hwhole, Option.none_or, hnested,
    read_extend (readsOnly_nestedText? key) (nestedText?_nil key) (htable table rfl), htext, Option.some_or]

end Stored

theorem Object.text?_of_getStr? {table : Object} {key text : String}
    (h : table.getStr? key = some text) (hblank : Text.isBlankText text = false) :
    table.text? key = some text := by
  rw [text?, h, Option.filter_some_pos (by rw [hblank]; rfl)]

/-- **A text is found under the tag that it is stored with**, where this is written with hyphens,
whatever its letters. In an entity and in the stock settings nothing else matters. The catalog has
one table for all spellings of a tag in small and capital letters. There a text under its whole key
is found unless another spelling comes later with an entry under that key. A nested text is found
unless another spelling comes later with an entry under the first segment, or there is a text under
the whole key from another spelling. -/
theorem Locale.found_under_tag {tag text : String} (hne : tag ≠ "")
    (htrim : Text.trimmed tag = tag) (hhyphened : Text.Hyphened tag)
    (hblank : Text.isBlankText text = false) :
    (∀ before table after : Object,
      Object.TablesDistinct (before ++ (tag, .obj table) :: after) →
      ∀ key, Text.trimmed key = key →
        (table.getStr? key = some text → after.Lacks tag key →
          (Catalog.ofObject (before ++ (tag, .obj table) :: after)).translate key (ofTag tag) =
            text) ∧
        (Catalog.nestedText? table key = some text → table.getStr? key = none →
          after.Lacks tag (Catalog.stem key) → after.LacksText tag key →
            table.has key = true ∨ before.LacksText tag key →
              (Catalog.ofObject (before ++ (tag, .obj table) :: after)).translate key (ofTag tag) =
                text)) ∧
      (∀ entity tables table : Object, entity.getObj? "translations" = some tables →
        tables.getObj? tag = some table →
        ∀ field, table.getStr? field = some text → entity.translated field (ofTag tag) = text) ∧
      ∀ (settings : Settings) (table : Object), settings.stock.labels.getObj? tag = some table →
        ∀ state : StockState, table.getStr? state.settingKey = some text →
          (StockLabeler.mk settings (ofTag tag)).template state = text := by
  rw [ofTag_of_hyphened hne htrim hhyphened]
  refine ⟨?_, ?_, ?_⟩
  · intro before table after hdistinct key htrimmed
    have hfilled : text ≠ "" := by
      rintro rfl
      exact absurd hblank (by decide)
    refine ⟨fun htext hafter => ?_, fun htext hflat hstem hafter hfirst => ?_⟩
    · exact Catalog.translate_of_lookup? htrimmed
        (Catalog.lookup?_ofObject_of_getStr? hdistinct htext hafter) hfilled
    · exact Catalog.translate_of_lookup? htrimmed
        (Catalog.lookup?_ofObject_of_nestedText? hdistinct htext hflat hstem hafter hfirst) hfilled
  · intro entity tables table htables htable field htext
    rw [Object.translated, htables, Option.bind_some, candidates, Object.textInLanguages?,
      List.findSome?_cons, htable, Option.bind_some, Object.text?_of_getStr? htext hblank]
  · intro settings table htable state htext
    rw [StockLabeler.template, List.findSome?_cons, htable, Option.bind_some,
      Object.text?_of_getStr? htext hblank]

/-- Texts under `pt-BR`, whole and nested, with other phrases of the catalog under `PT-br`. -/
theorem Locale.found_under_tag_portuguese :
    let phrases : Object := [("cart.total", .str "Total"), ("cart", .obj [("title", .str "Carrinho")])]
    let others : Object := [("checkout", .obj [("title", .str "Finalizar")])]
    let replaced : Object := [("cart", .obj [("total", .str "Soma")])]
    let names : Object := [("pt-BR", .obj [("name", .str "Caneca")])]
    let labels : Object := [("pt-BR", .obj [("out_of_stock_label", .str "Esgotado")])]
    let mug : Object := [("name", .str "Mug"), ("translations", .obj names)]
    ("pt-BR" ≠ "" ∧ Text.trimmed "pt-BR" = "pt-BR" ∧ Text.Hyphened "pt-BR") ∧
      (Catalog.ofObject [("pt-BR", .obj phrases), ("PT-br", .obj others)]).translate "cart.title"
        (ofTag "pt-BR") = "Carrinho" ∧
      (Catalog.ofObject [("pt-BR", .obj phrases), ("PT-br", .obj replaced)]).translate "cart.total"
        (ofTag "pt-BR") = "Total" ∧
      mug.translated "name" (ofTag "pt-BR") = "Caneca" ∧
      (StockLabeler.mk { stock := { labels } } (ofTag "pt-BR")).template .outOfStock =
        "Esgotado" := by
  intro phrases others replaced names labels mug
  have htrim : Text.trimmed "pt-BR" = "pt-BR" := by decide
  have hhyphened : Text.Hyphened "pt-BR" := by decide
  have hphrases : phrases.Distinct := by decide
  have hdistinct : ∀ more : Object, more.Distinct →
      Object.TablesDistinct [("pt-BR", .obj phrases), ("PT-br", .obj more)] := by
    intro more hmore
    rw [Object.TablesDistinct, List.forall_mem_cons, List.forall_mem_singleton]
    exact ⟨fun table h => Option.some.inj h ▸ hphrases, fun table h => Option.some.inj h ▸ hmore⟩
  have hlacks : ∀ (more : Object) (name : String), more.has name = false →
      Object.Lacks [("PT-br", .obj more)] "pt-BR" name := by
    intro more name hname
    rw [Object.Lacks, List.forall_mem_singleton]
    exact fun table h _ => Option.some.inj h ▸ hname
  have hlacksText : Object.LacksText [("PT-br", .obj others)] "pt-BR" "cart.title" := by
    rw [Object.LacksText, List.forall_mem_singleton]
    exact fun table h _ => Option.some.inj h ▸ rfl
  have htitle : Text.trimmed "cart.title" = "cart.title" := by decide +kernel
  have htotal : Text.trimmed "cart.total" = "cart.total" := by decide +kernel
  have hnested : Catalog.nestedText? phrases "cart.title" = some "Carrinho" := by decide +kernel
  have hstem : others.has (Catalog.stem "cart.title") = false := by decide +kernel
  have hlabels : Object.getObj? labels "pt-BR" =
      some [("out_of_stock_label", .str "Esgotado")] := rfl
  obtain ⟨hcarts, -⟩ := found_under_tag (by decide) htrim hhyphened
    (show Text.isBlankText "Carrinho" = false by decide)
  obtain ⟨htotals, -⟩ := found_under_tag (by decide) htrim hhyphened
    (show Text.isBlankText "Total" = false by decide)
  obtain ⟨-, hentity, -⟩ := found_under_tag (by decide) htrim hhyphened
    (show Text.isBlankText "Caneca" = false by decide)
  obtain ⟨-, -, hstock⟩ := found_under_tag (by decide) htrim hhyphened
    (show Text.isBlankText "Esgotado" = false by decide)
  obtain ⟨-, hcart⟩ := hcarts [] phrases _ (hdistinct others (by decide)) "cart.title" htitle
  obtain ⟨hwhole, -⟩ := htotals [] phrases _ (hdistinct replaced (by decide)) "cart.total" htotal
  exact ⟨⟨by decide, htrim, hhyphened⟩,
    hcart hnested rfl (hlacks others _ hstem) hlacksText (.inr (List.forall_mem_nil _)),
    hwhole rfl (hlacks replaced _ (by decide)),
    hentity mug names _ rfl rfl "name" rfl,
    hstock { stock := { labels } } _ hlabels .outOfStock rfl⟩

/-- **Texts that are not found under their tags**: one that is replaced by that of the same tag in
other letters, and those under a tag with an underscore. -/
theorem Locale.not_found_under_tag :
    (Catalog.ofObject
        [("EN", .obj [("title", .str "Cart")]), ("en", .obj [("title", .str "Basket")])]).translate
        "title" (ofTag "EN") = "Basket" ∧
      (Catalog.ofObject [("pt_BR", .obj [("add_to_cart", .str "Adicionar")])]).translate
        "add_to_cart" (ofTag "pt_BR") ≠ "Adicionar" ∧
      Object.translated
        [("name", .str "Mug"), ("translations", .obj [("pt_BR", .obj [("name", .str "Caneca")])])]
        "name" (ofTag "pt_BR") = "Mug" ∧
      (StockLabeler.mk
        { stock := { labels := [("pt_BR", .obj [("out_of_stock_label", .str "Esgotado")])] } }
        (ofTag "pt_BR")).template .outOfStock = "Out of Stock" := by
  decide +kernel

/-! ## What is passed over -/

/-- **A reading of objects of languages that passes over a tag**: for no locale does it matter
whether there is something under it. -/
def Locale.PassesOver (tag : String) (read : Object → Locale → String) : Prop :=
  ∀ (before : Object) (v : Value) (after : Object) (other : String),
    read (before ++ (tag, v) :: after) (ofTag other) = read (before ++ after) (ofTag other)

namespace Catalog

/-- The table of a language depends on the one that it had before. -/
theorem table?_addEntry_congr {c c' : Catalog} {language : String}
    (h : c.table? language = c'.table? language) (e : String × Value) :
    (c.addEntry e).table? language = (c'.addEntry e).table? language := by
  rw [addEntry_eq, addEntry_eq]
  cases e.2.object? with
  | none => exact h
  | some entries =>
    rw [Option.map_some, Option.map_some, Option.getD_some, Option.getD_some, table?_add,
      table?_add]
    split
    · next hlower => rw [← table?_congr c hlower, h, table?_congr c' hlower]
    · exact h

theorem table?_foldl_congr {c c' : Catalog} {language : String}
    (h : c.table? language = c'.table? language) (languages : Object) :
    (languages.foldl addEntry c).table? language =
      (languages.foldl addEntry c').table? language := by
  induction languages generalizing c c' with
  | nil => exact h
  | cons e languages ih => exact ih (table?_addEntry_congr h e)

/-- **A catalog is not asked for a tag with an underscore.** -/
theorem passesOver_translate {tag : String} (h : ¬ Text.Hyphened tag) (key : String) :
    Locale.PassesOver tag fun languages l => (ofObject languages).translate key l := by
  intro before v after other
  refine translate_congr key fun language hlanguage key => ?_
  have hne : Text.asciiLower language ≠ Text.asciiLower tag := fun heq =>
    h (Text.hyphened_asciiLower.1 (heq ▸ Text.hyphened_asciiLower.2
      (Locale.hyphened_of_mem_candidates other language hlanguage)))
  let c : Catalog := before.foldl addEntry {}
  have hadded : (c.addEntry (tag, v)).table? language = c.table? language :=
    c.table?_addEntry_of_ne hne
  have htable : (ofObject (before ++ (tag, v) :: after)).table? language =
      (ofObject (before ++ after)).table? language := by
    rw [ofObject_eq, ofObject_eq, List.foldl_append, List.foldl_append, List.foldl_cons]
    exact table?_foldl_congr hadded after
  rw [lookup?, lookup?, htable]

end Catalog

/-- Nor are the objects of languages that are looked up by the tags of a locale as they are. -/
theorem Object.getObj?_of_mem_candidates {tag : String} (h : ¬ Text.Hyphened tag) (before : Object)
    (v : Value) (after : Object) {other language : String}
    (hlanguage : language ∈ (Locale.ofTag other).candidates) :
    Object.getObj? (before ++ (tag, v) :: after) language =
      Object.getObj? (before ++ after) language := by
  have hne : tag ≠ language := by
    rintro rfl
    exact h (Locale.hyphened_of_mem_candidates other tag hlanguage)
  unfold getObj?
  rw [get?_append, get?_append, get?_cons_of_ne hne]

theorem Object.passesOver_translated {tag : String} (h : ¬ Text.Hyphened tag) (entity : Object)
    (field : String) :
    Locale.PassesOver tag fun tables l =>
      (entity.insert "translations" (.obj tables)).translated field l := by
  intro before v after other
  have htables : ∀ tables : Object,
      (entity.insert "translations" (.obj tables)).getObj? "translations" = some tables := by
    intro tables
    rw [getObj?, get?_insert, if_pos rfl]
  have hfield : ∀ tables tables' : Object,
      (entity.insert "translations" (.obj tables)).text? field =
        (entity.insert "translations" (.obj tables')).text? field := by
    intro tables tables'
    rw [text?, text?, getStr?_eq, getStr?_eq, get?_insert, get?_insert]
    split <;> rfl
  have hfound :
      textInLanguages? (before ++ (tag, v) :: after) (Locale.ofTag other).candidates field =
        textInLanguages? (before ++ after) (Locale.ofTag other).candidates field :=
    findSome?_congr fun language hlanguage => by
      rw [getObj?_of_mem_candidates h before v after hlanguage]
  show translated _ field _ = translated _ field _
  rw [translated, translated, htables, htables, Option.bind_some, Option.bind_some, hfound,
    hfield _ (before ++ after)]

/-- Settings with the label templates of these languages. -/
def Settings.withLabels (settings : Settings) (labels : Object) : Settings :=
  { settings with stock := { settings.stock with labels } }

theorem StockLabeler.passesOver_template {tag : String} (h : ¬ Text.Hyphened tag)
    (settings : Settings) (state : StockState) :
    Locale.PassesOver tag fun labels l =>
      (StockLabeler.mk (settings.withLabels labels) l).template state := by
  intro before v after other
  have hfound : ([(Locale.ofTag other).tag, (Locale.ofTag other).language].findSome? fun language =>
      (Object.getObj? (before ++ (tag, v) :: after) language).bind fun table =>
        table.text? state.settingKey) =
      [(Locale.ofTag other).tag, (Locale.ofTag other).language].findSome? fun language =>
        (Object.getObj? (before ++ after) language).bind fun table =>
          table.text? state.settingKey := by
    refine findSome?_congr fun language hlanguage => ?_
    have hcandidate : language ∈ (Locale.ofTag other).candidates :=
      List.mem_append_left [Locale.fallbackLanguage] hlanguage
    rw [Object.getObj?_of_mem_candidates h before v after hcandidate]
  show template _ state = template _ state
  unfold template
  dsimp only [Settings.withLabels]
  rw [hfound]
  cases state <;> rfl

/-- **What is under a tag with an underscore is passed over** wherever texts are kept, for all
locales. -/
theorem Locale.underscored_passed_over {tag : String} (h : ¬ Text.Hyphened tag) :
    (∀ key, PassesOver tag fun languages l => (Catalog.ofObject languages).translate key l) ∧
      (∀ (entity : Object) (field : String), PassesOver tag fun tables l =>
        (entity.insert "translations" (.obj tables)).translated field l) ∧
      ∀ (settings : Settings) (state : StockState), PassesOver tag fun labels l =>
        (StockLabeler.mk (settings.withLabels labels) l).template state :=
  ⟨fun key => Catalog.passesOver_translate h key,
    fun entity field => Object.passesOver_translated h entity field,
    fun settings state => StockLabeler.passesOver_template h settings state⟩

end Storefront
