import Storefront.Locale.Catalog
import Storefront.Proofs.Footprints

/-!
# Adding to a catalog

A phrase stands in a table in one of two forms: under its whole key, or nested under the segments
of the key. Each form depends on a single entry of the table, the first on the one under the key
and the second on the one under its first segment (`Catalog.stem`). Adding entries to a table
replaces whole entries, so each form afterwards is that of the new entries where they have the
entry that it depends on, and as it was elsewhere (`Catalog.phraseIn?_extend`).

The text under the whole key goes first. It follows that a phrase of the new entries is found
unless it is nested and there was a text under the whole key already, and that an entry which is
replaced takes all phrases with it that were nested in it.
-/

namespace Storefront

/-- What is found first depends on what is found for each member. -/
theorem findSome?_congr {α β : Type} {l : List α} {f g : α → Option β} (h : ∀ a ∈ l, f a = g a) :
    l.findSome? f = l.findSome? g := by
  induction l with
  | nil => rfl
  | cons a l ih =>
    obtain ⟨ha, hl⟩ := List.forall_mem_cons.1 h
    rw [List.findSome?_cons, List.findSome?_cons, ha, ih hl]

/-! ## The two forms -/

/-- The text that a value is. -/
def Value.str? : Value → Option String
  | .str s => some s
  | _ => none

theorem Object.getStr?_eq (o : Object) (key : String) :
    o.getStr? key = (o.get? key).bind Value.str? := by
  unfold getStr?
  cases o.get? key with
  | none => rfl
  | some v => cases v <;> rfl

namespace Catalog

open Object (ReadsOnly)

variable {key : String}

/-- The first segment of a key. -/
def stem (key : String) : String := String.ofList ((key.toList.splitOn '.').headD [])

/-- The text that is nested in a table under the segments of a key. -/
def nestedText? (table : Object) (key : String) : Option String :=
  (nested? (.obj table) (key.toList.splitOn '.')).bind Value.str?

/-- **A phrase stands under its whole key or is nested.** -/
theorem phraseIn?_eq (table : Object) (key : String) :
    phraseIn? table key = (table.getStr? key).or (nestedText? table key) := by
  unfold phraseIn? nestedText?
  cases table.getStr? key with
  | some s => rfl
  | none =>
    rw [Option.none_or]
    cases nested? (.obj table) (key.toList.splitOn '.') with
    | none => rfl
    | some v => cases v <;> rfl

theorem nested?_obj (table : Object) (s : List Char) (rest : List (List Char)) :
    nested? (.obj table) (s :: rest) = (table.get? (String.ofList s)).bind (nested? · rest) := rfl

/-- What is nested depends on the entry under the first segment. -/
theorem readsOnly_nestedText? (key : String) : ReadsOnly [stem key] (nestedText? · key) := by
  intro o o' h
  have hget : o.get? (stem key) = o'.get? (stem key) := h _ List.mem_cons_self
  unfold stem at hget
  show nestedText? o key = nestedText? o' key
  unfold nestedText?
  cases hsegments : key.toList.splitOn '.' with
  | nil => rfl
  | cons s rest =>
    rw [hsegments, List.headD_cons] at hget
    rw [nested?_obj, nested?_obj, hget]

theorem readsOnly_getStr? (key : String) : ReadsOnly [key] (Object.getStr? · key) := by
  intro o o' h
  show o.getStr? key = o'.getStr? key
  rw [Object.getStr?_eq, Object.getStr?_eq, h key List.mem_cons_self]

/-- **What a phrase depends on**: the entries under its whole key and under its first segment. -/
theorem readsOnly_phraseIn? (key : String) : ReadsOnly [key, stem key] (phraseIn? · key) := by
  intro o o' h
  obtain ⟨hkey, hstem⟩ := List.forall_mem_cons.1 h
  have hwhole : o.getStr? key = o'.getStr? key :=
    readsOnly_getStr? key o o' (List.forall_mem_singleton.2 hkey)
  have hnested : nestedText? o key = nestedText? o' key := readsOnly_nestedText? key o o' hstem
  show phraseIn? o key = phraseIn? o' key
  rw [phraseIn?_eq, phraseIn?_eq, hwhole, hnested]

theorem nestedText?_nil (key : String) : nestedText? [] key = none := by
  unfold nestedText?
  cases key.toList.splitOn '.' with
  | nil => rfl
  | cons s rest => rfl

theorem get?_of_has_eq_false {table : Object} {name : String} (h : table.has name = false) :
    table.get? name = none :=
  Option.isNone_iff_eq_none.1 (Option.isSome_eq_false_iff.1 h)

theorem getStr?_of_has_eq_false {table : Object} {name : String} (h : table.has name = false) :
    table.getStr? name = none := by
  rw [Object.getStr?_eq, get?_of_has_eq_false h, Option.bind_none]

/-! ## New entries -/

/-- What depends on one entry is replaced with it: it is read from the new entries, and from the
old ones if there is no new entry. -/
theorem read_extend {α : Type} {read : Object → Option α} (hread : ReadsOnly [key] read)
    (hnil : read [] = none) {entries : Object} (h : entries.Distinct) (table : Object) :
    read (table.extend entries) =
      (read entries).or (if entries.has key = true then none else read table) := by
  have hget := Object.get?_extend table h key
  cases hkey : entries.get? key with
  | some v =>
    rw [hkey, Option.some_or] at hget
    rw [hread _ entries (List.forall_mem_singleton.2 (hget.trans hkey.symm)), Object.has, hkey,
      Option.isSome_some, if_pos rfl, Option.or_none]
  | none =>
    rw [hkey, Option.none_or] at hget
    rw [hread _ table (List.forall_mem_singleton.2 hget),
      hread entries [] (List.forall_mem_singleton.2 hkey), hnil, Option.none_or, Object.has, hkey,
      Option.isSome_none, if_neg Bool.false_ne_true]

/-- **A phrase of a table to which entries were added**, each form by itself. -/
theorem phraseIn?_extend {entries : Object} (h : entries.Distinct) (table : Object) (key : String) :
    phraseIn? (table.extend entries) key =
      ((entries.getStr? key).or (if entries.has key = true then none else table.getStr? key)).or
        ((nestedText? entries key).or
          (if entries.has (stem key) = true then none else nestedText? table key)) := by
  rw [phraseIn?_eq, read_extend (readsOnly_getStr? key) rfl h,
    read_extend (readsOnly_nestedText? key) (nestedText?_nil key) h]

/-- **A phrase of the new entries** is found, unless it is nested and there is a text under the
whole key already. -/
theorem phraseIn?_extend_of_phrase {entries table : Object} (h : entries.Distinct) {text : String}
    (htext : phraseIn? entries key = some text)
    (hfirst : entries.has key = true ∨ table.getStr? key = none) :
    phraseIn? (table.extend entries) key = some text := by
  rw [phraseIn?_eq] at htext
  rw [phraseIn?_extend h]
  cases hwhole : entries.getStr? key with
  | some s =>
    rw [hwhole, Option.some_or] at htext
    rw [Option.some_or, Option.some_or, htext]
  | none =>
    rw [hwhole, Option.none_or] at htext
    rw [htext, Option.none_or, Option.some_or]
    obtain hkey | hold := hfirst
    · rw [if_pos hkey, Option.none_or]
    · rw [hold, ite_self, Option.none_or]

/-! ## Languages -/

theorem find?_extendTable (name other : String) (entries : Object)
    (tables : List (String × Object)) :
    ((extendTable name entries tables).find? (·.1 == other)).map (·.2) =
      if other = name then
        some (Object.extend (((tables.find? (·.1 == name)).map (·.2)).getD []) entries)
      else (tables.find? (·.1 == other)).map (·.2) := by
  induction tables with
  | nil =>
    by_cases hother : other = name
    · subst hother
      simp [extendTable]
    · simp [extendTable, hother, Ne.symm hother]
  | cons e rest ih =>
    obtain ⟨n, table⟩ := e
    rw [extendTable]
    by_cases hname : n = name
    · subst hname
      by_cases hother : other = n
      · subst hother
        simp
      · simp [hother, Ne.symm hother]
    · rw [if_neg hname]
      by_cases hother : n = other
      · subst hother
        simp [hname]
      · simp [hother, hname, ih]

/-- **The tables of a catalog to which entries were added.** -/
theorem table?_add (c : Catalog) (language other : String) (entries : Object) :
    (c.add language entries).table? other =
      if Text.asciiLower other = Text.asciiLower language then
        some (((c.table? language).getD []).extend entries)
      else c.table? other :=
  find?_extendTable (Text.asciiLower language) (Text.asciiLower other) entries c.tables

/-- The letters of a tag do not matter. -/
theorem table?_congr (c : Catalog) {language other : String}
    (h : Text.asciiLower language = Text.asciiLower other) :
    c.table? language = c.table? other := by
  unfold table?
  rw [h]

/-- The table of a language, empty where it has none. -/
def tableOf (c : Catalog) (language : String) : Object := (c.table? language).getD []

/-- A language without a table is looked up like one with an empty table. -/
theorem lookup?_eq (c : Catalog) (language key : String) :
    c.lookup? language key = phraseIn? (c.tableOf language) key := by
  unfold lookup? tableOf
  cases c.table? language with
  | none =>
    rw [Option.bind_none, Option.getD_none, phraseIn?_eq, nestedText?_nil]
    rfl
  | some table => rfl

theorem tableOf_add (c : Catalog) (language other : String) (entries : Object) :
    (c.add language entries).tableOf other =
      if Text.asciiLower other = Text.asciiLower language then (c.tableOf language).extend entries
      else c.tableOf other := by
  unfold tableOf
  rw [table?_add]
  split <;> rfl

theorem lookup?_add_of_ne (c : Catalog) {language other : String} (entries : Object)
    (h : Text.asciiLower other ≠ Text.asciiLower language) (key : String) :
    (c.add language entries).lookup? other key = c.lookup? other key := by
  rw [lookup?_eq, tableOf_add, if_neg h, ← lookup?_eq]

/-- A catalog with the table of an entry of an object of languages. -/
def addEntry (c : Catalog) (e : String × Value) : Catalog :=
  match e.2 with
  | .obj entries => c.add e.1 entries
  | _ => c

theorem ofObject_eq (languages : Object) : ofObject languages = languages.foldl addEntry {} := rfl

theorem addEntry_eq (c : Catalog) (e : String × Value) :
    c.addEntry e = (e.2.object?.map (c.add e.1)).getD c := by
  unfold addEntry
  obtain ⟨language, v⟩ := e
  cases v <;> rfl

theorem table?_addEntry_of_ne (c : Catalog) {language : String} {e : String × Value}
    (h : Text.asciiLower language ≠ Text.asciiLower e.1) :
    (c.addEntry e).table? language = c.table? language := by
  unfold addEntry
  split
  · rw [table?_add, if_neg h]
  · rfl

/-- A phrase for a locale is told by the languages that are looked at. -/
theorem translate_congr {c c' : Catalog} {locale : Locale} (key : String)
    (h : ∀ language ∈ locale.candidates, ∀ key, c.lookup? language key = c'.lookup? language key) :
    c.translate key locale = c'.translate key locale := by
  rw [translate, translate, findSome?_congr fun language hlanguage => by rw [h language hlanguage]]

/-- **Adding entries to a language.** Other languages keep their phrases. A phrase of the entries
is found, unless it is nested in them and the language had a text under the whole key: then that
text is found as before. A phrase that the entries do not have is found as before where they have
no entry that it depends on. An entry of theirs under the whole key replaces the text there, and
one under the first segment all that was nested in it. -/
theorem add_overrides (c : Catalog) (language : String) {entries : Object} (h : entries.Distinct)
    (key : String) :
    let extended := c.add language entries
    (∀ other, Text.asciiLower other ≠ Text.asciiLower language →
        extended.lookup? other key = c.lookup? other key) ∧
      (∀ text, phraseIn? entries key = some text →
        (entries.has key = true ∨ (c.tableOf language).getStr? key = none →
          extended.lookup? language key = some text) ∧
        ∀ old, entries.has key = false → (c.tableOf language).getStr? key = some old →
          extended.lookup? language key = some old ∧ c.lookup? language key = some old) ∧
      (phraseIn? entries key = none →
        (entries.has key = false → entries.has (stem key) = false →
          extended.lookup? language key = c.lookup? language key) ∧
        extended.lookup? language key =
          (if entries.has key = true then none else (c.tableOf language).getStr? key).or
            (if entries.has (stem key) = true then none
              else nestedText? (c.tableOf language) key)) := by
  intro extended
  have hextended : extended.lookup? language key =
      phraseIn? ((c.tableOf language).extend entries) key := by
    rw [lookup?_eq, tableOf_add, if_pos rfl]
  refine ⟨fun other hother => c.lookup?_add_of_ne entries hother key, fun text htext => ⟨?_, ?_⟩,
    fun hnone => ?_⟩
  · exact fun hfirst => hextended.trans (phraseIn?_extend_of_phrase h htext hfirst)
  · intro old hkey hold
    have hwhole : entries.getStr? key = none := getStr?_of_has_eq_false hkey
    rw [hextended, phraseIn?_extend h, hwhole, hkey, if_neg Bool.false_ne_true, lookup?_eq,
      phraseIn?_eq, hold, Option.none_or, Option.some_or, Option.some_or]
    exact ⟨rfl, rfl⟩
  · rw [phraseIn?_eq, Option.or_eq_none_iff] at hnone
    rw [phraseIn?_extend h, hnone.1, hnone.2, Option.none_or, Option.none_or] at hextended
    refine ⟨fun hkey hstem => ?_, hextended⟩
    rw [hextended, hkey, hstem, if_neg Bool.false_ne_true, if_neg Bool.false_ne_true, lookup?_eq,
      phraseIn?_eq]

/-- A phrase for an empty cart comes in, and the title of the cart is written over. -/
theorem add_overrides_cart :
    let c : Catalog := Catalog.add {} "en"
      [("cart.title", .str "Basket"), ("cart", .obj [("total", .str "Total")])]
    let entries : Object := [("cart", .obj [("empty", .str "Nothing"), ("title", .str "Cart")])]
    entries.Distinct ∧
      (phraseIn? entries "cart.empty" = some "Nothing" ∧
        (c.tableOf "EN").getStr? "cart.empty" = none) ∧
      (c.add "EN" entries).lookup? "EN" "cart.empty" = some "Nothing" ∧
      (phraseIn? entries "cart.title" = some "Cart" ∧ entries.has "cart.title" = false ∧
        (c.tableOf "EN").getStr? "cart.title" = some "Basket") ∧
      (c.add "EN" entries).lookup? "EN" "cart.title" = some "Basket" ∧
      (c.add "EN" entries).lookup? "nl" "cart.title" = c.lookup? "nl" "cart.title" := by
  intro c entries
  have hentries : entries.Distinct := by decide
  have hempty : phraseIn? entries "cart.empty" = some "Nothing" := by decide +kernel
  have hnew : (c.tableOf "EN").getStr? "cart.empty" = none := by decide +kernel
  have htitle : phraseIn? entries "cart.title" = some "Cart" := by decide +kernel
  have hkey : entries.has "cart.title" = false := by decide +kernel
  have hold : (c.tableOf "EN").getStr? "cart.title" = some "Basket" := by decide +kernel
  obtain ⟨-, hphrases, -⟩ := add_overrides c "EN" hentries "cart.empty"
  obtain ⟨hothers, htitles, -⟩ := add_overrides c "EN" hentries "cart.title"
  exact ⟨hentries, ⟨hempty, hnew⟩, (hphrases _ hempty).1 (.inr hnew), ⟨htitle, hkey, hold⟩,
    ((htitles _ htitle).2 _ hkey hold).1, hothers "nl" (by decide)⟩

/-- **Added entries may hide phrases and be hidden.** A branch of a table is replaced with all that
was nested in it, and a nested phrase is not found where a text stands under its whole key. -/
theorem add_replaces_branch :
    (let c : Catalog := Catalog.add {} "en" [("cart", .obj [("title", .str "Cart")])]
      let entries : Object := [("cart", .obj [("empty", .str "Nothing")])]
      phraseIn? entries "cart.title" = none ∧ c.lookup? "en" "cart.title" = some "Cart" ∧
        (c.add "en" entries).lookup? "en" "cart.title" = none) ∧
      (let c : Catalog := Catalog.add {} "en" [("cart.title", .str "Basket")]
        let entries : Object := [("cart", .obj [("title", .str "Cart")])]
        phraseIn? entries "cart.title" = some "Cart" ∧
          (c.add "en" entries).lookup? "en" "cart.title" = some "Basket") := by
  decide +kernel

end Catalog

end Storefront
