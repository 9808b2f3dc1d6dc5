import Mathlib.Data.List.Nodup
import Mathlib.Data.List.TakeWhile
import Storefront.Menu.Language

/-!
# Which languages are current

A language of the switcher is marked as current when its code is the tag of the locale, or the
language of the locale. Each one is judged alone (`LanguageEntry.marks_languages`), so when no code
is listed twice, at most one of them is marked for the tag and at most one for the language.

The two are the same one when the tag is nothing but a language (`Locale.sameLetters_language_iff`).
Otherwise they differ: of a list that has both, `nl` and `nl-NL` say, two are current at once
(`PageBuilder.languages_two_current`). This is the only such case, and in every list the language
with the tag of the locale is marked if there is one (`PageBuilder.languages_current`).
-/

namespace Storefront

/-! ## Tags and their languages -/

/-- **A tag is its own language** when there is no hyphen in it. -/
theorem Locale.sameLetters_language_iff (l : Locale) :
    Text.sameLetters l.tag l.language = true ↔ '-' ∉ l.tag.toList := by
  rw [Text.sameLetters_iff, l.language_eq_asciiLower, Text.asciiLower_asciiLower]
  constructor
  · intro h hmem
    -- what follows the hyphen is missing in the language
    have hlength := congrArg (fun s => s.toList.length) h
    simp only [Text.length_asciiLower, String.toList_ofList] at hlength
    have hall := List.takeWhile_eq_self_iff.1 ((List.takeWhile_prefix _).eq_of_length hlength.symm)
    exact absurd (hall '-' hmem) (by decide)
  · intro h
    have hall : ∀ c ∈ l.tag.toList, (c != '-') = true := fun c hc =>
      bne_iff_ne.2 fun heq => h (heq ▸ hc)
    rw [List.takeWhile_eq_self_iff.2 hall, String.ofList_toList]

/-! ## Entries of the switcher -/

namespace LanguageEntry

/-- The code of a language. One that has none is not shown. -/
def codeOf? (v : Value) : Option String := (fields? v).bind fun fields => Object.text? fields "code"

/-- The codes of the languages that are shown. -/
def codes (items : List Value) : List String := items.filterMap codeOf?

/-- **No two languages have the same code**, whatever the case of its letters. -/
def Distinct (items : List Value) : Prop := ((codes items).map Text.asciiLower).Nodup

instance : DecidablePred Distinct :=
  fun items => inferInstanceAs (Decidable ((codes items).map Text.asciiLower).Nodup)

/-- **A tag is listed** when it is a code, whatever the case of its letters. -/
def Listed (items : List Value) (tag : String) : Prop := ∃ code ∈ codes items, Text.sameLetters code tag

instance (items : List Value) (tag : String) : Decidable (Listed items tag) :=
  inferInstanceAs (Decidable (∃ code ∈ codes items, Text.sameLetters code tag))

/-- Whether an entry of the switcher is marked as current. -/
def isMarked : Value → Bool
  | .obj entry => Object.flag entry "is_current"
  | _ => false

/-- The entry of a language with its code: marked if it is current, and named by the code if it has no
name. -/
def entry (l : Locale) (fields : Object) (code : String) : Object :=
  let marked := fields.insert "is_current" (.bool (isCurrent l code))
  if marked.has "name" then marked else marked.insert "name" (.str (Text.asciiUpper code))

/-- What an entry has beside its name: the mark, and the fields of the language. -/
theorem get?_entry (l : Locale) (fields : Object) (code : String) {key : String} (h : key ≠ "name") :
    (entry l fields code).get? key =
      if key = "is_current" then some (.bool (isCurrent l code)) else fields.get? key := by
  rw [entry]
  split
  · rw [Object.get?_insert]
  · rw [Object.get?_insert, if_neg h, Object.get?_insert]

theorem codeOf?_entry (l : Locale) (fields : Object) (code : String) :
    codeOf? (.obj (entry l fields code)) = fields.text? "code" := by
  have hkeep : (entry l fields code).get? "code" = fields.get? "code" :=
    (get?_entry l fields code (by decide)).trans (if_neg (by decide))
  rw [codeOf?, fields?, Option.bind_some, Object.text?, Object.text?, Object.getStr?, Object.getStr?,
    hkeep]

theorem isMarked_entry (l : Locale) (fields : Object) (code : String) :
    isMarked (.obj (entry l fields code)) = isCurrent l code := by
  have hmark : (entry l fields code).get? "is_current" = some (.bool (isCurrent l code)) :=
    (get?_entry l fields code (by decide)).trans (if_pos rfl)
  rw [isMarked, Object.flag, hmark]
  rfl

/-- **What is shown of a language**: its code, marked by this code alone. -/
theorem map_ofValue? (l : Locale) (v : Value) :
    (ofValue? l v).map (fun entry => (codeOf? (.obj entry), isMarked (.obj entry))) =
      (codeOf? v).map fun code => (some code, isCurrent l code) := by
  rw [ofValue?, codeOf?]
  cases fields? v with
  | none => rfl
  | some fields =>
    rw [Option.bind_some]
    dsimp only
    cases hcode : Object.text? fields "code" with
    | none => rfl
    | some code =>
      have hentry : codeOf? (.obj (entry l fields code)) = some code :=
        (codeOf?_entry l fields code).trans hcode
      exact congrArg some (Prod.ext hentry (isMarked_entry l fields code))

/-- **A list of different texts** has each of two at most once. -/
theorem countP_either {α : Type} [DecidableEq α] {xs : List α} (h : xs.Nodup) (a b : α) :
    xs.countP (fun x => x == a || x == b) =
      (if a ∈ xs then 1 else 0) + if a ≠ b ∧ b ∈ xs then 1 else 0 := by
  by_cases hab : a = b
  · subst hab
    simp only [Bool.or_self, ne_eq, not_true_eq_false, false_and, if_false, Nat.add_zero]
    exact h.count
  · have hboth : xs.countP (fun x => x == a || x == b) = xs.count a + xs.count b := by
      clear h
      induction xs with
      | nil => rfl
      | cons x xs ih =>
        rw [List.countP_cons, List.count_cons, List.count_cons, ih]
        grind
    rw [hboth, h.count, h.count]
    simp only [ne_eq, hab, not_false_eq_true, true_and]

end LanguageEntry

namespace PageBuilder

open LanguageEntry

/-- **Each language with a code is shown**, in the order of the list, and marked by its code. -/
theorem marks_languages (b : PageBuilder) (items : List Value) :
    (b.languages items).map (fun entry => (codeOf? entry, isMarked entry)) =
      (codes items).map fun code => (some code, isCurrent b.locale code) := by
  rw [languages, List.map_map, codes, List.map_filterMap, List.map_filterMap]
  exact List.filterMap_congr fun v _ => map_ofValue? b.locale v

/-- How many languages are marked. -/
theorem countP_languages (b : PageBuilder) {items : List Value} (h : Distinct items) :
    (b.languages items).countP isMarked =
      (if Listed items b.locale.tag then 1 else 0) +
        if '-' ∈ b.locale.tag.toList ∧ Listed items b.locale.language then 1 else 0 := by
  have hmarks : (b.languages items).map isMarked = (codes items).map (isCurrent b.locale) := by
    have hpairs := congrArg (List.map Prod.snd) (b.marks_languages items)
    rw [List.map_map, List.map_map] at hpairs
    exact hpairs
  have hlisted : ∀ tag, Text.asciiLower tag ∈ (codes items).map Text.asciiLower ↔ Listed items tag :=
    fun tag => by simp only [List.mem_map, Listed, Text.sameLetters_iff]
  have hapart : Text.asciiLower b.locale.tag ≠ Text.asciiLower b.locale.language ↔
      '-' ∈ b.locale.tag.toList := by
    rw [ne_eq, ← Text.sameLetters_iff, b.locale.sameLetters_language_iff, Classical.not_not]
  calc (b.languages items).countP isMarked
      = ((b.languages items).map isMarked).countP id := by rw [List.countP_map]; rfl
    _ = ((codes items).map Text.asciiLower).countP (fun code =>
          code == Text.asciiLower b.locale.tag || code == Text.asciiLower b.locale.language) := by
        rw [hmarks, List.countP_map, List.countP_map]
        rfl
    _ = _ := by
        rw [countP_either h]
        simp only [hlisted, hapart]

/-- **Which languages are current**, for any locale and any languages with different codes. Each entry
is marked when its code is the tag of the locale or its language. At most one entry is marked, unless
the tag is listed and its language is too and is not the tag itself; then the two are, and no other.
And the language with the tag of the locale is marked, with no other beside it but its language. -/
theorem languages_current (b : PageBuilder) (items : List Value) (h : Distinct items) :
    (b.languages items).map codeOf? = (codes items).map some ∧
      (∀ entry ∈ b.languages items, ∃ code, codeOf? entry = some code ∧
        (isMarked entry = true ↔
          Text.sameLetters code b.locale.tag = true ∨ Text.sameLetters code b.locale.language = true)) ∧
      ((b.languages items).countP isMarked ≤ 1 ∨
        '-' ∈ b.locale.tag.toList ∧ Listed items b.locale.tag ∧ Listed items b.locale.language ∧
          (b.languages items).countP isMarked = 2) ∧
      ∀ code ∈ codes items, Text.sameLetters code b.locale.tag = true →
        ∃ entry ∈ b.languages items, codeOf? entry = some code ∧ isMarked entry = true ∧
          ∀ other ∈ b.languages items, isMarked other = true → codeOf? other ≠ some code →
            ∃ otherCode, codeOf? other = some otherCode ∧
              Text.sameLetters otherCode b.locale.language = true := by
  have hmarks := b.marks_languages items
  have hcodes : (b.languages items).map codeOf? = (codes items).map some := by
    have hfirst := congrArg (List.map Prod.fst) hmarks
    rw [List.map_map, List.map_map] at hfirst
    exact hfirst
  have hentry : ∀ entry ∈ b.languages items, ∃ code ∈ codes items, codeOf? entry = some code ∧
      isMarked entry = isCurrent b.locale code := fun entry hmem => by
    have hpair : (codeOf? entry, isMarked entry) ∈
        (codes items).map fun code => (some code, isCurrent b.locale code) :=
      hmarks ▸ List.mem_map_of_mem (f := fun entry => (codeOf? entry, isMarked entry)) hmem
    obtain ⟨code, hcode, heq⟩ := List.mem_map.1 hpair
    obtain ⟨hfst, hsnd⟩ := Prod.mk.inj heq
    exact ⟨code, hcode, hfst.symm, hsnd.symm⟩
  refine ⟨hcodes, fun entry hmem => ?_, ?_, fun code hmem htag => ?_⟩
  · obtain ⟨code, -, hcode, hmark⟩ := hentry entry hmem
    exact ⟨code, hcode, by rw [hmark, isCurrent, Bool.or_eq_true]⟩
  · have hcount := b.countP_languages h
    by_cases hboth : Listed items b.locale.tag ∧
        '-' ∈ b.locale.tag.toList ∧ Listed items b.locale.language
    · obtain ⟨htag, hregion⟩ := hboth
      rw [if_pos htag, if_pos hregion] at hcount
      exact .inr ⟨hregion.1, htag, hregion.2, hcount⟩
    · left
      rw [hcount]
      obtain htag | hregion := not_and_or.1 hboth
      · rw [if_neg htag, Nat.zero_add]
        split <;> decide
      · rw [if_neg hregion, Nat.add_zero]
        split <;> decide
  · have hshown : some code ∈ (b.languages items).map codeOf? :=
      hcodes ▸ List.mem_map_of_mem hmem
    obtain ⟨entry, hentrymem, hentrycode⟩ := List.mem_map.1 hshown
    refine ⟨entry, hentrymem, hentrycode, ?_, fun other hothermem hmark hne => ?_⟩
    · obtain ⟨code', -, hcode', hmark⟩ := hentry entry hentrymem
      obtain rfl := Option.some.inj (hcode'.symm.trans hentrycode)
      rw [hmark, isCurrent, htag, Bool.true_or]
    · obtain ⟨otherCode, hothercodes, hothercode, hcurrent⟩ := hentry other hothermem
      rw [hmark, eq_comm, isCurrent, Bool.or_eq_true] at hcurrent
      refine ⟨otherCode, hothercode, hcurrent.resolve_left fun hothertag => hne ?_⟩
      -- two codes that are both the tag are the same code
      have hsame := (Text.sameLetters_iff.1 hothertag).trans (Text.sameLetters_iff.1 htag).symm
      rw [hothercode, List.inj_on_of_nodup_map h hothercodes hmem hsame]

/-- A Brazilian page of a shop that also speaks Portuguese as such: both are current. -/
theorem languages_current_brazil :
    let b : PageBuilder := { store := {}, settings := {}, options := { locale := .ofTag "pt_BR" } }
    let items : List Value :=
      [.str "EN", .obj [("code", .str "pt-br"), ("name", .str "Brasil")], .null, .str "pt"]
    Distinct items ∧ (b.languages items).map codeOf? = [some "EN", some "pt-br", some "pt"] ∧
      (b.languages items).countP isMarked = 2 := by
  intro b items
  have hdistinct : Distinct items := by decide
  obtain ⟨hcodes, -, hcount, -⟩ := b.languages_current items hdistinct
  have htwo : ¬ (b.languages items).countP isMarked ≤ 1 := by decide
  exact ⟨hdistinct, hcodes, (hcount.resolve_left htwo).2.2.2⟩

/-- **Two languages may be current at once**, although no code is listed twice: the tag of the locale
and its language. -/
theorem languages_two_current :
    let b : PageBuilder := { store := {}, settings := {}, options := { locale := .ofTag "nl-NL" } }
    let items : List Value := [.str "nl", .str "nl-NL"]
    Distinct items ∧ b.locale.tag = "nl-NL" ∧
      (b.languages items).map (fun entry => (codeOf? entry, isMarked entry)) =
        [(some "nl", true), (some "nl-NL", true)] := by
  decide

end PageBuilder

end Storefront
