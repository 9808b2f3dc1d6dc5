import Storefront.Page.Bundle
import Storefront.Proofs.Layers

/-!
# What the locale and the currency of a page are taken from

A locale or a currency has several candidates, the most particular one first: the bundle and the
store name a locale, the request, the settings and the store name a currency. Each of them may be
missing, and each may be blank, as forms leave it.

The candidate that counts is the first one given (`Text.firstGiven?`), and when it is blank there
is none. What one wants is the first one that is filled (`Text.firstFilled?`). The two part in one
case alone: a blank candidate is the first one given, and a filled one is behind it
(`Text.Blocked`, `Text.filter_firstGiven?`).
-/

namespace Storefront

/-! ## Candidates -/

namespace Candidates

variable {α : Type} (filled : α → Bool)

/-- **A candidate hides another**: it is the first one given and is not filled, and one that is filled
is behind it. -/
def Hides : List (Option α) → Prop
  | [] => False
  | none :: rest => Hides rest
  | some a :: rest => filled a = false ∧ rest.findSome? (Option.filter filled) ≠ none

instance Hides.decidable : DecidablePred (Hides filled)
  | [] => inferInstanceAs (Decidable False)
  | none :: rest => Hides.decidable rest
  | some a :: rest =>
    inferInstanceAs (Decidable (filled a = false ∧ rest.findSome? (Option.filter filled) ≠ none))

/-- **What counts of several candidates**, when the first one given is taken, and dropped if it is not
filled. -/
theorem filter_findSome? (candidates : List (Option α)) :
    (candidates.findSome? id).filter filled =
      if Hides filled candidates then none else candidates.findSome? (Option.filter filled) := by
  induction candidates with
  | nil => rfl
  | cons c rest ih =>
    cases c with
    | none => exact ih
    | some a =>
      have hgiven : (some a :: rest).findSome? id = some a := rfl
      rw [hgiven, Option.filter_some]
      cases ha : filled a with
      | true =>
        have hshown : ¬ Hides filled (some a :: rest) := fun h => Bool.false_ne_true (h.1.symm.trans ha)
        rw [if_neg hshown, List.findSome?_cons, Option.filter_some, ha]
        rfl
      | false =>
        have hrest : (some a :: rest).findSome? (Option.filter filled) =
            rest.findSome? (Option.filter filled) := by
          rw [List.findSome?_cons, Option.filter_some, ha]
          rfl
        rw [hrest, if_neg Bool.false_ne_true]
        -- one that is not filled gives nothing: either it hides another, or there is none to be found
        split
        · rfl
        · next hshown => exact (Decidable.not_not.1 fun hne => hshown ⟨ha, hne⟩).symm

end Candidates

namespace Text

/-- The first candidate that is given, blank or not. -/
def firstGiven? (candidates : List (Option String)) : Option String := candidates.findSome? id

/-- The first candidate that is given and not blank. -/
def firstFilled? (candidates : List (Option String)) : Option String :=
  candidates.findSome? (Option.filter fun s => !isBlankText s)

/-- **A blank candidate keeps a filled one from being found**: it hides that one. -/
def Blocked (candidates : List (Option String)) : Prop :=
  Candidates.Hides (fun s => !isBlankText s) candidates

instance : DecidablePred Blocked := Candidates.Hides.decidable _

/-- **What counts of several candidates** that may be blank. -/
theorem filter_firstGiven? (candidates : List (Option String)) :
    ((firstGiven? candidates).filter fun s => !isBlankText s) =
      if Blocked candidates then none else firstFilled? candidates :=
  Candidates.filter_findSome? _ candidates

end Text

/-! ## Currencies -/

namespace Currency

open Text (firstGiven? firstFilled? Blocked)

theorem normalizedCode_of_blank {code : String} (h : Text.isBlankText code = true) :
    normalizedCode code = fallbackCode := by
  rw [normalizedCode, Text.trim_eq_nil_iff.2 h]

/-- A filled code is written in capitals, without the blanks around it. -/
theorem normalizedCode_of_filled {code : String} (h : Text.isBlankText code = false) :
    normalizedCode code = Text.asciiUpper (Text.trimmed code) := by
  have hne : Text.trim code.toList ≠ [] := fun hnil =>
    Bool.false_ne_true (h.symm.trans (Text.trim_eq_nil_iff.1 hnil))
  rw [normalizedCode, Text.asciiUpper, Text.trimmed, String.toList_ofList]
  split
  · next hnil => exact absurd hnil hne
  · rfl

/-- The currency that the first filled candidate names, else the fallback. -/
def firstNamed (candidates : List (Option String)) : String :=
  (firstFilled? candidates).elim fallbackCode fun code => Text.asciiUpper (Text.trimmed code)

/-- **The code of the currency that counts.** -/
theorem normalizedCode_firstGiven? (candidates : List (Option String)) :
    normalizedCode ((firstGiven? candidates).getD fallbackCode) =
      if Blocked candidates then fallbackCode else firstNamed candidates := by
  have hcounts := Text.filter_firstGiven? candidates
  have hif : (if Blocked candidates then fallbackCode else firstNamed candidates) =
      (if Blocked candidates then none else firstFilled? candidates).elim fallbackCode
        fun code => Text.asciiUpper (Text.trimmed code) := by
    split
    · rfl
    · rfl
  rw [hif, ← hcounts]
  cases hgiven : firstGiven? candidates with
  | none => rfl
  | some code =>
    cases hblank : Text.isBlankText code with
    | true =>
      rw [Option.getD_some, normalizedCode_of_blank hblank]
      simp [Option.filter, hblank]
    | false =>
      rw [Option.getD_some, normalizedCode_of_filled hblank]
      simp [Option.filter, hblank]

theorem chosen_eq (override : Option String) (settings : Settings) (store : Option String) :
    chosen override settings store =
      (firstGiven? [override, settings.currency, store]).getD fallbackCode := by
  rw [chosen]
  cases override with
  | some code => rfl
  | none =>
    cases settings.currency with
    | some code => rfl
    | none =>
      cases store with
      | some code => rfl
      | none => rfl

theorem chosen_none_eq (settings : Settings) (store : Option String) :
    chosen none settings store = (firstGiven? [settings.currency, store]).getD fallbackCode :=
  chosen_eq none settings store

end Currency

/-! ## Pages -/

open Text (Blocked firstFilled?)

/-- The locale that the first filled candidate names, else the fallback. -/
def Locale.firstNamed (candidates : List (Option String)) (fallback : Locale) : Locale :=
  (firstFilled? candidates).elim fallback ofTag

namespace PageBuilder

/-- The currency of a builder. -/
theorem code_display (b : PageBuilder) :
    b.display.currency.code =
      if Blocked [b.options.currency, b.settings.currency, b.store.currency] then
        Currency.fallbackCode
      else Currency.firstNamed [b.options.currency, b.settings.currency, b.store.currency] := by
  rw [← Currency.normalizedCode_firstGiven?, ← Currency.chosen_eq]
  rfl

/-- Every page names its currency, under data of its own that goes first. -/
theorem map_get?_build?_currency_code (b : PageBuilder) (kind : PageKind) (raw : Object) :
    (b.build? kind raw).map (·.get? "currency_code") =
      (b.pageLayer? kind raw).map fun page =>
        (page.get? "currency_code").or (some (.str b.display.currency.code)) := by
  rw [map_get?_build?]
  simp [baseLayer, Object.get?]

/-- Every page names its language, under data of its own that goes first. -/
theorem map_get?_build?_current_language (b : PageBuilder) (kind : PageKind) (raw : Object) :
    (b.build? kind raw).map (·.get? "current_language") =
      (b.pageLayer? kind raw).map fun page =>
        (page.get? "current_language").or (some (.str b.locale.tag)) := by
  rw [map_get?_build?]
  simp [baseLayer, Object.get?]

end PageBuilder

namespace PageBundle

/-- The locale of a page. -/
theorem resolvedLocale_eq (p : PageBundle) (fallback : Locale) :
    p.resolvedLocale fallback =
      if Blocked [p.locale, p.store.defaultLanguage] then fallback
      else Locale.firstNamed [p.locale, p.store.defaultLanguage] fallback := by
  have hgiven : p.locale.or p.store.defaultLanguage =
      Text.firstGiven? [p.locale, p.store.defaultLanguage] := by
    cases p.locale with
    | some tag => rfl
    | none =>
      cases p.store.defaultLanguage with
      | some tag => rfl
      | none => rfl
  have helim : p.resolvedLocale fallback =
      (if Blocked [p.locale, p.store.defaultLanguage] then none
        else firstFilled? [p.locale, p.store.defaultLanguage]).elim fallback Locale.ofTag := by
    rw [← Text.filter_firstGiven?, ← hgiven, resolvedLocale]
    split
    · next hcounts => rw [hcounts, Option.elim_some]
    · next hcounts => rw [hcounts, Option.elim_none]
  rw [helim]
  split
  · rfl
  · rfl

/-- **What the locale and the currency are taken from**, for any bundle, builder and request. It is
the first filled candidate, unless a blank one blocks it, and then it is the fallback; and the one
who builds a page and the one who renders it take the same. -/
theorem first_given_counts (p : PageBundle) (options : PageOptions) (b : PageBuilder) :
    (p.resolvedLocale options.locale =
      if Blocked [p.locale, p.store.defaultLanguage] then options.locale
      else Locale.firstNamed [p.locale, p.store.defaultLanguage] options.locale) ∧
    (b.display.currency.code =
      if Blocked [b.options.currency, b.settings.currency, b.store.currency] then "USD"
      else Currency.firstNamed [b.options.currency, b.settings.currency, b.store.currency]) ∧
    ((CurrencyFormat.ofSettings b.settings b.store.currency b.locale).code =
      if Blocked [b.settings.currency, b.store.currency] then "USD"
      else Currency.firstNamed [b.settings.currency, b.store.currency]) ∧
    (Renderer.ofSettings b.settings b.store b.locale b.options.currency).display = b.display ∧
    (p.builder options).locale = p.resolvedLocale options.locale ∧
    (p.renderer options).display = (p.builder options).display ∧
    ((p.context? options).map (·.get? "current_language") =
      ((p.builder options).pageLayer? p.kind p.data).map fun page =>
        (page.get? "current_language").or (some (.str (p.resolvedLocale options.locale).tag))) ∧
    (p.context? options).map (·.get? "currency_code") =
      ((p.builder options).pageLayer? p.kind p.data).map fun page =>
        (page.get? "currency_code").or (some (.str (p.renderer options).display.currency.code)) := by
  have hsettings : (CurrencyFormat.ofSettings b.settings b.store.currency b.locale).code =
      if Blocked [b.settings.currency, b.store.currency] then Currency.fallbackCode
      else Currency.firstNamed [b.settings.currency, b.store.currency] := by
    rw [← Currency.normalizedCode_firstGiven?, ← Currency.chosen_none_eq]
    rfl
  -- both sides pass the same candidates on, so their displays are the same by definition
  exact ⟨p.resolvedLocale_eq options.locale, b.code_display, hsettings, rfl, rfl, rfl,
    (p.builder options).map_get?_build?_current_language p.kind p.data,
    (p.builder options).map_get?_build?_currency_code p.kind p.data⟩

/-- **A blank candidate is not passed over**: the page of a French store is German when its bundle
has a blank locale, and its euros are dollars when its settings have a blank currency. -/
theorem blank_blocks :
    let p : PageBundle :=
      { locale := some "  ", settings := { currency := some " " },
        store := { defaultLanguage := some "fr", currency := some "EUR" } }
    let options : PageOptions := { locale := .ofTag "de" }
    firstFilled? [p.locale, p.store.defaultLanguage] = some "fr" ∧
      p.resolvedLocale options.locale = .ofTag "de" ∧ Locale.ofTag "de" ≠ .ofTag "fr" ∧
      firstFilled? [options.currency, p.settings.currency, p.store.currency] = some "EUR" ∧
      (p.builder options).display.currency.code = "USD" := by
  decide

end PageBundle

end Storefront
