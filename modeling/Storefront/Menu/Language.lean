import Storefront.Page.Builder

/-!
# The language switcher

Languages are listed by code, or as objects that have one. The current ones are
those whose code is the tag of the locale or its language. A language without a
name is shown by its code.
-/

namespace Storefront

namespace LanguageEntry

/-- The fields of a language, from its code or an object. -/
def fields? : Value → Option Object
  | .str code => some [("code", .str code)]
  | .obj fields => some fields
  | _ => none

/-- Whether a code is that of the locale or of its language, whatever the case of its letters. -/
def isCurrent (locale : Locale) (code : String) : Bool :=
  Text.sameLetters code locale.tag || Text.sameLetters code locale.language

/-- **A language for display**, unless it has no code. -/
def ofValue? (locale : Locale) (v : Value) : Option Object :=
  match fields? v with
  | none => none
  | some fields =>
    match fields.text? "code" with
    | none => none
    | some code =>
      let entry := fields.insert "is_current" (.bool (isCurrent locale code))
      some (if entry.has "name" then entry else entry.insert "name" (.str (Text.asciiUpper code)))

end LanguageEntry

/-- The languages for display. -/
def PageBuilder.languages (b : PageBuilder) (items : List Value) : List Value :=
  (items.filterMap (LanguageEntry.ofValue? b.locale)).map .obj

end Storefront
