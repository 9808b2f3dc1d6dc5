import Storefront.Text.Blank
import Storefront.Text.Case
import Storefront.Text.Search

/-!
# Locales

A locale is a language tag such as `en`, `nl` or `pt-BR`. Texts are looked up
under the whole tag, then under its language, then in English.
-/

namespace Storefront

/-- **A locale.** -/
structure Locale where
  /-- The language tag. -/
  tag : String
  deriving DecidableEq

namespace Locale

/-- The language that texts fall back to. -/
def fallbackLanguage : String := "en"

/-- English. -/
def english : Locale := ⟨fallbackLanguage⟩

/-- **The locale of a tag**: without blanks around it, with hyphens for underscores; English
when there is nothing left. -/
def ofTag (tag : String) : Locale :=
  match Text.trim tag.toList with
  | [] => english
  | cs => ⟨String.ofList (cs.map fun c => if c = '_' then '-' else c)⟩

/-- The language of a locale: its tag up to the first hyphen, in small letters. -/
def language (l : Locale) : String :=
  String.ofList ((l.tag.toList.takeWhile (· != '-')).map Char.toLower)

theorem language_eq_asciiLower (l : Locale) :
    l.language = Text.asciiLower (String.ofList (l.tag.toList.takeWhile (· != '-'))) := by
  rw [language, Text.asciiLower, String.toList_ofList]

/-- Whether the language is the one that texts fall back to. -/
def isFallback (l : Locale) : Bool := l.language == fallbackLanguage

/-- The tags under which texts are looked up, the best first. -/
def candidates (l : Locale) : List String := [l.tag, l.language, fallbackLanguage]

end Locale

namespace Text

/-- **A readable label for a key**: the words of its last segment, each with a capital. -/
def humanized (key : String) : String :=
  let last := (key.toList.splitOn '.').getLast?.getD []
  let words := (piecesAt (fun c => c == '_' || isBlank c) last).filter fun word => !word.isEmpty
  joined " " (words.map fun word => String.ofList (capitalized word))

end Text

end Storefront
