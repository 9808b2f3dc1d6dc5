/-!
# Escaping

A value that is put into a page must not be taken for markup. Seven characters
are written as entities; everything else stays.
-/

namespace Storefront.Markup

/-- **A character as it stands in a page.** -/
def entity (c : Char) : List Char :=
  if c = '&' then "&amp;".toList
  else if c = '<' then "&lt;".toList
  else if c = '>' then "&gt;".toList
  else if c = '"' then "&quot;".toList
  else if c = '\'' then "&#x27;".toList
  else if c = '\x60' then "&#x60;".toList
  else if c = '=' then "&#x3D;".toList
  else [c]

/-- Characters as they stand in a page. -/
def escapeChars (cs : List Char) : List Char := cs.flatMap entity

/-- **A text as it stands in a page.** -/
def escape (s : String) : String := String.ofList (escapeChars s.toList)

end Storefront.Markup
