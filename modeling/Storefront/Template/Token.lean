/-!
# Tokens of a slot template

A template is text with directives in double braces. A token is a lexeme (what
it means) together with the slice of the template it was read from and where
that slice stands, so that a directive which turns out to have no place can be
put back as it was written.
-/

namespace Storefront

/-- **The kinds of block**: each opens with `#` and its name and closes with `/` and its name. -/
inductive BlockKind where
  /-- A loop over a list. -/
  | each
  /-- A part shown when a condition holds. -/
  | ifTrue
  /-- A part shown when a condition does not hold. -/
  | unlessTrue
  deriving DecidableEq

namespace BlockKind

/-- The name that directives use. -/
def name : BlockKind → String
  | .each => "each"
  | .ifTrue => "if"
  | .unlessTrue => "unless"

/-- The kind with a name. -/
def ofName? (s : String) : Option BlockKind :=
  if s = "each" then some .each
  else if s = "if" then some .ifTrue
  else if s = "unless" then some .unlessTrue
  else none

theorem ofName?_name (kind : BlockKind) : ofName? kind.name = some kind := by
  cases kind <;> decide

theorem eq_name_of_ofName? {s : String} {kind : BlockKind} (h : ofName? s = some kind) :
    s = kind.name := by
  unfold ofName? at h
  split at h
  · next hs => cases h; exact hs
  · split at h
    · next hs => cases h; exact hs
    · split at h
      · next hs => cases h; exact hs
      · cases h

end BlockKind

/-- **What a token means.** -/
inductive Lexeme where
  /-- Literal text. -/
  | text (content : String)
  /-- `path` in double braces: shown escaped. -/
  | variable (path : String)
  /-- `path` in triple braces: shown as it is. -/
  | raw (path : String)
  /-- `t 'key'`: a phrase of the user interface. -/
  | phrase (key : String)
  /-- The start of a block, with what it loops over or tests. -/
  | opening (kind : BlockKind) (argument : String)
  /-- The border between the two branches of a conditional block. -/
  | otherwise
  /-- The end of a block. -/
  | closing (kind : BlockKind)
  deriving DecidableEq

namespace Lexeme

/-- A text between double braces. -/
def braced (s : String) : String := "\x7b\x7b" ++ s ++ "\x7d\x7d"

/-- **How a directive is written**; literal text is shown as the word `text`. -/
def display : Lexeme → String
  | .text _ => "text"
  | .variable path => braced path
  | .raw path => "\x7b" ++ braced path ++ "\x7d"
  | .phrase key => braced ("t '" ++ key ++ "'")
  | .opening kind argument => braced ("#" ++ kind.name ++ " " ++ argument)
  | .otherwise => braced "else"
  | .closing kind => braced ("/" ++ kind.name)

end Lexeme

/-- **A token**: a lexeme and the slice of the template that it was read from. -/
structure Token where
  /-- What it means. -/
  lexeme : Lexeme
  /-- The slice it was read from. -/
  source : String
  /-- How many bytes of the template come before it. -/
  start : Nat
  /-- The line it starts on, counted from one. -/
  line : Nat
  deriving DecidableEq

namespace Token

/-- How many bytes of the template come before its end. -/
def stop (t : Token) : Nat := t.start + t.source.utf8ByteSize

end Token

end Storefront
