import Storefront.Json.Literal

/-!
# TOML tokens

Outside of quoted texts and comments every character of a TOML document is a
symbol of its own; what symbols mean together depends on where they stand, and is
left to the reader. Comments leave no token, and a line break is one token
however it is written.

The walk over the characters is a machine with a few modes (`Mode`), so it ends
with the text.
-/

namespace Storefront.Toml

/-- **A token.** -/
inductive Token where
  /-- A character outside of quotes. -/
  | symbol (c : Char)
  /-- The end of a line. -/
  | newline
  /-- A quoted text, in one pair of quotes or in three. -/
  | quoted (threefold : Bool) (s : String)
  deriving DecidableEq

/-- A character that comments and texts may hold: a tab, or no control character. -/
def isPrintable (c : Char) : Bool := c == '\t' || (32 ≤ c.toNat && c.toNat != 127)

/-- The character of a one-letter escape. -/
def escape? : Char → Option Char
  | 'b' => some '\x08'
  | 't' => some '\t'
  | 'n' => some '\n'
  | 'f' => some '\x0c'
  | 'r' => some '\r'
  | '"' => some '"'
  | '\\' => some '\\'
  | _ => none

/-- The character of a code point in hexadecimal digits, unless it is half of a surrogate pair or
beyond Unicode. -/
def codePoint? (digits : List Char) : Option Char :=
  match digits.mapM Json.hexDigit? with
  | none => none
  | some values =>
    let n := values.foldl (fun n d => n * 16 + d) 0
    if n < 0xD800 || (0xE000 ≤ n && n < 0x110000) then some (Char.ofNat n) else none

/-- **Where the walk is**; texts carry what they hold so far, the last character first. -/
inductive Mode where
  /-- Outside of quotes and comments. -/
  | plain
  /-- In a comment. -/
  | comment
  /-- In a text with escapes. After a backslash at the end of a line, blanks and line breaks are
  skipped until there is something else. -/
  | escaped (threefold skipping : Bool) (held : List Char)
  /-- In a text without escapes. -/
  | literal (threefold : Bool) (held : List Char)
  /-- In a threefold text with escapes, after a backslash and blanks: the line must end. -/
  | folding (held : List Char)

/-- The token of a text that is complete. -/
def Token.ofHeld (threefold : Bool) (held : List Char) : Token := .quoted threefold (String.ofList held.reverse)

/-- **The tokens of a document**; `none` for a text that is not closed, an unknown escape or a
character that may not stand where it does. A threefold text may end in one or two quotes before
the three that close it, and a line break right after its opening quotes is no part of it. -/
def tokens? : Mode → List Char → Option (List Token)
  | .plain, [] => some []
  | .plain, '#' :: cs => tokens? .comment cs
  | .plain, '\r' :: '\n' :: cs => (tokens? .plain cs).map (.newline :: ·)
  | .plain, '\n' :: cs => (tokens? .plain cs).map (.newline :: ·)
  | .plain, '"' :: '"' :: '"' :: '\r' :: '\n' :: cs => tokens? (.escaped true false []) cs
  | .plain, '"' :: '"' :: '"' :: '\n' :: cs => tokens? (.escaped true false []) cs
  | .plain, '"' :: '"' :: '"' :: cs => tokens? (.escaped true false []) cs
  | .plain, '"' :: cs => tokens? (.escaped false false []) cs
  | .plain, '\'' :: '\'' :: '\'' :: '\r' :: '\n' :: cs => tokens? (.literal true []) cs
  | .plain, '\'' :: '\'' :: '\'' :: '\n' :: cs => tokens? (.literal true []) cs
  | .plain, '\'' :: '\'' :: '\'' :: cs => tokens? (.literal true []) cs
  | .plain, '\'' :: cs => tokens? (.literal false []) cs
  | .plain, c :: cs => (tokens? .plain cs).map (.symbol c :: ·)
  | .comment, [] => some []
  | .comment, '\r' :: '\n' :: cs => (tokens? .plain cs).map (.newline :: ·)
  | .comment, '\n' :: cs => (tokens? .plain cs).map (.newline :: ·)
  | .comment, c :: cs => if isPrintable c then tokens? .comment cs else none
  | .escaped false _ held, '"' :: cs => (tokens? .plain cs).map (Token.ofHeld false held :: ·)
  | .escaped true _ held, '"' :: '"' :: '"' :: '"' :: '"' :: cs =>
    (tokens? .plain cs).map (Token.ofHeld true ('"' :: '"' :: held) :: ·)
  | .escaped true _ held, '"' :: '"' :: '"' :: '"' :: cs =>
    (tokens? .plain cs).map (Token.ofHeld true ('"' :: held) :: ·)
  | .escaped true _ held, '"' :: '"' :: '"' :: cs => (tokens? .plain cs).map (Token.ofHeld true held :: ·)
  | .escaped true skipping held, '\r' :: '\n' :: cs =>
    tokens? (.escaped true skipping (if skipping then held else '\n' :: held)) cs
  | .escaped true skipping held, '\n' :: cs =>
    tokens? (.escaped true skipping (if skipping then held else '\n' :: held)) cs
  | .escaped t _ held, '\\' :: 'u' :: a :: b :: c :: d :: cs =>
    match codePoint? [a, b, c, d] with
    | some u => tokens? (.escaped t false (u :: held)) cs
    | none => none
  | .escaped t _ held, '\\' :: 'U' :: a :: b :: c :: d :: e :: f :: g :: h :: cs =>
    match codePoint? [a, b, c, d, e, f, g, h] with
    | some u => tokens? (.escaped t false (u :: held)) cs
    | none => none
  | .escaped true _ held, '\\' :: '\r' :: '\n' :: cs => tokens? (.escaped true true held) cs
  | .escaped true _ held, '\\' :: '\n' :: cs => tokens? (.escaped true true held) cs
  | .escaped true _ held, '\\' :: ' ' :: cs => tokens? (.folding held) cs
  | .escaped true _ held, '\\' :: '\t' :: cs => tokens? (.folding held) cs
  | .escaped t _ held, '\\' :: c :: cs =>
    match escape? c with
    | some u => tokens? (.escaped t false (u :: held)) cs
    | none => none
  | .escaped t skipping held, c :: cs =>
    if skipping && (c == ' ' || c == '\t') then tokens? (.escaped t true held) cs
    else if isPrintable c && c != '\\' then tokens? (.escaped t false (c :: held)) cs
    else none
  | .literal false held, '\'' :: cs => (tokens? .plain cs).map (Token.ofHeld false held :: ·)
  | .literal true held, '\'' :: '\'' :: '\'' :: '\'' :: '\'' :: cs =>
    (tokens? .plain cs).map (Token.ofHeld true ('\'' :: '\'' :: held) :: ·)
  | .literal true held, '\'' :: '\'' :: '\'' :: '\'' :: cs =>
    (tokens? .plain cs).map (Token.ofHeld true ('\'' :: held) :: ·)
  | .literal true held, '\'' :: '\'' :: '\'' :: cs => (tokens? .plain cs).map (Token.ofHeld true held :: ·)
  | .literal true held, '\r' :: '\n' :: cs => tokens? (.literal true ('\n' :: held)) cs
  | .literal true held, '\n' :: cs => tokens? (.literal true ('\n' :: held)) cs
  | .literal t held, c :: cs => if isPrintable c then tokens? (.literal t (c :: held)) cs else none
  | .folding held, '\r' :: '\n' :: cs => tokens? (.escaped true true held) cs
  | .folding held, '\n' :: cs => tokens? (.escaped true true held) cs
  | .folding held, ' ' :: cs => tokens? (.folding held) cs
  | .folding held, '\t' :: cs => tokens? (.folding held) cs
  | .escaped .., [] | .literal .., [] | .folding .., _ => none

end Storefront.Toml
