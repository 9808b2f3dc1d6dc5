import Storefront.Template.Token
import Storefront.Text.Blank
import Storefront.Text.Search

/-!
# Splitting a template into tokens

A directive starts at double braces and ends at the first closing pair. Reading
never fails: whatever is no directive stays literal text, which happens in four
ways. Text runs up to the next opening pair; a brace in front of an opening pair
is text when no filled triple brace can be read there; a pair whose content is
none of the known forms is text with its content; and an opening pair that is
never closed makes the rest of the template text.

The template is cut into *pieces* first, then neighbouring text is merged, then
each piece gets its position. Each step keeps all characters in order.
-/

namespace Storefront

/-! ## Directives -/

namespace Lexeme

/-- The text in front of `quote` at the end. -/
def beforeLast? (quote : Char) (cs : List Char) : Option (List Char) :=
  if cs.getLast? = some quote then some cs.dropLast else none

/-- The key in `t 'key'` or `t "key"`: quoted once, with no further quote of that kind inside. -/
def phraseKey? : List Char → Option (List Char)
  | 't' :: blank :: rest =>
    if Text.isBlank blank then
      match Text.trim rest with
      | quote :: quoted =>
        if quote = '\'' || quote = '"' then
          (beforeLast? quote quoted).bind fun key =>
            if key.contains quote then none else some (Text.trim key)
        else none
      | [] => none
    else none
  | _ => none

/-- The first word and what follows it, both without blanks around them. -/
def firstWord (cs : List Char) : List Char × List Char :=
  let (word, rest) := Text.spanning (fun c => !Text.isBlank c) (Text.trimStart cs)
  (word, Text.trim rest)

/-- **What a directive means**, from its content without blanks around it; `none` when it is
no directive. -/
def ofContent? : List Char → Option Lexeme
  | [] => none
  | '#' :: body =>
    let (name, argument) := firstWord body
    (BlockKind.ofName? (String.ofList name)).map (.opening · (String.ofList argument))
  | '/' :: body => (BlockKind.ofName? (String.ofList (Text.trim body))).map .closing
  | content =>
    if content = "else".toList then some .otherwise
    else
      match phraseKey? content with
      | some key => some (.phrase (String.ofList key))
      | none =>
        if content.any Text.isBlank then none else some (.variable (String.ofList content))

end Lexeme

/-! ## Pieces -/

/-- **A piece of a template**: the meaning of a directive, or `none` for text, and its source. -/
structure Piece where
  /-- What the piece means when it is a directive. -/
  directive : Option Lexeme
  /-- The characters it was read from. -/
  source : List Char
  deriving DecidableEq

namespace Piece

/-- Literal text. -/
def text (source : List Char) : Piece := ⟨none, source⟩

/-- What the piece means. -/
def lexeme (p : Piece) : Lexeme := p.directive.getD (.text (String.ofList p.source))

/-- The two characters that open a directive. -/
def opener : List Char := ['{', '{']

/-- The two characters that close a directive. -/
def closer : List Char := ['}', '}']

/-- The piece at an opening pair followed by `rest`, which starts with no brace. -/
def atPair (rest : List Char) : Piece × List Char :=
  match Text.cutAt? closer rest with
  | none => (text (opener ++ rest), [])
  | some (content, after) =>
    (⟨Lexeme.ofContent? (Text.trim content), opener ++ content ++ closer⟩, after)

/-- The piece at an opening pair followed by one more brace and `rest`. -/
def atTriple (rest : List Char) : Piece × List Char :=
  match Text.cutAt? ('}' :: closer) rest with
  | none => (text ['{'], opener ++ rest)
  | some (content, after) =>
    match Text.trim content with
    | [] => (text ['{'], opener ++ rest)
    | path =>
      (⟨some (.raw (String.ofList path)), '{' :: opener ++ content ++ '}' :: closer⟩, after)

/-- The piece at an opening pair followed by `rest`. -/
def atOpener : (rest : List Char) → Piece × List Char
  | '{' :: rest => atTriple rest
  | rest => atPair rest

/-- **The first piece** of a text, and the rest. -/
def first (cs : List Char) : Piece × List Char :=
  match Text.cutAt? opener cs with
  | none => (text cs, [])
  | some ([], rest) => atOpener rest
  | some (before, rest) => (text before, opener ++ rest)

/-- The pieces account for every character. -/
theorem first_source (cs : List Char) : (first cs).1.source ++ (first cs).2 = cs := by
  unfold first
  split
  · simp [text]
  · rename_i rest h
    have hcs := Text.cutAt?_eq_append h
    simp only [List.nil_append] at hcs
    subst hcs
    unfold atOpener
    split
    · rename_i rest
      unfold atTriple
      split
      · simp [text, opener]
      · rename_i content after hcut
        have := Text.cutAt?_eq_append hcut
        split
        · simp [text, opener]
        · simp [opener, closer, this]
    · unfold atPair
      split
      · simp [text]
      · rename_i content after hcut
        have := Text.cutAt?_eq_append hcut
        simp [opener, closer, this]
  · rename_i before rest _ h
    simp [text, Text.cutAt?_eq_append h]

/-- No piece of a text is empty. -/
theorem first_source_ne_nil {cs : List Char} (hcs : cs ≠ []) : (first cs).1.source ≠ [] := by
  unfold first
  split
  · exact hcs
  · unfold atOpener
    split
    · unfold atTriple
      split
      · simp [text]
      · split <;> simp [text]
    · unfold atPair
      split <;> simp [text, opener]
  · rename_i _ _ hne _
    exact fun hnil => hne (by simpa [text] using hnil)

theorem length_first_lt {cs : List Char} (hcs : cs ≠ []) : (first cs).2.length < cs.length := by
  have hsum := congrArg List.length (first_source cs)
  have hpos := List.length_pos_iff.2 (first_source_ne_nil hcs)
  rw [List.length_append] at hsum
  omega

/-- **The pieces of a text**, in order. -/
def ofText : List Char → List Piece
  | [] => []
  | c :: cs => (first (c :: cs)).1 :: ofText (first (c :: cs)).2
termination_by cs => cs.length
decreasing_by exact length_first_lt (List.cons_ne_nil c cs)

/-- A piece put in front of others, joined with the first when both are text. -/
def prepend (p : Piece) : List Piece → List Piece
  | [] => [p]
  | q :: rest =>
    match p.directive, q.directive with
    | none, none => text (p.source ++ q.source) :: rest
    | _, _ => p :: q :: rest

/-- The pieces with neighbouring text merged. -/
def merged (ps : List Piece) : List Piece := ps.foldr prepend []

end Piece

/-! ## Positions -/

namespace Token

/-- How many line breaks a text has. -/
def lineBreaks (cs : List Char) : Nat := cs.count '\n'

/-- The pieces as tokens, the first of which has `start` bytes before it and stands on `line`. -/
def located (start line : Nat) : List Piece → List Token
  | [] => []
  | p :: rest =>
    let source := String.ofList p.source
    ⟨p.lexeme, source, start, line⟩ ::
      located (start + source.utf8ByteSize) (line + lineBreaks p.source) rest

/-- **The tokens of a template.** -/
def ofTemplate (template : String) : List Token :=
  located 0 1 (Piece.merged (Piece.ofText template.toList))

end Token

end Storefront
