import Storefront.Numeric.Print
import Storefront.Text.Blank
import Storefront.Text.Search

/-!
# Blocks in label templates

A label template such as `In Stock{ ({quantity} {item} available)}` has blocks in
braces, which may nest. A block that is a placeholder stands for the quantity or
for a noun; any other block only marks what goes away with the placeholders in it.

A pass replaces the outermost blocks: their ends are found by counting braces, so
after an opening brace that is never closed there are none. Passes are repeated
until no block is left, ten times at most.
-/

namespace Storefront.Label

/-- The rest of an outermost block after its opening brace: its content and what follows the
brace that closes it. `deeper` counts the blocks opened in it. -/
def blockEnd? : (deeper : Nat) → List Char → Option (List Char × List Char)
  | _, [] => none
  | deeper, c :: cs =>
    if c = '{' then (blockEnd? (deeper + 1) cs).map fun (content, rest) => (c :: content, rest)
    else if c = '}' then
      match deeper with
      | 0 => some ([], cs)
      | deeper + 1 => (blockEnd? deeper cs).map fun (content, rest) => (c :: content, rest)
    else (blockEnd? deeper cs).map fun (content, rest) => (c :: content, rest)

theorem length_of_blockEnd? {deeper : Nat} {cs content rest : List Char}
    (h : blockEnd? deeper cs = some (content, rest)) :
    cs.length = content.length + 1 + rest.length := by
  induction cs generalizing deeper content with
  | nil => simp [blockEnd?] at h
  | cons c cs ih =>
    have step : ∀ {d : Nat},
        (blockEnd? d cs).map (fun (content, rest) => (c :: content, rest)) = some (content, rest) →
        (c :: cs).length = content.length + 1 + rest.length := by
      intro d hm
      obtain ⟨⟨content', rest'⟩, h', heq⟩ := Option.map_eq_some_iff.1 hm
      cases heq
      simp only [List.length_cons, ih h']
      omega
    unfold blockEnd? at h
    split at h
    · exact step h
    · split at h
      · split at h
        · cases h
          simp only [List.length_cons, List.length_nil]
          omega
        · exact step h
      · exact step h

/-- **One pass**: each outermost block replaced by `replace` of its content. -/
def replaceBlocks (replace : List Char → List Char) : List Char → List Char
  | [] => []
  | c :: cs =>
    if c = '{' then
      match h : blockEnd? 0 cs with
      | some (content, rest) =>
        have := length_of_blockEnd? h
        replace content ++ replaceBlocks replace rest
      | none => c :: cs
    else c :: replaceBlocks replace cs
termination_by cs => cs.length
decreasing_by
  · simp only [List.length_cons]
    omega
  · simp

/-- `pass` repeated. -/
def passes (pass : List Char → List Char) : (count : Nat) → List Char → List Char
  | 0, cs => cs
  | count + 1, cs => passes pass count (pass cs)

/-- How many passes a template gets. -/
def passLimit : Nat := 10

/-! ## Placeholders -/

/-- **What a placeholder stands for.** -/
inductive Placeholder where
  /-- The quantity. -/
  | quantity
  /-- The noun `item`. -/
  | item
  /-- The noun `unit`. -/
  | unit
  /-- The noun `piece`. -/
  | piece
  deriving DecidableEq

namespace Placeholder

/-- All placeholders. -/
def all : List Placeholder := [.quantity, .item, .unit, .piece]

/-- The word in the braces. -/
def name : Placeholder → String
  | .quantity => "quantity"
  | .item => "item"
  | .unit => "unit"
  | .piece => "piece"

/-- The placeholder whose word, with blanks around it or not, is the content of a block. -/
def ofContent? (content : List Char) : Option Placeholder :=
  all.find? fun p => p.name.toList == Text.trim content

/-- The placeholder as it stands in a template. -/
def braced (p : Placeholder) : List Char := '{' :: p.name.toList ++ ['}']

/-- What the placeholder stands for at some quantity: nouns have a plural `s` unless it is one. -/
def filled (p : Placeholder) (quantity : Double) : String :=
  match p with
  | .quantity => quantity.displayText
  | noun => if quantity.sameValue .one then noun.name else noun.name ++ "s"

end Placeholder

/-- Whether a placeholder occurs in the content of a block, with no blanks in its braces. -/
def mentionsPlaceholder (content : List Char) : Bool :=
  Placeholder.all.any fun p => Text.contains p.braced content

/-! ## Filling -/

/-- A block at a known quantity: what its placeholder stands for, or its content. -/
def fillBlock (quantity : Double) (content : List Char) : List Char :=
  match Placeholder.ofContent? content with
  | some p => (p.filled quantity).toList
  | none => content

/-- **A template filled with a quantity**; the blocks around placeholders are unwrapped. -/
def fill (template : String) (quantity : Double) : String :=
  String.ofList (passes (replaceBlocks (fillBlock quantity)) passLimit template.toList)

end Storefront.Label
