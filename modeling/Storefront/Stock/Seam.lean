import Storefront.Stock.Block

/-!
# Templates without a quantity

When the quantity is unknown or hidden, every block that is or mentions a
placeholder goes away. It leaves a *seam*, and the text around seams is tidied:
parentheses around nothing but seams and blanks become a seam, and at a seam at
most one space stays, none before closing punctuation or at either end. Text that
is not at a seam keeps its spacing.
-/

namespace Storefront.Label

/-- The character that marks where a block was. -/
def seam : Char := '\x01'

/-- The punctuation that no space may stand before. -/
def closingPunctuation : List Char := ['.', ',', '!', '?', ';', ':', ')']

/-! ## Parentheses around nothing -/

/-- Whether a text is blank but for seams, of which it has at least one. -/
def isSeamed (cs : List Char) : Bool :=
  cs.contains seam && cs.all fun c => c == seam || Text.isBlank c

/-- The text before and after the first parentheses around nothing but seams and blanks. -/
def emptyParens? : List Char → Option (List Char × List Char)
  | [] => none
  | c :: cs =>
    if c = '(' && isSeamed (cs.takeWhile (· != ')')) && cs.contains ')' then
      some ([], (cs.dropWhile (· != ')')).drop 1)
    else (emptyParens? cs).map fun (before, after) => (c :: before, after)

theorem length_of_emptyParens? {cs before after : List Char}
    (h : emptyParens? cs = some (before, after)) : before.length + after.length + 2 ≤ cs.length := by
  induction cs generalizing before with
  | nil => simp [emptyParens?] at h
  | cons c cs ih =>
    unfold emptyParens? at h
    split at h
    · rename_i hc
      cases h
      simp only [Bool.and_eq_true, isSeamed] at hc
      have hsum := congrArg List.length
        (List.takeWhile_append_dropWhile (p := fun x => x != ')') (l := cs))
      rw [List.length_append] at hsum
      have hinside : 0 < (cs.takeWhile (· != ')')).length := by
        refine List.length_pos_iff.2 fun hnil => ?_
        have := hc.1.2.1
        rw [hnil] at this
        simp at this
      simp only [List.length_nil, List.length_drop, List.length_cons]
      omega
    · obtain ⟨⟨b, a⟩, hb, heq⟩ := Option.map_eq_some_iff.1 h
      cases heq
      have := ih hb
      simp only [List.length_cons]
      omega

/-- The text with parentheses around nothing replaced by seams, from the left, until there are
none. -/
def withoutEmptyParens (cs : List Char) : List Char :=
  match h : emptyParens? cs with
  | some (before, after) =>
    have := length_of_emptyParens? h
    withoutEmptyParens (before ++ seam :: after)
  | none => cs
termination_by cs.length
decreasing_by
  simp only [List.length_append, List.length_cons]
  omega

/-! ## Joining at seams -/

/-- What is before a seam joined with what is after it. -/
def join (left right : List Char) : List Char :=
  let rest := Text.trimStart right
  let kept := Text.trimEnd left
  let spaced := left.getLast?.any Text.isBlank || right.head?.any Text.isBlank
  let atEdge := kept.isEmpty || rest.isEmpty
  let beforePunctuation := rest.head?.any closingPunctuation.contains
  if spaced && !atEdge && !beforePunctuation then kept ++ ' ' :: rest else kept ++ rest

/-- **The text with its seams closed.** -/
def closeSeams (cs : List Char) : List Char :=
  match (withoutEmptyParens cs).splitOn seam with
  | [] => []
  | first :: rest => rest.foldl join first

/-! ## Stripping -/

/-- A block at an unknown quantity: a seam when it is or mentions a placeholder, else its
content. -/
def stripBlock (content : List Char) : List Char :=
  if (Placeholder.ofContent? content).isSome || mentionsPlaceholder content then [seam] else content

/-- **A template without its quantity.** -/
def strip (template : String) : String :=
  String.ofList (closeSeams (passes (replaceBlocks stripBlock) passLimit template.toList))

end Storefront.Label
