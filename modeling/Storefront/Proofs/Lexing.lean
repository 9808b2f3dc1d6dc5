import Mathlib.Data.List.Chain
import Storefront.Template.Lexer
import Storefront.Text.Bytes

/-!
# Tokens tile their template

The tokens of a template stand side by side and cover it, so nothing of it is
lost, and reading is *local*: the source of a token, read on its own, gives that
token again. For a directive this is so because its end is the first closing
mark, and what comes after a first occurrence does not matter
(`Text.cutAt?_replace_rest`).

For literal text it is not obvious. A text token is put together from pieces of
four kinds, and three of them were chosen by looking far ahead: a brace is text
because no triple pair closes *anywhere* behind it, an opening pair is text
because it is *never* closed. Cutting the template off behind the token takes
away what was looked at. The invariant is `Plain`, that a text has no directive
among its pieces, and the step is `plain_source_append`: a piece of text in
front of a plain lead of what follows it is plain. A cut text can end in the
middle of an opening pair, so the lead has three possible beginnings
(`prefix_opener`).
-/

namespace Storefront

namespace Lexeme

/-- Whether a lexeme is literal text. -/
def isText : Lexeme → Bool
  | .text _ => true
  | _ => false

/-- **What can be between the braces of a directive**, with what it means. -/
inductive Means : List Char → Lexeme → Prop
  /-- The start of a block: its name and an argument. -/
  | opening {body kind} (h : BlockKind.ofName? (String.ofList (firstWord body).1) = some kind) :
      Means ('#' :: body) (.opening kind (String.ofList (firstWord body).2))
  /-- The end of a block: its name. -/
  | closing {body kind} (h : BlockKind.ofName? (String.ofList (Text.trim body)) = some kind) :
      Means ('/' :: body) (.closing kind)
  /-- The border of a block. -/
  | otherwise : Means "else".toList .otherwise
  /-- A phrase and its key in quotes. -/
  | phrase {content key} (h : phraseKey? content = some key) :
      Means content (.phrase (String.ofList key))
  /-- A path without blanks. -/
  | variable {content} (h : content.any Text.isBlank = false) :
      Means content (.variable (String.ofList content))

theorem means_of_ofContent? {content : List Char} {l : Lexeme} (h : ofContent? content = some l) :
    Means content l := by
  unfold ofContent? at h
  split at h
  · cases h
  · obtain ⟨kind, hkind, rfl⟩ := Option.map_eq_some_iff.1 h
    exact .opening hkind
  · obtain ⟨kind, hkind, rfl⟩ := Option.map_eq_some_iff.1 h
    exact .closing hkind
  · split at h
    · next helse =>
      cases h
      exact helse ▸ .otherwise
    · split at h
      · next key hkey =>
        cases h
        exact .phrase hkey
      · obtain ⟨hblank, hl⟩ := Option.ite_none_left_eq_some.1 h
        cases hl
        exact .variable (Bool.eq_false_iff.2 hblank)

/-- No directive means literal text. -/
theorem isText_of_ofContent? {content : List Char} {l : Lexeme}
    (h : ofContent? content = some l) : l.isText = false := by
  cases means_of_ofContent? h <;> rfl

end Lexeme

namespace Piece

/-! ## The first piece of a text that has been cut off -/

theorem first_opener (rest : List Char) : first (opener ++ rest) = atOpener rest := rfl

theorem atOpener_eq_atPair {rest : List Char} (h : rest.head? ≠ some '{') :
    atOpener rest = atPair rest := by
  unfold atOpener
  split
  · exact absurd rfl h
  · rfl

theorem first_of_cutAt? {cs before rest : List Char}
    (h : Text.cutAt? opener cs = some (before, rest)) (hne : before ≠ []) :
    first cs = (text before, opener ++ rest) := by
  unfold first
  rw [h]
  cases before with
  | nil => exact absurd rfl hne
  | cons c before => rfl

/-- **A pair that closes** is read the same whatever follows it. -/
theorem first_pair {rest content after : List Char}
    (hcut : Text.cutAt? closer rest = some (content, after)) (hrest : rest.head? ≠ some '{')
    (more : List Char) :
    first (opener ++ content ++ closer ++ more) =
      (⟨Lexeme.ofContent? (Text.trim content), opener ++ content ++ closer⟩, more) := by
  have happ := Text.cutAt?_eq_append hcut
  have hhead : (content ++ closer ++ more).head? ≠ some '{' := by
    cases content with
    | nil => exact fun h => absurd (Option.some.inj h) (by decide)
    | cons c content =>
      rw [happ] at hrest
      exact hrest
  have hfirst : Text.cutAt? closer (content ++ closer ++ more) = some (content, more) :=
    Text.cutAt?_replace_rest (happ ▸ hcut) more
  have hshape : opener ++ content ++ closer ++ more = opener ++ (content ++ closer ++ more) := by
    simp only [List.append_assoc]
  rw [hshape, first_opener, atOpener_eq_atPair hhead, atPair, hfirst]

/-- **A triple pair that closes** around something is read the same whatever follows it. -/
theorem first_triple {rest content after : List Char}
    (hcut : Text.cutAt? ('}' :: closer) rest = some (content, after))
    (hpath : Text.trim content ≠ []) (more : List Char) :
    first ('{' :: opener ++ content ++ '}' :: closer ++ more) =
      (⟨some (.raw (String.ofList (Text.trim content))),
        '{' :: opener ++ content ++ '}' :: closer⟩, more) := by
  have hfirst : Text.cutAt? ('}' :: closer) (content ++ '}' :: closer ++ more) =
      some (content, more) :=
    Text.cutAt?_replace_rest (Text.cutAt?_eq_append hcut ▸ hcut) more
  have hshape : '{' :: opener ++ content ++ '}' :: closer ++ more =
      opener ++ '{' :: (content ++ '}' :: closer ++ more) := by
    simp [opener]
  rw [hshape, first_opener, atOpener, atTriple, hfirst]
  dsimp only
  cases htrim : Text.trim content with
  | nil => exact absurd htrim hpath
  | cons c path => rfl

/-- A brace that is text stays text when what follows it is cut off. -/
theorem atTriple_eq_text {rest more : List Char}
    (h : (atTriple (rest ++ more)).1.directive = none) :
    atTriple rest = (text ['{'], opener ++ rest) := by
  unfold atTriple at h ⊢
  cases hcut : Text.cutAt? ('}' :: closer) rest with
  | none => rfl
  | some cut =>
    rw [Text.cutAt?_append hcut more] at h
    cases htrim : Text.trim cut.1 with
    | nil => simp only [htrim]
    | cons c path =>
      simp only [htrim] at h
      exact absurd h (Option.some_ne_none _)

/-! ## How a text begins -/

/-- **The ways a text can begin**: its first piece, and what follows it. -/
inductive Begins : List Char → Piece → List Char → Prop
  /-- No pair opens in the text. -/
  | plain {cs} (h : Text.cutAt? opener cs = none) : Begins cs (text cs) []
  /-- Text up to the first opening pair. -/
  | run {cs before rest} (h : Text.cutAt? opener cs = some (before, rest)) (hne : before ≠ []) :
      Begins cs (text before) (opener ++ rest)
  /-- A brace in front of an opening pair. -/
  | brace {rest} (h : atTriple rest = (text ['{'], opener ++ rest)) :
      Begins ('{' :: opener ++ rest) (text ['{']) (opener ++ rest)
  /-- A triple pair around something. -/
  | triple {rest content after} (h : Text.cutAt? ('}' :: closer) rest = some (content, after))
      (hpath : Text.trim content ≠ []) :
      Begins ('{' :: opener ++ rest)
        ⟨some (.raw (String.ofList (Text.trim content))),
          '{' :: opener ++ content ++ '}' :: closer⟩ after
  /-- An opening pair that is never closed. -/
  | unclosed {rest} (hrest : rest.head? ≠ some '{') (h : Text.cutAt? closer rest = none) :
      Begins (opener ++ rest) (text (opener ++ rest)) []
  /-- A pair around something, which may be a directive or not. -/
  | pair {rest content after} (hrest : rest.head? ≠ some '{')
      (h : Text.cutAt? closer rest = some (content, after)) :
      Begins (opener ++ rest)
        ⟨Lexeme.ofContent? (Text.trim content), opener ++ content ++ closer⟩ after

theorem begins_atTriple (rest : List Char) :
    Begins ('{' :: opener ++ rest) (atTriple rest).1 (atTriple rest).2 := by
  cases hcut : Text.cutAt? ('}' :: closer) rest with
  | none =>
    have hbrace : atTriple rest = (text ['{'], opener ++ rest) := by rw [atTriple, hcut]
    rw [hbrace]
    exact .brace hbrace
  | some cut =>
    obtain ⟨content, after⟩ := cut
    cases htrim : Text.trim content with
    | nil =>
      have hbrace : atTriple rest = (text ['{'], opener ++ rest) := by
        rw [atTriple, hcut]
        simp only [htrim]
      rw [hbrace]
      exact .brace hbrace
    | cons c path =>
      have htriple : atTriple rest =
          (⟨some (.raw (String.ofList (Text.trim content))),
            '{' :: opener ++ content ++ '}' :: closer⟩, after) := by
        rw [atTriple, hcut]
        simp only [htrim]
      rw [htriple]
      exact .triple hcut (by rw [htrim]; exact List.cons_ne_nil c path)

theorem begins_atPair {rest : List Char} (hrest : rest.head? ≠ some '{') :
    Begins (opener ++ rest) (atPair rest).1 (atPair rest).2 := by
  unfold atPair
  cases hcut : Text.cutAt? closer rest with
  | none => exact .unclosed hrest hcut
  | some cut => exact .pair hrest hcut

/-- **Every text begins in one of these ways.** -/
theorem begins_first (cs : List Char) : Begins cs (first cs).1 (first cs).2 := by
  cases hcut : Text.cutAt? opener cs with
  | none =>
    have hfirst : first cs = (text cs, []) := by
      unfold first
      rw [hcut]
    rw [hfirst]
    exact .plain hcut
  | some cut =>
    obtain ⟨before, rest⟩ := cut
    by_cases hne : before = []
    · subst hne
      obtain rfl : cs = opener ++ rest := Text.cutAt?_eq_append hcut
      rw [first_opener]
      by_cases hbrace : rest.head? = some '{'
      · obtain ⟨rest, rfl⟩ := List.head?_eq_some_iff.1 hbrace
        exact begins_atTriple rest
      · rw [atOpener_eq_atPair hbrace]
        exact begins_atPair hbrace
    · rw [first_of_cutAt? hcut hne]
      exact .run hcut hne

theorem begins_of_first {cs rest : List Char} {p : Piece} (h : first cs = (p, rest)) :
    Begins cs p rest := by
  have hbegins := begins_first cs
  rwa [h] at hbegins

/-- **A directive read on its own** is that directive. -/
theorem first_source_of_directive {cs rest : List Char} {p : Piece} (h : first cs = (p, rest))
    (hdirective : p.directive ≠ none) : first p.source = (p, []) := by
  cases begins_of_first h with
  | plain => exact absurd rfl hdirective
  | run => exact absurd rfl hdirective
  | brace => exact absurd rfl hdirective
  | unclosed => exact absurd rfl hdirective
  | triple hcut hpath =>
    have hown := first_triple hcut hpath []
    rwa [List.append_nil] at hown
  | pair hrest hcut =>
    have hown := first_pair hcut hrest []
    rwa [List.append_nil] at hown

theorem isText_of_first {cs rest : List Char} {p : Piece} (h : first cs = (p, rest)) {l : Lexeme}
    (hl : p.directive = some l) : l.isText = false := by
  cases begins_of_first h with
  | plain => cases hl
  | run => cases hl
  | brace => cases hl
  | unclosed => cases hl
  | triple => cases hl; rfl
  | pair => exact Lexeme.isText_of_ofContent? hl

/-- **What is left of an opening pair** and its rest when they are cut off somewhere. -/
theorem prefix_opener {more rest : List Char} (h : more <+: opener ++ rest) :
    more = [] ∨ more = ['{'] ∨ ∃ lead, more = opener ++ lead ∧ lead <+: rest := by
  have hbraces : more <+: '{' :: '{' :: rest := h
  rcases more with _ | ⟨a, _ | ⟨b, lead⟩⟩
  · exact Or.inl rfl
  · obtain ⟨rfl, -⟩ := List.cons_prefix_cons.1 hbraces
    exact Or.inr (Or.inl rfl)
  · obtain ⟨rfl, hsecond⟩ := List.cons_prefix_cons.1 hbraces
    obtain ⟨rfl, hlead⟩ := List.cons_prefix_cons.1 hsecond
    exact Or.inr (Or.inr ⟨lead, rfl, hlead⟩)

/-! ## Texts without directives -/

theorem ofText_of_ne_nil {cs : List Char} (h : cs ≠ []) :
    ofText cs = (first cs).1 :: ofText (first cs).2 := by
  cases cs with
  | nil => exact absurd rfl h
  | cons c cs => rw [ofText]

/-- The pieces of a text, put after one another, are the text. -/
theorem flatMap_source_ofText (cs : List Char) : (ofText cs).flatMap source = cs := by
  induction cs using ofText.induct with
  | case1 => rw [ofText, List.flatMap_nil]
  | case2 c cs ih =>
    rw [ofText, List.flatMap_cons, ih]
    exact first_source (c :: cs)

/-- **A text without directives**: none of its pieces is one. -/
def Plain (cs : List Char) : Prop := ∀ p ∈ ofText cs, p.directive = none

theorem plain_nil : Plain [] := by
  intro p hp
  rw [ofText] at hp
  cases hp

theorem plain_of_first {cs rest : List Char} {p : Piece} (hfirst : first cs = (p, rest))
    (htext : p.directive = none) (hrest : Plain rest) : Plain cs := by
  intro q hq
  by_cases hcs : cs = []
  · exact plain_nil q (hcs ▸ hq)
  · rw [ofText_of_ne_nil hcs, hfirst] at hq
    obtain rfl | hq := List.mem_cons.1 hq
    · exact htext
    · exact hrest q hq

theorem plain_of_cutAt?_eq_none {cs : List Char} (h : Text.cutAt? opener cs = none) : Plain cs := by
  have hfirst : first cs = (text cs, []) := by
    unfold first
    rw [h]
  exact plain_of_first hfirst rfl plain_nil

theorem plain_brace : Plain ['{'] := plain_of_cutAt?_eq_none rfl

theorem plain_opener : Plain opener :=
  plain_of_first (show first opener = (text opener, []) from rfl) rfl plain_nil

/-- Text up to an opening pair, followed by at most one brace of it. -/
theorem cutAt?_before_opener {cs before rest more : List Char}
    (h : Text.cutAt? opener cs = some (before, rest)) (hmore : before ++ more <+: cs)
    (hshort : more.length < 2) : Text.cutAt? opener (before ++ more) = none := by
  cases hcut : Text.cutAt? opener (before ++ more) with
  | none => rfl
  | some cut =>
    obtain ⟨after, rfl⟩ := hmore
    have hsame := (Text.cutAt?_append hcut after).symm.trans h
    obtain ⟨hbefore, -⟩ := Prod.mk.inj (Option.some.inj hsame)
    have happ := Text.cutAt?_eq_append hcut
    rw [hbefore, List.append_assoc] at happ
    have hlen := congrArg List.length (List.append_cancel_left happ)
    rw [List.length_append, opener, List.length_cons, List.length_cons] at hlen
    omega

/-- **A piece of text in front of a plain lead of what follows it is plain.** -/
theorem plain_source_append {cs rest more : List Char} {p : Piece} (h : first cs = (p, rest))
    (htext : p.directive = none) (hmore : more <+: rest) (hplain : Plain more) :
    Plain (p.source ++ more) := by
  cases begins_of_first h with
  | plain hnone =>
    rw [List.prefix_nil.1 hmore, List.append_nil]
    exact plain_of_cutAt?_eq_none hnone
  | @run _ before rest hcut hne =>
    have hcs := Text.cutAt?_eq_append hcut
    have hlead : before ++ more <+: cs := by
      rw [hcs, List.append_assoc]
      exact (List.prefix_append_right_inj before).2 hmore
    -- with less than the whole opening pair left, no pair opens any more
    obtain rfl | rfl | ⟨lead, rfl, -⟩ := prefix_opener hmore
    · exact plain_of_cutAt?_eq_none (cutAt?_before_opener hcut hlead Nat.two_pos)
    · exact plain_of_cutAt?_eq_none (cutAt?_before_opener hcut hlead Nat.one_lt_two)
    · have hfirst : first (before ++ (opener ++ lead)) = (text before, opener ++ lead) := by
        refine first_of_cutAt? ?_ hne
        rw [← List.append_assoc]
        exact Text.cutAt?_replace_rest (hcs ▸ hcut) lead
      exact plain_of_first hfirst rfl hplain
  | brace hbrace =>
    obtain rfl | rfl | ⟨lead, rfl, after, rfl⟩ := prefix_opener hmore
    · exact plain_brace
    · exact plain_opener
    · have hfirst : first ('{' :: opener ++ lead) = (text ['{'], opener ++ lead) :=
        atTriple_eq_text (congrArg (fun r => r.1.directive) hbrace)
      exact plain_of_first hfirst rfl hplain
  | triple => exact absurd htext (Option.some_ne_none _)
  | @unclosed rest hrest hnone =>
    have hfirst : first (opener ++ rest) = (text (opener ++ rest), []) := by
      rw [first_opener, atOpener_eq_atPair hrest, atPair, hnone]
    rw [List.prefix_nil.1 hmore, List.append_nil]
    exact plain_of_first hfirst rfl plain_nil
  | pair hrest hcut => exact plain_of_first (first_pair hcut hrest more) htext hplain

/-! ## Merged pieces -/

theorem merged_cons (p : Piece) (ps : List Piece) : merged (p :: ps) = prepend p (merged ps) := rfl

theorem flatMap_source_prepend (p : Piece) (ps : List Piece) :
    (prepend p ps).flatMap source = p.source ++ ps.flatMap source := by
  unfold prepend
  split
  · rw [List.flatMap_cons]
  · split
    · rw [List.flatMap_cons, List.flatMap_cons, text, List.append_assoc]
    · rw [List.flatMap_cons]

theorem flatMap_source_merged (ps : List Piece) :
    (merged ps).flatMap source = ps.flatMap source := by
  induction ps with
  | nil => rfl
  | cons p ps ih => rw [merged_cons, flatMap_source_prepend, ih, List.flatMap_cons]

/-- The pieces of a text stay together when neighbouring text is merged. -/
theorem flatMap_source_merged_ofText (cs : List Char) :
    (merged (ofText cs)).flatMap source = cs := by
  rw [flatMap_source_merged, flatMap_source_ofText]

/-- Merging leaves no two neighbours that are text. -/
theorem isChain_merged (ps : List Piece) :
    (merged ps).IsChain fun p q => p.directive ≠ none ∨ q.directive ≠ none := by
  induction ps with
  | nil => exact .nil
  | cons p ps ih =>
    rw [merged_cons]
    unfold prepend
    cases hps : merged ps with
    | nil => exact .singleton p
    | cons q rest =>
      rw [hps] at ih
      dsimp only
      split
      · -- the two are merged, and text that begins where text began meets what that text met
        rename_i hq
        cases rest with
        | nil => exact .singleton _
        | cons r rest =>
          obtain ⟨hqr, hrest⟩ := List.isChain_cons_cons.1 ih
          exact .cons_cons (Or.inr (hqr.resolve_left fun h => h hq)) hrest
      · rename_i hne
        refine .cons_cons ?_ ih
        by_cases hp : p.directive = none
        · exact Or.inr fun hq => hne hp hq
        · exact Or.inl hp

/-- What is kept of a piece when it is merged with the pieces of what follows it. -/
structure Settled (p : Piece) : Prop where
  /-- A directive read on its own is that directive. -/
  alone : p.directive ≠ none → first p.source = (p, [])
  /-- Text read on its own is text. -/
  plain : p.directive = none → Plain p.source
  /-- A directive does not mean text. -/
  live : ∀ l, p.directive = some l → l.isText = false
  /-- It is not empty. -/
  source_ne_nil : p.source ≠ []

theorem settled_of_mem_merged_ofText {cs : List Char} :
    ∀ p ∈ merged (ofText cs), p.Settled := by
  induction cs using ofText.induct with
  | case1 =>
    intro p hp
    rw [ofText] at hp
    cases hp
  | case2 c cs ih =>
    have hne := first_source_ne_nil (List.cons_ne_nil c cs)
    generalize hfirst : first (c :: cs) = cut at ih hne
    obtain ⟨p, rest⟩ := cut
    have hlive : ∀ l, p.directive = some l → l.isText = false := fun _ => isText_of_first hfirst
    have halone := first_source_of_directive hfirst
    have hown : p.Settled :=
      { alone := halone
        plain := fun htext => by
          have hplain := plain_source_append hfirst htext (List.nil_prefix) plain_nil
          rwa [List.append_nil] at hplain
        live := hlive
        source_ne_nil := hne }
    rw [ofText, hfirst, merged_cons]
    have hsource := flatMap_source_merged_ofText rest
    unfold prepend
    cases hmerged : merged (ofText rest) with
    | nil => exact fun q hq => List.mem_singleton.1 hq ▸ hown
    | cons q qs =>
      rw [hmerged] at ih hsource
      dsimp only at ih ⊢
      split
      · -- text is merged with text, which is a lead of what followed the first piece
        rename_i htext hq
        refine List.forall_mem_cons.2 ⟨?_, fun r hr => ih r (List.mem_cons_of_mem q hr)⟩
        have hlead : q.source <+: rest := by
          rw [← hsource, List.flatMap_cons]
          exact List.prefix_append _ _
        exact
          { alone := fun h => absurd rfl h
            plain := fun _ =>
              plain_source_append hfirst htext hlead ((ih q List.mem_cons_self).plain hq)
            live := fun l hl => absurd hl.symm (Option.some_ne_none l)
            source_ne_nil := fun h => hne (List.append_eq_nil_iff.1 h).1 }
      · exact List.forall_mem_cons.2 ⟨hown, ih⟩

theorem merged_of_plain {ps : List Piece} (hps : ∀ p ∈ ps, p.directive = none) (hne : ps ≠ []) :
    merged ps = [text (ps.flatMap source)] := by
  induction ps with
  | nil => exact absurd rfl hne
  | cons p ps ih =>
    obtain ⟨hp, hps⟩ := List.forall_mem_cons.1 hps
    have hown : p = text p.source := by
      rw [text, ← hp]
    rw [merged_cons, List.flatMap_cons]
    cases ps with
    | nil => rw [List.flatMap_nil, List.append_nil, ← hown]; rfl
    | cons q qs =>
      rw [ih hps (List.cons_ne_nil q qs), prepend, hp]
      rfl

/-- **Reading is local**: the source of a piece, read on its own, is that piece. -/
theorem Settled.merged_ofText_source {p : Piece} (h : p.Settled) :
    merged (ofText p.source) = [p] := by
  by_cases hp : p.directive = none
  · have hne : ofText p.source ≠ [] := by
      rw [ofText_of_ne_nil h.source_ne_nil]
      exact List.cons_ne_nil _ _
    rw [merged_of_plain (h.plain hp) hne, flatMap_source_ofText, text, ← hp]
  · rw [ofText_of_ne_nil h.source_ne_nil, h.alone hp, ofText]
    rfl

/-- What a settled piece means is text just when the piece is text. -/
theorem Settled.isText_lexeme {p : Piece} (h : p.Settled) :
    p.lexeme.isText = true ↔ p.directive = none := by
  unfold lexeme
  cases hp : p.directive with
  | none => exact ⟨fun _ => rfl, fun _ => rfl⟩
  | some l =>
    rw [Option.getD_some, h.live l hp]
    exact ⟨fun hfalse => absurd hfalse Bool.false_ne_true, fun hnone => absurd hnone nofun⟩

theorem Settled.eq_source_of_lexeme {p : Piece} (h : p.Settled) {s : String}
    (hs : p.lexeme = .text s) : s = String.ofList p.source := by
  have hnone : p.directive = none := h.isText_lexeme.1 (by rw [hs]; rfl)
  rw [lexeme, hnone] at hs
  exact (Lexeme.text.inj hs).symm

end Piece

/-! ## Tokens -/

namespace Token

/-- **Tokens side by side** from one place of a template to another. -/
def Adjoin : (start : Nat) → List Token → (stop : Nat) → Prop
  | start, [], stop => start = stop
  | start, t :: rest, stop => t.start = start ∧ Adjoin t.stop rest stop

/-- **Where a token stands in a template**: the template is cut before and after it, what comes
before it is as long as its start says, and the line breaks in that give its line. -/
def StandsIn (template : String) (t : Token) : Prop :=
  ∃ before after : String, template = before ++ t.source ++ after ∧
    before.utf8ByteSize = t.start ∧ 1 + lineBreaks before.toList = t.line

theorem located_cons (before : List Char) (p : Piece) (ps : List Piece) :
    located (Text.byteCount before) (1 + lineBreaks before) (p :: ps) =
      ⟨p.lexeme, String.ofList p.source, Text.byteCount before, 1 + lineBreaks before⟩ ::
        located (Text.byteCount (before ++ p.source)) (1 + lineBreaks (before ++ p.source)) ps := by
  have hlines : lineBreaks (before ++ p.source) = lineBreaks before + lineBreaks p.source :=
    List.count_append
  rw [located, Text.utf8ByteSize_ofList, Text.byteCount_append, hlines, Nat.add_assoc]

theorem adjoin_located (before : List Char) (ps : List Piece) :
    Adjoin (Text.byteCount before) (located (Text.byteCount before) (1 + lineBreaks before) ps)
      (Text.byteCount (before ++ ps.flatMap Piece.source)) := by
  induction ps generalizing before with
  | nil =>
    rw [List.flatMap_nil, List.append_nil]
    exact rfl
  | cons p ps ih =>
    have hstop : Text.byteCount before + (String.ofList p.source).utf8ByteSize =
        Text.byteCount (before ++ p.source) := by
      rw [Text.utf8ByteSize_ofList, Text.byteCount_append]
    rw [located_cons, List.flatMap_cons, ← List.append_assoc]
    refine ⟨rfl, ?_⟩
    rw [stop, hstop]
    exact ih (before ++ p.source)

/-- Each token is a piece at its place. -/
theorem exists_of_mem_located {before : List Char} {ps : List Piece} {t : Token}
    (h : t ∈ located (Text.byteCount before) (1 + lineBreaks before) ps) :
    ∃ p ∈ ps, ∃ b a : List Char, before ++ ps.flatMap Piece.source = b ++ p.source ++ a ∧
      t = ⟨p.lexeme, String.ofList p.source, Text.byteCount b, 1 + lineBreaks b⟩ := by
  induction ps generalizing before with
  | nil => cases h
  | cons p ps ih =>
    rw [located_cons] at h
    rw [List.flatMap_cons, ← List.append_assoc]
    obtain rfl | h := List.mem_cons.1 h
    · exact ⟨p, List.mem_cons_self, before, ps.flatMap Piece.source, rfl, rfl⟩
    · obtain ⟨q, hq, b, a, hba, ht⟩ := ih h
      exact ⟨q, List.mem_cons_of_mem p hq, b, a, hba, ht⟩

theorem map_lexeme_located (start line : Nat) (ps : List Piece) :
    (located start line ps).map Token.lexeme = ps.map Piece.lexeme := by
  induction ps generalizing start line with
  | nil => rfl
  | cons p ps ih => rw [located, List.map_cons, List.map_cons, ih]

/-- The pieces that the tokens of a template are. -/
def pieces (template : String) : List Piece := Piece.merged (Piece.ofText template.toList)

theorem ofTemplate_eq (template : String) :
    ofTemplate template = located (Text.byteCount []) (1 + lineBreaks []) (pieces template) := rfl

/-- The tokens of a template stand side by side from its start to its end. -/
theorem adjoin_ofTemplate (template : String) :
    Adjoin 0 (ofTemplate template) template.utf8ByteSize := by
  have hadjoin := adjoin_located [] (pieces template)
  rw [List.nil_append, pieces, Piece.flatMap_source_merged_ofText, Text.byteCount_toList] at hadjoin
  exact hadjoin

theorem exists_of_mem_ofTemplate {template : String} {t : Token} (h : t ∈ ofTemplate template) :
    ∃ p : Piece, p.Settled ∧ t.StandsIn template ∧ t.lexeme = p.lexeme ∧
      t.source = String.ofList p.source := by
  rw [ofTemplate_eq] at h
  obtain ⟨p, hp, b, a, hba, rfl⟩ := exists_of_mem_located h
  refine ⟨p, Piece.settled_of_mem_merged_ofText p hp, ?_, rfl, rfl⟩
  rw [List.nil_append, pieces, Piece.flatMap_source_merged_ofText] at hba
  refine ⟨String.ofList b, String.ofList a, ?_, Text.utf8ByteSize_ofList b, ?_⟩
  · rw [← String.ofList_append, ← String.ofList_append, ← hba, String.ofList_toList]
  · rw [String.toList_ofList]

theorem source_ne_empty {template : String} {t : Token} (h : t ∈ ofTemplate template) :
    t.source ≠ "" := by
  obtain ⟨p, hp, -, -, hsource⟩ := exists_of_mem_ofTemplate h
  rw [hsource]
  exact fun hempty => hp.source_ne_nil (String.ofList_injective hempty)

theorem standsIn_of_mem {template : String} {t : Token} (h : t ∈ ofTemplate template) :
    t.StandsIn template := by
  obtain ⟨-, -, hstands, -⟩ := exists_of_mem_ofTemplate h
  exact hstands

theorem eq_source_of_lexeme {template : String} {t : Token} (h : t ∈ ofTemplate template)
    {s : String} (hs : t.lexeme = .text s) : s = t.source := by
  obtain ⟨p, hp, -, hlexeme, hsource⟩ := exists_of_mem_ofTemplate h
  rw [hsource]
  exact hp.eq_source_of_lexeme (hlexeme ▸ hs)

/-- No two neighbours among the tokens of a template are text. -/
theorem isChain_ofTemplate (template : String) :
    (ofTemplate template).IsChain fun t u => t.lexeme.isText = false ∨ u.lexeme.isText = false := by
  have hsettled : ∀ p ∈ pieces template, p.directive ≠ none → p.lexeme.isText = false := by
    intro p hp hne
    have hlive := (Piece.settled_of_mem_merged_ofText p hp).isText_lexeme
    exact Bool.eq_false_iff.2 fun htext => hne (hlive.1 htext)
  have hlexemes : ((ofTemplate template).map lexeme).IsChain
      fun l k => l.isText = false ∨ k.isText = false := by
    rw [ofTemplate_eq, map_lexeme_located, List.isChain_map]
    refine List.IsChain.imp_of_mem_imp ?_ (Piece.isChain_merged _)
    intro p q hp hq hpq
    exact hpq.imp (hsettled p hp) (hsettled q hq)
  exact (List.isChain_map lexeme).1 hlexemes

/-- **Reading loses nothing and is local.** The tokens of a template stand side by side from its
start to its end, none of them empty and each at its place between two characters and on its line;
a text token is the text it was read from, and no two of them are neighbours; and what a token was
read from, read on its own, gives that token and nothing else, so no text hides a directive. -/
theorem ofTemplate_lossless (template : String) :
    Adjoin 0 (ofTemplate template) template.utf8ByteSize ∧
      (∀ t ∈ ofTemplate template, t.source ≠ "" ∧ t.StandsIn template ∧
        (∀ s, t.lexeme = .text s → s = t.source) ∧
        ofTemplate t.source = [{ t with start := 0, line := 1 }]) ∧
      (ofTemplate template).IsChain fun t u =>
        t.lexeme.isText = false ∨ u.lexeme.isText = false := by
  refine ⟨adjoin_ofTemplate template,
    fun t ht => ⟨source_ne_empty ht, standsIn_of_mem ht, fun s => eq_source_of_lexeme ht, ?_⟩,
    isChain_ofTemplate template⟩
  obtain ⟨p, hp, -, hlexeme, hsource⟩ := exists_of_mem_ofTemplate ht
  rw [hsource, ofTemplate, String.toList_ofList, hp.merged_ofText_source, located, located,
    hlexeme]

/-! ## Stretches of tokens -/

/-- What tokens were read from, put together. -/
def written (ts : List Token) : String := String.join (ts.map source)

theorem written_cons (t : Token) (ts : List Token) :
    written (t :: ts) = t.source ++ written ts := by
  rw [written, List.map_cons, String.join_cons]
  rfl

theorem written_append (a b : List Token) : written (a ++ b) = written a ++ written b := by
  induction a with
  | nil => exact String.empty_append.symm
  | cons t a ih => rw [List.cons_append, written_cons, written_cons, ih, String.append_assoc]

/-- The tokens of a template were read from the whole of it. -/
theorem written_ofTemplate (template : String) : written (ofTemplate template) = template := by
  have hlocated : ∀ (ps : List Piece) (start line : Nat),
      (written (located start line ps)).toList = ps.flatMap Piece.source := by
    intro ps
    induction ps with
    | nil => exact fun _ _ => rfl
    | cons p ps ih =>
      intro start line
      rw [located, written_cons, String.toList_append, ih, List.flatMap_cons, String.toList_ofList]
  rw [← String.toList_inj, ofTemplate, hlocated, Piece.flatMap_source_merged_ofText]

theorem adjoin_append {a b : List Token} {start stop : Nat} (h : Adjoin start (a ++ b) stop) :
    Adjoin (start + (written a).utf8ByteSize) b stop := by
  induction a generalizing start with
  | nil => exact h
  | cons t a ih =>
    obtain ⟨hstart, hrest⟩ := h
    rw [written_cons, String.utf8ByteSize_append, ← Nat.add_assoc, ← hstart]
    exact ih hrest

/-- **A stretch of a template** from one byte to another. -/
def IsStretch (template : String) (start stop : Nat) (s : String) : Prop :=
  ∃ before after : String, template = before ++ s ++ after ∧ before.utf8ByteSize = start ∧
    (before ++ s).utf8ByteSize = stop

/-- The slice from the start of a token to the stop of a later one is a stretch of the template. -/
theorem isStretch_slice {template : String} {opening closing : Token} {inner : List Token}
    (h : opening :: inner ++ [closing] <:+: ofTemplate template) :
    IsStretch template opening.start closing.stop
      (String.ofList (Text.slice opening.start closing.stop template.toList)) := by
  obtain ⟨a, b, hab⟩ := h
  have hadjoin := adjoin_ofTemplate template
  have hwritten := written_ofTemplate template
  rw [← hab] at hadjoin hwritten
  -- both ends are where the tokens in front of them stop
  have hstart : opening.start = (written a).utf8ByteSize := by
    rw [List.append_assoc] at hadjoin
    rw [(adjoin_append hadjoin).1, Nat.zero_add]
  have hstop : closing.stop =
      (written a).utf8ByteSize + (written (opening :: inner ++ [closing])).utf8ByteSize := by
    have hsplit : a ++ (opening :: inner ++ [closing]) ++ b =
        (a ++ opening :: inner) ++ closing :: b := by simp
    rw [hsplit] at hadjoin
    rw [stop, (adjoin_append hadjoin).1, written_append, written_append, written_cons closing,
      String.utf8ByteSize_append, String.utf8ByteSize_append, String.utf8ByteSize_append,
      Nat.zero_add, Nat.add_assoc]
    rfl
  rw [written_append, written_append] at hwritten
  generalize written a = before at *
  generalize written b = after at *
  generalize written (opening :: inner ++ [closing]) = s at *
  have hslice : Text.slice opening.start closing.stop template.toList = s.toList := by
    rw [hstart, hstop, ← hwritten, String.toList_append, String.toList_append,
      ← Text.byteCount_toList, ← Text.byteCount_toList, Text.slice_append]
  rw [hslice, String.ofList_toList]
  exact ⟨before, after, hwritten.symm, hstart.symm, by rw [String.utf8ByteSize_append, hstop]⟩

end Token

end Storefront
