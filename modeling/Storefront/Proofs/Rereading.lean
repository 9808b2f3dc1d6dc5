import Storefront.Proofs.Braces
import Storefront.Proofs.Joining

/-!
# Tokens written and read again

Text is written as it is and a directive in its usual form (`Lexeme.written`).
Reading gives back what was written, for sequences that reading can give at all:
text that is not empty stands between directives and holds no brace that could be
taken for one of theirs, and what a directive carries neither looks like another
directive nor has blanks or braces that reading would take off it
(`Lexeme.Normal`).

Neighbours share braces, as in a triple pair in front of a closing brace that is
text. Each directive is nevertheless read to its own end whatever comes behind it
(`Piece.first_display`), since nothing in it closes it earlier; and text is
read up to the opening pair of the next directive, since it has no opening brace.
-/

namespace Storefront

/-! ## Normal lexemes -/

namespace Lexeme

/-- **How a lexeme is written in a template**: text as it is, a directive in its usual form. -/
def written : Lexeme → String
  | .text content => content
  | l => l.display

/-- **A lexeme in the form that reading gives it**, with no braces of its own. -/
def Normal : Lexeme → Prop
  | .text content => content ≠ "" ∧ '{' ∉ content.toList
  | .variable path =>
    path ≠ "" ∧ (∀ c ∈ path.toList, Text.isBlank c = false) ∧ Text.Unbraced path.toList ∧
      (path.toList.head? ≠ some '#' ∧ path.toList.head? ≠ some '/') ∧ path ≠ "else"
  | .raw path => path ≠ "" ∧ Text.trimmed path = path ∧ Text.Unbraced path.toList
  | .phrase key => Text.trimmed key = key ∧ Text.Unbraced key.toList ∧ '\'' ∉ key.toList
  | .opening _ argument => Text.trimmed argument = argument ∧ Text.Unbraced argument.toList
  | .otherwise => True
  | .closing _ => True

instance : DecidablePred Normal
  | .text _ => inferInstanceAs (Decidable (_ ∧ _))
  | .variable path =>
    -- membership is decided by going through the characters of the path
    have : Decidable (∀ c ∈ path.toList, Text.isBlank c = false) := List.decidableBAll _ _
    inferInstanceAs (Decidable (_ ∧ _ ∧ _ ∧ (_ ∧ _) ∧ _))
  | .raw _ => inferInstanceAs (Decidable (_ ∧ _ ∧ _))
  | .phrase _ => inferInstanceAs (Decidable (_ ∧ _ ∧ _))
  | .opening _ _ => inferInstanceAs (Decidable (_ ∧ _))
  | .otherwise => inferInstanceAs (Decidable True)
  | .closing _ => inferInstanceAs (Decidable True)

/-- **Lexemes in a sequence that reading can give**: each in normal form, and no two neighbours that
are text. -/
structure Readable (ls : List Lexeme) : Prop where
  /-- Each is in normal form. -/
  normal : ∀ l ∈ ls, l.Normal
  /-- Text is not next to text. -/
  apart : ls.IsChain fun l k => l.isText = false ∨ k.isText = false

/-! ## What is between the braces -/

/-- A word that does not look like another directive is a variable. -/
theorem ofContent?_variable {path : String} (hne : path ≠ "")
    (hblank : ∀ c ∈ path.toList, Text.isBlank c = false)
    (hhead : path.toList.head? ≠ some '#' ∧ path.toList.head? ≠ some '/') (helse : path ≠ "else") :
    ofContent? path.toList = some (.variable path) := by
  have hword : path.toList ≠ "else".toList := fun h => helse (String.toList_inj.1 h)
  have hnokey : phraseKey? path.toList = none := by
    unfold phraseKey?
    split
    · next blank rest heq =>
      have hmem : blank ∈ path.toList := by
        rw [heq]
        exact List.mem_cons_of_mem _ List.mem_cons_self
      rw [hblank blank hmem]
      rfl
    · rfl
  have hany : path.toList.any Text.isBlank = false := List.any_eq_false.2 fun c hc => by
    rw [hblank c hc]
    exact Bool.false_ne_true
  unfold ofContent?
  split
  · next hnil => exact absurd (String.toList_eq_nil_iff.1 hnil) hne
  · next heq => exact absurd (by rw [heq]; rfl) hhead.1
  · next heq => exact absurd (by rw [heq]; rfl) hhead.2
  · rw [if_neg hword, hnokey, hany, String.ofList_toList]
    rfl

/-- A quoted key is the key of a phrase. -/
theorem ofContent?_phrase {key : String} (htrim : Text.trimmed key = key)
    (hquote : '\'' ∉ key.toList) :
    ofContent? (Text.trim ('t' :: ' ' :: '\'' :: (key.toList ++ ['\'']))) = some (.phrase key) := by
  have hnoblank : Text.isBlank '\'' = false := by decide
  have hcontent : Text.trim ('t' :: ' ' :: '\'' :: (key.toList ++ ['\''])) =
      't' :: ' ' :: '\'' :: (key.toList ++ ['\'']) :=
    Text.trim_surrounded (by decide) hnoblank (' ' :: '\'' :: key.toList)
  have hbefore : beforeLast? '\'' (key.toList ++ ['\'']) = some key.toList := by
    rw [beforeLast?, List.getLast?_concat, if_pos rfl, List.dropLast_concat]
  have hfree : key.toList.contains '\'' = false := by
    rw [List.contains_eq_mem]
    exact decide_eq_false hquote
  have hkey : phraseKey? ('t' :: ' ' :: '\'' :: (key.toList ++ ['\''])) = some key.toList := by
    rw [phraseKey?, if_pos (by decide), Text.trim_surrounded hnoblank hnoblank]
    dsimp only
    rw [if_pos (by decide), hbefore, Option.bind_some, hfree, Text.trim_of_trimmed htrim]
    rfl
  have helse : 't' :: ' ' :: '\'' :: (key.toList ++ ['\'']) ≠ "else".toList :=
    fun h => absurd (List.cons.inj h).1 (by decide)
  have hcase : ofContent? ('t' :: ' ' :: '\'' :: (key.toList ++ ['\''])) =
      some (.phrase (String.ofList key.toList)) := by
    rw [ofContent?, if_neg helse, hkey]
    · exact List.cons_ne_nil _ _
    · exact fun body h => absurd (List.cons.inj h).1 (by decide)
    · exact fun body h => absurd (List.cons.inj h).1 (by decide)
  rw [hcontent, hcase, String.ofList_toList]

end Lexeme

/-! ## Directives -/

namespace Piece

/-- **A pair around something without braces** is read to its end, whatever comes behind it. -/
theorem first_braced {content : List Char} (h : Text.Unbraced content) (more : List Char) :
    first (opener ++ content ++ closer ++ more) =
      (⟨Lexeme.ofContent? (Text.trim content), opener ++ content ++ closer⟩, more) := by
  have hcut : Text.cutAt? closer (content ++ closer) = some (content, []) := by
    have hpassed : Text.cutAt? closer (content ++ closer) = _ :=
      Text.cutAt?_append_of_notMem fun hmem => (h '}' hmem).2 rfl
    rw [hpassed]
    exact congrArg some (Prod.ext (List.append_nil content) rfl)
  have hhead : (content ++ closer).head? ≠ some '{' := by
    cases content with
    | nil => decide
    | cons c content => exact fun hbrace => (h c List.mem_cons_self).1 (Option.some.inj hbrace)
  exact first_pair hcut hhead more

/-- **A triple pair around something without braces** is read to its end, whatever comes behind it,
also a further brace. -/
theorem first_tripled {content : List Char} (h : Text.Unbraced content)
    (hpath : Text.trim content ≠ []) (more : List Char) :
    first ('{' :: opener ++ content ++ '}' :: closer ++ more) =
      (⟨some (.raw (String.ofList (Text.trim content))),
        '{' :: opener ++ content ++ '}' :: closer⟩, more) := by
  have hcut : Text.cutAt? ('}' :: closer) (content ++ '}' :: closer) = some (content, []) := by
    have hpassed : Text.cutAt? ('}' :: closer) (content ++ '}' :: closer) = _ :=
      Text.cutAt?_append_of_notMem fun hmem => (h '}' hmem).2 rfl
    rw [hpassed]
    exact congrArg some (Prod.ext (List.append_nil content) rfl)
  exact first_triple hcut hpath more

theorem toList_braced (s : String) : (Lexeme.braced s).toList = opener ++ s.toList ++ closer := by
  simp [Lexeme.braced, opener, closer]

/-- A directive in its usual form, read back from what is between its braces. -/
theorem first_display_of_braced {l : Lexeme} {content : String}
    (hl : l.display = Lexeme.braced content) (hbraces : Text.Unbraced content.toList)
    (hmeans : Lexeme.ofContent? (Text.trim content.toList) = some l) (more : List Char) :
    first (l.display.toList ++ more) = (⟨some l, l.display.toList⟩, more) := by
  rw [hl, toList_braced, first_braced hbraces, hmeans]

/-- **A directive in its usual form is read as itself**, whatever comes behind it. -/
theorem first_display {l : Lexeme} (h : l.Normal) (hl : l.isText = false) (more : List Char) :
    first (l.display.toList ++ more) = (⟨some l, l.display.toList⟩, more) := by
  cases l with
  | text content => cases hl
  | «variable» path =>
    obtain ⟨hne, hblank, hbraces, hhead, helse⟩ := h
    refine first_display_of_braced rfl hbraces ?_ more
    rw [Text.trim_of_not_isBlank hblank]
    exact Lexeme.ofContent?_variable hne hblank hhead helse
  | raw path =>
    obtain ⟨hne, htrim, hbraces⟩ := h
    have hpath : Text.trim path.toList = path.toList := Text.trim_of_trimmed htrim
    have hfilled : Text.trim path.toList ≠ [] := by
      rw [hpath]
      exact fun hnil => hne (String.toList_eq_nil_iff.1 hnil)
    have hdisplay : (Lexeme.raw path).display.toList =
        '{' :: opener ++ path.toList ++ '}' :: closer := by
      simp [Lexeme.display, toList_braced, opener, closer]
    rw [hdisplay, first_tripled hbraces hfilled, hpath, String.ofList_toList]
  | phrase key =>
    obtain ⟨htrim, hbraces, hquote⟩ := h
    have hcontent : ("t '" ++ key ++ "'").toList =
        't' :: ' ' :: '\'' :: (key.toList ++ ['\'']) := by
      simp
    refine first_display_of_braced rfl ?_ ?_ more
    · rw [String.toList_append, String.toList_append]
      exact Text.unbraced_append.2 ⟨Text.unbraced_append.2 ⟨by decide, hbraces⟩, by decide⟩
    · rw [hcontent]
      exact Lexeme.ofContent?_phrase htrim hquote
  | opening kind argument =>
    obtain ⟨htrim, hbraces⟩ := h
    have hcontent : ("#" ++ kind.name ++ " " ++ argument).toList =
        '#' :: kind.name.toList ++ ' ' :: argument.toList := by
      simp
    refine first_display_of_braced rfl ?_ ?_ more
    · rw [hcontent]
      exact Text.unbraced_append.2 ⟨Text.unbraced_cons.2 ⟨by decide, kind.unbraced_name⟩,
        Text.unbraced_cons.2 ⟨by decide, hbraces⟩⟩
    · rw [hcontent, Lexeme.ofContent?_opening, Text.trim_of_trimmed htrim, String.ofList_toList]
  | otherwise => exact first_display_of_braced rfl (by decide) (by decide) more
  | closing kind =>
    refine first_display_of_braced rfl ?_ ?_ more
    · cases kind <;> decide
    · cases kind <;> decide

/-- Every directive starts with an opening pair. -/
theorem exists_display_eq_opener {l : Lexeme} (hl : l.isText = false) :
    ∃ rest, l.display.toList = opener ++ rest := by
  cases l with
  | text content => cases hl
  | raw path => exact ⟨'{' :: (path.toList ++ '}' :: closer), by
      simp [Lexeme.display, toList_braced, opener, closer]⟩
  | _ => exact ⟨_, (toList_braced _).trans (List.append_assoc _ _ _)⟩

/-! ## Sequences -/

/-- **The piece that a lexeme is written as.** -/
def ofLexeme (l : Lexeme) : Piece :=
  ⟨if l.isText then none else some l, l.written.toList⟩

theorem lexeme_ofLexeme (l : Lexeme) : (ofLexeme l).lexeme = l := by
  cases l with
  | text content => exact congrArg Lexeme.text String.ofList_toList
  | _ => rfl

theorem written_of_isText {l : Lexeme} (hl : l.isText = false) : l.written = l.display := by
  cases l with
  | text content => cases hl
  | _ => rfl

theorem exists_of_isText {l : Lexeme} (hl : l.isText = true) : ∃ content, l = .text content := by
  cases l with
  | text content => exact ⟨content, rfl⟩
  | _ => cases hl

theorem written_ne_nil {l : Lexeme} (h : l.Normal) : l.written.toList ≠ [] := by
  cases htext : l.isText with
  | true =>
    obtain ⟨content, rfl⟩ := exists_of_isText htext
    exact fun hnil => h.1 (String.toList_eq_nil_iff.1 hnil)
  | false =>
    obtain ⟨rest, hdisplay⟩ := exists_display_eq_opener htext
    rw [written_of_isText htext, hdisplay]
    exact List.cons_ne_nil _ _

/-- Text in front of nothing, or of a directive, is read as that text. -/
theorem first_text {content more : List Char} (hne : content ≠ []) (h : '{' ∉ content)
    (hmore : more = [] ∨ ∃ rest, more = opener ++ rest) :
    first (content ++ more) = (text content, more) := by
  have hcut : Text.cutAt? opener (content ++ more) =
      (Text.cutAt? opener more).map fun cut => (content ++ cut.1, cut.2) :=
    Text.cutAt?_append_of_notMem h
  obtain rfl | ⟨rest, rfl⟩ := hmore
  · have hnone : Text.cutAt? opener content = none := by
      rwa [List.append_nil] at hcut
    rw [List.append_nil, first, hnone]
  · have hfound : Text.cutAt? opener (content ++ (opener ++ rest)) = some (content, rest) := by
      rw [hcut]
      exact congrArg some (Prod.ext (List.append_nil content) rfl)
    exact first_of_cutAt? hfound hne

/-- **What is written is read**, piece by piece. -/
theorem ofText_written {ls : List Lexeme} (h : Lexeme.Readable ls) :
    ofText (ls.flatMap fun l => l.written.toList) = ls.map ofLexeme := by
  induction ls with
  | nil => rw [List.flatMap_nil, ofText, List.map_nil]
  | cons l ls ih =>
    obtain ⟨hl, hls⟩ := List.forall_mem_cons.1 h.normal
    have hrest := ih ⟨hls, h.apart.tail⟩
    have hfirst : first (l.written.toList ++ ls.flatMap fun l => l.written.toList) =
        (ofLexeme l, ls.flatMap fun l => l.written.toList) := by
      cases htext : l.isText with
      | false =>
        rw [ofLexeme, written_of_isText htext, htext]
        exact first_display hl htext _
      | true =>
        obtain ⟨content, rfl⟩ := exists_of_isText htext
        refine first_text (written_ne_nil hl) hl.2 ?_
        cases ls with
        | nil => exact Or.inl rfl
        | cons k ls =>
          -- the neighbour of a text is a directive
          have hk : k.isText = false :=
            (List.isChain_cons_cons.1 h.apart).1.resolve_left fun hfalse => by cases hfalse
          obtain ⟨rest, hdisplay⟩ := exists_display_eq_opener hk
          refine Or.inr ⟨rest ++ ls.flatMap fun l => l.written.toList, ?_⟩
          rw [List.flatMap_cons, written_of_isText hk, hdisplay, List.append_assoc]
    rw [List.flatMap_cons, List.map_cons, ← hrest]
    exact ofText_of_first hfirst (List.append_ne_nil_of_left_ne_nil (written_ne_nil hl) _)

/-- Pieces of which no two neighbours are text are left as they are. -/
theorem merged_of_isChain {ps : List Piece}
    (h : ps.IsChain fun p q => p.directive ≠ none ∨ q.directive ≠ none) : merged ps = ps := by
  induction ps with
  | nil => rfl
  | cons p ps ih =>
    rw [merged_cons, ih h.tail]
    cases ps with
    | nil => rfl
    | cons q ps =>
      rw [prepend]
      split
      · next hp hq => exact ((List.isChain_cons_cons.1 h).1.elim (· hp) (· hq)).elim
      · rfl

theorem isChain_ofLexeme {ls : List Lexeme} (h : Lexeme.Readable ls) :
    (ls.map ofLexeme).IsChain fun p q => p.directive ≠ none ∨ q.directive ≠ none := by
  have hdirective : ∀ l : Lexeme, l.isText = false → (ofLexeme l).directive ≠ none := by
    intro l hl
    rw [ofLexeme, hl]
    exact Option.some_ne_none l
  refine (List.isChain_map ofLexeme).2 (h.apart.imp fun l k hlk => ?_)
  exact hlk.imp (hdirective l) (hdirective k)

end Piece

/-! ## Templates -/

namespace Token

theorem map_source_located (start line : Nat) (ps : List Piece) :
    (located start line ps).map source = ps.map fun p => String.ofList p.source := by
  induction ps generalizing start line with
  | nil => rfl
  | cons p ps ih => rw [located, List.map_cons, List.map_cons, ih]

/-- **Reading undoes writing.** Lexemes in normal form of which no two neighbours are text, written
one after another, are the lexemes of the tokens of that template, and each token was read from what
its lexeme was written as. -/
theorem ofTemplate_written {ls : List Lexeme} (h : Lexeme.Readable ls) :
    (ofTemplate (String.join (ls.map Lexeme.written))).map lexeme = ls ∧
      (ofTemplate (String.join (ls.map Lexeme.written))).map source = ls.map Lexeme.written := by
  have hpieces : pieces (String.join (ls.map Lexeme.written)) = ls.map Piece.ofLexeme := by
    rw [pieces, String.toList_join, List.flatMap_map, Piece.ofText_written h,
      Piece.merged_of_isChain (Piece.isChain_ofLexeme h)]
  rw [ofTemplate_eq, hpieces, map_lexeme_located, map_source_located, List.map_map, List.map_map]
  constructor
  · exact List.map_id'' Piece.lexeme_ofLexeme ls
  · exact List.map_congr_left fun l _ => String.ofList_toList

/-- Neighbours that share braces, a path that begins like a phrase, and a loop over nothing. -/
theorem ofTemplate_written_neighbours :
    let ls : List Lexeme := [.text "\x7d", .raw "a b", .text "\x7d\x7d", .variable "t'x'",
      .raw "#if", .phrase "say \"else\"", .opening .each "", .otherwise, .closing .each]
    Lexeme.Readable ls ∧ (ofTemplate (String.join (ls.map Lexeme.written))).map lexeme = ls := by
  intro ls
  have hreadable : Lexeme.Readable ls := ⟨by decide, by decide⟩
  exact ⟨hreadable, (ofTemplate_written hreadable).1⟩

end Token

end Storefront
