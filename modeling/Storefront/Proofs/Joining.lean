import Mathlib.Data.List.Infix
import Storefront.Proofs.Lexing

/-!
# Templates put together

Reading a template looks ahead, so the tokens of two texts put together need not
be those of the one followed by those of the other: the end of a directive that
the first text leaves open may be found in the second. A text is *self-contained*
when this cannot happen (`Piece.SelfContained`): its opening pairs are closed in
it, and it does not end in a brace that could become part of one. What follows
such a text with an opening pair does not change how it is read
(`Piece.ofText_append`).

So a self-contained template between two directives is read as before, and its
tokens are those that it has on its own, further down in the template
(`Token.ofTemplate_enclosed`).
-/

namespace Storefront

/-! ## Directives as they are written -/

namespace Lexeme

/-- **What can be written behind the name of a block**: text that does not end the directive
itself, neither on its own nor with the brace that comes after it. -/
def Writable (argument : String) : Prop :=
  Text.cutAt? Piece.closer (argument.toList ++ ['}']) = none

instance (argument : String) : Decidable (Writable argument) :=
  inferInstanceAs (Decidable (_ = none))

theorem firstWord_append {word rest : List Char} (hword : ∀ c ∈ word, Text.isBlank c = false)
    (hne : word ≠ []) (hrest : ∀ c ∈ rest.head?, Text.isBlank c = true) :
    firstWord (word ++ rest) = (word, Text.trim rest) := by
  have hstart : Text.trimStart (word ++ rest) = word ++ rest := by
    obtain ⟨c, word, rfl⟩ := List.exists_cons_of_ne_nil hne
    exact Text.trimStart_cons_of_not_isBlank (hword c List.mem_cons_self) _
  have hspan : Text.spanning (fun c => !Text.isBlank c) (word ++ rest) = (word, rest) :=
    Text.spanning_append (fun c hc => by rw [hword c hc]; rfl) fun c hc => by rw [hrest c hc]; rfl
  rw [firstWord, hstart, hspan]

/-- **A block that is opened** with its name and an argument has that argument without blanks
around it. -/
theorem ofContent?_opening (kind : BlockKind) (argument : List Char) :
    ofContent? (Text.trim ('#' :: kind.name.toList ++ ' ' :: argument)) =
      some (.opening kind (String.ofList (Text.trim argument))) := by
  have hname : ∀ c ∈ '#' :: kind.name.toList, Text.isBlank c = false := by
    cases kind <;> simp [BlockKind.name, Text.isBlank]
  have hnonempty : kind.name.toList ≠ [] := by
    cases kind <;> decide
  have htrim : Text.trim ('#' :: kind.name.toList ++ ' ' :: argument) =
      '#' :: (kind.name.toList ++ Text.trimEnd (' ' :: argument)) := by
    rw [Text.trim, List.cons_append,
      Text.trimStart_cons_of_not_isBlank (hname '#' List.mem_cons_self), ← List.cons_append,
      Text.trimEnd_append hname, List.cons_append]
  have hblank : ∀ c ∈ (Text.trimEnd (' ' :: argument)).head?, Text.isBlank c = true := by
    rw [Text.trimEnd_cons]
    split
    · exact fun c hc => absurd hc.symm (Option.some_ne_none c)
    · rintro c ⟨⟩
      rfl
  have hargument : Text.trim (Text.trimEnd (' ' :: argument)) = Text.trim argument := by
    rw [Text.trim_trimEnd]
    exact congrArg Text.trimEnd (Text.trimStart_cons_of_isBlank rfl argument)
  rw [htrim, ofContent?, firstWord_append (List.forall_mem_cons.1 hname).2 hnonempty hblank,
    hargument]
  dsimp only
  rw [String.ofList_toList, BlockKind.ofName?_name]
  rfl

theorem ofContent?_closing (kind : BlockKind) :
    ofContent? (Text.trim ('/' :: kind.name.toList)) = some (.closing kind) := by
  cases kind <;> decide

end Lexeme

/-! ## Pieces of texts put together -/

namespace Piece

/-- **A directive that opens a block**, as it is written. -/
def opening (kind : BlockKind) (argument : List Char) : Piece :=
  ⟨some (.opening kind (String.ofList (Text.trim argument))),
    opener ++ ('#' :: kind.name.toList ++ ' ' :: argument) ++ closer⟩

/-- **A directive that closes a block**, as it is written. -/
def closing (kind : BlockKind) : Piece :=
  ⟨some (.closing kind), opener ++ '/' :: kind.name.toList ++ closer⟩

theorem first_opening (kind : BlockKind) {argument : List Char}
    (h : Text.cutAt? closer (argument ++ ['}']) = none) (more : List Char) :
    first ((opening kind argument).source ++ more) = (opening kind argument, more) := by
  have hname : '}' ∉ '#' :: kind.name.toList ++ [' '] := by
    cases kind <;> decide
  have hend : Text.cutAt? closer (argument ++ closer) = some (argument, []) := by
    have hmark := @Text.cutAt?_append_mark ['}'] argument '}' h []
    rwa [List.append_nil] at hmark
  have hcut : Text.cutAt? closer ('#' :: kind.name.toList ++ ' ' :: argument ++ closer) =
      some ('#' :: kind.name.toList ++ ' ' :: argument, []) := by
    have hpassed : Text.cutAt? closer ('#' :: kind.name.toList ++ [' '] ++ (argument ++ closer)) =
        _ := Text.cutAt?_append_of_notMem hname
    rw [← closer, hend] at hpassed
    simpa using hpassed
  have hfirst := first_pair hcut (show some '#' ≠ some '{' by decide) more
  rw [Lexeme.ofContent?_opening] at hfirst
  exact hfirst

theorem first_closing (kind : BlockKind) (more : List Char) :
    first ((closing kind).source ++ more) = (closing kind, more) := by
  have hcut : Text.cutAt? closer ('/' :: kind.name.toList ++ closer) =
      some ('/' :: kind.name.toList, []) := by
    cases kind <;> decide
  have hfirst := first_pair hcut (show some '/' ≠ some '{' by decide) more
  rw [Lexeme.ofContent?_closing] at hfirst
  exact hfirst

/-- **A text that can be read on its own, whatever directive comes after it**: each opening pair in
it is closed in it, and it does not end in half of one. -/
structure SelfContained (cs : List Char) : Prop where
  /-- Behind an opening pair there is a closing one. -/
  closed : ∀ before after, cs = before ++ opener ++ after → Text.cutAt? closer after ≠ none
  /-- There is no opening brace at its end. -/
  getLast?_ne : cs.getLast? ≠ some '{'

theorem selfContained_iff {cs : List Char} :
    SelfContained cs ↔ (∀ s ∈ cs.tails, opener <+: s → Text.cutAt? closer (s.drop 2) ≠ none) ∧
      cs.getLast? ≠ some '{' := by
  constructor
  · rintro ⟨hclosed, hlast⟩
    refine ⟨?_, hlast⟩
    rintro s hs ⟨after, rfl⟩
    obtain ⟨before, rfl⟩ := (List.mem_tails _ _).1 hs
    exact hclosed before after (List.append_assoc _ _ _).symm
  · rintro ⟨hclosed, hlast⟩
    refine ⟨?_, hlast⟩
    rintro before after rfl
    refine hclosed (opener ++ after) ?_ (List.prefix_append _ _)
    rw [List.mem_tails, List.append_assoc]
    exact List.suffix_append _ _

instance : DecidablePred SelfContained := fun _ => decidable_of_iff _ selfContained_iff.symm

theorem SelfContained.suffix {lead cs : List Char} (h : SelfContained (lead ++ cs)) :
    SelfContained cs where
  closed := by
    rintro before after rfl
    exact h.closed (lead ++ before) after (by simp only [List.append_assoc])
  getLast?_ne := by
    cases cs with
    | nil => exact Option.some_ne_none _ |>.symm
    | cons c cs =>
      have hlast := h.getLast?_ne
      rwa [List.getLast?_append_of_ne_nil _ (List.cons_ne_nil c cs)] at hlast

/-- Without an opening pair in it, such a text has none together with half of one. -/
theorem SelfContained.cutAt?_brace {cs : List Char} (h : SelfContained cs)
    (hcut : Text.cutAt? opener cs = none) : Text.cutAt? opener (cs ++ ['{']) = none := by
  rw [Text.cutAt?_eq_none_iff] at hcut ⊢
  intro before rest happ
  obtain rfl | ⟨rest, c, rfl⟩ := rest.eq_nil_or_concat
  · have hbraces : cs ++ ['{'] = before ++ ['{'] ++ ['{'] := by
      rw [happ, List.append_nil, List.append_assoc]
      rfl
    have hlast : cs = before ++ ['{'] := List.append_cancel_right hbraces
    exact h.getLast?_ne (by rw [hlast, List.getLast?_concat])
  · rw [List.concat_eq_append, ← List.append_assoc] at happ
    exact hcut before rest (List.append_inj' happ rfl).1

/-- A brace that is text stays text in front of a directive that triple braces do not close. -/
theorem atTriple_append {rest more : List Char} (h : (atTriple rest).1.directive = none)
    (hmore : Text.cutAt? ('}' :: closer) more = none) :
    atTriple (rest ++ (opener ++ more)) = (text ['{'], opener ++ (rest ++ (opener ++ more))) := by
  unfold atTriple at h ⊢
  cases hcut : Text.cutAt? ('}' :: closer) rest with
  | none =>
    have hbrace : '{' ∉ '}' :: closer := by decide
    have hnone : Text.cutAt? ('}' :: closer) (rest ++ '{' :: ([] ++ '{' :: more)) = none :=
      Text.cutAt?_append_cons_eq_none hbrace hcut
        (Text.cutAt?_append_cons_eq_none hbrace rfl hmore)
    rw [show rest ++ (opener ++ more) = rest ++ '{' :: ([] ++ '{' :: more) from rfl, hnone]
  | some cut =>
    rw [Text.cutAt?_append hcut]
    rw [hcut] at h
    cases htrim : Text.trim cut.1 with
    | nil => simp only [htrim]
    | cons c path =>
      simp only [htrim] at h
      exact absurd h (Option.some_ne_none _)

/-- **The first piece of a self-contained text** is its first piece also in front of a
directive. -/
theorem first_append {cs more : List Char} (h : SelfContained cs) (hne : cs ≠ [])
    (hmore : Text.cutAt? ('}' :: closer) more = none) :
    first (cs ++ (opener ++ more)) = ((first cs).1, (first cs).2 ++ (opener ++ more)) := by
  have hbegins := begins_first cs
  generalize first cs = cut at hbegins ⊢
  obtain ⟨p, rest⟩ := cut
  cases hbegins with
  | plain hcut =>
    have hmark := @Text.cutAt?_append_mark ['{'] cs '{' (h.cutAt?_brace hcut) more
    rw [List.append_assoc] at hmark
    exact first_of_cutAt? hmark hne
  | run hcut hbefore => exact first_of_cutAt? (Text.cutAt?_append hcut _) hbefore
  | @brace rest hbrace =>
    have htriple : atTriple (rest ++ (opener ++ more)) = _ := atTriple_append (by rw [hbrace]; rfl)
      hmore
    exact htriple
  | triple hcut hpath =>
    have hfirst := first_triple hcut hpath (rest ++ (opener ++ more))
    rw [Text.cutAt?_eq_append hcut]
    simpa only [List.append_assoc, List.cons_append] using hfirst
  | unclosed _ hcut => exact absurd hcut (h.closed [] _ rfl)
  | pair hrest hcut =>
    have hfirst := first_pair hcut hrest (rest ++ (opener ++ more))
    rw [Text.cutAt?_eq_append hcut]
    simpa only [List.append_assoc] using hfirst

/-- **A self-contained text in front of a directive is read as on its own.** -/
theorem ofText_append {cs more : List Char} (h : SelfContained cs)
    (hmore : Text.cutAt? ('}' :: closer) more = none) :
    ofText (cs ++ (opener ++ more)) = ofText cs ++ ofText (opener ++ more) := by
  induction cs using ofText.induct with
  | case1 => rw [ofText, List.nil_append, List.nil_append]
  | case2 c cs ih =>
    have hne := List.cons_ne_nil c cs
    have hrest : SelfContained (first (c :: cs)).2 := by
      rw [← first_source (c :: cs)] at h
      exact h.suffix
    rw [ofText_of_ne_nil (List.append_ne_nil_of_left_ne_nil hne _), first_append h hne hmore,
      ih hrest, ofText, List.cons_append]

theorem ofText_of_first {cs rest : List Char} {p : Piece} (h : first cs = (p, rest))
    (hne : cs ≠ []) : ofText cs = p :: ofText rest := by
  rw [ofText_of_ne_nil hne, h]

/-- **The pieces of a self-contained text in a block.** -/
theorem ofText_between (kind : BlockKind) {argument cs : List Char}
    (hargument : Text.cutAt? closer (argument ++ ['}']) = none) (hcs : SelfContained cs) :
    ofText ((opening kind argument).source ++ (cs ++ (closing kind).source)) =
      opening kind argument :: (ofText cs ++ [closing kind]) := by
  have hclosing : (closing kind).source = opener ++ ('/' :: kind.name.toList ++ closer) :=
    List.append_assoc _ _ _
  have htriple : Text.cutAt? ('}' :: closer) ('/' :: kind.name.toList ++ closer) = none := by
    cases kind <;> decide
  have hlast : ofText (closing kind).source = [closing kind] := by
    have hfirst := first_closing kind []
    rw [List.append_nil] at hfirst
    rw [ofText_of_first hfirst (by rw [hclosing]; exact List.cons_ne_nil _ _), ofText]
  have hne : (opening kind argument).source ++ (cs ++ (closing kind).source) ≠ [] := by
    rw [opening]
    exact List.cons_ne_nil _ _
  rw [ofText_of_first (first_opening kind hargument _) hne, hclosing, ofText_append hcs htriple,
    ← hclosing, hlast]

/-! ## Merged pieces -/

/-- A directive is not joined with what comes after it. -/
theorem prepend_of_directive {p : Piece} (hp : p.directive ≠ none) (ps : List Piece) :
    prepend p ps = p :: ps := by
  cases ps with
  | nil => rfl
  | cons q qs =>
    rw [prepend]
    split
    · rename_i hnone _
      exact absurd hnone hp
    · rfl

/-- **Nothing is joined across a directive.** -/
theorem merged_append_cons {q : Piece} (hq : q.directive ≠ none) (ps qs : List Piece) :
    merged (ps ++ q :: qs) = merged ps ++ q :: merged qs := by
  induction ps with
  | nil => exact prepend_of_directive hq (merged qs)
  | cons p ps ih =>
    rw [List.cons_append, merged_cons, merged_cons, ih]
    cases merged ps with
    | nil =>
      rw [List.nil_append, prepend, prepend]
      split
      · rename_i hnone
        exact absurd hnone hq
      · rfl
    | cons r rs =>
      rw [List.cons_append, prepend, prepend]
      split
      · rfl
      · rfl

end Piece

/-! ## Tokens further down -/

namespace Token

/-- **A token further down in a template**, by some bytes and lines. -/
def moved (bytes lines : Nat) (t : Token) : Token :=
  { t with start := t.start + bytes, line := t.line + lines }

theorem located_moved (bytes lines start line : Nat) (ps : List Piece) :
    located (start + bytes) (line + lines) ps =
      (located start line ps).map (moved bytes lines) := by
  induction ps generalizing start line with
  | nil => rfl
  | cons p ps ih =>
    rw [located, located, List.map_cons, ← ih, Nat.add_right_comm start, Nat.add_right_comm line]
    rfl

theorem located_append (start line : Nat) (ps qs : List Piece) :
    located start line (ps ++ qs) = located start line ps ++
      located (start + Text.byteCount (ps.flatMap Piece.source))
        (line + lineBreaks (ps.flatMap Piece.source)) qs := by
  induction ps generalizing start line with
  | nil => rfl
  | cons p ps ih =>
    have hlines : lineBreaks (p.source ++ ps.flatMap Piece.source) =
        lineBreaks p.source + lineBreaks (ps.flatMap Piece.source) := List.count_append
    rw [List.cons_append, located, located, List.cons_append, ih, List.flatMap_cons,
      Text.byteCount_append, hlines, Text.utf8ByteSize_ofList, Nat.add_assoc, Nat.add_assoc]

end Token

/-! ## Enclosed templates -/

namespace Lexeme

theorem toList_display_opening (kind : BlockKind) (argument : String) :
    (Lexeme.opening kind argument).display.toList =
      (Piece.opening kind argument.toList).source := by
  simp [display, braced, Piece.opening, Piece.opener, Piece.closer]

theorem toList_display_closing (kind : BlockKind) :
    (Lexeme.closing kind).display.toList = (Piece.closing kind).source := by
  simp [display, braced, Piece.closing, Piece.opener, Piece.closer]

end Lexeme

namespace Token

/-- **The token that opens a block around a template.** -/
def opener (kind : BlockKind) (argument : String) : Token :=
  ⟨.opening kind (Text.trimmed argument), (Lexeme.opening kind argument).display, 0, 1⟩

/-- **The token that closes a block**, some bytes and lines down. -/
def closer (kind : BlockKind) (bytes lines : Nat) : Token :=
  ⟨.closing kind, (Lexeme.closing kind).display, bytes, 1 + lines⟩

end Token

namespace Template

/-- **A template put into a block.** -/
def enclosed (kind : BlockKind) (argument t : String) : String :=
  (Lexeme.opening kind argument).display ++ t ++ (Lexeme.closing kind).display

end Template

namespace Token

theorem lineBreaks_opening (kind : BlockKind) (argument : List Char) :
    lineBreaks (Piece.opening kind argument).source = lineBreaks argument := by
  have hname : '\n' ∉ Piece.opener ++ '#' :: kind.name.toList ++ [' '] := by
    cases kind <;> decide
  have hshape : (Piece.opening kind argument).source =
      (Piece.opener ++ '#' :: kind.name.toList ++ [' ']) ++ argument ++ Piece.closer := by
    simp [Piece.opening]
  rw [lineBreaks, hshape, List.count_append, List.count_append, List.count_eq_zero_of_not_mem hname,
    Nat.zero_add]
  rfl

/-- **The tokens of a template in a block**: those of the template further down, between the token
that opens the block and the one that closes it. -/
theorem ofTemplate_enclosed (kind : BlockKind) {argument t : String}
    (hargument : Lexeme.Writable argument) (ht : Piece.SelfContained t.toList) :
    ofTemplate (Template.enclosed kind argument t) =
      opener kind argument ::
        (ofTemplate t).map (moved (opener kind argument).stop (lineBreaks argument.toList)) ++
        [closer kind ((opener kind argument).stop + t.utf8ByteSize)
          (lineBreaks argument.toList + lineBreaks t.toList)] := by
  have htoList : (Template.enclosed kind argument t).toList =
      (Piece.opening kind argument.toList).source ++
        (t.toList ++ (Piece.closing kind).source) := by
    rw [Template.enclosed, String.toList_append, String.toList_append,
      Lexeme.toList_display_opening, Lexeme.toList_display_closing, List.append_assoc]
  have hdirective : ∀ l : Lexeme, some l ≠ none := fun l => Option.some_ne_none l
  have hpieces : Piece.merged (Piece.ofText (Template.enclosed kind argument t).toList) =
      Piece.opening kind argument.toList ::
        (Piece.merged (Piece.ofText t.toList) ++ [Piece.closing kind]) := by
    rw [htoList, Piece.ofText_between kind hargument ht, Piece.merged_cons,
      Piece.merged_append_cons (hdirective _), Piece.prepend_of_directive (hdirective _)]
    rfl
  have hopening := Lexeme.toList_display_opening kind argument
  have hclosing := Lexeme.toList_display_closing kind
  have hstop : (opener kind argument).stop = (Lexeme.opening kind argument).display.utf8ByteSize :=
    Nat.zero_add _
  rw [ofTemplate, hpieces, located, located_append, Piece.flatMap_source_merged_ofText,
    lineBreaks_opening, ← hopening, String.ofList_toList, located_moved, located, located,
    Text.byteCount_toList, ← hclosing, String.ofList_toList, hstop, Nat.zero_add, Nat.add_assoc 1]
  rfl

end Token

end Storefront
