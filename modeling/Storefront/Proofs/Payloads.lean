import Storefront.Proofs.Braces
import Storefront.Proofs.Joining

/-!
# What directives carry

A directive carries a path, a key or an argument, which is a part of what stands
between its braces. Nothing is lost of it but blanks, quotes and the words of the
directive, none of which is a brace, so a run of braces is in what a directive
carries exactly when it is between its braces (`Lexeme.contains_payload`).

In a template whose pairs are closed before others open, and whose triple pairs are
closed by three braces (`Piece.Paired`), no directive therefore carries a part of
another one. Triple braces that a mere pair closes are something else: the first of
them stands in front of a regular directive (`Piece.Stray`). It is text there as
long as no triple braces close behind. But the end of a triple pair is looked for in
the whole rest of the template, and when there is one, however far away, the stray
brace begins a raw variable that swallows the directive and all that follows it up
to that end (`Token.ofTemplate_payloads`).
-/

namespace Storefront

namespace Lexeme

/-! ## Payloads -/

/-- **What a directive carries**: a path, a key or an argument. -/
def payload? : Lexeme → Option String
  | .variable path => some path
  | .raw path => some path
  | .phrase key => some key
  | .opening _ argument => some argument
  | .text _ => none
  | .otherwise => none
  | .closing _ => none

/-- Whether a lexeme is a raw variable, which has three braces on either side. -/
def isRaw : Lexeme → Bool
  | .raw _ => true
  | _ => false

/-- A directive with something between its braces. -/
def fenced (l : Lexeme) (inside : List Char) : List Char :=
  if l.isRaw then '{' :: Piece.opener ++ inside ++ '}' :: Piece.closer
  else Piece.opener ++ inside ++ Piece.closer

/-- No pair means a raw variable. -/
theorem isRaw_of_ofContent? {content : List Char} {l : Lexeme} (h : ofContent? content = some l) :
    l.isRaw = false := by
  cases means_of_ofContent? h <;> rfl

/-- The first word of a text stands behind blanks, and what follows it is kept without blanks
around it. -/
theorem exists_firstWord (body : List Char) :
    ∃ blanks rest, body = blanks ++ (firstWord body).1 ++ rest ∧
      (∀ d ∈ blanks, Text.isBlank d = true) ∧ (firstWord body).2 = Text.trim rest := by
  refine ⟨body.takeWhile Text.isBlank, (Text.trimStart body).dropWhile fun c => !Text.isBlank c, ?_,
    List.all_eq_true.1 List.all_takeWhile, rfl⟩
  have hword : (firstWord body).1 ++ (Text.trimStart body).dropWhile (fun c => !Text.isBlank c) =
      Text.trimStart body := List.takeWhile_append_dropWhile
  rw [List.append_assoc, hword]
  exact List.takeWhile_append_dropWhile.symm

/-- The parts of a phrase: `t`, a blank, and a key in quotes. -/
theorem exists_of_phraseKey? {content key : List Char} (h : phraseKey? content = some key) :
    ∃ blank rest quote quoted, content = ['t', blank] ++ rest ∧ Text.isBlank blank = true ∧
      (quote = '\'' ∨ quote = '"') ∧ Text.trim rest = [quote] ++ quoted ++ [quote] ∧
      key = Text.trim quoted := by
  unfold phraseKey? at h
  split at h
  · next blank rest =>
    obtain ⟨hblank, h⟩ := Option.ite_none_right_eq_some.1 h
    split at h
    · next quote tail htail =>
      obtain ⟨hquote, h⟩ := Option.ite_none_right_eq_some.1 h
      obtain ⟨quoted, hbefore, h⟩ := Option.bind_eq_some_iff.1 h
      obtain ⟨hlast, hinit⟩ := Option.ite_none_right_eq_some.1 hbefore
      obtain ⟨-, hkey⟩ := Option.ite_none_left_eq_some.1 h
      have hsplit : tail = quoted ++ [quote] := by
        rw [← Option.some.inj hinit]
        exact (List.dropLast_append_getLast? quote hlast).symm
      refine ⟨blank, rest, quote, quoted, rfl, hblank, ?_, ?_, (Option.some.inj hkey).symm⟩
      · simpa using hquote
      · rw [htail, hsplit]
        rfl
    · cases h
  · cases h

section

variable {mark : List Char} (hmark : ∀ c ∈ mark, c = '{' ∨ c = '}')

include hmark

theorem contains_key {content key : List Char} (h : phraseKey? content = some key) :
    Text.contains mark key = Text.contains mark content := by
  obtain ⟨blank, rest, quote, quoted, rfl, hblank, hquote, hrest, rfl⟩ := exists_of_phraseKey? h
  have hlead : Text.Unbraced ['t', blank] :=
    Text.unbraced_append.2 ⟨(by decide : Text.Unbraced ['t']),
      Text.unbraced_of_isBlank (List.forall_mem_singleton.2 hblank)⟩
  have hquotes : Text.Unbraced [quote] := by
    obtain rfl | rfl := hquote
    · decide
    · decide
  have hcontent := Text.contains_surrounded hmark hlead Text.unbraced_nil rest
  rw [List.append_nil] at hcontent
  rw [hcontent, ← Text.contains_trim hmark rest, hrest,
    Text.contains_surrounded hmark hquotes hquotes, Text.contains_trim hmark]

theorem contains_argument {body : List Char} {kind : BlockKind}
    (h : BlockKind.ofName? (String.ofList (firstWord body).1) = some kind) :
    Text.contains mark (firstWord body).2 = Text.contains mark ('#' :: body) := by
  have hword : Text.Unbraced (firstWord body).1 := by
    rw [← String.toList_ofList (l := (firstWord body).1), BlockKind.eq_name_of_ofName? h]
    exact kind.unbraced_name
  obtain ⟨blanks, rest, hbody, hblanks, hargument⟩ := exists_firstWord body
  have hlead : Text.Unbraced ('#' :: (blanks ++ (firstWord body).1)) :=
    Text.unbraced_cons.2 ⟨by decide,
      Text.unbraced_append.2 ⟨Text.unbraced_of_isBlank hblanks, hword⟩⟩
  have hcontains := Text.contains_surrounded hmark hlead Text.unbraced_nil rest
  rw [List.append_nil, List.cons_append, ← hbody] at hcontains
  rw [hargument, Text.contains_trim hmark, hcontains]

/-- **A run of braces is in what a directive carries exactly when it is between its braces.** -/
theorem contains_payload {content : List Char} {l : Lexeme} {s : String}
    (h : ofContent? content = some l) (hs : l.payload? = some s) :
    Text.contains mark s.toList = Text.contains mark content := by
  cases means_of_ofContent? h with
  | opening hkind =>
    obtain rfl := Option.some.inj hs
    rw [String.toList_ofList]
    exact contains_argument hmark hkind
  | closing => cases hs
  | otherwise => cases hs
  | phrase hkey =>
    obtain rfl := Option.some.inj hs
    rw [String.toList_ofList]
    exact contains_key hmark hkey
  | «variable» =>
    obtain rfl := Option.some.inj hs
    rw [String.toList_ofList]

end

end Lexeme

/-! ## Between the braces of a directive -/

namespace Piece

theorem brace_of_mem_opener : ∀ c ∈ opener, c = '{' ∨ c = '}' := by
  simp [opener]

theorem brace_of_mem_closer : ∀ c ∈ closer, c = '{' ∨ c = '}' := by
  simp [closer]

/-- **What a directive carries, measured by what is between its braces.** -/
structure Carries (source : List Char) (l : Lexeme) (payload inside : List Char) : Prop where
  /-- The directive is its braces with something between them. -/
  source_eq : source = l.fenced inside
  /-- A run of braces is in what is carried when it is between the braces. -/
  contains_eq : ∀ mark : List Char, (∀ c ∈ mark, c = '{' ∨ c = '}') →
    Text.contains mark payload = Text.contains mark inside
  /-- A pair is ended by the first closing pair. -/
  pair_first : l.isRaw = false →
    ∀ more, Text.cutAt? closer (inside ++ closer ++ more) = some (inside, more)
  /-- A triple pair is ended by the first three closing braces. -/
  triple_first : l.isRaw = true →
    ∀ more, Text.cutAt? ('}' :: closer) (inside ++ '}' :: closer ++ more) = some (inside, more)

/-- **Every directive that carries something carries a part of what is between its braces.** -/
theorem exists_carries {cs rest : List Char} {p : Piece} {l : Lexeme} {s : String}
    (h : first cs = (p, rest)) (hl : p.directive = some l) (hs : l.payload? = some s) :
    ∃ inside, Carries p.source l s.toList inside := by
  cases begins_of_first h with
  | plain => cases hl
  | run => cases hl
  | brace => cases hl
  | unclosed => cases hl
  | @triple _ content _ hcut hpath =>
    cases hl
    obtain rfl := Option.some.inj hs
    refine ⟨content, rfl, fun mark hmark => ?_, nofun, fun _ => ?_⟩
    · rw [String.toList_ofList, Text.contains_trim hmark]
    · exact Text.cutAt?_replace_rest (Text.cutAt?_eq_append hcut ▸ hcut)
  | @pair _ content _ hrest hcut =>
    have hraw := Lexeme.isRaw_of_ofContent? hl
    refine ⟨content, ?_, fun mark hmark => ?_, fun _ => ?_, fun htrue => ?_⟩
    · rw [Lexeme.fenced, hraw]
      rfl
    · rw [Lexeme.contains_payload hmark hl hs, Text.contains_trim hmark]
    · exact Text.cutAt?_replace_rest (Text.cutAt?_eq_append hcut ▸ hcut)
    · exact absurd (hraw.symm.trans htrue) Bool.false_ne_true

/-! ## Braces in pairs -/

/-- **A text with its braces in pairs**: from an opening pair to the first closing pair behind it no
other pair opens, and behind three opening braces the first closing pair is followed by a third
brace. -/
def Paired (cs : List Char) : Prop :=
  ∀ s ∈ cs.tails,
    (∀ after ∈ Text.after? opener s, ∀ cut ∈ Text.cutAt? closer after,
      Text.contains opener cut.1 = false) ∧
    (∀ after ∈ Text.after? ('{' :: opener) s, ∀ cut ∈ Text.cutAt? closer after,
      cut.2.head? = some '}')

instance : DecidablePred Paired := fun cs =>
  inferInstanceAs (Decidable (∀ s ∈ cs.tails, _))

theorem Paired.contains_opener {cs before after content rest : List Char} (h : Paired cs)
    (hcs : cs = before ++ opener ++ after)
    (hcut : Text.cutAt? closer after = some (content, rest)) :
    Text.contains opener content = false := by
  have hsuffix : opener ++ after ∈ cs.tails := by
    rw [List.mem_tails, hcs, List.append_assoc]
    exact List.suffix_append _ _
  exact (h _ hsuffix).1 _ (Text.after?_eq_some_iff.2 rfl) _ hcut

theorem Paired.head?_rest {cs before after content rest : List Char} (h : Paired cs)
    (hcs : cs = before ++ '{' :: opener ++ after)
    (hcut : Text.cutAt? closer after = some (content, rest)) : rest.head? = some '}' := by
  have hsuffix : '{' :: opener ++ after ∈ cs.tails := by
    rw [List.mem_tails, hcs, List.append_assoc]
    exact List.suffix_append _ _
  exact (h _ hsuffix).2 _ (Text.after?_eq_some_iff.2 rfl) _ hcut

/-- Where a third closing brace follows the first closing pair, the three are the first three. -/
theorem cutAt?_triple_of_head? {cs content after : List Char}
    (h : Text.cutAt? closer cs = some (content, '}' :: after)) :
    Text.cutAt? ('}' :: closer) cs = some (content, after) := by
  have hlonger : Text.cutAt? ('}' :: closer) cs = _ := Text.cutAt?_longer h ['}']
  have hhead : Text.cutAt? (closer ++ ['}']) (closer ++ '}' :: after) = some ([], after) := rfl
  rw [hlonger, hhead]
  exact congrArg some (Prod.ext (List.append_nil content) rfl)

/-- Where none follows it, the first three closing braces are further on. -/
theorem cutAt?_triple {cs content after : List Char}
    (h : Text.cutAt? closer cs = some (content, after)) (hafter : after.head? ≠ some '}') :
    Text.cutAt? ('}' :: closer) cs =
      (Text.cutAt? ('}' :: closer) after).map fun cut => (content ++ closer ++ cut.1, cut.2) := by
  have hlonger : Text.cutAt? ('}' :: closer) cs = _ := Text.cutAt?_longer h ['}']
  have hpassed : Text.cutAt? (closer ++ ['}']) (closer ++ after) =
      (Text.cutAt? ('}' :: closer) after).map fun cut => (closer ++ cut.1, cut.2) := by
    cases after with
    | nil => rfl
    | cons c after =>
      -- of the closing pair, neither brace begins three of them
      have hc : ¬ '}' = c := fun heq => hafter (congrArg some heq.symm)
      simp [closer, Text.cutAt?, Text.after?, hc, Function.comp_def]
  rw [hlonger, hpassed, Option.map_map]
  simp [Function.comp_def]

/-- **In a text with its braces in pairs no directive carries a pair of braces.** -/
theorem Carries.of_paired {cs before after source payload inside : List Char} {l : Lexeme}
    (h : Carries source l payload inside) (hcs : Paired cs)
    (hsource : cs = before ++ source ++ after) :
    Text.contains opener payload = false ∧ Text.contains closer payload = false := by
  rw [h.contains_eq opener brace_of_mem_opener, h.contains_eq closer brace_of_mem_closer]
  suffices hfirst : ∃ lead tail rest, cs = lead ++ opener ++ tail ∧
      Text.cutAt? closer tail = some (inside, rest) by
    obtain ⟨lead, tail, rest, hlead, hcut⟩ := hfirst
    exact ⟨hcs.contains_opener hlead hcut,
      Text.contains_eq_false_iff.2 (Text.cutAt?_before_eq_none (List.cons_ne_nil _ _) hcut)⟩
  rw [h.source_eq, Lexeme.fenced] at hsource
  cases hraw : l.isRaw with
  | false =>
    rw [hraw] at hsource
    refine ⟨before, inside ++ closer ++ after, after, ?_, h.pair_first hraw after⟩
    simpa using hsource
  | true =>
    rw [hraw] at hsource
    have hlead : cs = before ++ '{' :: opener ++ (inside ++ '}' :: closer ++ after) := by
      simpa using hsource
    -- the first closing pair behind the three braces is a part of their end
    obtain ⟨⟨content, rest⟩, hcut⟩ : ∃ cut,
        Text.cutAt? closer (inside ++ '}' :: closer ++ after) = some cut := by
      have hshape : inside ++ '}' :: closer ++ after = inside ++ closer ++ '}' :: after := by
        simp [closer]
      rw [hshape]
      exact Option.ne_none_iff_exists'.1 (Text.cutAt?_append_ne_none inside closer _)
    obtain ⟨rest, rfl⟩ := List.head?_eq_some_iff.1 (hcs.head?_rest hlead hcut)
    have hsame := (cutAt?_triple_of_head? hcut).symm.trans (h.triple_first hraw after)
    obtain ⟨rfl, -⟩ := Prod.mk.inj (Option.some.inj hsame)
    refine ⟨before ++ ['{'], _, _, ?_, hcut⟩
    simpa [opener] using hlead

/-! ## Stray braces -/

/-- **A stray brace**: reading a text comes to three opening braces; between the last two of them
and the first closing pair behind them there is a directive; and no third closing brace follows. -/
structure Stray (cs before content after : List Char) (l : Lexeme) : Prop where
  /-- Reading comes to the braces: the pieces in front of them are what is before them. -/
  reached : ∃ ps, ofText cs = ps ++ ofText ('{' :: opener ++ (content ++ closer ++ after)) ∧
    ps.flatMap source = before
  /-- The closing pair is the first one. -/
  closed : Text.cutAt? closer (content ++ closer ++ after) = some (content, after)
  /-- There are three braces, not more. -/
  head?_content : content.head? ≠ some '{'
  /-- No third closing brace follows. -/
  head?_after : after.head? ≠ some '}'
  /-- What is between them is a directive. -/
  means : Lexeme.ofContent? (Text.trim content) = some l

section

variable {cs before content after : List Char} {l : Lexeme}

/-- **Without triple braces behind it** a stray brace is text in front of its directive. -/
theorem Stray.ofText_of_none (h : Stray cs before content after l)
    (hnone : Text.cutAt? ('}' :: closer) after = none) :
    ∃ ps, ofText cs = ps ++ text ['{'] :: ⟨some l, l.fenced content⟩ :: ofText after ∧
      ps.flatMap source = before := by
  obtain ⟨ps, hps, hbefore⟩ := h.reached
  have hbrace : first ('{' :: opener ++ (content ++ closer ++ after)) =
      (text ['{'], opener ++ (content ++ closer ++ after)) := by
    have hfirst : first ('{' :: opener ++ (content ++ closer ++ after)) =
        atTriple (content ++ closer ++ after) := rfl
    rw [hfirst, atTriple, cutAt?_triple h.closed h.head?_after, hnone]
    rfl
  have hhead : (content ++ closer ++ after).head? ≠ some '{' := by
    cases content with
    | nil => exact fun hbrace => absurd (Option.some.inj hbrace) (by decide)
    | cons c content => exact h.head?_content
  have hfenced : l.fenced content = opener ++ content ++ closer := by
    rw [Lexeme.fenced, Lexeme.isRaw_of_ofContent? h.means]
    rfl
  have hpair : first (opener ++ (content ++ closer ++ after)) =
      (⟨some l, l.fenced content⟩, after) := by
    rw [hfenced, ← h.means]
    simpa only [List.append_assoc] using first_pair h.closed hhead after
  refine ⟨ps, ?_, hbefore⟩
  rw [hps, ofText_of_first hbrace (List.cons_ne_nil _ _),
    ofText_of_first hpair (List.cons_ne_nil _ _)]

/-- **With triple braces behind it** a stray brace begins a raw variable that ends there. -/
theorem Stray.ofText_of_some (h : Stray cs before content after l) {more rest : List Char}
    (hcut : Text.cutAt? ('}' :: closer) after = some (more, rest)) :
    ∃ ps, ofText cs = ps ++ ⟨some (.raw (String.ofList (Text.trim (content ++ closer ++ more)))),
        '{' :: opener ++ (content ++ closer ++ more) ++ '}' :: closer⟩ :: ofText rest ∧
      ps.flatMap source = before := by
  obtain ⟨ps, hps, hbefore⟩ := h.reached
  have htriple : Text.cutAt? ('}' :: closer) (content ++ closer ++ after) =
      some (content ++ closer ++ more, rest) := by
    rw [cutAt?_triple h.closed h.head?_after, hcut]
    rfl
  have hpath : Text.trim (content ++ closer ++ more) ≠ [] := by
    -- the closing pair is in it
    intro hnil
    have hclosing : Text.contains closer (Text.trim (content ++ closer ++ more)) = true := by
      rw [Text.contains_trim brace_of_mem_closer]
      exact Text.contains_eq_true_iff.2 ⟨content, more, rfl⟩
    rw [hnil] at hclosing
    exact absurd hclosing (by decide)
  have hfirst := first_triple htriple hpath rest
  rw [List.append_assoc, List.append_assoc, ← List.append_assoc (content ++ closer ++ more),
    ← Text.cutAt?_eq_append htriple] at hfirst
  refine ⟨ps, ?_, hbefore⟩
  rw [hps, ofText_of_first hfirst (List.cons_ne_nil _ _)]

end

/-- Text at the end of pieces is the end of a text when they are merged. -/
theorem exists_merged_concat_text (ps : List Piece) (cs : List Char) :
    ∃ qs lead, merged (ps ++ [text cs]) = qs ++ [text (lead ++ cs)] := by
  induction ps with
  | nil => exact ⟨[], [], rfl⟩
  | cons p ps ih =>
    obtain ⟨qs, lead, hmerged⟩ := ih
    rw [List.cons_append, merged_cons, hmerged]
    cases qs with
    | nil =>
      rw [List.nil_append, prepend]
      split
      · exact ⟨[], p.source ++ lead, by rw [List.append_assoc]; rfl⟩
      · exact ⟨[p], lead, rfl⟩
    | cons q qs =>
      rw [List.cons_append, prepend]
      split
      · exact ⟨text (p.source ++ q.source) :: qs, lead, rfl⟩
      · exact ⟨p :: q :: qs, lead, rfl⟩

end Piece

/-! ## Tokens -/

namespace Token

/-- **The token of a directive** with something between its braces, behind the beginning of a
template. -/
def behind (before : List Char) (l : Lexeme) (inside : List Char) : Token :=
  ⟨l, String.ofList (l.fenced inside), Text.byteCount before, 1 + lineBreaks before⟩

/-- A piece that is a directive is a token of its own, and the pieces in front of it are the tokens
in front of it. -/
theorem exists_ofTemplate_append {template : String} {ps qs : List Piece} {l : Lexeme}
    {inside : List Char}
    (h : Piece.ofText template.toList = ps ++ ⟨some l, l.fenced inside⟩ :: qs) :
    ∃ us, ofTemplate template =
      located 0 1 (Piece.merged ps) ++ behind (ps.flatMap Piece.source) l inside :: us := by
  rw [ofTemplate, h, Piece.merged_append_cons (Option.some_ne_none l), located_append,
    Piece.flatMap_source_merged, located, Nat.zero_add]
  exact ⟨_, rfl⟩

/-- What a token carries is a part of what is between its braces. -/
theorem exists_carries {template : String} {t : Token} (ht : t ∈ ofTemplate template) {s : String}
    (hs : t.lexeme.payload? = some s) :
    ∃ inside, Piece.Carries t.source.toList t.lexeme s.toList inside := by
  obtain ⟨p, hp, -, hlexeme, hsource⟩ := exists_of_mem_ofTemplate ht
  rw [hsource, String.toList_ofList]
  rw [hlexeme] at hs ⊢
  cases hdirective : p.directive with
  | none =>
    rw [Piece.lexeme, hdirective] at hs
    cases hs
  | some l =>
    have hmeans : p.lexeme = l := by rw [Piece.lexeme, hdirective]; rfl
    rw [hmeans] at hs ⊢
    exact Piece.exists_carries (hp.alone (hdirective ▸ Option.some_ne_none l)) hdirective hs

/-- **What directives carry.** What a token carries has the same runs of braces as what stands
between its braces, and no directive goes on behind the first braces that can end it. In a template
with its braces in pairs, then, no token carries an opening or a closing pair. A stray brace is text
in front of its directive if there are no triple braces behind the directive; if there are, a raw
variable begins with the stray brace and carries all up to them. -/
theorem ofTemplate_payloads (template : String) :
    (∀ t ∈ ofTemplate template, ∀ s, t.lexeme.payload? = some s →
      ∃ inside, Piece.Carries t.source.toList t.lexeme s.toList inside) ∧
    (Piece.Paired template.toList →
      ∀ t ∈ ofTemplate template, ∀ s, t.lexeme.payload? = some s →
        Text.contains Piece.opener s.toList = false ∧
          Text.contains Piece.closer s.toList = false) ∧
    ∀ before content after l, Piece.Stray template.toList before content after l →
      (Text.cutAt? ('}' :: Piece.closer) after = none →
        ∃ ts brace us, ofTemplate template =
            ts ++ brace :: behind (before ++ ['{']) l content :: us ∧
          ∃ lead, brace.lexeme = .text (lead ++ "\x7b")) ∧
      ∀ more rest, Text.cutAt? ('}' :: Piece.closer) after = some (more, rest) →
        behind before (.raw (String.ofList (Text.trim (content ++ Piece.closer ++ more))))
          (content ++ Piece.closer ++ more) ∈ ofTemplate template := by
  refine ⟨fun t ht s hs => exists_carries ht hs, fun hpaired t ht s hs => ?_,
    fun before content after l hstray => ⟨?_, ?_⟩⟩
  · obtain ⟨inside, hinside⟩ := exists_carries ht hs
    obtain ⟨lead, tail, htemplate, -, -⟩ := standsIn_of_mem ht
    have hsplit : template.toList = lead.toList ++ t.source.toList ++ tail.toList := by
      rw [htemplate, String.toList_append, String.toList_append]
    exact hinside.of_paired hpaired hsplit
  · intro hnone
    obtain ⟨ps, hps, rfl⟩ := hstray.ofText_of_none hnone
    obtain ⟨qs, lead, hmerged⟩ := Piece.exists_merged_concat_text ps ['{']
    rw [List.append_cons] at hps
    obtain ⟨us, hus⟩ := exists_ofTemplate_append hps
    rw [hmerged, located_append, List.append_assoc, List.flatMap_append] at hus
    refine ⟨_, _, us, hus, String.ofList lead, ?_⟩
    exact congrArg Lexeme.text String.ofList_append
  · intro more rest hcut
    obtain ⟨ps, hps, rfl⟩ := hstray.ofText_of_some hcut
    obtain ⟨us, hus⟩ := exists_ofTemplate_append hps
    rw [hus]
    exact List.mem_append_right _ List.mem_cons_self

/-- A directive in braces of its own among other tokens, and a stray brace without and with a raw
variable behind it. -/
theorem ofTemplate_payloads_stray :
    let brace := "\x7b"
    let paired := "a " ++ (Lexeme.variable "b").display ++ (Lexeme.raw "c").display
    let apart := brace ++ (Lexeme.variable "a").display ++ " " ++ (Lexeme.variable "b").display
    let swallowed := brace ++ (Lexeme.variable "a").display ++ " " ++ (Lexeme.raw "b").display
    (∀ t ∈ ofTemplate paired, ∀ s, t.lexeme.payload? = some s →
      Text.contains Piece.opener s.toList = false ∧ Text.contains Piece.closer s.toList = false) ∧
    (∃ ts brace us,
      ofTemplate apart = ts ++ brace :: behind ['{'] (.variable "a") ['a'] :: us ∧
        ∃ lead, brace.lexeme = .text (lead ++ "\x7b")) ∧
    behind [] (.raw "a\x7d\x7d \x7b\x7b\x7bb") "a\x7d\x7d \x7b\x7b\x7bb".toList ∈
      ofTemplate swallowed := by
  intro brace paired apart swallowed
  have hapart : Piece.Stray apart.toList [] ['a'] (' ' :: (Lexeme.variable "b").display.toList)
      (.variable "a") :=
    ⟨⟨[], congrArg Piece.ofText (by decide), rfl⟩, by decide, by decide, by decide, by decide⟩
  have hswallowed : Piece.Stray swallowed.toList [] ['a'] (' ' :: (Lexeme.raw "b").display.toList)
      (.variable "a") :=
    ⟨⟨[], congrArg Piece.ofText (by decide), rfl⟩, by decide, by decide, by decide, by decide⟩
  refine ⟨(ofTemplate_payloads paired).2.1 (by decide), ?_, ?_⟩
  · exact ((ofTemplate_payloads apart).2.2 _ _ _ _ hapart).1 (by decide)
  · exact ((ofTemplate_payloads swallowed).2.2 _ _ _ _ hswallowed).2 " \x7b\x7b\x7bb".toList []
      (by decide)

/-- **A directive can swallow others.** A stray brace in front of a regular directive takes it into a
raw variable that ends far behind it, and an opening pair that is not closed takes the end of the
next directive. -/
theorem payload_swallows :
    let brace := "\x7b"
    let stray := brace ++ (Lexeme.variable "a").display ++ " " ++ (Lexeme.raw "b").display
    let unclosed := brace ++ brace ++ "a" ++ (Lexeme.variable "b").display
    let carriesPair := fun s : String =>
      Text.contains Piece.opener s.toList = true ∨ Text.contains Piece.closer s.toList = true
    (∃ t ∈ ofTemplate stray, ∃ s, t.lexeme.payload? = some s ∧ carriesPair s) ∧
      (ofTemplate stray).map lexeme = [.raw "a\x7d\x7d \x7b\x7b\x7bb"] ∧
      (ofTemplate unclosed).map lexeme = [.variable "a\x7b\x7bb"] := by
  intro brace stray unclosed carriesPair
  have hstray : ofTemplate stray =
      [⟨.raw "a\x7d\x7d \x7b\x7b\x7bb", stray, 0, 1⟩] := by
    decide +kernel
  refine ⟨⟨_, by rw [hstray]; exact List.mem_cons_self, _, rfl, Or.inl (by decide)⟩, ?_, ?_⟩
  · rw [hstray]
    rfl
  · decide +kernel

end Token

end Storefront
