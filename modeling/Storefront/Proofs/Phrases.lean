import Storefront.Proofs.Verbatim

/-!
# Phrases with live variables

In the text of a phrase only variables are live. It is cut into tokens like a
template, but there are no blocks, and a phrase is not looked up in a phrase: any
token that is no variable stays as it was written, next to the text around it.

So a phrase is its variables and what is between them, and nothing else. With each
variable put back as it was written, the nodes give the text again
(`Node.refilled_ofLive`); with the text of each variable in its place they give
what is shown (`Renderer.join_ofLive`). Both are told token by token. A node of
another kind would show nothing, which nobody would notice: there is none, since a
token makes a variable or text and what is merged is only text.
-/

namespace Storefront

/-! ## Variables among the tokens -/

namespace Token

/-- **The variable that a token is**, if it is one. -/
def live? (t : Token) : Option Node :=
  match t.lexeme with
  | .variable path => some (.variable path false)
  | .raw path => some (.variable path true)
  | _ => none

theorem exists_of_live? {t : Token} {n : Node} (h : t.live? = some n) :
    ∃ path raw, n = .variable path raw := by
  unfold live? at h
  split at h
  · exact ⟨_, _, (Option.some.inj h).symm⟩
  · exact ⟨_, _, (Option.some.inj h).symm⟩
  · cases h

theorem isText_of_live? {t : Token} {n : Node} (h : t.live? = some n) :
    n.isText = false := by
  obtain ⟨path, raw, rfl⟩ := exists_of_live? h
  rfl

/-- Literal text is no variable. -/
theorem live?_of_isText {t : Token} (h : t.lexeme.isText = true) : t.live? = none := by
  unfold live?
  cases ht : t.lexeme with
  | text | phrase | opening | otherwise | closing => rfl
  | «variable» | raw => rw [ht] at h; cases h

end Token

/-! ## Nodes of a phrase -/

namespace Node

/-- **Nodes with their variables put back**, each as the next one of given texts. -/
def refilled : List Node → List String → String
  | [], _ => ""
  | .text s :: rest, sources => s ++ refilled rest sources
  | _ :: rest, source :: sources => source ++ refilled rest sources
  | _ :: _, [] => ""

theorem refilled_prepend_text (s : String) (ns : List Node) (sources : List String) :
    refilled ((Node.text s).prepend ns) sources = s ++ refilled ns sources := by
  obtain ⟨t, rest, rfl, hmerged⟩ | ⟨-, hfront⟩ := prepend_text_cases s ns
  · rw [hmerged, refilled, refilled, String.append_assoc]
  · rw [hfront, refilled]

/-- Putting text in front of nodes adds nothing but text. -/
theorem mem_of_mem_prepend_text {s : String} {ns : List Node} {n : Node}
    (h : n ∈ (Node.text s).prepend ns) : n.isText = true ∨ n ∈ ns := by
  obtain ⟨t, rest, rfl, hmerged⟩ | ⟨-, hfront⟩ := prepend_text_cases s ns
  · rw [hmerged] at h
    obtain rfl | hrest := List.mem_cons.1 h
    · exact .inl rfl
    · exact .inr (List.mem_cons_of_mem _ hrest)
  · rw [hfront] at h
    obtain rfl | hrest := List.mem_cons.1 h
    · exact .inl rfl
    · exact .inr hrest

/-- **The nodes of tokens of which only variables are live.** -/
def ofLive (ts : List Token) : List Node :=
  ts.foldr (fun t rest => (t.live?.getD (.text t.source)).prepend rest) []

section OfLive

variable {t : Token} {n : Node}

theorem ofLive_variable (h : t.live? = some n) (ts : List Token) :
    ofLive (t :: ts) = n :: ofLive ts := by
  rw [ofLive, List.foldr_cons, h, Option.getD_some,
    prepend_of_isText_eq_false (Token.isText_of_live? h)]
  rfl

theorem ofLive_words (h : t.live? = none) (ts : List Token) :
    ofLive (t :: ts) = (Node.text t.source).prepend (ofLive ts) := by
  rw [ofLive, List.foldr_cons, h]
  rfl

end OfLive

/-- There is nothing but text and variables. -/
theorem text_or_variable_of_mem_ofLive {ts : List Token} {n : Node} (h : n ∈ ofLive ts) :
    n.isText = true ∨ ∃ path raw, n = .variable path raw := by
  induction ts with
  | nil => cases h
  | cons t ts ih =>
    cases ht : t.live? with
    | some m =>
      rw [ofLive_variable ht] at h
      obtain rfl | hrest := List.mem_cons.1 h
      · exact .inr (Token.exists_of_live? ht)
      · exact ih hrest
    | none =>
      rw [ofLive_words ht] at h
      exact (mem_of_mem_prepend_text h).elim .inl ih

theorem leaves_ofLive (ts : List Token) : leaves (ofLive ts) = ts.filterMap Token.live? := by
  induction ts with
  | nil => rw [ofLive, List.foldr_nil, leaves, List.filterMap_nil]
  | cons t ts ih =>
    cases ht : t.live? with
    | some n =>
      obtain ⟨path, raw, rfl⟩ := Token.exists_of_live? ht
      rw [ofLive_variable ht, leaves, List.filterMap_cons_some ht, ih]
    | none => rw [ofLive_words ht, leaves_prepend_text, List.filterMap_cons_none ht, ih]

theorem tidy_ofLive {ts : List Token} (h : ∀ t ∈ ts, t.source ≠ "") : Tidy (ofLive ts) := by
  induction ts with
  | nil => rw [ofLive, List.foldr_nil, Tidy]; trivial
  | cons t ts ih =>
    obtain ⟨hsource, hts⟩ := List.forall_mem_cons.1 h
    cases ht : t.live? with
    | some n =>
      obtain ⟨path, raw, rfl⟩ := Token.exists_of_live? ht
      rw [ofLive_variable ht, Tidy]
      exact ih hts
    | none =>
      rw [ofLive_words ht]
      exact tidy_prepend_text hsource (ih hts)

/-- **With the variables put back as they were written**, the nodes are what the tokens were read
from. -/
theorem refilled_ofLive (ts : List Token) :
    refilled (ofLive ts) ((ts.filter fun t => t.live?.isSome).map Token.source) =
      Token.written ts := by
  induction ts with
  | nil => rfl
  | cons t ts ih =>
    rw [Token.written_cons, ← ih]
    cases ht : t.live? with
    | some n =>
      obtain ⟨path, raw, rfl⟩ := Token.exists_of_live? ht
      rw [ofLive_variable ht, List.filter_cons_of_pos (by rw [ht]; rfl), List.map_cons, refilled]
      exact nofun
    | none =>
      rw [ofLive_words ht, refilled_prepend_text,
        List.filter_cons_of_neg (by rw [ht]; exact Bool.false_ne_true)]

end Node

theorem Template.inline_eq (s : String) : inline s = Node.ofLive (Token.ofTemplate s) := by
  unfold inline Node.ofLive
  congr
  funext t rest
  unfold Token.live?
  cases t.lexeme <;> rfl

/-! ## Phrases as they are shown -/

namespace Renderer

variable (r : Renderer) (ctx : Context)

/-- **What a token of a phrase is shown as**: a variable as its text, anything else as it was
written. -/
def phrasePart (t : Token) : String :=
  match t.lexeme with
  | .variable path => r.variableText ctx path false
  | .raw path => r.variableText ctx path true
  | _ => t.source

theorem phrasePart_eq (t : Token) :
    r.phrasePart ctx t = (t.live?.map (r.inlineNode ctx)).getD t.source := by
  unfold phrasePart Token.live?
  cases t.lexeme <;> rfl

theorem join_prepend_text (s : String) (ns : List Node) :
    String.join (((Node.text s).prepend ns).map (r.inlineNode ctx)) =
      s ++ String.join (ns.map (r.inlineNode ctx)) := by
  obtain ⟨t, rest, rfl, hmerged⟩ | ⟨-, hfront⟩ := Node.prepend_text_cases s ns
  · rw [hmerged, List.map_cons, List.map_cons, String.join_cons, String.join_cons,
      ← String.append_assoc]
    rfl
  · rw [hfront, List.map_cons, String.join_cons]
    rfl

/-- **Every token is shown**, in its place. -/
theorem join_ofLive (ts : List Token) :
    String.join ((Node.ofLive ts).map (r.inlineNode ctx)) =
      String.join (ts.map (r.phrasePart ctx)) := by
  induction ts with
  | nil => rfl
  | cons t ts ih =>
    rw [List.map_cons, String.join_cons, ← ih, phrasePart_eq]
    cases ht : t.live? with
    | some n => rw [Node.ofLive_variable ht, List.map_cons, String.join_cons]; rfl
    | none => rw [Node.ofLive_words ht, join_prepend_text]; rfl

/-- Text without an opening pair of braces is shown as it is. -/
theorem join_inline_of_mentions_eq_false {s : String} (h : Text.mentions "\x7b\x7b" s = false) :
    String.join ((Template.inline s).map (r.inlineNode ctx)) = s := by
  have hplain : Piece.Plain s.toList :=
    Piece.plain_of_cutAt?_eq_none (Text.contains_eq_false_iff.1 h)
  have hsource : ∀ t ∈ Token.ofTemplate s, r.phrasePart ctx t = t.source := by
    intro t ht
    rw [phrasePart_eq, Token.live?_of_isText (Token.isText_of_plain hplain t ht)]
    rfl
  rw [Template.inline_eq, join_ofLive, List.map_congr_left hsource]
  exact Token.written_ofTemplate s

/-- **In the text of a phrase variables are filled in, and nothing else is done to it.** It has
nodes for text and for variables only, none of them empty text and no two texts side by side. The
variables are those among its tokens, in order, and put back as they were written they give the text
again. So every token is shown, a variable as its text and anything else as it was written, and that a
text without an opening pair of braces is not read at all makes no difference. -/
theorem inline_substitutes (s : String) :
    (∀ n ∈ Template.inline s, n.isText = true ∨ ∃ path raw, n = .variable path raw) ∧
      Node.Tidy (Template.inline s) ∧
      Node.leaves (Template.inline s) = (Token.ofTemplate s).filterMap Token.live? ∧
      Node.refilled (Template.inline s)
        (((Token.ofTemplate s).filter fun t => t.live?.isSome).map Token.source) = s ∧
      ∀ (r : Renderer) (ctx : Context),
        String.join ((Template.inline s).map (r.inlineNode ctx)) =
            String.join ((Token.ofTemplate s).map (r.phrasePart ctx)) ∧
          ∀ key, r.translate key = s →
            r.phraseText ctx key = String.join ((Template.inline s).map (r.inlineNode ctx)) := by
  rw [Template.inline_eq]
  refine ⟨fun n hn => Node.text_or_variable_of_mem_ofLive hn,
    Node.tidy_ofLive fun t ht => Token.source_ne_empty ht, Node.leaves_ofLive _, ?_,
    fun r ctx => ⟨r.join_ofLive ctx _, fun key hkey => ?_⟩⟩
  · rw [Node.refilled_ofLive, Token.written_ofTemplate]
  · rw [phraseText, hkey, ← Template.inline_eq]
    split
    · rfl
    · next hpair => exact (r.join_inline_of_mentions_eq_false ctx (Bool.eq_false_iff.2 hpair)).symm

/-- A greeting with a directive of each kind: a block that is opened and divided, and a phrase, stay
in it. -/
theorem inline_substitutes_greeting :
    let s := "Hi \x7b\x7bname\x7d\x7d\x7b\x7b#if x\x7d\x7d \x7b\x7b\x7bbio\x7d\x7d\x7d\x7b\x7belse\x7d\x7d\x7b\x7bt 'k'\x7d\x7d"
    let nodes := [.text "Hi ", .variable "name" false, .text "\x7b\x7b#if x\x7d\x7d ",
      .variable "bio" true, .text "\x7b\x7belse\x7d\x7d\x7b\x7bt 'k'\x7d\x7d"]
    let r := ofSettings { phrases := [("en", .obj [("greeting", .str s)])] } {} .english none
    let ctx := Context.ofLayers [] [("name", .str "Tom & Ann"), ("bio", .str "<b>")]
    Template.inline s = nodes ∧ (∀ n ∈ nodes, n.isText = true ∨ ∃ path raw, n = .variable path raw) ∧
      Node.refilled nodes ["\x7b\x7bname\x7d\x7d", "\x7b\x7b\x7bbio\x7d\x7d\x7d"] = s ∧
      r.translate "greeting" = s ∧ r.phraseText ctx "greeting" =
        "Hi Tom &amp; Ann\x7b\x7b#if x\x7d\x7d <b>\x7b\x7belse\x7d\x7d\x7b\x7bt 'k'\x7d\x7d" := by
  intro s nodes r ctx
  have htokens : Token.ofTemplate s =
      [⟨.text "Hi ", "Hi ", 0, 1⟩, ⟨.variable "name", "\x7b\x7bname\x7d\x7d", 3, 1⟩,
        ⟨.opening .ifTrue "x", "\x7b\x7b#if x\x7d\x7d", 11, 1⟩, ⟨.text " ", " ", 20, 1⟩,
        ⟨.raw "bio", "\x7b\x7b\x7bbio\x7d\x7d\x7d", 21, 1⟩,
        ⟨.otherwise, "\x7b\x7belse\x7d\x7d", 30, 1⟩, ⟨.phrase "k", "\x7b\x7bt 'k'\x7d\x7d", 38, 1⟩] := by
    decide +kernel
  have hinline : Template.inline s = nodes := by
    rw [Template.inline, htokens]
    rfl
  have htranslate : r.translate "greeting" = s := by decide +kernel
  obtain ⟨hnodes, -, -, hrefilled, hshown⟩ := inline_substitutes s
  obtain ⟨hparts, hphrase⟩ := hshown r ctx
  rw [hinline] at hnodes hrefilled
  rw [htokens] at hrefilled
  refine ⟨hinline, hnodes, hrefilled, htranslate, ?_⟩
  rw [hphrase "greeting" htranslate, hparts, htokens]
  decide +kernel

end Renderer

end Storefront
