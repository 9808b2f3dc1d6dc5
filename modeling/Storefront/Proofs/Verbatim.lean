import Storefront.Proofs.Conservation
import Storefront.Proofs.Drafting

/-!
# Text comes back as it was written

A template may have no live directive at all and yet be read in many pieces: text
up to a brace, braces that open nothing, words in braces that are no directive, and
directives without a place, each of which is put back as it was written. When the
tree of a template has only text (`Template.isStatic`), what stands in it is all
that the tokens of the template were read from (`Item.Shows.wording_of_isStatic`),
so rendering it gives the template.

Text without an opening pair of braces is one such template, so not reading it at
all makes no difference (`Renderer.template_static`).
-/

namespace Storefront

/-! ## Trees of text -/

namespace Node

/-- What is put in front of nodes is text, too, if they all are. -/
theorem all_isText_prepend (n : Node) (ns : List Node) :
    (n.prepend ns).all isText = (n.isText && ns.all isText) := by
  unfold prepend
  split
  · rw [List.all_cons, List.all_cons]
    rfl
  · rw [List.all_cons]

end Node

namespace Item

variable {template : String} {items : List Item} {ns : List Node}

/-- **A tree of text has the text of all tokens of what it shows**, as these are neither variables and
phrases nor parts of blocks. -/
theorem Shows.wording_of_isStatic (h : Shows template Node.prepend items ns)
    (hns : ns.all Node.isText = true) : Node.wording ns = Token.written (tokens items) := by
  induction h with
  | nil => rw [Node.wording, tokens]; rfl
  | @leaf t n items ns hleaf _ _ =>
    obtain ⟨-, ⟨_, _, rfl⟩ | ⟨_, rfl⟩⟩ := Token.node_of_leaf? hleaf <;> cases hns
  | words _ _ ih =>
    rw [Node.all_isText_prepend] at hns
    rw [Node.wording_prepend_text, tokens, Token.written_cons, ih ((Bool.and_eq_true _ _).mp hns).2]
  | loop => cases hns
  | conditional => cases hns

/-- **Items whose tokens are all text are shown as text.** -/
theorem Shows.isStatic_of_isText (h : Shows template Node.prepend items ns)
    (hitems : ∀ t ∈ tokens items, t.lexeme.isText = true) : ns.all Node.isText = true := by
  induction h with
  | nil => rfl
  | @leaf t n items ns hleaf _ _ =>
    rw [tokens, List.forall_mem_cons] at hitems
    have htext := hitems.1
    unfold Token.leaf? at hleaf
    cases hl : t.lexeme with
    | «variable» | raw | phrase => rw [hl] at htext; cases htext
    | text | opening | otherwise | closing => rw [hl] at hleaf; cases hleaf
  | words _ _ ih =>
    rw [tokens, List.forall_mem_cons] at hitems
    rw [Node.all_isText_prepend, ih hitems.2]
    rfl
  | loop hpath =>
    rw [tokens] at hitems
    have hopening := hitems _ List.mem_cons_self
    rw [hpath] at hopening
    cases hopening
  | conditional _ hcondition =>
    rw [tokens] at hitems
    have hopening := hitems _ List.mem_cons_self
    rw [hcondition] at hopening
    cases hopening

end Item

/-! ## Text without directives -/

namespace Token

/-- The tokens of a text without directives are text. -/
theorem isText_of_plain {source : String} (h : Piece.Plain source.toList) :
    ∀ t ∈ ofTemplate source, t.lexeme.isText = true := by
  intro t ht
  have hlexeme : t.lexeme ∈ (pieces source).map Piece.lexeme := by
    rw [← map_lexeme_located 0 1]
    exact List.mem_map_of_mem ht
  obtain ⟨p, hp, hmeans⟩ := List.mem_map.1 hlexeme
  rw [← hmeans]
  by_cases hne : Piece.ofText source.toList = []
  · rw [pieces, hne] at hp
    cases hp
  · -- text next to text is merged, so there is one piece
    rw [pieces, Piece.merged_of_plain h hne] at hp
    rw [List.mem_singleton.1 hp]
    rfl

end Token

namespace Template

/-- The tree of a template shows its items. -/
theorem shows_parse (source : String) :
    Item.Shows source Node.prepend (Item.ofTemplate source) (parse source).nodes :=
  Item.shows_nodes (Item.formed_ofTemplate source) (Item.infix_ofTemplate source)

/-- **A tree of text has the text of its template.** -/
theorem wording_parse {source : String} (h : (parse source).isStatic = true) :
    Node.wording (parse source).nodes = source := by
  rw [(shows_parse source).wording_of_isStatic h, Item.tokens_ofTemplate, Token.written_ofTemplate]

/-- Text without an opening pair of braces has no directives. -/
theorem isStatic_parse {source : String} (h : Text.mentions "\x7b\x7b" source = false) :
    (parse source).isStatic = true := by
  have hplain : Piece.Plain source.toList :=
    Piece.plain_of_cutAt?_eq_none (Text.contains_eq_false_iff.1 h)
  refine (shows_parse source).isStatic_of_isText ?_
  rw [Item.tokens_ofTemplate]
  exact Token.isText_of_plain hplain

end Template

/-! ## Rendering -/

namespace Renderer

variable (r : Renderer)

/-- Nodes that are text show it, in any context. -/
theorem nodes_of_isText {ns : List Node} (h : ns.all Node.isText = true) (depth : Nat)
    (ctx : Context) : r.nodes depth ctx ns = Node.wording ns := by
  induction ns with
  | nil => rw [nodes, Node.wording]
  | cons n rest ih =>
    obtain ⟨hn, hrest⟩ := (Bool.and_eq_true _ _).mp h
    cases n with
    | text s => rw [nodes, node, Node.wording, ih hrest]
    | «variable» | phrase | loop | conditional => cases hn

/-- **A template without live directives is rendered as it is**, with all directives in it that have
no place, by every renderer and in every context. Hence rendering any template is rendering its tree:
that text without an opening pair of braces is not read at all makes no difference. -/
theorem template_static (ctx : Context) (source : String) :
    ((Template.parse source).isStatic = true → r.template (Template.parse source) ctx = source) ∧
      r.render source ctx = r.template (Template.parse source) ctx := by
  have hstatic : (Template.parse source).isStatic = true →
      r.template (Template.parse source) ctx = source := fun h => by
    rw [template_eq_nodes, r.nodes_of_isText h, Template.wording_parse h]
  refine ⟨hstatic, ?_⟩
  rw [render]
  split
  · rfl
  · next hpair => exact (hstatic (Template.isStatic_parse (Bool.eq_false_iff.2 hpair))).symm

/-- A template of strays: blocks that do not match, words in braces that are no directive, a brace in
front of nothing, and an opening pair that is never closed. -/
theorem template_static_strays :
    let r := ofSettings {} {} .english none
    let ctx := Context.ofLayers [] [("a", .bool true), ("b", .str "shown")]
    let source := "\x7b\x7b#if a\x7d\x7d\x7b \x7b\x7bb c\x7d\x7d\n\x7b\x7b/each\x7d\x7d\x7d \x7b\x7belse\x7d\x7d\x7b\x7b"
    (Template.parse source).isStatic = true ∧ (Template.parse source).diagnostics.length = 3 ∧
      r.template (Template.parse source) ctx = source := by
  intro r ctx source
  have hstatic : (Template.parse source).isStatic = true := by decide +kernel
  have hdiagnostics : (Template.parse source).diagnostics.length = 3 := by decide +kernel
  exact ⟨hstatic, hdiagnostics, (r.template_static ctx source).1 hstatic⟩

end Renderer

end Storefront
