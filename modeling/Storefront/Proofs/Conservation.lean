import Mathlib.Algebra.Order.Group.Multiset
import Storefront.Proofs.Blocks
import Storefront.Proofs.Lexing

/-!
# A tree keeps the whole template

Whether its blocks are balanced or not, a template is all in its tree. What
carries this is that the items of a template hold its tokens and are formed
(`Item.tokens_ofTemplate`, `Item.formed_ofTemplate`): each token is either one
of the borders of a block or stands alone. The tree then shows the items one by
one (`Item.Shows`), a loop with the stretch of the template that it was written
as, and a block directive that stands alone as the text it was written as.

Two things happen besides. Neighbouring text is merged, so it is the text of a
tree put together that is compared (`Node.wording`), and no node list has empty
text or two texts side by side (`Node.Tidy`). And the complaints come in another
order than the directives they are about, those inside loops first, so they are
compared as they come, up to order.
-/

namespace Storefront

/-! ## Trees -/

namespace Node

/-- **The variables and phrases of a tree**, in order. -/
def leaves : List Node → List Node
  | [] => []
  | .text _ :: rest => leaves rest
  | .variable path raw :: rest => .variable path raw :: leaves rest
  | .phrase key :: rest => .phrase key :: leaves rest
  | .loop _ body _ _ :: rest => leaves body ++ leaves rest
  | .conditional _ _ shown hidden _ :: rest => leaves shown ++ leaves hidden ++ leaves rest

/-- **The text of a tree**, put together in order. -/
def wording : List Node → String
  | [] => ""
  | .text s :: rest => s ++ wording rest
  | .variable _ _ :: rest => wording rest
  | .phrase _ :: rest => wording rest
  | .loop _ body _ _ :: rest => wording body ++ wording rest
  | .conditional _ _ shown hidden _ :: rest => wording shown ++ wording hidden ++ wording rest

/-- Whether a list of nodes begins with text. -/
def startsWithText (ns : List Node) : Bool := ns.head?.any isText

/-- **Node lists without empty text and without two texts side by side**, in all loops and
branches. -/
def Tidy : List Node → Prop
  | [] => True
  | .text s :: rest => s ≠ "" ∧ startsWithText rest = false ∧ Tidy rest
  | .variable _ _ :: rest => Tidy rest
  | .phrase _ :: rest => Tidy rest
  | .loop _ body _ _ :: rest => Tidy body ∧ Tidy rest
  | .conditional _ _ shown hidden _ :: rest => Tidy shown ∧ Tidy hidden ∧ Tidy rest

theorem eq_text_of_startsWithText {ns : List Node} (h : startsWithText ns = true) :
    ∃ t rest, ns = .text t :: rest := by
  cases ns with
  | nil => cases h
  | cons n rest =>
    cases n with
    | text t => exact ⟨t, rest, rfl⟩
    | _ => cases h

/-- Only text in front of text is merged. -/
theorem prepend_of_startsWithText_eq_false {ns : List Node} (h : startsWithText ns = false)
    (n : Node) : n.prepend ns = n :: ns := by
  unfold prepend
  split
  · cases h
  · rfl

theorem prepend_of_isText_eq_false {n : Node} (h : n.isText = false) (ns : List Node) :
    n.prepend ns = n :: ns := by
  unfold prepend
  split
  · cases h
  · rfl

/-- **Text in front of nodes** becomes part of the text that they begin with, or stands in front of
them. -/
theorem prepend_text_cases (s : String) (ns : List Node) :
    (∃ t rest, ns = .text t :: rest ∧ (Node.text s).prepend ns = .text (s ++ t) :: rest) ∨
      (startsWithText ns = false ∧ (Node.text s).prepend ns = .text s :: ns) := by
  cases htext : startsWithText ns with
  | true =>
    obtain ⟨t, rest, rfl⟩ := eq_text_of_startsWithText htext
    exact .inl ⟨t, rest, rfl, rfl⟩
  | false => exact .inr ⟨rfl, prepend_of_startsWithText_eq_false htext _⟩

theorem leaves_prepend_text (s : String) (ns : List Node) :
    leaves ((Node.text s).prepend ns) = leaves ns := by
  obtain ⟨t, rest, rfl, hmerged⟩ | ⟨-, hfront⟩ := prepend_text_cases s ns
  · rw [hmerged, leaves, leaves]
  · rw [hfront, leaves]

theorem wording_prepend_text (s : String) (ns : List Node) :
    wording ((Node.text s).prepend ns) = s ++ wording ns := by
  obtain ⟨t, rest, rfl, hmerged⟩ | ⟨-, hfront⟩ := prepend_text_cases s ns
  · rw [hmerged, wording, wording, String.append_assoc]
  · rw [hfront, wording]

/-- Text in front of a tidy list leaves it tidy. -/
theorem tidy_prepend_text {s : String} (hs : s ≠ "") {ns : List Node} (h : Tidy ns) :
    Tidy ((Node.text s).prepend ns) := by
  obtain ⟨t, rest, rfl, hmerged⟩ | ⟨htext, hfront⟩ := prepend_text_cases s ns
  · rw [Tidy] at h
    rw [hmerged, Tidy]
    exact ⟨fun hempty => hs (String.append_eq_empty_iff.1 hempty).1, h.2⟩
  · rw [hfront, Tidy]
    exact ⟨hs, htext, h⟩

end Node

/-! ## Tokens as leaves -/

namespace Token

/-- **The variable or phrase that a token is**, if it is one. -/
def leaf? (t : Token) : Option Node :=
  match t.lexeme with
  | .variable path => some (.variable path false)
  | .raw path => some (.variable path true)
  | .phrase key => some (.phrase key)
  | _ => none

theorem leaf?_of_isBlock {t : Token} (h : t.isBlock = true) : t.leaf? = none := by
  unfold isBlock at h
  unfold leaf?
  cases ht : t.lexeme with
  | text | opening | otherwise | closing => rfl
  | «variable» | raw | phrase => rw [ht] at h; cases h

/-- A leaf is a variable or a phrase, and is shown as such. -/
theorem node_of_leaf? {t : Token} {n : Node} (h : t.leaf? = some n) :
    t.node = n ∧ ((∃ path raw, n = .variable path raw) ∨ ∃ key, n = .phrase key) := by
  unfold leaf? at h
  unfold node
  cases ht : t.lexeme with
  | «variable» path => rw [ht] at h; exact ⟨Option.some.inj h, .inl ⟨path, false, by cases h; rfl⟩⟩
  | raw path => rw [ht] at h; exact ⟨Option.some.inj h, .inl ⟨path, true, by cases h; rfl⟩⟩
  | phrase key => rw [ht] at h; exact ⟨Option.some.inj h, .inr ⟨key, by cases h; rfl⟩⟩
  | text | opening | otherwise | closing => rw [ht] at h; cases h

/-- A token that is no variable and no phrase is shown as it was written. -/
theorem node_of_leaf?_eq_none {t : Token} (h : t.leaf? = none)
    (htext : ∀ s, t.lexeme = .text s → s = t.source) : t.node = .text t.source := by
  unfold leaf? at h
  unfold node
  cases ht : t.lexeme with
  | text s => rw [htext s ht]
  | opening | otherwise | closing => rfl
  | «variable» | raw | phrase => rw [ht] at h; cases h

theorem isBlock_of_opens {t : Token} {kind : BlockKind} (h : t.opens kind = true) :
    t.isBlock = true := by
  unfold opens at h
  unfold isBlock
  cases ht : t.lexeme with
  | opening | otherwise | closing => rfl
  | text | «variable» | raw | phrase => rw [ht] at h; cases h

theorem lexeme_of_opens {t : Token} {kind : BlockKind} (h : t.opens kind = true) :
    t.lexeme = .opening kind t.argument := by
  unfold opens at h
  unfold argument
  cases ht : t.lexeme with
  | opening k argument => rw [ht] at h; rw [of_decide_eq_true h]
  | otherwise | closing | text | «variable» | raw | phrase => rw [ht] at h; cases h

end Token

/-! ## Items and the tree they become -/

namespace Item

/-- The block directives that stand alone in items: those without a place. -/
def strays (items : List Item) : List Token := (alone items).filter Token.isBlock

/-- **A tree shows items** when it has, one by one, a leaf for each variable and phrase, text for
each other token that stands alone, and for each block a loop or conditional with what its opening
token says, with the parts of the block as its parts and, for a loop, with the stretch of the
template from its opening to its closing token. `join` says how text is put in front of nodes. -/
inductive Shows (template : String) (join : Node → List Node → List Node) :
    List Item → List Node → Prop
  /-- Nothing shows nothing. -/
  | nil : Shows template join [] []
  /-- A variable or phrase is a leaf. -/
  | leaf {t n items ns} (h : t.leaf? = some n) (hrest : Shows template join items ns) :
      Shows template join (.token t :: items) (n :: ns)
  /-- Any other token that stands alone is the text it was written as. -/
  | words {t items ns} (h : t.leaf? = none) (hrest : Shows template join items ns) :
      Shows template join (.token t :: items) (join (.text t.source) ns)
  /-- A block that loops. -/
  | loop {opening path body inner source closing items ns}
      (hpath : opening.lexeme = .opening .each path)
      (hsource : Token.IsStretch template opening.start closing.stop source)
      (hbody : Shows template join body inner) (hrest : Shows template join items ns) :
      Shows template join (.block .each opening body none [] closing :: items)
        (.loop path inner source opening.line :: ns)
  /-- A block that tests something. -/
  | conditional {kind opening condition shown border hidden yes no closing items ns}
      (hkind : kind ≠ .each) (hcondition : opening.lexeme = .opening kind condition)
      (hshown : Shows template join shown yes) (hhidden : Shows template join hidden no)
      (hrest : Shows template join items ns) :
      Shows template join (.block kind opening shown border hidden closing :: items)
        (.conditional condition (kind == .unlessTrue) yes no opening.line :: ns)

theorem nodes_block_of_ne {kind : BlockKind} (hkind : kind ≠ .each) (template : List Char)
    (opening : Token) (shown : List Item) (border : Option Token) (hidden : List Item)
    (closing : Token) (rest : List Item) :
    nodes template (.block kind opening shown border hidden closing :: rest) =
      .conditional opening.argument (kind == .unlessTrue) (nodes template shown)
        (nodes template hidden) opening.line :: nodes template rest := by
  cases kind with
  | each => exact absurd rfl hkind
  | ifTrue => rfl
  | unlessTrue => rfl

/-- **The tree of items from a template shows them**, with neighbouring text merged. -/
theorem shows_nodes {template : String} {items : List Item} (hformed : Formed items)
    (hspan : tokens items <:+: Token.ofTemplate template) :
    Shows template Node.prepend items (nodes template.toList items) := by
  induction items using forest_induction with
  | nil => exact .nil
  | token t rest ih =>
    rw [tokens] at hspan
    rw [Formed] at hformed
    have hrest := ih hformed ((List.suffix_cons t _).isInfix.trans hspan)
    rw [nodes, node]
    cases hleaf : t.leaf? with
    | some n =>
      obtain ⟨hnode, hn⟩ := Token.node_of_leaf? hleaf
      have htext : n.isText = false := by obtain ⟨_, _, rfl⟩ | ⟨_, rfl⟩ := hn <;> rfl
      rw [hnode, Node.prepend_of_isText_eq_false htext]
      exact .leaf hleaf hrest
    | none =>
      have hmem : t ∈ Token.ofTemplate template := hspan.subset List.mem_cons_self
      rw [Token.node_of_leaf?_eq_none hleaf fun s => Token.eq_source_of_lexeme hmem]
      exact .words hleaf hrest
  | block kind opening shown border hidden closing rest ihshown ihhidden ihrest =>
    rw [Formed] at hformed
    obtain ⟨hbounded, hshown, hhidden, hrest⟩ := hformed
    have hopens := Token.lexeme_of_opens hbounded.opens
    obtain ⟨hinshown, hinhidden, hinrest⟩ := infix_of_block hspan
    rw [tokens] at hspan
    -- the block stands in the template from its opening to its closing token
    have hwhole : opening :: (tokens shown ++ border.toList ++ tokens hidden) ++ [closing] <:+:
        Token.ofTemplate template :=
      List.IsInfix.trans ⟨[], tokens rest, by simp⟩ hspan
    by_cases hkind : kind = .each
    · subst hkind
      obtain rfl := hbounded.undivided rfl
      obtain rfl := hbounded.hidden_eq_nil rfl
      exact .loop hopens (Token.isStretch_slice hwhole) (ihshown hshown hinshown)
        (ihrest hrest hinrest)
    · rw [nodes_block_of_ne hkind]
      exact .conditional hkind hopens (ihshown hshown hinshown) (ihhidden hhidden hinhidden)
        (ihrest hrest hinrest)

section Shown

variable {template : String} {items : List Item} {ns : List Node}

/-- The leaves of a tree are the variables and phrases that stand alone in what it shows. -/
theorem Shows.leaves_eq (h : Shows template Node.prepend items ns) :
    Node.leaves ns = (alone items).filterMap Token.leaf? := by
  induction h with
  | nil => rw [Node.leaves, alone, List.filterMap_nil]
  | @leaf t n items ns hleaf _ ih =>
    have hcons : Node.leaves (n :: ns) = n :: Node.leaves ns := by
      obtain ⟨-, ⟨_, _, rfl⟩ | ⟨_, rfl⟩⟩ := Token.node_of_leaf? hleaf <;> rw [Node.leaves]
    rw [hcons, alone, List.filterMap_cons_some hleaf, ih]
  | words hleaf _ ih =>
    rw [Node.leaves_prepend_text, alone, List.filterMap_cons_none hleaf, ih]
  | loop _ _ _ _ ihbody ihrest =>
    rw [Node.leaves, alone, alone, List.append_nil, List.filterMap_append, ihbody, ihrest]
  | conditional _ _ _ _ _ ihshown ihhidden ihrest =>
    rw [Node.leaves, alone, List.filterMap_append, List.filterMap_append, ihshown, ihhidden, ihrest]

/-- The text of a tree is that of the other tokens that stand alone in what it shows. -/
theorem Shows.wording_eq (h : Shows template Node.prepend items ns) :
    Node.wording ns = Token.written ((alone items).filter fun t => t.leaf?.isNone) := by
  induction h with
  | nil => rw [Node.wording, alone, List.filter_nil]; rfl
  | @leaf t n items ns hleaf _ ih =>
    have hcons : Node.wording (n :: ns) = Node.wording ns := by
      obtain ⟨-, ⟨_, _, rfl⟩ | ⟨_, rfl⟩⟩ := Token.node_of_leaf? hleaf <;> rw [Node.wording]
    rw [hcons, alone, List.filter_cons_of_neg (by rw [hleaf]; exact Bool.false_ne_true), ih]
  | words hleaf _ ih =>
    rw [Node.wording_prepend_text, alone, List.filter_cons_of_pos (by rw [hleaf]; rfl),
      Token.written_cons, ih]
  | loop _ _ _ _ ihbody ihrest =>
    rw [Node.wording, alone, alone, List.append_nil, List.filter_append, Token.written_append,
      ihbody, ihrest]
  | conditional _ _ _ _ _ ihshown ihhidden ihrest =>
    rw [Node.wording, alone, List.filter_append, List.filter_append, Token.written_append,
      Token.written_append, ihshown, ihhidden, ihrest]

theorem Shows.tidy (h : Shows template Node.prepend items ns)
    (hne : ∀ t ∈ alone items, t.source ≠ "") : Node.Tidy ns := by
  induction h with
  | nil => rw [Node.Tidy]; trivial
  | @leaf t n items ns hleaf _ ih =>
    rw [alone] at hne
    have hcons : Node.Tidy (n :: ns) = Node.Tidy ns := by
      obtain ⟨-, ⟨_, _, rfl⟩ | ⟨_, rfl⟩⟩ := Token.node_of_leaf? hleaf <;> rw [Node.Tidy]
    rw [hcons]
    exact ih (List.forall_mem_cons.1 hne).2
  | words _ _ ih =>
    rw [alone] at hne
    obtain ⟨ht, hrest⟩ := List.forall_mem_cons.1 hne
    exact Node.tidy_prepend_text ht (ih hrest)
  | loop _ _ _ _ ihbody ihrest =>
    rw [alone] at hne
    obtain ⟨hparts, hrest⟩ := List.forall_mem_append.1 hne
    rw [Node.Tidy]
    exact ⟨ihbody (List.forall_mem_append.1 hparts).1, ihrest hrest⟩
  | conditional _ _ _ _ _ ihshown ihhidden ihrest =>
    rw [alone] at hne
    obtain ⟨hparts, hrest⟩ := List.forall_mem_append.1 hne
    obtain ⟨hshown, hhidden⟩ := List.forall_mem_append.1 hparts
    rw [Node.Tidy]
    exact ⟨ihshown hshown, ihhidden hhidden, ihrest hrest⟩

end Shown

/-- Tokens that stand alone are tokens of the items. -/
theorem alone_sublist_tokens (items : List Item) : (alone items).Sublist (tokens items) := by
  induction items using forest_induction with
  | nil => rw [alone]; exact List.nil_sublist _
  | token t rest ih => rw [alone, tokens]; exact ih.cons_cons t
  | block kind opening shown border hidden closing rest ihshown ihhidden ihrest =>
    rw [alone, tokens]
    refine List.Sublist.cons opening ?_
    refine List.Sublist.append (List.Sublist.append ?_ ihhidden) (ihrest.cons closing)
    exact ihshown.trans (List.sublist_append_left _ _)

/-- **No variable or phrase is a border of a block.** -/
theorem filterMap_leaf?_tokens {items : List Item} (h : Formed items) :
    (tokens items).filterMap Token.leaf? = (alone items).filterMap Token.leaf? := by
  induction items using forest_induction with
  | nil => rw [tokens, alone]
  | token t rest ih =>
    rw [Formed] at h
    rw [tokens, alone, ← List.singleton_append, List.filterMap_append, ih h,
      ← List.filterMap_append, List.singleton_append]
  | block kind opening shown border hidden closing rest ihshown ihhidden ihrest =>
    rw [Formed] at h
    obtain ⟨hbounded, hshown, hhidden, hrest⟩ := h
    have hopening := Token.leaf?_of_isBlock (Token.isBlock_of_opens hbounded.opens)
    have hclosing : closing.leaf? = none := by rw [Token.leaf?, hbounded.closes]
    have hborder : border.toList.filterMap Token.leaf? = [] := by
      refine List.filterMap_eq_nil_iff.2 fun e he => ?_
      rw [Token.leaf?, hbounded.divides e (Option.mem_toList.1 he)]
    rw [tokens, alone, List.filterMap_cons_none hopening]
    simp only [List.filterMap_append, List.filterMap_cons_none hclosing, hborder, ihshown hshown,
      ihhidden hhidden, ihrest hrest, List.nil_append, List.append_assoc]

/-! ## Complaints -/

theorem strays_token (t : Token) (rest : List Item) :
    strays (.token t :: rest) = (if t.isBlock then [t] else []) ++ strays rest := by
  rw [strays, alone, List.filter_cons]
  split
  · rfl
  · rfl

theorem strays_block (kind : BlockKind) (opening : Token) (shown : List Item)
    (border : Option Token) (hidden : List Item) (closing : Token) (rest : List Item) :
    strays (.block kind opening shown border hidden closing :: rest) =
      strays shown ++ strays hidden ++ strays rest := by
  rw [strays, alone, List.filter_append, List.filter_append, strays, strays, strays]

/-- The block directives without a place that are in no loop of the items. -/
def outside : List Item → List Token
  | [] => []
  | .token t :: rest => (if t.isBlock then [t] else []) ++ outside rest
  | .block .each _ _ _ _ _ :: rest => outside rest
  | .block _ _ shown _ hidden _ :: rest => outside shown ++ outside hidden ++ outside rest

/-- The block directives without a place that are in loops of the items, in the order in which
they are complained about: those of a loop come after those of the loops in it. -/
def inside : List Item → List Token
  | [] => []
  | .token _ :: rest => inside rest
  | .block .each _ body _ _ _ :: rest => inside body ++ outside body ++ inside rest
  | .block _ _ shown _ hidden _ :: rest => inside shown ++ inside hidden ++ inside rest

/-- **The block directives without a place in the order in which they are complained about.** -/
def reported (items : List Item) : List Token := inside items ++ outside items

theorem outside_block_of_ne {kind : BlockKind} (hkind : kind ≠ .each) (opening : Token)
    (shown : List Item) (border : Option Token) (hidden : List Item) (closing : Token)
    (rest : List Item) :
    outside (.block kind opening shown border hidden closing :: rest) =
      outside shown ++ outside hidden ++ outside rest := by
  rw [outside]
  exact hkind

theorem inside_block_of_ne {kind : BlockKind} (hkind : kind ≠ .each) (opening : Token)
    (shown : List Item) (border : Option Token) (hidden : List Item) (closing : Token)
    (rest : List Item) :
    inside (.block kind opening shown border hidden closing :: rest) =
      inside shown ++ inside hidden ++ inside rest := by
  rw [inside]
  exact hkind

theorem straysComplaints_eq (items : List Item) :
    straysComplaints items = (outside items).map Token.complaint := by
  induction items using forest_induction with
  | nil => rw [straysComplaints, outside, List.map_nil]
  | token t rest ih =>
    rw [straysComplaints, outside, List.map_append, ← ih, strayComplaints]
    split
    · rfl
    · rfl
  | block kind opening shown border hidden closing rest ihshown ihhidden ihrest =>
    rw [straysComplaints, ihrest]
    by_cases hkind : kind = .each
    · subst hkind
      rw [strayComplaints, outside, List.nil_append]
    · rw [outside_block_of_ne hkind, List.map_append, List.map_append, ← ihshown, ← ihhidden,
        strayComplaints]
      exact hkind

theorem loopsComplaints_eq (items : List Item) :
    loopsComplaints items = (inside items).map Token.complaint := by
  induction items using forest_induction with
  | nil => rw [loopsComplaints, inside, List.map_nil]
  | token t rest ih => rw [loopsComplaints, loopComplaints, inside, ih, List.nil_append]
  | block kind opening shown border hidden closing rest ihshown ihhidden ihrest =>
    rw [loopsComplaints, ihrest]
    by_cases hkind : kind = .each
    · subst hkind
      rw [loopComplaints, inside, List.map_append, List.map_append, ihshown, straysComplaints_eq]
    · rw [inside_block_of_ne hkind, List.map_append, List.map_append, ← ihshown, ← ihhidden,
        loopComplaints]
      exact hkind

theorem diagnostics_eq (items : List Item) :
    diagnostics items = (reported items).map Token.complaint := by
  rw [diagnostics, loopsComplaints_eq, straysComplaints_eq, reported, List.map_append]

/-- What is complained about in a block is what is complained about in its parts, in some
order. -/
theorem reported_block {kind : BlockKind} {opening : Token} {border : Option Token}
    {hidden : List Item} {closing : Token} (h : Bounded kind opening border hidden closing)
    (shown rest : List Item) :
    (reported (.block kind opening shown border hidden closing :: rest) : Multiset Token) =
      reported shown + reported hidden + reported rest := by
  by_cases hkind : kind = .each
  · subst hkind
    obtain rfl := h.hidden_eq_nil (h.undivided rfl)
    simp only [reported, inside, outside, ← Multiset.coe_add, List.nil_append, Multiset.coe_nil,
      add_zero, add_assoc]
  · simp only [reported, inside_block_of_ne hkind, outside_block_of_ne hkind, ← Multiset.coe_add]
    ac_rfl

/-- **Each block directive without a place is complained about once.** -/
theorem reported_perm {items : List Item} (h : Formed items) :
    (reported items).Perm (strays items) := by
  -- loops move what is in them to the front, so the lists are compared as multisets, in which
  -- what is complained about in the parts of an item is a sum
  refine Multiset.coe_eq_coe.1 ?_
  induction items using forest_induction with
  | nil => rw [strays, alone, reported, inside, outside]; rfl
  | token t rest ih =>
    rw [Formed] at h
    rw [strays_token, ← Multiset.coe_add, ← ih h, reported, reported, inside, outside]
    simp only [← Multiset.coe_add]
    exact add_left_comm _ _ _
  | block kind opening shown border hidden closing rest ihshown ihhidden ihrest =>
    rw [Formed] at h
    obtain ⟨hbounded, hshown, hhidden, hrest⟩ := h
    rw [reported_block hbounded, ihshown hshown, ihhidden hhidden, ihrest hrest, strays_block,
      ← Multiset.coe_add, ← Multiset.coe_add]

/-- **There is one complaint for each block directive without a place.** -/
theorem diagnostics_perm {items : List Item} (h : Formed items) :
    (diagnostics items).Perm ((strays items).map Token.complaint) := by
  rw [diagnostics_eq]
  exact (reported_perm h).map Token.complaint

theorem diagnostics_eq_nil_iff_strays {items : List Item} (h : Formed items) :
    diagnostics items = [] ↔ strays items = [] := by
  rw [← List.length_eq_zero_iff, (diagnostics_perm h).length_eq, List.length_map,
    List.length_eq_zero_iff]

end Item

namespace Template

/-- **Parsing loses, duplicates and reorders nothing.** The tokens of a template are the borders
of formed blocks and the tokens that stand alone, in the order in which they stand, and the tree
shows these blocks and tokens one by one. So its leaves are the variables and phrases of the
template, its text is that of the template together with the block directives without a place, each
of which is complained about once with the line it stands on, and no text is empty or beside other
text. -/
theorem parse_conserves (template : String) :
    ∃ items, Item.Formed items ∧ Item.tokens items = Token.ofTemplate template ∧
      Item.Shows template Node.prepend items (parse template).nodes ∧
      Node.leaves (parse template).nodes = (Token.ofTemplate template).filterMap Token.leaf? ∧
      Node.wording (parse template).nodes =
        Token.written ((Item.alone items).filter fun t => t.leaf?.isNone) ∧
      (parse template).diagnostics.Perm ((Item.strays items).map Token.complaint) ∧
      (∀ t ∈ Item.strays items, t.StandsIn template) ∧
      Node.Tidy (parse template).nodes := by
  have hformed := Item.formed_ofTemplate template
  have htokens := Item.tokens_ofTemplate template
  have halone := (Item.alone_sublist_tokens (Item.ofTemplate template)).subset
  rw [htokens] at halone
  have hshows : Item.Shows template Node.prepend (Item.ofTemplate template)
      (parse template).nodes :=
    Item.shows_nodes hformed (Item.infix_ofTemplate template)
  refine ⟨Item.ofTemplate template, hformed, htokens, hshows, ?_, hshows.wording_eq,
    Item.diagnostics_perm hformed, fun t ht => ?_,
    hshows.tidy fun t ht => Token.source_ne_empty (halone ht)⟩
  · rw [← htokens, Item.filterMap_leaf?_tokens hformed]
    exact hshows.leaves_eq
  · exact Token.standsIn_of_mem (halone (List.mem_filter.1 ht).1)

end Template

end Storefront
