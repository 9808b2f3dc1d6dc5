import Storefront.Proofs.Joining
import Storefront.Proofs.Regrouping

/-!
# A template put into a loop

Outside of loops the blocks of a template are matched in another order than in
the body of one, so a template that has no mistakes may have some when it is put
into a loop. What matters is where an `else` of an `unless` stands. A loop of the
template begins a region of its own as long as it is in no other loop, and then
an `if` around it takes no `else` from it; put into one more loop, it does not
(`Item.Place.within`).

So a template stays without mistakes exactly when its derivation is placed as
the body of a loop: behind the `else` of the innermost `if` around it stands
every `unless` with an `else`, now also where a loop is between the two
(`Template.parse_looped`). Then the tree is one loop with the tree of the
template in it, some lines further down. `Template.looped_breaks` is the smallest
template that does not stay so.

The derivation of the whole is the derivation of the template with one block
around it (`Item.derivation_enclosed`), since its tokens are those of the
template, moved, with two around them.
-/

namespace Storefront

/-! ## Items further down -/

namespace Item

/-- **Items further down in a template**, by some bytes and lines. -/
def moved (bytes lines : Nat) : List Item → List Item
  | [] => []
  | .token t :: rest => .token (t.moved bytes lines) :: moved bytes lines rest
  | .block kind opening shown border hidden closing :: rest =>
    .block kind (opening.moved bytes lines) (moved bytes lines shown)
        (border.map (Token.moved bytes lines)) (moved bytes lines hidden)
        (closing.moved bytes lines) ::
      moved bytes lines rest

section Moved

variable (bytes lines : Nat)

theorem tokens_moved (items : List Item) :
    tokens (moved bytes lines items) = (tokens items).map (Token.moved bytes lines) := by
  induction items using forest_induction with
  | nil => rw [moved, tokens, List.map_nil]
  | token t rest ih => rw [moved, tokens, tokens, List.map_cons, ih]
  | block kind opening shown border hidden closing rest ihshown ihhidden ihrest =>
    have hborder : (border.map (Token.moved bytes lines)).toList =
        border.toList.map (Token.moved bytes lines) := by
      cases border with
      | none => rfl
      | some t => rfl
    rw [moved, tokens, tokens, ihshown, ihhidden, ihrest, hborder]
    simp only [List.map_cons, List.map_append]

theorem Bounded.moved {kind : BlockKind} {opening : Token} {border : Option Token}
    {hidden : List Item} {closing : Token} (h : Bounded kind opening border hidden closing) :
    Bounded kind (opening.moved bytes lines) (border.map (Token.moved bytes lines))
      (Item.moved bytes lines hidden) (closing.moved bytes lines) where
  opens := h.opens
  closes := h.closes
  divides e he := by
    obtain ⟨t, ht, rfl⟩ := Option.map_eq_some_iff.1 he
    exact h.divides t ht
  undivided hkind := by rw [h.undivided hkind]; rfl
  hidden_eq_nil hnone := by rw [h.hidden_eq_nil (Option.map_eq_none_iff.1 hnone), Item.moved]

theorem Nested.moved {items : List Item} (h : Nested items) :
    Nested (Item.moved bytes lines items) := by
  induction items using forest_induction with
  | nil => rw [Item.moved, Nested]; trivial
  | token t rest ih =>
    rw [Nested] at h
    rw [Item.moved, Nested]
    exact ⟨h.1, ih h.2⟩
  | block kind opening shown border hidden closing rest ihshown ihhidden ihrest =>
    rw [Nested] at h
    obtain ⟨hbounded, hshown, hhidden, hrest⟩ := h
    rw [Item.moved, Nested]
    exact ⟨hbounded.moved bytes lines, ihshown hshown, ihhidden hhidden, ihrest hrest⟩

theorem placed_moved {p : Place} {items : List Item} :
    Placed p (moved bytes lines items) ↔ Placed p items := by
  induction items using forest_induction generalizing p with
  | nil => rw [moved]
  | token t rest ih =>
    rw [moved, Placed, Placed, ih]
    exact Iff.rfl
  | block kind opening shown border hidden closing rest ihshown ihhidden ihrest =>
    rw [moved, Placed, Placed, ihshown, ihhidden, ihrest, ne_eq, ne_eq, Option.map_eq_none_iff]

end Moved

end Item

/-! ## Trees further down -/

namespace Node

/-- **A tree further down in a template**, by some lines. -/
def moved (lines : Nat) : List Node → List Node
  | [] => []
  | .text s :: rest => .text s :: moved lines rest
  | .variable path raw :: rest => .variable path raw :: moved lines rest
  | .phrase key :: rest => .phrase key :: moved lines rest
  | .loop path body source line :: rest =>
    .loop path (moved lines body) source (line + lines) :: moved lines rest
  | .conditional condition negated shown hidden line :: rest =>
    .conditional condition negated (moved lines shown) (moved lines hidden) (line + lines) ::
      moved lines rest

theorem moved_prepend_text (lines : Nat) (s : String) (ns : List Node) :
    moved lines ((Node.text s).prepend ns) = (Node.text s).prepend (moved lines ns) := by
  cases ns with
  | nil => simp only [prepend, moved]
  | cons n ns =>
    cases n with
    | text s' => rw [prepend, moved, moved, prepend]
    | _ => simp only [prepend, moved]

/-- A token on its own is the same node wherever it stands. -/
theorem moved_prepend_node (lines : Nat) (t : Token) (ns : List Node) :
    moved lines (t.node.prepend ns) = t.node.prepend (moved lines ns) := by
  unfold Token.node
  cases t.lexeme with
  | text s => exact moved_prepend_text lines s ns
  | «variable» path => simp only [prepend, moved]
  | raw path => simp only [prepend, moved]
  | phrase key => simp only [prepend, moved]
  | opening | otherwise | closing => exact moved_prepend_text lines t.source ns

end Node

/-- A stretch of a template is the same stretch when something is put around the template. -/
theorem Token.IsStretch.slice_between {t s : String} {start stop : Nat}
    (h : IsStretch t start stop s) (lead tail : String) :
    Text.slice (start + lead.utf8ByteSize) (stop + lead.utf8ByteSize) (lead ++ t ++ tail).toList =
      s.toList := by
  obtain ⟨before, after, rfl, rfl, rfl⟩ := h
  have hshape : (lead ++ (before ++ s ++ after) ++ tail).toList =
      (lead ++ before).toList ++ s.toList ++ (after ++ tail).toList := by
    simp only [String.toList_append, List.append_assoc]
  have hstart : before.utf8ByteSize + lead.utf8ByteSize =
      Text.byteCount (lead ++ before).toList := by
    rw [Text.byteCount_toList, String.utf8ByteSize_append, Nat.add_comm]
  have hstop : (before ++ s).utf8ByteSize + lead.utf8ByteSize =
      Text.byteCount (lead ++ before).toList + Text.byteCount s.toList := by
    rw [← hstart, Text.byteCount_toList, String.utf8ByteSize_append]
    omega
  rw [hshape, hstart, hstop, Text.slice_append]

namespace Item

theorem nodes_loop (template : List Char) (opening : Token) (body : List Item)
    (border : Option Token) (hidden : List Item) (closing : Token) (rest : List Item) :
    nodes template (.block .each opening body border hidden closing :: rest) =
      .loop opening.argument (nodes template body)
          (String.ofList (Text.slice opening.start closing.stop template)) opening.line ::
        nodes template rest := rfl

/-- **The tree of items further down is their tree, further down.** -/
theorem nodes_moved {t : String} {items : List Item} (hformed : Formed items)
    (hspan : tokens items <:+: Token.ofTemplate t) (lead tail : String) (lines : Nat) :
    nodes (lead ++ t ++ tail).toList (moved lead.utf8ByteSize lines items) =
      Node.moved lines (nodes t.toList items) := by
  induction items using forest_induction with
  | nil => rw [moved, nodes, nodes, Node.moved]
  | token u rest ih =>
    rw [Formed] at hformed
    rw [tokens] at hspan
    rw [moved, nodes, nodes, node, node, Node.moved_prepend_node,
      ih hformed ((List.suffix_cons u _).isInfix.trans hspan)]
    rfl
  | block kind opening shown border hidden closing rest ihshown ihhidden ihrest =>
    rw [Formed] at hformed
    obtain ⟨-, hshown, hhidden, hrest⟩ := hformed
    obtain ⟨hinshown, hinhidden, hinrest⟩ := infix_of_block hspan
    rw [moved]
    by_cases hkind : kind = .each
    · subst hkind
      rw [tokens] at hspan
      have hwhole : opening :: (tokens shown ++ border.toList ++ tokens hidden) ++ [closing] <:+:
          Token.ofTemplate t :=
        List.IsInfix.trans ⟨[], tokens rest, by simp⟩ hspan
      have hslice := (Token.isStretch_slice hwhole).slice_between lead tail
      rw [String.toList_ofList] at hslice
      have hstop : (closing.moved lead.utf8ByteSize lines).stop =
          closing.stop + lead.utf8ByteSize := Nat.add_right_comm _ _ _
      rw [nodes_loop, nodes_loop, Node.moved, ihshown hshown hinshown, ihrest hrest hinrest, hstop,
        ← hslice]
      rfl
    · rw [nodes_block_of_ne hkind, nodes_block_of_ne hkind, Node.moved, ihshown hshown hinshown,
        ihhidden hhidden hinhidden, ihrest hrest hinrest]
      rfl

/-! ## Enclosed items -/

/-- **Items put into a block** around their template. -/
def enclosed (kind : BlockKind) (argument t : String) (items : List Item) : List Item :=
  let opening := Token.opener kind argument
  let lines := Token.lineBreaks argument.toList
  [.block kind opening (moved opening.stop lines items) none []
    (Token.closer kind (opening.stop + t.utf8ByteSize) (lines + Token.lineBreaks t.toList))]

theorem placed_enclosed {kind : BlockKind} {argument t : String} {items : List Item} {p : Place} :
    Placed p (enclosed kind argument t items) ↔ Placed (p.within kind .shown) items := by
  simp [enclosed, Placed, placed_moved]

section Enclosed

variable {kind : BlockKind} {argument t : String} (hargument : Lexeme.Writable argument)
  (ht : Piece.SelfContained t.toList)
include hargument ht

/-- **A derivation of a template is one of the template in a block.** -/
theorem Derivation.enclosed {items : List Item} (h : Derivation (Token.ofTemplate t) items) :
    Derivation (Token.ofTemplate (Template.enclosed kind argument t))
      (Item.enclosed kind argument t items) where
  nested := by
    have hopens : (Token.opener kind argument).opens kind = true := decide_eq_true rfl
    have hbounded : Bounded kind (Token.opener kind argument) none []
        (Token.closer kind ((Token.opener kind argument).stop + t.utf8ByteSize)
          (Token.lineBreaks argument.toList + Token.lineBreaks t.toList)) :=
      ⟨hopens, rfl, nofun, fun _ => rfl, fun _ => rfl⟩
    rw [Item.enclosed, Nested, Nested]
    exact ⟨hbounded, h.nested.moved _ _, trivial, trivial⟩
  tokens_eq := by
    rw [Token.ofTemplate_enclosed kind hargument ht, ← h.tokens_eq, ← tokens_moved]
    simp [Item.enclosed, tokens]

/-- **A template in a block has no mistakes exactly when its derivation is placed as what is in the
block.** -/
theorem ofTemplate_enclosed_iff {items : List Item} (h : Derivation (Token.ofTemplate t) items) :
    Nested (ofTemplate (Template.enclosed kind argument t)) ↔
      Placed (Place.outermost.within kind .shown) items := by
  have hderivation : Derivation (Token.ofTemplate (Template.enclosed kind argument t))
      (Item.enclosed kind argument t items) := h.enclosed hargument ht
  constructor
  · intro hnested
    have hunique : ofTemplate (Template.enclosed kind argument t) =
        Item.enclosed kind argument t items :=
      Derivation.unique ⟨hnested, tokens_ofTemplate _⟩ hderivation
    have hplaced := placed_ofTemplate (Template.enclosed kind argument t)
    rw [hunique] at hplaced
    exact placed_enclosed.1 hplaced
  · intro hplaced
    rw [ofTemplate_of_derivation hderivation (placed_enclosed.2 hplaced)]
    exact hderivation.nested

end Enclosed

/-- **The tree of a template put into a loop** is one loop with the tree of the template in it. -/
theorem nodes_enclosed {t : String} {items : List Item}
    (h : Derivation (Token.ofTemplate t) items) (path : String) :
    nodes (Template.enclosed .each path t).toList (enclosed .each path t items) =
      [.loop (Text.trimmed path)
        (Node.moved (Token.lineBreaks path.toList) (nodes t.toList items))
        (Template.enclosed .each path t) 1] := by
  have hstop : (Token.opener .each path).stop = (Lexeme.opening .each path).display.utf8ByteSize :=
    Nat.zero_add _
  have hspan : tokens items <:+: Token.ofTemplate t := by
    rw [h.tokens_eq]
  have hbody := nodes_moved (nested_iff.1 h.nested).1 hspan
    (Lexeme.opening .each path).display (Lexeme.closing .each).display
    (Token.lineBreaks path.toList)
  have hwhole : Text.slice 0 (Template.enclosed .each path t).utf8ByteSize
      (Template.enclosed .each path t).toList = (Template.enclosed .each path t).toList := by
    have hslice := Text.slice_append [] (Template.enclosed .each path t).toList []
    rwa [Text.byteCount_toList, List.nil_append, List.append_nil, Text.byteCount,
      Nat.zero_add] at hslice
  have hsize : (Token.closer .each ((Token.opener .each path).stop + t.utf8ByteSize)
      (Token.lineBreaks path.toList + Token.lineBreaks t.toList)).stop =
        (Template.enclosed .each path t).utf8ByteSize := by
    rw [Template.enclosed, String.utf8ByteSize_append, String.utf8ByteSize_append, hstop]
    rfl
  rw [enclosed, nodes_loop, hsize, hstop]
  show [Node.loop _ (nodes (Template.enclosed .each path t).toList _)
    (String.ofList (Text.slice 0 _ _)) 1] = _
  rw [hwhole, String.ofList_toList, Template.enclosed, hbody]
  rfl

end Item

/-! ## Templates -/

namespace Template

/-- **A template without mistakes put into a loop.** It stays without mistakes exactly when its
derivation is placed as the body of a loop: every `unless` with an `else` that is in an `if`, also
when a loop of the template is between the two, is behind the `else` of the innermost one. Then the
whole is one loop with the tree of the template in it, as many lines further down as there are line
breaks in the path of the loop. -/
theorem parse_looped {t path : String} (ht : Piece.SelfContained t.toList)
    (hpath : Lexeme.Writable path) (hclean : (parse t).diagnostics = []) :
    ∃ items, Item.Derivation (Token.ofTemplate t) items ∧
      ((parse (enclosed .each path t)).diagnostics = [] ↔
        Item.Placed (Item.Place.outermost.within .each .shown) items) ∧
      ((parse (enclosed .each path t)).diagnostics = [] →
        (parse (enclosed .each path t)).nodes =
          [.loop (Text.trimmed path) (Node.moved (Token.lineBreaks path.toList) (parse t).nodes)
            (enclosed .each path t) 1]) := by
  have hderivation : Item.Derivation (Token.ofTemplate t) (Item.ofTemplate t) :=
    ⟨(Item.diagnostics_eq_nil_iff (Item.formed_ofTemplate t)).1 hclean, Item.tokens_ofTemplate t⟩
  have hclean_iff : (parse (enclosed .each path t)).diagnostics = [] ↔
      Item.Placed (Item.Place.outermost.within .each .shown) (Item.ofTemplate t) :=
    (Item.diagnostics_eq_nil_iff (Item.formed_ofTemplate _)).trans
      (Item.ofTemplate_enclosed_iff hpath ht hderivation)
  refine ⟨Item.ofTemplate t, hderivation, hclean_iff, fun hnil => ?_⟩
  have hitems : Item.ofTemplate (enclosed .each path t) =
      Item.enclosed .each path t (Item.ofTemplate t) :=
    Item.ofTemplate_of_derivation (hderivation.enclosed hpath ht)
      (Item.placed_enclosed.2 (hclean_iff.1 hnil))
  show Item.nodes (enclosed .each path t).toList (Item.ofTemplate (enclosed .each path t)) = _
  rw [hitems, Item.nodes_enclosed hderivation]
  rfl

/-- An `else` of an `unless` behind that of the `if` around it stays its own, also in a loop. -/
theorem parse_looped_behind_else :
    let tag := Lexeme.braced
    let t := tag "#if a" ++ tag "else" ++ tag "#each b" ++ tag "#unless c" ++ "x" ++ tag "else" ++
      "y" ++ tag "/unless" ++ tag "/each" ++ tag "/if"
    (Piece.SelfContained t.toList ∧ Lexeme.Writable "p" ∧ (parse t).diagnostics = []) ∧
      ∃ items, Item.Derivation (Token.ofTemplate t) items ∧
        Item.Placed (Item.Place.outermost.within .each .shown) items ∧
        (parse (enclosed .each "p" t)).nodes =
          [.loop "p" (Node.moved 0 (parse t).nodes) (enclosed .each "p" t) 1] := by
  intro tag t
  have ht : Piece.SelfContained t.toList := by decide +kernel
  have hpath : Lexeme.Writable "p" := by decide
  have hclean : (parse t).diagnostics = [] := by decide +kernel
  have hlooped : (parse (enclosed .each "p" t)).diagnostics = [] := by decide +kernel
  obtain ⟨items, hderivation, hplaced, hnodes⟩ := parse_looped ht hpath hclean
  exact ⟨⟨ht, hpath, hclean⟩, items, hderivation, hplaced.1 hlooped, hnodes hlooped⟩

/-- **A template without mistakes may have some in a loop**: the `else` is that of the `unless` as
long as the loop around that is in no other, and of the `if` around the loop when it is. -/
theorem looped_breaks :
    let tag := Lexeme.braced
    let t := tag "#if a" ++ tag "#each b" ++ tag "#unless c" ++ "x" ++ tag "else" ++ "y" ++
      tag "/unless" ++ tag "/each" ++ tag "/if"
    (Piece.SelfContained t.toList ∧ t.toList.head? ≠ some '}' ∧ Lexeme.Writable "p") ∧
      (parse t).diagnostics = [] ∧ (parse (enclosed .each "p" t)).diagnostics ≠ [] := by
  intro tag t
  exact ⟨by decide +kernel, by decide +kernel, by decide +kernel⟩

end Template

end Storefront
