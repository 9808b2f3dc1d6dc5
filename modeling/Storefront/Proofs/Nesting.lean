import Storefront.Proofs.Conservation

/-!
# The grammar of blocks

In a template without mistakes each block directive is a border of a block of
its own kind. Items that say so are a *derivation* of the tokens they hold
(`Item.Derivation`), and there is at most one: from the left, a token either is
no block directive, or opens a block, or ends what it stands in
(`Item.tokens_cancel`).

A derivation alone does not make the stages of grouping find it. Those for `if`
come before those for `unless`, and an `else` goes to the first stage that finds
it on its own level, so the `else` of an `unless` is lost to an `if` around it
that has not met its own. Where this happens depends on the place of the
`unless`: a loop outside of all others is grouped before all `if`s, so nothing
outside of it counts inside, while the loops in it come after them, so for these
it does (`Place.within`). The derivations that can be found are those whose
blocks are all *placed* (`Item.Placed`).
-/

namespace Storefront

namespace Item

/-! ## Derivations -/

/-- **Properly nested items**: every block directive is a border of a block of its kind, loops
have no `else`, and a conditional has at most one. -/
def Nested : List Item → Prop
  | [] => True
  | .token t :: rest => t.isBlock = false ∧ Nested rest
  | .block kind opening shown border hidden closing :: rest =>
    Bounded kind opening border hidden closing ∧ Nested shown ∧ Nested hidden ∧ Nested rest

/-- **A derivation of tokens** in the grammar of blocks. -/
structure Derivation (ts : List Token) (items : List Item) : Prop where
  /-- Every block directive has its place. -/
  nested : Nested items
  /-- The items hold the tokens. -/
  tokens_eq : tokens items = ts

/-- Formed items are properly nested when no block directive stands alone. -/
theorem nested_iff {items : List Item} : Nested items ↔ Formed items ∧ strays items = [] := by
  induction items using forest_induction with
  | nil =>
    rw [Nested, Formed, strays, alone, List.filter_nil]
    exact ⟨fun _ => ⟨trivial, rfl⟩, fun _ => trivial⟩
  | token t rest ih =>
    rw [Nested, Formed, ih, strays, strays, alone]
    cases ht : t.isBlock with
    | false =>
      rw [List.filter_cons_of_neg (by rw [ht]; exact Bool.false_ne_true)]
      exact ⟨fun h => h.2, fun h => ⟨rfl, h⟩⟩
    | true =>
      rw [List.filter_cons_of_pos ht]
      exact ⟨fun h => absurd h.1 (by decide), fun h => absurd h.2 (List.cons_ne_nil _ _)⟩
  | block kind opening shown border hidden closing rest ihshown ihhidden ihrest =>
    rw [Nested, Formed, ihshown, ihhidden, ihrest, strays_block, List.append_eq_nil_iff,
      List.append_eq_nil_iff]
    constructor
    · rintro ⟨hbounded, ⟨h₁, h₁'⟩, ⟨h₂, h₂'⟩, h₃, h₃'⟩
      exact ⟨⟨hbounded, h₁, h₂, h₃⟩, ⟨h₁', h₂'⟩, h₃'⟩
    · rintro ⟨⟨hbounded, h₁, h₂, h₃⟩, ⟨h₁', h₂'⟩, h₃'⟩
      exact ⟨hbounded, ⟨h₁, h₁'⟩, ⟨h₂, h₂'⟩, h₃, h₃'⟩

/-- **What may come after a part of a block**, or after everything: no token, or one that divides
or closes. -/
def Stops (ts : List Token) : Prop :=
  ∀ t ∈ ts.head?, t.lexeme = .otherwise ∨ ∃ kind, t.lexeme = .closing kind

theorem stops_nil : Stops [] := nofun

theorem stops_closing {t : Token} {kind : BlockKind} (h : t.lexeme = .closing kind)
    (ts : List Token) : Stops (t :: ts) := by
  rintro u ⟨⟩
  exact .inr ⟨kind, h⟩

theorem stops_otherwise {t : Token} (h : t.lexeme = .otherwise) (ts : List Token) :
    Stops (t :: ts) := by
  rintro u ⟨⟩
  exact .inl h

/-- What is left of a block after its shown part stops that part. -/
theorem Bounded.stops {kind : BlockKind} {opening : Token} {border : Option Token}
    {hidden : List Item} {closing : Token} (h : Bounded kind opening border hidden closing)
    (ts : List Token) :
    Stops (border.toList ++ (tokens hidden ++ closing :: ts)) := by
  cases border with
  | none =>
    rw [h.hidden_eq_nil rfl, tokens]
    exact stops_closing h.closes ts
  | some t => exact stops_otherwise (h.divides t rfl) _

/-- Blocks of one kind that go on alike after their shown parts have the same `else`. -/
theorem Bounded.border_cancel {kind : BlockKind} {opening opening' : Token}
    {border border' : Option Token} {hidden hidden' : List Item} {closing closing' : Token}
    (h : Bounded kind opening border hidden closing)
    (h' : Bounded kind opening' border' hidden' closing') {ts ts' : List Token}
    (heq : border.toList ++ (tokens hidden ++ closing :: ts) =
      border'.toList ++ (tokens hidden' ++ closing' :: ts')) :
    border = border' ∧ tokens hidden ++ closing :: ts = tokens hidden' ++ closing' :: ts' := by
  cases border with
  | none =>
    cases border' with
    | none => exact ⟨rfl, heq⟩
    | some t =>
      rw [h.hidden_eq_nil rfl, tokens] at heq
      obtain ⟨rfl, -⟩ := List.cons.inj heq
      cases h.closes.symm.trans (h'.divides _ rfl)
  | some t =>
    cases border' with
    | none =>
      rw [h'.hidden_eq_nil rfl, tokens] at heq
      obtain ⟨rfl, -⟩ := List.cons.inj heq
      cases h'.closes.symm.trans (h.divides _ rfl)
    | some t' =>
      obtain ⟨rfl, hrest⟩ := List.cons.inj heq
      exact ⟨rfl, hrest⟩

/-- A token that stops something is a block directive, and opens nothing. -/
theorem Stops.isBlock_head {t : Token} {ts : List Token} (h : Stops (t :: ts)) :
    t.isBlock = true ∧ ∀ kind, t.opens kind = false := by
  unfold Token.isBlock Token.opens
  obtain hstop | ⟨k, hstop⟩ := h t rfl
  · rw [hstop]
    exact ⟨rfl, fun _ => rfl⟩
  · rw [hstop]
    exact ⟨rfl, fun _ => rfl⟩

/-- No properly nested items begin with what stops them. -/
theorem eq_nil_of_stops {items : List Item} (h : Nested items) {ts : List Token}
    (hstops : Stops (tokens items ++ ts)) : items = [] := by
  cases items with
  | nil => rfl
  | cons item rest =>
    exfalso
    rw [Nested.eq_def] at h
    cases item with
    | token t =>
      rw [tokens] at hstops
      exact Bool.false_ne_true (h.1.symm.trans hstops.isBlock_head.1)
    | block kind opening shown border hidden closing =>
      rw [tokens] at hstops
      exact Bool.false_ne_true ((hstops.isBlock_head.2 kind).symm.trans h.1.opens)

/-- **Properly nested items can be read off their tokens**, whatever comes after them that stops
them. -/
theorem tokens_cancel {a b : List Item} (ha : Nested a) (hb : Nested b) {r s : List Token}
    (hr : Stops r) (hs : Stops s) (h : tokens a ++ r = tokens b ++ s) : a = b ∧ r = s := by
  induction a using forest_induction generalizing b r s with
  | nil =>
    rw [tokens, List.nil_append] at h
    obtain rfl := eq_nil_of_stops hb (h ▸ hr)
    rw [tokens, List.nil_append] at h
    exact ⟨rfl, h⟩
  | token t rest ih =>
    cases b with
    | nil =>
      rw [tokens, tokens, List.nil_append] at h
      exact absurd (eq_nil_of_stops ha (by rw [tokens, h]; exact hs)) (List.cons_ne_nil _ _)
    | cons item b =>
      rw [Nested] at ha
      cases item with
      | token u =>
        rw [tokens, tokens] at h
        rw [Nested] at hb
        obtain ⟨rfl, hmore⟩ := List.cons.inj h
        obtain ⟨rfl, hrs⟩ := ih ha.2 hb.2 hr hs hmore
        exact ⟨rfl, hrs⟩
      | block =>
        rw [tokens, tokens] at h
        rw [Nested] at hb
        obtain ⟨rfl, -⟩ := List.cons.inj h
        rw [Token.isBlock_of_opens hb.1.opens] at ha
        exact absurd ha.1 (by decide)
  | block kind opening shown border hidden closing rest ihshown ihhidden ihrest =>
    cases b with
    | nil =>
      rw [tokens, tokens, List.nil_append] at h
      exact absurd (eq_nil_of_stops ha (by rw [tokens, h]; exact hs)) (List.cons_ne_nil _ _)
    | cons item b =>
      rw [Nested] at ha
      obtain ⟨hbounded, hshown, hhidden, hrest⟩ := ha
      cases item with
      | token u =>
        rw [tokens, tokens] at h
        rw [Nested] at hb
        obtain ⟨rfl, -⟩ := List.cons.inj h
        rw [Token.isBlock_of_opens hbounded.opens] at hb
        exact absurd hb.1 (by decide)
      | block kind' opening' shown' border' hidden' closing' =>
        rw [Nested] at hb
        obtain ⟨hbounded', hshown', hhidden', hrest'⟩ := hb
        simp only [tokens, List.append_assoc, List.cons_append] at h
        obtain ⟨rfl, hafter⟩ := List.cons.inj h
        have hopens := Token.lexeme_of_opens hbounded.opens
        rw [Token.lexeme_of_opens hbounded'.opens] at hopens
        obtain ⟨rfl, -⟩ := Lexeme.opening.inj hopens
        -- the parts end where something stops them, so they are the same one after the other
        obtain ⟨rfl, hafter'⟩ :=
          ihshown hshown hshown' (hbounded.stops _) (hbounded'.stops _) hafter
        obtain ⟨rfl, hafter''⟩ := hbounded.border_cancel hbounded' hafter'
        obtain ⟨rfl, hclosing⟩ := ihhidden hhidden hhidden' (stops_closing hbounded.closes _)
          (stops_closing hbounded'.closes _) hafter''
        obtain ⟨rfl, hmore⟩ := List.cons.inj hclosing
        obtain ⟨rfl, hrs⟩ := ihrest hrest hrest' hr hs hmore
        exact ⟨rfl, hrs⟩

/-- **Tokens have at most one derivation.** -/
theorem Derivation.unique {ts : List Token} {a b : List Item} (ha : Derivation ts a)
    (hb : Derivation ts b) : a = b := by
  refine (tokens_cancel ha.nested hb.nested stops_nil stops_nil ?_).1
  rw [ha.tokens_eq, hb.tokens_eq]

/-! ## A tree that is a derivation -/

/-- A token on its own that is no variable, no phrase and no block directive is text. -/
theorem isText_of_leaf?_of_isBlock {t : Token} (hleaf : t.leaf? = none)
    (hblock : t.isBlock = false) : t.lexeme.isText = true := by
  unfold Token.leaf? at hleaf
  unfold Token.isBlock at hblock
  cases ht : t.lexeme with
  | text => rfl
  | «variable» | raw | phrase => rw [ht] at hleaf; cases hleaf
  | opening | otherwise | closing => rw [ht] at hblock; cases hblock

/-- A tree begins with text only when the first of the properly nested items that it shows is
text. -/
theorem Shows.exists_text {template : String} {items : List Item} {ns : List Node}
    (h : Shows template Node.prepend items ns) (hnested : Nested items)
    (htext : Node.startsWithText ns = true) :
    ∃ t rest, items = .token t :: rest ∧ t.lexeme.isText = true := by
  cases h with
  | nil => cases htext
  | leaf hleaf =>
    obtain ⟨-, ⟨_, _, rfl⟩ | ⟨_, rfl⟩⟩ := Token.node_of_leaf? hleaf <;> cases htext
  | @words t rest _ hleaf =>
    rw [Nested] at hnested
    exact ⟨t, rest, rfl, isText_of_leaf?_of_isBlock hleaf hnested.1⟩
  | loop => cases htext
  | conditional => cases htext

/-- **Where every block directive has its place, a tree shows items without merging text**, since
no two texts are neighbours. -/
theorem Shows.exact {template : String} {items : List Item} {ns : List Node}
    (h : Shows template Node.prepend items ns) (hnested : Nested items)
    (hspan : tokens items <:+: Token.ofTemplate template) : Shows template List.cons items ns := by
  induction h with
  | nil => exact .nil
  | leaf hleaf _ ih =>
    rw [Nested] at hnested
    rw [tokens] at hspan
    exact .leaf hleaf (ih hnested.2 ((List.suffix_cons _ _).isInfix.trans hspan))
  | @words t rest ns hleaf hrest ih =>
    rw [Nested] at hnested
    rw [tokens] at hspan
    -- were the tree to go on with text, two neighbouring tokens would be text
    have hfalse : Node.startsWithText ns = false := by
      refine Bool.eq_false_iff.2 fun htext => ?_
      obtain ⟨u, more, rfl, hu⟩ := hrest.exists_text hnested.2 htext
      rw [tokens] at hspan
      have hchain := List.IsChain.infix (Token.isChain_ofTemplate template) hspan
      obtain ht | hu' := (List.isChain_cons_cons.1 hchain).1
      · exact Bool.false_ne_true (ht.symm.trans (isText_of_leaf?_of_isBlock hleaf hnested.1))
      · exact Bool.false_ne_true (hu'.symm.trans hu)
    rw [Node.prepend_of_startsWithText_eq_false hfalse]
    exact .words hleaf (ih hnested.2 ((List.suffix_cons t _).isInfix.trans hspan))
  | loop hpath hsource _ _ ihbody ihrest =>
    rw [Nested] at hnested
    obtain ⟨-, hbody, -, hrest⟩ := hnested
    obtain ⟨hinbody, -, hinrest⟩ := infix_of_block hspan
    exact .loop hpath hsource (ihbody hbody hinbody) (ihrest hrest hinrest)
  | conditional hkind hcondition _ _ _ ihshown ihhidden ihrest =>
    rw [Nested] at hnested
    obtain ⟨-, hshown, hhidden, hrest⟩ := hnested
    obtain ⟨hinshown, hinhidden, hinrest⟩ := infix_of_block hspan
    exact .conditional hkind hcondition (ihshown hshown hinshown) (ihhidden hhidden hinhidden)
      (ihrest hrest hinrest)

/-! ## Places -/

/-- **A branch of a conditional.** -/
inductive Branch where
  /-- What is shown when the condition holds: the part before the `else`. -/
  | shown
  /-- What is shown when it does not hold: the part after the `else`. -/
  | hidden
  deriving DecidableEq

/-- **A place in the blocks of a template.** All of its text outside of loops is one region, and
the whole inside of a loop that is in no other is one, with the loops in it. -/
structure Place where
  /-- Whether it is inside a loop. -/
  inLoop : Bool
  /-- Which branch it is in of the innermost `if` around it that is in its region. -/
  branch? : Option Branch

namespace Place

/-- The place outside of all blocks. -/
def outermost : Place := ⟨false, none⟩

/-- **The place within a block**: a loop outside of all others begins a region. -/
def within (p : Place) (kind : BlockKind) (branch : Branch) : Place :=
  match kind with
  | .each => ⟨true, if p.inLoop then p.branch? else none⟩
  | .ifTrue => ⟨p.inLoop, some branch⟩
  | .unlessTrue => p

theorem within_each {p : Place} (h : p.inLoop = true) (branch : Branch) :
    p.within .each branch = p := by
  obtain ⟨inLoop, branch?⟩ := p
  cases h
  rfl

/-- No block leads out of a loop. -/
theorem inLoop_within {p : Place} (h : p.inLoop = true) (kind : BlockKind) (branch : Branch) :
    (p.within kind branch).inLoop = true := by
  cases kind with
  | each => rfl
  | ifTrue => exact h
  | unlessTrue => exact h

/-- Conditionals do not lead into loops. -/
theorem inLoop_within_of_ne {kind : BlockKind} (h : kind ≠ .each) (p : Place) (branch : Branch) :
    (p.within kind branch).inLoop = p.inLoop := by
  cases kind with
  | each => exact absurd rfl h
  | ifTrue => rfl
  | unlessTrue => rfl

end Place

/-- **Items placed so that no `if` takes the `else` of an `unless`**: an `unless` with an `else`
that is in an `if` of its region is behind the `else` of the innermost one. An `else` that stands
alone is under the same condition. -/
def Placed (p : Place) : List Item → Prop
  | [] => True
  | .token t :: rest => (t.lexeme = .otherwise → p.branch? ≠ some .shown) ∧ Placed p rest
  | .block kind _ shown border hidden _ :: rest =>
    (kind = .unlessTrue → border ≠ none → p.branch? ≠ some .shown) ∧
      Placed (p.within kind .shown) shown ∧ Placed (p.within kind .hidden) hidden ∧ Placed p rest

end Item

end Storefront
