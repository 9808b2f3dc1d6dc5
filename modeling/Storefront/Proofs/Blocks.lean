import Storefront.Template.Grouping

/-!
# Blocks and their tokens

The items of a template hold its tokens: a token on its own is one, and a block
holds those that open, divide and close it around those of its parts. No stage
of grouping changes what the items hold (`tokens_groupConditionals`,
`tokens_groupLoops`), since all it does is put neighbours into a block, and the
blocks it makes are *formed*: opened, divided and closed by directives of their
own kind (`Formed`).

Both come from one fact about extents. The extent of a block cuts the items
after its opening token into the parts of the block, the tokens between them and
what follows (`Extent.Fits`).
-/

namespace Storefront

namespace Item

/-- **Induction on items**: on the parts of a block and on what follows an item. -/
theorem forest_induction {motive : List Item → Prop} (nil : motive [])
    (token : ∀ t rest, motive rest → motive (.token t :: rest))
    (block : ∀ kind opening shown border hidden closing rest, motive shown → motive hidden →
      motive rest → motive (.block kind opening shown border hidden closing :: rest)) :
    ∀ items, motive items
  | [] => nil
  | .token t :: rest => token t rest (forest_induction nil token block rest)
  | .block kind opening shown border hidden closing :: rest =>
    block kind opening shown border hidden closing rest (forest_induction nil token block shown)
      (forest_induction nil token block hidden) (forest_induction nil token block rest)

/-! ## What items hold -/

/-- **The tokens of items**, in the order in which they stand in the template. -/
def tokens : List Item → List Token
  | [] => []
  | .token t :: rest => t :: tokens rest
  | .block _ opening shown border hidden closing :: rest =>
    opening :: (tokens shown ++ border.toList ++ tokens hidden ++ closing :: tokens rest)

/-- **The tokens that stand on their own** in items, in the order in which they stand in the
template: text, variables and phrases, and block directives without a place. -/
def alone : List Item → List Token
  | [] => []
  | .token t :: rest => t :: alone rest
  | .block _ _ shown _ hidden _ :: rest => alone shown ++ alone hidden ++ alone rest

/-- **A block with borders of its own kind**: it is opened and closed by directives of that kind,
and what divides it is an `else`, which no loop has. -/
structure Bounded (kind : BlockKind) (opening : Token) (border : Option Token)
    (hidden : List Item) (closing : Token) : Prop where
  /-- It is opened by a directive of its kind. -/
  opens : opening.opens kind = true
  /-- It is closed by a directive of its kind. -/
  closes : closing.lexeme = .closing kind
  /-- What divides it is an `else`. -/
  divides : ∀ e ∈ border, e.lexeme = .otherwise
  /-- Nothing divides a loop. -/
  undivided : kind = .each → border = none
  /-- Without an `else` it has no second part. -/
  hidden_eq_nil : border = none → hidden = []

/-- **Items whose blocks all have borders of their own kind.** -/
def Formed : List Item → Prop
  | [] => True
  | .token _ :: rest => Formed rest
  | .block kind opening shown border hidden closing :: rest =>
    Bounded kind opening border hidden closing ∧ Formed shown ∧ Formed hidden ∧ Formed rest

theorem tokens_append (a b : List Item) : tokens (a ++ b) = tokens a ++ tokens b := by
  induction a with
  | nil => rw [tokens, List.nil_append, List.nil_append]
  | cons item a ih =>
    cases item with
    | token t => rw [List.cons_append, tokens, tokens, ih, List.cons_append]
    | block => simp only [List.cons_append, tokens, ih, List.append_assoc]

theorem formed_append (a b : List Item) : Formed (a ++ b) ↔ Formed a ∧ Formed b := by
  induction a with
  | nil => rw [Formed, List.nil_append, true_and]
  | cons item a ih =>
    cases item with
    | token t => rw [List.cons_append, Formed, Formed, ih]
    | block => simp only [List.cons_append, Formed, ih, and_assoc]

theorem tokens_map_token (ts : List Token) : tokens (ts.map .token) = ts := by
  induction ts with
  | nil => rw [List.map_nil, tokens]
  | cons t ts ih => rw [List.map_cons, tokens, ih]

theorem formed_map_token (ts : List Token) : Formed (ts.map .token) := by
  induction ts with
  | nil => rw [List.map_nil, Formed]; trivial
  | cons t ts ih => rw [List.map_cons, Formed]; exact ih

/-- The tokens of the parts of a block, and of what follows it, are stretches of all. -/
theorem infix_of_block {kind : BlockKind} {opening : Token} {shown : List Item}
    {border : Option Token} {hidden : List Item} {closing : Token} {rest : List Item}
    {ts : List Token}
    (h : tokens (.block kind opening shown border hidden closing :: rest) <:+: ts) :
    tokens shown <:+: ts ∧ tokens hidden <:+: ts ∧ tokens rest <:+: ts := by
  rw [tokens] at h
  refine ⟨List.IsInfix.trans ⟨[opening], border.toList ++ tokens hidden ++ closing :: tokens rest,
    ?_⟩ h, List.IsInfix.trans ⟨opening :: tokens shown ++ border.toList, closing :: tokens rest,
    ?_⟩ h, List.IsInfix.trans ⟨opening :: tokens shown ++ border.toList ++ tokens hidden ++
      [closing], [], ?_⟩ h⟩
  · simp
  · simp
  · simp

/-! ## Where extents cut -/

namespace Extent

/-- The `else` of an extent as items. -/
def divider (e : Extent) : List Item := (e.border.map Prod.snd).toList.map .token

/-- **An extent that fits the items after an opening token**: it cuts them into the parts of a
block with its `else` between them, its closing token, and what follows. -/
structure Fits (kind : BlockKind) (e : Extent) (items : List Item) : Prop where
  /-- The block ends at a closing token, behind which come the items after it. -/
  items_eq : items = e.inside items ++ .token e.closing :: e.after items
  /-- The parts of the block with what divides them are its inside. -/
  inside_eq : e.inside items = e.shown items ++ e.divider ++ e.hidden items
  /-- The closing token is of the block's kind. -/
  closes : e.closing.lexeme = .closing kind
  /-- What divides the block is an `else`. -/
  divides : ∀ b ∈ e.border.map Prod.snd, b.lexeme = .otherwise
  /-- Nothing divides a loop. -/
  undivided : kind = .each → e.border = none

variable {kind : BlockKind} {e : Extent} {rest : List Item}

theorem inside_later (e : Extent) (item : Item) (rest : List Item) :
    (e.later 1).inside (item :: rest) = item :: e.inside rest := rfl

theorem shown_later (e : Extent) (item : Item) (rest : List Item) :
    (e.later 1).shown (item :: rest) = item :: e.shown rest := by
  unfold shown later
  cases e.border with
  | none => rfl
  | some b => rfl

theorem hidden_later (e : Extent) (item : Item) (rest : List Item) :
    (e.later 1).hidden (item :: rest) = e.hidden rest := by
  unfold hidden later
  cases e.border with
  | none => rfl
  | some b => rfl

theorem divider_later (e : Extent) (n : Nat) : (e.later n).divider = e.divider := by
  unfold divider later
  cases e.border with
  | none => rfl
  | some b => rfl

theorem Fits.later (h : e.Fits kind rest) (item : Item) : (e.later 1).Fits kind (item :: rest) where
  items_eq := congrArg (item :: ·) h.items_eq
  inside_eq := by
    rw [inside_later, shown_later, hidden_later, divider_later, h.inside_eq]
    rfl
  closes := h.closes
  divides := by
    intro b hb
    rw [Extent.later, Option.map_map] at hb
    exact h.divides b hb
  undivided hkind := by
    rw [Extent.later, h.undivided hkind]
    rfl

theorem Fits.fromElse (h : e.Fits kind rest) {t : Token} (ht : t.lexeme = .otherwise)
    (hkind : kind ≠ .each) : (e.fromElse t).Fits kind (.token t :: rest) where
  items_eq := congrArg (Item.token t :: ·) h.items_eq
  inside_eq := rfl
  closes := h.closes
  divides b hb := by
    obtain rfl : t = b := Option.some.inj hb
    exact ht
  undivided heach := absurd heach hkind

end Extent

theorem fits_of_extent? {kind : BlockKind} {deeper : Nat} {items : List Item} {e : Extent}
    (h : extent? kind deeper items = some e) : e.Fits kind items := by
  induction items generalizing deeper e with
  | nil => rw [extent?] at h; cases h
  | cons item rest ih =>
    have hlater : ∀ {d : Nat}, (extent? kind d rest).map (Extent.later 1) = some e →
        e.Fits kind (item :: rest) := by
      intro d hmap
      obtain ⟨e', he', rfl⟩ := Option.map_eq_some_iff.1 hmap
      exact (ih he').later item
    cases item with
    | token t =>
      unfold extent? at h
      split at h
      · exact hlater h
      · split at h
        · rename_i hclose
          split at h
          · -- the extent ends here, with nothing in it
            cases h
            exact ⟨rfl, rfl, hclose, nofun, fun _ => rfl⟩
          · exact hlater h
        · split at h
          · rename_i helse
            obtain ⟨e', he', rfl⟩ := Option.map_eq_some_iff.1 h
            exact (ih he').fromElse helse.1 helse.2.1
          · exact hlater h
    | block =>
      rw [extent?] at h
      exact hlater h

/-- A token that opens a block opens one of the stage's kind, and its extent fits. -/
theorem of_extentFrom? {kind : BlockKind} {t : Token} {rest : List Item} {e : Extent}
    (h : extentFrom? kind t rest = some e) : t.opens kind = true ∧ e.Fits kind rest := by
  unfold extentFrom? at h
  split at h
  · rename_i hopens
    exact ⟨hopens, fits_of_extent? h⟩
  · cases h

theorem Extent.Fits.bounded {kind : BlockKind} {e : Extent} {rest : List Item}
    (h : e.Fits kind rest) {t : Token} (ht : t.opens kind = true) (hidden : List Item)
    (hhidden : e.hidden rest = [] → hidden = []) :
    Bounded kind t (e.border.map Prod.snd) hidden e.closing where
  opens := ht
  closes := h.closes
  divides := h.divides
  undivided hkind := by rw [h.undivided hkind]; rfl
  hidden_eq_nil hnone := by
    refine hhidden ?_
    rw [Extent.hidden, Option.map_eq_none_iff.1 hnone]

/-! ## What a stage keeps -/

section Fits

variable {kind : BlockKind} {e : Extent} {rest : List Item} (h : e.Fits kind rest)
include h

theorem Extent.Fits.tokens_eq :
    tokens rest = tokens (e.shown rest) ++ (e.border.map Prod.snd).toList ++
      tokens (e.hidden rest) ++ e.closing :: tokens (e.after rest) := by
  have hinside : tokens (e.inside rest) =
      tokens (e.shown rest) ++ (e.border.map Prod.snd).toList ++ tokens (e.hidden rest) := by
    rw [h.inside_eq, tokens_append, tokens_append, Extent.divider, tokens_map_token]
  rw [← hinside]
  conv => lhs; rw [h.items_eq, tokens_append, tokens]

theorem Extent.Fits.inside_eq_shown (hkind : kind = .each) : e.inside rest = e.shown rest := by
  rw [Extent.shown, h.undivided hkind]

theorem Extent.Fits.formed (hrest : Formed rest) :
    Formed (e.shown rest) ∧ Formed (e.hidden rest) ∧ Formed (e.after rest) := by
  rw [h.items_eq, formed_append, h.inside_eq, formed_append, formed_append, Formed] at hrest
  exact ⟨hrest.1.1.1, hrest.1.2, hrest.2⟩

end Fits

/-- **A stage for conditionals keeps all tokens**, in order. -/
theorem tokens_groupConditionals (kind : BlockKind) (items : List Item) :
    tokens (groupConditionals kind items) = tokens items := by
  fun_induction groupConditionals kind items with
  | case1 => rfl
  | case2 t rest _ ih => rw [tokens, tokens, ih]
  | case3 t rest e he ihshown ihhidden ihafter =>
    obtain ⟨-, hfits⟩ := of_extentFrom? he
    rw [tokens, tokens, ihshown, ihhidden, ihafter, hfits.tokens_eq]
  | case4 opening body border hidden closing rest ih => rw [tokens, tokens, ih]
  | case5 k opening shown border hidden closing rest hk ihshown ihhidden ihrest =>
    rw [tokens, tokens, ihshown, ihhidden, ihrest]

/-- **A stage for conditionals forms blocks.** -/
theorem formed_groupConditionals {kind : BlockKind} {items : List Item} (h : Formed items) :
    Formed (groupConditionals kind items) := by
  fun_induction groupConditionals kind items with
  | case1 => exact h
  | case2 t rest _ ih =>
    rw [Formed] at h ⊢
    exact ih h
  | case3 t rest e he ihshown ihhidden ihafter =>
    simp only [Formed] at h ⊢
    obtain ⟨hopens, hfits⟩ := of_extentFrom? he
    obtain ⟨hshown, hhidden, hafter⟩ := hfits.formed h
    have hbounded := hfits.bounded hopens (groupConditionals kind (e.hidden rest)) fun hnil => by
      rw [hnil, groupConditionals]
    exact ⟨hbounded, ihshown hshown, ihhidden hhidden, ihafter hafter⟩
  | case4 opening body border hidden closing rest ih =>
    rw [Formed] at h ⊢
    exact ⟨h.1, h.2.1, h.2.2.1, ih h.2.2.2⟩
  | case5 k opening shown border hidden closing rest hk ihshown ihhidden ihrest =>
    rw [Formed] at h ⊢
    obtain ⟨hbounded, hshown, hhidden, hrest⟩ := h
    refine ⟨{ hbounded with hidden_eq_nil := fun hnone => ?_ }, ihshown hshown, ihhidden hhidden,
      ihrest hrest⟩
    rw [hbounded.hidden_eq_nil hnone, groupConditionals]

/-- **The stage for loops keeps all tokens**, in order. -/
theorem tokens_groupLoops (items : List Item) : tokens (groupLoops items) = tokens items := by
  fun_induction groupLoops items with
  | case1 => rfl
  | case2 t rest _ ih => rw [tokens, tokens, ih]
  | case3 t rest e he ihbody ihafter =>
    obtain ⟨-, hfits⟩ := of_extentFrom? he
    rw [tokens, tokens, ihbody, tokens_groupConditionals, tokens_groupConditionals, ihafter,
      hfits.tokens_eq, hfits.inside_eq_shown rfl, Extent.hidden, hfits.undivided rfl]
    rfl
  | case4 opening body border hidden closing rest ih => rw [tokens, tokens, ih]
  | case5 k opening shown border hidden closing rest hk ihshown ihhidden ihrest =>
    rw [tokens, tokens, ihshown, ihhidden, ihrest]

/-- **The stage for loops forms blocks.** -/
theorem formed_groupLoops {items : List Item} (h : Formed items) : Formed (groupLoops items) := by
  fun_induction groupLoops items with
  | case1 => exact h
  | case2 t rest _ ih =>
    rw [Formed] at h ⊢
    exact ih h
  | case3 t rest e he ihbody ihafter =>
    simp only [Formed] at h ⊢
    obtain ⟨hopens, hfits⟩ := of_extentFrom? he
    obtain ⟨hshown, -, hafter⟩ := hfits.formed h
    have hbounded := hfits.bounded hopens [] fun _ => rfl
    rw [hfits.undivided rfl] at hbounded
    rw [hfits.inside_eq_shown rfl] at ihbody ⊢
    exact ⟨hbounded, ihbody (formed_groupConditionals (formed_groupConditionals hshown)), trivial,
      ihafter hafter⟩
  | case4 opening body border hidden closing rest ih =>
    rw [Formed] at h ⊢
    exact ⟨h.1, h.2.1, h.2.2.1, ih h.2.2.2⟩
  | case5 k opening shown border hidden closing rest hk ihshown ihhidden ihrest =>
    rw [Formed] at h ⊢
    obtain ⟨hbounded, hshown, hhidden, hrest⟩ := h
    refine ⟨{ hbounded with hidden_eq_nil := fun hnone => ?_ }, ihshown hshown, ihhidden hhidden,
      ihrest hrest⟩
    rw [hbounded.hidden_eq_nil hnone, groupLoops]

/-- The items of a template hold its tokens. -/
theorem tokens_ofTemplate (template : String) :
    tokens (ofTemplate template) = Token.ofTemplate template := by
  rw [ofTemplate, tokens_groupConditionals, tokens_groupConditionals, tokens_groupLoops,
    tokens_map_token]

theorem infix_ofTemplate (template : String) :
    tokens (ofTemplate template) <:+: Token.ofTemplate template :=
  ⟨[], [], by rw [tokens_ofTemplate, List.nil_append, List.append_nil]⟩

/-- The blocks of a template have borders of their own kind. -/
theorem formed_ofTemplate (template : String) : Formed (ofTemplate template) :=
  formed_groupConditionals (formed_groupConditionals (formed_groupLoops (formed_map_token _)))

end Item

end Storefront
