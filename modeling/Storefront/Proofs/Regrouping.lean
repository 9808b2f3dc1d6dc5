import Storefront.Proofs.Spreading

/-!
# Every placed derivation is found

A derivation that is placed is what grouping makes of its tokens
(`Item.ofTemplate_of_derivation`). Each stage has before it the derivation with
some kinds of blocks grouped and groups one kind more
(`Item.makes_groupConditionals`, `Item.makes_groupLoops`). It does so whatever
comes after (`Item.Makes`), since every block ends before that, so its work can
be followed item by item: it keeps what is of no interest to it, works on the
parts of a block that is grouped, leaves a block of another kind apart, and
finds one of its own.

With this, a template has no complaints exactly when its tokens have a placed
derivation, and then the tree is that derivation (`Template.parse_clean`).
-/

namespace Storefront

namespace Item

/-! ## What a stage makes of items -/

/-- **A stage makes items of others**, whatever comes after them. -/
def Makes (stage : List Item → List Item) (a b : List Item) : Prop :=
  ∀ after, stage (a ++ after) = b ++ stage after

section Makes

variable {stage : List Item → List Item}

theorem makes_nil : Makes stage [] [] := fun _ => rfl

theorem Makes.append {a a' b b' : List Item} (ha : Makes stage a a') (hb : Makes stage b b') :
    Makes stage (a ++ b) (a' ++ b') := by
  intro after
  rw [List.append_assoc, ha, hb, List.append_assoc]

/-- What a stage makes of items when nothing comes after them. -/
theorem Makes.eq {a b : List Item} (h : Makes stage a b) (hnil : stage [] = []) : stage a = b := by
  have hafter := h []
  rwa [hnil, List.append_nil, List.append_nil] at hafter

variable {kind : BlockKind}
  (hkeeps : ∀ t : Token, t.opens kind = false → Makes stage [.token t] [.token t])
include hkeeps

/-- An `else` is kept by every stage. -/
theorem makes_border {border : Option Token} (h : ∀ t ∈ border, t.lexeme = .otherwise) :
    Makes stage (border.toList.map .token) (border.toList.map .token) := by
  cases border with
  | none => exact makes_nil
  | some t => exact hkeeps t (Token.opens_of_otherwise (h t rfl) kind)

/-- **A block of another kind stays apart**, with what a stage makes of its parts. -/
theorem makes_apart {k : BlockKind} (hk : k ≠ kind) {opening : Token} {border : Option Token}
    {hidden₀ : List Item} {closing : Token} (hbounded : Bounded k opening border hidden₀ closing)
    {shown shown' hidden hidden' : List Item} (hshown : Makes stage shown shown')
    (hhidden : Makes stage hidden hidden') :
    Makes stage
      ([.token opening] ++ (shown ++ border.toList.map .token ++ hidden) ++ [.token closing])
      ([.token opening] ++ (shown' ++ border.toList.map .token ++ hidden') ++
        [.token closing]) := by
  have hopening := hkeeps opening (Token.opens_of_opens hbounded.opens hk)
  have hclosing := hkeeps closing (Token.opens_of_closing hbounded.closes kind)
  have hborder := makes_border hkeeps hbounded.divides
  exact (hopening.append ((hshown.append hborder).append hhidden)).append hclosing

end Makes

/-! ## The stages for conditionals -/

section Conditionals

variable {kind : BlockKind}

theorem groupConditionals_nil : groupConditionals kind [] = [] := by
  rw [groupConditionals]

theorem groupConditionals_keeps (t : Token) (h : t.opens kind = false) :
    Makes (groupConditionals kind) [.token t] [.token t] := by
  intro after
  rw [List.singleton_append, groupConditionals, extentFrom?_of_opens_eq_false h]
  rfl

/-- A loop is settled when it gets to these stages. -/
theorem groupConditionals_loop (opening : Token) (body : List Item) (border : Option Token)
    (hidden : List Item) (closing : Token) :
    Makes (groupConditionals kind) [.block .each opening body border hidden closing]
      [.block .each opening body border hidden closing] := by
  intro after
  rw [List.singleton_append, groupConditionals]
  rfl

theorem groupConditionals_block {k : BlockKind} (hk : k ≠ .each) (opening : Token)
    (shown : List Item) (border : Option Token) (hidden : List Item) (closing : Token) :
    Makes (groupConditionals kind) [.block k opening shown border hidden closing]
      [.block k opening (groupConditionals kind shown) border (groupConditionals kind hidden)
        closing] := by
  intro after
  rw [List.singleton_append, groupConditionals]
  · rfl
  · exact hk

/-- **A block of the kind is found.** -/
theorem groupConditionals_found {grouped : List BlockKind} {opening : Token} {shown : List Item}
    {border : Option Token} {hidden : List Item} {closing : Token}
    (hbounded : Bounded kind opening border hidden closing) (hshown : Nested shown)
    (hhidden : Nested hidden) (hquiet : Quiet kind grouped shown) :
    Makes (groupConditionals kind)
      ([.token opening] ++ (spread grouped shown ++ border.toList.map .token ++
        spread grouped hidden) ++ [.token closing])
      [.block kind opening (groupConditionals kind (spread grouped shown)) border
        (groupConditionals kind (spread grouped hidden)) closing] := by
  intro after
  have hnil : border = none → spread grouped hidden = [] := fun hnone => by
    rw [hbounded.hidden_eq_nil hnone, spread]
  rw [List.append_assoc, List.append_assoc, List.singleton_append, List.singleton_append,
    groupConditionals, extentFrom?_spread hbounded hshown hhidden (fun _ => hquiet) after]
  show _ :: _ = _
  rw [Extent.shown_ofParts _ _ _ _ _ hnil, Extent.hidden_ofParts _ _ _ _ _ hnil,
    Extent.after_ofParts, Extent.border_ofParts]
  rfl

end Conditionals

/-- **A stage for conditionals groups one kind more.** -/
theorem makes_groupConditionals {kind : BlockKind} (hkind : kind ≠ .each)
    (grouped : List BlockKind) (hif : kind = .ifTrue ∨ .ifTrue ∈ grouped) {p : Place}
    {items : List Item} (hnested : Nested items) (hplaced : Placed p items)
    (hloop : .each ∈ grouped ∨ p.inLoop = true) :
    Makes (groupConditionals kind) (spread grouped items) (spread (kind :: grouped) items) := by
  induction items using forest_induction generalizing p with
  | nil =>
    rw [spread, spread]
    exact makes_nil
  | token t rest ih =>
    rw [Nested] at hnested
    rw [Placed] at hplaced
    rw [spread, spread, spreadOut, spreadOut]
    exact (groupConditionals_keeps t (Token.opens_of_isBlock_eq_false hnested.1 kind)).append
      (ih hnested.2 hplaced.2 hloop)
  | block k opening shown border hidden closing rest ihshown ihhidden ihrest =>
    rw [Nested] at hnested
    rw [Placed] at hplaced
    obtain ⟨hbounded, hshown, hhidden, hrest⟩ := hnested
    obtain ⟨-, hplaceshown, hplacehidden, hplacerest⟩ := hplaced
    have hmakeshown := ihshown hshown hplaceshown
      (hloop.imp_right fun hin => Place.inLoop_within hin k .shown)
    have hmakehidden := ihhidden hhidden hplacehidden
      (hloop.imp_right fun hin => Place.inLoop_within hin k .hidden)
    rw [spread, spread]
    refine Makes.append ?_ (ihrest hrest hplacerest hloop)
    by_cases hgrouped : k ∈ grouped
    · -- a block that was grouped before is one item still, and only a loop is left as it is
      by_cases hk : k = .each
      · subst hk
        rw [spreadOut_loop hgrouped, spreadOut_loop (List.mem_cons_of_mem _ hgrouped)]
        exact groupConditionals_loop opening shown border hidden closing
      · rw [spreadOut_conditional hk hgrouped,
          spreadOut_conditional hk (List.mem_cons_of_mem _ hgrouped),
          ← hmakeshown.eq groupConditionals_nil, ← hmakehidden.eq groupConditionals_nil]
        exact groupConditionals_block hk opening _ border _ closing
    · -- of those that were not, the ones of the kind are found
      rw [spreadOut_apart hgrouped]
      by_cases hk : k = kind
      · subst hk
        rw [spreadOut_conditional hkind List.mem_cons_self,
          ← hmakeshown.eq groupConditionals_nil, ← hmakehidden.eq groupConditionals_nil]
        exact groupConditionals_found hbounded hshown hhidden
          (quiet_shown hkind hif hshown hplaceshown hloop)
      · rw [spreadOut_apart fun hmem => (List.mem_cons.1 hmem).elim hk hgrouped]
        exact makes_apart groupConditionals_keeps hk hbounded hmakeshown hmakehidden

/-! ## The stage for loops -/

/-- **The kinds that are grouped before the loops** at a place. -/
def Place.earlier (p : Place) : List BlockKind := if p.inLoop then [.unlessTrue, .ifTrue] else []

theorem Place.each_notMem_earlier (p : Place) : .each ∉ p.earlier := by
  unfold earlier
  split
  · decide
  · decide

/-- Within a conditional the same kinds are. -/
theorem Place.earlier_within {kind : BlockKind} (h : kind ≠ .each) (p : Place) (branch : Branch) :
    (p.within kind branch).earlier = p.earlier := by
  rw [earlier, inLoop_within_of_ne h, earlier]

section Loops

theorem groupLoops_nil : groupLoops [] = [] := by
  rw [groupLoops]

theorem groupLoops_keeps (t : Token) (h : t.opens .each = false) :
    Makes groupLoops [.token t] [.token t] := by
  intro after
  rw [List.singleton_append, groupLoops, extentFrom?_of_opens_eq_false h]
  rfl

theorem groupLoops_block {k : BlockKind} (hk : k ≠ .each) (opening : Token)
    (shown : List Item) (border : Option Token) (hidden : List Item) (closing : Token) :
    Makes groupLoops [.block k opening shown border hidden closing]
      [.block k opening (groupLoops shown) border (groupLoops hidden) closing] := by
  intro after
  rw [List.singleton_append, groupLoops]
  · rfl
  · exact hk

/-- **A loop is found.** -/
theorem groupLoops_found (grouped : List BlockKind) {opening : Token} {body : List Item}
    {closing : Token} (hbounded : Bounded .each opening none [] closing) (hbody : Nested body) :
    Makes groupLoops
      ([.token opening] ++ (spread grouped body ++ (none : Option Token).toList.map .token ++
        spread grouped []) ++ [.token closing])
      [.block .each opening
        (groupLoops (groupConditionals .unlessTrue
          (groupConditionals .ifTrue (spread grouped body)))) none [] closing] := by
  intro after
  have hinside : spread grouped body ++ (none : Option Token).toList.map .token ++
      spread grouped [] = spread grouped body := by
    rw [spread, List.append_nil]
    exact List.append_nil _
  rw [List.append_assoc, List.append_assoc, List.singleton_append, List.singleton_append,
    groupLoops, extentFrom?_spread hbounded hbody (by rw [Nested]; trivial)
      (fun hne => absurd rfl hne) after]
  show _ :: _ = _
  rw [Extent.inside_ofParts, Extent.after_ofParts, hinside]
  rfl

end Loops

/-- Inside a loop all conditionals are grouped before the loops in it. -/
theorem groupConditionals_spread_body {p : Place} {items : List Item} (hnested : Nested items)
    (hplaced : Placed (p.within .each .shown) items) :
    groupConditionals .unlessTrue (groupConditionals .ifTrue (spread p.earlier items)) =
      spread (p.within .each .shown).earlier items := by
  have hif : Makes (groupConditionals .ifTrue) (spread p.earlier items) _ :=
    makes_groupConditionals (by decide) p.earlier (.inl rfl) hnested hplaced (.inr rfl)
  have hunless : Makes (groupConditionals .unlessTrue) (spread (.ifTrue :: p.earlier) items) _ :=
    makes_groupConditionals (by decide) _ (.inr List.mem_cons_self) hnested hplaced (.inr rfl)
  rw [hif.eq groupConditionals_nil, hunless.eq groupConditionals_nil]
  refine spread_congr (fun kind => ?_) items
  show kind ∈ .unlessTrue :: .ifTrue :: p.earlier ↔ kind ∈ [.unlessTrue, .ifTrue]
  unfold Place.earlier
  split
  · cases kind <;> decide
  · exact Iff.rfl

/-- **The stage for loops groups the loops.** -/
theorem makes_groupLoops {p : Place} {items : List Item} (hnested : Nested items)
    (hplaced : Placed p items) :
    Makes groupLoops (spread p.earlier items) (spread (.each :: p.earlier) items) := by
  induction items using forest_induction generalizing p with
  | nil =>
    rw [spread, spread]
    exact makes_nil
  | token t rest ih =>
    rw [Nested] at hnested
    rw [Placed] at hplaced
    rw [spread, spread, spreadOut, spreadOut]
    exact (groupLoops_keeps t (Token.opens_of_isBlock_eq_false hnested.1 .each)).append
      (ih hnested.2 hplaced.2)
  | block k opening shown border hidden closing rest ihshown ihhidden ihrest =>
    rw [Nested] at hnested
    rw [Placed] at hplaced
    obtain ⟨hbounded, hshown, hhidden, hrest⟩ := hnested
    obtain ⟨-, hplaceshown, hplacehidden, hplacerest⟩ := hplaced
    have hmakeshown := ihshown hshown hplaceshown
    have hmakehidden := ihhidden hhidden hplacehidden
    rw [spread, spread]
    refine Makes.append ?_ (ihrest hrest hplacerest)
    by_cases hk : k = .each
    · subst hk
      obtain rfl := hbounded.undivided rfl
      obtain rfl := hbounded.hidden_eq_nil rfl
      -- in the loop all kinds are grouped in the end, so its body is what it is in the derivation
      have hall : ∀ kind, kind ∈ .each :: (p.within .each .shown).earlier := fun kind => by
        show kind ∈ [.each, .unlessTrue, .ifTrue]
        cases kind <;> decide
      have hbody := hmakeshown.eq groupLoops_nil
      rw [spread_of_forall_mem hall, ← groupConditionals_spread_body hshown hplaceshown] at hbody
      rw [spreadOut_apart p.each_notMem_earlier, spreadOut_loop List.mem_cons_self]
      have hfound := groupLoops_found p.earlier hbounded hshown
      rwa [hbody] at hfound
    · rw [Place.earlier_within hk] at hmakeshown hmakehidden
      by_cases hgrouped : k ∈ p.earlier
      · rw [spreadOut_conditional hk hgrouped,
          spreadOut_conditional hk (List.mem_cons_of_mem _ hgrouped),
          ← hmakeshown.eq groupLoops_nil, ← hmakehidden.eq groupLoops_nil]
        exact groupLoops_block hk opening _ border _ closing
      · rw [spreadOut_apart hgrouped,
          spreadOut_apart fun hmem => (List.mem_cons.1 hmem).elim hk hgrouped]
        exact makes_apart groupLoops_keeps hk hbounded hmakeshown hmakehidden

/-! ## Templates -/

/-- **A placed derivation of the tokens of a template is what they are grouped to.** -/
theorem ofTemplate_of_derivation {template : String} {items : List Item}
    (h : Derivation (Token.ofTemplate template) items) (hplaced : Placed .outermost items) :
    ofTemplate template = items := by
  obtain ⟨hnested, htokens⟩ := h
  have hloops : Makes groupLoops (spread [] items) (spread [.each] items) :=
    makes_groupLoops hnested hplaced
  have hif : Makes (groupConditionals .ifTrue) (spread [.each] items) _ :=
    makes_groupConditionals (by decide) [.each] (.inl rfl) hnested hplaced (.inl List.mem_cons_self)
  have hunless : Makes (groupConditionals .unlessTrue) (spread [.ifTrue, .each] items) _ :=
    makes_groupConditionals (by decide) [.ifTrue, .each] (.inr List.mem_cons_self) hnested hplaced
      (.inl (List.mem_cons_of_mem _ List.mem_cons_self))
  rw [ofTemplate, ← htokens, ← spread_nil, hloops.eq groupLoops_nil, hif.eq groupConditionals_nil,
    hunless.eq groupConditionals_nil]
  exact spread_of_forall_mem (fun kind => by cases kind <;> decide) items

/-- Nothing is complained about in properly nested items, and in no others. -/
theorem diagnostics_eq_nil_iff {items : List Item} (h : Formed items) :
    diagnostics items = [] ↔ Nested items := by
  rw [diagnostics_eq_nil_iff_strays h, nested_iff]
  exact (and_iff_right h).symm

end Item

namespace Template

/-- **What is complained about, and what the tree is when nothing is.** There are no complaints
about a template exactly when its tokens have a derivation in the grammar of blocks in which every
`unless` with an `else`, if it is in an `if` of its region, is behind the `else` of the innermost
one. Tokens have at most one derivation, and when there are no complaints the tree is that of the
derivation, item by item. -/
theorem parse_clean (template : String) :
    ((parse template).diagnostics = [] ↔
      ∃ items, Item.Derivation (Token.ofTemplate template) items ∧
        Item.Placed .outermost items) ∧
    ∀ items, Item.Derivation (Token.ofTemplate template) items →
      (parse template).diagnostics = [] →
        Item.Placed .outermost items ∧
          Item.Shows template List.cons items (parse template).nodes := by
  have hformed := Item.formed_ofTemplate template
  have htokens := Item.tokens_ofTemplate template
  have hplaced := Item.placed_ofTemplate template
  have hclean : (parse template).diagnostics = [] ↔ Item.Nested (Item.ofTemplate template) :=
    Item.diagnostics_eq_nil_iff hformed
  refine ⟨⟨fun hnil => ?_, ?_⟩, fun items hderivation hnil => ?_⟩
  · exact ⟨Item.ofTemplate template, ⟨hclean.1 hnil, htokens⟩, hplaced⟩
  · rintro ⟨items, hderivation, hplace⟩
    rw [hclean, Item.ofTemplate_of_derivation hderivation hplace]
    exact hderivation.nested
  · obtain rfl := hderivation.unique ⟨hclean.1 hnil, htokens⟩
    have hspan := Item.infix_ofTemplate template
    exact ⟨hplaced, (Item.shows_nodes hformed hspan).exact hderivation.nested hspan⟩

/-- An `unless` with an `else` is found behind the `else` of the `if` around it. -/
theorem parse_clean_behind_else :
    let tag := Lexeme.braced
    let template := tag "#if a" ++ tag "else" ++ tag "#unless b" ++ "y" ++ tag "else" ++ "z" ++
      tag "/unless" ++ tag "/if"
    let inner : Item :=
      .block .unlessTrue ⟨.opening .unlessTrue "b", tag "#unless b", 17, 1⟩
        [.token ⟨.text "y", "y", 30, 1⟩] (some ⟨.otherwise, tag "else", 31, 1⟩)
        [.token ⟨.text "z", "z", 39, 1⟩] ⟨.closing .unlessTrue, tag "/unless", 40, 1⟩
    let items : List Item :=
      [.block .ifTrue ⟨.opening .ifTrue "a", tag "#if a", 0, 1⟩ []
        (some ⟨.otherwise, tag "else", 9, 1⟩) [inner] ⟨.closing .ifTrue, tag "/if", 51, 1⟩]
    Item.Derivation (Token.ofTemplate template) items ∧ Item.Placed .outermost items ∧
      (parse template).diagnostics = [] ∧
        Item.Shows template List.cons items (parse template).nodes := by
  intro tag template inner items
  have htokens : Item.tokens items = Token.ofTemplate template := by
    simp only [items, inner, Item.tokens, Option.toList_some, List.nil_append, List.cons_append]
    decide +kernel
  have hbounded : ∀ {kind : BlockKind} {opening border closing : Token} {hidden : List Item},
      opening.opens kind = true → border.lexeme = .otherwise → closing.lexeme = .closing kind →
      kind ≠ .each → Item.Bounded kind opening (some border) hidden closing :=
    fun hopens hdivides hcloses hkind =>
      ⟨hopens, hcloses, fun b hb => Option.some.inj hb ▸ hdivides,
        fun heach => absurd heach hkind, fun hnone => absurd hnone (Option.some_ne_none _)⟩
  have hnested : Item.Nested items := by
    simp only [items, inner, Item.Nested, and_true, true_and]
    exact ⟨hbounded rfl rfl rfl (by decide), hbounded rfl rfl rfl (by decide), rfl, rfl⟩
  have hplaced : Item.Placed .outermost items := by
    simp [items, inner, Item.Placed, Item.Place.within, Item.Place.outermost]
  have hclean := (parse_clean template).1.2 ⟨items, ⟨hnested, htokens⟩, hplaced⟩
  exact ⟨⟨hnested, htokens⟩, hplaced, hclean,
    ((parse_clean template).2 items ⟨hnested, htokens⟩ hclean).2⟩

end Template

end Storefront
