import Storefront.Proofs.Stages

/-!
# Derivations spread out

On the way from the tokens of a template to a derivation, a stage has before it
the derivation with the blocks of some kinds grouped and all others spread out
into their tokens (`Item.spread`). What it has to find there is the ends of the
blocks of its kind, so this is about what an extent passes over.

Spread out items are passed over on any level, as every block in them ends in
them (`Item.passes_spread`). On the level of a conditional they must be without an
`else` in the open (`Item.Quiet`), or that would be taken for the one of the
conditional; after that one, they may have some. For `unless` it is enough that
all `if`s have been grouped before, and for `if` this is what placing is about
(`Item.quiet_shown`). A block that is spread out has then the extent that it
should have (`Item.extentFrom?_spread`).
-/

namespace Storefront

namespace Item

/-! ## Spreading out -/

mutual

/-- An item with some kinds of blocks grouped. A loop that is grouped is so with all that is in
it. -/
def spreadOut (grouped : List BlockKind) : Item → List Item
  | .token t => [.token t]
  | .block kind opening shown border hidden closing =>
    if kind ∈ grouped then
      [if kind = .each then .block kind opening shown border hidden closing
        else .block kind opening (spread grouped shown) border (spread grouped hidden) closing]
    else
      [.token opening] ++ (spread grouped shown ++ border.toList.map .token ++
        spread grouped hidden) ++ [.token closing]

/-- **Items with some kinds of blocks grouped** and the blocks of all others spread out into their
tokens. -/
def spread (grouped : List BlockKind) : List Item → List Item
  | [] => []
  | item :: rest => spreadOut grouped item ++ spread grouped rest

end

section Spread

variable {grouped : List BlockKind} {kind : BlockKind} {opening : Token} {shown : List Item}
  {border : Option Token} {hidden : List Item} {closing : Token}

theorem spreadOut_loop (h : .each ∈ grouped) :
    spreadOut grouped (.block .each opening shown border hidden closing) =
      [.block .each opening shown border hidden closing] := by
  rw [spreadOut, if_pos h, if_pos rfl]

theorem spreadOut_conditional (hkind : kind ≠ .each) (h : kind ∈ grouped) :
    spreadOut grouped (.block kind opening shown border hidden closing) =
      [.block kind opening (spread grouped shown) border (spread grouped hidden) closing] := by
  rw [spreadOut, if_pos h, if_neg hkind]

theorem spreadOut_apart (h : kind ∉ grouped) :
    spreadOut grouped (.block kind opening shown border hidden closing) =
      [.token opening] ++ (spread grouped shown ++ border.toList.map .token ++
        spread grouped hidden) ++ [.token closing] := by
  rw [spreadOut, if_neg h]

end Spread

/-- With nothing grouped, items are their tokens. -/
theorem spread_nil (items : List Item) : spread [] items = (tokens items).map .token := by
  induction items using forest_induction with
  | nil => rw [spread, tokens, List.map_nil]
  | token t rest ih => rw [spread, spreadOut, tokens, ih, List.map_cons, List.singleton_append]
  | block kind opening shown border hidden closing rest ihshown ihhidden ihrest =>
    rw [spread, spreadOut_apart List.not_mem_nil, tokens, ihshown, ihhidden, ihrest]
    simp only [List.map_cons, List.map_append, List.append_assoc, List.cons_append,
      List.nil_append]

/-- With everything grouped, they are themselves. -/
theorem spread_of_forall_mem {grouped : List BlockKind} (h : ∀ kind, kind ∈ grouped)
    (items : List Item) : spread grouped items = items := by
  induction items using forest_induction with
  | nil => rw [spread]
  | token t rest ih => rw [spread, spreadOut, ih, List.singleton_append]
  | block kind opening shown border hidden closing rest ihshown ihhidden ihrest =>
    rw [spread, ihrest]
    by_cases hkind : kind = .each
    · subst hkind
      rw [spreadOut_loop (h _), List.singleton_append]
    · rw [spreadOut_conditional hkind (h _), ihshown, ihhidden, List.singleton_append]

/-- Only which kinds are grouped counts. -/
theorem spread_congr {g g' : List BlockKind} (h : ∀ kind, kind ∈ g ↔ kind ∈ g')
    (items : List Item) : spread g items = spread g' items := by
  induction items using forest_induction with
  | nil => rw [spread, spread]
  | token t rest ih => rw [spread, spread, spreadOut, spreadOut, ih]
  | block kind opening shown border hidden closing rest ihshown ihhidden ihrest =>
    rw [spread, spread, spreadOut, spreadOut, ihshown, ihhidden, ihrest]
    simp only [h]

/-! ## What an extent passes over -/

/-- **An extent `e'` seen some items before another one**: it ends at the same token and, if the
items between are `quiet`, is divided by the same one. -/
structure Extent.Before (quiet : Prop) (n : Nat) (e' e : Extent) : Prop where
  /-- It ends that many items later. -/
  closeAt_eq : e'.closeAt = e.closeAt + n
  /-- It ends at the same token. -/
  closing_eq : e'.closing = e.closing
  /-- It is divided that many items later. -/
  border_eq : quiet → e'.border = e.border.map fun b => (b.1 + n, b.2)

namespace Extent.Before

variable {quiet : Prop}

theorem refl (e : Extent) : Before quiet 0 e e where
  closeAt_eq := rfl
  closing_eq := rfl
  border_eq _ := by
    obtain ⟨border, -, -⟩ := e
    cases border with
    | none => rfl
    | some b => rfl

theorem trans {m n : Nat} {e₁ e₂ e₃ : Extent} (h₁ : Before quiet m e₁ e₂)
    (h₂ : Before quiet n e₂ e₃) : Before quiet (m + n) e₁ e₃ where
  closeAt_eq := by rw [h₁.closeAt_eq, h₂.closeAt_eq, Nat.add_assoc, Nat.add_comm n]
  closing_eq := h₁.closing_eq.trans h₂.closing_eq
  border_eq hquiet := by
    rw [h₁.border_eq hquiet, h₂.border_eq hquiet, Option.map_map]
    refine congrArg (Option.map · _) (funext fun b => ?_)
    rw [Function.comp_apply, Nat.add_assoc, Nat.add_comm n]

theorem later (e : Extent) : Before quiet 1 (e.later 1) e where
  closeAt_eq := rfl
  closing_eq := rfl
  border_eq _ := rfl

/-- An `else` divides the extent anew. -/
theorem fromElse (hquiet : ¬ quiet) (t : Token) (e : Extent) : Before quiet 1 (e.fromElse t) e where
  closeAt_eq := rfl
  closing_eq := rfl
  border_eq h := absurd h hquiet

/-- Quietly seen from before, an extent is the same, only later. -/
theorem eq_later {n : Nat} {e' e : Extent} (h : Before True n e' e) : e' = e.later n := by
  obtain ⟨border, closeAt, closing⟩ := e'
  rw [Extent.later, ← h.closeAt_eq, ← h.closing_eq, ← h.border_eq trivial]

end Extent.Before

/-- **Items that an extent passes over**, coming from some level to another one. -/
def Passes (quiet : Prop) (kind : BlockKind) (level level' : Nat) (items : List Item) : Prop :=
  ∀ (after : List Item) (e : Extent), extent? kind level' after = some e →
    ∃ e', extent? kind level (items ++ after) = some e' ∧ e'.Before quiet items.length e

section Passes

variable {quiet : Prop} {kind : BlockKind} {level level' level'' : Nat}

theorem passes_nil : Passes quiet kind level level [] :=
  fun _ e he => ⟨e, he, .refl e⟩

theorem Passes.append {a b : List Item} (ha : Passes quiet kind level level' a)
    (hb : Passes quiet kind level' level'' b) : Passes quiet kind level level'' (a ++ b) := by
  intro after e he
  obtain ⟨e₁, he₁, h₁⟩ := hb after e he
  obtain ⟨e₂, he₂, h₂⟩ := ha (b ++ after) e₁ he₁
  rw [List.append_assoc, List.length_append]
  exact ⟨e₂, he₂, h₂.trans h₁⟩

/-- One item is passed over when the extent is read on after it. -/
theorem passes_of_later {item : Item}
    (h : ∀ rest, extent? kind level (item :: rest) =
      (extent? kind level' rest).map (Extent.later 1)) : Passes quiet kind level level' [item] := by
  intro after e he
  rw [List.singleton_append, h, he]
  exact ⟨e.later 1, rfl, .later e⟩

theorem passes_opens {t : Token} (h : t.opens kind = true) :
    Passes quiet kind level (level + 1) [.token t] :=
  passes_of_later fun rest => extent?_opens rest h

theorem passes_returns {t : Token} (h : t.lexeme = .closing kind) :
    Passes quiet kind (level + 1) level [.token t] :=
  passes_of_later fun rest => extent?_returns rest h

theorem passes_block (k : BlockKind) (opening : Token) (shown : List Item)
    (border : Option Token) (hidden : List Item) (closing : Token) :
    Passes quiet kind level level [.block k opening shown border hidden closing] :=
  passes_of_later fun rest => extent?_block rest k opening shown border hidden closing

/-- A token that neither opens nor closes a block of the kind is passed over, and quietly unless it
is an `else` on the level of a conditional. -/
theorem passes_token {t : Token} (hopens : t.opens kind = false)
    (hcloses : t.lexeme ≠ .closing kind)
    (helse : quiet → ¬ (t.lexeme = .otherwise ∧ kind ≠ .each ∧ level = 0)) :
    Passes quiet kind level level [.token t] := by
  by_cases hown : t.lexeme = .otherwise ∧ kind ≠ .each ∧ level = 0
  · intro after e he
    have hloud : ¬ quiet := fun hquiet => helse hquiet hown
    obtain ⟨ht, hkind, rfl⟩ := hown
    rw [List.singleton_append, extent?_divides after ht hkind, he]
    exact ⟨e.fromElse t, rfl, .fromElse hloud t e⟩
  · exact passes_of_later fun rest => extent?_passes rest hopens hcloses hown

/-- So is any token that is no directive of a block. -/
theorem passes_of_isBlock_eq_false {t : Token} (h : t.isBlock = false) :
    Passes quiet kind level level [.token t] := by
  refine passes_token (Token.opens_of_isBlock_eq_false h kind) (fun hcloses => ?_)
    fun _ hown => ?_
  · rw [Token.isBlock, hcloses] at h
    cases h
  · rw [Token.isBlock, hown.1] at h
    cases h

end Passes

/-- **Items without an `else` in the open**, when some kinds of blocks are grouped: outside of the
blocks of a kind and those that are grouped, no block has one. -/
def Quiet (kind : BlockKind) (grouped : List BlockKind) : List Item → Prop
  | [] => True
  | .token _ :: rest => Quiet kind grouped rest
  | .block k _ shown border _ _ :: rest =>
    (k ∈ grouped ∨ k = kind ∨ border = none ∧ Quiet kind grouped shown) ∧ Quiet kind grouped rest

/-- The `else` of a block is passed over, and quietly unless it is on the level of a
conditional. -/
theorem passes_border {quiet : Prop} {kind : BlockKind} {level : Nat} {border : Option Token}
    (h : ∀ t ∈ border, t.lexeme = .otherwise)
    (hquiet : quiet → kind ≠ .each → level = 0 → border = none) :
    Passes quiet kind level level (border.toList.map .token) := by
  cases border with
  | none => exact passes_nil
  | some t =>
    have ht := h t rfl
    refine passes_token (Token.opens_of_otherwise ht kind) (Token.ne_closing_of_otherwise ht kind)
      fun hq hown => ?_
    exact Option.some_ne_none t (hquiet hq hown.2.1 hown.2.2)

/-- **The directives at the two ends of a block are passed over.** Between them the level is
another one if the block is of the kind, and the same otherwise. -/
theorem passes_ends (quiet : Prop) (kind : BlockKind) (level : Nat) {k : BlockKind}
    {opening : Token} {border : Option Token} {hidden : List Item} {closing : Token}
    (h : Bounded k opening border hidden closing) :
    ∃ inner, Passes quiet kind level inner [.token opening] ∧
      Passes quiet kind inner level [.token closing] ∧ (inner = 0 → k ≠ kind ∧ level = 0) := by
  by_cases hk : k = kind
  · subst hk
    exact ⟨level + 1, passes_opens h.opens, passes_returns h.closes,
      fun hzero => absurd hzero (Nat.succ_ne_zero level)⟩
  · have hopening := Token.lexeme_of_opens h.opens
    refine ⟨level, passes_token (Token.opens_of_opens h.opens hk) ?_ fun _ hown => ?_,
      passes_token (Token.opens_of_closing h.closes kind) ?_ fun _ hown => ?_,
      fun hzero => ⟨hk, hzero⟩⟩
    · rw [hopening]
      exact fun hcloses => by cases hcloses
    · rw [hopening] at hown
      cases hown.1
    · rw [h.closes]
      exact fun heq => hk (Lexeme.closing.inj heq)
    · rw [h.closes] at hown
      cases hown.1

/-- **Properly nested items that are spread out are passed over**, on the level of a conditional
quietly when no `else` is in the open. -/
theorem passes_spread {quiet : Prop} {kind : BlockKind} {grouped : List BlockKind}
    {items : List Item} (hnested : Nested items) {level : Nat}
    (hquiet : quiet → kind ≠ .each → level = 0 → Quiet kind grouped items) :
    Passes quiet kind level level (spread grouped items) := by
  induction items using forest_induction generalizing level with
  | nil =>
    rw [spread]
    exact passes_nil
  | token t rest ih =>
    rw [Nested] at hnested
    simp only [Quiet] at hquiet
    rw [spread, spreadOut]
    exact (passes_of_isBlock_eq_false hnested.1).append (ih hnested.2 hquiet)
  | block k opening shown border hidden closing rest ihshown ihhidden ihrest =>
    rw [Nested] at hnested
    obtain ⟨hbounded, hshown, hhidden, hrest⟩ := hnested
    simp only [Quiet] at hquiet
    have hmore := ihrest hrest fun hq hkind hlevel => (hquiet hq hkind hlevel).2
    rw [spread]
    by_cases hgrouped : k ∈ grouped
    · -- a block that is grouped is one item
      refine Passes.append ?_ hmore
      rw [spreadOut, if_pos hgrouped]
      split
      · exact passes_block _ _ _ _ _ _
      · exact passes_block _ _ _ _ _ _
    · obtain ⟨inner, hopening, hclosing, hsame⟩ := passes_ends quiet kind level hbounded
      -- on the level of the extent itself, the inside of the block is in the open
      have hopen : quiet → kind ≠ .each → inner = 0 → border = none ∧ Quiet kind grouped shown := by
        intro hq hkind hinner
        obtain ⟨hk, hlevel⟩ := hsame hinner
        exact ((hquiet hq hkind hlevel).1.resolve_left hgrouped).resolve_left hk
      have hinshown : Passes quiet kind inner inner (spread grouped shown) :=
        ihshown hshown fun hq hkind hinner => (hopen hq hkind hinner).2
      have hborder : Passes quiet kind inner inner (border.toList.map .token) :=
        passes_border hbounded.divides fun hq hkind hinner => (hopen hq hkind hinner).1
      have hinhidden : Passes quiet kind inner inner (spread grouped hidden) := by
        refine ihhidden hhidden fun hq hkind hinner => ?_
        rw [hbounded.hidden_eq_nil (hopen hq hkind hinner).1, Quiet]
        trivial
      rw [spreadOut_apart hgrouped]
      exact ((hopening.append ((hinshown.append hborder).append hinhidden)).append hclosing).append
        hmore

/-! ## The extent of a block -/

/-- **The extent of a block** with these parts. -/
def Extent.ofParts (shown : List Item) (border : Option Token) (hidden : List Item)
    (closing : Token) : Extent :=
  ⟨border.map fun t => (shown.length, t),
    (shown ++ border.toList.map Item.token ++ hidden).length, closing⟩

section Parts

variable (shown : List Item) (border : Option Token) (hidden : List Item) (closing : Token)
  (after : List Item)

theorem Extent.inside_ofParts :
    (ofParts shown border hidden closing).inside
      (shown ++ border.toList.map .token ++ hidden ++ .token closing :: after) =
      shown ++ border.toList.map .token ++ hidden :=
  List.take_left' rfl

theorem Extent.shown_ofParts (h : border = none → hidden = []) :
    (ofParts shown border hidden closing).shown
      (shown ++ border.toList.map .token ++ hidden ++ .token closing :: after) = shown := by
  have hinside := inside_ofParts shown border hidden closing after
  cases border with
  | none =>
    rw [Extent.shown]
    show Extent.inside _ _ = shown
    rw [hinside, h rfl]
    simp
  | some t =>
    rw [Extent.shown]
    show (Extent.inside _ _).take shown.length = shown
    rw [hinside, List.append_assoc]
    exact List.take_left' rfl

theorem Extent.hidden_ofParts (h : border = none → hidden = []) :
    (ofParts shown border hidden closing).hidden
      (shown ++ border.toList.map .token ++ hidden ++ .token closing :: after) = hidden := by
  have hinside := inside_ofParts shown border hidden closing after
  cases border with
  | none => exact (h rfl).symm
  | some t =>
    rw [Extent.hidden]
    show (Extent.inside _ _).drop (shown.length + 1) = hidden
    rw [hinside]
    exact List.drop_left' (by simp)

theorem Extent.after_ofParts :
    (ofParts shown border hidden closing).after
      (shown ++ border.toList.map .token ++ hidden ++ .token closing :: after) = after := by
  rw [Extent.after, ← List.singleton_append, ← List.append_assoc]
  refine List.drop_left' ?_
  rw [List.length_append]
  rfl

theorem Extent.border_ofParts :
    (ofParts shown border hidden closing).border.map Prod.snd = border := by
  cases border with
  | none => rfl
  | some t => rfl

end Parts

/-- **A block that is spread out is found** by the stage of its kind, when what it shows has no
`else` in the open. -/
theorem extentFrom?_spread {kind : BlockKind} {grouped : List BlockKind} {opening : Token}
    {shown : List Item} {border : Option Token} {hidden : List Item} {closing : Token}
    (hbounded : Bounded kind opening border hidden closing) (hshown : Nested shown)
    (hhidden : Nested hidden) (hquiet : kind ≠ .each → Quiet kind grouped shown)
    (after : List Item) :
    extentFrom? kind opening (spread grouped shown ++ border.toList.map .token ++
        spread grouped hidden ++ .token closing :: after) =
      some (.ofParts (spread grouped shown) border (spread grouped hidden) closing) := by
  have hinshown : Passes True kind 0 0 (spread grouped shown) :=
    passes_spread hshown fun _ hkind _ => hquiet hkind
  have hinhidden : Passes False kind 0 0 (spread grouped hidden) :=
    passes_spread hhidden False.elim
  have hend := extent?_closes after hbounded.closes
  rw [extentFrom?_of_opens hbounded.opens, List.append_assoc, List.append_assoc]
  cases border with
  | none =>
    rw [hbounded.hidden_eq_nil rfl, spread]
    obtain ⟨e, he, hbefore⟩ := hinshown _ _ hend
    rw [hbefore.eq_later] at he
    refine he.trans (congrArg some ?_)
    simp [Extent.later, Extent.ofParts]
  | some t =>
    -- what is hidden may have an `else` in the open, since the one of the block comes first
    obtain ⟨e₁, he₁, h₁⟩ := hinhidden _ _ hend
    have hkind : kind ≠ .each := fun heach => Option.some_ne_none t (hbounded.undivided heach)
    have hdivided := extent?_divides (spread grouped hidden ++ .token closing :: after)
      (hbounded.divides t rfl) hkind
    rw [he₁] at hdivided
    obtain ⟨e₂, he₂, h₂⟩ := hinshown _ _ hdivided
    rw [h₂.eq_later] at he₂
    refine he₂.trans (congrArg some ?_)
    simp [Extent.later, Extent.fromElse, Extent.ofParts, h₁.closeAt_eq, h₁.closing_eq]
    omega

/-! ## Quiet items -/

/-- **What an `if` shows is quiet** when its items are placed and the loops that are not grouped
are in its region. -/
theorem quiet_ifTrue {grouped : List BlockKind} {p : Place} {items : List Item}
    (hnested : Nested items) (hplaced : Placed p items) (hbranch : p.branch? = some .shown)
    (hloop : .each ∈ grouped ∨ p.inLoop = true) : Quiet .ifTrue grouped items := by
  induction items using forest_induction with
  | nil => rw [Quiet]; trivial
  | token t rest ih =>
    rw [Nested] at hnested
    rw [Placed] at hplaced
    rw [Quiet]
    exact ih hnested.2 hplaced.2
  | block k opening shown border hidden closing rest ihshown _ ihrest =>
    rw [Nested] at hnested
    rw [Placed] at hplaced
    rw [Quiet]
    refine ⟨?_, ihrest hnested.2.2.2 hplaced.2.2.2⟩
    cases k with
    | ifTrue => exact .inr (.inl rfl)
    | unlessTrue =>
      -- it is not grouped yet, so its `else` would be in the open
      refine .inr (.inr ⟨?_, ihshown hnested.2.1 hplaced.2.1⟩)
      by_contra hborder
      exact hplaced.1 rfl hborder hbranch
    | each =>
      obtain hgrouped | hin := hloop
      · exact .inl hgrouped
      · rw [Place.within_each hin] at hplaced
        exact .inr (.inr ⟨hnested.1.undivided rfl, ihshown hnested.2.1 hplaced.2.1⟩)

/-- **Items are quiet for `unless` once all `if`s are grouped.** -/
theorem quiet_unlessTrue {grouped : List BlockKind} (hif : .ifTrue ∈ grouped) {items : List Item}
    (hnested : Nested items) : Quiet .unlessTrue grouped items := by
  induction items using forest_induction with
  | nil => rw [Quiet]; trivial
  | token t rest ih =>
    rw [Nested] at hnested
    rw [Quiet]
    exact ih hnested.2
  | block k opening shown border hidden closing rest ihshown _ ihrest =>
    rw [Nested] at hnested
    rw [Quiet]
    refine ⟨?_, ihrest hnested.2.2.2⟩
    cases k with
    | ifTrue => exact .inl hif
    | unlessTrue => exact .inr (.inl rfl)
    | each => exact .inr (.inr ⟨hnested.1.undivided rfl, ihshown hnested.2.1⟩)

/-- **What a block shows is quiet for the stage of its kind.** -/
theorem quiet_shown {kind : BlockKind} (hkind : kind ≠ .each) {grouped : List BlockKind}
    (hif : kind = .ifTrue ∨ .ifTrue ∈ grouped) {p : Place} {items : List Item}
    (hnested : Nested items) (hplaced : Placed (p.within kind .shown) items)
    (hloop : .each ∈ grouped ∨ p.inLoop = true) : Quiet kind grouped items := by
  cases kind with
  | each => exact absurd rfl hkind
  | ifTrue =>
    exact quiet_ifTrue hnested hplaced rfl
      (hloop.imp_right fun hin => Place.inLoop_within hin .ifTrue .shown)
  | unlessTrue => exact quiet_unlessTrue (hif.resolve_left (by decide)) hnested

end Item

end Storefront
