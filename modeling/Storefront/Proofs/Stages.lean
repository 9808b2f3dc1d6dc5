import Storefront.Proofs.Nesting

/-!
# What the stages keep

Whatever a template holds, the items that the stages of grouping make of it are
placed (`Item.placed_ofTemplate`): where an `else` that belongs to no `if` could
be taken by one, the stage for `if` has taken it. That stage is the first to see
conditionals in a region, and what it finds before the `else` of an `if` has none
on the level of that `if` left (`Item.Clear`). The later stages only put what
they find into blocks.

Inside a loop the stages for conditionals run again on the insides of the loops
in it. They find nothing there: a stage leaves no token that closes a block of
its kind behind one that opens one (`Item.Spent`), and without that there is
nothing for it to group.
-/

namespace Storefront

/-! ## One step of an extent -/

theorem Token.opens_of_closing {t : Token} {k : BlockKind} (h : t.lexeme = .closing k)
    (kind : BlockKind) : t.opens kind = false := by
  rw [opens, h]

theorem Token.opens_of_otherwise {t : Token} (h : t.lexeme = .otherwise) (kind : BlockKind) :
    t.opens kind = false := by
  rw [opens, h]

theorem Token.ne_closing_of_otherwise {t : Token} (h : t.lexeme = .otherwise) (kind : BlockKind) :
    t.lexeme ≠ .closing kind := by
  intro hcloses
  rw [h] at hcloses
  cases hcloses

theorem Token.opens_of_opens {t : Token} {k kind : BlockKind} (h : t.opens k = true)
    (hne : k ≠ kind) : t.opens kind = false := by
  rw [opens, lexeme_of_opens h]
  exact decide_eq_false hne

theorem Token.opens_of_isBlock_eq_false {t : Token} (h : t.isBlock = false) (kind : BlockKind) :
    t.opens kind = false :=
  Bool.eq_false_iff.2 fun hopens => Bool.false_ne_true (h.symm.trans (isBlock_of_opens hopens))

namespace Item

section Steps

variable {kind : BlockKind} {deeper : Nat} {t : Token} (rest : List Item)

/-- An opening token goes one level deeper. -/
theorem extent?_opens (h : t.opens kind = true) :
    extent? kind deeper (.token t :: rest) =
      (extent? kind (deeper + 1) rest).map (Extent.later 1) := by
  conv => lhs; unfold extent?
  rw [if_pos h]

/-- The closing token of the level of the block ends it. -/
theorem extent?_closes (h : t.lexeme = .closing kind) :
    extent? kind 0 (.token t :: rest) = some ⟨none, 0, t⟩ := by
  rw [extent?, if_neg (by rw [Token.opens_of_closing h]; exact Bool.false_ne_true), if_pos h]

/-- Any other closing token comes back one level. -/
theorem extent?_returns (h : t.lexeme = .closing kind) :
    extent? kind (deeper + 1) (.token t :: rest) =
      (extent? kind deeper rest).map (Extent.later 1) := by
  rw [extent?, if_neg (by rw [Token.opens_of_closing h]; exact Bool.false_ne_true), if_pos h]

/-- An `else` on the level of a conditional is the one of the block. -/
theorem extent?_divides (h : t.lexeme = .otherwise) (hkind : kind ≠ .each) :
    extent? kind 0 (.token t :: rest) = (extent? kind 0 rest).map (Extent.fromElse t) := by
  rw [extent?, if_neg (by rw [Token.opens_of_otherwise h]; exact Bool.false_ne_true),
    if_neg (Token.ne_closing_of_otherwise h kind), if_pos ⟨h, hkind, rfl⟩]

/-- All other tokens are passed over. -/
theorem extent?_passes (hopens : t.opens kind = false) (hcloses : t.lexeme ≠ .closing kind)
    (hdivides : ¬ (t.lexeme = .otherwise ∧ kind ≠ .each ∧ deeper = 0)) :
    extent? kind deeper (.token t :: rest) = (extent? kind deeper rest).map (Extent.later 1) := by
  conv => lhs; unfold extent?
  rw [if_neg (by rw [hopens]; exact Bool.false_ne_true), if_neg hcloses, if_neg hdivides]

/-- Blocks are passed over. -/
theorem extent?_block (k : BlockKind) (opening : Token) (shown : List Item)
    (border : Option Token) (hidden : List Item) (closing : Token) :
    extent? kind deeper (.block k opening shown border hidden closing :: rest) =
      (extent? kind deeper rest).map (Extent.later 1) := by
  rw [extent?]

end Steps

theorem extentFrom?_of_opens {kind : BlockKind} {t : Token} (h : t.opens kind = true)
    (rest : List Item) : extentFrom? kind t rest = extent? kind 0 rest := if_pos h

theorem extentFrom?_of_opens_eq_false {kind : BlockKind} {t : Token} (h : t.opens kind = false)
    (rest : List Item) : extentFrom? kind t rest = none :=
  if_neg (by rw [h]; exact Bool.false_ne_true)

/-- **What a token can be for an extent**: it opens a block of the kind, it closes one, or it does
neither. -/
theorem token_cases (kind : BlockKind) (t : Token) :
    t.opens kind = true ∨ t.lexeme = .closing kind ∨
      (t.opens kind = false ∧ t.lexeme ≠ .closing kind) := by
  by_cases hopens : t.opens kind = true
  · exact .inl hopens
  by_cases hcloses : t.lexeme = .closing kind
  · exact .inr (.inl hcloses)
  · exact .inr (.inr ⟨Bool.eq_false_iff.2 hopens, hcloses⟩)

namespace Extent

theorem later_later (e : Extent) (m n : Nat) : (e.later m).later n = e.later (m + n) := by
  obtain ⟨border, closeAt, closing⟩ := e
  cases border with
  | none => simp only [later, Option.map_none, Nat.add_assoc]
  | some b => simp only [later, Option.map_some, Nat.add_assoc]

theorem inside_sublist (e : Extent) (items : List Item) : (e.inside items).Sublist items :=
  List.take_sublist _ _

theorem shown_sublist (e : Extent) (items : List Item) : (e.shown items).Sublist items := by
  unfold shown
  split
  · exact (List.take_sublist _ _).trans (e.inside_sublist items)
  · exact e.inside_sublist items

theorem hidden_sublist (e : Extent) (items : List Item) : (e.hidden items).Sublist items := by
  unfold hidden
  split
  · exact (List.drop_sublist _ _).trans (e.inside_sublist items)
  · exact List.nil_sublist _

theorem after_sublist (e : Extent) (items : List Item) : (e.after items).Sublist items :=
  List.drop_sublist _ _

end Extent

/-- **Through a block**: deeper by the level of the block, its end is passed and what follows it
decides. -/
theorem extent?_through {kind : BlockKind} {level : Nat} {items : List Item} {e : Extent}
    (h : extent? kind level items = some e) (deeper : Nat) :
    extent? kind (level + deeper + 1) items =
      (extent? kind deeper (e.after items)).map (Extent.later (e.closeAt + 1)) := by
  induction items generalizing level e with
  | nil => rw [extent?] at h; cases h
  | cons item rest ih =>
    have hlater : ∀ {level : Nat} {e : Extent}, extent? kind level rest = some e →
        (extent? kind (level + deeper + 1) rest).map (Extent.later 1) =
          (extent? kind deeper (e.after rest)).map (Extent.later (e.closeAt + 1 + 1)) := by
      intro level e he
      rw [ih he, Option.map_map]
      exact congrArg (Option.map · _) (funext fun e' => e'.later_later _ _)
    cases item with
    | token t =>
      obtain hopens | hcloses | ⟨hopens, hcloses⟩ := token_cases kind t
      · rw [extent?_opens rest hopens] at h ⊢
        obtain ⟨e', he', rfl⟩ := Option.map_eq_some_iff.1 h
        rw [show level + deeper + 1 + 1 = level + 1 + deeper + 1 by omega]
        exact hlater he'
      · cases level with
        | zero =>
          -- the block ends here
          rw [extent?_closes rest hcloses] at h
          cases h
          rw [Nat.zero_add, extent?_returns rest hcloses]
          rfl
        | succ level =>
          rw [extent?_returns rest hcloses] at h
          obtain ⟨e', he', rfl⟩ := Option.map_eq_some_iff.1 h
          rw [extent?_returns rest hcloses, show level + 1 + deeper = level + deeper + 1 by omega]
          exact hlater he'
      · -- from further out, an `else` of the block is one like any other token
        rw [extent?_passes rest hopens hcloses fun hown => Nat.succ_ne_zero _ hown.2.2]
        by_cases hown : t.lexeme = .otherwise ∧ kind ≠ .each ∧ level = 0
        · obtain ⟨helse, hkind, rfl⟩ := hown
          rw [extent?_divides rest helse hkind] at h
          obtain ⟨e', he', rfl⟩ := Option.map_eq_some_iff.1 h
          exact hlater he'
        · rw [extent?_passes rest hopens hcloses hown] at h
          obtain ⟨e', he', rfl⟩ := Option.map_eq_some_iff.1 h
          exact hlater he'
    | block =>
      rw [extent?_block] at h ⊢
      obtain ⟨e', he', rfl⟩ := Option.map_eq_some_iff.1 h
      exact hlater he'

/-! ## Tokens between stages -/

/-- The closing token of an extent is one of the items that it is read from. -/
theorem Extent.Fits.mem_closing {kind : BlockKind} {e : Extent} {rest : List Item}
    (h : e.Fits kind rest) : Item.token e.closing ∈ rest := by
  rw [h.items_eq]
  exact List.mem_append_right _ List.mem_cons_self

/-- And so is its `else`. -/
theorem Extent.Fits.mem_border {kind : BlockKind} {e : Extent} {rest : List Item}
    (h : e.Fits kind rest) {t : Token} (ht : e.border.map Prod.snd = some t) :
    Item.token t ∈ rest := by
  rw [h.items_eq, h.inside_eq, Extent.divider, ht]
  refine List.mem_append_left _ (List.mem_append_left _ (List.mem_append_right _ ?_))
  exact List.mem_singleton_self _

/-- A stage leaves no tokens but those it was given. -/
theorem mem_of_token_mem_groupConditionals {kind : BlockKind} {items : List Item} {t : Token}
    (h : Item.token t ∈ groupConditionals kind items) : Item.token t ∈ items := by
  fun_induction groupConditionals kind items with
  | case1 => exact h
  | case2 u rest _ ih =>
    obtain heq | h := List.mem_cons.1 h
    · exact heq ▸ List.mem_cons_self
    · exact List.mem_cons_of_mem _ (ih h)
  | case3 u rest e _ _ _ ih =>
    obtain heq | h := List.mem_cons.1 h
    · cases heq
    · exact List.mem_cons_of_mem _ ((e.after_sublist rest).subset (ih h))
  | case4 _ _ _ _ _ _ ih =>
    obtain heq | h := List.mem_cons.1 h
    · cases heq
    · exact List.mem_cons_of_mem _ (ih h)
  | case5 _ _ _ _ _ _ _ _ _ _ ih =>
    obtain heq | h := List.mem_cons.1 h
    · cases heq
    · exact List.mem_cons_of_mem _ (ih h)

/-! ## Spent kinds -/

/-- **Items in which a kind of block is spent**: on no level, loops left aside, is there a token
that closes one behind a token that opens one. -/
def Spent (kind : BlockKind) : List Item → Prop
  | [] => True
  | .token t :: rest =>
    (t.opens kind = true → ∀ c, Item.token c ∈ rest → c.lexeme ≠ .closing kind) ∧ Spent kind rest
  | .block k _ shown _ hidden _ :: rest =>
    (k ≠ .each → Spent kind shown ∧ Spent kind hidden) ∧ Spent kind rest

theorem Spent.sublist {kind : BlockKind} {a b : List Item} (h : Spent kind b)
    (hab : a.Sublist b) : Spent kind a := by
  induction hab with
  | slnil => exact h
  | cons item _ ih =>
    cases item with
    | token => rw [Spent] at h; exact ih h.2
    | block => rw [Spent] at h; exact ih h.2
  | cons_cons item hsub ih =>
    cases item with
    | token =>
      rw [Spent] at h ⊢
      exact ⟨fun hopens c hc => h.1 hopens c (hsub.subset hc), ih h.2⟩
    | block => rw [Spent] at h ⊢; exact ⟨h.1, ih h.2⟩

/-- **There is nothing to group where a kind is spent.** -/
theorem Spent.groupConditionals_eq {kind : BlockKind} {items : List Item}
    (h : Spent kind items) : groupConditionals kind items = items := by
  fun_induction groupConditionals kind items with
  | case1 => rfl
  | case2 t rest _ ih =>
    rw [Spent] at h
    rw [ih h.2]
  | case3 t rest e he _ _ _ =>
    rw [Spent] at h
    obtain ⟨hopens, hfits⟩ := of_extentFrom? he
    exact absurd hfits.closes (h.1 hopens e.closing hfits.mem_closing)
  | case4 opening body border hidden closing rest ih =>
    rw [Spent] at h
    rw [ih h.2]
  | case5 k opening shown border hidden closing rest hk ihshown ihhidden ihrest =>
    rw [Spent] at h
    rw [ihshown (h.1 hk).1, ihhidden (h.1 hk).2, ihrest h.2]

/-- Where nothing closes the level of a block, the first token does not, and neither does any
after it if it opens nothing. -/
theorem of_extent?_eq_none {kind : BlockKind} {t : Token} {rest : List Item}
    (h : extent? kind 0 (.token t :: rest) = none) :
    t.lexeme ≠ .closing kind ∧ (t.opens kind = false → extent? kind 0 rest = none) := by
  obtain hopens | hcloses | ⟨hopens, hcloses⟩ := token_cases kind t
  · refine ⟨fun hcloses => ?_, fun hfalse => ?_⟩
    · exact Bool.false_ne_true ((Token.opens_of_closing hcloses kind).symm.trans hopens)
    · exact absurd (hfalse.symm.trans hopens) Bool.false_ne_true
  · rw [extent?_closes rest hcloses] at h
    cases h
  · refine ⟨hcloses, fun _ => ?_⟩
    by_cases hown : t.lexeme = .otherwise ∧ kind ≠ .each ∧ (0 : Nat) = 0
    · rw [extent?_divides rest hown.1 hown.2.1] at h
      exact Option.map_eq_none_iff.1 h
    · rw [extent?_passes rest hopens hcloses hown] at h
      exact Option.map_eq_none_iff.1 h

/-- Where nothing closes the level of a block, its stage leaves no token that closes one. -/
theorem lexeme_ne_closing_of_extent?_eq_none {kind : BlockKind} {items : List Item}
    (h : extent? kind 0 items = none) {c : Token}
    (hc : Item.token c ∈ groupConditionals kind items) : c.lexeme ≠ .closing kind := by
  fun_induction groupConditionals kind items with
  | case1 => cases hc
  | case2 t rest hnone ih =>
    obtain ⟨hcloses, hrest⟩ := of_extent?_eq_none h
    obtain heq | hc := List.mem_cons.1 hc
    · cases heq
      exact hcloses
    · cases hopens : t.opens kind with
      | true =>
        rw [extentFrom?_of_opens hopens] at hnone
        exact ih hnone hc
      | false => exact ih (hrest hopens) hc
  | case3 t rest e he _ _ ihafter =>
    obtain ⟨hopens, -⟩ := of_extentFrom? he
    rw [extentFrom?_of_opens hopens] at he
    -- a block was found, and behind it nothing closes the level either
    have hthrough : extent? kind 1 rest = _ := extent?_through he 0
    rw [extent?_opens rest hopens, hthrough] at h
    obtain heq | hc := List.mem_cons.1 hc
    · cases heq
    · exact ihafter (Option.map_eq_none_iff.1 (Option.map_eq_none_iff.1 h)) hc
  | case4 opening body border hidden closing rest ih =>
    rw [extent?_block] at h
    obtain heq | hc := List.mem_cons.1 hc
    · cases heq
    · exact ih (Option.map_eq_none_iff.1 h) hc
  | case5 k opening shown border hidden closing rest hk _ _ ihrest =>
    rw [extent?_block] at h
    obtain heq | hc := List.mem_cons.1 hc
    · cases heq
    · exact ihrest (Option.map_eq_none_iff.1 h) hc

/-- **A stage spends its kind.** -/
theorem spent_groupConditionals (kind : BlockKind) (items : List Item) :
    Spent kind (groupConditionals kind items) := by
  fun_induction groupConditionals kind items with
  | case1 => rw [Spent]; trivial
  | case2 t rest hnone ih =>
    rw [Spent]
    refine ⟨fun hopens c hc => ?_, ih⟩
    rw [extentFrom?_of_opens hopens] at hnone
    exact lexeme_ne_closing_of_extent?_eq_none hnone hc
  | case3 t rest e he ihshown ihhidden ihafter =>
    rw [Spent]
    exact ⟨fun _ => ⟨ihshown, ihhidden⟩, ihafter⟩
  | case4 opening body border hidden closing rest ih =>
    rw [Spent]
    exact ⟨fun hk => absurd rfl hk, ih⟩
  | case5 k opening shown border hidden closing rest hk ihshown ihhidden ihrest =>
    rw [Spent]
    exact ⟨fun _ => ⟨ihshown, ihhidden⟩, ihrest⟩

/-- A kind that is spent stays so. -/
theorem Spent.groupConditionals {kind : BlockKind} {items : List Item} (h : Spent kind items)
    (k : BlockKind) : Spent kind (groupConditionals k items) := by
  fun_induction Item.groupConditionals k items with
  | case1 => exact h
  | case2 t rest _ ih =>
    rw [Spent] at h ⊢
    exact ⟨fun hopens c hc => h.1 hopens c (mem_of_token_mem_groupConditionals hc), ih h.2⟩
  | case3 t rest e _ ihshown ihhidden ihafter =>
    rw [Spent] at h
    rw [Spent]
    exact ⟨fun _ => ⟨ihshown (h.2.sublist (e.shown_sublist rest)),
      ihhidden (h.2.sublist (e.hidden_sublist rest))⟩, ihafter (h.2.sublist (e.after_sublist rest))⟩
  | case4 opening body border hidden closing rest ih =>
    rw [Spent] at h ⊢
    exact ⟨h.1, ih h.2⟩
  | case5 j opening shown border hidden closing rest hj ihshown ihhidden ihrest =>
    rw [Spent] at h ⊢
    exact ⟨fun _ => ⟨ihshown (h.1 hj).1, ihhidden (h.1 hj).2⟩, ihrest h.2⟩

/-! ## Placed items -/

theorem placed_cons {p : Place} {item : Item} {rest : List Item} :
    Placed p (item :: rest) ↔ Placed p [item] ∧ Placed p rest := by
  cases item with
  | token => simp only [Placed, and_true]
  | block => simp only [Placed, and_true, and_assoc]

/-- Items are placed one by one. -/
theorem placed_iff_forall_mem {p : Place} {items : List Item} :
    Placed p items ↔ ∀ item ∈ items, Placed p [item] := by
  induction items with
  | nil =>
    rw [Placed]
    exact ⟨fun _ _ hitem => absurd hitem List.not_mem_nil, fun _ => trivial⟩
  | cons item rest ih => rw [placed_cons, List.forall_mem_cons, ih]

theorem Placed.sublist {p : Place} {a b : List Item} (h : Placed p b) (hab : a.Sublist b) :
    Placed p a :=
  placed_iff_forall_mem.2 fun item hitem => placed_iff_forall_mem.1 h item (hab.subset hitem)

/-- An `else` that stands alone is not in what an `if` shows. -/
theorem Placed.branch?_ne {p : Place} {items : List Item} (h : Placed p items) {t : Token}
    (hmem : Item.token t ∈ items) (ht : t.lexeme = .otherwise) : p.branch? ≠ some .shown := by
  have hone := placed_iff_forall_mem.1 h _ hmem
  rw [Placed] at hone
  exact hone.1 ht

/-! ## The stage for `if` -/

/-- **Items that leave no `else` to an `if` around them**: some `if`s deep, they close these and
all that they open, and between them and after the last of them there is no `else`. -/
def Clear : (deeper : Nat) → List Item → Prop
  | deeper, [] => deeper = 0
  | deeper, .token t :: rest =>
    if t.opens .ifTrue then Clear (deeper + 1) rest
    else if t.lexeme = .closing .ifTrue then
      match deeper with
      | 0 => False
      | deeper + 1 => Clear deeper rest
    else (t.lexeme = .otherwise → deeper ≠ 0) ∧ Clear deeper rest
  | deeper, .block _ _ _ _ _ _ :: rest => Clear deeper rest

section ClearSteps

variable {deeper : Nat} {t : Token} {rest : List Item}

theorem clear_opens (h : t.opens .ifTrue = true) :
    Clear deeper (.token t :: rest) ↔ Clear (deeper + 1) rest := by
  conv => lhs; unfold Clear
  rw [if_pos h]

theorem not_clear_closes (h : t.lexeme = .closing .ifTrue) : ¬ Clear 0 (.token t :: rest) := by
  rw [Clear, if_neg (by rw [Token.opens_of_closing h]; exact Bool.false_ne_true), if_pos h]
  exact id

theorem clear_returns (h : t.lexeme = .closing .ifTrue) :
    Clear (deeper + 1) (.token t :: rest) ↔ Clear deeper rest := by
  rw [Clear, if_neg (by rw [Token.opens_of_closing h]; exact Bool.false_ne_true), if_pos h]

theorem clear_passes (hopens : t.opens .ifTrue = false) (hcloses : t.lexeme ≠ .closing .ifTrue) :
    Clear deeper (.token t :: rest) ↔ (t.lexeme = .otherwise → deeper ≠ 0) ∧ Clear deeper rest := by
  conv => lhs; unfold Clear
  rw [if_neg (by rw [hopens]; exact Bool.false_ne_true), if_neg hcloses]

end ClearSteps

/-- What an `if` shows leaves no `else` to it. -/
theorem clear_shown {deeper : Nat} {items : List Item} {e : Extent}
    (h : extent? .ifTrue deeper items = some e) : Clear deeper (e.shown items) := by
  induction items generalizing deeper e with
  | nil => rw [extent?] at h; cases h
  | cons item rest ih =>
    cases item with
    | token t =>
      obtain hopens | hcloses | ⟨hopens, hcloses⟩ := token_cases .ifTrue t
      · rw [extent?_opens rest hopens] at h
        obtain ⟨e', he', rfl⟩ := Option.map_eq_some_iff.1 h
        rw [Extent.shown_later, clear_opens hopens]
        exact ih he'
      · cases deeper with
        | zero =>
          rw [extent?_closes rest hcloses] at h
          cases h
          show Clear 0 []
          rw [Clear]
        | succ deeper =>
          rw [extent?_returns rest hcloses] at h
          obtain ⟨e', he', rfl⟩ := Option.map_eq_some_iff.1 h
          rw [Extent.shown_later, clear_returns hcloses]
          exact ih he'
      · by_cases hown : t.lexeme = .otherwise ∧ BlockKind.ifTrue ≠ .each ∧ deeper = 0
        · -- what the block shows is over at its `else`
          obtain ⟨helse, hkind, rfl⟩ := hown
          rw [extent?_divides rest helse hkind] at h
          obtain ⟨e', -, rfl⟩ := Option.map_eq_some_iff.1 h
          show Clear 0 []
          rw [Clear]
        · rw [extent?_passes rest hopens hcloses hown] at h
          obtain ⟨e', he', rfl⟩ := Option.map_eq_some_iff.1 h
          rw [Extent.shown_later, clear_passes hopens hcloses]
          exact ⟨fun helse hzero => hown ⟨helse, by decide, hzero⟩, ih he'⟩
    | block =>
      rw [extent?_block] at h
      obtain ⟨e', he', rfl⟩ := Option.map_eq_some_iff.1 h
      rw [Extent.shown_later, Clear]
      exact ih he'

/-- Where the items after an opening token leave no `else`, its `if` ends, and neither do those
after it. -/
theorem exists_extent?_of_clear {deeper : Nat} {items : List Item} (h : Clear (deeper + 1) items) :
    ∃ e, extent? .ifTrue deeper items = some e ∧ Clear 0 (e.after items) := by
  induction items generalizing deeper with
  | nil => rw [Clear] at h; cases h
  | cons item rest ih =>
    have hlater : ∀ {level : Nat} (f : Extent → Extent),
        (∀ e, (f e).after (item :: rest) = e.after rest) → Clear (level + 1) rest →
        ∃ e, (extent? .ifTrue level rest).map f = some e ∧ Clear 0 (e.after (item :: rest)) := by
      intro level f hf hclear
      obtain ⟨e, he, hafter⟩ := ih hclear
      exact ⟨f e, by rw [he]; rfl, by rw [hf]; exact hafter⟩
    cases item with
    | token t =>
      obtain hopens | hcloses | ⟨hopens, hcloses⟩ := token_cases .ifTrue t
      · rw [clear_opens hopens] at h
        rw [extent?_opens rest hopens]
        exact hlater _ (fun _ => rfl) h
      · rw [clear_returns hcloses] at h
        cases deeper with
        | zero => exact ⟨_, extent?_closes rest hcloses, h⟩
        | succ deeper =>
          rw [extent?_returns rest hcloses]
          exact hlater _ (fun _ => rfl) h
      · rw [clear_passes hopens hcloses] at h
        by_cases hown : t.lexeme = .otherwise ∧ BlockKind.ifTrue ≠ .each ∧ deeper = 0
        · obtain ⟨helse, hkind, rfl⟩ := hown
          rw [extent?_divides rest helse hkind]
          exact hlater _ (fun _ => rfl) h.2
        · rw [extent?_passes rest hopens hcloses hown]
          exact hlater _ (fun _ => rfl) h.2
    | block =>
      rw [Clear] at h
      rw [extent?_block]
      exact hlater _ (fun _ => rfl) h

/-- A token among items that leave no `else` is none, and neither the items after it, if it opens
nothing, nor those after its block leave one. -/
theorem Clear.of_token {t : Token} {rest : List Item} (h : Clear 0 (.token t :: rest)) :
    t.lexeme ≠ .otherwise ∧ (extentFrom? .ifTrue t rest = none → Clear 0 rest) ∧
      ∀ e, extentFrom? .ifTrue t rest = some e → Clear 0 (e.after rest) := by
  obtain hopens | hcloses | ⟨hopens, hcloses⟩ := token_cases .ifTrue t
  · rw [clear_opens hopens] at h
    rw [extentFrom?_of_opens hopens]
    obtain ⟨e, he, hafter⟩ := exists_extent?_of_clear h
    refine ⟨fun helse => ?_, fun hnone => ?_, fun e' he' => ?_⟩
    · exact Bool.false_ne_true ((Token.opens_of_otherwise helse .ifTrue).symm.trans hopens)
    · rw [he] at hnone
      cases hnone
    · rw [he] at he'
      cases he'
      exact hafter
  · exact absurd h (not_clear_closes hcloses)
  · rw [clear_passes hopens hcloses] at h
    rw [extentFrom?_of_opens_eq_false hopens]
    exact ⟨fun helse => h.1 helse rfl, fun _ => h.2,
      fun e he => absurd he.symm (Option.some_ne_none e)⟩

/-- **An item as the stage for `if` finds it**: a token or, outside of loops, a loop that is
settled and placed. -/
def Fresh (inLoop : Bool) : Item → Prop
  | .token _ => True
  | .block kind _ body _ hidden _ =>
    kind = .each ∧ inLoop = false ∧ Placed ⟨true, none⟩ body ∧ hidden = []

/-- **The stage for `if` places what it finds.** Where it is in what an `if` shows, there must be
no `else` left to that `if`. -/
theorem placed_groupConditionals_ifTrue {p : Place} {items : List Item}
    (hfresh : ∀ item ∈ items, Fresh p.inLoop item)
    (hclear : p.branch? = some .shown → Clear 0 items) :
    Placed p (groupConditionals .ifTrue items) := by
  fun_induction groupConditionals .ifTrue items generalizing p with
  | case1 => rw [Placed]; trivial
  | case2 t rest hnone ih =>
    rw [Placed]
    refine ⟨fun helse hshown => (hclear hshown).of_token.1 helse, ?_⟩
    exact ih (List.forall_mem_cons.1 hfresh).2 fun hshown => (hclear hshown).of_token.2.1 hnone
  | case3 t rest e he ihshown ihhidden ihafter =>
    have hrest := (List.forall_mem_cons.1 hfresh).2
    have hextent := he
    rw [extentFrom?_of_opens (of_extentFrom? he).1] at hextent
    rw [Placed]
    refine ⟨fun hkind => absurd hkind (by decide), ?_, ?_, ?_⟩
    · exact ihshown (p := p.within .ifTrue .shown)
        (fun item hitem => hrest item ((e.shown_sublist rest).subset hitem))
        fun _ => clear_shown hextent
    · exact ihhidden (p := p.within .ifTrue .hidden)
        (fun item hitem => hrest item ((e.hidden_sublist rest).subset hitem))
        fun hbranch => by cases hbranch
    · exact ihafter (fun item hitem => hrest item ((e.after_sublist rest).subset hitem))
        fun hshown => (hclear hshown).of_token.2.2 e he
  | case4 opening body border hidden closing rest ih =>
    obtain ⟨⟨-, hloop, hbody, rfl⟩, hrest⟩ := List.forall_mem_cons.1 hfresh
    rw [Placed]
    refine ⟨fun hkind => absurd hkind (by decide), ?_, by rw [Placed]; trivial,
      ih hrest fun hshown => ?_⟩
    · rw [Place.within, hloop]
      exact hbody
    · have hall := hclear hshown
      rw [Clear] at hall
      exact hall
  | case5 k opening shown border hidden closing rest hk _ _ _ =>
    exact absurd (List.forall_mem_cons.1 hfresh).1.1 hk

/-! ## The other stages -/

/-- **The stage for `unless` keeps items placed.** -/
theorem Placed.groupConditionals_unlessTrue {p : Place} {items : List Item} (h : Placed p items) :
    Placed p (groupConditionals .unlessTrue items) := by
  fun_induction groupConditionals .unlessTrue items generalizing p with
  | case1 => exact h
  | case2 t rest _ ih =>
    rw [Placed] at h ⊢
    exact ⟨h.1, ih h.2⟩
  | case3 t rest e he ihshown ihhidden ihafter =>
    rw [Placed] at h
    rw [Placed]
    obtain ⟨-, hfits⟩ := of_extentFrom? he
    refine ⟨fun _ hne => ?_, ihshown (h.2.sublist (e.shown_sublist rest)),
      ihhidden (h.2.sublist (e.hidden_sublist rest)), ihafter (h.2.sublist (e.after_sublist rest))⟩
    -- the `else` that the block takes has stood alone until now
    obtain ⟨b, hb⟩ := Option.ne_none_iff_exists'.1 hne
    exact h.2.branch?_ne (hfits.mem_border hb) (hfits.divides b hb)
  | case4 opening body border hidden closing rest ih =>
    rw [Placed] at h ⊢
    exact ⟨h.1, h.2.1, h.2.2.1, ih h.2.2.2⟩
  | case5 k opening shown border hidden closing rest _ ihshown ihhidden ihrest =>
    rw [Placed] at h ⊢
    exact ⟨h.1, ihshown h.2.1, ihhidden h.2.2.1, ihrest h.2.2.2⟩

/-- **Inside a loop the stage for loops keeps items placed**, since it finds nothing but what the
stages for conditionals have been through. -/
theorem Placed.groupLoops {p : Place} {items : List Item} (h : Placed p items)
    (hloop : p.inLoop = true) (hif : Spent .ifTrue items) (hunless : Spent .unlessTrue items) :
    Placed p (groupLoops items) := by
  fun_induction Item.groupLoops items generalizing p with
  | case1 => exact h
  | case2 t rest _ ih =>
    rw [Spent] at hif hunless
    rw [Placed] at h ⊢
    exact ⟨h.1, ih h.2 hloop hif.2 hunless.2⟩
  | case3 t rest e he ihbody ihafter =>
    rw [Spent] at hif hunless
    rw [Placed] at h
    rw [Placed, Place.within_each hloop]
    -- the stages for conditionals have nothing left to group in a loop within a loop
    have hsettled : groupConditionals .unlessTrue (groupConditionals .ifTrue (e.inside rest)) =
        e.inside rest := by
      rw [(hif.2.sublist (e.inside_sublist rest)).groupConditionals_eq,
        (hunless.2.sublist (e.inside_sublist rest)).groupConditionals_eq]
    rw [hsettled] at ihbody ⊢
    refine ⟨fun hkind => absurd hkind (by decide), ?_, by rw [Placed]; trivial, ?_⟩
    · exact ihbody (h.2.sublist (e.inside_sublist rest)) hloop
        (hif.2.sublist (e.inside_sublist rest)) (hunless.2.sublist (e.inside_sublist rest))
    · exact ihafter (h.2.sublist (e.after_sublist rest)) hloop
        (hif.2.sublist (e.after_sublist rest)) (hunless.2.sublist (e.after_sublist rest))
  | case4 opening body border hidden closing rest ih =>
    rw [Spent] at hif hunless
    rw [Placed] at h ⊢
    exact ⟨h.1, h.2.1, h.2.2.1, ih h.2.2.2 hloop hif.2 hunless.2⟩
  | case5 k opening shown border hidden closing rest hk ihshown ihhidden ihrest =>
    rw [Spent] at hif hunless
    rw [Placed] at h ⊢
    refine ⟨h.1, ?_, ?_, ihrest h.2.2.2 hloop hif.2 hunless.2⟩
    · exact ihshown h.2.1 (Place.inLoop_within hloop k .shown) (hif.1 hk).1 (hunless.1 hk).1
    · exact ihhidden h.2.2.1 (Place.inLoop_within hloop k .hidden) (hif.1 hk).2 (hunless.1 hk).2

/-- The stages in a loop place all of its tokens. -/
theorem placed_body {items : List Item} (h : ∀ item ∈ items, Fresh true item) :
    Placed ⟨true, none⟩
      (groupLoops (groupConditionals .unlessTrue (groupConditionals .ifTrue items))) := by
  have hplaced : Placed ⟨true, none⟩ (groupConditionals .ifTrue items) :=
    placed_groupConditionals_ifTrue h fun hbranch => absurd hbranch (by decide)
  exact hplaced.groupConditionals_unlessTrue.groupLoops rfl
    ((spent_groupConditionals .ifTrue items).groupConditionals .unlessTrue)
    (spent_groupConditionals .unlessTrue _)

/-- **Outside of loops the stage for loops settles and places them.** -/
theorem fresh_groupLoops {items : List Item} (h : ∀ item ∈ items, Fresh true item) :
    ∀ item ∈ groupLoops items, Fresh false item := by
  fun_induction groupLoops items with
  | case1 => exact fun _ hitem => absurd hitem List.not_mem_nil
  | case2 t rest _ ih =>
    exact List.forall_mem_cons.2 ⟨trivial, ih (List.forall_mem_cons.1 h).2⟩
  | case3 t rest e he _ ihafter =>
    have hrest := (List.forall_mem_cons.1 h).2
    refine List.forall_mem_cons.2 ⟨⟨rfl, rfl, ?_, rfl⟩, ?_⟩
    · exact placed_body fun item hitem => hrest item ((e.inside_sublist rest).subset hitem)
    · exact ihafter fun item hitem => hrest item ((e.after_sublist rest).subset hitem)
  | case4 opening body border hidden closing rest _ =>
    cases (List.forall_mem_cons.1 h).1.2.1
  | case5 k opening shown border hidden closing rest _ _ _ _ =>
    cases (List.forall_mem_cons.1 h).1.2.1

/-- **The items of a template are placed**, whatever it holds. -/
theorem placed_ofTemplate (template : String) : Placed .outermost (ofTemplate template) := by
  have htokens : ∀ item ∈ (Token.ofTemplate template).map Item.token, Fresh true item := by
    intro item hitem
    obtain ⟨t, -, rfl⟩ := List.mem_map.1 hitem
    trivial
  have hplaced : Placed .outermost
      (groupConditionals .ifTrue (groupLoops ((Token.ofTemplate template).map .token))) :=
    placed_groupConditionals_ifTrue (fresh_groupLoops htokens) fun hbranch =>
      absurd hbranch (by decide)
  exact hplaced.groupConditionals_unlessTrue

end Item

end Storefront
