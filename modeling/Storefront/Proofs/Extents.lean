import Storefront.Proofs.Stages

/-!
# Where a block ends

From the opening token of a block on, its kind has a *balance* (`Item.balance`):
how many blocks of that kind are open. It begins at one, each token that opens
such a block adds one to it, each that closes one takes one off, and nothing else
matters, least of all what earlier stages have put into blocks.

The block ends where the balance comes down to zero for the first time, and what
divides it is the first `else` in front of that at a balance of one. That is what
the extent of a block is (`Extent.Ends`), and it is only one
(`Extent.Ends.unique`). A search that finds nothing has seen the balance above
zero all along (`balance_pos_of_extent?_eq_none`), so the two cases exclude each
other and the extent is found whenever there is one (`extent?_eq_some_iff`).
-/

namespace Storefront

namespace Item

/-! ## The balance of a kind -/

/-- What an item adds to the balance of a kind. -/
def shift (kind : BlockKind) : Item → Int
  | .token t => if t.opens kind then 1 else if t.lexeme = .closing kind then -1 else 0
  | .block _ _ _ _ _ _ => 0

/-- **The balance of a kind behind some items**, when it is `level` in front of them. -/
def balance (kind : BlockKind) (level : Int) (items : List Item) : Int :=
  items.foldl (fun n item => n + shift kind item) level

section Shift

variable {kind : BlockKind} {t : Token}

theorem shift_opens (h : t.opens kind = true) : shift kind (.token t) = 1 := if_pos h

theorem shift_closes (h : t.lexeme = .closing kind) : shift kind (.token t) = -1 := by
  rw [shift, if_neg (Bool.eq_false_iff.1 (Token.opens_of_closing h kind)), if_pos h]

theorem shift_passes (hopens : t.opens kind = false) (hcloses : t.lexeme ≠ .closing kind) :
    shift kind (.token t) = 0 := by
  rw [shift, if_neg (Bool.eq_false_iff.1 hopens), if_neg hcloses]

theorem shift_else (h : t.lexeme = .otherwise) : shift kind (.token t) = 0 :=
  shift_passes (Token.opens_of_otherwise h kind) (Token.ne_closing_of_otherwise h kind)

end Shift

theorem balance_take_zero (kind : BlockKind) (level : Int) (items : List Item) :
    balance kind level (items.take 0) = level := rfl

theorem balance_take_succ (kind : BlockKind) (level : Int) (item : Item) (rest : List Item)
    (n : Nat) :
    balance kind level ((item :: rest).take (n + 1)) =
      balance kind (level + shift kind item) (rest.take n) := rfl

/-- **An `else` on the level of a block** among the items after its opening token. -/
structure ElseAt (kind : BlockKind) (level : Int) (items : List Item) (i : Nat) (t : Token) :
    Prop where
  /-- It stands there. -/
  at_index : items[i]? = some (.token t)
  /-- It is an `else`. -/
  isElse : t.lexeme = .otherwise
  /-- No more blocks of the kind are open there than the one. -/
  on_level : balance kind level (items.take i) = 1

variable {kind : BlockKind} {level : Int} {item : Item} {rest : List Item}

theorem elseAt_succ {i : Nat} {t : Token} :
    ElseAt kind level (item :: rest) (i + 1) t ↔
      ElseAt kind (level + shift kind item) rest i t :=
  ⟨fun h => ⟨h.at_index, h.isElse, h.on_level⟩, fun h => ⟨h.at_index, h.isElse, h.on_level⟩⟩

theorem elseAt_zero {t : Token} :
    ElseAt kind level (item :: rest) 0 t ↔
      item = .token t ∧ t.lexeme = .otherwise ∧ level = 1 :=
  ⟨fun h => ⟨Option.some.inj h.at_index, h.isElse, h.on_level⟩,
    fun ⟨hitem, helse, hlevel⟩ => ⟨congrArg some hitem, helse, hlevel⟩⟩

theorem of_elseAt_zero {t u : Token} (h : ElseAt kind level (.token t :: rest) 0 u) :
    t.lexeme = .otherwise ∧ level = 1 := by
  obtain ⟨hitem, helse, hlevel⟩ := elseAt_zero.1 h
  cases hitem
  exact ⟨helse, hlevel⟩

/-! ## Extents -/

/-- **The extent that ends a block** with the items after its opening token, when its kind has a
balance of `level` in front of them. -/
structure Extent.Ends (kind : BlockKind) (level : Int) (items : List Item) (e : Extent) : Prop where
  /-- The closing token is where the block ends. -/
  at_close : items[e.closeAt]? = some (.token e.closing)
  /-- It is of the block's kind. -/
  closes : e.closing.lexeme = .closing kind
  /-- With it the balance is zero. -/
  balanced : balance kind level (items.take (e.closeAt + 1)) = 0
  /-- It never was before. -/
  pos : ∀ n ≤ e.closeAt, 0 < balance kind level (items.take n)
  /-- What divides the block, if it is no loop, is the first `else` on its level. -/
  border_iff : ∀ i t, e.border = some (i, t) ↔ kind ≠ .each ∧ i < e.closeAt ∧
    ElseAt kind level items i t ∧ ∀ j < i, ∀ u, ¬ ElseAt kind level items j u

namespace Extent

variable {e : Extent}

/-- The closing token of the level ends the block where it stands. -/
theorem ends_here {t : Token} (h : t.lexeme = .closing kind) (rest : List Item) :
    Ends kind 1 (.token t :: rest) ⟨none, 0, t⟩ where
  at_close := rfl
  closes := h
  balanced := by
    rw [balance_take_succ, balance_take_zero, shift_closes h]
    rfl
  pos n hn := by
    rw [Nat.le_zero.1 hn, balance_take_zero]
    exact Int.one_pos
  border_iff i t := ⟨nofun, fun h => absurd h.2.1 (Nat.not_lt_zero i)⟩

theorem border_later_iff {i : Nat} {t : Token} :
    (e.later 1).border = some (i, t) ↔ ∃ j, e.border = some (j, t) ∧ i = j + 1 := by
  rw [later, Option.map_eq_some_iff]
  constructor
  · rintro ⟨⟨j, u⟩, hborder, hpair⟩
    obtain ⟨rfl, rfl⟩ := Prod.mk.inj hpair
    exact ⟨j, hborder, rfl⟩
  · rintro ⟨j, hborder, rfl⟩
    exact ⟨(j, t), hborder, rfl⟩

/-- **Seen from an item earlier**, which is no `else` of the block, an extent is the same. -/
theorem Ends.later (h : e.Ends kind (level + shift kind item) rest) (hlevel : 0 < level)
    (hitem : kind ≠ .each → ∀ t, ¬ ElseAt kind level (item :: rest) 0 t) :
    (e.later 1).Ends kind level (item :: rest) where
  at_close := h.at_close
  closes := h.closes
  balanced := h.balanced
  pos n hn := by
    cases n with
    | zero => exact hlevel
    | succ n => exact h.pos n (Nat.le_of_succ_le_succ hn)
  border_iff i t := by
    rw [border_later_iff]
    -- with nothing at the item in front, all that is at the others is one place later
    constructor
    · rintro ⟨j, hborder, rfl⟩
      obtain ⟨hkind, hlt, helse, hfirst⟩ := (h.border_iff j t).1 hborder
      refine ⟨hkind, Nat.succ_lt_succ hlt, elseAt_succ.2 helse, fun k hk u hu => ?_⟩
      cases k with
      | zero => exact hitem hkind u hu
      | succ k => exact hfirst k (Nat.lt_of_succ_lt_succ hk) u (elseAt_succ.1 hu)
    · rintro ⟨hkind, hlt, helse, hfirst⟩
      cases i with
      | zero => exact absurd helse (hitem hkind t)
      | succ i =>
        refine ⟨i, (h.border_iff i t).2 ⟨hkind, Nat.lt_of_succ_lt_succ hlt, elseAt_succ.1 helse,
          fun k hk u hu => ?_⟩, rfl⟩
        exact hfirst (k + 1) (Nat.succ_lt_succ hk) u (elseAt_succ.2 hu)

/-- **Seen from an `else` on its level**, an extent has that one. -/
theorem Ends.fromElse {t : Token} (h : e.Ends kind 1 rest) (ht : t.lexeme = .otherwise)
    (hkind : kind ≠ .each) : (e.fromElse t).Ends kind 1 (.token t :: rest) := by
  have hshift : (1 : Int) + shift kind (.token t) = 1 := by
    rw [shift_else ht]
    rfl
  have helse : ElseAt kind 1 (.token t :: rest) 0 t := elseAt_zero.2 ⟨rfl, ht, rfl⟩
  refine ⟨h.at_close, h.closes, ?_, fun n hn => ?_, fun i u => ⟨fun hborder => ?_, ?_⟩⟩
  · rw [Extent.fromElse, balance_take_succ, hshift]
    exact h.balanced
  · cases n with
    | zero => exact Int.one_pos
    | succ n =>
      rw [balance_take_succ, hshift]
      exact h.pos n (Nat.le_of_succ_le_succ hn)
  · obtain ⟨rfl, rfl⟩ := Prod.mk.inj (Option.some.inj hborder)
    exact ⟨hkind, Nat.succ_pos _, helse, fun j hj => absurd hj (Nat.not_lt_zero j)⟩
  · rintro ⟨-, -, hu, hfirst⟩
    cases i with
    | zero =>
      obtain ⟨hitem, -⟩ := elseAt_zero.1 hu
      cases hitem
      rfl
    | succ i => exact absurd helse (hfirst 0 (Nat.succ_pos i) t)

/-- **A block ends in one place only.** -/
theorem Ends.unique {items : List Item} {e' : Extent} (h : e.Ends kind level items)
    (h' : e'.Ends kind level items) : e = e' := by
  have hclose : e.closeAt = e'.closeAt := by
    -- behind the earlier of two ends the balance would be zero, and in front of the later it is not
    obtain hlt | heq | hlt := Nat.lt_trichotomy e.closeAt e'.closeAt
    · exact absurd h.balanced (h'.pos (e.closeAt + 1) hlt).ne'
    · exact heq
    · exact absurd h'.balanced (h.pos (e'.closeAt + 1) hlt).ne'
  have hclosing : e.closing = e'.closing := by
    have hat := h.at_close
    rw [hclose, h'.at_close] at hat
    exact (Item.token.inj (Option.some.inj hat)).symm
  have hborder : e.border = e'.border := by
    ext ⟨i, t⟩
    rw [h.border_iff, h'.border_iff, hclose]
  obtain ⟨border, closeAt, closing⟩ := e
  obtain rfl : closeAt = e'.closeAt := hclose
  obtain rfl : closing = e'.closing := hclosing
  obtain rfl : border = e'.border := hborder
  rfl

end Extent

/-! ## What is found -/

/-- **One step of the search**: the block ends here, this is its `else`, or the search goes on with the
balance behind the item. -/
theorem extent?_cases (kind : BlockKind) (deeper : Nat) (item : Item) (rest : List Item) :
    (∃ t, item = .token t ∧ t.lexeme = .closing kind ∧ deeper = 0 ∧
        extent? kind deeper (item :: rest) = some ⟨none, 0, t⟩) ∨
      (∃ t, item = .token t ∧ t.lexeme = .otherwise ∧ kind ≠ .each ∧ deeper = 0 ∧
        extent? kind deeper (item :: rest) = (extent? kind 0 rest).map (Extent.fromElse t)) ∨
      ∃ next : Nat, (deeper : Int) + 1 + shift kind item = next + 1 ∧
        (kind ≠ .each → ∀ t, ¬ ElseAt kind (deeper + 1) (item :: rest) 0 t) ∧
        extent? kind deeper (item :: rest) = (extent? kind next rest).map (Extent.later 1) := by
  cases item with
  | block =>
    refine .inr (.inr ⟨deeper, Int.add_zero _, fun _ t helse => ?_, extent?_block rest ..⟩)
    cases (elseAt_zero.1 helse).1
  | token t =>
    obtain hopens | hcloses | ⟨hopens, hcloses⟩ := token_cases kind t
    · refine .inr (.inr ⟨deeper + 1, by rw [shift_opens hopens]; rfl, fun _ u hu => ?_,
        extent?_opens rest hopens⟩)
      exact Bool.eq_false_iff.1 (Token.opens_of_otherwise (of_elseAt_zero hu).1 kind) hopens
    · cases deeper with
      | zero => exact .inl ⟨t, rfl, hcloses, rfl, extent?_closes rest hcloses⟩
      | succ deeper =>
        refine .inr (.inr ⟨deeper, by rw [shift_closes hcloses]; omega, fun _ u hu => ?_,
          extent?_returns rest hcloses⟩)
        exact Token.ne_closing_of_otherwise (of_elseAt_zero hu).1 kind hcloses
    · by_cases hown : t.lexeme = .otherwise ∧ kind ≠ .each ∧ deeper = 0
      · obtain ⟨helse, hkind, rfl⟩ := hown
        exact .inr (.inl ⟨t, rfl, helse, hkind, rfl, extent?_divides rest helse hkind⟩)
      · refine .inr (.inr ⟨deeper, by rw [shift_passes hopens hcloses]; exact Int.add_zero _,
          fun hkind u hu => ?_, extent?_passes rest hopens hcloses hown⟩)
        obtain ⟨helse, hone⟩ := of_elseAt_zero hu
        exact hown ⟨helse, hkind, by omega⟩

/-- **An extent that is found ends the block.** -/
theorem ends_of_extent? {items : List Item} {deeper : Nat} {e : Extent}
    (h : extent? kind deeper items = some e) : e.Ends kind (deeper + 1) items := by
  induction items generalizing deeper e with
  | nil => rw [extent?] at h; cases h
  | cons item rest ih =>
    obtain ⟨t, rfl, hcloses, rfl, hstep⟩ | ⟨t, rfl, helse, hkind, rfl, hstep⟩ |
      ⟨next, hnext, hitem, hstep⟩ := extent?_cases kind deeper item rest
    · rw [hstep] at h
      cases h
      exact Extent.ends_here hcloses rest
    · rw [hstep] at h
      obtain ⟨e', he', rfl⟩ := Option.map_eq_some_iff.1 h
      exact (ih he').fromElse helse hkind
    · rw [hstep] at h
      obtain ⟨e', he', rfl⟩ := Option.map_eq_some_iff.1 h
      refine Extent.Ends.later ?_ (by omega) hitem
      rw [hnext]
      exact ih he'

/-- **Where no extent is found**, the balance stays above zero. -/
theorem balance_pos_of_extent?_eq_none {items : List Item} {deeper : Nat}
    (h : extent? kind deeper items = none) (n : Nat) :
    0 < balance kind (deeper + 1) (items.take n) := by
  induction items generalizing deeper n with
  | nil =>
    rw [List.take_nil, balance, List.foldl_nil]
    omega
  | cons item rest ih =>
    cases n with
    | zero =>
      rw [balance_take_zero]
      omega
    | succ n =>
      obtain ⟨t, rfl, -, rfl, hstep⟩ | ⟨t, rfl, helse, -, rfl, hstep⟩ | ⟨next, hnext, -, hstep⟩ :=
        extent?_cases kind deeper item rest
      · rw [hstep] at h
        cases h
      · rw [hstep] at h
        rw [balance_take_succ, shift_else helse, Int.add_zero]
        exact ih (Option.map_eq_none_iff.1 h) n
      · rw [hstep] at h
        rw [balance_take_succ, hnext]
        exact ih (Option.map_eq_none_iff.1 h) n

variable {items : List Item}

/-- **The extent of a block is found exactly when it ends.** -/
theorem extent?_eq_some_iff {e : Extent} :
    extent? kind 0 items = some e ↔ e.Ends kind 1 items := by
  refine ⟨fun h => ends_of_extent? h, fun h => ?_⟩
  cases hfound : extent? kind 0 items with
  | none =>
    have hpos := balance_pos_of_extent?_eq_none hfound (e.closeAt + 1)
    exact absurd h.balanced hpos.ne'
  | some e' => rw [(ends_of_extent? hfound).unique h]

/-- Neither the `else` of an inner block nor the second one of its own divides a block, and what
closes another kind does not close it. -/
example :
    let token (l : Lexeme) : Token := ⟨l, "", 0, 1⟩
    extent? .ifTrue 0 ([.opening .ifTrue "a", .otherwise, .closing .ifTrue, .closing .each,
      .otherwise, .otherwise, .closing .ifTrue].map fun l => .token (token l)) =
        some ⟨some (4, token .otherwise), 6, token (.closing .ifTrue)⟩ := by
  decide

/-- A block ends exactly when its kind comes to a balance of zero. -/
theorem exists_extent?_iff :
    (∃ e, extent? kind 0 items = some e) ↔ ∃ n, balance kind 1 (items.take n) = 0 := by
  constructor
  · rintro ⟨e, he⟩
    exact ⟨e.closeAt + 1, (ends_of_extent? he).balanced⟩
  · rintro ⟨n, hn⟩
    cases hfound : extent? kind 0 items with
    | none => exact absurd hn (balance_pos_of_extent?_eq_none hfound n).ne'
    | some e => exact ⟨e, rfl⟩

end Item

end Storefront
