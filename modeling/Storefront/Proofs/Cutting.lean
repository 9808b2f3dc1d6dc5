import Storefront.Proofs.Extents

/-!
# Cutting blocks out at positions

An extent hands over the closing token of a block and the `else` in it. Found by
counting, they are positions, and whoever cuts at positions can be wrong: the
level can be taken below zero, there can be too few items to cut, and what stands
at a position may be no token. Here the stages are told in that way once more
(`cutConditionals`, `cutLoops`), with a `CutFault` for each of these.

None of them ever comes about. The search stops with its level at zero and never
goes below (`seek_eq`). The extent that it finds ends the block, so it has its
closing token where it says and its `else` in front of that (`Extent.Ends`), and
cutting there gives the parts of the extent (`Extent.Ends.cutAt_eq`). So does the
whole step (`cutBlock_eq`), for any items behind any token, and stage by stage the
items of a template are what they were (`cutTemplate_eq`).
-/

namespace Storefront

namespace Item

/-- **What could go wrong** when blocks are found by counting and cut out at positions. -/
inductive CutFault where
  /-- The level is taken below zero. -/
  | level
  /-- There are fewer items than there are to be cut off. -/
  | position
  /-- There is no token where the block is closed or divided. -/
  | token

/-! ## Finding positions -/

/-- **The search for the end of a block**, from `index` on, with the `level` that is reached and the
position of the `else` if it has been seen; what is found is where the `else` is and where the block is
closed. -/
def seek (kind : BlockKind) : (index level : Nat) → (border : Option Nat) → List Item →
    Except CutFault (Option (Option Nat × Nat))
  | _, _, _, [] => .ok none
  | index, level, border, .token t :: rest =>
    if t.opens kind then seek kind (index + 1) (level + 1) border rest
    else if t.lexeme = .closing kind then
      match level with
      | 0 => .error .level
      | 1 => .ok (some (border, index))
      | level + 2 => seek kind (index + 1) (level + 1) border rest
    else if t.lexeme = .otherwise ∧ kind ≠ .each ∧ level = 1 ∧ border = none then
      seek kind (index + 1) level (some index) rest
    else seek kind (index + 1) level border rest
  | index, level, border, .block _ _ _ _ _ _ :: rest => seek kind (index + 1) level border rest

/-- The positions of an extent, which is read from `index` on, when an `else` has been seen or not. -/
def Extent.positions (index : Nat) (border : Option Nat) (e : Extent) : Option Nat × Nat :=
  (border.or (e.border.map fun b => b.1 + index), e.closeAt + index)

theorem Extent.positions_here (index : Nat) (border : Option Nat) (t : Token) :
    Extent.positions index border ⟨none, 0, t⟩ = (border, index) := by
  rw [positions, Option.map_none, Option.or_none, Nat.zero_add]

theorem Extent.positions_later (index : Nat) (border : Option Nat) (e : Extent) :
    (e.later 1).positions index border = e.positions (index + 1) border := by
  obtain ⟨divider, closeAt, closing⟩ := e
  cases divider with
  | none => simp only [later, positions, Option.map_none, Nat.add_assoc, Nat.add_comm 1]
  | some b => simp only [later, positions, Option.map_some, Nat.add_assoc, Nat.add_comm 1]

/-- An `else` behind another is not the one of the block. -/
theorem Extent.positions_fromElse (index : Nat) (border : Option Nat) (t : Token) (e : Extent) :
    (e.fromElse t).positions index border =
      e.positions (index + 1) (border.or (some index)) := by
  cases border with
  | none => simp [fromElse, positions, Nat.add_assoc, Nat.add_comm 1]
  | some b => simp [fromElse, positions, Nat.add_assoc, Nat.add_comm 1]

/-- **The search finds the positions of the extent**, and its level never falls below zero. -/
theorem seek_eq (kind : BlockKind) (items : List Item) (index deeper : Nat) (border : Option Nat) :
    seek kind index (deeper + 1) border items =
      .ok ((extent? kind deeper items).map (Extent.positions index border)) := by
  induction items generalizing index deeper border with
  | nil => rw [seek, extent?, Option.map_none]
  | cons item rest ih =>
    have hlater : ∀ next : Nat, seek kind (index + 1) (next + 1) border rest =
        .ok (((extent? kind next rest).map (Extent.later 1)).map
          (Extent.positions index border)) := by
      intro next
      rw [ih, Option.map_map]
      exact congrArg (fun f => Except.ok (Option.map f _))
        (funext fun e => (e.positions_later index border).symm)
    cases item with
    | block =>
      rw [seek, extent?_block]
      exact hlater deeper
    | token t =>
      unfold seek
      obtain hopens | hcloses | ⟨hopens, hcloses⟩ := token_cases kind t
      · rw [if_pos hopens, extent?_opens rest hopens]
        exact hlater (deeper + 1)
      · rw [if_neg (Bool.eq_false_iff.1 (Token.opens_of_closing hcloses kind)), if_pos hcloses]
        cases deeper with
        | zero =>
          rw [extent?_closes rest hcloses, Option.map_some, Extent.positions_here]
        | succ deeper =>
          rw [extent?_returns rest hcloses]
          exact hlater deeper
      · rw [if_neg (Bool.eq_false_iff.1 hopens), if_neg hcloses]
        by_cases hown : t.lexeme = .otherwise ∧ kind ≠ .each ∧ deeper = 0
        · obtain ⟨helse, hkind, rfl⟩ := hown
          have hdivided : seek kind (index + 1) 1 (border.or (some index)) rest =
              .ok ((extent? kind 0 (.token t :: rest)).map (Extent.positions index border)) := by
            rw [ih, extent?_divides rest helse hkind, Option.map_map]
            exact congrArg (fun f => Except.ok (Option.map f _))
              (funext fun e => (e.positions_fromElse index border t).symm)
          -- the first one is kept
          cases border with
          | none => rw [if_pos ⟨helse, hkind, rfl, rfl⟩]; exact hdivided
          | some b => rw [if_neg fun h => Option.some_ne_none b h.2.2.2]; exact hdivided
        · rw [if_neg fun h => hown ⟨h.1, h.2.1, Nat.succ_injective h.2.2.1⟩,
            extent?_passes rest hopens hcloses hown]
          exact hlater deeper

/-! ## Cutting -/

/-- The first `n` items, and the others. -/
def cutOff (n : Nat) (items : List Item) : Except CutFault (List Item × List Item) :=
  if n ≤ items.length then .ok (items.take n, items.drop n) else .error .position

/-- The token that items begin with, and the others. -/
def takeToken : List Item → Except CutFault (Token × List Item)
  | .token t :: rest => .ok (t, rest)
  | _ => .error .token

/-- **A block that has been cut out** of the items after its opening token. -/
structure Cut where
  /-- What is in it before its `else`. -/
  shown : List Item
  /-- Its `else`. -/
  border : Option Token
  /-- What is in it after that. -/
  hidden : List Item
  /-- Its closing token. -/
  closing : Token
  /-- What comes after it. -/
  after : List Item

/-- **Cuts a block out** that is divided and closed at given positions. -/
def cutAt (items : List Item) : (positions : Option Nat × Nat) → Except CutFault Cut
  | (none, closeAt) => do
    let (inside, others) ← cutOff closeAt items
    let (closing, after) ← takeToken others
    return ⟨inside, none, [], closing, after⟩
  | (some i, closeAt) => do
    let (inside, others) ← cutOff closeAt items
    let (closing, after) ← takeToken others
    let (shown, others) ← cutOff i inside
    let (border, hidden) ← takeToken others
    return ⟨shown, some border, hidden, closing, after⟩

/-- **The block that a token opens, cut out**, when it opens one of some kind and that ends. -/
def cutBlock (kind : BlockKind) (t : Token) (rest : List Item) : Except CutFault (Option Cut) :=
  if t.opens kind then do
    match ← seek kind 0 1 none rest with
    | none => return none
    | some positions => return some (← cutAt rest positions)
  else return none

/-- What an extent cuts out of items. -/
def Extent.cut (items : List Item) (e : Extent) : Cut :=
  ⟨e.shown items, e.border.map Prod.snd, e.hidden items, e.closing, e.after items⟩

theorem cutOff_of_getElem? {items : List Item} {i : Nat} {item : Item}
    (h : items[i]? = some item) : cutOff i items = .ok (items.take i, items.drop i) :=
  if_pos (List.getElem?_eq_some_iff.1 h).1.le

theorem takeToken_drop {items : List Item} {i : Nat} {t : Token}
    (h : items[i]? = some (.token t)) : takeToken (items.drop i) = .ok (t, items.drop (i + 1)) := by
  obtain ⟨hlt, hitem⟩ := List.getElem?_eq_some_iff.1 h
  rw [List.drop_eq_getElem_cons hlt, hitem, takeToken]

/-- **Cutting at the positions of an extent gives its parts.** -/
theorem Extent.Ends.cutAt_eq {kind : BlockKind} {level : Int} {items : List Item} {e : Extent}
    (h : e.Ends kind level items) : cutAt items (e.positions 0 none) = .ok (e.cut items) := by
  have hinside := cutOff_of_getElem? h.at_close
  have hclosing := takeToken_drop h.at_close
  obtain ⟨border, closeAt, closing⟩ := e
  dsimp only at hinside hclosing
  cases border with
  | none =>
    have hcut : cutAt items (none, closeAt) =
        .ok ⟨items.take closeAt, none, [], closing, items.drop (closeAt + 1)⟩ := by
      simp only [cutAt, hinside, hclosing, bind, Except.bind, pure, Except.pure]
    exact hcut
  | some b =>
    obtain ⟨i, t⟩ := b
    obtain ⟨-, hlt, helse, -⟩ := (h.border_iff i t).1 rfl
    have hat : (items.take closeAt)[i]? = some (.token t) := by
      rw [List.getElem?_take_of_lt hlt]
      exact helse.at_index
    have hshown := cutOff_of_getElem? hat
    have hhidden := takeToken_drop hat
    have hcut : cutAt items (some i, closeAt) =
        .ok ⟨(items.take closeAt).take i, some t, (items.take closeAt).drop (i + 1), closing,
          items.drop (closeAt + 1)⟩ := by
      simp only [cutAt, hinside, hclosing, hshown, hhidden, bind, Except.bind, pure, Except.pure]
    exact hcut

/-- **What is cut out is what the extent of a block gives**, whatever token and items there are. -/
theorem cutBlock_eq (kind : BlockKind) (t : Token) (rest : List Item) :
    cutBlock kind t rest = .ok ((extentFrom? kind t rest).map (Extent.cut rest)) := by
  unfold cutBlock extentFrom?
  by_cases hopens : t.opens kind = true
  · have hseek : seek kind 0 1 none rest = _ := seek_eq kind rest 0 0 none
    rw [if_pos hopens, if_pos hopens, hseek]
    cases hextent : extent? kind 0 rest with
    | none => rfl
    | some e =>
      have hcut : cutAt rest (e.positions 0 none) = .ok (e.cut rest) :=
        (ends_of_extent? hextent).cutAt_eq
      simp only [Option.map_some, hcut, bind, Except.bind, pure, Except.pure]
  · rw [if_neg hopens, if_neg hopens]
    rfl

section Blocks

variable {kind : BlockKind} {t : Token} {rest : List Item}

theorem cutBlock_of_none (h : extentFrom? kind t rest = none) :
    cutBlock kind t rest = .ok none := by
  rw [cutBlock_eq, h, Option.map_none]

theorem cutBlock_of_some {e : Extent} (h : extentFrom? kind t rest = some e) :
    cutBlock kind t rest = .ok (some (e.cut rest)) := by
  rw [cutBlock_eq, h, Option.map_some]

/-- What is left to do in the parts of a block was left to do behind its opening token. -/
theorem weights_of_cutBlock {c : Cut} (h : cutBlock kind t rest = .ok (some c)) :
    weights c.shown + weights c.hidden + weights c.after ≤ weights rest := by
  rw [cutBlock_eq] at h
  obtain ⟨e, -, rfl⟩ := Option.map_eq_some_iff.1 (Except.ok.inj h)
  exact weights_extent_le e rest

end Blocks

/-! ## The stages -/

/-- **A stage for conditionals** that cuts blocks out at positions. -/
def cutConditionals (kind : BlockKind) (items : List Item) : Except CutFault (List Item) :=
  match items with
  | [] => .ok []
  | .token t :: rest =>
    match _ : cutBlock kind t rest with
    | .error fault => .error fault
    | .ok none => do return .token t :: (← cutConditionals kind rest)
    | .ok (some c) => do
      return .block kind t (← cutConditionals kind c.shown) c.border
          (← cutConditionals kind c.hidden) c.closing ::
        (← cutConditionals kind c.after)
  | .block .each opening body border hidden closing :: rest => do
    return .block .each opening body border hidden closing :: (← cutConditionals kind rest)
  | .block k opening shown border hidden closing :: rest => do
    return .block k opening (← cutConditionals kind shown) border (← cutConditionals kind hidden)
        closing ::
      (← cutConditionals kind rest)
termination_by weights items
decreasing_by
  all_goals simp only [weights, weight]
  · omega
  · have := weights_of_cutBlock ‹_›
    omega
  · have := weights_of_cutBlock ‹_›
    omega
  · have := weights_of_cutBlock ‹_›
    omega
  · omega
  · omega
  · omega
  · omega

/-- **Cut at positions, a stage for conditionals never fails**, and gives the same items. -/
theorem cutConditionals_eq (kind : BlockKind) (items : List Item) :
    cutConditionals kind items = .ok (groupConditionals kind items) := by
  fun_induction groupConditionals kind items with
  | case1 => rw [cutConditionals]
  | case2 t rest hnone ih =>
    have hblock := cutBlock_of_none hnone
    rw [cutConditionals]
    -- of what cutting can come to, only what the extent says is left
    split
    · next hfault => cases hblock.symm.trans hfault
    · rw [ih]
      rfl
    · next hcut => cases hblock.symm.trans hcut
  | case3 t rest e he ihshown ihhidden ihafter =>
    have hblock := cutBlock_of_some he
    rw [cutConditionals]
    split
    · next hfault => cases hblock.symm.trans hfault
    · next hnone => cases hblock.symm.trans hnone
    · next c hcut =>
      cases hblock.symm.trans hcut
      rw [Extent.cut, ihshown, ihhidden, ihafter]
      rfl
  | case4 opening body border hidden closing rest ih =>
    rw [cutConditionals, ih]
    rfl
  | case5 k opening shown border hidden closing rest hk ihshown ihhidden ihrest =>
    rw [cutConditionals, ihshown, ihhidden, ihrest]
    · rfl
    · exact hk

/-- The stages for conditionals, one after the other, cutting at positions. -/
def cutBranches (items : List Item) : Except CutFault (List Item) := do
  cutConditionals .unlessTrue (← cutConditionals .ifTrue items)

theorem cutBranches_eq (items : List Item) :
    cutBranches items = .ok (groupConditionals .unlessTrue (groupConditionals .ifTrue items)) := by
  rw [cutBranches, cutConditionals_eq]
  exact cutConditionals_eq .unlessTrue (groupConditionals .ifTrue items)

theorem weights_of_cutBranches {items branched : List Item} (h : cutBranches items = .ok branched) :
    weights branched ≤ weights items := by
  cases (cutBranches_eq items).symm.trans h
  exact (weights_groupConditionals_le _ _).trans (weights_groupConditionals_le _ _)

/-- **The stage for loops** that cuts blocks out at positions. -/
def cutLoops (items : List Item) : Except CutFault (List Item) :=
  match items with
  | [] => .ok []
  | .token t :: rest =>
    match _ : cutBlock .each t rest with
    | .error fault => .error fault
    | .ok none => do return .token t :: (← cutLoops rest)
    | .ok (some c) =>
      match _ : cutBranches c.shown with
      | .error fault => .error fault
      | .ok body => do
        return .block .each t (← cutLoops body) c.border c.hidden c.closing :: (← cutLoops c.after)
  | .block .each opening body border hidden closing :: rest => do
    return .block .each opening body border hidden closing :: (← cutLoops rest)
  | .block k opening shown border hidden closing :: rest => do
    return .block k opening (← cutLoops shown) border (← cutLoops hidden) closing ::
      (← cutLoops rest)
termination_by weights items
decreasing_by
  all_goals simp only [weights, weight]
  · omega
  · have := weights_of_cutBlock ‹_›
    have := weights_of_cutBranches ‹_›
    omega
  · have := weights_of_cutBlock ‹_›
    omega
  · omega
  · omega
  · omega
  · omega

/-- **Cut at positions, the stage for loops never fails**, and gives the same items. -/
theorem cutLoops_eq (items : List Item) : cutLoops items = .ok (groupLoops items) := by
  fun_induction groupLoops items with
  | case1 => rw [cutLoops]
  | case2 t rest hnone ih =>
    have hblock := cutBlock_of_none hnone
    rw [cutLoops]
    split
    · next hfault => cases hblock.symm.trans hfault
    · rw [ih]
      rfl
    · next hcut => cases hblock.symm.trans hcut
  | case3 t rest e he ihbody ihafter =>
    have hblock := cutBlock_of_some he
    obtain ⟨-, hfits⟩ := of_extentFrom? he
    rw [cutLoops]
    split
    · next hfault => cases hblock.symm.trans hfault
    · next hnone => cases hblock.symm.trans hnone
    · next c hcut =>
      cases hblock.symm.trans hcut
      have hbranches : cutBranches (e.cut rest).shown = .ok _ := cutBranches_eq (e.shown rest)
      split
      · next hfault => cases hbranches.symm.trans hfault
      · next body hbody =>
        cases hbranches.symm.trans hbody
        rw [hfits.inside_eq_shown rfl] at ihbody ⊢
        rw [ihbody, Extent.cut, Extent.hidden, hfits.undivided rfl, ihafter]
        rfl
  | case4 opening body border hidden closing rest ih =>
    rw [cutLoops, ih]
    rfl
  | case5 k opening shown border hidden closing rest hk ihshown ihhidden ihrest =>
    rw [cutLoops, ihshown, ihhidden, ihrest]
    · rfl
    · exact hk

/-- **The items of a template**, with its blocks cut out at positions. -/
def cutTemplate (template : String) : Except CutFault (List Item) := do
  cutBranches (← cutLoops ((Token.ofTemplate template).map .token))

/-- **Blocks end where their kind is balanced, and cutting them out never fails.** Among any items an
extent is found exactly when their kind comes to a balance of zero, and it is the extent that ends
the block: it is closed where the balance is zero for the first time, by a token of the kind, and
divided, if it is no loop, by the first `else` before that at a balance of one. Searched for with
positions and a level, it has these positions, and the level never falls below zero; cut out there,
the block has the parts of the extent. Hence no template makes a stage fail. -/
theorem blocks_end (kind : BlockKind) (items : List Item) :
    (∀ e, extent? kind 0 items = some e ↔ e.Ends kind 1 items) ∧
      ((∃ e, extent? kind 0 items = some e) ↔ ∃ n, balance kind 1 (items.take n) = 0) ∧
      seek kind 0 1 none items =
        .ok ((extent? kind 0 items).map fun e => (e.border.map Prod.fst, e.closeAt)) ∧
      (∀ t, cutBlock kind t items = .ok ((extentFrom? kind t items).map (Extent.cut items))) ∧
      ∀ template, cutTemplate template = .ok (ofTemplate template) := by
  refine ⟨fun e => extent?_eq_some_iff, exists_extent?_iff, seek_eq kind items 0 0 none,
    fun t => cutBlock_eq kind t items, fun template => ?_⟩
  rw [cutTemplate, cutLoops_eq]
  exact cutBranches_eq _

end Item

end Storefront
