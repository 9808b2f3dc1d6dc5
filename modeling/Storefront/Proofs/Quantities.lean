import Storefront.Proofs.Numerals
import Storefront.Proofs.Trees
import Storefront.Stock.Seam

/-!
# Label templates with and without a quantity

On the tree of a label template (`Proofs/Trees`) it is a short recursion what
becomes of its blocks. With a quantity, a placeholder becomes the number or a noun
and every other block what is in it (`Tree.filled`). Without one, an outermost block
with a placeholder in it becomes a seam, and every other block what is in it
(`Tree.stripped`).

Filling asks of a block only what it is itself. Stripping asks what is *in* it, and
looks for placeholders in the text of its content. There they are found exactly
where the tree has them, because a placeholder in the text has its two braces, and
in balanced braces these are the braces of one block (`Tree.mentionsPlaceholder_text`).
The text of a placeholder is looked for as it is usually written, so one that has
blanks in its braces is overlooked until the blocks around it are gone: the
trees for which stripping is this recursion are those without such placeholders
(`Tree.Tight`).
-/

namespace Storefront

/-! ## Numbers in labels -/

namespace Label

open Text

/-- **A number as shoppers see it has no braces.** -/
theorem unbraced_displayText (x : Double) : Unbraced x.displayText.toList := by
  have hsign : ∀ negative, Unbraced (Double.signText negative) := by decide
  cases x with
  | nan => decide
  | infinite negative => cases negative <;> decide
  | finite negative units fits =>
    obtain ⟨text, -, htext, hplain, -⟩ := Double.displayText_finite negative fits
    rw [htext, String.toList_ofList]
    refine unbraced_append.2 ⟨hsign _, fun c hc => ⟨?_, ?_⟩⟩
    · rintro rfl
      exact hplain.notMem (by decide) (by decide) hc
    · rintro rfl
      exact hplain.notMem (by decide) (by decide) hc

/-! ## Placeholders -/

namespace Placeholder

theorem ofContent?_eq_some_iff {content : List Char} {p : Placeholder} :
    ofContent? content = some p ↔ Text.trim content = p.name.toList := by
  constructor
  · intro h
    have hname := List.find?_some h
    exact (beq_iff_eq.1 hname).symm
  · intro h
    rw [ofContent?, h]
    cases p <;> decide

theorem mem_all (p : Placeholder) : p ∈ all := by
  cases p <;> decide

theorem trim_name (p : Placeholder) : Text.trim p.name.toList = p.name.toList := by
  cases p <;> decide

theorem unbraced_name (p : Placeholder) : Unbraced p.name.toList := by
  cases p <;> decide

/-- What is filled in for a placeholder has no braces. -/
theorem unbraced_filled (p : Placeholder) (quantity : Double) :
    Unbraced (p.filled quantity).toList := by
  have hnoun : Unbraced (if quantity.sameValue .one then p.name else p.name ++ "s").toList := by
    split
    · exact p.unbraced_name
    · rw [String.toList_append]
      exact unbraced_append.2 ⟨p.unbraced_name, by decide⟩
  cases p with
  | quantity => exact unbraced_displayText quantity
  | item => exact hnoun
  | unit => exact hnoun
  | piece => exact hnoun

end Placeholder

/-- **What a block stands for at a quantity**, from its content: the number, or a noun, in the
plural unless the quantity is one. Other blocks stand for nothing of their own. -/
def meaning? (quantity : Double) (content : List Char) : Option (List Char) :=
  let word := String.ofList (Text.trim content)
  if word = "quantity" then some quantity.displayText.toList
  else if word ∈ ["item", "unit", "piece"] then
    some (if quantity.sameValue .one then word else word ++ "s").toList
  else none

theorem meaning?_eq (quantity : Double) (content : List Char) :
    meaning? quantity content =
      (Placeholder.ofContent? content).map fun p => (p.filled quantity).toList := by
  unfold meaning?
  dsimp only
  cases h : Placeholder.ofContent? content with
  | some p =>
    have hword : String.ofList (Text.trim content) = p.name := by
      rw [Placeholder.ofContent?_eq_some_iff.1 h, String.ofList_toList]
    rw [hword]
    cases p <;> rfl
  | none =>
    have hword : ∀ p : Placeholder, String.ofList (Text.trim content) ≠ p.name := by
      intro p hp
      have hsome : Placeholder.ofContent? content = some p :=
        Placeholder.ofContent?_eq_some_iff.2 (by rw [← hp, String.toList_ofList])
      exact absurd (h.symm.trans hsome) (Option.some_ne_none p).symm
    have hquantity : String.ofList (Text.trim content) ≠ "quantity" := hword .quantity
    have hnouns : String.ofList (Text.trim content) ∉ ["item", "unit", "piece"] := by
      simp only [List.mem_cons, List.not_mem_nil, or_false, not_or]
      exact ⟨hword .item, hword .unit, hword .piece⟩
    rw [if_neg hquantity, if_neg hnouns]
    rfl

theorem unbraced_of_meaning? {quantity : Double} {content s : List Char}
    (h : meaning? quantity content = some s) : Unbraced s := by
  rw [meaning?_eq] at h
  obtain ⟨p, -, rfl⟩ := Option.map_eq_some_iff.1 h
  exact p.unbraced_filled quantity

theorem fillBlock_eq (quantity : Double) :
    fillBlock quantity = fun content => (meaning? quantity content).getD content := by
  funext content
  rw [meaning?_eq, fillBlock]
  cases Placeholder.ofContent? content with
  | none => rfl
  | some p => rfl

namespace Tree

/-! ## Filling -/

/-- **A tree filled with a quantity**: blocks become what they stand for, and those that stand for
nothing of their own what is in them. -/
def filled (quantity : Double) (t : Tree) : List Char := t.evaluated (meaning? quantity)

/-- No brace is left in a filled tree. -/
theorem unbraced_filled (quantity : Double) (t : Tree) : Unbraced (t.filled quantity) :=
  unbraced_evaluated (fun _ _ => unbraced_of_meaning?) t

theorem passes_fillBlock (quantity : Double) {t : Tree} {count : Nat} (h : t.depth ≤ count) :
    passes (replaceBlocks (fillBlock quantity)) count t.text = t.filled quantity := by
  rw [fillBlock_eq]
  exact passes_text (fun _ _ => unbraced_of_meaning?) h

/-! ## Placeholders in a tree -/

/-- Whether a block somewhere in the tree is a placeholder. -/
def hasPlaceholder : Tree → Bool
  | .done => false
  | .char _ _ rest => rest.hasPlaceholder
  | .block content rest =>
    (Placeholder.ofContent? content.text).isSome || content.hasPlaceholder || rest.hasPlaceholder

/-- **A tree whose placeholders have no blanks in their braces.** -/
def Tight : Tree → Prop
  | .done => True
  | .char _ _ rest => rest.Tight
  | .block content rest =>
    (∀ p ∈ Placeholder.all, Text.trim content.text = p.name.toList →
      content.text = p.name.toList) ∧ content.Tight ∧ rest.Tight

/-- Whether a block somewhere in the tree has a certain text between its braces. -/
def HasBlock (word : List Char) : Tree → Prop
  | .done => False
  | .char _ _ rest => rest.HasBlock word
  | .block content rest => content.text = word ∨ content.HasBlock word ∨ rest.HasBlock word

theorem HasBlock.exists_text_eq {word : List Char} {t : Tree} (h : t.HasBlock word) :
    ∃ before after, t.text = before ++ '{' :: (word ++ '}' :: after) := by
  induction t with
  | done => exact absurd h id
  | char c hc rest ih =>
    obtain ⟨before, after, hrest⟩ := ih h
    exact ⟨c :: before, after, congrArg (c :: ·) hrest⟩
  | block content rest ihcontent ihrest =>
    obtain rfl | hcontent | hrest := h
    · exact ⟨[], rest.text, rfl⟩
    · obtain ⟨before, after, hinner⟩ := ihcontent hcontent
      exact ⟨'{' :: before, after ++ '}' :: rest.text, by simp [text, hinner]⟩
    · obtain ⟨before, after, hinner⟩ := ihrest hrest
      exact ⟨'{' :: (content.text ++ '}' :: before), after, by simp [text, hinner]⟩

/-- **The text of a block in the text of a tree is that of a block in the tree**, unless it comes
behind the tree. -/
theorem hasBlock_of_text_append {word t : Tree} {cs before after : List Char}
    (h : t.text ++ cs = before ++ '{' :: (word.text ++ '}' :: after)) :
    t.HasBlock word.text ∨
      ∃ b, before = t.text ++ b ∧ cs = b ++ '{' :: (word.text ++ '}' :: after) := by
  induction t generalizing cs before after with
  | done => exact Or.inr ⟨before, rfl, h⟩
  | char c hc rest ih =>
    cases before with
    | nil => exact absurd (List.cons.inj h).1 hc.1
    | cons d before =>
      obtain ⟨rfl, hrest⟩ := List.cons.inj h
      refine (ih hrest).imp_right ?_
      rintro ⟨b, rfl, hcs⟩
      exact ⟨b, rfl, hcs⟩
  | block content rest ihcontent ihrest =>
    have hinner : '{' :: (content.text ++ '}' :: (rest.text ++ cs)) =
        before ++ '{' :: (word.text ++ '}' :: after) := by
      simpa [text] using h
    cases before with
    | nil =>
      -- it is this block
      have hcontent : content.text ++ '}' :: (rest.text ++ cs) = word.text ++ '}' :: after :=
        (List.cons.inj hinner).2
      exact Or.inl (Or.inl (congrArg text (text_cancel rfl rfl hcontent).1))
    | cons d before =>
      obtain ⟨rfl, hbehind⟩ := List.cons.inj hinner
      obtain hcontent | ⟨b, rfl, hclose⟩ := ihcontent hbehind
      · exact Or.inl (Or.inr (Or.inl hcontent))
      · cases b with
        | nil => exact absurd (List.cons.inj hclose).1 (by decide)
        | cons d b =>
          obtain ⟨rfl, hrest⟩ := List.cons.inj hclose
          obtain hrest | ⟨b, rfl, hcs⟩ := ihrest hrest
          · exact Or.inl (Or.inr (Or.inr hrest))
          · exact Or.inr ⟨b, by simp [text], hcs⟩

theorem contains_braced_iff (p : Placeholder) (t : Tree) :
    Text.contains p.braced t.text = true ↔ t.HasBlock p.name.toList := by
  obtain ⟨word, hword, -⟩ := exists_text_eq_of_unbraced p.unbraced_name
  rw [Text.contains_eq_true_iff, Placeholder.braced, ← hword]
  constructor
  · rintro ⟨before, after, h⟩
    have happ : t.text ++ [] = before ++ '{' :: (word.text ++ '}' :: after) := by
      simpa using h
    obtain hblock | ⟨b, -, hnil⟩ := hasBlock_of_text_append happ
    · exact hblock
    · exact absurd hnil (by simp)
  · intro h
    obtain ⟨before, after, htext⟩ := h.exists_text_eq
    exact ⟨before, after, by simp [htext]⟩

/-- **Where placeholders have no blanks in their braces, they are found in the text of a tree
exactly when they are in the tree.** -/
theorem hasPlaceholder_iff {t : Tree} (h : t.Tight) :
    t.hasPlaceholder = true ↔ ∃ p : Placeholder, t.HasBlock p.name.toList := by
  induction t with
  | done => exact ⟨fun hfalse => absurd hfalse Bool.false_ne_true, fun ⟨_, hfalse⟩ => hfalse.elim⟩
  | char c hc rest ih => exact ih h
  | block content rest ihcontent ihrest =>
    obtain ⟨hown, hcontent, hrest⟩ := h
    have hself : (Placeholder.ofContent? content.text).isSome = true ↔
        ∃ p : Placeholder, content.text = p.name.toList := by
      rw [Option.isSome_iff_exists]
      refine exists_congr fun p => Placeholder.ofContent?_eq_some_iff.trans ⟨hown p p.mem_all, ?_⟩
      rintro hname
      rw [hname, p.trim_name]
    rw [hasPlaceholder, Bool.or_eq_true, Bool.or_eq_true, hself, ihcontent hcontent, ihrest hrest,
      ← exists_or, ← exists_or]
    simp only [HasBlock, or_assoc]

theorem mentionsPlaceholder_text {t : Tree} (h : t.Tight) :
    mentionsPlaceholder t.text = t.hasPlaceholder := by
  rw [Bool.eq_iff_iff, hasPlaceholder_iff h, mentionsPlaceholder, List.any_eq_true]
  constructor
  · rintro ⟨p, -, hp⟩
    exact ⟨p, (contains_braced_iff p t).1 hp⟩
  · rintro ⟨p, hp⟩
    exact ⟨p, p.mem_all, (contains_braced_iff p t).2 hp⟩

/-! ## Stripping -/

/-- **A tree without its quantity**: outermost blocks that are placeholders, or have one in them at
any depth, become seams, and other blocks lose their braces. -/
def stripped : Tree → List Char
  | .done => []
  | .char c _ rest => c :: rest.stripped
  | .block content rest =>
    (if (Placeholder.ofContent? content.text).isSome || content.hasPlaceholder then [seam]
      else content.unwrapped) ++ rest.stripped

/-- What a block becomes when the quantity is not known. -/
def gone? (content : List Char) : Option (List Char) :=
  if (Placeholder.ofContent? content).isSome || mentionsPlaceholder content then some [seam]
  else none

theorem stripBlock_eq : stripBlock = fun content => (gone? content).getD content := by
  funext content
  rw [stripBlock, gone?]
  split
  · rfl
  · rfl

theorem unbraced_of_gone? {content s : List Char} (h : gone? content = some s) : Unbraced s := by
  obtain ⟨-, hs⟩ := Option.ite_none_right_eq_some.1 h
  rw [← Option.some.inj hs]
  decide

/-- Without placeholders only braces go away. -/
theorem evaluated_gone?_of_hasPlaceholder {t : Tree} (h : t.Tight)
    (hnone : t.hasPlaceholder = false) : t.evaluated gone? = t.unwrapped := by
  induction t with
  | done => rfl
  | char c hc rest ih => exact congrArg (c :: ·) (ih h hnone)
  | block content rest ihcontent ihrest =>
    obtain ⟨-, hcontent, hrest⟩ := h
    rw [hasPlaceholder, Bool.or_eq_false_iff, Bool.or_eq_false_iff] at hnone
    obtain ⟨⟨hself, hinside⟩, hbehind⟩ := hnone
    have hstays : gone? content.text = none := by
      rw [gone?, mentionsPlaceholder_text hcontent, hself, hinside]
      rfl
    rw [evaluated, unwrapped, hstays, ihcontent hcontent hinside, ihrest hrest hbehind]
    rfl

theorem evaluated_gone? {t : Tree} (h : t.Tight) : t.evaluated gone? = t.stripped := by
  induction t with
  | done => rfl
  | char c hc rest ih => exact congrArg (c :: ·) (ih h)
  | block content rest _ ih =>
    obtain ⟨-, hcontent, hrest⟩ := h
    rw [evaluated, stripped, ih hrest, gone?, mentionsPlaceholder_text hcontent]
    split
    · rfl
    · next hstays =>
      have hinside : content.hasPlaceholder = false :=
        ((Bool.or_eq_false_iff.1 (Bool.eq_false_iff.2 hstays))).2
      rw [← evaluated_gone?_of_hasPlaceholder hcontent hinside]
      rfl

/-- No brace is left in a stripped tree. -/
theorem unbraced_stripped (t : Tree) : Unbraced t.stripped := by
  induction t with
  | done => exact unbraced_nil
  | char c hc rest ih => exact unbraced_cons.2 ⟨hc, ih⟩
  | block content rest _ ih =>
    refine unbraced_append.2 ⟨?_, ih⟩
    split
    · decide
    · exact content.unbraced_unwrapped

theorem passes_stripBlock {t : Tree} (h : t.Tight) {count : Nat} (hdepth : t.depth ≤ count) :
    passes (replaceBlocks stripBlock) count t.text = t.stripped := by
  rw [stripBlock_eq, ← evaluated_gone? h]
  exact passes_text (fun _ _ => unbraced_of_gone?) hdepth

end Tree

/-! ## Templates -/

/-- **Filling evaluates the tree of a template.** Balanced braces are read as exactly one tree. When
its blocks are nested ten deep at most, the filled template is the filled tree: each placeholder
stands for the number or its noun, every other block for what is in it, and nothing else changes. No
brace is left, and all is done after as many passes as blocks are nested, so that more of them, up
to the limit or past it, change nothing. -/
theorem fill_eq_filled (template : String) (hbalanced : Balanced 0 template.toList)
    (quantity : Double) :
    ∃ t : Tree, (∀ u : Tree, u.text = template.toList ↔ u = t) ∧
      (t.depth ≤ 10 →
        fill template quantity = String.ofList (t.filled quantity) ∧
        Unbraced (fill template quantity).toList ∧
        ∀ count, t.depth ≤ count →
          passes (replaceBlocks (fillBlock quantity)) count template.toList =
            (fill template quantity).toList) := by
  obtain ⟨t, htext, honly⟩ := Tree.existsUnique_text_eq_iff.2 hbalanced
  refine ⟨t, fun u => ⟨honly u, fun hu => hu ▸ htext⟩, fun hdepth => ?_⟩
  have hfill : fill template quantity = String.ofList (t.filled quantity) := by
    rw [fill, ← htext, Tree.passes_fillBlock quantity (show t.depth ≤ passLimit from hdepth)]
  rw [hfill, String.toList_ofList]
  refine ⟨rfl, t.unbraced_filled quantity, fun count hcount => ?_⟩
  rw [← htext, Tree.passes_fillBlock quantity hcount]

/-- A placeholder with blanks in its braces, in two blocks, next to one whose noun is plural. -/
theorem fill_eq_filled_shipping :
    let template := "Ready\x7b to ship\x7b: \x7b quantity \x7d \x7bpiece\x7d\x7d\x7d!"
    Balanced 0 template.toList ∧ fill template (.ofNat 3) = "Ready to ship: 3 pieces!" := by
  intro template
  let tree : Tree :=
    .plain "Ready".toList (by decide) <|
    .block (.plain " to ship".toList (by decide) <|
      .block (.plain ": ".toList (by decide) <|
        .block (.plain " quantity ".toList (by decide) .done) <|
        .plain [' '] (by decide) <|
        .block (.plain "piece".toList (by decide) .done) .done) .done) <|
    .plain ['!'] (by decide) .done
  have htext : tree.text = template.toList := by decide
  have hbalanced : Balanced 0 template.toList := htext ▸ tree.balanced_text
  obtain ⟨t, hread, hfill⟩ := fill_eq_filled template hbalanced (.ofNat 3)
  obtain rfl : tree = t := (hread tree).1 htext
  refine ⟨hbalanced, (hfill (by decide)).1.trans ?_⟩
  decide +kernel

/-- **Stripping is a recursion over the tree of a template.** Balanced braces are read as exactly
one tree. When its blocks are nested ten deep at most and its placeholders have no blanks in their
braces, what is left before seams are closed is the stripped tree: a seam for each outermost block
with a placeholder in it, every other block without its braces, and all else in its place. No brace
is left. -/
theorem strip_eq_stripped (template : String) (hbalanced : Balanced 0 template.toList) :
    ∃ t : Tree, (∀ u : Tree, u.text = template.toList ↔ u = t) ∧
      (t.depth ≤ 10 → t.Tight →
        passes (replaceBlocks stripBlock) passLimit template.toList = t.stripped ∧
        Unbraced t.stripped ∧
        strip template = String.ofList (closeSeams t.stripped)) := by
  obtain ⟨t, htext, honly⟩ := Tree.existsUnique_text_eq_iff.2 hbalanced
  refine ⟨t, fun u => ⟨honly u, fun hu => hu ▸ htext⟩, fun hdepth htight => ?_⟩
  have hpasses : passes (replaceBlocks stripBlock) passLimit template.toList = t.stripped := by
    rw [← htext, Tree.passes_stripBlock htight (show t.depth ≤ passLimit from hdepth)]
  exact ⟨hpasses, t.unbraced_stripped, by rw [strip, hpasses]⟩

/-- A block that stays, with one in it, next to one that goes away for a placeholder deep in it. -/
theorem strip_eq_stripped_shipping :
    let template := "\x7bReady\x7b now\x7d\x7d\x7b to \x7bship\x7b\x7bunit\x7d\x7d\x7d\x7d!"
    Balanced 0 template.toList ∧
      passes (replaceBlocks stripBlock) passLimit template.toList =
        "Ready now".toList ++ seam :: "!".toList := by
  intro template
  let tree : Tree :=
    .block (.plain "Ready".toList (by decide) <|
      .block (.plain " now".toList (by decide) .done) .done) <|
    .block (.plain " to ".toList (by decide) <|
      .block (.plain "ship".toList (by decide) <|
        .block (.block (.plain "unit".toList (by decide) .done) .done) .done) .done) <|
    .plain ['!'] (by decide) .done
  have htext : tree.text = template.toList := by decide
  have hbalanced : Balanced 0 template.toList := htext ▸ tree.balanced_text
  have htight : tree.Tight := by
    simp +decide [tree, Tree.Tight, Tree.plain, Tree.text]
  obtain ⟨t, hread, hstrip⟩ := strip_eq_stripped template hbalanced
  obtain rfl : tree = t := (hread tree).1 htext
  exact ⟨hbalanced, (hstrip (by decide) htight).1.trans (by decide)⟩

end Label

end Storefront
