import Storefront.Proofs.Openings

/-!
# What goes away without a quantity

A block that goes away leaves a seam, and blocks next to each other leave a run of
seams. The run is closed like one seam, unless the space in front of it is the only one
(`adjacent_blocks`).

Which blocks go away is asked in two ways. A block is asked whether it is a placeholder
up to blanks in its braces, and its content is searched for placeholders to the letter.
Filling asks only the first. So they agree on placeholders without blanks in their
braces, and one with blanks is filled like any other, wherever it stands
(`passes_fillBlock_loose`). But a block around it goes away only for the sake of another
placeholder, and else loses its braces and keeps its text (`loose_placeholders`).
-/

namespace Storefront.Label

open Text

/-! ## Templates around a block -/

/-- A block with some content. -/
def braces (content : List Char) : List Char := '{' :: (content ++ ['}'])

/-- **A template without its quantity, before seams are closed.** -/
def cleared (cs : List Char) : List Char := passes (replaceBlocks stripBlock) passLimit cs

theorem cleared_nil : cleared [] = [] := passes_nil stripBlock passLimit

theorem strip_ofList (cs : List Char) :
    strip (String.ofList cs) = String.ofList (closeSeams (cleared cs)) := by
  rw [strip, String.toList_ofList]
  rfl

theorem unbraced_of_trim_eq {w : List Char} {p : Placeholder} (h : Text.trim w = p.name.toList) :
    Unbraced w := by
  obtain ⟨lead, tail, hw, hlead, htail⟩ := exists_append_trim w
  rw [hw, h]
  exact unbraced_append.2 ⟨unbraced_append.2 ⟨unbraced_of_isBlank hlead, p.unbraced_name⟩,
    unbraced_of_isBlank htail⟩

section

variable {own? : List Char → Option (List Char)}
  (hown : ∀ content s, own? content = some s → Unbraced s)

include hown

/-- What has no blocks is left as it is. -/
theorem passes_unbraced {cs : List Char} (h : Unbraced cs) (count : Nat) :
    passes (replaceBlocks fun content => (own? content).getD content) count cs = cs := by
  obtain ⟨t, rfl, hdepth⟩ := Tree.exists_text_eq_of_unbraced h
  rw [Tree.passes_text hown (hdepth ▸ Nat.zero_le count), Tree.evaluated_of_depth_eq_zero hdepth]

/-- **Passes work on a block and on what is around it separately**: the first takes its braces, and
the others go on with what it left of the block. -/
theorem passes_block {n : Nat} {x : List Char} (hx : Closed n x) (t : Tree) (y : List Char)
    (count : Nat) :
    passes (replaceBlocks fun content => (own? content).getD content) (count + 1)
        (x ++ braces t.text ++ y) =
      passes (replaceBlocks fun content => (own? content).getD content) (count + 1) x ++
        passes (replaceBlocks fun content => (own? content).getD content) count
          ((own? t.text).getD t.text) ++
        passes (replaceBlocks fun content => (own? content).getD content) (count + 1) y := by
  have hleft : Closed t.depth ((own? t.text).getD t.text) := by
    cases hs : own? t.text with
    | none => exact Closed.of_text (Nat.le_refl _)
    | some s => exact Closed.of_unbraced (hown _ s hs) _
  have hpass : replaceBlocks (fun content => (own? content).getD content) (x ++ braces t.text ++ y) =
      replaceBlocks (fun content => (own? content).getD content) x ++
        ((own? t.text).getD t.text ++
          replaceBlocks (fun content => (own? content).getD content) y) := by
    rw [braces, List.append_assoc, hx.replaceBlocks_append, List.cons_append, List.append_assoc,
      List.singleton_append, Tree.replaceBlocks_block]
  rw [passes, hpass, (hx.pass hown).passes_append hown, hleft.passes_append hown, List.append_assoc]
  rfl

end

theorem cleared_block {n : Nat} {x : List Char} (hx : Closed n x) (t : Tree) (y : List Char) :
    cleared (x ++ braces t.text ++ y) =
      cleared x ++ passes (replaceBlocks stripBlock) 9 (stripBlock t.text) ++ cleared y := by
  have hblock := passes_block unbraced_gone hx t y 9
  rwa [← Tree.stripBlock_eq, ← congrFun Tree.stripBlock_eq t.text] at hblock

theorem fill_block {n : Nat} {x content : List Char} (hx : Closed n x) (hcontent : Balanced 0 content)
    (y : List Char) (quantity : Double) :
    fill (String.ofList (x ++ braces content ++ y)) quantity =
      String.ofList (passes (replaceBlocks (fillBlock quantity)) 10 x ++
        passes (replaceBlocks (fillBlock quantity)) 9 (fillBlock quantity content) ++
        passes (replaceBlocks (fillBlock quantity)) 10 y) := by
  obtain ⟨t, rfl, -⟩ := Tree.existsUnique_text_eq_iff.2 hcontent
  have hblock := passes_block (unbraced_meaning quantity) hx t y 9
  rw [← fillBlock_eq, ← congrFun (fillBlock_eq quantity) t.text] at hblock
  rw [fill, String.toList_ofList, ← hblock]
  rfl

/-- A block that goes away leaves a seam. -/
theorem cleared_seam {n : Nat} {x content : List Char} (hx : Closed n x)
    (hcontent : Balanced 0 content) (hgone : stripBlock content = [seam]) (y : List Char) :
    cleared (x ++ braces content ++ y) = cleared x ++ seam :: cleared y := by
  obtain ⟨t, rfl, -⟩ := Tree.existsUnique_text_eq_iff.2 hcontent
  have hseam := passes_unbraced unbraced_gone (show Unbraced [seam] by decide) 9
  rw [← Tree.stripBlock_eq] at hseam
  rw [cleared_block hx, hgone, hseam, ← List.append_cons]

/-! ## Blocks next to each other -/

theorem stripBlock_of_mentionsPlaceholder {content : List Char}
    (h : mentionsPlaceholder content = true) : stripBlock content = [seam] := by
  rw [stripBlock, h, Bool.or_true, if_pos rfl]

theorem mentionsPlaceholder_braced (p : Placeholder) (a b : List Char) :
    mentionsPlaceholder (a ++ p.braced ++ b) = true :=
  List.any_eq_true.2 ⟨p, p.mem_all, Text.contains_eq_true_iff.2 ⟨a, b, rfl⟩⟩

/-- Balanced braces stay balanced when balanced braces are put in. -/
theorem balanced_insert {v : List Char} (hv : Balanced 0 v) (opened : Nat) (a b : List Char) :
    Balanced opened (a ++ v ++ b) ↔ Balanced opened (a ++ b) := by
  obtain ⟨t, rfl, -⟩ := Tree.existsUnique_text_eq_iff.2 hv
  induction a generalizing opened with
  | nil => exact t.balanced_text_append opened b
  | cons c a ih =>
    by_cases hopen : c = '{'
    · subst hopen
      exact ih (opened + 1)
    · by_cases hclose : c = '}'
      · subst hclose
        cases opened with
        | zero => exact Iff.rfl
        | succ opened => exact ih opened
      · rw [List.cons_append, List.cons_append, List.cons_append, balanced_plain ⟨hopen, hclose⟩,
          balanced_plain ⟨hopen, hclose⟩, ih]

theorem balanced_of_unbraced {cs : List Char} (h : Unbraced cs) : Balanced 0 cs := by
  obtain ⟨t, rfl, -⟩ := Tree.exists_text_eq_of_unbraced h
  exact t.balanced_text

theorem balanced_braces {content : List Char} (h : Balanced 0 content) :
    Balanced 0 (braces content) := by
  have hpair : Balanced 0 (['{'] ++ ['}']) := rfl
  have hinsert := (balanced_insert h 0 ['{'] ['}']).2 hpair
  exact hinsert

theorem Closed.of_balanced {cs : List Char} (h : Balanced 0 cs) : ∃ n, Closed n cs := by
  obtain ⟨t, rfl, -⟩ := Tree.existsUnique_text_eq_iff.2 h
  exact ⟨t.depth, of_text (Nat.le_refl _)⟩

/-- **Blocks next to each other go away like one, but for the space in front of them.** Several seams
in a row are closed like one exactly when no space is lost. So of two blocks next to each other that
go away the second changes nothing exactly then, and it does not matter which of them is there alone.
In a block that goes away for a placeholder in it, it never matters what stands next to that. And
whether a space stays between two words is said of the gap between them: a gap of one seam keeps it
when there is a blank on either side of the seam, a gap of several when there is one behind the
last. -/
theorem adjacent_blocks (x y : List Char) :
    (∀ n, closeSeams (x ++ List.replicate (n + 2) seam ++ y) = closeSeams (x ++ seam :: y) ↔
      ¬LosesSpace x y) ∧
    (∀ {n : Nat}, Closed n x →
      (∀ {u v : List Char}, Balanced 0 u → Balanced 0 v → stripBlock u = [seam] →
        stripBlock v = [seam] →
        (strip (String.ofList (x ++ braces u ++ braces v ++ y)) =
            strip (String.ofList (x ++ braces u ++ y)) ↔ ¬LosesSpace (cleared x) (cleared y)) ∧
          strip (String.ofList (x ++ braces u ++ y)) = strip (String.ofList (x ++ braces v ++ y))) ∧
      ∀ {a b v : List Char}, Balanced 0 (a ++ b) → Balanced 0 v → ∀ p : Placeholder,
        strip (String.ofList (x ++ braces (a ++ p.braced ++ v ++ b) ++ y)) =
          strip (String.ofList (x ++ braces (a ++ p.braced ++ b) ++ y))) ∧
    ∀ {c d : Char}, (isFaint c = false ∧ c ≠ '(' ∧ c ≠ ')') →
      (isFaint d = false ∧ d ≠ '(' ∧ d ∉ closingPunctuation) → ∀ {gap : List Char}, Gap gap →
      closeSeams (x ++ c :: (gap ++ d :: y)) =
        closeSeams (x ++ [c]) ++ (if keepsSpace (withoutEmptyParens gap) then [' '] else []) ++
          closeSeams (d :: y) := by
  refine ⟨closeSeams_run_iff x y, fun {n} hx => ⟨fun {u v} hu hv hugone hvgone => ⟨?_, ?_⟩,
    fun {a b v} hab hv p => ?_⟩, fun hc hd _ hgap => closeSeams_words hc hd hgap x y⟩
  · obtain ⟨m, hm⟩ := Closed.of_balanced (balanced_braces hu)
    have hfront : Closed (max n m) (x ++ braces u) :=
      (hx.mono (Nat.le_max_left n m)).append (hm.mono (Nat.le_max_right n m))
    have hseams : cleared (x ++ braces u ++ braces v ++ y) =
        cleared x ++ List.replicate 2 seam ++ cleared y := by
      have hone := cleared_seam hx hu hugone []
      rw [List.append_nil, cleared_nil] at hone
      rw [cleared_seam hfront hv hvgone, hone]
      simp
    rw [strip_ofList, strip_ofList, hseams, cleared_seam hx hu hugone, String.ofList_inj,
      closeSeams_run_iff _ _ 0]
  · rw [strip_ofList, strip_ofList, cleared_seam hx hu hugone, cleared_seam hx hv hvgone]
  · have hbraced : Balanced 0 p.braced := balanced_braces (balanced_of_unbraced p.unbraced_name)
    have htight : Balanced 0 (a ++ p.braced ++ b) := (balanced_insert hbraced 0 a b).2 hab
    have hmore : Balanced 0 (a ++ p.braced ++ v ++ b) :=
      (balanced_insert hv 0 (a ++ p.braced) b).2 htight
    have hmentions := mentionsPlaceholder_braced p a
    rw [strip_ofList, strip_ofList,
      cleared_seam hx htight (stripBlock_of_mentionsPlaceholder (hmentions b)),
      cleared_seam hx hmore (stripBlock_of_mentionsPlaceholder ?_)]
    rw [List.append_assoc]
    exact hmentions (v ++ b)

/-- A second placeholder behind one, with a blank on either side. -/
theorem adjacent_blocks_between_blanks :
    strip "Only \x7bquantity\x7d\x7bunit\x7d left" = strip "Only \x7bquantity\x7d left" := by
  have hfront : Closed 0 "Only ".toList := .of_unbraced (by decide) 0
  have hquantity : Balanced 0 "quantity".toList := balanced_of_unbraced (by decide)
  have hunit : Balanced 0 "unit".toList := balanced_of_unbraced (by decide)
  obtain ⟨hiff, -⟩ := ((adjacent_blocks "Only ".toList " left".toList).2.1 hfront).1 hquantity hunit
    (by decide) (by decide)
  have hkept : ¬LosesSpace (cleared "Only ".toList) (cleared " left".toList) := by
    intro hloses
    have hhead : (withoutEmptyParens (cleared " left".toList)).head? = some ' ' := by decide +kernel
    obtain ⟨d, hd, hplain, -⟩ := hloses.behind
    obtain rfl : ' ' = d := Option.some.inj (hhead.symm.trans hd)
    exact absurd hplain (by decide)
  exact hiff.2 hkept

/-- **Two blocks next to each other can lose the space that one keeps**, and glue words together. -/
theorem adjacent_blocks_glue :
    closeSeams ("In Stock ".toList ++ [seam, seam] ++ "(new)".toList) = "In Stock(new)".toList ∧
      closeSeams ("In Stock ".toList ++ [seam] ++ "(new)".toList) = "In Stock (new)".toList ∧
      strip "In Stock \x7bquantity\x7d\x7bunit\x7d(new)" = "In Stock(new)" ∧
      strip "In Stock \x7bquantity\x7d(new)" = "In Stock (new)" ∧
      strip "in\x7bquantity\x7d \x7bitem\x7dstock" = "instock" := by
  decide +kernel

/-! ## Blanks in the braces of a placeholder -/

namespace Tree

/-- **What is around a place in a tree**, when its text is `a` in front of the place and `b` behind
it. -/
structure Around (a b : List Char) where
  /-- The whole, with a tree put in the place. -/
  plug : Tree → Tree
  /-- The text of the whole. -/
  text : ∀ t, (plug t).text = a ++ t.text ++ b
  /-- Where blocks with blocks in them have no text of their own, what the tree in the place means is
  all that matters of it. -/
  evaluated : ∀ {own? : List Char → Option (List Char)},
    (∀ content, '{' ∈ content → own? content = none) → ∀ {t u : Tree}, '{' ∈ t.text → '{' ∈ u.text →
      t.evaluated own? = u.evaluated own? → (plug t).evaluated own? = (plug u).evaluated own?

namespace Around

/-- The place in front of a tree. -/
def front (rest : Tree) : Around [] rest.text where
  plug t := t.append rest
  text t := text_append t rest
  evaluated _ _ _ _ _ heq := by rw [evaluated_append, evaluated_append, heq]

/-- A place behind another tree. -/
def behind (t : Tree) {a b : List Char} (r : Around a b) : Around (t.text ++ a) b where
  plug u := t.append (r.plug u)
  text u := by rw [text_append, r.text, List.append_assoc, List.append_assoc, List.append_assoc]
  evaluated hnone _ _ ht hu heq := by
    rw [evaluated_append, evaluated_append, r.evaluated hnone ht hu heq]

/-- A place in a block. -/
def inside {a b : List Char} (r : Around a b) (rest : Tree) :
    Around ('{' :: a) (b ++ '}' :: rest.text) where
  plug t := .block (r.plug t) rest
  text t := by rw [Tree.text, r.text]; simp
  evaluated hnone t u ht hu heq := by
    have hopen : ∀ {v : Tree}, '{' ∈ v.text → '{' ∈ (r.plug v).text := by
      intro v hv
      rw [r.text]
      exact List.mem_append_left b (List.mem_append_right a hv)
    rw [Tree.evaluated, Tree.evaluated, hnone _ (hopen ht), hnone _ (hopen hu)]
    exact congrArg (· ++ rest.evaluated _) (r.evaluated hnone ht hu heq)

end Around

/-- **Every place in balanced braces is a place in a tree.** -/
theorem nonempty_around {a b : List Char} (h : Balanced 0 (a ++ b)) : Nonempty (Around a b) := by
  obtain ⟨whole, hwhole, -⟩ := existsUnique_text_eq_iff.2 h
  clear h
  induction whole generalizing a b with
  | done =>
    obtain ⟨rfl, rfl⟩ := List.append_eq_nil_iff.1 hwhole.symm
    exact ⟨.front .done⟩
  | char c hc rest ih =>
    cases a with
    | nil =>
      obtain rfl : (char c hc rest).text = b := hwhole
      exact ⟨.front _⟩
    | cons d a =>
      obtain ⟨rfl, hrest⟩ := List.cons.inj hwhole
      obtain ⟨r⟩ := ih hrest
      exact ⟨r.behind (.char c hc .done)⟩
  | block content rest ihcontent ihrest =>
    cases a with
    | nil =>
      obtain rfl : (block content rest).text = b := hwhole
      exact ⟨.front _⟩
    | cons d a =>
      obtain ⟨rfl, hinner⟩ := List.cons.inj hwhole
      obtain ⟨t, rfl, hrest⟩ | ⟨t, hcontent, rfl⟩ := append_eq_append_cons hinner.symm
      · obtain ⟨r⟩ := ihrest hrest
        have hlead : (block content .done).text ++ t = '{' :: (content.text ++ '}' :: t) := by
          simp [Tree.text]
        exact ⟨hlead ▸ r.behind (.block content .done)⟩
      · obtain ⟨r⟩ := ihcontent hcontent
        exact ⟨r.inside rest⟩

end Tree

theorem deepest_congr {t u : Tree} (h : t.depth = u.depth) (opened : Nat) (a b : List Char) :
    deepest opened (a ++ t.text ++ b) = deepest opened (a ++ u.text ++ b) := by
  induction a generalizing opened with
  | nil => rw [List.nil_append, List.nil_append, deepest_text, deepest_text, h]
  | cons c a ih =>
    simp only [List.cons_append, deepest]
    rw [ih, ih, ih]

theorem braced_eq (p : Placeholder) : p.braced = braces p.name.toList := rfl

theorem mem_braces (content a b : List Char) : '{' ∈ a ++ braces content ++ b := by
  simp [braces]

/-- A block with a block in it is no placeholder. -/
theorem ofContent?_eq_none {content : List Char} (h : '{' ∈ content) :
    Placeholder.ofContent? content = none := by
  cases hp : Placeholder.ofContent? content with
  | none => rfl
  | some p => exact absurd rfl (unbraced_of_trim_eq (Placeholder.ofContent?_eq_some_iff.1 hp) _ h).1

theorem fillBlock_of_mem {content : List Char} (h : '{' ∈ content) (quantity : Double) :
    fillBlock quantity content = content := by
  rw [fillBlock, ofContent?_eq_none h]

theorem stripBlock_of_mem {content : List Char} (h : '{' ∈ content)
    (hnone : mentionsPlaceholder content = false) : stripBlock content = content := by
  rw [stripBlock, ofContent?_eq_none h, hnone]
  rfl

/-- Text in the place of a seam shows. -/
theorem closeSeams_ne_of_mem {c : Char} (hfaint : isFaint c = false) (hopen : c ≠ '(')
    (hclose : c ≠ ')') {m : List Char} (hmem : c ∈ m) (x y : List Char) :
    closeSeams (x ++ m ++ y) ≠ closeSeams (x ++ seam :: y) := by
  intro heq
  have hcount := congrArg (List.count c) heq
  rw [count_closeSeams hfaint hopen hclose, count_closeSeams hfaint hopen hclose,
    List.count_append, List.count_append, List.count_append,
    List.count_cons_of_ne (Ne.symm (isFaint_eq_false_iff.1 hfaint).1)] at hcount
  have hpos := List.count_pos_iff.2 hmem
  omega

section

variable {p : Placeholder} {w : List Char} (hw : Text.trim w = p.name.toList)

include hw

theorem stripBlock_loose : stripBlock w = [seam] := by
  rw [stripBlock, Placeholder.ofContent?_eq_some_iff.2 hw]
  rfl

theorem fillBlock_loose (quantity : Double) : fillBlock quantity w = (p.filled quantity).toList := by
  rw [fillBlock, Placeholder.ofContent?_eq_some_iff.2 hw]

theorem meaning?_loose (quantity : Double) :
    meaning? quantity w = some (p.filled quantity).toList := by
  rw [meaning?_eq, Placeholder.ofContent?_eq_some_iff.2 hw]
  rfl

/-- A placeholder as a tree, with blanks in its braces or not. -/
theorem exists_placeholder_tree : ∃ t : Tree, t.text = braces w ∧ t.depth = 1 ∧
    ∀ quantity, t.evaluated (meaning? quantity) = (p.filled quantity).toList := by
  obtain ⟨t, rfl, ht⟩ := Tree.exists_text_eq_of_unbraced (unbraced_of_trim_eq hw)
  refine ⟨.block t .done, rfl, by simp only [Tree.depth, ht, Nat.zero_add, Nat.max_zero], ?_⟩
  intro quantity
  rw [Tree.evaluated, meaning?_loose hw]
  exact List.append_nil _

/-- **Filling does not look at blanks in the braces of a placeholder.** -/
theorem passes_fillBlock_loose {a b : List Char} (h : Balanced 0 (a ++ b)) {count : Nat}
    (hdeep : deepest 0 (a ++ braces w ++ b) ≤ count) (quantity : Double) :
    passes (replaceBlocks (fillBlock quantity)) count (a ++ braces w ++ b) =
      passes (replaceBlocks (fillBlock quantity)) count (a ++ p.braced ++ b) := by
  obtain ⟨r⟩ := Tree.nonempty_around h
  obtain ⟨loose, hloose, hlooseDepth, hlooseMeans⟩ := exists_placeholder_tree hw
  obtain ⟨tight, htight, htightDepth, htightMeans⟩ := exists_placeholder_tree p.trim_name
  have hnone : ∀ content, '{' ∈ content → meaning? quantity content = none := by
    intro content hmem
    rw [meaning?_eq, ofContent?_eq_none hmem]
    rfl
  have hpasses : ∀ {t : Tree}, t.depth = 1 →
      passes (replaceBlocks (fillBlock quantity)) count (a ++ t.text ++ b) =
        (r.plug t).evaluated (meaning? quantity) := by
    intro t ht
    have hplug := deepest_text (r.plug t) 0 []
    rw [List.append_nil, r.text, deepest_congr (ht.trans hlooseDepth.symm), hloose] at hplug
    rw [← r.text]
    exact Tree.passes_fillBlock quantity (by omega)
  have hsame := r.evaluated hnone (t := loose) (u := tight) (hloose ▸ List.mem_cons_self)
    (htight ▸ List.mem_cons_self) ((hlooseMeans quantity).trans (htightMeans quantity).symm)
  rw [show p.braced = tight.text from htight.symm, ← hloose, hpasses hlooseDepth,
    hpasses htightDepth, hsame]

end

/-- **Blanks in the braces of a placeholder show only where the quantity is hidden.** On the outside
of a template a placeholder is filled and goes away alike, with blanks in its braces or without. In a
block whose blocks are nested ten deep at most it is filled alike as well. Without blanks it makes the
block go away. With blanks the block goes away when there is another placeholder in it, without
blanks; else what is in the block is left in its place, rid of its own blocks, and whenever that has
any text but parentheses the result is another. -/
theorem loose_placeholders {p : Placeholder} {w : List Char} (hw : Text.trim w = p.name.toList)
    {n : Nat} {x : List Char} (hx : Closed n x) (y : List Char) :
    ((∀ quantity, fill (String.ofList (x ++ braces w ++ y)) quantity =
          fill (String.ofList (x ++ p.braced ++ y)) quantity) ∧
        strip (String.ofList (x ++ braces w ++ y)) = strip (String.ofList (x ++ p.braced ++ y))) ∧
      ∀ a b, Balanced 0 (a ++ b) →
        let content := a ++ braces w ++ b
        let loose := String.ofList (x ++ braces content ++ y)
        let tight := String.ofList (x ++ braces (a ++ p.braced ++ b) ++ y)
        (deepest 0 content ≤ 9 → ∀ quantity, fill loose quantity = fill tight quantity) ∧
        strip tight = String.ofList (closeSeams (cleared x ++ seam :: cleared y)) ∧
        (mentionsPlaceholder content = true → strip loose = strip tight) ∧
        (mentionsPlaceholder content = false →
          strip loose = String.ofList (closeSeams
            (cleared x ++ passes (replaceBlocks stripBlock) 9 content ++ cleared y)) ∧
          ((∃ c ∈ passes (replaceBlocks stripBlock) 9 content,
              isFaint c = false ∧ c ≠ '(' ∧ c ≠ ')') → strip loose ≠ strip tight)) := by
  have hword : Balanced 0 w := balanced_of_unbraced (unbraced_of_trim_eq hw)
  have hname : Balanced 0 p.name.toList := balanced_of_unbraced p.unbraced_name
  refine ⟨⟨fun quantity => ?_, ?_⟩, fun a b hab => ?_⟩
  · rw [braced_eq, fill_block hx hword, fill_block hx hname, fillBlock_loose hw,
      fillBlock_loose p.trim_name]
  · rw [braced_eq, strip_ofList, strip_ofList, cleared_seam hx hword (stripBlock_loose hw),
      cleared_seam hx hname (stripBlock_loose p.trim_name)]
  · intro content loose tight
    have hloose : Balanced 0 content := (balanced_insert (balanced_braces hword) 0 a b).2 hab
    have htight : Balanced 0 (a ++ p.braced ++ b) :=
      (balanced_insert (balanced_braces hname) 0 a b).2 hab
    have hopen : '{' ∈ a ++ p.braced ++ b := mem_braces p.name.toList a b
    have hstripTight : strip tight = String.ofList (closeSeams (cleared x ++ seam :: cleared y)) := by
      rw [strip_ofList, cleared_seam hx htight
        (stripBlock_of_mentionsPlaceholder (mentionsPlaceholder_braced p a b))]
    refine ⟨fun hdeep quantity => ?_, hstripTight, fun hmentions => ?_, fun hnone => ?_⟩
    · rw [fill_block hx hloose, fill_block hx htight, fillBlock_of_mem (mem_braces w a b),
        fillBlock_of_mem hopen, passes_fillBlock_loose hw hab hdeep]
    · rw [hstripTight, strip_ofList,
        cleared_seam hx hloose (stripBlock_of_mentionsPlaceholder hmentions)]
    · have hstripLoose : strip loose = String.ofList (closeSeams
          (cleared x ++ passes (replaceBlocks stripBlock) 9 content ++ cleared y)) := by
        obtain ⟨t, ht, -⟩ := Tree.existsUnique_text_eq_iff.2 hloose
        have hblock := cleared_block hx t y
        rw [ht, stripBlock_of_mem (mem_braces w a b) hnone] at hblock
        rw [strip_ofList, hblock]
      refine ⟨hstripLoose, fun ⟨c, hmem, hfaint, hopen, hclose⟩ heq => ?_⟩
      rw [hstripLoose, hstripTight, String.ofList_inj] at heq
      exact closeSeams_ne_of_mem hfaint hopen hclose hmem _ _ heq

/-- A placeholder with blanks in its braces, in a block with another one that has none. -/
theorem loose_placeholders_next_to_item :
    let loose := "In Stock\x7b (\x7b quantity \x7d \x7bitem\x7d available)\x7d"
    let tight := "In Stock\x7b (\x7bquantity\x7d \x7bitem\x7d available)\x7d"
    strip loose = strip tight ∧ ∀ quantity, fill loose quantity = fill tight quantity := by
  intro loose tight
  have hword : Text.trim " quantity ".toList = Placeholder.quantity.name.toList := by decide
  have hfront : Closed 0 "In Stock".toList := .of_unbraced (by decide) 0
  have hitem : Balanced 0 "item".toList := balanced_of_unbraced (by decide)
  have hcontent : Balanced 0 (" (".toList ++ " \x7bitem\x7d available)".toList) :=
    (balanced_insert (balanced_braces hitem) 0 " ( ".toList " available)".toList).2
      (balanced_of_unbraced (by decide))
  obtain ⟨hfill, -, hstrip, -⟩ := (loose_placeholders hword hfront []).2 _ _ hcontent
  exact ⟨hstrip (by decide), hfill (by decide)⟩

/-- **A block around a placeholder with blanks in its braces does not go away**, though it is filled
like one around a placeholder without. -/
theorem loose_placeholder_stays :
    let loose := "In Stock\x7b (\x7b quantity \x7d available)\x7d"
    let tight := "In Stock\x7b (\x7bquantity\x7d available)\x7d"
    strip loose = "In Stock ( available)" ∧ strip tight = "In Stock" ∧
      fill loose (.ofNat 2) = "In Stock (2 available)" ∧
      fill tight (.ofNat 2) = "In Stock (2 available)" := by
  decide +kernel

end Storefront.Label
