import Storefront.Proofs.Quantities
import Storefront.Proofs.Runs

/-!
# Braces that are not closed

Label templates are written by hand, so their braces need not be balanced. A closing
brace with no block to close is a character like any other. An opening brace that is
never closed ends what a pass can see: there are no blocks from it on, even where
later braces match. So every template is two parts (`exists_closed_append`): a front
whose blocks are all closed (`Closed`), and the rest from the first brace on that is
left open (`openRest`).

Passes work on the two parts separately. They use up the blocks of the front
(`Closed.passes`) and leave the rest as it is (`passes_open`). Closing seams works on
them separately, too, since a brace stays. So of placeholders those are left that stand
in the rest (`placeholders_stay`).
-/

namespace Storefront.Label

open Text

/-! ## Blocks that are closed -/

/-- **A text whose blocks are all closed**, nested so deep at most. Closing braces may be too
many. -/
inductive Closed (deep : Nat) : List Char → Prop where
  /-- The end of the text. -/
  | nil : Closed deep []
  /-- A character that opens no block. -/
  | char {c : Char} {cs : List Char} (hc : c ≠ '{') (hcs : Closed deep cs) : Closed deep (c :: cs)
  /-- A block. -/
  | block {t : Tree} {cs : List Char} (ht : t.depth < deep) (hcs : Closed deep cs) :
    Closed deep ('{' :: (t.text ++ '}' :: cs))

/-- **A text in which the block that it stands in is left open**: it is not the content of a block
up to a brace that closes it. -/
def Open (cs : List Char) : Prop := ∀ (t : Tree) (rest : List Char), cs ≠ t.text ++ '}' :: rest

/-- How many blocks are open at once, at most, behind `opened` of them. -/
def deepest : (opened : Nat) → List Char → Nat
  | opened, [] => opened
  | opened, c :: cs =>
    if c = '{' then deepest (opened + 1) cs
    else if c = '}' then max opened (deepest (opened - 1) cs)
    else deepest opened cs

theorem deepest_plain {c : Char} (h : c ≠ '{' ∧ c ≠ '}') (opened : Nat) (cs : List Char) :
    deepest opened (c :: cs) = deepest opened cs := by
  rw [deepest, if_neg h.1, if_neg h.2]

theorem deepest_open (opened : Nat) (cs : List Char) :
    deepest opened ('{' :: cs) = deepest (opened + 1) cs := rfl

theorem deepest_close (opened : Nat) (cs : List Char) :
    deepest opened ('}' :: cs) = max opened (deepest (opened - 1) cs) := rfl

/-- Outside of blocks only opening braces count. -/
theorem deepest_zero_cons {c : Char} (h : c ≠ '{') (cs : List Char) :
    deepest 0 (c :: cs) = deepest 0 cs := by
  by_cases hclose : c = '}'
  · subst hclose
    exact Nat.zero_max _
  · exact deepest_plain ⟨h, hclose⟩ 0 cs

theorem le_deepest (opened : Nat) (cs : List Char) : opened ≤ deepest opened cs := by
  induction cs generalizing opened with
  | nil => exact Nat.le_refl _
  | cons c cs ih =>
    unfold deepest
    split
    · exact Nat.le_trans (Nat.le_succ _) (ih _)
    · split
      · exact Nat.le_max_left _ _
      · exact ih _

theorem deepest_text (t : Tree) (opened : Nat) (cs : List Char) :
    deepest opened (t.text ++ cs) = max (opened + t.depth) (deepest opened cs) := by
  induction t generalizing opened cs with
  | done => exact (Nat.max_eq_right (le_deepest opened cs)).symm
  | char c hc rest ih => exact (deepest_plain hc opened _).trans (ih opened cs)
  | block content rest ihcontent ihrest =>
    have hle := le_deepest opened (rest.text ++ cs)
    rw [Tree.text, List.cons_append, List.append_assoc, List.cons_append, deepest_open, ihcontent,
      deepest_close, Nat.add_sub_cancel, ihrest, Tree.depth]
    omega

theorem blockEnd?_balanced {deeper : Nat} {cs content rest : List Char}
    (h : blockEnd? deeper cs = some (content, rest)) :
    cs = content ++ '}' :: rest ∧ Balanced deeper content := by
  induction cs generalizing deeper content with
  | nil => simp [blockEnd?] at h
  | cons c cs ih =>
    by_cases hopen : c = '{'
    · subst hopen
      obtain ⟨⟨inner, _⟩, hinner, heq⟩ := Option.map_eq_some_iff.1 h
      cases heq
      obtain ⟨rfl, hbalanced⟩ := ih hinner
      exact ⟨rfl, hbalanced⟩
    · by_cases hclose : c = '}'
      · subst hclose
        cases deeper with
        | zero =>
          obtain ⟨rfl, rfl⟩ := Prod.mk.inj (Option.some.inj h)
          exact ⟨rfl, rfl⟩
        | succ deeper =>
          obtain ⟨⟨inner, _⟩, hinner, heq⟩ := Option.map_eq_some_iff.1 h
          cases heq
          obtain ⟨rfl, hbalanced⟩ := ih hinner
          exact ⟨rfl, hbalanced⟩
      · rw [Tree.blockEnd?_plain ⟨hopen, hclose⟩] at h
        obtain ⟨⟨inner, _⟩, hinner, heq⟩ := Option.map_eq_some_iff.1 h
        cases heq
        obtain ⟨rfl, hbalanced⟩ := ih hinner
        exact ⟨rfl, (balanced_plain ⟨hopen, hclose⟩ deeper inner).2 hbalanced⟩

/-- **Counting braces finds the end of a block exactly when it is closed.** -/
theorem blockEnd?_eq_none_iff {cs : List Char} : blockEnd? 0 cs = none ↔ Open cs := by
  constructor
  · rintro h t rest rfl
    rw [Tree.blockEnd?_text] at h
    simp [blockEnd?] at h
  · intro h
    cases hcs : blockEnd? 0 cs with
    | none => rfl
    | some cut =>
      obtain ⟨htext, hbalanced⟩ := blockEnd?_balanced hcs
      obtain ⟨t, ht, -⟩ := Tree.existsUnique_text_eq_iff.2 hbalanced
      exact absurd htext (ht ▸ h t cut.2)

namespace Closed

theorem mono {n m : Nat} {cs : List Char} (h : Closed n cs) (hle : n ≤ m) : Closed m cs := by
  induction h with
  | nil => exact .nil
  | char hc _ ih => exact .char hc ih
  | block ht _ ih => exact .block (Nat.lt_of_lt_of_le ht hle) ih

theorem append {n : Nat} {a b : List Char} (ha : Closed n a) (hb : Closed n b) : Closed n (a ++ b) := by
  induction ha with
  | nil => exact hb
  | char hc _ ih => exact .char hc ih
  | @block t cs ht _ ih =>
    rw [List.cons_append, List.append_assoc, List.cons_append]
    exact .block ht ih

theorem of_text {n : Nat} {t : Tree} (h : t.depth ≤ n) : Closed n t.text := by
  induction t with
  | done => exact .nil
  | char c hc rest ih => exact .char hc.1 (ih h)
  | block content rest _ ih =>
    exact .block (Nat.le_trans (Nat.le_max_left _ _) h) (ih (Nat.le_trans (Nat.le_max_right _ _) h))

theorem of_unbraced {cs : List Char} (h : Unbraced cs) (n : Nat) : Closed n cs := by
  obtain ⟨t, rfl, ht⟩ := Tree.exists_text_eq_of_unbraced h
  exact of_text (ht ▸ Nat.zero_le n)

/-- Where no block may be, none is opened. -/
theorem notMem {cs : List Char} (h : Closed 0 cs) : '{' ∉ cs := by
  induction h with
  | nil => exact List.not_mem_nil
  | char hc _ ih => exact fun hmem => (List.mem_cons.1 hmem).elim (Ne.symm hc) ih
  | block ht _ _ => exact absurd ht (Nat.not_lt_zero _)

end Closed

/-- **The text from the first brace on that is never closed**, nothing when there is none. -/
def openRest : List Char → List Char
  | [] => []
  | c :: cs => if c = '{' ∧ blockEnd? 0 cs = none then c :: cs else openRest cs

theorem openRest_cons {c : Char} {cs : List Char} (h : c = '{' → ¬Open cs) :
    openRest (c :: cs) = openRest cs :=
  if_neg fun hand => h hand.1 (blockEnd?_eq_none_iff.1 hand.2)

theorem openRest_open {cs : List Char} (h : Open cs) : openRest ('{' :: cs) = '{' :: cs :=
  if_pos ⟨rfl, blockEnd?_eq_none_iff.2 h⟩

/-- The braces of blocks that are closed are closed. -/
theorem openRest_text (t : Tree) (cs : List Char) : openRest (t.text ++ cs) = openRest cs := by
  induction t generalizing cs with
  | done => rfl
  | char c hc rest ih => exact (openRest_cons fun hopen => absurd hopen hc.1).trans (ih cs)
  | block content rest ihcontent ihrest =>
    rw [Tree.text, List.cons_append, List.append_assoc, List.cons_append,
      openRest_cons fun _ hopen => hopen content _ rfl, ihcontent,
      openRest_cons fun hopen => absurd hopen (by decide), ihrest]

theorem openRest_cases (cs : List Char) :
    (openRest cs = [] ∧ ∀ before behind, cs = before ++ '{' :: behind → ¬Open behind) ∨
      ∃ u, openRest cs = '{' :: u ∧ Open u := by
  induction cs with
  | nil => exact Or.inl ⟨rfl, fun before behind h => absurd h (by simp)⟩
  | cons c cs ih =>
    by_cases hopen : c = '{' ∧ Open cs
    · obtain ⟨rfl, hcs⟩ := hopen
      exact Or.inr ⟨cs, openRest_open hcs, hcs⟩
    · rw [openRest_cons fun hc hcs => hopen ⟨hc, hcs⟩]
      refine ih.imp_left fun ⟨hnil, hall⟩ => ⟨hnil, fun before behind h => ?_⟩
      cases before with
      | nil =>
        obtain ⟨rfl, rfl⟩ := List.cons.inj h
        exact fun hcs => hopen ⟨rfl, hcs⟩
      | cons d before => exact hall before behind (List.cons.inj h).2

/-- **In front of the first brace that is never closed all blocks are.** -/
theorem exists_closed_append (cs : List Char) :
    ∃ front, cs = front ++ openRest cs ∧ Closed (deepest 0 cs) front := by
  induction hlength : cs.length using Nat.strongRecOn generalizing cs with
  | ind length ih =>
    cases cs with
    | nil => exact ⟨[], rfl, .nil⟩
    | cons c cs =>
      by_cases hopen : c = '{'
      · subst hopen
        by_cases hleft : Open cs
        · rw [openRest_open hleft]
          exact ⟨[], rfl, .nil⟩
        · obtain ⟨t, after, rfl⟩ :
              ∃ (t : Tree) (after : List Char), cs = t.text ++ '}' :: after := by
            simpa [Open] using hleft
          obtain ⟨front, hafter, hfront⟩ := ih after.length
            (by rw [← hlength]; simp only [List.length_append, List.length_cons]; omega) after rfl
          have hbrace : openRest ('}' :: after) = openRest after :=
            openRest_cons fun hc => absurd hc (by decide)
          rw [openRest_cons fun _ => hleft, openRest_text, hbrace, deepest_open, deepest_text,
            deepest_close, Nat.add_sub_cancel]
          refine ⟨'{' :: (t.text ++ '}' :: front), by simp [← hafter], ?_⟩
          exact .block (by omega) (hfront.mono (by omega))
      · obtain ⟨front, hcs, hfront⟩ := ih cs.length (by simp [← hlength]) cs rfl
        rw [openRest_cons fun hc => absurd hc hopen, deepest_zero_cons hopen]
        exact ⟨c :: front, congrArg (c :: ·) hcs, .char hopen hfront⟩

/-! ## Passes -/

theorem replaceBlocks_cons (replace : List Char → List Char) {c : Char} (h : c ≠ '{')
    (cs : List Char) : replaceBlocks replace (c :: cs) = c :: replaceBlocks replace cs := by
  rw [replaceBlocks, if_neg h]

/-- Nothing is replaced from a brace on that is left open. -/
theorem replaceBlocks_open (replace : List Char → List Char) {cs : List Char} (h : Open cs) :
    replaceBlocks replace ('{' :: cs) = '{' :: cs := by
  have hnone := blockEnd?_eq_none_iff.2 h
  rw [replaceBlocks, if_pos rfl]
  split
  · next hsome => exact absurd (hsome.symm.trans hnone) (Option.some_ne_none _)
  · rfl

theorem passes_open (replace : List Char → List Char) {cs : List Char} (h : Open cs) (count : Nat) :
    passes (replaceBlocks replace) count ('{' :: cs) = '{' :: cs := by
  induction count with
  | zero => rfl
  | succ count ih => rw [passes, replaceBlocks_open replace h, ih]

theorem passes_nil (replace : List Char → List Char) (count : Nat) :
    passes (replaceBlocks replace) count [] = [] := by
  induction count with
  | zero => rfl
  | succ count ih => rw [passes, replaceBlocks, ih]

/-- What comes behind closed blocks does not matter to them, nor they to it. -/
theorem Closed.replaceBlocks_append (replace : List Char → List Char) {n : Nat} {a : List Char}
    (h : Closed n a) (b : List Char) :
    replaceBlocks replace (a ++ b) = replaceBlocks replace a ++ replaceBlocks replace b := by
  induction h with
  | nil => rw [replaceBlocks, List.nil_append, List.nil_append]
  | char hc _ ih => rw [List.cons_append, replaceBlocks_cons _ hc, replaceBlocks_cons _ hc, ih]; rfl
  | block ht _ ih =>
    rw [List.cons_append, List.append_assoc, List.cons_append, Tree.replaceBlocks_block,
      Tree.replaceBlocks_block, ih, List.append_assoc]

section

variable {own? : List Char → Option (List Char)}
  (hown : ∀ content s, own? content = some s → Unbraced s)

include hown

/-- A pass takes off the outermost blocks. -/
theorem Closed.pass {n : Nat} {cs : List Char} (h : Closed n cs) :
    Closed (n - 1) (replaceBlocks (fun content => (own? content).getD content) cs) := by
  induction h with
  | nil =>
    rw [replaceBlocks]
    exact .nil
  | char hc _ ih =>
    rw [replaceBlocks_cons _ hc]
    exact .char hc ih
  | @block t cs ht _ ih =>
    rw [Tree.replaceBlocks_block]
    refine append ?_ ih
    cases hs : own? t.text with
    | none => exact of_text (by omega)
    | some s => exact of_unbraced (hown _ s hs) _

theorem Closed.passes_append {n : Nat} {a : List Char} (h : Closed n a) (b : List Char) (count : Nat) :
    passes (replaceBlocks fun content => (own? content).getD content) count (a ++ b) =
      passes (replaceBlocks fun content => (own? content).getD content) count a ++
        passes (replaceBlocks fun content => (own? content).getD content) count b := by
  induction count generalizing n a b with
  | zero => rfl
  | succ count ih => rw [passes, h.replaceBlocks_append, ih (h.pass hown)]; rfl

/-- **Passes use up blocks**, when there are as many of them as blocks are nested. -/
theorem Closed.passes {n m : Nat} {cs : List Char} (h : Closed n cs) :
    Closed (n - m) (passes (replaceBlocks fun content => (own? content).getD content) m cs) := by
  induction m generalizing n cs with
  | zero => exact h
  | succ m ih =>
    rw [Label.passes, Nat.add_comm, ← Nat.sub_sub]
    exact ih (h.pass hown)

/-- **Passes change a template in front of the first brace that is never closed**, and leave no
opening brace there. -/
theorem exists_passes_eq {cs : List Char} {count : Nat} (h : deepest 0 cs ≤ count) :
    ∃ front, '{' ∉ front ∧
      passes (replaceBlocks fun content => (own? content).getD content) count cs =
        front ++ openRest cs := by
  obtain ⟨front, hcs, hfront⟩ := exists_closed_append cs
  have hrest : passes (replaceBlocks fun content => (own? content).getD content) count (openRest cs) =
      openRest cs := by
    obtain ⟨hnil, -⟩ | ⟨u, hu, hopen⟩ := openRest_cases cs
    · rw [hnil, passes_nil]
    · rw [hu, passes_open _ hopen]
  have hused : Closed 0
      (passes (replaceBlocks fun content => (own? content).getD content) count front) := by
    have hleft := (hfront.mono h).passes hown (m := count)
    rwa [Nat.sub_self] at hleft
  refine ⟨_, hused.notMem, ?_⟩
  have happ := hfront.passes_append hown (openRest cs) count
  rwa [← hcs, hrest] at happ

end

theorem unbraced_meaning (quantity : Double) (content s : List Char) :
    meaning? quantity content = some s → Unbraced s :=
  unbraced_of_meaning?

theorem unbraced_gone (content s : List Char) : Tree.gone? content = some s → Unbraced s :=
  Tree.unbraced_of_gone?

/-! ## Placeholders that stay -/

/-- Placeholders are where opening braces are. -/
theorem contains_braced_append {front : List Char} (h : '{' ∉ front) (p : Placeholder)
    (rest : List Char) :
    Text.contains p.braced (front ++ rest) = Text.contains p.braced rest := by
  show Text.contains ('{' :: (p.name.toList ++ ['}'])) _ = _
  exact Text.contains_append_of_notMem h rest

theorem count_brace_closeSeams (cs : List Char) : (closeSeams cs).count '{' = cs.count '{' :=
  count_closeSeams (by decide) (by decide) (by decide) cs

/-- What is in front of an opening brace neither makes nor breaks a placeholder behind it when seams
are closed. -/
theorem contains_closeSeams_append {front rest : List Char} (hfront : '{' ∉ front)
    (hrest : ∀ c ∈ rest.head?, c = '{') (p : Placeholder) :
    Text.contains p.braced (closeSeams (front ++ rest)) = Text.contains p.braced (closeSeams rest) := by
  cases rest with
  | nil =>
    have hnone : '{' ∉ closeSeams front :=
      List.count_eq_zero.1 ((count_brace_closeSeams front).trans (List.count_eq_zero.2 hfront))
    have happ := contains_braced_append hnone p []
    rw [List.append_nil] at happ
    rw [List.append_nil, happ, closeSeams_of_notMem List.not_mem_nil]
  | cons c u =>
    obtain rfl := hrest c rfl
    obtain ⟨z, hz⟩ := exists_closeSeams_append (c := '{') (by decide) (by decide) (by decide) front
    have hcount := count_brace_closeSeams (front ++ ['{'])
    rw [hz, List.count_append, count_brace_closeSeams, List.count_append,
      List.count_eq_zero.2 hfront] at hcount
    have hnone : z.count '{' = 0 := by omega
    rw [hz, contains_braced_append (List.count_eq_zero.1 hnone)]

/-- **Of the placeholders of a template those stay that are behind a brace that is never closed.**
When blocks are nested ten deep at most, none is left, filled or not, of a template whose opening
braces are all closed; closing braces may be too many. In any other, a placeholder is left exactly
when it stands in the text from the first brace on that is never closed, in a template without its
quantity after the seams in that text are closed, if it has any. -/
theorem placeholders_stay (template : String) (hdeep : deepest 0 template.toList ≤ 10) :
    ((∀ before behind, template.toList = before ++ '{' :: behind → ¬Open behind) →
      ∀ p : Placeholder,
        (∀ quantity, Text.contains p.braced (fill template quantity).toList = false) ∧
          Text.contains p.braced (strip template).toList = false) ∧
      ∀ p : Placeholder,
        (∀ quantity, Text.contains p.braced (fill template quantity).toList =
          Text.contains p.braced (openRest template.toList)) ∧
        Text.contains p.braced (strip template).toList =
          Text.contains p.braced (closeSeams (openRest template.toList)) ∧
        (seam ∉ template.toList →
          closeSeams (openRest template.toList) = openRest template.toList) := by
  have hstays : ∀ p : Placeholder,
      (∀ quantity, Text.contains p.braced (fill template quantity).toList =
        Text.contains p.braced (openRest template.toList)) ∧
      Text.contains p.braced (strip template).toList =
        Text.contains p.braced (closeSeams (openRest template.toList)) := by
    intro p
    constructor
    · intro quantity
      obtain ⟨front, hfront, hpasses⟩ := exists_passes_eq (unbraced_meaning quantity) hdeep
      rw [fill, fillBlock_eq, passLimit, hpasses, String.toList_ofList,
        contains_braced_append hfront]
    · obtain ⟨front, hfront, hpasses⟩ := exists_passes_eq unbraced_gone hdeep
      rw [strip, Tree.stripBlock_eq, passLimit, hpasses, String.toList_ofList]
      refine contains_closeSeams_append hfront (fun c hc => ?_) p
      obtain ⟨hnil, -⟩ | ⟨u, hu, -⟩ := openRest_cases template.toList
      · exact absurd hc (by simp [hnil])
      · simpa [hu, eq_comm] using hc
  refine ⟨fun hclosed p => ?_, fun p => ⟨(hstays p).1, (hstays p).2, fun hseam => ?_⟩⟩
  · have hnil : openRest template.toList = [] := by
      obtain ⟨hnil, -⟩ | ⟨u, hu, hopen⟩ := openRest_cases template.toList
      · exact hnil
      · obtain ⟨front, htext, -⟩ := exists_closed_append template.toList
        exact absurd hopen (hclosed front u (hu ▸ htext))
    have hnone : Text.contains p.braced [] = false := by cases p <;> decide
    have hstaysp := hstays p
    rw [hnil, closeSeams_of_notMem List.not_mem_nil, hnone] at hstaysp
    exact hstaysp
  · obtain ⟨front, htext, -⟩ := exists_closed_append template.toList
    exact closeSeams_of_notMem fun hmem => hseam (htext ▸ List.mem_append_right front hmem)

/-- A placeholder behind a brace that is never closed, itself in matching braces. -/
theorem placeholders_stay_behind :
    let template := "Only \x7b\x7bquantity\x7d left"
    deepest 0 template.toList = 2 ∧ Open "\x7bquantity\x7d left".toList ∧
      ∀ quantity, Text.contains Placeholder.quantity.braced (fill template quantity).toList = true := by
  intro template
  have hdeep : deepest 0 template.toList = 2 := by decide
  have hstays := (placeholders_stay template (by rw [hdeep]; decide)).2 .quantity
  refine ⟨hdeep, blockEnd?_eq_none_iff.1 (by decide), fun quantity => ?_⟩
  rw [hstays.1]
  decide

/-- **A brace that is never closed hides the block behind it**: the placeholder is neither filled nor
taken away. -/
theorem placeholder_leaks :
    let template := "Only \x7b\x7bquantity\x7d left"
    deepest 0 template.toList ≤ 10 ∧
      strip template = template ∧ fill template (.ofNat 2) = template ∧
      Text.contains Placeholder.quantity.braced template.toList = true := by
  decide +kernel

end Storefront.Label
