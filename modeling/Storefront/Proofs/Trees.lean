import Mathlib.Logic.ExistsUnique
import Storefront.Proofs.Braces
import Storefront.Stock.Block

/-!
# Label templates as trees

A label template whose braces are balanced is a tree of blocks, and it is one
tree only (`Tree.existsUnique_text_eq_iff`). What a template means is said on the tree, by
recursion: a block either has a text of its own, or stands for what is in it
(`Tree.evaluated`).

What is done to a template is said on its text: braces are counted to find the
outermost blocks, these are replaced, and this is repeated. A tree is neutral for
the counting (`Tree.blockEnd?_text`), so a pass replaces exactly the blocks on the
outside of the tree. It leaves the text of a tree that is less deep and means the
same (`Tree.exists_text_replaceBlocks`), and so as many passes as blocks are nested
are an evaluation (`Tree.passes_text`).
-/

namespace Storefront.Label

open Text

/-! ## Braces -/

/-- **Balanced braces** behind `opened` blocks that are still open: every closing brace closes one,
and in the end none is open. -/
def Balanced : (opened : Nat) → List Char → Prop
  | opened, [] => opened = 0
  | opened, c :: cs =>
    if c = '{' then Balanced (opened + 1) cs
    else if c = '}' then
      match opened with
      | 0 => False
      | opened + 1 => Balanced opened cs
    else Balanced opened cs

theorem balanced_open (opened : Nat) (cs : List Char) :
    Balanced opened ('{' :: cs) ↔ Balanced (opened + 1) cs := Iff.rfl

theorem balanced_close (opened : Nat) (cs : List Char) :
    Balanced (opened + 1) ('}' :: cs) ↔ Balanced opened cs := Iff.rfl

theorem balanced_plain {c : Char} (h : c ≠ '{' ∧ c ≠ '}') (opened : Nat) (cs : List Char) :
    Balanced opened (c :: cs) ↔ Balanced opened cs := by
  show (if c = '{' then _ else if c = '}' then _ else Balanced opened cs) ↔ _
  rw [if_neg h.1, if_neg h.2]

/-- **A template as a tree**: characters and blocks, one after another. -/
inductive Tree where
  /-- The end of the template or of a block. -/
  | done
  /-- A character that is no brace, and what follows it. -/
  | char (c : Char) (plain : c ≠ '{' ∧ c ≠ '}') (rest : Tree)
  /-- A block, and what follows it. -/
  | block (content rest : Tree)

namespace Tree

/-! ## Trees and their texts -/

/-- **The text of a tree**, with the braces of its blocks. -/
def text : Tree → List Char
  | .done => []
  | .char c _ rest => c :: rest.text
  | .block content rest => '{' :: (content.text ++ '}' :: rest.text)

/-- How deep blocks are nested. -/
def depth : Tree → Nat
  | .done => 0
  | .char _ _ rest => rest.depth
  | .block content rest => max (content.depth + 1) rest.depth

/-- **Of two trees in front of the end of a block, or of everything, the texts tell which they
are.** -/
theorem text_cancel {t u : Tree} {a b : List Char} (ha : a.head?.all (· == '}'))
    (hb : b.head?.all (· == '}')) (h : t.text ++ a = u.text ++ b) : t = u ∧ a = b := by
  induction t generalizing u a b with
  | done =>
    cases u with
    | done => exact ⟨rfl, h⟩
    | char c hc rest =>
      rw [show a = c :: (rest.text ++ b) from h] at ha
      exact absurd (beq_iff_eq.1 ha) hc.2
    | block content rest =>
      rw [show a = '{' :: _ from h] at ha
      exact absurd (beq_iff_eq.1 ha) (by decide)
  | char c hc rest ih =>
    cases u with
    | done =>
      rw [← show c :: (rest.text ++ a) = b from h] at hb
      exact absurd (beq_iff_eq.1 hb) hc.2
    | char d hd rest' =>
      obtain ⟨rfl, hrest⟩ := List.cons.inj h
      obtain ⟨rfl, hends⟩ := ih ha hb hrest
      exact ⟨rfl, hends⟩
    | block content rest' => exact absurd (List.cons.inj h).1 hc.1
  | block content rest ihcontent ihrest =>
    cases u with
    | done =>
      rw [← show '{' :: _ = b from h] at hb
      exact absurd (beq_iff_eq.1 hb) (by decide)
    | char d hd rest' => exact absurd (List.cons.inj h).1.symm hd.1
    | block content' rest' =>
      have hinner : content.text ++ '}' :: (rest.text ++ a) =
          content'.text ++ '}' :: (rest'.text ++ b) := by
        simpa [text] using h
      obtain ⟨rfl, hbehind⟩ := ihcontent rfl rfl hinner
      obtain ⟨rfl, hends⟩ := ihrest ha hb (List.cons.inj hbehind).2
      exact ⟨rfl, hends⟩

theorem text_injective {t u : Tree} (h : t.text = u.text) : t = u := by
  refine (text_cancel (a := []) (b := []) rfl rfl ?_).1
  rw [h]

/-- A tree changes nothing about whether the braces around it are balanced. -/
theorem balanced_text_append (t : Tree) (opened : Nat) (cs : List Char) :
    Balanced opened (t.text ++ cs) ↔ Balanced opened cs := by
  induction t generalizing opened cs with
  | done => exact Iff.rfl
  | char c hc rest ih => exact (balanced_plain hc opened _).trans (ih opened cs)
  | block content rest ihcontent ihrest =>
    rw [text, List.cons_append, List.append_assoc, balanced_open, ihcontent, List.cons_append,
      balanced_close, ihrest]

theorem balanced_text (t : Tree) : Balanced 0 t.text := by
  have hbalanced := (balanced_text_append t 0 []).2 rfl
  rwa [List.append_nil] at hbalanced

/-- **What comes behind a tree** in balanced braces: the end of the innermost block that is open,
or nothing when none is. -/
def Follows : (opened : Nat) → List Char → Prop
  | 0, rest => rest = []
  | opened + 1, rest => ∃ after, rest = '}' :: after ∧ Balanced opened after

/-- **Balanced braces begin with a tree**, up to the end of the block that they stand in. -/
theorem exists_text_append_eq {opened : Nat} {cs : List Char} (h : Balanced opened cs) :
    ∃ (t : Tree) (rest : List Char), cs = t.text ++ rest ∧ Follows opened rest := by
  induction hlength : cs.length using Nat.strongRecOn generalizing opened cs with
  | ind length ih =>
    subst hlength
    cases cs with
    | nil =>
      obtain rfl : opened = 0 := h
      exact ⟨.done, [], rfl, rfl⟩
    | cons c cs =>
      by_cases hopen : c = '{'
      · subst hopen
        -- the content of the block comes first, and what is behind the block is shorter still
        obtain ⟨content, _, rfl, after, rfl, hafter⟩ :=
          ih _ (Nat.lt_succ_self _) ((balanced_open opened cs).1 h) rfl
        have hshorter : after.length < ('{' :: (content.text ++ '}' :: after)).length := by
          simp only [List.length_cons, List.length_append]
          omega
        obtain ⟨t, rest, rfl, hrest⟩ := ih _ hshorter hafter rfl
        exact ⟨.block content t, rest, by simp [text], hrest⟩
      · by_cases hclose : c = '}'
        · subst hclose
          cases opened with
          | zero => exact absurd h id
          | succ opened => exact ⟨.done, '}' :: cs, rfl, cs, rfl, h⟩
        · have hplain : c ≠ '{' ∧ c ≠ '}' := ⟨hopen, hclose⟩
          obtain ⟨t, rest, rfl, hrest⟩ :=
            ih _ (Nat.lt_succ_self _) ((balanced_plain hplain opened cs).1 h) rfl
          exact ⟨.char c hplain t, rest, rfl, hrest⟩

/-- **Balanced braces are read as exactly one tree**, and nothing else is. -/
theorem existsUnique_text_eq_iff {cs : List Char} : (∃! t : Tree, t.text = cs) ↔ Balanced 0 cs := by
  constructor
  · rintro ⟨t, rfl, -⟩
    exact balanced_text t
  · intro h
    obtain ⟨t, rest, rfl, rfl⟩ := exists_text_append_eq h
    rw [List.append_nil]
    exact ⟨t, rfl, fun u hu => text_injective hu⟩

/-! ## Trees one after another -/

/-- One tree behind another. -/
def append : Tree → Tree → Tree
  | .done, u => u
  | .char c plain rest, u => .char c plain (rest.append u)
  | .block content rest, u => .block content (rest.append u)

theorem text_append (t u : Tree) : (t.append u).text = t.text ++ u.text := by
  induction t with
  | done => rfl
  | char c hc rest ih => exact congrArg (c :: ·) ih
  | block content rest _ ih => simp [append, text, ih]

theorem depth_append (t u : Tree) : (t.append u).depth = max t.depth u.depth := by
  induction t with
  | done => exact (Nat.zero_max _).symm
  | char c hc rest ih => exact ih
  | block content rest _ ih => rw [append, depth, depth, ih, Nat.max_assoc]

/-- A tree behind a text without braces. -/
def plain : (cs : List Char) → Unbraced cs → Tree → Tree
  | [], _, rest => rest
  | c :: cs, h, rest => .char c (unbraced_cons.1 h).1 (plain cs (unbraced_cons.1 h).2 rest)

theorem text_plain {cs : List Char} (h : Unbraced cs) (rest : Tree) :
    (plain cs h rest).text = cs ++ rest.text := by
  induction cs with
  | nil => rfl
  | cons c cs ih => exact congrArg (c :: ·) (ih (unbraced_cons.1 h).2)

theorem depth_plain {cs : List Char} (h : Unbraced cs) (rest : Tree) :
    (plain cs h rest).depth = rest.depth := by
  induction cs with
  | nil => rfl
  | cons c cs ih => exact ih (unbraced_cons.1 h).2

/-- **A text without braces is a tree without blocks.** -/
theorem exists_text_eq_of_unbraced {cs : List Char} (h : Unbraced cs) :
    ∃ t : Tree, t.text = cs ∧ t.depth = 0 :=
  ⟨plain cs h .done, (text_plain h .done).trans (List.append_nil cs), depth_plain h .done⟩

/-! ## Evaluation -/

/-- **What a tree means**: a block has the text that `own?` gives it from its content, or else is
what its content means. -/
def evaluated (own? : List Char → Option (List Char)) : Tree → List Char
  | .done => []
  | .char c _ rest => c :: rest.evaluated own?
  | .block content rest =>
    (own? content.text).getD (content.evaluated own?) ++ rest.evaluated own?

/-- **The text without the braces of its blocks.** -/
def unwrapped : Tree → List Char
  | .done => []
  | .char c _ rest => c :: rest.unwrapped
  | .block content rest => content.unwrapped ++ rest.unwrapped

section

variable {own? : List Char → Option (List Char)}

theorem evaluated_append (t u : Tree) :
    (t.append u).evaluated own? = t.evaluated own? ++ u.evaluated own? := by
  induction t with
  | done => rfl
  | char c hc rest ih => exact congrArg (c :: ·) ih
  | block content rest _ ih => rw [append, evaluated, evaluated, ih, List.append_assoc]

theorem unbraced_unwrapped (t : Tree) : Unbraced t.unwrapped := by
  induction t with
  | done => exact unbraced_nil
  | char c hc rest ih => exact unbraced_cons.2 ⟨hc, ih⟩
  | block content rest ihcontent ihrest => exact unbraced_append.2 ⟨ihcontent, ihrest⟩

/-- No brace is left when the texts of blocks have none. -/
theorem unbraced_evaluated (hown : ∀ content s, own? content = some s → Unbraced s) (t : Tree) :
    Unbraced (t.evaluated own?) := by
  induction t with
  | done => exact unbraced_nil
  | char c hc rest ih => exact unbraced_cons.2 ⟨hc, ih⟩
  | block content rest ihcontent ihrest =>
    refine unbraced_append.2 ⟨?_, ihrest⟩
    cases hs : own? content.text with
    | none => exact ihcontent
    | some s => exact hown _ s hs

theorem evaluated_of_depth_eq_zero {t : Tree} (h : t.depth = 0) : t.evaluated own? = t.text := by
  induction t with
  | done => rfl
  | char c hc rest ih => exact congrArg (c :: ·) (ih h)
  | block content rest =>
    rw [depth] at h
    omega

/-! ## Passes -/

theorem blockEnd?_plain {c : Char} (h : c ≠ '{' ∧ c ≠ '}') (deeper : Nat) (cs : List Char) :
    blockEnd? deeper (c :: cs) =
      (blockEnd? deeper cs).map fun (content, rest) => (c :: content, rest) := by
  show (if c = '{' then _ else if c = '}' then _ else _) = _
  rw [if_neg h.1, if_neg h.2]

theorem blockEnd?_open (deeper : Nat) (cs : List Char) :
    blockEnd? deeper ('{' :: cs) =
      (blockEnd? (deeper + 1) cs).map fun (content, rest) => ('{' :: content, rest) := rfl

theorem blockEnd?_close (deeper : Nat) (cs : List Char) :
    blockEnd? (deeper + 1) ('}' :: cs) =
      (blockEnd? deeper cs).map fun (content, rest) => ('}' :: content, rest) := rfl

/-- **Counting passes over a tree**: it opens and closes its own blocks only. -/
theorem blockEnd?_text (t : Tree) (deeper : Nat) (cs : List Char) :
    blockEnd? deeper (t.text ++ cs) =
      (blockEnd? deeper cs).map fun (content, rest) => (t.text ++ content, rest) := by
  induction t generalizing deeper cs with
  | done => exact (congrFun Option.map_id _).symm
  | char c hc rest ih =>
    rw [text, List.cons_append, blockEnd?_plain hc, ih, Option.map_map]
    rfl
  | block content rest ihcontent ihrest =>
    rw [text, List.cons_append, List.append_assoc, List.cons_append, blockEnd?_open, ihcontent,
      blockEnd?_close, ihrest, Option.map_map, Option.map_map, Option.map_map]
    refine congrArg (Option.map · _) (funext fun cut => ?_)
    simp

theorem replaceBlocks_plain (replace : List Char → List Char) {c : Char}
    (h : c ≠ '{' ∧ c ≠ '}') (cs : List Char) :
    replaceBlocks replace (c :: cs) = c :: replaceBlocks replace cs := by
  rw [replaceBlocks, if_neg h.1]

/-- An outermost block is replaced as a whole. -/
theorem replaceBlocks_block (replace : List Char → List Char) (t : Tree) (cs : List Char) :
    replaceBlocks replace ('{' :: (t.text ++ '}' :: cs)) =
      replace t.text ++ replaceBlocks replace cs := by
  have hend : blockEnd? 0 (t.text ++ '}' :: cs) = some (t.text, cs) := by
    rw [blockEnd?_text]
    simp [blockEnd?]
  rw [replaceBlocks, if_pos rfl]
  split
  · next content rest hcut =>
    obtain ⟨rfl, rfl⟩ := Prod.mk.inj (Option.some.inj (hcut.symm.trans hend))
    rfl
  · next hnone => exact absurd (hnone.symm.trans hend) (Option.some_ne_none _).symm

/-- **A pass takes off one layer of blocks**: what it leaves is less deep and means the same. -/
theorem exists_text_replaceBlocks (hown : ∀ content s, own? content = some s → Unbraced s)
    (t : Tree) :
    ∃ u : Tree, u.text = replaceBlocks (fun content => (own? content).getD content) t.text ∧
      u.depth ≤ t.depth - 1 ∧ u.evaluated own? = t.evaluated own? := by
  induction t with
  | done => exact ⟨.done, by rw [text, replaceBlocks], Nat.le_refl _, rfl⟩
  | char c hc rest ih =>
    obtain ⟨u, htext, hdepth, heval⟩ := ih
    refine ⟨.char c hc u, ?_, hdepth, congrArg (c :: ·) heval⟩
    rw [text, text, replaceBlocks_plain _ hc, htext]
  | block content rest _ ih =>
    obtain ⟨u, htext, hdepth, heval⟩ := ih
    -- what the block becomes is a tree, either its content or one without blocks
    obtain ⟨v, hvtext, hvdepth, hveval⟩ : ∃ v : Tree,
        v.text = (own? content.text).getD content.text ∧ v.depth ≤ content.depth ∧
          v.evaluated own? = (own? content.text).getD (content.evaluated own?) := by
      cases hs : own? content.text with
      | none => exact ⟨content, rfl, Nat.le_refl _, rfl⟩
      | some s =>
        obtain ⟨v, rfl, hv⟩ := exists_text_eq_of_unbraced (hown _ s hs)
        exact ⟨v, rfl, hv ▸ Nat.zero_le _, evaluated_of_depth_eq_zero hv⟩
    refine ⟨v.append u, ?_, ?_, ?_⟩
    · rw [text_append, text, replaceBlocks_block, hvtext, htext]
    · rw [depth_append, depth]
      omega
    · rw [evaluated_append, evaluated, hveval, heval]

/-- **Passes evaluate a tree** when there are as many of them as blocks are nested. -/
theorem passes_text (hown : ∀ content s, own? content = some s → Unbraced s) {t : Tree}
    {count : Nat} (h : t.depth ≤ count) :
    passes (replaceBlocks fun content => (own? content).getD content) count t.text =
      t.evaluated own? := by
  induction count generalizing t with
  | zero => exact (evaluated_of_depth_eq_zero (Nat.le_zero.1 h)).symm
  | succ count ih =>
    obtain ⟨u, htext, hdepth, heval⟩ := exists_text_replaceBlocks hown t
    rw [passes, ← htext, ih (by omega), heval]

end

end Tree

end Storefront.Label
