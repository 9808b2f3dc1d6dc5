import Storefront.Stock.Seam

/-!
# Gaps in a text

Where blocks were removed, a text has seams, blanks around them, and parentheses
that are left around nothing else. Such a stretch is a *gap* (`Gap`): parentheses
around a gap belong to a gap again, so what goes away is said without looking at how
it is made to go away.

The parentheses go away from the left, one pair at a time. Which pair goes first does
not matter (`withoutEmptyParens_pair`), hence any part of a text may be relieved of
its parentheses before the rest (`withoutEmptyParens_append`). A gap comes down to
seams and blanks (`isSeamed_withoutEmptyParens`).
-/

namespace Storefront.Label

open Text

/-! ## Seams and blanks -/

/-- Whether a character is a seam or blank. -/
def isFaint (c : Char) : Bool := c == seam || isBlank c

theorem isSeamed_iff {cs : List Char} :
    isSeamed cs = true ↔ seam ∈ cs ∧ ∀ c ∈ cs, isFaint c = true := by
  simp [isSeamed, isFaint]

theorem isFaint_of_isBlank {c : Char} (h : isBlank c = true) : isFaint c = true := by
  rw [isFaint, h, Bool.or_true]

theorem isFaint_eq_false_iff {c : Char} : isFaint c = false ↔ c ≠ seam ∧ isBlank c = false := by
  simp [isFaint]

/-- Without seams there are only blanks. -/
theorem isBlank_of_isFaint {cs : List Char} (hnot : seam ∉ cs) (h : ∀ c ∈ cs, isFaint c = true) :
    ∀ c ∈ cs, isBlank c = true := by
  intro c hc
  have hne : c ≠ seam := ne_of_mem_of_not_mem hc hnot
  simpa [isFaint, hne] using h c hc

/-- There are no parentheses among seams and blanks. -/
theorem notMem_of_forall_isFaint {cs : List Char} (h : ∀ c ∈ cs, isFaint c = true) :
    '(' ∉ cs ∧ ')' ∉ cs :=
  ⟨fun hmem => absurd (h _ hmem) (by decide), fun hmem => absurd (h _ hmem) (by decide)⟩

theorem notMem_of_isSeamed {cs : List Char} (h : isSeamed cs = true) : '(' ∉ cs ∧ ')' ∉ cs :=
  notMem_of_forall_isFaint (isSeamed_iff.1 h).2

theorem isSeamed_append_left {a b : List Char} (ha : isSeamed a = true)
    (hb : ∀ c ∈ b, isFaint c = true) : isSeamed (a ++ b) = true := by
  obtain ⟨hseam, hall⟩ := isSeamed_iff.1 ha
  exact isSeamed_iff.2 ⟨List.mem_append_left b hseam, List.forall_mem_append.2 ⟨hall, hb⟩⟩

theorem isSeamed_append_right {a b : List Char} (ha : ∀ c ∈ a, isFaint c = true)
    (hb : isSeamed b = true) : isSeamed (a ++ b) = true := by
  obtain ⟨hseam, hall⟩ := isSeamed_iff.1 hb
  exact isSeamed_iff.2 ⟨List.mem_append_right a hseam, List.forall_mem_append.2 ⟨ha, hall⟩⟩

/-! ## One pair of parentheses

A pair of parentheses is *empty* when it is around nothing but seams and blanks. -/

/-- **Where a character stands** in a text of two parts: in the first, or in the second with all of
the first in front. -/
theorem append_eq_append_cons {a b s rest : List Char} {c : Char} (h : a ++ b = s ++ c :: rest) :
    (∃ t, a = s ++ c :: t ∧ rest = t ++ b) ∨ ∃ t, s = a ++ t ∧ b = t ++ c :: rest := by
  obtain ⟨t, hs, hb⟩ | ⟨t, ha, hrest⟩ := List.append_eq_append_iff.1 h
  · exact Or.inr ⟨t, hs, hb⟩
  · cases t with
    | nil => exact Or.inr ⟨[], by rw [List.append_nil, ha, List.append_nil], hrest.symm⟩
    | cons d t =>
      obtain ⟨rfl, hbehind⟩ := List.cons.inj hrest
      exact Or.inl ⟨t, ha, hbehind⟩

theorem takeWhile_pair {s : List Char} (hs : ')' ∉ s) (rest : List Char) :
    (s ++ ')' :: rest).takeWhile (· != ')') = s := by
  have hplain : ∀ c ∈ s, (c != ')') = true := fun c hc => bne_iff_ne.2 (ne_of_mem_of_not_mem hc hs)
  rw [List.takeWhile_append_of_pos hplain, List.takeWhile_cons_of_neg (by decide), List.append_nil]

/-- An empty pair at the front is found. -/
theorem emptyParens?_pair {s : List Char} (hs : isSeamed s = true) (rest : List Char) :
    emptyParens? ('(' :: (s ++ ')' :: rest)) = some ([], rest) := by
  have hclose : ')' ∉ s := (notMem_of_isSeamed hs).2
  have hdrop : (s ++ ')' :: rest).dropWhile (· != ')') = ')' :: rest := by
    have happ := List.takeWhile_append_dropWhile (p := (· != ')')) (l := s ++ ')' :: rest)
    rw [takeWhile_pair hclose] at happ
    exact List.append_cancel_left happ
  rw [emptyParens?, takeWhile_pair hclose, hdrop, hs, if_pos (by simp)]
  rfl

/-- What is at the front is passed over when it is no empty pair. -/
theorem emptyParens?_cons {c : Char} {cs : List Char}
    (h : ∀ s rest, c :: cs = '(' :: (s ++ ')' :: rest) → isSeamed s = false) :
    emptyParens? (c :: cs) = (emptyParens? cs).map fun (before, after) => (c :: before, after) := by
  rw [emptyParens?, if_neg]
  rw [Bool.and_eq_true, Bool.and_eq_true, decide_eq_true_iff]
  rintro ⟨⟨rfl, hs⟩, hclose⟩
  obtain ⟨s, rest, rfl, hfirst⟩ := List.eq_append_cons_of_mem (List.contains_iff_mem.1 hclose)
  rw [takeWhile_pair hfirst, h s rest rfl] at hs
  exact Bool.false_ne_true hs

/-- **An empty pair that is found is one.** -/
theorem exists_of_emptyParens? {cs before after : List Char}
    (h : emptyParens? cs = some (before, after)) :
    ∃ s, isSeamed s = true ∧ cs = before ++ '(' :: (s ++ ')' :: after) := by
  induction cs generalizing before with
  | nil => simp [emptyParens?] at h
  | cons c cs ih =>
    by_cases hpair : ∃ s rest, c :: cs = '(' :: (s ++ ')' :: rest) ∧ isSeamed s = true
    · obtain ⟨s, rest, hcs, hs⟩ := hpair
      rw [hcs, emptyParens?_pair hs] at h
      cases h
      exact ⟨s, hs, hcs⟩
    · rw [emptyParens?_cons fun s rest hcs =>
        Bool.eq_false_iff.2 fun hs => hpair ⟨s, rest, hcs, hs⟩] at h
      obtain ⟨⟨b, a⟩, hb, heq⟩ := Option.map_eq_some_iff.1 h
      cases heq
      obtain ⟨s, hs, rfl⟩ := ih hb
      exact ⟨s, hs, rfl⟩

/-- A text without empty pairs has none at its front, and none behind it. -/
theorem emptyParens?_cons_eq_none_iff {c : Char} {cs : List Char} :
    emptyParens? (c :: cs) = none ↔
      (∀ s rest, c :: cs = '(' :: (s ++ ')' :: rest) → isSeamed s = false) ∧
        emptyParens? cs = none := by
  constructor
  · intro h
    have hfront : ∀ s rest, c :: cs = '(' :: (s ++ ')' :: rest) → isSeamed s = false := by
      intro s rest hcs
      rw [Bool.eq_false_iff]
      intro hs
      rw [hcs, emptyParens?_pair hs] at h
      exact Option.some_ne_none _ h
    rw [emptyParens?_cons hfront, Option.map_eq_none_iff] at h
    exact ⟨hfront, h⟩
  · rintro ⟨hfront, h⟩
    rw [emptyParens?_cons hfront, h]
    rfl

/-- **The first empty pair stays the first** when a text is continued. -/
theorem emptyParens?_append {cs before after : List Char}
    (h : emptyParens? cs = some (before, after)) (more : List Char) :
    emptyParens? (cs ++ more) = some (before, after ++ more) := by
  induction cs generalizing before with
  | nil => simp [emptyParens?] at h
  | cons c cs ih =>
    by_cases hpair : ∃ s rest, c :: cs = '(' :: (s ++ ')' :: rest) ∧ isSeamed s = true
    · obtain ⟨s, rest, hcs, hs⟩ := hpair
      rw [hcs, emptyParens?_pair hs] at h
      cases h
      rw [hcs, List.cons_append, List.append_assoc, List.cons_append, emptyParens?_pair hs]
    · have hfront : ∀ s rest, c :: cs = '(' :: (s ++ ')' :: rest) → isSeamed s = false :=
        fun s rest hcs => Bool.eq_false_iff.2 fun hs => hpair ⟨s, rest, hcs, hs⟩
      rw [emptyParens?_cons hfront] at h
      obtain ⟨⟨b, a⟩, hb, heq⟩ := Option.map_eq_some_iff.1 h
      cases heq
      rw [List.cons_append, emptyParens?_cons, ih hb]
      · rfl
      · intro s rest hcs
        obtain ⟨rfl, hbehind⟩ := List.cons.inj hcs
        obtain ⟨t, ht, -⟩ | ⟨t, rfl, -⟩ := append_eq_append_cons hbehind
        · exact hfront s t (by rw [ht])
        · -- all that follows would be in the pair, and so would be the one that was found
          obtain ⟨s, -, rfl⟩ := exists_of_emptyParens? hb
          rw [Bool.eq_false_iff]
          intro hseamed
          exact (notMem_of_isSeamed hseamed).1 (by simp)

/-- **A pair behind a text without empty pairs is the first.** -/
theorem emptyParens?_append_pair {cs : List Char} (h : emptyParens? cs = none) {s : List Char}
    (hs : isSeamed s = true) (rest : List Char) :
    emptyParens? (cs ++ '(' :: (s ++ ')' :: rest)) = some (cs, rest) := by
  induction cs with
  | nil => exact emptyParens?_pair hs rest
  | cons c cs ih =>
    obtain ⟨hfront, hcs⟩ := emptyParens?_cons_eq_none_iff.1 h
    rw [List.cons_append, emptyParens?_cons, ih hcs]
    · rfl
    · intro s' rest' hpair
      obtain ⟨rfl, hbehind⟩ := List.cons.inj hpair
      obtain ⟨t, rfl, -⟩ | ⟨t, rfl, hopen⟩ := append_eq_append_cons hbehind
      · exact hfront s' t rfl
      · cases t with
        | nil => exact absurd (List.cons.inj hopen).1 (by decide)
        | cons d t =>
          obtain ⟨rfl, -⟩ := List.cons.inj hopen
          rw [Bool.eq_false_iff]
          intro hseamed
          exact (notMem_of_isSeamed hseamed).1 (by simp)

/-- **Whether there are empty pairs** in a text. -/
theorem emptyParens?_eq_none_iff {cs : List Char} :
    emptyParens? cs = none ↔
      ∀ before s after, cs = before ++ '(' :: (s ++ ')' :: after) → isSeamed s = false := by
  constructor
  · rintro h before s after rfl
    rw [Bool.eq_false_iff]
    intro hs
    cases hbefore : emptyParens? before with
    | none =>
      rw [emptyParens?_append_pair hbefore hs] at h
      exact Option.some_ne_none _ h
    | some cut =>
      rw [emptyParens?_append hbefore] at h
      exact Option.some_ne_none _ h
  · intro h
    cases hcs : emptyParens? cs with
    | none => rfl
    | some cut =>
      obtain ⟨s, hs, hpair⟩ := exists_of_emptyParens? hcs
      exact absurd hs (Bool.eq_false_iff.1 (h cut.1 s cut.2 hpair))

theorem emptyParens?_of_append {a b : List Char} (h : emptyParens? (a ++ b) = none) :
    emptyParens? b = none := by
  rw [emptyParens?_eq_none_iff] at h ⊢
  rintro before s after rfl
  exact h (a ++ before) s after (List.append_assoc a before _).symm

/-! ## All pairs -/

theorem withoutEmptyParens_of_some {cs before after : List Char}
    (h : emptyParens? cs = some (before, after)) :
    withoutEmptyParens cs = withoutEmptyParens (before ++ seam :: after) := by
  rw [withoutEmptyParens]
  split
  · next hfound =>
    obtain ⟨rfl, rfl⟩ := Prod.mk.inj (Option.some.inj (hfound.symm.trans h))
    rfl
  · next hnone => exact absurd (hnone.symm.trans h) (Option.some_ne_none _).symm

theorem withoutEmptyParens_of_none {cs : List Char} (h : emptyParens? cs = none) :
    withoutEmptyParens cs = cs := by
  rw [withoutEmptyParens]
  split
  · next hfound => exact absurd (hfound.symm.trans h) (Option.some_ne_none _)
  · rfl

/-- In the end no empty pair is left. -/
theorem emptyParens?_withoutEmptyParens (cs : List Char) :
    emptyParens? (withoutEmptyParens cs) = none := by
  induction hlength : cs.length using Nat.strongRecOn generalizing cs with
  | ind length ih =>
    cases hcs : emptyParens? cs with
    | none => rw [withoutEmptyParens_of_none hcs, hcs]
    | some cut =>
      have hshorter := length_of_emptyParens? hcs
      rw [withoutEmptyParens_of_some hcs]
      refine ih _ ?_ _ rfl
      rw [← hlength, List.length_append, List.length_cons]
      omega

/-- **Any empty pair may go first.** -/
theorem withoutEmptyParens_pair (cs : List Char) {s : List Char} (hs : isSeamed s = true)
    (rest : List Char) :
    withoutEmptyParens (cs ++ '(' :: (s ++ ')' :: rest)) = withoutEmptyParens (cs ++ seam :: rest) := by
  induction hlength : cs.length using Nat.strongRecOn generalizing cs with
  | ind length ih =>
    cases hcs : emptyParens? cs with
    | none => rw [withoutEmptyParens_of_some (emptyParens?_append_pair hcs hs rest)]
    | some cut =>
      -- the first pair is the same on both sides, and without it the text in front is shorter
      have hshorter := length_of_emptyParens? hcs
      rw [withoutEmptyParens_of_some (emptyParens?_append hcs _),
        withoutEmptyParens_of_some (emptyParens?_append hcs _)]
      have hcut := ih (cut.1 ++ seam :: cut.2).length
        (by rw [← hlength, List.length_append, List.length_cons]; omega) (cut.1 ++ seam :: cut.2) rfl
      simpa using hcut

/-- **A part of a text may be rid of its empty pairs first.** -/
theorem withoutEmptyParens_append (lead cs rest : List Char) :
    withoutEmptyParens (lead ++ cs ++ rest) =
      withoutEmptyParens (lead ++ withoutEmptyParens cs ++ rest) := by
  induction hlength : cs.length using Nat.strongRecOn generalizing cs with
  | ind length ih =>
    cases hcs : emptyParens? cs with
    | none => rw [withoutEmptyParens_of_none hcs]
    | some cut =>
      obtain ⟨s, hs, hpair⟩ := exists_of_emptyParens? hcs
      have hshorter := length_of_emptyParens? hcs
      have hone : withoutEmptyParens (lead ++ cs ++ rest) =
          withoutEmptyParens (lead ++ (cut.1 ++ seam :: cut.2) ++ rest) := by
        have hany := withoutEmptyParens_pair (lead ++ cut.1) hs (cut.2 ++ rest)
        rw [hpair]
        simpa using hany
      rw [hone, withoutEmptyParens_of_some hcs]
      refine ih _ ?_ _ rfl
      rw [← hlength, List.length_append, List.length_cons]
      omega

/-- Both ends of a text may be rid of their empty pairs first. -/
theorem withoutEmptyParens_ends (a cs b : List Char) :
    withoutEmptyParens (a ++ cs ++ b) =
      withoutEmptyParens (withoutEmptyParens a ++ cs ++ withoutEmptyParens b) := by
  have hfirst := withoutEmptyParens_append [] a (cs ++ b)
  have hsecond := withoutEmptyParens_append (withoutEmptyParens a ++ cs) b []
  simp only [List.nil_append, List.append_nil, ← List.append_assoc] at hfirst hsecond
  rw [hfirst, hsecond]

theorem emptyParens?_of_notMem {cs : List Char} (h : '(' ∉ cs) : emptyParens? cs = none := by
  rw [emptyParens?_eq_none_iff]
  rintro before s after rfl
  exact absurd (List.mem_append_right before List.mem_cons_self) h

/-! ## Gaps -/

/-- **A gap**: seams, blanks and parentheses around gaps, with a seam somewhere. -/
inductive Gap : List Char → Prop where
  /-- A seam. -/
  | seam : Gap [seam]
  /-- A blank in front of a gap. -/
  | blankBefore {c : Char} {cs : List Char} (hc : isBlank c = true) (hcs : Gap cs) : Gap (c :: cs)
  /-- A blank behind a gap. -/
  | blankBehind {c : Char} {cs : List Char} (hc : isBlank c = true) (hcs : Gap cs) : Gap (cs ++ [c])
  /-- A gap and another one. -/
  | append {a b : List Char} (ha : Gap a) (hb : Gap b) : Gap (a ++ b)
  /-- Parentheses around a gap. -/
  | parens {cs : List Char} (hcs : Gap cs) : Gap ('(' :: (cs ++ [')']))

namespace Gap

theorem seam_mem {cs : List Char} (h : Gap cs) : Label.seam ∈ cs := by
  induction h with
  | seam => exact List.mem_cons_self
  | blankBefore _ _ ih => exact List.mem_cons_of_mem _ ih
  | blankBehind _ _ ih => exact List.mem_append_left _ ih
  | append _ _ ih _ => exact List.mem_append_left _ ih
  | parens _ ih => exact List.mem_cons_of_mem _ (List.mem_append_left _ ih)

theorem blanksBehind {cs blanks : List Char} (h : Gap cs) (hblanks : ∀ c ∈ blanks, isBlank c = true) :
    Gap (cs ++ blanks) := by
  induction blanks generalizing cs with
  | nil => rwa [List.append_nil]
  | cons c blanks ih =>
    obtain ⟨hc, hrest⟩ := List.forall_mem_cons.1 hblanks
    rw [List.append_cons]
    exact ih (blankBehind hc h) hrest

/-- Seams and blanks are a gap. -/
theorem of_isSeamed {cs : List Char} (h : isSeamed cs = true) : Gap cs := by
  induction cs with
  | nil => exact absurd (isSeamed_iff.1 h).1 List.not_mem_nil
  | cons c cs ih =>
    obtain ⟨hseam, hall⟩ := isSeamed_iff.1 h
    obtain ⟨hc, hrest⟩ := List.forall_mem_cons.1 hall
    by_cases hmem : Label.seam ∈ cs
    · have hcs : Gap cs := ih (isSeamed_iff.2 ⟨hmem, hrest⟩)
      by_cases hblank : isBlank c = true
      · exact blankBefore hblank hcs
      · obtain rfl : c = Label.seam := by simpa [isFaint, hblank] using hc
        exact append seam hcs
    · obtain rfl : Label.seam = c := (List.mem_cons.1 hseam).resolve_right hmem
      refine blanksBehind seam fun d hd => ?_
      have hne : d ≠ Label.seam := ne_of_mem_of_not_mem hd hmem
      simpa [isFaint, hne] using hrest d hd

/-- **A gap in the place of a seam** makes a gap of a gap. -/
theorem replace {a b gap : List Char} (h : Gap (a ++ Label.seam :: b)) (hgap : Gap gap) :
    Gap (a ++ gap ++ b) := by
  have hblank : isBlank Label.seam = false := by decide
  generalize htext : a ++ Label.seam :: b = cs at h
  induction h generalizing a b with
  | seam =>
    obtain ⟨rfl, hb⟩ | ⟨_, hnil⟩ := List.append_eq_cons_iff.1 htext
    · obtain rfl : b = [] := by simpa using hb
      simpa using hgap
    · simp at hnil
  | blankBefore hc _ ih =>
    cases a with
    | nil =>
      obtain ⟨rfl, -⟩ := List.cons.inj htext
      exact absurd hc (Bool.eq_false_iff.1 hblank)
    | cons d a =>
      obtain ⟨rfl, hrest⟩ := List.cons.inj htext
      exact blankBefore hc (ih hrest)
  | blankBehind hc _ ih =>
    obtain rfl | ⟨b, d, rfl⟩ := b.eq_nil_or_concat
    · obtain ⟨-, hlast⟩ := List.append_inj' htext rfl
      obtain rfl := List.singleton_inj.1 hlast
      exact absurd hc (Bool.eq_false_iff.1 hblank)
    · rw [List.concat_eq_append, ← List.cons_append, ← List.append_assoc] at htext
      obtain ⟨hrest, hlast⟩ := List.append_inj' htext rfl
      obtain rfl := List.singleton_inj.1 hlast
      rw [List.concat_eq_append, ← List.append_assoc]
      exact blankBehind hc (ih hrest)
  | append ha hb iha ihb =>
    obtain ⟨t, rfl, rfl⟩ | ⟨t, rfl, rfl⟩ := append_eq_append_cons htext.symm
    · rw [← List.append_assoc]
      exact append (iha rfl) hb
    · rw [List.append_assoc, List.append_assoc, ← List.append_assoc t]
      exact append ha (ihb rfl)
  | @parens inside _ ih =>
    cases a with
    | nil => exact absurd (List.cons.inj htext).1 (by decide)
    | cons d a =>
      obtain ⟨rfl, hrest⟩ := List.cons.inj htext
      obtain rfl | ⟨b, d, rfl⟩ := b.eq_nil_or_concat
      · obtain ⟨-, hlast⟩ := List.append_inj' hrest rfl
        exact absurd (List.singleton_inj.1 hlast) (by decide)
      · have hshown : (a ++ Label.seam :: b) ++ [d] = inside ++ [')'] := by simpa using hrest
        obtain ⟨hinside, hlast⟩ := List.append_inj' hshown rfl
        obtain rfl := List.singleton_inj.1 hlast
        have hpair := parens (ih hinside)
        simpa using hpair

end Gap

theorem withoutEmptyParens_of_isSeamed {cs : List Char} (h : isSeamed cs = true) :
    withoutEmptyParens cs = cs :=
  withoutEmptyParens_of_none (emptyParens?_of_notMem (notMem_of_isSeamed h).1)

/-- **A gap comes down to seams and blanks.** -/
theorem isSeamed_withoutEmptyParens {gap : List Char} (h : Gap gap) :
    isSeamed (withoutEmptyParens gap) = true := by
  induction h with
  | seam => rw [withoutEmptyParens_of_isSeamed (by decide)]; decide
  | @blankBefore c cs hc _ ih =>
    have hsame := withoutEmptyParens_append [c] cs []
    have hseamed : isSeamed ([c] ++ withoutEmptyParens cs) = true :=
      isSeamed_append_right (by simpa using isFaint_of_isBlank hc) ih
    rw [List.append_nil, List.append_nil, withoutEmptyParens_of_isSeamed hseamed] at hsame
    rwa [show c :: cs = [c] ++ cs from rfl, hsame]
  | @blankBehind c cs hc _ ih =>
    have hsame := withoutEmptyParens_append [] cs [c]
    have hseamed : isSeamed (withoutEmptyParens cs ++ [c]) = true :=
      isSeamed_append_left ih (by simpa using isFaint_of_isBlank hc)
    rw [List.nil_append, List.nil_append, withoutEmptyParens_of_isSeamed hseamed] at hsame
    rwa [hsame]
  | @append a b _ _ iha ihb =>
    have hends := withoutEmptyParens_ends a [] b
    have hseamed : isSeamed (withoutEmptyParens a ++ withoutEmptyParens b) = true :=
      isSeamed_append_left iha (isSeamed_iff.1 ihb).2
    rw [List.append_nil, List.append_nil, withoutEmptyParens_of_isSeamed hseamed] at hends
    rwa [hends]
  | @parens cs _ ih =>
    have hinside := withoutEmptyParens_append ['('] cs [')']
    have hpair := withoutEmptyParens_pair [] ih []
    have hseam : isSeamed [seam] = true := by decide
    rw [List.nil_append, List.nil_append, withoutEmptyParens_of_isSeamed hseam] at hpair
    rw [show '(' :: (cs ++ [')']) = ['('] ++ cs ++ [')'] from rfl, hinside]
    exact (congrArg isSeamed hpair).trans hseam

namespace Gap

/-- There is nothing but seams, blanks and parentheses in a gap. -/
theorem notMem {gap : List Char} (h : Gap gap) {c : Char} (hfaint : isFaint c = false)
    (hopen : c ≠ '(') (hclose : c ≠ ')') : c ∉ gap := by
  obtain ⟨hseam, hblank⟩ := isFaint_eq_false_iff.1 hfaint
  have hother : ∀ {d : Char}, isBlank d = true → c ≠ d := by
    rintro d hd rfl
    exact absurd hd (Bool.eq_false_iff.1 hblank)
  induction h with
  | seam => simpa using hseam
  | blankBefore hd _ ih => simpa using ⟨hother hd, ih⟩
  | blankBehind hd _ ih => simpa using ⟨ih, hother hd⟩
  | append _ _ iha ihb => simpa using ⟨iha, ihb⟩
  | parens _ ih => simpa using ⟨hopen, ih, hclose⟩

/-! ## Parentheses in gaps -/

theorem count_parens {gap : List Char} (h : Gap gap) : gap.count '(' = gap.count ')' := by
  have hblank : ∀ {c : Char}, isBlank c = true → c ≠ '(' ∧ c ≠ ')' := by
    intro c hc
    constructor
    · rintro rfl
      exact absurd hc (by decide)
    · rintro rfl
      exact absurd hc (by decide)
  induction h with
  | seam => decide
  | blankBefore hc _ ih =>
    rwa [List.count_cons_of_ne (hblank hc).1, List.count_cons_of_ne (hblank hc).2]
  | blankBehind hc _ ih =>
    rw [List.count_append, List.count_append, ih, List.count_cons_of_ne (hblank hc).1,
      List.count_cons_of_ne (hblank hc).2]
    rfl
  | append _ _ iha ihb => rw [List.count_append, List.count_append, iha, ihb]
  | parens _ ih => simp [ih]

/-- **In a gap no parenthesis is closed before it is opened.** -/
theorem count_parens_le {gap lead : List Char} (h : Gap gap) (hlead : lead <+: gap) :
    lead.count ')' ≤ lead.count '(' := by
  have hblank : ∀ {c : Char}, isBlank c = true → c ≠ ')' := by
    rintro c hc rfl
    exact absurd hc (by decide)
  induction h generalizing lead with
  | seam =>
    have hnone : ')' ∉ lead := fun hmem => absurd (hlead.subset hmem) (by decide)
    rw [List.count_eq_zero.2 hnone]
    exact Nat.zero_le _
  | blankBefore hc _ ih =>
    obtain rfl | ⟨t, rfl, ht⟩ := List.prefix_cons_iff.1 hlead
    · exact Nat.le_refl _
    · rw [List.count_cons_of_ne (hblank hc)]
      exact Nat.le_trans (ih ht) List.count_le_count_cons
  | blankBehind hc hcs ih =>
    obtain rfl | hlead := List.prefix_concat_iff.1 hlead
    · exact Nat.le_of_eq (blankBehind hc hcs).count_parens.symm
    · exact ih hlead
  | @append a b ha _ iha ihb =>
    obtain ⟨tail, htail⟩ := hlead
    obtain ⟨t, rfl, -⟩ | ⟨t, rfl, rfl⟩ := List.append_eq_append_iff.1 htail
    · exact iha (List.prefix_append lead t)
    · rw [List.count_append, List.count_append, ha.count_parens]
      exact Nat.add_le_add_left (ihb (List.prefix_append t tail)) _
  | parens hcs ih =>
    obtain rfl | ⟨t, rfl, ht⟩ := List.prefix_cons_iff.1 hlead
    · exact Nat.le_refl _
    · obtain rfl | ht := List.prefix_concat_iff.1 ht
      · exact Nat.le_of_eq hcs.parens.count_parens.symm
      · rw [List.count_cons_of_ne (by decide)]
        exact Nat.le_trans (ih ht) List.count_le_count_cons

end Gap

end Storefront.Label
