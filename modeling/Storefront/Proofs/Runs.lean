import Storefront.Proofs.Seams

/-!
# Runs of seams, and text between

A character that is neither blank nor a parenthesis cuts a text in two: what is
behind it is closed as if nothing were in front of it (`exists_closeSeams_append`).
So a gap between two words is closed by itself, and whether a space stays between
them is said of the gap alone (`closeSeams_words`).

Several seams in a row are closed like one, but for one thing (`closeSeams_run_iff`):
each but the last of them finds nothing behind it, as at the end of the text, and
drops the blank in front of it. A space that stands in front of the run alone is lost
(`LosesSpace`).
-/

namespace Storefront.Label

open Text

/-! ## Text between -/

/-- Text without empty parentheses on either side of a character that is no parenthesis has none. -/
theorem emptyParens?_through {x y : List Char} (hx : emptyParens? x = none)
    (hy : emptyParens? y = none) {c : Char} (hfaint : isFaint c = false) (hopen : c ≠ '(')
    (hclose : c ≠ ')') : emptyParens? (x ++ c :: y) = none := by
  rw [emptyParens?_eq_none_iff] at hx hy ⊢
  intro before s after htext
  obtain ⟨t, rfl, hrest⟩ | ⟨t, rfl, hrest⟩ := append_eq_append_cons htext
  · obtain ⟨u, rfl, -⟩ | ⟨u, rfl, hbehind⟩ := append_eq_append_cons hrest.symm
    · exact hx before s u rfl
    · -- the character would be in the pair, or be the parenthesis that closes it
      cases u with
      | nil => exact absurd (List.cons.inj hbehind).1 hclose
      | cons d u =>
        obtain ⟨rfl, -⟩ := List.cons.inj hbehind
        rw [Bool.eq_false_iff]
        intro hs
        exact Bool.false_ne_true (hfaint.symm.trans ((isSeamed_iff.1 hs).2 c (by simp)))
  · cases t with
    | nil => exact absurd (List.cons.inj hrest).1 hopen
    | cons d t =>
      obtain ⟨-, rfl⟩ := List.cons.inj hrest
      exact hy t s after rfl

theorem withoutEmptyParens_through {c : Char} (hfaint : isFaint c = false) (hopen : c ≠ '(')
    (hclose : c ≠ ')') (x y : List Char) :
    withoutEmptyParens (x ++ c :: y) = withoutEmptyParens x ++ c :: withoutEmptyParens y := by
  rw [List.append_cons, withoutEmptyParens_ends, ← List.append_cons]
  exact withoutEmptyParens_of_none (emptyParens?_through (emptyParens?_withoutEmptyParens x)
    (emptyParens?_withoutEmptyParens y) hfaint hopen hclose)

theorem withoutEmptyParens_cons {c : Char} (hfaint : isFaint c = false) (hopen : c ≠ '(')
    (hclose : c ≠ ')') (cs : List Char) :
    withoutEmptyParens (c :: cs) = c :: withoutEmptyParens cs := by
  have hthrough := withoutEmptyParens_through hfaint hopen hclose [] cs
  rwa [withoutEmptyParens_of_none (show emptyParens? [] = none from rfl)] at hthrough

section

variable {c : Char} (hc : isBlank c = false)

include hc

theorem exists_trimStart_append (piece : List Char) :
    ∃ y, ∀ more, trimStart (piece ++ c :: more) = y ++ c :: more := by
  induction piece with
  | nil => exact ⟨[], trimStart_cons_of_not_isBlank hc⟩
  | cons d piece ih =>
    cases hd : isBlank d with
    | true =>
      obtain ⟨y, hy⟩ := ih
      exact ⟨y, fun more => (trimStart_cons_of_isBlank hd _).trans (hy more)⟩
    | false => exact ⟨d :: piece, fun more => trimStart_cons_of_not_isBlank hd _⟩

/-- What comes behind a character that is not blank does not matter for a join in front of it. -/
theorem exists_join_append (left piece : List Char) :
    ∃ z, ∀ more, join left (piece ++ c :: more) = z ++ c :: more := by
  obtain ⟨y, hy⟩ := exists_trimStart_append hc piece
  have hhead : ∀ (cs more : List Char), (cs ++ c :: more).head? = (cs ++ [c]).head? := by
    intro cs more
    cases cs with
    | nil => rfl
    | cons d cs => rfl
  have hne : ∀ more, (y ++ c :: more).isEmpty = false := by simp
  have hsame : ∀ more, join left (piece ++ c :: more) = join left (piece ++ [c]) ++ more := by
    intro more
    unfold join
    dsimp only
    rw [hy, hy, hhead piece, hhead y, hne, hne]
    split <;> simp
  obtain ⟨z, hz⟩ : ∃ z, join left (piece ++ [c]) = z ++ [c] := by
    unfold join
    dsimp only
    rw [hy]
    split
    · exact ⟨trimEnd left ++ ' ' :: y, by simp⟩
    · exact ⟨trimEnd left ++ y, by simp⟩
  exact ⟨z, fun more => by rw [hsame, hz, ← List.append_cons]⟩

end

/-- Behind a character that stays, closing begins anew. -/
theorem exists_closing_append {c : Char} (hc : isFaint c = false) (left u : List Char) :
    ∃ z, ∀ t, closing left (u ++ c :: t) = z ++ closing [] (c :: t) := by
  obtain ⟨hseam, hblank⟩ := isFaint_eq_false_iff.1 hc
  have hanew : ∀ z t, closing (z ++ [c]) t = z ++ closing [] (c :: t) := by
    intro z t
    rw [closing_append_left (trimEnd_ne_nil List.mem_cons_self hblank), closing_cons hseam]
    rfl
  by_cases hmem : seam ∈ u
  · -- the join at the last seam in front of the character is the one that reaches it
    obtain ⟨a, b, rfl, hnot⟩ := exists_last_seam hmem
    obtain ⟨z, hz⟩ := exists_join_append hblank (closing left a) b
    refine ⟨z, fun t => ?_⟩
    obtain ⟨piece, rest, rfl, hpiece, hrest⟩ := exists_piece t
    have hwhole : seam ∉ b ++ c :: piece := by
      simp [hnot, Ne.symm hseam, hpiece]
    have hjoin := closing_seam hwhole hrest (closing left a)
    rw [hz, List.append_cons z, ← closing_append hpiece, hanew] at hjoin
    rw [List.append_assoc, List.cons_append, closing_append_seam, ← hjoin, List.append_assoc,
      List.cons_append]
  · refine ⟨left ++ u, fun t => ?_⟩
    rw [closing_append hmem, closing_cons hseam, hanew]

/-- **Behind a character that stays, a text is closed as if nothing were in front.** -/
theorem exists_closeSeams_append {c : Char} (hfaint : isFaint c = false) (hopen : c ≠ '(')
    (hclose : c ≠ ')') (u : List Char) :
    ∃ z, ∀ t, closeSeams (u ++ c :: t) = z ++ closeSeams (c :: t) := by
  obtain ⟨z, hz⟩ := exists_closing_append hfaint [] (withoutEmptyParens u)
  refine ⟨z, fun t => ?_⟩
  rw [closeSeams_eq, closeSeams_eq, withoutEmptyParens_cons hfaint hopen hclose,
    withoutEmptyParens_through hfaint hopen hclose, hz]

/-- **Whether a space stays between two words** is said of the gap between them alone. -/
theorem closeSeams_words {c d : Char} (hc : isFaint c = false ∧ c ≠ '(' ∧ c ≠ ')')
    (hd : isFaint d = false ∧ d ≠ '(' ∧ d ∉ closingPunctuation) {gap : List Char} (hgap : Gap gap)
    (a b : List Char) :
    closeSeams (a ++ c :: (gap ++ d :: b)) =
      closeSeams (a ++ [c]) ++ (if keepsSpace (withoutEmptyParens gap) then [' '] else []) ++
        closeSeams (d :: b) := by
  obtain ⟨hcfaint, hcopen, hcclose⟩ := hc
  obtain ⟨hdfaint, hdopen, hdpunctuation⟩ := hd
  have hdclose : d ≠ ')' := fun heq => hdpunctuation (heq ▸ by decide)
  obtain ⟨hcseam, hcblank⟩ := isFaint_eq_false_iff.1 hcfaint
  obtain ⟨hdseam, hdblank⟩ := isFaint_eq_false_iff.1 hdfaint
  have hseamed := isSeamed_withoutEmptyParens hgap
  have hlast : ∀ e ∈ [c].getLast?, isBlank e = false := by
    rintro e he
    obtain rfl : c = e := by simpa using he
    exact hcblank
  have hspace : space [c] (withoutEmptyParens gap) [d] =
      if keepsSpace (withoutEmptyParens gap) then [' '] else [] := by
    rw [space, withoutEmptyParens_of_isSeamed hseamed]
    cases keepsSpace (withoutEmptyParens gap) <;> simp [hdpunctuation]
  have hpair : closeSeams (c :: (gap ++ d :: b)) =
      c :: (if keepsSpace (withoutEmptyParens gap) then [' '] else []) ++ closeSeams (d :: b) := by
    rw [closeSeams_eq, withoutEmptyParens_cons hcfaint hcopen hcclose,
      withoutEmptyParens_through hdfaint hdopen hdclose, closing_cons hcseam, List.nil_append,
      closing_seamed hseamed hlast hdfaint [], hspace,
      closing_append_left (trimEnd_ne_nil List.mem_cons_self hdblank), closeSeams_eq (d :: b),
      withoutEmptyParens_cons hdfaint hdopen hdclose, closing_cons hdseam, List.nil_append]
    rfl
  obtain ⟨z, hz⟩ := exists_closeSeams_append hcfaint hcopen hcclose a
  have hone : closeSeams [c] = [c] := by
    rw [closeSeams_eq, withoutEmptyParens_cons hcfaint hcopen hcclose, closing_cons hcseam,
      withoutEmptyParens_of_none (show emptyParens? [] = none from rfl), closing_nil]
    rfl
  rw [hz, hz, hpair, hone]
  simp

/-! ## Runs -/

theorem trimEnd_ne_nil_iff {cs : List Char} : trimEnd cs ≠ [] ↔ ∃ c ∈ cs, isBlank c = false := by
  rw [ne_eq, trimEnd_eq_nil_iff]
  simp

/-- The blank in front of a seam matters only in front of text that a space may stand before. -/
theorem closing_trimEnd_iff (left cs : List Char) :
    closing (trimEnd left) (seam :: cs) = closing left (seam :: cs) ↔
      ¬((∃ c ∈ left.getLast?, isBlank c = true) ∧ (∃ c ∈ left, isBlank c = false) ∧
        ∃ d ∈ cs.head?, isFaint d = false ∧ d ∉ closingPunctuation) := by
  have hcs := List.takeWhile_append_dropWhile (p := isFaint) (l := cs)
  have hfaint : ∀ c ∈ cs.takeWhile isFaint, isFaint c = true :=
    List.all_eq_true.1 List.all_takeWhile
  have hstop := List.head?_dropWhile_not isFaint cs
  generalize cs.takeWhile isFaint = faint, cs.dropWhile isFaint = rest at hcs hfaint hstop
  subst hcs
  cases rest with
  | nil =>
    rw [List.append_nil, closing_seam_end hfaint, closing_seam_end hfaint, trimEnd_trimEnd]
    refine ⟨fun _ ⟨_, _, d, hd, hplain, _⟩ => ?_, fun _ => rfl⟩
    exact Bool.false_ne_true (hplain.symm.trans (hfaint d (List.mem_of_mem_head? hd)))
  | cons d rest =>
    have hd : isFaint d = false := by simpa using hstop
    obtain ⟨-, hblank⟩ := isFaint_eq_false_iff.1 hd
    have hkeeps : trimEnd [d] ≠ [] := trimEnd_ne_nil List.mem_cons_self hblank
    rw [closing_seam_faint hfaint hd, closing_seam_faint hfaint hd, trimEnd_trimEnd,
      closing_append_left hkeeps, closing_append_left hkeeps, List.append_cancel_right_eq,
      List.append_cancel_left_eq, spaced, spaced, trimEnd_trimEnd]
    cases faint with
    | cons e faint =>
      have he : isFaint e = true := hfaint e List.mem_cons_self
      simp [he]
    | nil =>
      have hlast : (∃ c ∈ left.getLast?, isBlank c = true) ↔ left.getLast?.any isBlank = true :=
        (Option.any_eq_true _ _).symm
      rw [any_getLast?_trimEnd, ← trimEnd_ne_nil_iff, hlast]
      cases left.getLast?.any isBlank with
      | false => simp
      | true => simp [hd]

/-- **A space in front of a run of seams is lost** when it is the only one there: there is text in
front of it, and what is behind the run is text that a space may stand before. -/
structure LosesSpace (a b : List Char) : Prop where
  /-- What is in front of the run ends in a blank. -/
  blank : ∃ c ∈ (closeSeams a).getLast?, isBlank c = true
  /-- There is text in front of the blank. -/
  text : ∃ c ∈ closeSeams a, isBlank c = false
  /-- Behind the run there is text at once, and it is no closing punctuation. -/
  behind : ∃ d ∈ (withoutEmptyParens b).head?, isFaint d = false ∧ d ∉ closingPunctuation

/-- **Seams and blanks between texts without empty parentheses**: either there are none then, or
there is a pair around all that is between, which may as well be a seam. -/
theorem withoutEmptyParens_between {f h : List Char} (hf : emptyParens? f = none)
    (hh : emptyParens? h = none) :
    (∀ m, isSeamed m = true → withoutEmptyParens (f ++ m ++ h) = f ++ m ++ h) ∨
      (∀ d ∈ h.head?, isFaint d = true ∨ d = ')') ∧
        ∃ cs, ∀ m, isSeamed m = true → withoutEmptyParens (f ++ m ++ h) = cs := by
  by_cases haround : ∃ before lead tail after, f = before ++ '(' :: lead ∧ h = tail ++ ')' :: after ∧
      (∀ c ∈ lead, isFaint c = true) ∧ ∀ c ∈ tail, isFaint c = true
  · obtain ⟨before, lead, tail, after, rfl, rfl, hlead, htail⟩ := haround
    refine Or.inr ⟨fun d hd => ?_, withoutEmptyParens (before ++ seam :: after), fun m hm => ?_⟩
    · cases tail with
      | nil => exact Or.inr (by simpa using hd.symm)
      | cons e tail =>
        obtain rfl : e = d := by simpa using hd
        exact Or.inl (htail e List.mem_cons_self)
    · have hseamed := isSeamed_append_left (isSeamed_append_right hlead hm) htail
      rw [← withoutEmptyParens_pair before hseamed]
      simp
  · refine Or.inl fun m hm => withoutEmptyParens_of_none (emptyParens?_eq_none_iff.2 ?_)
    intro before s after htext
    obtain ⟨hopen, hclose⟩ := notMem_of_isSeamed hm
    rw [emptyParens?_eq_none_iff] at hf hh
    rw [List.append_assoc] at htext
    obtain ⟨lead, rfl, hbehind⟩ | ⟨t, rfl, hbehind⟩ := append_eq_append_cons htext
    · obtain ⟨t, rfl, -⟩ | ⟨t, rfl, hlater⟩ := append_eq_append_cons hbehind.symm
      · exact hf before s t rfl
      · obtain ⟨t', rfl, -⟩ | ⟨tail, rfl, rfl⟩ := append_eq_append_cons hlater
        · exact absurd (List.mem_append_right t List.mem_cons_self) hclose
        · rw [Bool.eq_false_iff]
          intro hs
          have hall := (isSeamed_iff.1 hs).2
          exact haround ⟨before, lead, tail, after, rfl, rfl, fun c hc => hall c (by simp [hc]),
            fun c hc => hall c (by simp [hc])⟩
    · obtain ⟨t', rfl, -⟩ | ⟨t', rfl, hlater⟩ := append_eq_append_cons hbehind
      · exact absurd (List.mem_append_right t List.mem_cons_self) hopen
      · exact hh t' s after hlater

/-- Seams in a row in front of the last have nothing behind them. -/
theorem closing_replicate (left cs : List Char) (n : Nat) :
    closing left (List.replicate (n + 2) seam ++ cs) = closing (trimEnd left) (seam :: cs) := by
  have htwo : ∀ left rest,
      closing left (seam :: seam :: rest) = closing (trimEnd left) (seam :: rest) := by
    intro left rest
    have hnext : ∀ c ∈ (seam :: rest).head?, c = seam := by simp
    have hjoin := closing_seam List.not_mem_nil hnext left
    rwa [List.nil_append, join_of_isBlank (by simp)] at hjoin
  induction n generalizing left with
  | zero => exact htwo left cs
  | succ n ih =>
    rw [List.replicate_succ, List.replicate_succ, List.cons_append, List.cons_append, htwo,
      ← List.cons_append, ← List.replicate_succ, ih, trimEnd_trimEnd]

/-- **A run of seams is closed like one seam**, unless it loses the space in front of it. -/
theorem closeSeams_run_iff (a b : List Char) (n : Nat) :
    closeSeams (a ++ List.replicate (n + 2) seam ++ b) = closeSeams (a ++ seam :: b) ↔
      ¬LosesSpace a b := by
  have hrun : isSeamed (List.replicate (n + 2) seam) = true :=
    isSeamed_iff.2 ⟨by simp, fun c hc => List.eq_of_mem_replicate hc ▸ by decide⟩
  have hone : isSeamed [seam] = true := by decide
  rw [List.append_cons a, closeSeams_eq, closeSeams_eq (a ++ [seam] ++ b),
    withoutEmptyParens_ends, withoutEmptyParens_ends a [seam]]
  obtain hnone | ⟨hhead, cs, hsame⟩ := withoutEmptyParens_between
    (emptyParens?_withoutEmptyParens a) (emptyParens?_withoutEmptyParens b)
  · have hfront : closing [] (withoutEmptyParens a ++ [seam] ++ withoutEmptyParens b) =
        closing (closeSeams a) (seam :: withoutEmptyParens b) := by
      rw [← List.append_cons, closing_append_seam, ← closeSeams_eq]
    have hfrontRun : closing [] (withoutEmptyParens a ++ List.replicate (n + 2) seam ++
        withoutEmptyParens b) = closing (trimEnd (closeSeams a)) (seam :: withoutEmptyParens b) := by
      rw [List.append_assoc, List.replicate_succ, List.cons_append, closing_append_seam,
        ← List.cons_append, ← List.replicate_succ, closing_replicate, ← closeSeams_eq]
    rw [hnone _ hrun, hnone _ hone, hfront, hfrontRun, closing_trimEnd_iff]
    exact not_congr ⟨fun ⟨hblank, htext, hbehind⟩ => ⟨hblank, htext, hbehind⟩,
      fun ⟨hblank, htext, hbehind⟩ => ⟨hblank, htext, hbehind⟩⟩
  · rw [hsame _ hrun, hsame _ hone]
    refine ⟨fun _ hloses => ?_, fun _ => rfl⟩
    obtain ⟨d, hd, hplain, hpunctuation⟩ := hloses.behind
    obtain hfaint | rfl := hhead d hd
    · exact Bool.false_ne_true (hplain.symm.trans hfaint)
    · exact hpunctuation (by decide)

end Storefront.Label
