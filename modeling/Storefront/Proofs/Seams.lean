import Storefront.Proofs.Partings

/-!
# Closing seams

Seams are closed from the left: the text so far is joined with the piece up to the
next seam, and each join looks at the ends of these two only. What this amounts to is
said on the gaps of the text (`Parting.closed`): all that is between gaps stays as it
is, and of a gap at most one space stays, none at either end of the text and none
before closing punctuation (`Parting.closeSeams_text`).
-/

namespace Storefront.Label

open Text

/-! ## From seam to seam -/

/-- The pieces of a text joined to what is there already. -/
def closing (left cs : List Char) : List Char :=
  match cs.splitOn seam with
  | [] => left
  | piece :: rest => rest.foldl join (left ++ piece)

theorem closeSeams_eq (cs : List Char) : closeSeams cs = closing [] (withoutEmptyParens cs) := rfl

theorem closing_nil (left : List Char) : closing left [] = left :=
  List.append_nil left

theorem closing_cons {c : Char} (hc : c ≠ seam) (left cs : List Char) :
    closing left (c :: cs) = closing (left ++ [c]) cs := by
  unfold closing
  rw [List.splitOn_cons_eq_if_modifyHead, if_neg (by simpa using hc)]
  cases hcs : cs.splitOn seam with
  | nil => exact absurd hcs (List.splitOn_ne_nil seam cs)
  | cons piece rest =>
    show rest.foldl join (left ++ c :: piece) = rest.foldl join (left ++ [c] ++ piece)
    rw [← List.append_cons]

/-- Text up to a seam is taken over. -/
theorem closing_append {lead : List Char} (hlead : seam ∉ lead) (left cs : List Char) :
    closing left (lead ++ cs) = closing (left ++ lead) cs := by
  induction lead generalizing left with
  | nil => rw [List.append_nil, List.nil_append]
  | cons c lead ih =>
    obtain ⟨hc, hrest⟩ := not_or.1 (mt List.mem_cons.2 hlead)
    rw [List.cons_append, closing_cons (Ne.symm hc), ih hrest, ← List.append_cons]

/-- A seam joins what is in front of it with the piece behind it. -/
theorem closing_seam {piece cs : List Char} (hpiece : seam ∉ piece)
    (hcs : ∀ c ∈ cs.head?, c = seam) (left : List Char) :
    closing left (seam :: (piece ++ cs)) = closing (join left piece) cs := by
  have hfirst : (seam :: (piece ++ cs)).splitOn seam = [] :: (piece ++ cs).splitOn seam := by
    rw [List.splitOn_cons_eq_if_modifyHead, if_pos (by decide)]
  unfold closing
  rw [hfirst]
  cases cs with
  | nil =>
    rw [List.append_nil, List.splitOn_eq_singleton hpiece, List.splitOn_nil]
    simp
  | cons c cs =>
    obtain rfl := hcs c rfl
    rw [List.splitOn_append_cons_self_of_not_mem hpiece, List.splitOn_cons_eq_if_modifyHead,
      if_pos (by decide)]
    simp

/-- The piece that a text begins with. -/
theorem exists_piece (cs : List Char) :
    ∃ piece rest, cs = piece ++ rest ∧ seam ∉ piece ∧ ∀ c ∈ rest.head?, c = seam := by
  refine ⟨cs.takeWhile (· != seam), cs.dropWhile (· != seam),
    List.takeWhile_append_dropWhile.symm, fun hmem => ?_, fun c hc => ?_⟩
  · exact absurd (List.all_eq_true.1 List.all_takeWhile seam hmem) (by decide)
  · have hstop := List.head?_dropWhile_not (· != seam) cs
    rw [hc] at hstop
    simpa using hstop

/-- What is in front of a seam is closed first. -/
theorem closing_append_seam (left a b : List Char) :
    closing left (a ++ seam :: b) = closing (closing left a) (seam :: b) := by
  unfold closing
  rw [List.splitOn_append_cons_self, List.splitOn_cons_eq_if_modifyHead (a := seam) seam b,
    if_pos (by decide)]
  cases ha : a.splitOn seam with
  | nil => exact absurd ha (List.splitOn_ne_nil seam a)
  | cons piece rest => simp

/-! ## Joining -/

theorem join_of_isBlank {blanks : List Char} (h : ∀ c ∈ blanks, isBlank c = true)
    (left : List Char) : join left blanks = trimEnd left := by
  have hnil : trimStart blanks = [] := by
    have hdrop : trimStart (blanks ++ []) = [] := List.dropWhile_append_of_pos h
    rwa [List.append_nil] at hdrop
  unfold join
  dsimp only
  rw [hnil]
  simp

/-- **Whether a space comes in front of a character** behind a seam, when `ended` says whether there
is a blank. -/
def spaced (left : List Char) (ended : Bool) (d : Char) : List Char :=
  if ended && !(trimEnd left).isEmpty && !closingPunctuation.contains d then [' '] else []

/-- A piece with text is joined with a space or without. -/
theorem join_append {blanks : List Char} (h : ∀ c ∈ blanks, isBlank c = true) {d : Char}
    (hd : isBlank d = false) (left rest : List Char) :
    join left (blanks ++ d :: rest) =
      trimEnd left ++ spaced left (left.getLast?.any isBlank || !blanks.isEmpty) d ++ d :: rest := by
  have htrim : trimStart (blanks ++ d :: rest) = d :: rest := by
    rw [trimStart, List.dropWhile_append_of_pos h, List.dropWhile_cons_of_neg (by simp [hd])]
  have hhead : (blanks ++ d :: rest).head?.any isBlank = !blanks.isEmpty := by
    cases blanks with
    | nil => simpa using hd
    | cons c blanks => simpa using h c List.mem_cons_self
  unfold join spaced
  dsimp only
  rw [htrim, hhead]
  cases ended : left.getLast?.any isBlank || !blanks.isEmpty <;>
    cases hkept : (trimEnd left).isEmpty <;>
      cases hpunctuation : closingPunctuation.contains d <;> simp_all

theorem any_getLast?_trimEnd (cs : List Char) : (trimEnd cs).getLast?.any isBlank = false := by
  cases hlast : (trimEnd cs).getLast? with
  | none => rfl
  | some c => exact not_isBlank_of_mem_getLast?_trimEnd hlast

theorem any_getLast?_append {blanks : List Char} (h : ∀ c ∈ blanks, isBlank c = true)
    (left : List Char) :
    (left ++ blanks).getLast?.any isBlank = (left.getLast?.any isBlank || !blanks.isEmpty) := by
  obtain rfl | ⟨blanks, c, rfl⟩ := blanks.eq_nil_or_concat
  · simp
  · have hend : (left ++ blanks.concat c).getLast? = some c :=
      List.getLast?_eq_some_iff.2 ⟨left ++ blanks, by simp⟩
    rw [hend, Option.any_some, h c (by simp)]
    simp

theorem trimEnd_ne_nil {c : Char} {cs : List Char} (hmem : c ∈ cs) (hc : isBlank c = false) :
    trimEnd cs ≠ [] :=
  fun hnil => absurd (trimEnd_eq_nil_iff.1 hnil c hmem) (Bool.eq_false_iff.1 hc)

/-- What stands in front of text stays there when the text is joined. -/
theorem join_append_left {left : List Char} (h : trimEnd left ≠ []) (lead right : List Char) :
    join (lead ++ left) right = lead ++ join left right := by
  have hne : left ≠ [] := by
    rintro rfl
    exact h rfl
  have hlast : (lead ++ left).getLast? = left.getLast? := by
    rw [List.getLast?_append, List.getLast?_eq_some_getLast hne]
    rfl
  unfold join
  dsimp only
  rw [hlast, trimEnd_append_of_ne_nil h, List.isEmpty_eq_false_iff.2 h,
    List.isEmpty_eq_false_iff.2 (List.append_ne_nil_of_right_ne_nil lead h)]
  split
  · rw [List.append_assoc]
  · rw [List.append_assoc]

theorem trimEnd_append_ne_nil {cs : List Char} (h : trimEnd cs ≠ []) (more : List Char) :
    trimEnd (cs ++ more) ≠ [] := by
  rw [ne_eq, trimEnd_eq_nil_iff] at h ⊢
  exact fun hall => h fun c hc => hall c (List.mem_append_left more hc)

theorem trimEnd_join_ne_nil {left : List Char} (h : trimEnd left ≠ []) (right : List Char) :
    trimEnd (join left right) ≠ [] := by
  obtain ⟨more, hjoin⟩ : ∃ more, join left right = trimEnd left ++ more := by
    unfold join
    dsimp only
    split
    · exact ⟨_, rfl⟩
    · exact ⟨_, rfl⟩
  rw [hjoin]
  exact trimEnd_append_ne_nil (by rwa [trimEnd_trimEnd]) more

/-- **What stands in front of text stays there** when what is behind the text is closed. -/
theorem closing_append_left {left : List Char} (h : trimEnd left ≠ []) (lead cs : List Char) :
    closing (lead ++ left) cs = lead ++ closing left cs := by
  unfold closing
  cases cs.splitOn seam with
  | nil => rfl
  | cons piece rest =>
    have hpiece := trimEnd_append_ne_nil h piece
    show rest.foldl join (lead ++ left ++ piece) = lead ++ rest.foldl join (left ++ piece)
    rw [List.append_assoc]
    generalize left ++ piece = left at hpiece
    induction rest generalizing left with
    | nil => rfl
    | cons right rest ih =>
      rw [List.foldl_cons, List.foldl_cons, join_append_left hpiece, ih _ (trimEnd_join_ne_nil hpiece _)]

/-! ## Seams and blanks between texts -/

/-- The last seam of a text. -/
theorem exists_last_seam {cs : List Char} (h : seam ∈ cs) :
    ∃ a b, cs = a ++ seam :: b ∧ seam ∉ b := by
  obtain ⟨b, a, hcs, hnot⟩ := List.eq_append_cons_of_mem (List.mem_reverse.2 h)
  refine ⟨a.reverse, b.reverse, ?_, fun hmem => hnot (List.mem_reverse.1 hmem)⟩
  rw [← List.reverse_reverse cs, hcs]
  simp

/-- Seams and blanks behind a seam, at the end. -/
theorem closing_seam_end {faint : List Char} (hfaint : ∀ c ∈ faint, isFaint c = true)
    (left : List Char) : closing left (seam :: faint) = trimEnd left := by
  induction hlength : faint.length using Nat.strongRecOn generalizing faint left with
  | ind length ih =>
    obtain ⟨piece, rest, rfl, hpiece, hrest⟩ := exists_piece faint
    obtain ⟨hblanks, hlater⟩ := List.forall_mem_append.1 hfaint
    rw [closing_seam hpiece hrest, join_of_isBlank (isBlank_of_isFaint hpiece hblanks)]
    cases rest with
    | nil => exact closing_nil _
    | cons c rest =>
      obtain rfl := hrest c rfl
      rw [ih rest.length (by rw [← hlength]; simp only [List.length_append, List.length_cons]; omega)
        (List.forall_mem_cons.1 hlater).2 _ rfl, trimEnd_trimEnd]

/-- Blanks behind a seam, in front of text. -/
theorem closing_seam_blanks {blanks : List Char} (hblanks : ∀ c ∈ blanks, isBlank c = true) {d : Char}
    (hd : isFaint d = false) (left cs : List Char) :
    closing left (seam :: (blanks ++ d :: cs)) =
      closing (trimEnd left ++ spaced left (left.getLast?.any isBlank || !blanks.isEmpty) d ++ [d])
        cs := by
  obtain ⟨hseam, hblank⟩ := isFaint_eq_false_iff.1 hd
  have hnone : seam ∉ blanks := fun hmem => absurd (hblanks seam hmem) (by decide)
  obtain ⟨piece, rest, rfl, hpiece, hrest⟩ := exists_piece cs
  have hnot : seam ∉ blanks ++ d :: piece := by
    simp [hnone, Ne.symm hseam, hpiece]
  have hjoin := closing_seam hnot hrest left
  rw [join_append hblanks hblank] at hjoin
  rw [closing_append hpiece, ← List.append_cons, ← hjoin]
  simp

/-- Seams and blanks behind a seam, in front of text. -/
theorem closing_seam_faint {faint : List Char} (hfaint : ∀ c ∈ faint, isFaint c = true) {d : Char}
    (hd : isFaint d = false) (left cs : List Char) :
    closing left (seam :: (faint ++ d :: cs)) =
      closing (trimEnd left ++ spaced left (if seam ∈ faint then faint.getLast?.any isBlank
        else left.getLast?.any isBlank || !faint.isEmpty) d ++ [d]) cs := by
  by_cases hmem : seam ∈ faint
  · -- up to the last seam there is nothing but the end of a text
    obtain ⟨lead, blanks, rfl, hnot⟩ := exists_last_seam hmem
    obtain ⟨hlead, hrest⟩ := List.forall_mem_append.1 hfaint
    have hblanks := isBlank_of_isFaint hnot (List.forall_mem_cons.1 hrest).2
    have hlast := any_getLast?_append hblanks (lead ++ [seam])
    rw [← List.append_cons, List.getLast?_concat, Option.any_some,
      show isBlank seam = false by decide, Bool.false_or] at hlast
    rw [if_pos hmem, hlast, List.append_assoc, List.cons_append, ← List.cons_append,
      closing_append_seam, closing_seam_end hlead, closing_seam_blanks hblanks hd,
      any_getLast?_trimEnd, trimEnd_trimEnd, spaced, trimEnd_trimEnd]
    rfl
  · rw [if_neg hmem, closing_seam_blanks (isBlank_of_isFaint hmem hfaint) hd]

/-- **Whether a gap of seams and blanks keeps a space** when it is between texts: a gap of one seam
does when there is a blank in it, a gap of several when there is a blank behind the last. -/
def keepsSpace (seams : List Char) : Bool :=
  if seams.count seam = 1 then seams.any isBlank else seams.getLast?.any isBlank

/-- **What is left of a gap**, between the text so far and what stays behind the gap: nothing at
either end of the text or before closing punctuation, and otherwise a space if the gap keeps one. -/
def space (left gap kept : List Char) : List Char :=
  if left.isEmpty || kept.isEmpty || kept.head?.any closingPunctuation.contains ||
      !keepsSpace (withoutEmptyParens gap) then [] else [' ']

theorem keepsSpace_append {blanks later : List Char} (hnot : seam ∉ blanks)
    (hblanks : ∀ c ∈ blanks, isBlank c = true) (hlater : ∀ c ∈ later, isFaint c = true) :
    keepsSpace (blanks ++ seam :: later) =
      if seam ∈ later then later.getLast?.any isBlank else !blanks.isEmpty || !later.isEmpty := by
  have hcount : (blanks ++ seam :: later).count seam = later.count seam + 1 := by
    rw [List.count_append, List.count_eq_zero.2 hnot, List.count_cons_self, Nat.zero_add]
  have hany : ∀ {cs : List Char}, (∀ c ∈ cs, isBlank c = true) → cs.any isBlank = !cs.isEmpty := by
    intro cs hcs
    cases cs with
    | nil => rfl
    | cons c cs => simp [hcs c]
  rw [keepsSpace, hcount]
  split
  · next hone =>
    have hnone : seam ∉ later := List.count_eq_zero.1 (by omega)
    rw [if_neg hnone, List.any_append, List.any_cons, hany hblanks,
      hany (isBlank_of_isFaint hnone hlater)]
    rfl
  · next hmore =>
    have hmem : seam ∈ later := List.count_pos_iff.1 (by omega)
    rw [if_pos hmem, List.getLast?_append, List.getLast?_cons,
      List.getLast?_eq_some_getLast (List.ne_nil_of_mem hmem)]
    rfl

/-- A gap of seams and blanks between texts is closed. -/
theorem closing_seamed {seams : List Char} (h : isSeamed seams = true) {left : List Char}
    (hleft : ∀ c ∈ left.getLast?, isBlank c = false) {d : Char} (hd : isFaint d = false)
    (kept cs : List Char) :
    closing left (seams ++ d :: cs) = closing (left ++ space left seams (d :: kept) ++ [d]) cs := by
  obtain ⟨hmem, hfaint⟩ := isSeamed_iff.1 h
  obtain ⟨blanks, later, rfl, hnot⟩ := List.eq_append_cons_of_mem hmem
  obtain ⟨hlead, hrest⟩ := List.forall_mem_append.1 hfaint
  have hlater := (List.forall_mem_cons.1 hrest).2
  have hblanks := isBlank_of_isFaint hnot hlead
  have htrim : trimEnd (left ++ blanks) = left := by
    rw [trimEnd_append_of_isBlank hblanks, trimEnd_eq_self hleft]
  have hended : (left ++ blanks).getLast?.any isBlank = !blanks.isEmpty := by
    rw [any_getLast?_append hblanks]
    cases hlast : left.getLast? with
    | none => rfl
    | some c => rw [Option.any_some, hleft c hlast, Bool.false_or]
  have hspace : spaced (left ++ blanks) (keepsSpace (blanks ++ seam :: later)) d =
      space left (blanks ++ seam :: later) (d :: kept) := by
    rw [spaced, space, htrim, withoutEmptyParens_of_isSeamed h]
    cases keepsSpace (blanks ++ seam :: later) <;> cases left.isEmpty <;>
      cases hpunctuation : closingPunctuation.contains d <;> simp_all
  rw [List.append_assoc, closing_append hnot, List.cons_append, closing_seam_faint hlater hd, htrim,
    hended, ← keepsSpace_append hnot hblanks hlater, hspace]

/-- A gap of seams and blanks at the end goes away. -/
theorem closing_seamed_end {seams : List Char} (h : isSeamed seams = true) {left : List Char}
    (hleft : ∀ c ∈ left.getLast?, isBlank c = false) : closing left seams = left := by
  obtain ⟨hmem, hfaint⟩ := isSeamed_iff.1 h
  obtain ⟨blanks, later, rfl, hnot⟩ := List.eq_append_cons_of_mem hmem
  obtain ⟨hlead, hrest⟩ := List.forall_mem_append.1 hfaint
  rw [closing_append hnot, closing_seam_end (List.forall_mem_cons.1 hrest).2,
    trimEnd_append_of_isBlank (isBlank_of_isFaint hnot hlead), trimEnd_eq_self hleft]

/-! ## Partings -/

/-- Gaps behind a text, each rid of its parentheses. -/
def flatGaps (gaps : List (List Char × List Char)) : List (List Char × List Char) :=
  gaps.map fun g => (withoutEmptyParens g.1, g.2)

theorem flatGaps_cons (gap kept : List Char) (rest : List (List Char × List Char)) :
    flatGaps ((gap, kept) :: rest) = (withoutEmptyParens gap, kept) :: flatGaps rest := rfl

theorem Parts.flat {text : List Char} {rest : List (List Char × List Char)} (h : Parts text rest) :
    Parts text (flatGaps rest) := by
  induction rest generalizing text with
  | nil => trivial
  | cons g rest ih =>
    obtain ⟨hbetween, hseam, hkept, hrest⟩ := h
    have hnil : g.2 = [] → flatGaps rest = [] := fun hnil => List.map_eq_nil_iff.2 (hkept hnil)
    exact ⟨{ hbetween with isGap := Gap.of_isSeamed (isSeamed_withoutEmptyParens hbetween.isGap) },
      hseam, hnil, (ih hrest).change _ hnil⟩

theorem isGap_of_mem {text : List Char} {rest : List (List Char × List Char)} (h : Parts text rest)
    {g : List Char × List Char} (hg : g ∈ rest) : Gap g.1 := by
  obtain ⟨before, after, rfl⟩ := List.append_of_mem hg
  exact h.of_append.1.isGap

theorem withoutEmptyParens_gapsText (text : List Char) (rest : List (List Char × List Char)) :
    withoutEmptyParens (text ++ gapsText rest) =
      withoutEmptyParens (text ++ gapsText (flatGaps rest)) := by
  induction rest generalizing text with
  | nil => rfl
  | cons g rest ih =>
    obtain ⟨gap, kept⟩ := g
    have hgap := withoutEmptyParens_append text gap (kept ++ gapsText rest)
    have hrest := ih (text ++ withoutEmptyParens gap ++ kept)
    rw [List.append_assoc _ kept, List.append_assoc _ kept] at hrest
    rw [flatGaps_cons, gapsText_cons, gapsText_cons, List.append_assoc gap,
      List.append_assoc (withoutEmptyParens gap), ← List.append_assoc text,
      ← List.append_assoc text, hgap, hrest]

/-- **A text is rid of its empty parentheses gap by gap**, since all of them are in its gaps. -/
theorem Parting.withoutEmptyParens_text (r : Parting) :
    withoutEmptyParens r.text = r.first ++ gapsText (flatGaps r.rest) := by
  rw [text, withoutEmptyParens_gapsText]
  refine withoutEmptyParens_of_none (emptyParens?_eq_none_iff.2 fun before s after htext => ?_)
  rw [Bool.eq_false_iff]
  intro hs
  let flat : Parting := ⟨r.first, flatGaps r.rest, r.seam_notMem, r.parts.flat⟩
  have hpair : flat.text = before ++ '(' :: (s ++ [')']) ++ after := by
    rw [text, htext]
    simp
  obtain ⟨front, lead, tail, kept, later, hrest, -, -⟩ :=
    flat.lies_of_gap (Gap.parens (Gap.of_isSeamed hs)) hpair
  have hmem : (lead ++ '(' :: (s ++ [')']) ++ tail, kept) ∈ flat.rest := by
    rw [hrest]
    exact List.mem_append_right front List.mem_cons_self
  obtain ⟨g, hg, hflat⟩ := List.mem_map.1 hmem
  have hseamed := isSeamed_withoutEmptyParens (isGap_of_mem r.parts hg)
  rw [(Prod.mk.inj hflat).1] at hseamed
  exact (notMem_of_isSeamed hseamed).1 (by simp)

/-- **The text closed at gaps**: what stays behind each gap comes behind what is there already, with
what is left of the gap between. -/
def closedGaps : (left : List Char) → List (List Char × List Char) → List Char
  | left, [] => left
  | left, (gap, kept) :: rest => closedGaps (left ++ space left gap kept ++ kept) rest

theorem closing_gapsText {left : List Char} {rest : List (List Char × List Char)}
    (h : Parts left rest) : closing left (gapsText (flatGaps rest)) = closedGaps left rest := by
  induction rest generalizing left with
  | nil => exact closing_nil left
  | cons g rest ih =>
    obtain ⟨gap, kept⟩ := g
    obtain ⟨hbetween, hseam, hkept, hrest⟩ := h
    have hgap := isSeamed_withoutEmptyParens hbetween.isGap
    have hspace : space left (withoutEmptyParens gap) kept = space left gap kept := by
      rw [space, space, withoutEmptyParens_of_isSeamed hgap]
    rw [flatGaps_cons, gapsText_cons, closedGaps, ← hspace]
    cases kept with
    | nil =>
      obtain rfl := hkept rfl
      rw [show gapsText (flatGaps []) = [] from rfl, List.append_nil, List.append_nil,
        closing_seamed_end hgap hbetween.front]
      simp [closedGaps, space]
    | cons d kept =>
      have hd : isFaint d = false := isFaint_eq_false_iff.2
        ⟨fun heq => hseam (heq ▸ List.mem_cons_self), hbetween.behind d rfl⟩
      obtain ⟨-, hkeptSeam⟩ := not_or.1 (mt List.mem_cons.2 hseam)
      rw [List.append_assoc, List.cons_append, closing_seamed hgap hbetween.front hd kept,
        closing_append hkeptSeam, ← List.append_cons]
      exact ih (hrest.change _ hkept)

namespace Parting

/-- **The text closed at its gaps.** -/
def closed (r : Parting) : List Char := closedGaps r.first r.rest

/-- **Closing the seams of a text closes it at its gaps.** -/
theorem closeSeams_text (r : Parting) : closeSeams r.text = r.closed := by
  rw [closeSeams_eq, withoutEmptyParens_text, closing_append r.seam_notMem, List.nil_append,
    closing_gapsText r.parts, closed]

end Parting

/-! ## What closing leaves -/

/-- The characters that stay at gaps. -/
theorem mem_closedGaps {c : Char} {left : List Char} {rest : List (List Char × List Char)}
    (h : c ∈ closedGaps left rest) : c = ' ' ∨ c ∈ left ∨ ∃ g ∈ rest, c ∈ g.2 := by
  induction rest generalizing left with
  | nil => exact Or.inr (Or.inl h)
  | cons g rest ih =>
    obtain ⟨gap, kept⟩ := g
    obtain hspace | hleft | ⟨g, hg, hc⟩ := ih h
    · exact Or.inl hspace
    · rw [List.mem_append, List.mem_append] at hleft
      obtain (hleft | hspace) | hkept := hleft
      · exact Or.inr (Or.inl hleft)
      · unfold space at hspace
        split at hspace
        · exact absurd hspace List.not_mem_nil
        · exact Or.inl (List.mem_singleton.1 hspace)
      · exact Or.inr (Or.inr ⟨_, List.mem_cons_self, hkept⟩)
    · exact Or.inr (Or.inr ⟨g, List.mem_cons_of_mem _ hg, hc⟩)

theorem filter_closedGaps (left : List Char) (rest : List (List Char × List Char)) :
    (closedGaps left rest).filter (!isBlank ·) =
      left.filter (!isBlank ·) ++ (rest.flatMap Prod.snd).filter (!isBlank ·) := by
  induction rest generalizing left with
  | nil => simp [closedGaps]
  | cons g rest ih =>
    obtain ⟨gap, kept⟩ := g
    have hspace : (space left gap kept).filter (!isBlank ·) = [] := by
      unfold space
      split
      · rfl
      · decide
    rw [closedGaps, ih, List.filter_append, List.filter_append, hspace, List.flatMap_cons,
      List.filter_append, List.append_nil, List.append_assoc]

namespace Parting

theorem seam_notMem_of_mem {r : Parting} {g : List Char × List Char} (hg : g ∈ r.rest) :
    seam ∉ g.2 := by
  obtain ⟨before, after, hrest⟩ := List.append_of_mem hg
  exact (hrest ▸ r.parts).of_append.2.1

theorem seam_notMem_closed (r : Parting) : seam ∉ r.closed := by
  intro hmem
  obtain hspace | hfirst | ⟨g, hg, hkept⟩ := mem_closedGaps hmem
  · exact absurd hspace (by decide)
  · exact r.seam_notMem hfirst
  · exact seam_notMem_of_mem hg hkept

/-- A text without seams has no gaps. -/
theorem closed_eq_text {r : Parting} (h : seam ∉ r.text) : r.closed = r.text := by
  have hrest : r.rest = [] := by
    cases hrest : r.rest with
    | nil => rfl
    | cons g rest =>
      have hgap := (hrest ▸ r.parts).1.isGap
      refine absurd ?_ h
      rw [text, hrest, gapsText_cons, List.append_assoc]
      exact List.mem_append_right _ (List.mem_append_left _ hgap.seam_mem)
  rw [closed, text, hrest]
  exact (List.append_nil r.first).symm

end Parting

theorem closeSeams_of_notMem {cs : List Char} (h : seam ∉ cs) : closeSeams cs = cs := by
  obtain ⟨r, rfl⟩ := exists_parting cs
  exact r.closeSeams_text.trans (Parting.closed_eq_text h)

/-- **No character goes away or comes in** but seams, blanks and parentheses. -/
theorem count_closeSeams {c : Char} (hfaint : isFaint c = false) (hopen : c ≠ '(')
    (hclose : c ≠ ')') (cs : List Char) : (closeSeams cs).count c = cs.count c := by
  obtain ⟨r, rfl⟩ := exists_parting cs
  have hkept : ∀ cs : List Char, (cs.filter (!isBlank ·)).count c = cs.count c :=
    fun _ => List.count_filter (by rw [(isFaint_eq_false_iff.1 hfaint).2]; rfl)
  have hgaps : ∀ {text rest}, Parts text rest →
      (gapsText rest).count c = (rest.flatMap Prod.snd).count c := by
    intro text rest hparts
    induction rest generalizing text with
    | nil => rfl
    | cons g rest ih =>
      obtain ⟨hbetween, -, -, hrest⟩ := hparts
      have hnone := List.count_eq_zero.2 (hbetween.isGap.notMem hfaint hopen hclose)
      rw [gapsText_cons, List.flatMap_cons, List.count_append, List.count_append, List.count_append,
        hnone, Nat.zero_add, ih hrest]
  rw [r.closeSeams_text, Parting.closed, Parting.text, List.count_append, hgaps r.parts,
    ← hkept, filter_closedGaps, List.count_append, hkept, hkept]

/-- **Rounds of taking away parentheses**, each of the first empty pair, until there is none. -/
inductive Rounds : Nat → List Char → List Char → Prop where
  /-- There is no empty pair. -/
  | done {cs : List Char} (h : emptyParens? cs = none) : Rounds 0 cs cs
  /-- The first empty pair becomes a seam, and the rest is done on what that leaves. -/
  | next {n : Nat} {cs before after result : List Char} (h : emptyParens? cs = some (before, after))
      (hrest : Rounds n (before ++ seam :: after) result) : Rounds (n + 1) cs result

/-- Each round takes away an opening parenthesis, so they end. -/
theorem exists_rounds (cs : List Char) :
    ∃ n ≤ cs.count '(', Rounds n cs (withoutEmptyParens cs) := by
  induction hcount : cs.count '(' using Nat.strongRecOn generalizing cs with
  | ind count ih =>
    cases hcs : emptyParens? cs with
    | none =>
      rw [withoutEmptyParens_of_none hcs]
      exact ⟨0, Nat.zero_le _, .done hcs⟩
    | some cut =>
      obtain ⟨s, hs, hpair⟩ := exists_of_emptyParens? hcs
      have hfewer : (cut.1 ++ seam :: cut.2).count '(' + 1 ≤ cs.count '(' := by
        rw [hpair, List.count_append, List.count_append, List.count_cons_self, List.count_append,
          List.count_cons_of_ne (by decide), List.count_cons_of_ne (by decide)]
        omega
      obtain ⟨n, hn, hrounds⟩ := ih _ (by omega) (cut.1 ++ seam :: cut.2) rfl
      rw [withoutEmptyParens_of_some hcs]
      exact ⟨n + 1, by omega, .next hcs hrounds⟩

/-- **Closing the seams of a text changes it at its gaps only.** The parentheses around nothing are
gone after as many rounds as there are opening parentheses, or fewer. No seam is left, and a text
without seams stays as it is. Every text is parted at gaps, which are stretches of seams, blanks and
parentheses around such stretches; whatever else is one lies in one of them. All between them stays
as it is, blanks included, and what else stays is a space at some of them, at neither end of the
text and never before closing punctuation. -/
theorem closeSeams_at_gaps (cs : List Char) :
    (∃ n ≤ cs.count '(', Rounds n cs (withoutEmptyParens cs)) ∧
      seam ∉ closeSeams cs ∧
      (seam ∉ cs → closeSeams cs = cs) ∧
      ∃ r : Parting, r.text = cs ∧
        (∀ a gap b, cs = a ++ gap ++ b → Gap gap → r.Lies a gap b) ∧
        (closeSeams cs).filter (!isBlank ·) = r.remains.filter (!isBlank ·) ∧
        closeSeams cs = r.closed := by
  obtain ⟨r, rfl⟩ := exists_parting cs
  have hclosed := r.closeSeams_text
  refine ⟨exists_rounds r.text, hclosed ▸ r.seam_notMem_closed,
    fun hseam => hclosed.trans (Parting.closed_eq_text hseam), r, rfl,
    fun a gap b htext hgap => r.lies_of_gap hgap htext, ?_, hclosed⟩
  rw [hclosed, Parting.closed, filter_closedGaps, Parting.remains, List.filter_append]

/-- Parentheses around nothing stay, and those around a seam go away with the blanks next to them. -/
theorem closeSeams_at_gaps_parens :
    let cs := "Op () ".toList ++ ['(', seam, ')'] ++ " !".toList
    closeSeams cs = "Op ()!".toList ∧
      ∃ r : Parting, r.text = cs ∧ r.Lies "Op () ".toList ['(', seam, ')'] " !".toList ∧
        r.closed = "Op ()!".toList := by
  intro cs
  have hresult : closeSeams cs = "Op ()!".toList := by decide +kernel
  obtain ⟨-, -, -, r, htext, hlies, -, hclosed⟩ := closeSeams_at_gaps cs
  exact ⟨hresult, r, htext, hlies _ _ _ rfl (Gap.parens Gap.seam), hclosed ▸ hresult⟩

end Storefront.Label
