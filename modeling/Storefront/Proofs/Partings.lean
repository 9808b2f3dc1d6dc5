import Storefront.Proofs.Gaps

/-!
# Texts parted at their gaps

Every text is what stays of it, with gaps between (`Parting`, `exists_parting`). The
gaps are as long as they can be: nothing next to one is blank, there is text between
any two, and no pair of parentheses stands around one. So whatever stretch of the
text is a gap lies in one of them (`Parting.lies_of_gap`), and a parenthesis that
stays is not one of a pair around nothing.
-/

namespace Storefront.Label

open Text

/-! ## Partings -/

/-- The text of gaps, each with what stays behind it. -/
def gapsText (gaps : List (List Char × List Char)) : List Char :=
  gaps.flatMap fun g => g.1 ++ g.2

theorem gapsText_cons (gap kept : List Char) (rest : List (List Char × List Char)) :
    gapsText ((gap, kept) :: rest) = gap ++ kept ++ gapsText rest := rfl

theorem gapsText_append (a b : List (List Char × List Char)) :
    gapsText (a ++ b) = gapsText a ++ gapsText b :=
  List.flatMap_append

/-- **A gap that cannot be longer**: what stands on either side is not blank, and is no pair of
parentheses. -/
structure Between (left gap right : List Char) : Prop where
  /-- It is a gap. -/
  isGap : Gap gap
  /-- No blank in front of it. -/
  front : ∀ c ∈ left.getLast?, isBlank c = false
  /-- No blank behind it. -/
  behind : ∀ c ∈ right.head?, isBlank c = false
  /-- No parentheses around it. -/
  unpaired : left.getLast? = some '(' → right.head? ≠ some ')'

/-- **Gaps behind a text**, with what stays behind each: none can be longer, and only the last may
have nothing behind it. -/
def Parts : (text : List Char) → List (List Char × List Char) → Prop
  | _, [] => True
  | text, (gap, kept) :: rest =>
    Between text gap kept ∧ seam ∉ kept ∧ (kept = [] → rest = []) ∧ Parts (text ++ gap ++ kept) rest

namespace Parts

/-- Of the text in front only its end matters. -/
theorem congr {text other : List Char} {rest : List (List Char × List Char)}
    (h : text.getLast? = other.getLast?) (hparts : Parts text rest) : Parts other rest := by
  induction rest generalizing text other with
  | nil => trivial
  | cons g rest ih =>
    obtain ⟨hbetween, hseam, hkept, hrest⟩ := hparts
    refine ⟨⟨hbetween.isGap, h ▸ hbetween.front, hbetween.behind, h ▸ hbetween.unpaired⟩, hseam, hkept,
      ih ?_ hrest⟩
    simp only [List.getLast?_append, h]

/-- What stands in front of what stays does not matter. -/
theorem change {text kept : List Char} {rest : List (List Char × List Char)} (other : List Char)
    (hkept : kept = [] → rest = []) (hparts : Parts (text ++ kept) rest) :
    Parts (other ++ kept) rest := by
  cases kept with
  | nil =>
    rw [hkept rfl]
    trivial
  | cons c kept =>
    refine hparts.congr ?_
    rw [List.getLast?_append, List.getLast?_append, List.getLast?_cons]
    rfl

theorem change_nil {kept : List Char} {rest : List (List Char × List Char)} (other : List Char)
    (hkept : kept = [] → rest = []) (hparts : Parts kept rest) : Parts (other ++ kept) rest := by
  rw [← List.nil_append kept] at hparts
  exact hparts.change other hkept

theorem of_append {text : List Char} {before after : List (List Char × List Char)}
    (h : Parts text (before ++ after)) : Parts (text ++ gapsText before) after := by
  induction before generalizing text with
  | nil => rwa [show gapsText [] = [] from rfl, List.append_nil]
  | cons g before ih =>
    obtain ⟨-, -, -, hrest⟩ := h
    rw [gapsText_cons, List.append_assoc, ← List.append_assoc, ← List.append_assoc]
    exact ih hrest

/-- **Any gap can be put in the place of a gap.** -/
theorem replace {text gap kept other : List Char} {before after : List (List Char × List Char)}
    (h : Parts text (before ++ (gap, kept) :: after)) (hother : Gap other) :
    Parts text (before ++ (other, kept) :: after) := by
  induction before generalizing text with
  | nil =>
    obtain ⟨hbetween, hseam, hkept, hrest⟩ := h
    exact ⟨{ hbetween with isGap := hother }, hseam, hkept, hrest.change _ hkept⟩
  | cons g before ih =>
    obtain ⟨hbetween, hseam, hkept, hrest⟩ := h
    exact ⟨hbetween, hseam, fun hnil => absurd (hkept hnil) (by simp), ih hrest⟩

theorem eq_nil_of_gapsText {text : List Char} {rest : List (List Char × List Char)}
    (hparts : Parts text rest) (h : gapsText rest = []) : rest = [] := by
  cases rest with
  | nil => rfl
  | cons g rest =>
    rw [gapsText_cons, List.append_assoc] at h
    exact absurd (List.append_eq_nil_iff.1 h).1 (List.ne_nil_of_mem hparts.1.isGap.seam_mem)

/-- **A seam stands in a gap.** -/
theorem exists_of_seam {text a b : List Char} {rest : List (List Char × List Char)}
    (hparts : Parts text rest) (h : gapsText rest = a ++ seam :: b) :
    ∃ before lead tail kept after, rest = before ++ (lead ++ seam :: tail, kept) :: after ∧
      a = gapsText before ++ lead ∧ b = tail ++ kept ++ gapsText after := by
  induction rest generalizing text a with
  | nil => simp [gapsText] at h
  | cons g rest ih =>
    obtain ⟨gap, kept⟩ := g
    obtain ⟨-, hseam, -, hrest⟩ := hparts
    rw [gapsText_cons, List.append_assoc] at h
    obtain ⟨tail, rfl, rfl⟩ | ⟨t, rfl, hbehind⟩ := append_eq_append_cons h
    · exact ⟨[], a, tail, kept, rest, rfl, rfl, (List.append_assoc _ _ _).symm⟩
    · obtain ⟨_, rfl, -⟩ | ⟨t, rfl, hlater⟩ := append_eq_append_cons hbehind
      · exact absurd (List.mem_append_right _ List.mem_cons_self) hseam
      · obtain ⟨before, lead, tail, kept', after, rfl, rfl, rfl⟩ := ih hrest hlater
        exact ⟨(gap, kept) :: before, lead, tail, kept', after, rfl, by simp [gapsText_cons], rfl⟩

end Parts

/-- **A text parted at its gaps.** -/
structure Parting where
  /-- What stays in front of the first gap. -/
  first : List Char
  /-- The gaps, each with what stays behind it. -/
  rest : List (List Char × List Char)
  /-- There is no seam in front of the first gap. -/
  seam_notMem : seam ∉ first
  /-- The gaps are as long as they can be, with text between any two. -/
  parts : Parts first rest

namespace Parting

/-- The text that is parted. -/
def text (r : Parting) : List Char := r.first ++ gapsText r.rest

/-- **What stays of the text.** -/
def remains (r : Parting) : List Char := r.first ++ r.rest.flatMap Prod.snd

/-- **A stretch between `a` and `b` lies in a gap.** -/
def Lies (r : Parting) (a stretch b : List Char) : Prop :=
  ∃ before lead tail kept after, r.rest = before ++ (lead ++ stretch ++ tail, kept) :: after ∧
    a = r.first ++ gapsText before ++ lead ∧ b = tail ++ kept ++ gapsText after

/-! ## Stretches in gaps -/

theorem lies_of_seam (r : Parting) {a b : List Char} (h : r.text = a ++ seam :: b) :
    r.Lies a [seam] b := by
  obtain ⟨t, hfirst, -⟩ | ⟨t, rfl, hrest⟩ := append_eq_append_cons h
  · exact absurd (hfirst ▸ List.mem_append_right a List.mem_cons_self) r.seam_notMem
  · obtain ⟨before, lead, tail, kept, after, hr, rfl, hb⟩ := r.parts.exists_of_seam hrest
    exact ⟨before, lead, tail, kept, after, by simpa using hr, by simp, hb⟩

/-- A blank in front of what lies in a gap lies in it, too. -/
theorem Lies.blankBefore {r : Parting} {a stretch b : List Char} {c : Char}
    (h : r.Lies (a ++ [c]) stretch b) (hc : isBlank c = true) : r.Lies a (c :: stretch) b := by
  obtain ⟨before, lead, tail, kept, after, hrest, ha, hb⟩ := h
  obtain rfl | ⟨lead, d, rfl⟩ := lead.eq_nil_or_concat
  · have hbetween := (hrest ▸ r.parts).of_append.1
    rw [List.append_nil] at ha
    have hnot := hbetween.front c (by rw [← ha]; simp)
    exact absurd hc (Bool.eq_false_iff.1 hnot)
  · rw [List.concat_eq_append, ← List.append_assoc] at ha
    obtain ⟨rfl, hlast⟩ := List.append_inj' ha rfl
    obtain rfl := List.singleton_inj.1 hlast
    exact ⟨before, lead, tail, kept, after, by simpa using hrest, rfl, hb⟩

/-- A blank behind what lies in a gap lies in it, too. -/
theorem Lies.blankBehind {r : Parting} {a stretch b : List Char} {c : Char}
    (h : r.Lies a stretch (c :: b)) (hc : isBlank c = true) : r.Lies a (stretch ++ [c]) b := by
  obtain ⟨before, lead, tail, kept, after, hrest, ha, hb⟩ := h
  cases tail with
  | nil =>
    obtain ⟨hbetween, -, hkept, -⟩ := (hrest ▸ r.parts).of_append
    cases kept with
    | nil =>
      rw [hkept rfl] at hb
      exact absurd hb (List.cons_ne_nil c b)
    | cons d kept =>
      obtain ⟨rfl, -⟩ := List.cons.inj hb
      exact absurd hc (Bool.eq_false_iff.1 (hbetween.behind c rfl))
  | cons d tail =>
    obtain ⟨rfl, rfl⟩ := List.cons.inj hb
    exact ⟨before, lead, tail, kept, after, by simpa using hrest, ha, rfl⟩

/-- Two places in a list are the same when neither is in front of the other. -/
theorem append_cons_inj {α : Type} {a b c d : List α} {x y : α} (h : a ++ x :: c = b ++ y :: d)
    (hab : ∀ t, b ≠ a ++ x :: t) (hba : ∀ t, a ≠ b ++ y :: t) : a = b ∧ x = y ∧ c = d := by
  obtain ⟨t, rfl, ht⟩ | ⟨t, rfl, ht⟩ := List.append_eq_append_iff.1 h
  · cases t with
    | nil =>
      obtain ⟨rfl, rfl⟩ := List.cons.inj ht
      exact ⟨(List.append_nil a).symm, rfl, rfl⟩
    | cons z t =>
      obtain ⟨rfl, -⟩ := List.cons.inj ht
      exact absurd rfl (hab t)
  · cases t with
    | nil =>
      obtain ⟨rfl, rfl⟩ := List.cons.inj ht
      exact ⟨List.append_nil b, rfl, rfl⟩
    | cons z t =>
      obtain ⟨rfl, -⟩ := List.cons.inj ht
      exact absurd rfl (hba t)

/-- What lies in gaps one behind the other lies in one gap. -/
theorem Lies.append {r : Parting} {a g h b : List Char} (hg : r.Lies a g (h ++ b))
    (hh : r.Lies (a ++ g) h b) (hne : h ≠ []) : r.Lies a (g ++ h) b := by
  obtain ⟨before, lead, tail, kept, after, hrest, rfl, -⟩ := hg
  obtain ⟨before', lead', tail', kept', after', hrest', ha', rfl⟩ := hh
  obtain ⟨-, -, hkept, -⟩ := (hrest ▸ r.parts).of_append
  have hlength := congrArg List.length ha'
  simp only [List.length_append] at hlength
  -- the first ends where the second begins, so neither gap is in front of the other
  have hfirst : ∀ t, before' ≠ before ++ (lead ++ g ++ tail, kept) :: t := by
    rintro t rfl
    have hafter : t ++ (lead' ++ h ++ tail', kept') :: after' = after := by
      rw [hrest', List.append_assoc] at hrest
      exact (List.cons.inj (List.append_cancel_left hrest)).2
    have hpos : 0 < kept.length :=
      List.length_pos_iff.2 fun hnil => absurd (hkept hnil) (hafter ▸ by simp)
    simp only [gapsText_append, gapsText_cons, List.length_append] at hlength
    omega
  have hsecond : ∀ t, before ≠ before' ++ (lead' ++ h ++ tail', kept') :: t := by
    rintro t rfl
    have hpos := List.length_pos_iff.2 hne
    simp only [gapsText_append, gapsText_cons, List.length_append] at hlength
    omega
  obtain ⟨rfl, hsame, rfl⟩ := append_cons_inj (hrest.symm.trans hrest') hfirst hsecond
  obtain ⟨hgap, rfl⟩ := Prod.mk.inj hsame
  obtain rfl : lead' = lead ++ g := by
    rw [List.append_assoc _ lead] at ha'
    exact (List.append_cancel_left ha').symm
  exact ⟨before, lead, tail', kept, after, by rw [hrest', List.append_assoc lead g h], rfl, rfl⟩

/-- Parentheses around what lies in a gap lie in it, too. -/
theorem Lies.parens {r : Parting} {a stretch b : List Char} (h : r.Lies (a ++ ['(']) stretch (')' :: b))
    (hgap : Gap stretch) : r.Lies a ('(' :: (stretch ++ [')'])) b := by
  obtain ⟨before, lead, tail, kept, after, hrest, ha, hb⟩ := h
  obtain ⟨hbetween, -, hkept, -⟩ := (hrest ▸ r.parts).of_append
  have hcount := hbetween.isGap.count_parens
  have hstretch := hgap.count_parens
  obtain rfl | ⟨lead, d, rfl⟩ := lead.eq_nil_or_concat
  · cases tail with
    | nil =>
      rw [List.append_nil] at ha
      cases kept with
      | nil =>
        rw [hkept rfl] at hb
        exact absurd hb (List.cons_ne_nil _ b)
      | cons d kept =>
        obtain ⟨rfl, -⟩ := List.cons.inj hb
        exact absurd rfl (hbetween.unpaired (by rw [← ha]; simp))
    | cons d tail =>
      -- the gap would begin with the stretch and a parenthesis that closes nothing
      obtain ⟨rfl, -⟩ := List.cons.inj hb
      have hfront : stretch ++ [')'] <+: [] ++ stretch ++ ')' :: tail := ⟨tail, by simp⟩
      have hle := hbetween.isGap.count_parens_le hfront
      simp only [List.count_append, hstretch] at hle
      exact absurd hle (by simp)
  · rw [List.concat_eq_append, ← List.append_assoc] at ha
    obtain ⟨rfl, hlast⟩ := List.append_inj' ha rfl
    obtain rfl := List.singleton_inj.1 hlast
    cases tail with
    | nil =>
      -- the gap would end with a parenthesis that nothing closes and the stretch
      have hfront : lead <+: lead.concat '(' ++ stretch ++ [] := ⟨'(' :: stretch, by simp⟩
      have hle := hbetween.isGap.count_parens_le hfront
      simp only [List.concat_eq_append, List.count_append, hstretch] at hcount
      simp at hcount
      omega
    | cons d tail =>
      obtain ⟨rfl, rfl⟩ := List.cons.inj hb
      exact ⟨before, lead, tail, kept, after, by simpa using hrest, rfl, rfl⟩

/-- **Whatever is a gap in the text lies in one of its gaps.** -/
theorem lies_of_gap (r : Parting) {gap : List Char} (hgap : Gap gap) {a b : List Char}
    (h : r.text = a ++ gap ++ b) : r.Lies a gap b := by
  induction hgap generalizing a b with
  | seam => exact r.lies_of_seam (by simpa using h)
  | blankBefore hc _ ih => exact (ih (by simpa using h)).blankBefore hc
  | blankBehind hc _ ih => exact (ih (by simpa using h)).blankBehind hc
  | append _ hh ihg ihh =>
    exact (ihg (by simpa using h)).append (ihh (by simpa using h)) (List.ne_nil_of_mem hh.seam_mem)
  | parens hcs ih => exact (ih (by simpa using h)).parens hcs

end Parting

/-! ## Every text is parted -/

namespace Parting

/-- A text in front of a parting, with a gap between. -/
def cons (lead gap : List Char) (r : Parting) (hlead : seam ∉ lead)
    (hbetween : Between lead gap r.first) (hrest : r.first = [] → r.rest = []) : Parting where
  first := lead
  rest := (gap, r.first) :: r.rest
  seam_notMem := hlead
  parts := ⟨hbetween, r.seam_notMem, hrest, r.parts.change_nil _ hrest⟩

theorem text_cons {lead gap : List Char} {r : Parting} {hlead : seam ∉ lead}
    {hbetween : Between lead gap r.first} {hrest : r.first = [] → r.rest = []} :
    (cons lead gap r hlead hbetween hrest).text = lead ++ gap ++ r.text := by
  rw [text, text, cons, gapsText_cons]
  simp

theorem rest_eq_nil {r : Parting} (hfirst : r.first.head? = r.text.head?) (hnil : r.first = []) :
    r.rest = [] := by
  refine r.parts.eq_nil_of_gapsText ?_
  rw [hnil, List.head?_nil] at hfirst
  have htext := List.head?_eq_none_iff.1 hfirst.symm
  rwa [text, hnil, List.nil_append] at htext

end Parting

/-- The first seams of a text, with the blanks around them. -/
theorem exists_seamed {cs : List Char} (h : seam ∈ cs) :
    ∃ lead seams rest, cs = lead ++ seams ++ rest ∧ isSeamed seams = true ∧ seam ∉ lead ∧
      (∀ c ∈ lead.getLast?, isBlank c = false) ∧ ∀ d ∈ rest.head?, isFaint d = false := by
  obtain ⟨u, v, rfl, hu⟩ := List.eq_append_cons_of_mem h
  obtain ⟨blanks, hcut, hblanks⟩ := exists_append_trimEnd u
  have hseamed : isSeamed (blanks ++ seam :: v.takeWhile isFaint) = true :=
    isSeamed_append_right (fun c hc => isFaint_of_isBlank (hblanks c hc)) <| isSeamed_iff.2
      ⟨List.mem_cons_self, List.forall_mem_cons.2 ⟨by decide, List.all_eq_true.1 List.all_takeWhile⟩⟩
  refine ⟨trimEnd u, blanks ++ seam :: v.takeWhile isFaint, v.dropWhile isFaint, ?_, hseamed,
    fun hmem => hu ((trimEnd_sublist u).subset hmem), fun c => not_isBlank_of_mem_getLast?_trimEnd,
    fun d hd => ?_⟩
  · rw [← List.append_assoc, ← hcut, List.append_assoc, List.cons_append,
      List.takeWhile_append_dropWhile]
  · have hstop := List.head?_dropWhile_not isFaint v
    rw [hd] at hstop
    simpa using hstop

/-- In a text without empty parentheses there are none around seams and blanks. -/
theorem between_of_isSeamed {lead seams tail rest : List Char}
    (h : emptyParens? (lead ++ seams ++ (tail ++ rest)) = none) (hseams : isSeamed seams = true)
    (hfront : ∀ c ∈ lead.getLast?, isBlank c = false)
    (hbehind : ∀ c ∈ tail.head?, isBlank c = false) : Between lead seams tail where
  isGap := Gap.of_isSeamed hseams
  front := hfront
  behind := hbehind
  unpaired := by
    intro hopen hclose
    obtain ⟨before, rfl⟩ := List.getLast?_eq_some_iff.1 hopen
    obtain ⟨after, rfl⟩ := List.head?_eq_some_iff.1 hclose
    have hpair := emptyParens?_eq_none_iff.1 h before seams (after ++ rest) (by simp)
    exact Bool.false_ne_true (hpair.symm.trans hseams)

/-- A text without empty parentheses is parted at its seams and the blanks around them. -/
theorem exists_parting_of_flat {cs : List Char} (h : emptyParens? cs = none) :
    ∃ r : Parting, r.text = cs ∧
      ((∀ d ∈ cs.head?, isFaint d = false) → r.first.head? = cs.head?) := by
  induction hlength : cs.length using Nat.strongRecOn generalizing cs with
  | ind length ih =>
    by_cases hseam : seam ∈ cs
    · obtain ⟨lead, seams, rest, rfl, hseams, hlead, hfront, hrest⟩ := exists_seamed hseam
      have hmem := (isSeamed_iff.1 hseams).1
      obtain ⟨r, rfl, hfirst⟩ := ih rest.length
        (by have := List.length_pos_of_mem hmem; simp only [← hlength, List.length_append]; omega)
        (emptyParens?_of_append h) rfl
      specialize hfirst hrest
      have hbehind : ∀ c ∈ r.first.head?, isBlank c = false :=
        fun c hc => (isFaint_eq_false_iff.1 (hrest c (hfirst ▸ hc))).2
      have hbetween := between_of_isSeamed h hseams hfront hbehind
      refine ⟨r.cons lead seams hlead hbetween (Parting.rest_eq_nil hfirst), Parting.text_cons,
        fun hhead => ?_⟩
      cases lead with
      | cons c lead => rfl
      | nil =>
        -- the text would begin with a seam or a blank
        obtain ⟨d, seams, rfl⟩ := List.exists_cons_of_ne_nil (List.ne_nil_of_mem hmem)
        have hd := (isSeamed_iff.1 hseams).2 d List.mem_cons_self
        exact absurd (hd.symm.trans (hhead d rfl)) Bool.false_ne_true.symm
    · exact ⟨⟨cs, [], hseam, trivial⟩, List.append_nil cs, fun _ => rfl⟩

/-- A gap can be put in the place of a seam of a parted text. -/
theorem Parting.Lies.exists_replace {r : Parting} {a b gap : List Char} (h : r.Lies a [seam] b)
    (hgap : Gap gap) : ∃ s : Parting, s.text = a ++ gap ++ b := by
  obtain ⟨before, lead, tail, kept, after, hrest, rfl, rfl⟩ := h
  have hparts : Parts r.first (before ++ (lead ++ seam :: tail, kept) :: after) := by
    have hparts := r.parts
    rw [hrest] at hparts
    simpa using hparts
  have hother : Gap (lead ++ gap ++ tail) := (hparts.of_append).1.isGap.replace hgap
  refine ⟨⟨r.first, _, r.seam_notMem, hparts.replace hother⟩, ?_⟩
  simp [Parting.text, gapsText_append, gapsText_cons]

/-- **Every text is parted at its gaps.** -/
theorem exists_parting (cs : List Char) : ∃ r : Parting, r.text = cs := by
  induction hlength : cs.length using Nat.strongRecOn generalizing cs with
  | ind length ih =>
    cases hcs : emptyParens? cs with
    | none =>
      obtain ⟨r, hr, -⟩ := exists_parting_of_flat hcs
      exact ⟨r, hr⟩
    | some cut =>
      -- the text with the pair made a seam is parted, and the pair goes in the place of the seam
      obtain ⟨s, hs, rfl⟩ := exists_of_emptyParens? hcs
      have hshorter := length_of_emptyParens? hcs
      obtain ⟨r, hr⟩ := ih (cut.1 ++ seam :: cut.2).length
        (by rw [← hlength, List.length_append, List.length_cons]; omega) _ rfl
      obtain ⟨t, ht⟩ := (r.lies_of_seam hr).exists_replace (Gap.parens (Gap.of_isSeamed hs))
      exact ⟨t, by rw [ht]; simp⟩

end Storefront.Label
