/-!
# Finding, cutting and joining

Searches walk a list of characters from the left and always find the first
occurrence. `cutAt?` gives the text before and after it, so a search that
succeeds accounts for the whole text: `cutAt?_eq_append`.
-/

namespace Storefront.Text

/-- What follows `lead` in a text that starts with it. -/
def after? : (lead : List Char) → List Char → Option (List Char)
  | [], cs => some cs
  | _ :: _, [] => none
  | p :: ps, c :: cs => if p = c then after? ps cs else none

theorem after?_eq_some_iff {lead cs rest : List Char} :
    after? lead cs = some rest ↔ cs = lead ++ rest := by
  induction lead generalizing cs with
  | nil => simp [after?]
  | cons p ps ih =>
    cases cs with
    | nil => simp [after?]
    | cons c cs =>
      by_cases h : p = c
      · simp [after?, h, ih]
      · simp [after?, h, Ne.symm h]

/-- A text that does not start with a lead does not start with a longer one. -/
theorem after?_append_eq_none {lead cs : List Char} (h : after? lead cs = none)
    (more : List Char) : after? (lead ++ more) cs = none := by
  cases hmore : after? (lead ++ more) cs with
  | none => rfl
  | some rest =>
    have hlead : after? lead cs = some (more ++ rest) := by
      rw [after?_eq_some_iff, after?_eq_some_iff.1 hmore, List.append_assoc]
    exact absurd (h.symm.trans hlead) (Option.some_ne_none _).symm

/-- What follows a lead does not depend on how long the text is, once it is as long as the lead. -/
theorem after?_append {lead cs : List Char} (h : lead.length ≤ cs.length) (more : List Char) :
    after? lead (cs ++ more) = (after? lead cs).map (· ++ more) := by
  induction lead generalizing cs with
  | nil => rfl
  | cons p ps ih =>
    cases cs with
    | nil => exact absurd h (Nat.not_succ_le_zero _)
    | cons c cs =>
      rw [List.cons_append, after?, after?]
      split
      · exact ih (Nat.le_of_succ_le_succ h)
      · rfl

/-- Whether a text starts with `lead`. -/
def startsWith (lead cs : List Char) : Bool := (after? lead cs).isSome

/-- Whether a text ends with `tail`. -/
def endsWith (tail cs : List Char) : Bool := tail.isSuffixOf cs

/-- The text before and after the first occurrence of `mark`. -/
def cutAt? (mark : List Char) : List Char → Option (List Char × List Char)
  | [] => (after? mark []).map ([], ·)
  | c :: cs =>
    match after? mark (c :: cs) with
    | some rest => some ([], rest)
    | none => (cutAt? mark cs).map fun cut => (c :: cut.1, cut.2)

theorem cutAt?_eq_append {mark cs before rest : List Char} (h : cutAt? mark cs = some (before, rest)) :
    cs = before ++ mark ++ rest := by
  induction cs generalizing before with
  | nil =>
    simp only [cutAt?, Option.map_eq_some_iff] at h
    obtain ⟨r, hr, hp⟩ := h
    cases hp
    simpa using after?_eq_some_iff.1 hr
  | cons c cs ih =>
    unfold cutAt? at h
    split at h
    · rename_i r hr
      cases h
      simpa using after?_eq_some_iff.1 hr
    · simp only [Option.map_eq_some_iff] at h
      obtain ⟨⟨b, r⟩, hb, hp⟩ := h
      cases hp
      have := ih hb
      simp [this]

theorem length_of_cutAt? {mark cs before rest : List Char} (h : cutAt? mark cs = some (before, rest)) :
    cs.length = before.length + mark.length + rest.length := by
  rw [cutAt?_eq_append h]
  simp [Nat.add_assoc]

/-- **The first occurrence stays the first** when a text is continued. -/
theorem cutAt?_append {mark cs before rest : List Char} (h : cutAt? mark cs = some (before, rest))
    (more : List Char) : cutAt? mark (cs ++ more) = some (before, rest ++ more) := by
  induction cs generalizing before with
  | nil =>
    obtain rfl : mark = [] := by
      have hlen := length_of_cutAt? h
      rw [List.length_nil] at hlen
      exact List.length_eq_zero_iff.1 (by omega)
    cases h
    cases more <;> rfl
  | cons c cs ih =>
    have hlong : mark.length ≤ (c :: cs).length := by
      have hlen := length_of_cutAt? h
      omega
    rw [List.cons_append, cutAt?]
    rw [cutAt?] at h
    rw [← List.cons_append, after?_append hlong]
    split at h
    · rename_i r hr
      cases h
      rw [hr]
      rfl
    · rename_i hr
      obtain ⟨⟨b, r⟩, hb, hp⟩ := Option.map_eq_some_iff.1 h
      cases hp
      rw [hr, ih hb]
      rfl

/-- A mark that occurs is found. -/
theorem cutAt?_append_ne_none (before mark rest : List Char) :
    cutAt? mark (before ++ mark ++ rest) ≠ none := by
  induction before with
  | nil =>
    have hlead : after? mark (mark ++ rest) = some rest := after?_eq_some_iff.2 rfl
    rw [List.nil_append]
    cases hcs : mark ++ rest with
    | nil => rw [cutAt?, ← hcs, hlead]; exact Option.some_ne_none _
    | cons c cs => rw [cutAt?, ← hcs, hlead]; exact Option.some_ne_none _
  | cons c before ih =>
    rw [List.cons_append, List.cons_append, cutAt?]
    split
    · exact Option.some_ne_none _
    · rw [ne_eq, Option.map_eq_none_iff]
      exact ih

/-- In front of the first occurrence there is none. -/
theorem cutAt?_before_eq_none {mark cs before rest : List Char} (hmark : mark ≠ [])
    (h : cutAt? mark cs = some (before, rest)) : cutAt? mark before = none := by
  cases hcut : cutAt? mark before with
  | none => rfl
  | some cut =>
    have hsame := cutAt?_append hcut (mark ++ rest)
    rw [← List.append_assoc, ← cutAt?_eq_append h, h] at hsame
    have hlen := length_of_cutAt? hcut
    rw [(Prod.mk.inj (Option.some.inj hsame)).1] at hlen
    have hpos := List.length_pos_iff.2 hmark
    omega

/-- **A longer mark does not begin in front of the first occurrence of a shorter one.** -/
theorem cutAt?_longer {mark cs before rest : List Char} (h : cutAt? mark cs = some (before, rest))
    (more : List Char) :
    cutAt? (mark ++ more) cs =
      (cutAt? (mark ++ more) (mark ++ rest)).map fun cut => (before ++ cut.1, cut.2) := by
  induction before generalizing cs with
  | nil =>
    rw [cutAt?_eq_append h]
    exact Option.map_id'.symm
  | cons c before ih =>
    have hcs := cutAt?_eq_append h
    rw [List.cons_append, List.cons_append] at hcs
    rw [hcs, cutAt?] at h
    split at h
    · cases h
    · next hnone =>
      obtain ⟨⟨b, r⟩, hcut, hpair⟩ := Option.map_eq_some_iff.1 h
      cases hpair
      rw [hcs, cutAt?, after?_append_eq_none hnone more, ih hcut, Option.map_map]
      rfl

/-- **What comes after the first occurrence does not matter** for finding it. -/
theorem cutAt?_replace_rest {mark before rest : List Char}
    (h : cutAt? mark (before ++ mark ++ rest) = some (before, rest)) (other : List Char) :
    cutAt? mark (before ++ mark ++ other) = some (before, other) := by
  have hlead : cutAt? mark (before ++ mark) = some (before, []) := by
    have hne : cutAt? mark (before ++ mark) ≠ none := by
      have hocc := cutAt?_append_ne_none before mark []
      rwa [List.append_nil] at hocc
    obtain ⟨⟨b, r⟩, hcut⟩ := Option.ne_none_iff_exists'.1 hne
    have hmore := cutAt?_append hcut rest
    rw [h] at hmore
    obtain ⟨rfl, hr⟩ := Prod.mk.inj (Option.some.inj hmore)
    obtain rfl : r = [] := List.self_eq_append_left.1 hr
    exact hcut
  exact cutAt?_append hlead other

/-- A mark that is found occurs. -/
theorem cutAt?_eq_none_iff {mark cs : List Char} :
    cutAt? mark cs = none ↔ ∀ before rest, cs ≠ before ++ mark ++ rest := by
  constructor
  · rintro h before rest rfl
    exact cutAt?_append_ne_none before mark rest h
  · intro h
    cases hcut : cutAt? mark cs with
    | none => rfl
    | some cut => exact absurd (cutAt?_eq_append hcut) (h cut.1 cut.2)

/-- **A mark put behind a text is its first occurrence** when nothing but its last character makes
it one. -/
theorem cutAt?_append_mark {mark cs : List Char} {last : Char}
    (h : cutAt? (mark ++ [last]) (cs ++ mark) = none) (more : List Char) :
    cutAt? (mark ++ [last]) (cs ++ (mark ++ [last]) ++ more) = some (cs, more) := by
  suffices hcut : cutAt? (mark ++ [last]) (cs ++ (mark ++ [last])) = some (cs, []) from
    cutAt?_append hcut more
  have hne : cutAt? (mark ++ [last]) (cs ++ (mark ++ [last])) ≠ none := by
    have hocc := cutAt?_append_ne_none cs (mark ++ [last]) []
    rwa [List.append_nil] at hocc
  obtain ⟨⟨before, rest⟩, hcut⟩ := Option.ne_none_iff_exists'.1 hne
  have happ := cutAt?_eq_append hcut
  rw [hcut]
  obtain rfl | ⟨rest, c, rfl⟩ := rest.eq_nil_or_concat
  · rw [List.append_nil] at happ
    rw [List.append_cancel_right happ]
  · -- an earlier occurrence would be there without the last character
    rw [← List.append_assoc, List.concat_eq_append, ← List.append_assoc] at happ
    have hshort := (List.append_inj' happ rfl).1
    exact absurd hshort (cutAt?_eq_none_iff.1 h before rest)

/-- Characters that a mark does not begin with are passed over. -/
theorem cutAt?_append_of_notMem {c : Char} {mark lead cs : List Char} (h : c ∉ lead) :
    cutAt? (c :: mark) (lead ++ cs) =
      (cutAt? (c :: mark) cs).map fun cut => (lead ++ cut.1, cut.2) := by
  induction lead with
  | nil => simp
  | cons d lead ih =>
    obtain ⟨hd, hlead⟩ := not_or.1 (mt List.mem_cons.2 h)
    rw [List.cons_append, cutAt?, after?, if_neg hd, ih hlead, Option.map_map]
    rfl

/-- **A mark does not occur across a character that it does not have.** -/
theorem cutAt?_append_cons_eq_none {mark cs more : List Char} {c : Char} (hmark : c ∉ mark)
    (hcs : cutAt? mark cs = none) (hmore : cutAt? mark more = none) :
    cutAt? mark (cs ++ c :: more) = none := by
  rw [cutAt?_eq_none_iff] at hcs hmore ⊢
  intro before rest h
  obtain ⟨b, hbefore, hrest⟩ | ⟨b, hbefore, hrest⟩ := List.append_eq_append_iff.1 h
  · cases b with
    | nil =>
      rw [List.append_nil] at hbefore
      exact hcs before [] (by rw [List.append_nil, hbefore])
    | cons d b =>
      obtain ⟨rfl, rfl⟩ := List.cons.inj hrest
      obtain ⟨a, -, hlast⟩ | ⟨a, rfl, hlast⟩ := List.append_eq_append_iff.1 hbefore
      · exact hmark (hlast ▸ List.mem_append_right a List.mem_cons_self)
      · cases a with
        | nil =>
          rw [List.nil_append] at hlast
          exact hmark (hlast ▸ List.mem_cons_self)
        | cons e a =>
          obtain ⟨-, rfl⟩ := List.cons.inj hlast
          exact hmore a rest rfl
  · exact hcs before b hbefore

/-- A text does not start with a lead because of a character that the lead does not have. -/
theorem after?_append_cons {mark cs : List Char} {c : Char} (hmark : c ∉ mark) (h : after? mark cs = none)
    (more : List Char) : after? mark (cs ++ c :: more) = none := by
  induction mark generalizing cs with
  | nil => exact absurd h (Option.some_ne_none cs)
  | cons d mark ih =>
    obtain ⟨hd, hrest⟩ := not_or.1 (mt List.mem_cons.2 hmark)
    cases cs with
    | nil => exact if_neg (Ne.symm hd)
    | cons e cs =>
      rw [List.cons_append, after?]
      rw [after?] at h
      split
      · next heq =>
        rw [if_pos heq] at h
        exact ih hrest h
      · rfl

/-- **Behind a character that a mark does not have** the search starts anew. -/
theorem cutAt?_append_cons {mark lead : List Char} {c : Char} (hne : mark ≠ []) (hmark : c ∉ mark)
    (h : cutAt? mark lead = none) (more : List Char) :
    cutAt? mark (lead ++ c :: more) =
      (cutAt? mark more).map fun cut => (lead ++ c :: cut.1, cut.2) := by
  induction lead with
  | nil =>
    obtain ⟨d, mark, rfl⟩ := List.exists_cons_of_ne_nil hne
    have hother : c ∉ d :: mark := hmark
    exact @cutAt?_append_of_notMem d mark [c] more fun hd =>
      hother (List.mem_singleton.1 hd ▸ List.mem_cons_self)
  | cons d lead ih =>
    rw [cutAt?] at h
    split at h
    · cases h
    · next hnone =>
      have hrest : cutAt? mark lead = none := Option.map_eq_none_iff.1 h
      rw [List.cons_append, cutAt?, ← List.cons_append, after?_append_cons hmark hnone, ih hrest,
        Option.map_map]
      rfl

/-- A character that a mark does not have, put behind a text, does not change what is found. -/
theorem cutAt?_concat {mark : List Char} {c : Char} (hmark : c ∉ mark)
    (hempty : cutAt? mark [] = none) (cs : List Char) :
    cutAt? mark (cs ++ [c]) = (cutAt? mark cs).map fun cut => (cut.1, cut.2 ++ [c]) := by
  cases hcut : cutAt? mark cs with
  | none => exact cutAt?_append_cons_eq_none hmark hcut hempty
  | some cut => exact cutAt?_append hcut [c]

/-- Whether `part` occurs in a text. -/
def contains (part cs : List Char) : Bool := (cutAt? part cs).isSome

theorem contains_eq_true_iff {part cs : List Char} :
    contains part cs = true ↔ ∃ before rest, cs = before ++ part ++ rest := by
  constructor
  · intro h
    obtain ⟨cut, hcut⟩ := Option.isSome_iff_exists.1 h
    exact ⟨cut.1, cut.2, cutAt?_eq_append hcut⟩
  · rintro ⟨before, rest, rfl⟩
    exact Option.isSome_iff_ne_none.2 (cutAt?_append_ne_none before part rest)

theorem contains_eq_false_iff {part cs : List Char} :
    contains part cs = false ↔ cutAt? part cs = none :=
  Option.isSome_eq_false_iff.trans Option.isNone_iff_eq_none

theorem contains_nil (cs : List Char) : contains [] cs = true :=
  contains_eq_true_iff.2 ⟨[], cs, rfl⟩

theorem contains_append_of_notMem {c : Char} {part lead : List Char} (h : c ∉ lead)
    (cs : List Char) : contains (c :: part) (lead ++ cs) = contains (c :: part) cs := by
  rw [contains, cutAt?_append_of_notMem h, Option.isSome_map]
  rfl

/-- **Characters that it does not have do not make something occur**, when they are put behind a
text. -/
theorem contains_append_of_forall_notMem {c : Char} {part tail : List Char}
    (h : ∀ d ∈ tail, d ∉ c :: part) (cs : List Char) :
    contains (c :: part) (cs ++ tail) = contains (c :: part) cs := by
  cases hcs : contains (c :: part) cs with
  | true =>
    obtain ⟨before, rest, rfl⟩ := contains_eq_true_iff.1 hcs
    exact contains_eq_true_iff.2 ⟨before, rest ++ tail, List.append_assoc _ _ _⟩
  | false =>
    cases tail with
    | nil => rwa [List.append_nil]
    | cons d tail =>
      obtain ⟨hd, htail⟩ := List.forall_mem_cons.1 h
      have hc : c ∉ tail := fun hmem => htail c hmem List.mem_cons_self
      have hnone : contains (c :: part) tail = false := by
        have hempty := @contains_append_of_notMem c part tail hc []
        rwa [List.append_nil] at hempty
      exact contains_eq_false_iff.2 (cutAt?_append_cons_eq_none hd
        (contains_eq_false_iff.1 hcs) (contains_eq_false_iff.1 hnone))

/-- Text that has nothing in common with a mark does not change, around another, whether the mark
occurs in it. -/
theorem contains_between {mark lead tail : List Char} (hlead : ∀ c ∈ lead, c ∉ mark)
    (htail : ∀ c ∈ tail, c ∉ mark) (cs : List Char) :
    contains mark (lead ++ cs ++ tail) = contains mark cs := by
  cases mark with
  | nil => rw [contains_nil, contains_nil]
  | cons c mark =>
    have hfirst : c ∉ lead := fun hmem => hlead c hmem List.mem_cons_self
    rw [contains_append_of_forall_notMem htail, contains_append_of_notMem hfirst]

/-- The longest lead of characters that satisfy `p`, and the rest. -/
def spanning (p : Char → Bool) (cs : List Char) : List Char × List Char :=
  (cs.takeWhile p, cs.dropWhile p)

/-- **A lead of one kind ends** where a character of another kind follows. -/
theorem spanning_append {p : Char → Bool} {lead rest : List Char} (hlead : ∀ c ∈ lead, p c = true)
    (hrest : ∀ c ∈ rest.head?, p c = false) : spanning p (lead ++ rest) = (lead, rest) := by
  rw [spanning, List.takeWhile_append_of_pos hlead, List.dropWhile_append_of_pos hlead]
  cases rest with
  | nil => rw [List.takeWhile_nil, List.dropWhile_nil, List.append_nil]
  | cons c rest =>
    have hc : ¬p c = true := Bool.eq_false_iff.1 (hrest c rfl)
    rw [List.takeWhile_cons_of_neg hc, List.dropWhile_cons_of_neg hc, List.append_nil]

/-- The pieces of a text between the characters that satisfy `p`. -/
def piecesAt (p : Char → Bool) (cs : List Char) : List (List Char) := cs.splitOnP p

/-- The text before and after the last occurrence of a character. -/
def cutAtLast? (mark : Char) : List Char → Option (List Char × List Char)
  | [] => none
  | c :: cs =>
    match cutAtLast? mark cs with
    | some (before, rest) => some (c :: before, rest)
    | none => if c = mark then some ([], cs) else none

theorem cutAtLast?_eq_none {mark : Char} {cs : List Char} (h : mark ∉ cs) :
    cutAtLast? mark cs = none := by
  induction cs with
  | nil => rfl
  | cons c cs ih =>
    obtain ⟨hne, hcs⟩ := not_or.1 (mt List.mem_cons.2 h)
    rw [cutAtLast?, ih hcs]
    exact if_neg (Ne.symm hne)

/-- **The last occurrence** is the one that has no other behind it. -/
theorem cutAtLast?_append {mark : Char} {tail : List Char} (h : mark ∉ tail) (lead : List Char) :
    cutAtLast? mark (lead ++ mark :: tail) = some (lead, tail) := by
  induction lead with
  | nil =>
    rw [List.nil_append, cutAtLast?, cutAtLast?_eq_none h]
    exact if_pos rfl
  | cons c lead ih => rw [List.cons_append, cutAtLast?, ih]

theorem notMem_of_cutAtLast?_eq_none {mark : Char} {cs : List Char}
    (h : cutAtLast? mark cs = none) : mark ∉ cs := by
  induction cs with
  | nil => exact List.not_mem_nil
  | cons c cs ih =>
    rw [cutAtLast?] at h
    split at h
    · cases h
    · next hrest =>
      intro hmem
      cases hmem with
      | head =>
        rw [if_pos rfl] at h
        cases h
      | tail _ hmem => exact ih hrest hmem

theorem cutAtLast?_eq_some_iff {mark : Char} {cs lead tail : List Char} :
    cutAtLast? mark cs = some (lead, tail) ↔ cs = lead ++ mark :: tail ∧ mark ∉ tail := by
  constructor
  · intro h
    induction cs generalizing lead with
    | nil => cases h
    | cons c cs ih =>
      rw [cutAtLast?] at h
      split at h
      · next hcut =>
        cases h
        obtain ⟨rfl, htail⟩ := ih hcut
        exact ⟨rfl, htail⟩
      · next hcut =>
        split at h
        · next heq =>
          cases h
          exact ⟨heq ▸ rfl, notMem_of_cutAtLast?_eq_none hcut⟩
        · cases h
  · rintro ⟨rfl, htail⟩
    exact cutAtLast?_append htail lead

/-- Whether `part` occurs in a text. -/
def mentions (part : String) (s : String) : Bool := contains part.toList s.toList

/-- Texts put after one another with `sep` between them. -/
def joined (sep : String) : List String → String
  | [] => ""
  | [s] => s
  | s :: rest => s ++ sep ++ joined sep rest

end Storefront.Text
