/-!
# Blank characters and trimming

What counts as blank is Unicode's property `White_Space`: 25 characters, among
them the no-break space and the line separator, but not the zero-width space.
Texts are walked as lists of characters; each operation has a form on `String`.
-/

namespace Storefront.Text

/-- **A blank character**: one with the Unicode property `White_Space`. -/
def isBlank (c : Char) : Bool :=
  let n := c.toNat
  (9 ≤ n && n ≤ 13) || n == 32 || n == 0x85 || n == 0xA0 || n == 0x1680 ||
    (0x2000 ≤ n && n ≤ 0x200A) || n == 0x2028 || n == 0x2029 || n == 0x202F ||
    n == 0x205F || n == 0x3000

/-- Whether every character is blank. -/
def allBlank (cs : List Char) : Bool := cs.all isBlank

/-- The text from its first character that is not blank. -/
def trimStart (cs : List Char) : List Char := cs.dropWhile isBlank

/-- The text up to its last character that is not blank. -/
def trimEnd (cs : List Char) : List Char :=
  cs.foldr (fun c rest => if rest.isEmpty && isBlank c then [] else c :: rest) []

/-- The text without blanks at either end. -/
def trim (cs : List Char) : List Char := trimEnd (trimStart cs)

theorem trimEnd_cons (c : Char) (cs : List Char) :
    trimEnd (c :: cs) = if (trimEnd cs).isEmpty && isBlank c then [] else c :: trimEnd cs := rfl

theorem trimEnd_sublist (cs : List Char) : (trimEnd cs).Sublist cs := by
  induction cs with
  | nil => exact List.Sublist.refl _
  | cons c cs ih =>
    rw [trimEnd_cons]
    split
    · exact List.nil_sublist _
    · exact ih.cons_cons c

/-- Nothing but blanks is cut off in front of a character that is no blank. -/
theorem trimStart_cons_of_not_isBlank {c : Char} (h : isBlank c = false) (cs : List Char) :
    trimStart (c :: cs) = c :: cs :=
  List.dropWhile_cons_of_neg (by rw [h]; exact Bool.false_ne_true)

theorem trimStart_cons_of_isBlank {c : Char} (h : isBlank c = true) (cs : List Char) :
    trimStart (c :: cs) = trimStart cs :=
  List.dropWhile_cons_of_pos h

/-- Text that begins with characters that are no blanks keeps them. -/
theorem trimEnd_append {lead : List Char} (h : ∀ c ∈ lead, isBlank c = false) (cs : List Char) :
    trimEnd (lead ++ cs) = lead ++ trimEnd cs := by
  induction lead with
  | nil => rfl
  | cons c lead ih =>
    obtain ⟨hc, hlead⟩ := List.forall_mem_cons.1 h
    rw [List.cons_append, trimEnd_cons, hc, Bool.and_false, ih hlead]
    rfl

/-- A text without blanks is left as it is. -/
theorem trim_of_not_isBlank {cs : List Char} (h : ∀ c ∈ cs, isBlank c = false) : trim cs = cs := by
  have hend : trimEnd cs = cs := by
    have happ := trimEnd_append h []
    rwa [List.append_nil, show trimEnd [] = [] from rfl, List.append_nil] at happ
  cases cs with
  | nil => rfl
  | cons c cs => rw [trim, trimStart_cons_of_not_isBlank (h c List.mem_cons_self), hend]

theorem trimEnd_concat_of_not_isBlank {c : Char} (h : isBlank c = false) (cs : List Char) :
    trimEnd (cs ++ [c]) = cs ++ [c] := by
  induction cs with
  | nil => rw [List.nil_append, trimEnd_cons, h, Bool.and_false]; rfl
  | cons d cs ih =>
    rw [List.cons_append, trimEnd_cons, ih, List.isEmpty_eq_false_iff.2 (by simp), Bool.false_and]
    rfl

/-- **A text between two characters that are no blanks** is left as it is. -/
theorem trim_surrounded {c d : Char} (hc : isBlank c = false) (hd : isBlank d = false)
    (cs : List Char) : trim (c :: (cs ++ [d])) = c :: (cs ++ [d]) := by
  rw [trim, trimStart_cons_of_not_isBlank hc, ← List.cons_append, trimEnd_concat_of_not_isBlank hd]

theorem trimEnd_eq_nil_iff {cs : List Char} : trimEnd cs = [] ↔ ∀ c ∈ cs, isBlank c = true := by
  induction cs with
  | nil => simp [trimEnd]
  | cons c cs ih =>
    rw [trimEnd_cons, List.forall_mem_cons, ← ih]
    cases hc : isBlank c <;> simp

/-- A text is cut off at its end where the last part of it is not all blank. -/
theorem trimEnd_append_of_ne_nil {cs : List Char} (h : trimEnd cs ≠ []) (lead : List Char) :
    trimEnd (lead ++ cs) = lead ++ trimEnd cs := by
  induction lead with
  | nil => rfl
  | cons c lead ih =>
    rw [List.cons_append, trimEnd_cons, ih, if_neg (by simp [h])]
    rfl

theorem trimEnd_append_of_isBlank {blanks : List Char} (h : ∀ c ∈ blanks, isBlank c = true)
    (cs : List Char) : trimEnd (cs ++ blanks) = trimEnd cs := by
  induction cs with
  | nil => exact trimEnd_eq_nil_iff.2 h
  | cons c cs ih => rw [List.cons_append, trimEnd_cons, trimEnd_cons, ih]

/-- What is left does not end in a blank. -/
theorem not_isBlank_of_mem_getLast?_trimEnd {c : Char} {cs : List Char}
    (h : c ∈ (trimEnd cs).getLast?) : isBlank c = false := by
  induction cs with
  | nil => exact absurd h (by simp [trimEnd])
  | cons d cs ih =>
    rw [trimEnd_cons] at h
    split at h
    · exact absurd h (by simp)
    · next hstays =>
      rw [List.getLast?_cons] at h
      cases hend : trimEnd cs with
      | nil =>
        rw [hend] at h hstays
        obtain rfl : d = c := by simpa using h
        simpa using hstays
      | cons e rest =>
        refine ih ?_
        rw [hend] at h ⊢
        rw [List.getLast?_cons] at h ⊢
        exact h

/-- A text that does not end in a blank is left as it is. -/
theorem trimEnd_eq_self {cs : List Char} (h : ∀ c ∈ cs.getLast?, isBlank c = false) :
    trimEnd cs = cs := by
  obtain rfl | ⟨lead, c, rfl⟩ := cs.eq_nil_or_concat
  · rfl
  · rw [List.concat_eq_append] at h ⊢
    exact trimEnd_concat_of_not_isBlank (h c (by simp)) lead

theorem trimEnd_trimEnd (cs : List Char) : trimEnd (trimEnd cs) = trimEnd cs := by
  induction cs with
  | nil => rfl
  | cons c cs ih =>
    rw [trimEnd_cons]
    split
    · rfl
    · rename_i h
      rw [trimEnd_cons, ih, if_neg h]

/-- The two ends of a text are cut off independently. -/
theorem trimStart_trimEnd (cs : List Char) : trimStart (trimEnd cs) = trimEnd (trimStart cs) := by
  induction cs with
  | nil => rfl
  | cons c cs ih =>
    cases hc : isBlank c with
    | false =>
      rw [trimStart_cons_of_not_isBlank hc, trimEnd_cons, hc, Bool.and_false]
      exact trimStart_cons_of_not_isBlank hc _
    | true =>
      rw [trimStart_cons_of_isBlank hc, ← ih, trimEnd_cons, hc, Bool.and_true]
      split
      · rename_i hempty
        rw [List.isEmpty_iff.1 hempty]
      · exact trimStart_cons_of_isBlank hc _

theorem trim_trimEnd (cs : List Char) : trim (trimEnd cs) = trim cs := by
  rw [trim, trim, trimStart_trimEnd, trimEnd_trimEnd]

theorem trimStart_append_of_isBlank {lead : List Char} (h : ∀ c ∈ lead, isBlank c = true)
    (cs : List Char) : trimStart (lead ++ cs) = trimStart cs :=
  List.dropWhile_append_of_pos h

/-- **Blanks around a text are cut off.** -/
theorem trim_blanks {lead tail : List Char} (hlead : ∀ c ∈ lead, isBlank c = true)
    (htail : ∀ c ∈ tail, isBlank c = true) (cs : List Char) : trim (lead ++ cs ++ tail) = trim cs := by
  rw [trim, ← trimStart_trimEnd, trimEnd_append_of_isBlank htail, trimStart_trimEnd,
    trimStart_append_of_isBlank hlead]
  rfl

/-- Nothing is cut off in front of a text that has no blanks at its ends. -/
theorem trimStart_append_of_trim {lead : List Char} (h : trim lead = lead) (hne : lead ≠ [])
    (cs : List Char) : trimStart (lead ++ cs) = lead ++ cs := by
  obtain ⟨c, rest, rfl⟩ := List.exists_cons_of_ne_nil hne
  cases hc : isBlank c with
  | false => exact trimStart_cons_of_not_isBlank hc _
  | true =>
    have hshort : (trim (c :: rest)).length ≤ rest.length := by
      rw [trim, trimStart_cons_of_isBlank hc]
      exact ((trimEnd_sublist _).trans (List.dropWhile_sublist _)).length_le
    rw [h] at hshort
    exact absurd hshort (Nat.not_succ_le_self _)

/-- Nor is it behind one. -/
theorem trimEnd_append_of_trim {tail : List Char} (h : trim tail = tail) (hne : tail ≠ [])
    (cs : List Char) : trimEnd (cs ++ tail) = cs ++ tail := by
  have hend : trimEnd tail = tail := by
    rw [← h, trim, trimEnd_trimEnd]
  rw [trimEnd_append_of_ne_nil (by rwa [hend]), hend]

/-- **A text between two others** that have no blanks at their ends is left as it is. -/
theorem trim_between {lead tail : List Char} (hlead : trim lead = lead) (hne : lead ≠ [])
    (htail : trim tail = tail) (hne' : tail ≠ []) (cs : List Char) :
    trim (lead ++ cs ++ tail) = lead ++ cs ++ tail := by
  rw [trim, List.append_assoc, trimStart_append_of_trim hlead hne, ← List.append_assoc,
    trimEnd_append_of_trim htail hne']

theorem exists_append_trimEnd (cs : List Char) :
    ∃ tail, cs = trimEnd cs ++ tail ∧ ∀ c ∈ tail, isBlank c = true := by
  induction cs with
  | nil => exact ⟨[], rfl, nofun⟩
  | cons c cs ih =>
    obtain ⟨tail, hcs, htail⟩ := ih
    rw [trimEnd_cons]
    split
    · next h =>
      obtain ⟨hempty, hc⟩ := (Bool.and_eq_true _ _).mp h
      rw [List.isEmpty_iff.1 hempty, List.nil_append] at hcs
      exact ⟨c :: cs, rfl, List.forall_mem_cons.2 ⟨hc, hcs ▸ htail⟩⟩
    · exact ⟨tail, congrArg (c :: ·) hcs, htail⟩

/-- **Only blanks are cut off.** -/
theorem exists_append_trim (cs : List Char) :
    ∃ lead tail, cs = lead ++ trim cs ++ tail ∧ (∀ c ∈ lead, isBlank c = true) ∧
      ∀ c ∈ tail, isBlank c = true := by
  obtain ⟨tail, hstart, htail⟩ := exists_append_trimEnd (trimStart cs)
  refine ⟨cs.takeWhile isBlank, tail, ?_, List.all_eq_true.1 List.all_takeWhile, htail⟩
  rw [List.append_assoc, trim, ← hstart]
  exact List.takeWhile_append_dropWhile.symm

/-- A character that is no blank is not cut off. -/
theorem mem_trim {c : Char} {cs : List Char} (hmem : c ∈ cs) (hc : isBlank c = false) : c ∈ trim cs := by
  obtain ⟨lead, tail, hcs, hlead, htail⟩ := exists_append_trim cs
  have hkept : ∀ blanks : List Char, (∀ d ∈ blanks, isBlank d = true) → c ∉ blanks :=
    fun _ hblanks hin => Bool.false_ne_true (hc.symm.trans (hblanks c hin))
  have hparts : c ∈ lead ++ trim cs ++ tail := hcs ▸ hmem
  obtain hin | hin := List.mem_append.1 hparts
  · exact (List.mem_append.1 hin).resolve_left (hkept lead hlead)
  · exact absurd hin (hkept tail htail)

/-- A text without blanks at either end. -/
def trimmed (s : String) : String := String.ofList (trim s.toList)

theorem trim_of_trimmed {s : String} (h : trimmed s = s) : trim s.toList = s.toList := by
  rw [← String.toList_ofList (l := trim s.toList)]
  exact congrArg String.toList h

/-- Whether a text is empty or only blanks. -/
def isBlankText (s : String) : Bool := allBlank s.toList

/-- Nothing is left of a blank text alone. -/
theorem trim_eq_nil_iff {s : String} : trim s.toList = [] ↔ isBlankText s = true := by
  rw [isBlankText, allBlank, List.all_eq_true]
  constructor
  · intro h c hc
    cases hblank : isBlank c with
    | true => rfl
    | false => exact absurd (h ▸ mem_trim hc hblank) List.not_mem_nil
  · intro h
    have hblanks := trim_blanks h (List.forall_mem_nil _) []
    rwa [List.append_nil, List.append_nil] at hblanks

end Storefront.Text
