import Mathlib.Data.List.Basic
import Storefront.Condition.Basic

/-!
# Conditions read back

A condition is written in one of four forms (`Condition.Written`), and reading gives back
the condition that was written. The forms are tried one after another, so for each of them it
has to be shown that no earlier one takes what is meant for it. The two helpers begin with a
parenthesis and tell each other apart by their names. The eight operators are looked for one
after another in the whole text, and some are parts of others. What matters here is that the
operands have no character of an operator in them: an operator that occurs does so inside the
one that was written (`Text.contains_between`), and none is a part of one that comes after it
(`Condition.contains_earlier`).
-/

namespace Storefront

namespace Condition

/-! ## What conditions are written with -/

/-- **The characters of operators.** -/
def operatorChars : List Char := ['=', '<', '>', '!']

/-- **A text without characters of operators.** -/
def Unmarked (cs : List Char) : Prop := ∀ c ∈ cs, c ∉ operatorChars

instance : DecidablePred Unmarked := fun cs => List.decidableBAll _ cs

/-- **The operators that are looked for before one.** -/
def earlier (spelling : String) : List (String × Comparison) :=
  operators.takeWhile (·.1 != spelling)

/-- **A word**: a text without blanks that is not empty. -/
structure IsWord (s : String) : Prop where
  nonempty : s ≠ ""
  solid : ∀ c ∈ s.toList, Text.isBlank c = false

instance (s : String) : Decidable (IsWord s) :=
  decidable_of_iff (s ≠ "" ∧ s.toList.any Text.isBlank = false)
    ⟨fun h => ⟨h.1, fun c hc => Bool.eq_false_iff.2 (List.any_eq_false.1 h.2 c hc)⟩,
      fun h => ⟨h.nonempty, List.any_eq_false.2 fun c hc => Bool.eq_false_iff.1 (h.solid c hc)⟩⟩

/-- **An operand that no operator can be mistaken for a part of**: it is not empty, has no blanks
around it, and no characters of operators in it. -/
structure IsOperand (s : String) : Prop where
  nonempty : s ≠ ""
  trimmed : Text.trim s.toList = s.toList
  unmarked : Unmarked s.toList

/-- **The text of a helper** up to what comes behind its path, with blanks where they may be. -/
def helperText (name path : String) (inside before between rest : List Char) : List Char :=
  '(' :: (inside ++ (name.toList ++ (before ++ (path.toList ++ (between ++ rest)))))

/-- **Blanks between the parts of a helper**: some before and behind its path, and any inside the
parentheses. -/
structure HelperBlanks (inside before between behind : List Char) : Prop where
  inside : ∀ c ∈ inside, Text.isBlank c = true
  before : before ≠ [] ∧ ∀ c ∈ before, Text.isBlank c = true
  between : between ≠ [] ∧ ∀ c ∈ between, Text.isBlank c = true
  behind : ∀ c ∈ behind, Text.isBlank c = true

/-- **How a condition is written**, with any blanks where blanks may be. -/
inductive Written : Condition → List Char → Prop where
  /-- The helper `(eq path "literal")`. -/
  | hasText {path literal : String} {inside before between behind : List Char}
      (path_word : IsWord path) (no_quote : '"' ∉ literal.toList)
      (blanks : HelperBlanks inside before between behind) :
      Written (.hasText path literal)
        (helperText "eq" path inside before between
          ('"' :: (literal.toList ++ '"' :: (behind ++ [')']))))
  /-- The helper `(gt path number)`; a word that is no number leaves it without a threshold. -/
  | exceeds {path number : String} {inside before between behind : List Char}
      (path_word : IsWord path) (number_word : IsWord number)
      (blanks : HelperBlanks inside before between behind) :
      Written (.exceeds path (Double.read? number))
        (helperText "gt" path inside before between (number.toList ++ (behind ++ [')'])))
  /-- Two operands with an operator between them. -/
  | compares {left right spelling : String} {op : Comparison} {before behind : List Char}
      (operator : (spelling, op) ∈ operators) (left_operand : IsOperand left)
      (right_operand : IsOperand right) (no_helper : left.toList.head? ≠ some '(')
      (blank : ∀ c ∈ before ++ behind, Text.isBlank c = true) :
      Written (.compares left op right)
        (left.toList ++ before ++ spelling.toList ++ (behind ++ right.toList))
  /-- A path. -/
  | holds {path : String} (trimmed : Text.trim path.toList = path.toList) (unmarked : Unmarked path.toList)
      (no_helper : path.toList.head? ≠ some '(') : Written (.holds path) path.toList

/-! ## Helpers -/

theorem IsWord.toList_ne_nil {s : String} (h : IsWord s) : s.toList ≠ [] :=
  mt String.toList_eq_nil_iff.1 h.nonempty

/-- Blanks in front of a word are cut off, and nothing else. -/
theorem IsWord.trimStart_append {s : String} (h : IsWord s) {blanks : List Char}
    (hblanks : ∀ c ∈ blanks, Text.isBlank c = true) (cs : List Char) :
    Text.trimStart (blanks ++ (s.toList ++ cs)) = s.toList ++ cs := by
  rw [Text.trimStart_append_of_isBlank hblanks,
    Text.trimStart_append_of_trim (Text.trim_of_not_isBlank h.solid) h.toList_ne_nil]

/-- **A word in front of a blank** ends there. -/
theorem IsWord.spanning_append {s : String} (h : IsWord s) {blanks : List Char}
    (hblanks : blanks ≠ [] ∧ ∀ c ∈ blanks, Text.isBlank c = true) (cs : List Char) :
    Text.spanning (fun c => !Text.isBlank c) (s.toList ++ (blanks ++ cs)) = (s.toList, blanks ++ cs) := by
  refine Text.spanning_append (fun c hc => by rw [h.solid c hc]; rfl) ?_
  obtain ⟨blank, rest, rfl⟩ := List.exists_cons_of_ne_nil hblanks.1
  rintro c ⟨⟩
  rw [hblanks.2 blank List.mem_cons_self]
  rfl

/-- **A helper is read** as its path and what comes behind it. -/
theorem helper?_helperText {name path : String} {inside before between behind rest : List Char}
    (hname : IsWord name) (hpath : IsWord path) (hblanks : HelperBlanks inside before between behind)
    (hrest : Text.trimStart rest = rest) :
    helper? name (helperText name path inside before between rest) = some (path.toList, rest) := by
  have hafter : Text.after? name.toList
      (Text.trimStart (inside ++ (name.toList ++ (before ++ (path.toList ++ (between ++ rest)))))) =
        some (before ++ (path.toList ++ (between ++ rest))) := by
    rw [hname.trimStart_append hblanks.inside]
    exact Text.after?_eq_some_iff.2 rfl
  obtain ⟨blank, more, hbefore⟩ := List.exists_cons_of_ne_nil hblanks.before.1
  have hblank := hblanks.before.2
  rw [hbefore, List.forall_mem_cons] at hblank
  rw [hbefore, List.cons_append] at hafter
  have hpathempty : path.toList.isEmpty = false := List.isEmpty_eq_false_iff.2 hpath.toList_ne_nil
  have hbetween : (between ++ rest).isEmpty = false :=
    List.isEmpty_eq_false_iff.2 (List.append_ne_nil_of_left_ne_nil hblanks.between.1 rest)
  rw [helperText, helper?, hbefore, List.cons_append, hafter]
  dsimp only
  rw [if_pos hblank.1, hpath.trimStart_append hblank.2, hpath.spanning_append hblanks.between]
  dsimp only
  rw [hpathempty, hbetween, Bool.or_false, if_neg Bool.false_ne_true,
    Text.trimStart_append_of_isBlank hblanks.between.2, hrest]

/-- What does not begin with a parenthesis is no helper. -/
theorem helper?_eq_none {cs : List Char} (h : cs.head? ≠ some '(') (name : String) :
    helper? name cs = none := by
  unfold helper?
  split
  · exact absurd rfl h
  · rfl

/-- The helper for numbers has another name than the one for texts. -/
theorem readEq?_gt {inside before between behind : List Char}
    (hblanks : HelperBlanks inside before between behind) (path : String) (rest : List Char) :
    readEq? (helperText "gt" path inside before between rest) = none := by
  have hother : helper? "eq" (helperText "gt" path inside before between rest) = none := by
    rw [helperText, helper?, (by decide : IsWord "gt").trimStart_append hblanks.inside]
    rfl
  rw [readEq?, hother, Option.bind_none]

/-- A literal in quotes. -/
theorem literal?_quoted {literal behind : List Char} (hquote : '"' ∉ literal)
    (hbehind : ∀ c ∈ behind, Text.isBlank c = true) :
    literal? ('"' :: (literal ++ '"' :: (behind ++ [')']))) = some literal := by
  have hspan : Text.spanning (· != '"') (literal ++ '"' :: (behind ++ [')'])) =
      (literal, '"' :: (behind ++ [')'])) := by
    refine Text.spanning_append (fun c hc => bne_iff_ne.2 fun h => hquote (h ▸ hc)) ?_
    rintro c ⟨⟩
    rfl
  have hcloses : closes (behind ++ [')']) = true := by
    rw [closes, Text.trimStart_append_of_isBlank hbehind]
    rfl
  have hquoted : quotedWord? ('"' :: (literal ++ '"' :: (behind ++ [')']))) = some literal := by
    rw [quotedWord?, if_pos (by decide), hspan]
    dsimp only
    rw [List.drop_succ_cons, List.drop_zero, hcloses]
    rfl
  rw [literal?, hquoted]

/-- A word without quotes. -/
theorem bareWord?_word {s : String} (h : IsWord s) {behind : List Char}
    (hbehind : ∀ c ∈ behind, Text.isBlank c = true) :
    bareWord? (s.toList ++ (behind ++ [')'])) = some s.toList := by
  have hword : Text.trimEnd (s.toList ++ behind) = s.toList := by
    have hsolid := Text.trimEnd_append h.solid []
    rw [List.append_nil] at hsolid
    rw [Text.trimEnd_append_of_isBlank hbehind, hsolid, Text.trimEnd, List.foldr_nil, List.append_nil]
  have hblank : s.toList.any Text.isBlank = false := List.any_eq_false.2 fun c hc => by
    rw [h.solid c hc]
    exact Bool.false_ne_true
  have hempty : s.toList.isEmpty = false := List.isEmpty_eq_false_iff.2 h.toList_ne_nil
  rw [bareWord?, ← List.append_assoc, List.getLast?_concat, if_pos rfl, List.dropLast_concat, hword]
  dsimp only
  rw [hempty, hblank]
  rfl

/-- **The helper for texts is read back.** -/
theorem readEq?_written {path literal : String} {inside before between behind : List Char}
    (hpath : IsWord path) (hliteral : '"' ∉ literal.toList)
    (hblanks : HelperBlanks inside before between behind) :
    readEq? (helperText "eq" path inside before between
      ('"' :: (literal.toList ++ '"' :: (behind ++ [')'])))) = some (.hasText path literal) := by
  have hstart := Text.trimStart_cons_of_not_isBlank (c := '"') (by decide)
    (literal.toList ++ '"' :: (behind ++ [')']))
  rw [readEq?, helper?_helperText (by decide) hpath hblanks hstart, Option.bind_some]
  dsimp only
  rw [literal?_quoted hliteral hblanks.behind, Option.map_some, String.ofList_toList,
    String.ofList_toList]

/-- **The helper for numbers is read back.** -/
theorem readGt?_written {path number : String} {inside before between behind : List Char}
    (hpath : IsWord path) (hnumber : IsWord number)
    (hblanks : HelperBlanks inside before between behind) :
    readGt? (helperText "gt" path inside before between (number.toList ++ (behind ++ [')']))) =
      some (.exceeds path (Double.read? number)) := by
  have hstart := @IsWord.trimStart_append _ hnumber [] nofun (behind ++ [')'])
  rw [List.nil_append] at hstart
  rw [readGt?, helper?_helperText (by decide) hpath hblanks hstart, Option.bind_some]
  dsimp only
  rw [bareWord?_word hnumber hblanks.behind, Option.map_some, String.ofList_toList, Double.read?]

/-! ## Operators -/

/-- The list is cut at an operator into those that are looked for before it and after it. -/
theorem operators_eq_append :
    ∀ o ∈ operators, operators = earlier o.1 ++ o :: operators.drop ((earlier o.1).length + 1) := by
  decide

theorem earlier_subset (spelling : String) : ∀ e ∈ earlier spelling, e ∈ operators :=
  fun _ he => (List.takeWhile_prefix _).subset he

/-- An operator is written in characters of operators. -/
theorem mem_operatorChars :
    ∀ o ∈ operators, o.1.toList ≠ [] ∧ o.1.toList ⊆ operatorChars := by
  decide

/-- **No operator is a part of one that is looked for after it.** -/
theorem contains_earlier :
    ∀ o ∈ operators, ∀ e ∈ earlier o.1, Text.contains e.1.toList o.1.toList = false := by
  decide

theorem Unmarked.notMem_of_operator {cs : List Char} (h : Unmarked cs) {o : String × Comparison}
    (ho : o ∈ operators) : ∀ c ∈ cs, c ∉ o.1.toList :=
  fun c hc hmem => h c hc ((mem_operatorChars o ho).2 hmem)

theorem unmarked_of_isBlank {cs : List Char} (h : ∀ c ∈ cs, Text.isBlank c = true) : Unmarked cs := by
  have hchars : operatorChars.any Text.isBlank = false := by decide
  exact fun c hc hmem => List.any_eq_false.1 hchars c hmem (h c hc)

theorem unmarked_append {a b : List Char} : Unmarked (a ++ b) ↔ Unmarked a ∧ Unmarked b :=
  List.forall_mem_append

/-- An operator is found behind text without characters of operators. -/
theorem cutAt?_operator {o : String × Comparison} (ho : o ∈ operators) {front : List Char}
    (hfront : Unmarked front) (rest : List Char) :
    Text.cutAt? o.1.toList (front ++ o.1.toList ++ rest) = some (front, rest) := by
  obtain ⟨c, mark, hmark⟩ := List.exists_cons_of_ne_nil (mem_operatorChars o ho).1
  have hfirst : c ∉ front := fun hmem =>
    hfront.notMem_of_operator ho c hmem (hmark ▸ List.mem_cons_self)
  have hhere : Text.after? (c :: mark) (c :: (mark ++ rest)) = some rest :=
    Text.after?_eq_some_iff.2 rfl
  rw [hmark, List.append_assoc, Text.cutAt?_append_of_notMem hfirst, List.cons_append, Text.cutAt?,
    hhere, Option.map_some, List.append_nil]

/-- **A comparison is cut at an operator** when none that is looked for before it occurs. -/
theorem readComparison?_append {cs left right : List Char} {before later : List (String × Comparison)}
    {o : String × Comparison} (hnone : ∀ e ∈ before, Text.contains e.1.toList cs = false)
    (hcut : Text.cutAt? o.1.toList cs = some (left, right))
    (hleft : Text.trim left ≠ []) (hright : Text.trim right ≠ []) :
    readComparison? cs (before ++ o :: later) =
      some (.compares (String.ofList (Text.trim left)) o.2 (String.ofList (Text.trim right))) := by
  induction before with
  | nil =>
    rw [List.nil_append, readComparison?, hcut]
    dsimp only
    rw [List.isEmpty_eq_false_iff.2 hleft, List.isEmpty_eq_false_iff.2 hright]
    rfl
  | cons e before ih =>
    obtain ⟨he, hbefore⟩ := List.forall_mem_cons.1 hnone
    rw [List.cons_append, readComparison?, Text.contains_eq_false_iff.1 he]
    exact ih hbefore

/-- Without an operator there is no comparison. -/
theorem readComparison?_eq_none {cs : List Char} {os : List (String × Comparison)}
    (h : ∀ o ∈ os, Text.contains o.1.toList cs = false) : readComparison? cs os = none := by
  induction os with
  | nil => rfl
  | cons o os ih =>
    obtain ⟨ho, hos⟩ := List.forall_mem_cons.1 h
    rw [readComparison?, Text.contains_eq_false_iff.1 ho]
    exact ih hos

/-- No operator occurs in text without their characters. -/
theorem Unmarked.contains_eq_false {cs : List Char} (h : Unmarked cs) {o : String × Comparison}
    (ho : o ∈ operators) : Text.contains o.1.toList cs = false := by
  have hempty : Text.contains o.1.toList [] = false := by
    have hall : ∀ o ∈ operators, Text.contains o.1.toList [] = false := by decide
    exact hall o ho
  have hbetween := @Text.contains_between _ cs [] (h.notMem_of_operator ho) nofun []
  rwa [List.append_nil, List.append_nil, hempty] at hbetween

/-! ## Reading back -/

theorem no_helper_of_head? {cs : List Char} (h : cs.head? ≠ some '(') :
    readEq? cs = none ∧ readGt? cs = none := by
  rw [readEq?, readGt?, helper?_eq_none h, helper?_eq_none h]
  exact ⟨rfl, rfl⟩

theorem IsOperand.toList_ne_nil {s : String} (h : IsOperand s) : s.toList ≠ [] :=
  mt String.toList_eq_nil_iff.1 h.nonempty

theorem trim_helperText (name path : String) (inside before between rest : List Char) :
    Text.trim (helperText name path inside before between (rest ++ [')'])) =
      helperText name path inside before between (rest ++ [')']) := by
  have hends : helperText name path inside before between (rest ++ [')']) =
      '(' :: (inside ++ (name.toList ++ (before ++ (path.toList ++ (between ++ rest)))) ++ [')']) := by
    simp only [helperText, List.append_assoc]
  rw [hends]
  exact Text.trim_surrounded (by decide) (by decide) _

/-- A text that is written has no blanks around it. -/
theorem Written.trim_eq {c : Condition} {cs : List Char} (h : Written c cs) : Text.trim cs = cs := by
  cases h with
  | @hasText path literal inside before between behind _ _ _ =>
    have htrim := trim_helperText "eq" path inside before between ('"' :: (literal.toList ++ '"' :: behind))
    rwa [List.cons_append, List.append_assoc, List.cons_append] at htrim
  | @exceeds path number inside before between behind _ _ _ =>
    have htrim := trim_helperText "gt" path inside before between (number.toList ++ behind)
    rwa [List.append_assoc] at htrim
  | @compares _ _ spelling _ before behind _ hleft hright _ _ =>
    have htrim := fun cs => Text.trim_between hleft.trimmed hleft.toList_ne_nil hright.trimmed
      hright.toList_ne_nil (before ++ spelling.toList ++ cs)
    simp only [List.append_assoc] at htrim ⊢
    exact htrim behind
  | holds htrim _ _ => exact htrim

/-- **A comparison is cut at the operator that was written** when none that is looked for before it
occurs. -/
theorem readComparison?_whole {left spelling : String} {op : Comparison} {before behind right : List Char}
    (hop : (spelling, op) ∈ operators) (hleft : IsOperand left) (hne : right ≠ [])
    (hright : Text.trim right = right) (hblank : ∀ c ∈ before ++ behind, Text.isBlank c = true)
    (hnone : ∀ e ∈ earlier spelling, Text.contains e.1.toList
      (left.toList ++ before ++ spelling.toList ++ (behind ++ right)) = false) :
    readComparison? (left.toList ++ before ++ spelling.toList ++ (behind ++ right)) operators =
      some (.compares left op (String.ofList right)) := by
  obtain ⟨hbefore, hbehind⟩ := List.forall_mem_append.1 hblank
  have hfront : Unmarked (left.toList ++ before) :=
    unmarked_append.2 ⟨hleft.unmarked, unmarked_of_isBlank hbefore⟩
  have htrimleft : Text.trim (left.toList ++ before) = left.toList :=
    (@Text.trim_blanks [] before nofun hbefore left.toList).trans hleft.trimmed
  have htrimright : Text.trim (behind ++ right) = right := by
    have hblanks := @Text.trim_blanks behind [] hbehind nofun right
    rwa [List.append_nil, hright] at hblanks
  rw [operators_eq_append _ hop, readComparison?_append hnone (cutAt?_operator hop hfront _)
    (by rw [htrimleft]; exact hleft.toList_ne_nil) (by rwa [htrimright]), htrimleft, htrimright,
    String.ofList_toList]

/-- **A comparison is read back**: no operator occurs that is looked for before the one that was
written, as it would do so inside of that one. -/
theorem readComparison?_written {left right spelling : String} {op : Comparison} {before behind : List Char}
    (hop : (spelling, op) ∈ operators) (hleft : IsOperand left) (hright : IsOperand right)
    (hblank : ∀ c ∈ before ++ behind, Text.isBlank c = true) :
    readComparison? (left.toList ++ before ++ spelling.toList ++ (behind ++ right.toList)) operators =
      some (.compares left op right) := by
  obtain ⟨hbefore, hbehind⟩ := List.forall_mem_append.1 hblank
  have hfront : Unmarked (left.toList ++ before) :=
    unmarked_append.2 ⟨hleft.unmarked, unmarked_of_isBlank hbefore⟩
  have hback : Unmarked (behind ++ right.toList) :=
    unmarked_append.2 ⟨unmarked_of_isBlank hbehind, hright.unmarked⟩
  rw [readComparison?_whole hop hleft hright.toList_ne_nil hright.trimmed hblank ?_,
    String.ofList_toList]
  intro e he
  have hmem := earlier_subset spelling e he
  rw [Text.contains_between (hfront.notMem_of_operator hmem) (hback.notMem_of_operator hmem)]
  exact contains_earlier (spelling, op) hop e he

/-- **What is written is read back**, with blanks around it too. -/
theorem ofText_of_written {c : Condition} {cs lead tail : List Char} (h : Written c cs)
    (hlead : ∀ d ∈ lead, Text.isBlank d = true) (htail : ∀ d ∈ tail, Text.isBlank d = true) :
    ofText (String.ofList (lead ++ cs ++ tail)) = c := by
  have hcs : Text.trim (String.ofList (lead ++ cs ++ tail)).toList = cs := by
    rw [String.toList_ofList, Text.trim_blanks hlead htail, h.trim_eq]
  rw [ofText, hcs]
  cases h with
  | hasText hpath hliteral hblanks => rw [readEq?_written hpath hliteral hblanks]
  | exceeds hpath hnumber hblanks =>
    rw [readEq?_gt hblanks, readGt?_written hpath hnumber hblanks]
  | @compares left right spelling _ before behind hop hleft hright hhead hblank =>
    have hstart : (left.toList ++ before ++ spelling.toList ++ (behind ++ right.toList)).head? ≠
        some '(' := by
      rwa [List.append_assoc, List.append_assoc, List.head?_append_of_ne_nil _ hleft.toList_ne_nil]
    obtain ⟨heq, hgt⟩ := no_helper_of_head? hstart
    rw [heq, hgt, readComparison?_written hop hleft hright hblank]
  | holds _ hunmarked hhead =>
    obtain ⟨heq, hgt⟩ := no_helper_of_head? hhead
    rw [heq, hgt, readComparison?_eq_none fun o ho => hunmarked.contains_eq_false ho,
      String.ofList_toList]

/-- A literal that is a parenthesis between blanks, with blanks around the helper. -/
theorem ofText_of_written_parenthesis :
    Written (.hasText "user.name" " ( ") "( eq user.name  \" ( \")".toList ∧
      ofText "\t( eq user.name  \" ( \")\n" = .hasText "user.name" " ( " := by
  have hblank : ∀ c ∈ [' '], Text.isBlank c = true := List.all_eq_true.1 (by decide)
  have hblanks : HelperBlanks [' '] [' '] [' ', ' '] [] :=
    ⟨hblank, ⟨nofun, hblank⟩, ⟨nofun, List.forall_mem_cons.2 ⟨rfl, hblank⟩⟩, nofun⟩
  have hwritten : Written (.hasText "user.name" " ( ") "( eq user.name  \" ( \")".toList :=
    @Written.hasText "user.name" " ( " _ _ _ _ (by decide) (by decide) hblanks
  have hread := @ofText_of_written _ _ ['\t'] ['\n'] hwritten (List.forall_mem_singleton.2 rfl)
    (List.forall_mem_singleton.2 rfl)
  exact ⟨hwritten, hread⟩

end Condition

end Storefront
