import Storefront.Proofs.Comparing
import Storefront.Proofs.Quoting

/-!
# Helpers and operators

Two of the comparisons have a helper of their own: `(gt path number)` beside
`path > number`, and `(eq path "text")` beside `path == "text"`. A helper looks up its
path and reads what is there as a number or as a text. An operator first reads both of
its operands, either of which may be anything, and then chooses how to compare them.
With a number on the right the values come to the same (`Value.compares_greater`), and
with a text too (`Value.looselyEquals_str`), as long as it is not empty, since null has
the empty text, and no number, since numbers are compared as such.

Before that, the operator has to be found where it was written. The text of a finite
number has no characters of operators in it (`Double.isOperand_of_read?`).
-/

namespace Storefront

/-! ## The texts of numbers -/

/-- The characters besides digits that decimals are written with. -/
def decimalMarks : List Char := ['.', 'e', 'E', '+', '-']

/-- **A character that decimals are written with.** -/
def IsDecimalChar (c : Char) : Prop := c.isDigit = true ∨ c ∈ decimalMarks

theorem IsDecimalChar.not_isBlank {c : Char} (h : IsDecimalChar c) : Text.isBlank c = false := by
  have hmarks : decimalMarks.any Text.isBlank = false := by decide
  obtain hdigit | hmem := h
  · exact Text.not_isBlank_of_isDigit hdigit
  · exact Bool.eq_false_iff.2 (List.any_eq_false.1 hmarks c hmem)

theorem IsDecimalChar.notMem_operatorChars {c : Char} (h : IsDecimalChar c) :
    c ∉ Condition.operatorChars := by
  have hoperators : Condition.operatorChars.any (fun c => c.isDigit || decimalMarks.contains c) =
      false := by decide
  intro hmem
  have hneither := List.any_eq_false.1 hoperators c hmem
  rw [Bool.or_eq_true, List.contains_iff_mem] at hneither
  exact hneither h

/-- Digits in front do not matter. -/
theorem isDecimalChar_of_dropWhile {cs : List Char}
    (h : ∀ c ∈ cs.dropWhile Char.isDigit, IsDecimalChar c) : ∀ c ∈ cs, IsDecimalChar c := by
  intro c hc
  rw [← @List.takeWhile_append_dropWhile _ Char.isDigit cs, List.mem_append] at hc
  exact hc.elim (fun hlead => .inl (List.all_eq_true.1 List.all_takeWhile c hlead)) (h c)

theorem isDecimalChar_of_readExponent? {cs : List Char} {e : Int} (h : readExponent? cs = some e) :
    ∀ c ∈ cs, IsDecimalChar c := by
  have hdigits : ∀ {ds : List Char} {i : Int},
      (if (!ds.isEmpty && ds.all Char.isDigit) = true then some i else none) = some e →
        ∀ c ∈ ds, IsDecimalChar c := by
    intro ds i hds c hc
    split at hds
    · next hall => exact .inl (List.all_eq_true.1 ((Bool.and_eq_true _ _).mp hall).2 c hc)
    · cases hds
  unfold readExponent? at h
  split at h
  · nofun
  · next letter rest =>
    split at h
    · next hletter =>
      have hfirst : IsDecimalChar letter := by
        rw [Bool.or_eq_true, decide_eq_true_iff, decide_eq_true_iff] at hletter
        obtain rfl | rfl := hletter
        · exact .inr (by decide)
        · exact .inr (by decide)
      refine List.forall_mem_cons.2 ⟨hfirst, ?_⟩
      dsimp only at h
      split at h
      · exact List.forall_mem_cons.2 ⟨.inr (by decide), hdigits h⟩
      · exact List.forall_mem_cons.2 ⟨.inr (by decide), hdigits h⟩
      · exact hdigits h
    · cases h

theorem isDecimalChar_of_readDecimal? {cs : List Char} {d : Decimal} (h : readDecimal? cs = some d) :
    ∀ c ∈ cs, IsDecimalChar c := by
  refine isDecimalChar_of_dropWhile ?_
  unfold readDecimal? at h
  dsimp only at h
  split at h
  · next rest hpoint =>
    split at h
    · cases h
    · obtain ⟨e, he, -⟩ := Option.map_eq_some_iff.1 h
      rw [hpoint]
      exact List.forall_mem_cons.2 ⟨.inr List.mem_cons_self,
        isDecimalChar_of_dropWhile (isDecimalChar_of_readExponent? he)⟩
  · split at h
    · cases h
    · obtain ⟨e, he, -⟩ := Option.map_eq_some_iff.1 h
      exact isDecimalChar_of_readExponent? he

namespace Double

/-- A finite number is read from a decimal, as the words stand for the others. -/
theorem isDecimalChar_of_readUnsigned? {negative : Bool} {cs : List Char} {x : Double}
    (h : readUnsigned? negative cs = some x) (hx : x.isFinite = true) :
    ∀ c ∈ cs, IsDecimalChar c := by
  unfold readUnsigned? at h
  dsimp only at h
  split at h
  · cases h
    cases hx
  · split at h
    · cases h
      cases hx
    · obtain ⟨d, hd, -⟩ := Option.map_eq_some_iff.1 h
      exact isDecimalChar_of_readDecimal? hd

theorem isDecimalChar_of_readChars? {cs : List Char} {x : Double} (h : readChars? cs = some x)
    (hx : x.isFinite = true) : ∀ c ∈ cs, IsDecimalChar c := by
  unfold readChars? at h
  split at h
  · exact List.forall_mem_cons.2 ⟨.inr (by decide), isDecimalChar_of_readUnsigned? h hx⟩
  · exact List.forall_mem_cons.2 ⟨.inr (by decide), isDecimalChar_of_readUnsigned? h hx⟩
  · exact isDecimalChar_of_readUnsigned? h hx

variable {number : String} {x : Double} (h : read? number = some x) (hx : x.isFinite = true)
include h hx

/-- **The text of a finite number is a word**, as a helper takes it. -/
theorem isWord_of_read? : Condition.IsWord number where
  nonempty := by
    rintro rfl
    cases h
  solid c hc := (isDecimalChar_of_readChars? h hx c hc).not_isBlank

/-- **The text of a finite number is an operand** that no operator can be mistaken for a part of. -/
theorem isOperand_of_read? : Condition.IsOperand number where
  nonempty := (isWord_of_read? h hx).nonempty
  trimmed := Text.trim_of_not_isBlank (isWord_of_read? h hx).solid
  unmarked c hc := (isDecimalChar_of_readChars? h hx c hc).notMem_operatorChars

end Double

/-! ## Comparing with a number and with a text -/

namespace Value

/-- **What is greater than a number** is a number, and a greater one. -/
theorem compares_greater (v : Value) {x : Double} (hx : x.isFinite = true) :
    v.compares .greater (.ofDouble x) = v.number?.any (x.less ·) := by
  have hnumber := PriceRange.number?_ofDouble hx
  cases hv : v.number? with
  | none =>
    have hincomparable : ¬Comparable v (.ofDouble x) := by
      rintro (⟨y, z, hy, -⟩ | ⟨s, t, -, ht⟩)
      · exact Option.some_ne_none y (hy.symm.trans hv)
      · rw [ofDouble, if_pos hx] at ht
        cases ht
    exact compares_of_no_order (looseOrder?_eq_none hincomparable) .greater (by simp)
  | some y =>
    rw [compares, looseOrder?_numbers hv hnumber, Option.any_some, Double.less, Double.compare?_swap]
    cases x.compare? y with
    | none => rfl
    | some o => cases o <;> rfl

/-- **What equals a text that is neither empty nor a number** has that text. -/
theorem looselyEquals_str (v : Value) {s : String} (hne : s ≠ "")
    (hs : (Value.str s).number? = none) : v.looselyEquals (.str s) = v.scalarText?.any (· == s) := by
  cases hv : v.isNull with
  | true =>
    obtain rfl : v = .null := by
      cases v with
      | null => rfl
      | _ => cases hv
    rw [(looselyEquals_null (.str s)).1]
    exact (beq_eq_false_iff_ne.2 (Ne.symm hne)).symm
  | false =>
    cases htext : v.scalarText? with
    | some t => exact looselyEquals_texts hv rfl (.inr hs) htext rfl
    | none =>
      have hnumber : v.number? = none := by
        cases v with
        | arr | obj => rfl
        | null | bool | str => cases htext
        | num n => cases n <;> cases htext
      have hother : (Value.str s).scalarText? ≠ none := Option.some_ne_none s
      rw [looselyEquals_structures hv rfl (.inl ⟨hnumber, htext⟩), (same_eq_false htext hother).1]
      rfl

end Value

/-! ## Reading -/

namespace Condition

/-- **A path as conditions have it**: a word without quotes and operators, which is not taken for a
helper, for a number or for one of the words that stand for themselves. -/
structure IsPath (path : String) : Prop where
  word : IsWord path
  unmarked : Unmarked path.toList
  unquoted : '"' ∉ path.toList ∧ '\'' ∉ path.toList
  no_helper : path.toList.head? ≠ some '('
  no_number : Double.read? path = none
  no_constant : path ∉ ["true", "false", "null"]

/-- A path is an operand, and stands for what is found there. -/
theorem IsPath.isOperand {path : String} (h : IsPath path) : IsOperand path where
  nonempty := h.word.nonempty
  trimmed := Text.trim_of_not_isBlank h.word.solid
  unmarked := h.unmarked

theorem IsPath.operand_eq {path : String} (h : IsPath path) (ctx : Context) :
    operand path ctx = (ctx.resolve path).getD .null :=
  operand_path h.no_number h.unquoted h.no_constant ctx

section Reading

variable {path literal number left right spelling : String} {op : Comparison}
  {inside before between behind front back : List Char}

/-- The helper for texts. -/
theorem ofText_eqHelper (hpath : IsWord path) (hliteral : '"' ∉ literal.toList)
    (hblanks : HelperBlanks inside before between behind) :
    ofText (String.ofList (helperText "eq" path inside before between
      ('"' :: (literal.toList ++ '"' :: (behind ++ [')']))))) = .hasText path literal := by
  have htrim := (Written.hasText hpath hliteral hblanks).trim_eq
  rw [ofText, String.toList_ofList, htrim, readEq?_written hpath hliteral hblanks]

/-- The helper for numbers. -/
theorem ofText_gtHelper (hpath : IsWord path) (hnumber : IsWord number)
    (hblanks : HelperBlanks inside before between behind) :
    ofText (String.ofList (helperText "gt" path inside before between
      (number.toList ++ (behind ++ [')'])))) = .exceeds path (Double.read? number) := by
  have htrim := (Written.exceeds hpath hnumber hblanks).trim_eq
  rw [ofText, String.toList_ofList, htrim, readEq?_gt hblanks,
    readGt?_written hpath hnumber hblanks]

theorem eval_exceeds (path : String) (threshold : Option Double) (ctx : Context) :
    (exceeds path threshold).eval ctx =
      threshold.any fun x => ((ctx.resolve path).bind Value.number?).any (x.less ·) := by
  unfold eval
  dsimp only
  cases (ctx.resolve path).bind Value.number? <;> cases threshold <;> rfl

/-- An operator between two operands. -/
theorem ofText_operator (hop : (spelling, op) ∈ operators) (hleft : IsOperand left)
    (hright : IsOperand right) (hhead : left.toList.head? ≠ some '(')
    (hblank : ∀ c ∈ front ++ back, Text.isBlank c = true) :
    ofText (String.ofList (left.toList ++ front ++ spelling.toList ++ (back ++ right.toList))) =
      .compares left op right := by
  have htrim := (Written.compares hop hleft hright hhead hblank).trim_eq
  have hstart : (left.toList ++ front ++ spelling.toList ++ (back ++ right.toList)).head? ≠
      some '(' := by
    rwa [List.append_assoc, List.append_assoc, List.head?_append_of_ne_nil _ hleft.toList_ne_nil]
  obtain ⟨heq, hgt⟩ := no_helper_of_head? hstart
  rw [ofText, String.toList_ofList, htrim, heq, hgt,
    readComparison?_written hop hleft hright hblank]

/-- An operator between a path and a literal in quotes that has no operators in it. -/
theorem ofText_unmarkedLiteral (hpath : IsPath path) (hop : (spelling, op) ∈ operators)
    (hliteral : '"' ∉ literal.toList) (hunmarked : Unmarked literal.toList)
    (hblank : ∀ c ∈ front ++ back, Text.isBlank c = true) :
    ofText (String.ofList (withLiteral path spelling '"' literal front back)) =
      .compares path op (String.ofList (inQuotes '"' literal.toList)) := by
  have hcompares : ComparesLiteral path spelling op '"' literal :=
    ⟨hop, hpath.isOperand, hpath.unquoted, .inl rfl, hliteral⟩
  have hwhole : splitting? spelling literal = none := List.find?_eq_none.2 fun e he =>
    Bool.eq_false_iff.1 (hunmarked.contains_eq_false (earlier_subset spelling e he))
  have hread := @ofText_withLiteral _ _ _ _ _ _ _ hcompares [] [] nofun nofun _
    (readComparison?_literal hcompares hblank hwhole)
  rwa [List.nil_append, List.append_nil] at hread

end Reading

/-! ## Helpers beside operators -/

section Evaluation

variable {path number s : String} {x : Double}
  {inside before between behind front back : List Char}

/-- **The helper for numbers** holds where there is a greater number. -/
theorem satisfies_gtHelper (hpath : IsWord path) (hread : Double.read? number = some x)
    (hx : x.isFinite = true) (hblanks : HelperBlanks inside before between behind)
    (ctx : Context) :
    ctx.satisfies (String.ofList (helperText "gt" path inside before between
      (number.toList ++ (behind ++ [')'])))) =
        ((ctx.resolve path).bind Value.number?).any (x.less ·) := by
  rw [Context.satisfies, ofText_gtHelper hpath (Double.isWord_of_read? hread hx) hblanks,
    eval_exceeds, hread, Option.any_some]

/-- **So does the operator.** -/
theorem satisfies_greater (hpath : IsPath path) (hread : Double.read? number = some x)
    (hx : x.isFinite = true) (hblank : ∀ c ∈ front ++ back, Text.isBlank c = true)
    (ctx : Context) :
    ctx.satisfies (String.ofList (path.toList ++ front ++ ">".toList ++ (back ++ number.toList))) =
      ((ctx.resolve path).bind Value.number?).any (x.less ·) := by
  have hnumber : operand number ctx = .ofDouble x := by
    rw [operand, hread]
  have hgreater : (">", Comparison.greater) ∈ operators := by decide
  rw [Context.satisfies, ofText_operator hgreater hpath.isOperand
    (Double.isOperand_of_read? hread hx) hpath.no_helper hblank, eval, hpath.operand_eq, hnumber,
    Value.compares_greater _ hx]
  cases ctx.resolve path <;> rfl

/-- **The helper for texts** holds where there is that text. -/
theorem satisfies_eqHelper (hpath : IsWord path) (hquote : '"' ∉ s.toList)
    (hblanks : HelperBlanks inside before between behind) (ctx : Context) :
    ctx.satisfies (String.ofList (helperText "eq" path inside before between
      ('"' :: (s.toList ++ '"' :: (behind ++ [')']))))) =
        ((ctx.resolve path).bind Value.scalarText?).any (· == s) := by
  rw [Context.satisfies, ofText_eqHelper hpath hquote hblanks, eval]

/-- **So does the operator**, if the text is neither empty nor a number. -/
theorem satisfies_equal (hpath : IsPath path) (hne : s ≠ "") (hs : (Value.str s).number? = none)
    (hquote : '"' ∉ s.toList) (hunmarked : Unmarked s.toList)
    (hblank : ∀ c ∈ front ++ back, Text.isBlank c = true) (ctx : Context) :
    ctx.satisfies (String.ofList
      (path.toList ++ front ++ "==".toList ++ (back ++ '"' :: (s.toList ++ ['"'])))) =
        ((ctx.resolve path).bind Value.scalarText?).any (· == s) := by
  have hequal : ("==", Comparison.equal) ∈ operators := by decide
  show ctx.satisfies (String.ofList (withLiteral path "==" '"' s front back)) = _
  rw [Context.satisfies, ofText_unmarkedLiteral hpath hequal hquote hunmarked hblank, eval,
    hpath.operand_eq, operand_inQuotes (.inl rfl), Value.compares, Value.looselyEquals_str _ hne hs]
  cases ctx.resolve path with
  | none => exact beq_eq_false_iff_ne.2 (Ne.symm hne)
  | some v => rfl

end Evaluation

/-- **A helper and its operator say the same**, whatever is found at the path, and whatever blanks they
are written with. With a finite number, both hold exactly when there is a number at the path, or the
text of one, that is greater. With a text that is neither empty nor a number, and without quotes and
operators, both hold exactly when there is a scalar at the path that has this text. -/
theorem helper_eq_operator {path : String} (hpath : IsPath path)
    {inside before between behind front back : List Char}
    (hblanks : HelperBlanks inside before between behind)
    (hblank : ∀ c ∈ front ++ back, Text.isBlank c = true) (ctx : Context) :
    (∀ {number : String} {x : Double}, Double.read? number = some x → x.isFinite = true →
      let helper := helperText "gt" path inside before between (number.toList ++ (behind ++ [')']))
      let operator := path.toList ++ front ++ ">".toList ++ (back ++ number.toList)
      ctx.satisfies (String.ofList helper) = ctx.satisfies (String.ofList operator) ∧
        ctx.satisfies (String.ofList operator) =
          ((ctx.resolve path).bind Value.number?).any (x.less ·)) ∧
    ∀ {s : String}, s ≠ "" → (Value.str s).number? = none → '"' ∉ s.toList → Unmarked s.toList →
      let helper := helperText "eq" path inside before between
        ('"' :: (s.toList ++ '"' :: (behind ++ [')'])))
      let operator := path.toList ++ front ++ "==".toList ++ (back ++ '"' :: (s.toList ++ ['"']))
      ctx.satisfies (String.ofList helper) = ctx.satisfies (String.ofList operator) ∧
        ctx.satisfies (String.ofList operator) =
          ((ctx.resolve path).bind Value.scalarText?).any (· == s) := by
  refine ⟨fun hread hx => ?_, fun hne hs hquote hunmarked => ?_⟩
  · have hoperator := satisfies_greater hpath hread hx hblank ctx
    exact ⟨(satisfies_gtHelper hpath.word hread hx hblanks ctx).trans hoperator.symm, hoperator⟩
  · have hoperator := satisfies_equal hpath hne hs hquote hunmarked hblank ctx
    exact ⟨(satisfies_eqHelper hpath.word hquote hblanks ctx).trans hoperator.symm, hoperator⟩

/-- A price that is a text, with blanks around it, as a number and as a text. -/
theorem helper_eq_operator_price :
    let ctx := Context.ofLayers [] [("product", .obj [("price", .str " 3.50 ")])]
    IsPath "product.price" ∧ Double.read? "2e0" = some (Double.ofNat 2) ∧
      ctx.satisfies "(gt product.price 2e0)" = ctx.satisfies "product.price > 2e0" ∧
      ctx.satisfies "product.price > 2e0" = true ∧
      ctx.satisfies "(eq product.price \"2 for 1\")" = ctx.satisfies "product.price == \"2 for 1\"" := by
  intro ctx
  have hpath : IsPath "product.price" :=
    ⟨by decide, by decide, by decide, by decide, by decide, by decide⟩
  have hblank : ∀ c ∈ [' '], Text.isBlank c = true := List.forall_mem_singleton.2 rfl
  have hblanks : HelperBlanks [] [' '] [' '] [] :=
    ⟨nofun, ⟨nofun, hblank⟩, ⟨nofun, hblank⟩, nofun⟩
  have hread : Double.read? "2e0" = some (Double.ofNat 2) := by decide +kernel
  obtain ⟨hnumbers, htexts⟩ := @helper_eq_operator _ hpath _ _ _ _ [' '] [' '] hblanks
    (List.forall_mem_cons.2 ⟨rfl, hblank⟩) ctx
  obtain ⟨hgt, hgreater⟩ := hnumbers hread (by decide +kernel)
  obtain ⟨heq, -⟩ := @htexts "2 for 1" (by decide) (by decide) (by decide) (by decide)
  exact ⟨hpath, hread, hgt, hgreater.trans (by decide +kernel), heq⟩

end Condition

end Storefront
