import Storefront.Condition.Evaluate
import Storefront.Proofs.Spelling

/-!
# Literals in quotes

A comparison may have a literal in quotes on its right. The operators are looked for in the
whole text and not only in front of the literal, so the literal stays whole when its content
has no operator in it that is looked for before the one that is meant
(`Condition.readComparison?_literal`). It does not matter which other operators it has in it,
as the one that is meant stands in front of it. Otherwise the first of those operators that the
content has splits the literal, and what is compared has one quote on each side
(`Condition.readComparison?_split`).
-/

namespace Storefront

namespace Condition

/-! ## Helpers end in a parenthesis -/

theorem getLast?_of_closes {cs : List Char} (h : closes cs = true) : cs.getLast? = some ')' := by
  have hstart : Text.trimStart cs = [')'] := beq_iff_eq.1 h
  have hsuffix : [')'] <:+ cs := hstart ▸ List.dropWhile_suffix _
  obtain ⟨lead, rfl⟩ := hsuffix
  exact List.getLast?_concat

theorem getLast?_of_quotedWord? {cs word : List Char} (h : quotedWord? cs = some word) :
    cs.getLast? = some ')' := by
  cases cs with
  | nil => cases h
  | cons quote cs =>
    rw [quotedWord?] at h
    split at h
    · split at h
      next before rest hspan =>
      split at h
      · next hclosed =>
        obtain ⟨hcloses, -⟩ := (Bool.and_eq_true _ _).mp hclosed
        have hrest : rest = cs.dropWhile (· != quote) := (Prod.mk.inj hspan).2.symm
        obtain ⟨front, hsuffix⟩ : rest.drop 1 <:+ quote :: cs :=
          (List.drop_suffix 1 rest).trans
            ((hrest ▸ List.dropWhile_suffix _).trans (List.suffix_cons quote cs))
        rw [← hsuffix, List.getLast?_append, getLast?_of_closes hcloses]
        rfl
      · cases h
    · cases h

theorem getLast?_of_literal? {cs word : List Char} (h : literal? cs = some word) :
    cs.getLast? = some ')' := by
  rw [literal?] at h
  split at h
  · next hquoted => exact getLast?_of_quotedWord? hquoted
  · rw [bareWord?] at h
    split at h
    · assumption
    · cases h

/-- What comes behind the path of a helper is the end of its text. -/
theorem suffix_of_helper? {name : String} {cs path rest : List Char}
    (h : helper? name cs = some (path, rest)) : rest <:+ cs := by
  unfold helper? at h
  split at h
  · next cs =>
    split at h
    · next blank more hafter =>
      split at h
      · dsimp only at h
        split at h
        · cases h
        · cases h
          have hname : Text.trimStart cs = name.toList ++ blank :: more := Text.after?_eq_some_iff.1 hafter
          have hmore : more <:+ Text.trimStart cs :=
            ⟨name.toList ++ [blank], by rw [hname, List.append_assoc]; rfl⟩
          exact (List.dropWhile_suffix _).trans ((List.dropWhile_suffix _).trans
            ((List.dropWhile_suffix _).trans (hmore.trans ((List.dropWhile_suffix _).trans
              (List.suffix_cons '(' cs)))))
      · cases h
    · cases h
  · cases h

/-- **What does not end in a parenthesis** is no helper. -/
theorem no_helper_of_getLast? {cs : List Char} (h : cs.getLast? ≠ some ')') :
    readEq? cs = none ∧ readGt? cs = none := by
  have hrest : ∀ {name : String} {path rest : List Char}, helper? name cs = some (path, rest) →
      rest.getLast? ≠ some ')' := by
    intro name path rest hhelper hlast
    obtain ⟨front, rfl⟩ := suffix_of_helper? hhelper
    exact h (List.mem_getLast?_append_of_mem_getLast? hlast)
  constructor
  · rw [readEq?, Option.bind_eq_none_iff]
    rintro ⟨path, rest⟩ hhelper
    rw [Option.map_eq_none_iff, Option.eq_none_iff_forall_ne_some]
    exact fun word hword => hrest hhelper (getLast?_of_literal? hword)
  · rw [readGt?, Option.bind_eq_none_iff]
    rintro ⟨path, rest⟩ hhelper
    rw [Option.map_eq_none_iff, bareWord?, if_neg (hrest hhelper)]

/-! ## Literals -/

/-- A text in quotes. -/
def inQuotes (quote : Char) (content : List Char) : List Char := quote :: (content ++ [quote])

/-- **A comparison of a path with a literal in quotes**: the path has neither characters of
operators nor quotes in it, and the content any text but the quote that it stands in. -/
structure ComparesLiteral (path spelling : String) (op : Comparison) (quote : Char)
    (content : String) : Prop where
  operator : (spelling, op) ∈ operators
  path_operand : IsOperand path
  path_unquoted : '"' ∉ path.toList ∧ '\'' ∉ path.toList
  is_quote : quote = '"' ∨ quote = '\''
  closed : quote ∉ content.toList

/-- The comparison as it is written, with blanks around its operator. -/
def withLiteral (path spelling : String) (quote : Char) (content : String) (before behind : List Char) :
    List Char :=
  path.toList ++ before ++ spelling.toList ++ (behind ++ inQuotes quote content.toList)

/-- **The operator that splits a literal**, if one does: the first of those that are looked for
before the one that is meant and occur in the content. -/
def splitting? (spelling content : String) : Option (String × Comparison) :=
  (earlier spelling).find? fun e => Text.mentions e.1 content

/-- A quote is no blank, no parenthesis and no part of an operator. -/
theorem of_isQuote {quote : Char} (h : quote = '"' ∨ quote = '\'') :
    Text.isBlank quote = false ∧ quote ≠ ')' ∧ quote ∉ operatorChars := by
  obtain rfl | rfl := h <;> decide

/-- What begins with a quote is no number. -/
theorem readChars?_quote {quote : Char} (h : quote = '"' ∨ quote = '\'') (cs : List Char) :
    Double.readChars? (quote :: cs) = none := by
  obtain rfl | rfl := h <;> rfl

/-- **A literal in quotes stands for its content.** -/
theorem operand_inQuotes {quote : Char} (h : quote = '"' ∨ quote = '\'') (content : String) (ctx : Context) :
    operand (String.ofList (inQuotes quote content.toList)) ctx = .str content := by
  have hquote : (decide (quote = '"') || decide (quote = '\'')) = true := by
    simpa using h
  rw [operand, Double.read?, String.toList_ofList, inQuotes, readChars?_quote h]
  dsimp only
  rw [quoted?, hquote, List.getLast?_concat, List.dropLast_concat, Bool.true_and, decide_eq_true rfl,
    if_pos rfl]
  dsimp only
  rw [String.ofList_toList]

/-- **A path stands for what is found there**: it is no number, has no quotes, and is none of the
words that stand for themselves. -/
theorem operand_path {path : String} (hnumber : Double.read? path = none)
    (hquotes : '"' ∉ path.toList ∧ '\'' ∉ path.toList) (hword : path ∉ ["true", "false", "null"])
    (ctx : Context) : operand path ctx = (ctx.resolve path).getD .null := by
  have hquoted : quoted? path.toList = none := by
    cases hpath : path.toList with
    | nil => rfl
    | cons c cs =>
      rw [hpath, List.mem_cons, List.mem_cons, not_or, not_or] at hquotes
      rw [quoted?, if_neg (by simp [Ne.symm hquotes.1.1, Ne.symm hquotes.2.1])]
  simp only [List.mem_cons, List.not_mem_nil, or_false, not_or] at hword
  obtain ⟨htrue, hfalse, hnull⟩ := hword
  rw [operand, hnumber]
  dsimp only
  rw [hquoted]
  dsimp only
  rw [if_neg htrue, if_neg hfalse, if_neg hnull]

/-! ## Splitting -/

section Splitting

variable {path spelling content : String} {op : Comparison} {quote : Char} {before behind : List Char}

/-- **An operator that is looked for before the one that is meant** is found in the content alone. -/
theorem cutAt?_withLiteral (h : ComparesLiteral path spelling op quote content)
    (hblank : ∀ c ∈ before ++ behind, Text.isBlank c = true) {e : String × Comparison}
    (he : e ∈ earlier spelling) :
    Text.cutAt? e.1.toList (withLiteral path spelling quote content before behind) =
      (Text.cutAt? e.1.toList content.toList).map fun cut =>
        (path.toList ++ before ++ spelling.toList ++ behind ++ quote :: cut.1, cut.2 ++ [quote]) := by
  have hmem := earlier_subset spelling e he
  obtain ⟨hne, hchars⟩ := mem_operatorChars e hmem
  obtain ⟨hbefore, hbehind⟩ := List.forall_mem_append.1 hblank
  have hquote : quote ∉ e.1.toList := fun hin => (of_isQuote h.is_quote).2.2 (hchars hin)
  have hfront : Unmarked (path.toList ++ before) :=
    unmarked_append.2 ⟨h.path_operand.unmarked, unmarked_of_isBlank hbefore⟩
  have hnone : Text.cutAt? e.1.toList (path.toList ++ before ++ spelling.toList ++ behind) = none := by
    rw [← Text.contains_eq_false_iff, Text.contains_between (hfront.notMem_of_operator hmem)
      ((unmarked_of_isBlank hbehind).notMem_of_operator hmem)]
    exact contains_earlier (spelling, op) h.operator e he
  have hempty : Text.cutAt? e.1.toList [] = none :=
    Text.contains_eq_false_iff.1 (@Unmarked.contains_eq_false [] nofun e hmem)
  rw [withLiteral, ← List.append_assoc, inQuotes, Text.cutAt?_append_cons hne hquote hnone,
    Text.cutAt?_concat hquote hempty, Option.map_map]
  rfl

theorem contains_withLiteral (h : ComparesLiteral path spelling op quote content)
    (hblank : ∀ c ∈ before ++ behind, Text.isBlank c = true) {e : String × Comparison}
    (he : e ∈ earlier spelling) :
    Text.contains e.1.toList (withLiteral path spelling quote content before behind) =
      Text.mentions e.1 content := by
  rw [Text.contains, cutAt?_withLiteral h hblank he, Option.isSome_map]
  rfl

/-- **A literal stays whole** where no operator splits it. -/
theorem readComparison?_literal (h : ComparesLiteral path spelling op quote content)
    (hblank : ∀ c ∈ before ++ behind, Text.isBlank c = true) (hwhole : splitting? spelling content = none) :
    readComparison? (withLiteral path spelling quote content before behind) operators =
      some (.compares path op (String.ofList (inQuotes quote content.toList))) := by
  have hsolid := (of_isQuote h.is_quote).1
  have htrim : Text.trim (inQuotes quote content.toList) = inQuotes quote content.toList :=
    Text.trim_surrounded hsolid hsolid _
  refine readComparison?_whole h.operator h.path_operand (List.cons_ne_nil _ _) htrim hblank ?_
  intro e he
  have hwritten := contains_withLiteral h hblank he
  rw [withLiteral] at hwritten
  rw [hwritten]
  exact Bool.eq_false_iff.2 (List.find?_eq_none.1 hwhole e he)

/-- **A literal is split** at the first place of the operator that splits it. -/
theorem readComparison?_split (h : ComparesLiteral path spelling op quote content)
    (hblank : ∀ c ∈ before ++ behind, Text.isBlank c = true) {e : String × Comparison}
    (hsplit : splitting? spelling content = some e) {l r : List Char}
    (hcut : Text.cutAt? e.1.toList content.toList = some (l, r)) :
    readComparison? (withLiteral path spelling quote content before behind) operators =
      some (.compares
        (String.ofList (Text.trim (path.toList ++ before ++ spelling.toList ++ behind ++ quote :: l))) e.2
        (String.ofList (Text.trim (r ++ [quote])))) := by
  obtain ⟨-, sooner, later, hearlier, habsent⟩ := List.find?_eq_some_iff_append.1 hsplit
  have hsolid := (of_isQuote h.is_quote).1
  have hmem : e ∈ earlier spelling := List.mem_of_find?_eq_some hsplit
  have hnone : ∀ a ∈ sooner, Text.contains a.1.toList
      (withLiteral path spelling quote content before behind) = false := by
    intro a ha
    rw [contains_withLiteral h hblank (hearlier ▸ List.mem_append_left _ ha), ← Bool.not_eq_true']
    exact habsent a ha
  have hwhole := cutAt?_withLiteral h hblank hmem
  rw [hcut, Option.map_some] at hwhole
  have hleft : quote ∈ path.toList ++ before ++ spelling.toList ++ behind ++ quote :: l :=
    List.mem_append_right _ List.mem_cons_self
  have hright : quote ∈ r ++ [quote] := List.mem_append_right r List.mem_cons_self
  -- those in front of the operator that splits the literal are tried before it, in vain
  rw [operators_eq_append _ h.operator, hearlier, List.append_assoc, List.cons_append]
  exact readComparison?_append hnone hwhole (List.ne_nil_of_mem (Text.mem_trim hleft hsolid))
    (List.ne_nil_of_mem (Text.mem_trim hright hsolid))

/-- A comparison with a literal is no helper, and has no blanks around it. -/
theorem ofText_withLiteral (h : ComparesLiteral path spelling op quote content)
    {lead tail : List Char} (hlead : ∀ c ∈ lead, Text.isBlank c = true)
    (htail : ∀ c ∈ tail, Text.isBlank c = true) {c : Condition}
    (hread : readComparison? (withLiteral path spelling quote content before behind) operators = some c) :
    ofText (String.ofList (lead ++ withLiteral path spelling quote content before behind ++ tail)) = c := by
  obtain ⟨hsolid, hparen, -⟩ := of_isQuote h.is_quote
  have hends : withLiteral path spelling quote content before behind =
      path.toList ++ (before ++ spelling.toList ++ behind) ++ inQuotes quote content.toList := by
    simp only [withLiteral, List.append_assoc]
  have htrim : Text.trim (withLiteral path spelling quote content before behind) =
      withLiteral path spelling quote content before behind := by
    rw [hends]
    exact Text.trim_between h.path_operand.trimmed h.path_operand.toList_ne_nil
      (Text.trim_surrounded hsolid hsolid _) (List.cons_ne_nil _ _) _
  have hlast : (withLiteral path spelling quote content before behind).getLast? ≠ some ')' := by
    rw [hends, inQuotes, ← List.cons_append, ← List.append_assoc, List.getLast?_concat]
    exact fun heq => hparen (Option.some.inj heq)
  obtain ⟨heq, hgt⟩ := no_helper_of_getLast? hlast
  have htext : Text.trim (String.ofList (lead ++ withLiteral path spelling quote content before behind ++
      tail)).toList = withLiteral path spelling quote content before behind := by
    rw [String.toList_ofList, Text.trim_blanks hlead htail, htrim]
  rw [ofText, htext, heq, hgt, hread]

/-- **A literal that is split** leaves a quote on either side of the operator that splits it. -/
theorem exists_ofText_split (h : ComparesLiteral path spelling op quote content)
    (hblank : ∀ c ∈ before ++ behind, Text.isBlank c = true) {lead tail : List Char}
    (hlead : ∀ c ∈ lead, Text.isBlank c = true) (htail : ∀ c ∈ tail, Text.isBlank c = true)
    {e : String × Comparison} (he : splitting? spelling content = some e) :
    ∃ l r, Text.cutAt? e.1.toList content.toList = some (l, r) ∧
      ofText (String.ofList (lead ++ withLiteral path spelling quote content before behind ++ tail)) =
        .compares
          (String.ofList (Text.trim (path.toList ++ before ++ spelling.toList ++ behind ++ quote :: l)))
          e.2 (String.ofList (Text.trim (r ++ [quote]))) := by
  obtain ⟨hmentions, -⟩ := List.find?_eq_some_iff_append.1 he
  obtain ⟨⟨l, r⟩, hcut⟩ := Option.isSome_iff_exists.1 hmentions
  exact ⟨l, r, hcut, ofText_withLiteral h hlead htail (readComparison?_split h hblank he hcut)⟩

/-- **A literal in quotes stands for its content unless an operator splits it.** The condition is the
comparison that was written exactly when the content has no operator that is looked for before the
one that is meant. Then the value of the path is compared with the content, and that is what is
found there unless the path is a number or a word that stands for itself. Otherwise the first such
operator that occurs is taken, where it occurs first, and the quotes are parts of what it compares. -/
theorem literal_whole_or_split (h : ComparesLiteral path spelling op quote content)
    (hblank : ∀ c ∈ before ++ behind, Text.isBlank c = true) {lead tail : List Char}
    (hlead : ∀ c ∈ lead, Text.isBlank c = true) (htail : ∀ c ∈ tail, Text.isBlank c = true) :
    let text := String.ofList (lead ++ withLiteral path spelling quote content before behind ++ tail)
    (splitting? spelling content = none ↔
        ofText text = .compares path op (String.ofList (inQuotes quote content.toList))) ∧
      (splitting? spelling content = none → ∀ ctx : Context,
        ctx.satisfies text = (operand path ctx).compares op (.str content)) ∧
      (Double.read? path = none → path ∉ ["true", "false", "null"] → ∀ ctx : Context,
        operand path ctx = (ctx.resolve path).getD .null) ∧
      ∀ e, splitting? spelling content = some e → ∃ l r,
        Text.cutAt? e.1.toList content.toList = some (l, r) ∧
          ofText text = .compares
            (String.ofList (Text.trim (path.toList ++ before ++ spelling.toList ++ behind ++ quote :: l)))
            e.2 (String.ofList (Text.trim (r ++ [quote]))) := by
  intro text
  have hwhole : splitting? spelling content = none →
      ofText text = .compares path op (String.ofList (inQuotes quote content.toList)) :=
    fun hnone => ofText_withLiteral h hlead htail (readComparison?_literal h hblank hnone)
  refine ⟨⟨hwhole, fun hread => ?_⟩, fun hnone ctx => ?_,
    fun hnumber hword => operand_path hnumber h.path_unquoted hword,
    fun e he => exists_ofText_split h hblank hlead htail he⟩
  · -- what is split has the opening quote on the left, and the path has none
    cases hcase : splitting? spelling content with
    | none => rfl
    | some e =>
      obtain ⟨l, r, -, htext⟩ := exists_ofText_split h hblank hlead htail hcase
      have hleft := congrArg String.toList (Condition.compares.inj (hread.symm.trans htext)).1
      rw [String.toList_ofList] at hleft
      have hquote : quote ∈ path.toList := hleft ▸ Text.mem_trim
        (List.mem_append_right _ List.mem_cons_self) (of_isQuote h.is_quote).1
      obtain rfl | rfl := h.is_quote
      · exact absurd hquote h.path_unquoted.1
      · exact absurd hquote h.path_unquoted.2
  · rw [Context.satisfies, hwhole hnone, eval, operand_inQuotes h.is_quote]

end Splitting

/-- A literal that has the operator that is meant in it, and one that is looked for later. -/
theorem literal_whole_or_split_later :
    let ctx := Context.ofLayers [] [("title", .str "1 <= 2 != 3")]
    ComparesLiteral "title" "<=" .atMost '\'' "1 <= 2 != 3" ∧
      splitting? "<=" "1 <= 2 != 3" = none ∧
      ctx.satisfies " title <= '1 <= 2 != 3'" = true := by
  intro ctx
  have h : ComparesLiteral "title" "<=" .atMost '\'' "1 <= 2 != 3" :=
    ⟨by decide, ⟨by decide, by decide, by decide⟩, by decide, .inr rfl, by decide⟩
  have hnone : splitting? "<=" "1 <= 2 != 3" = none := by decide
  have hblank : ∀ c ∈ [' '], Text.isBlank c = true := List.forall_mem_singleton.2 rfl
  obtain ⟨-, hsatisfies, -⟩ := @literal_whole_or_split _ _ _ _ _ [' '] [' '] h
    (List.forall_mem_cons.2 ⟨rfl, hblank⟩) [' '] [] hblank nofun
  exact ⟨h, hnone, (hsatisfies hnone ctx).trans (by decide)⟩

/-- **A literal that is split**: it has an operator in it that is looked for before the one that is
meant, and the condition does not hold although the value at the path is the content. -/
theorem literal_is_split :
    let ctx := Context.ofLayers [] [("a", .str "x>=y")]
    ComparesLiteral "a" "==" .equal '"' "x>=y" ∧
      ofText "a == \"x>=y\"" = .compares "a == \"x" .atLeast "y\"" ∧
      (operand "a" ctx).compares .equal (.str "x>=y") = true ∧
      ctx.satisfies "a == \"x>=y\"" = false :=
  ⟨⟨by decide, ⟨by decide, by decide, by decide⟩, by decide, .inl rfl, by decide⟩, by rfl, by decide,
    by decide⟩

end Condition

end Storefront
