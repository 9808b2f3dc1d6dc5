import Storefront.Json.Literal

/-!
# Reading JSON documents

A recursive descent over characters. Every step returns what it read together
with a rest that is shorter than what it was given, so the recursion ends with
the text; no bound on the nesting is needed.
-/

namespace Storefront.Json

/-- **A reading step**: what stands in front of `cs`, and a shorter rest. -/
abbrev Step (α : Type) (cs : List Char) : Type := Option (α × {rest : List Char // rest.length < cs.length})

/-- The characters that may stand between the parts of a document. -/
def isSpace (c : Char) : Bool := c == ' ' || c == '\n' || c == '\t' || c == '\r'

/-- The text without space in front. -/
def skipSpace (cs : List Char) : List Char := cs.dropWhile isSpace

theorem length_skipSpace_le (cs : List Char) : (skipSpace cs).length ≤ cs.length :=
  (List.dropWhile_sublist _).length_le

/-- A step on what follows some space is a step on the whole. -/
def Step.afterSpace {α : Type} {cs : List Char} (step : Step α (skipSpace cs)) : Step α cs :=
  step.map fun (a, rest) => (a, ⟨rest.1, Nat.lt_of_lt_of_le rest.2 (length_skipSpace_le cs)⟩)

/-- A number in front. -/
def number? (cs : List Char) : Step Document cs :=
  match h : readNumber? cs with
  | some (l, rest) => some (.num l.number?, ⟨rest, length_of_readNumber? h⟩)
  | none => none

/-- A text after its opening quote. -/
def text? (cs : List Char) : Step (Option String) cs :=
  match h : readText? cs with
  | some (s, rest) => some (s, ⟨rest, length_of_readText? h⟩)
  | none => none

/-- A member's name and the colon after it. -/
def name? (cs : List Char) : Step (Option String) cs :=
  match cs with
  | '"' :: cs =>
    match text? cs with
    | some (s, ⟨rest, hrest⟩) =>
      match hcolon : skipSpace rest with
      | ':' :: after => some (s, ⟨after, by
          have := length_skipSpace_le rest
          rw [hcolon] at this
          simp only [List.length_cons] at this ⊢
          omega⟩)
      | _ => none
    | none => none
  | _ => none

mutual

/-- A document in front, with no space before it. -/
def document? (cs : List Char) : Step Document cs :=
  match cs with
  | 'n' :: 'u' :: 'l' :: 'l' :: rest => some (.null, ⟨rest, by simp only [List.length_cons]; omega⟩)
  | 't' :: 'r' :: 'u' :: 'e' :: rest =>
    some (.bool true, ⟨rest, by simp only [List.length_cons]; omega⟩)
  | 'f' :: 'a' :: 'l' :: 's' :: 'e' :: rest =>
    some (.bool false, ⟨rest, by simp only [List.length_cons]; omega⟩)
  | '"' :: cs =>
    match text? cs with
    | some (s, ⟨rest, h⟩) => some (.str s, ⟨rest, by simp only [List.length_cons]; omega⟩)
    | none => none
  | '[' :: cs =>
    match hclose : skipSpace cs with
    | ']' :: rest => some (.arr [], ⟨rest, by
        have := length_skipSpace_le cs
        rw [hclose] at this
        simp only [List.length_cons] at this ⊢
        omega⟩)
    | _ =>
      match items? cs with
      | some (ds, ⟨rest, h⟩) => some (.arr ds, ⟨rest, by simp only [List.length_cons]; omega⟩)
      | none => none
  | '{' :: cs =>
    match hclose : skipSpace cs with
    | '}' :: rest => some (.obj [], ⟨rest, by
        have := length_skipSpace_le cs
        rw [hclose] at this
        simp only [List.length_cons] at this ⊢
        omega⟩)
    | _ =>
      match members? cs with
      | some (ms, ⟨rest, h⟩) => some (.obj ms, ⟨rest, by simp only [List.length_cons]; omega⟩)
      | none => none
  | cs => number? cs
termination_by (cs.length, 0)
decreasing_by all_goals (simp only [List.length_cons]; omega)

/-- The items of an array, at least one, and its closing bracket. -/
def items? (cs : List Char) : Step (List Document) cs :=
  match document? (skipSpace cs) with
  | none => none
  | some (d, ⟨rest, hrest⟩) =>
    have hcs := length_skipSpace_le cs
    have hskip := length_skipSpace_le rest
    match hnext : skipSpace rest with
    | ',' :: more =>
      have hmore : more.length < cs.length := by
        rw [hnext] at hskip
        simp only [List.length_cons] at hskip
        omega
      match items? more with
      | some (ds, ⟨rest, h⟩) => some (d :: ds, ⟨rest, by omega⟩)
      | none => none
    | ']' :: after => some ([d], ⟨after, by
        rw [hnext] at hskip
        simp only [List.length_cons] at hskip
        omega⟩)
    | _ => none
termination_by (cs.length, 1)
decreasing_by
  · have := length_skipSpace_le cs
    omega
  · omega

/-- The members of an object, at least one, and its closing brace. -/
def members? (cs : List Char) : Step (List (Option String × Document)) cs :=
  have hcs := length_skipSpace_le cs
  match name? (skipSpace cs) with
  | none => none
  | some (name, ⟨afterName, hname⟩) =>
    have hvalue := length_skipSpace_le afterName
    match document? (skipSpace afterName) with
    | none => none
    | some (d, ⟨rest, hrest⟩) =>
      have hskip := length_skipSpace_le rest
      match hnext : skipSpace rest with
      | ',' :: more =>
        have hmore : more.length < cs.length := by
          rw [hnext] at hskip
          simp only [List.length_cons] at hskip
          omega
        match members? more with
        | some (ms, ⟨rest, h⟩) => some ((name, d) :: ms, ⟨rest, by omega⟩)
        | none => none
      | '}' :: after => some ([(name, d)], ⟨after, by
          rw [hnext] at hskip
          simp only [List.length_cons] at hskip
          omega⟩)
      | _ => none
termination_by (cs.length, 1)
decreasing_by
  · omega
  · omega

end

end Storefront.Json

namespace Storefront

/-- **The document a text holds**: one value, with nothing but space around it. -/
def Document.read? (s : String) : Option Document :=
  match Json.document? (Json.skipSpace s.toList) with
  | some (d, ⟨rest, _⟩) => if (Json.skipSpace rest).isEmpty then some d else none
  | none => none

/-- The page data a text holds. -/
def Value.read? (s : String) : Option Value :=
  (Document.read? s).bind (Document.value? Document.nestingLimit)

end Storefront
