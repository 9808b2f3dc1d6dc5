import Storefront.Toml.Literal
import Storefront.Toml.Table
import Storefront.Toml.Token

/-!
# Reading TOML documents

A document is a sequence of lines: a header opens a table, and an assignment adds
to the table that is open. Values may span lines only inside lists.

Every step returns what it read together with a rest that is shorter than what it
was given, so reading ends with the text.
-/

namespace Storefront.Toml

/-- **A reading step**: what stands in front of `ts`, and a shorter rest. -/
abbrev Step (α : Type) (ts : List Token) : Type := Option (α × {rest : List Token // rest.length < ts.length})

/-- A rest that is shorter than `ts` is shorter than anything as long. -/
def Step.widen {α : Type} {ts us : List Token} (step : Step α ts) (h : ts.length ≤ us.length) : Step α us :=
  step.map fun (a, rest) => (a, ⟨rest.1, Nat.lt_of_lt_of_le rest.2 h⟩)

namespace Token

/-- A space or a tab. -/
def isBlank : Token → Bool
  | .symbol c => c == ' ' || c == '\t'
  | _ => false

/-- A space, a tab or the end of a line. -/
def isSpace (t : Token) : Bool := t.isBlank || t == .newline

/-- The character of a symbol that satisfies `p`. -/
def charIf? (p : Char → Bool) : Token → Option Char
  | .symbol c => if p c then some c else none
  | _ => none

/-- Whether a token is a symbol that satisfies `p`. -/
def isSymbol (p : Char → Bool) (t : Token) : Bool := (t.charIf? p).isSome

end Token

/-- The tokens without blanks in front. -/
def skipBlanks (ts : List Token) : List Token := ts.dropWhile Token.isBlank

/-- The tokens without blanks and line breaks in front. -/
def skipSpace (ts : List Token) : List Token := ts.dropWhile Token.isSpace

theorem length_skipBlanks_le (ts : List Token) : (skipBlanks ts).length ≤ ts.length :=
  (List.dropWhile_sublist _).length_le

theorem length_skipSpace_le (ts : List Token) : (skipSpace ts).length ≤ ts.length :=
  (List.dropWhile_sublist _).length_le

/-- The characters in front that satisfy `p`, at least one. -/
def run? (p : Char → Bool) (ts : List Token) : Step (List Char) ts :=
  match ts with
  | [] => none
  | t :: rest =>
    match t.charIf? p with
    | none => none
    | some c =>
      some (c :: (rest.takeWhile (·.isSymbol p)).filterMap (·.charIf? p),
        ⟨rest.dropWhile (·.isSymbol p), Nat.lt_succ_of_le (List.dropWhile_sublist _).length_le⟩)

/-- One symbol in front. -/
def symbol? (c : Char) (ts : List Token) : Step Unit ts :=
  match ts with
  | .symbol d :: rest => if d == c then some ((), ⟨rest, Nat.lt_succ_self _⟩) else none
  | _ => none

/-! ## Keys -/

/-- A character of a key without quotes. -/
def isKeyChar (c : Char) : Bool := c.isAlphanum || c == '_' || c == '-'

/-- A key in front. -/
def key? (ts : List Token) : Step String ts :=
  match ts with
  | .quoted false s :: rest => some (s, ⟨rest, Nat.lt_succ_self _⟩)
  | ts => (run? isKeyChar ts).map fun (cs, rest) => (String.ofList cs, rest)

/-- **A path of keys in front**, with points between them and blanks around them. -/
def path? (ts : List Token) : Step (List String) ts :=
  match key? (skipBlanks ts) with
  | none => none
  | some (key, ⟨rest, hrest⟩) =>
    have hfront := length_skipBlanks_le ts
    have hback := length_skipBlanks_le rest
    match hnext : skipBlanks rest with
    | .symbol '.' :: more =>
      have hmore : more.length < ts.length := by
        rw [hnext] at hback
        simp only [List.length_cons] at hback
        omega
      match path? more with
      | some (keys, ⟨after, h⟩) => some (key :: keys, ⟨after, by omega⟩)
      | none => none
    | after => some ([key], ⟨after, by
        rw [← hnext]
        omega⟩)
termination_by ts.length

/-- A path that is not too long. -/
def boundedPath? (ts : List Token) : Step (List String) ts :=
  match path? ts with
  | some (keys, rest) => if keys.length ≤ nestingLimit then some (keys, rest) else none
  | none => none

/-! ## Values -/

/-- A character of a literal. -/
def isLiteralChar (c : Char) : Bool :=
  c.isAlphanum || c == '_' || c == '-' || c == '+' || c == '.' || c == ':'

/-- A time that may follow a date after one space. -/
def spacedTime? (ts : List Token) : Step Unit ts :=
  match ts with
  | .symbol ' ' :: ts =>
    match run? isLiteralChar ts with
    | some (cs, ⟨rest, h⟩) =>
      if isZonedTime cs then some ((), ⟨rest, Nat.lt_succ_of_lt h⟩) else none
    | none => none
  | _ => none

/-- A literal in front. -/
def literal? (ts : List Token) : Step Toml ts :=
  match run? isLiteralChar ts with
  | none => none
  | some (cs, ⟨rest, h⟩) =>
    match ofLiteral? cs with
    | none => none
    | some v =>
      match spacedTime? rest with
      | some (_, ⟨after, hafter⟩) =>
        if isDate cs then some (.measure, ⟨after, Nat.lt_trans hafter h⟩) else some (v, ⟨rest, h⟩)
      | none => some (v, ⟨rest, h⟩)

mutual

/-- **A value in front**, inside at most `room` more lists and tables. -/
def value? (room : Nat) (ts : List Token) : Step Toml ts :=
  match ts with
  | .quoted _ s :: rest => some (.text s, ⟨rest, Nat.lt_succ_self _⟩)
  | .symbol '[' :: rest =>
    match room with
    | 0 => none
    | room + 1 =>
      match items? room rest with
      | some (vs, ⟨after, h⟩) => some (.list vs, ⟨after, Nat.lt_succ_of_lt h⟩)
      | none => none
  | .symbol '\x7b' :: rest =>
    match room with
    | 0 => none
    | room + 1 =>
      match hnext : skipBlanks rest with
      | .symbol '\x7d' :: after => some (.table [], ⟨after, by
          have := length_skipBlanks_le rest
          rw [hnext] at this
          simp only [List.length_cons] at this ⊢
          omega⟩)
      | _ =>
        match pairs? room rest with
        | some (es, ⟨after, h⟩) =>
          match es.foldlM (fun (acc : Entries) (e : List String × Toml) => acc.assign? true e.1 e.2) [] with
          | some entries => some (.table (entriesToToml entries), ⟨after, Nat.lt_succ_of_lt h⟩)
          | none => none
        | none => none
  | ts => literal? ts
termination_by (ts.length, 0)

/-- The items of a list and its closing bracket. A comma may follow the last one. -/
def items? (room : Nat) (ts : List Token) : Step (List Toml) ts :=
  have hfront := length_skipSpace_le ts
  match hclose : skipSpace ts with
  | .symbol ']' :: after => some ([], ⟨after, by
      rw [hclose] at hfront
      simp only [List.length_cons] at hfront
      omega⟩)
  | front =>
    match value? room front with
    | none => none
    | some (v, ⟨rest, hrest⟩) =>
      have hback := length_skipSpace_le rest
      have hlt : rest.length < ts.length := by
        rw [hclose] at hfront
        omega
      match hnext : skipSpace rest with
      | .symbol ',' :: more =>
        have hmore : more.length < ts.length := by
          rw [hnext] at hback
          simp only [List.length_cons] at hback
          omega
        match items? room more with
        | some (vs, ⟨after, h⟩) => some (v :: vs, ⟨after, by omega⟩)
        | none => none
      | .symbol ']' :: after => some ([v], ⟨after, by
          rw [hnext] at hback
          simp only [List.length_cons] at hback
          omega⟩)
      | _ => none
termination_by (ts.length, 1)
decreasing_by
  · rw [hclose] at hfront
    omega
  · omega

/-- A path, an equals sign and a value in front. -/
def pair? (room : Nat) (ts : List Token) : Step (List String × Toml) ts :=
  match boundedPath? ts with
  | none => none
  | some (keys, ⟨rest, hrest⟩) =>
    match symbol? '=' rest with
    | none => none
    | some (_, ⟨more, hmore⟩) =>
      have hfront := length_skipBlanks_le more
      match value? room (skipBlanks more) with
      | some (v, ⟨after, h⟩) => some ((keys, v), ⟨after, by omega⟩)
      | none => none
termination_by (ts.length, 0)
decreasing_by omega

/-- The assignments of a table within a line, at least one, and its closing brace. -/
def pairs? (room : Nat) (ts : List Token) : Step (List (List String × Toml)) ts :=
  match pair? room ts with
  | none => none
  | some (e, ⟨rest, hrest⟩) =>
    have hback := length_skipBlanks_le rest
    match hnext : skipBlanks rest with
    | .symbol ',' :: more =>
      have hmore : more.length < ts.length := by
        rw [hnext] at hback
        simp only [List.length_cons] at hback
        omega
      match pairs? room more with
      | some (es, ⟨after, h⟩) => some (e :: es, ⟨after, by omega⟩)
      | none => none
    | .symbol '\x7d' :: after => some ([e], ⟨after, by
        rw [hnext] at hback
        simp only [List.length_cons] at hback
        omega⟩)
    | _ => none
termination_by (ts.length, 1)
decreasing_by
  · exact Prod.Lex.right _ Nat.zero_lt_one
  · exact Prod.Lex.left _ _ hmore

end

/-! ## Lines -/

/-- **A line of a document.** -/
inductive Line where
  /-- The header of a table. -/
  | header (path : List String)
  /-- The header of a table at the end of a list. -/
  | element (path : List String)
  /-- An assignment. -/
  | assignment (path : List String) (v : Toml)

/-- The header of a table in front, after its opening bracket. -/
def header? (ts : List Token) : Step Line ts :=
  match boundedPath? ts with
  | some (path, ⟨.symbol ']' :: rest, h⟩) => some (.header path, ⟨rest, Nat.lt_of_succ_lt h⟩)
  | _ => none

/-- The header of an element in front, after its opening brackets. -/
def element? (ts : List Token) : Step Line ts :=
  match boundedPath? ts with
  | some (path, ⟨.symbol ']' :: .symbol ']' :: rest, h⟩) =>
    some (.element path, ⟨rest, Nat.lt_of_succ_lt (Nat.lt_of_succ_lt h)⟩)
  | _ => none

/-- A line in front, without what follows it. -/
def line? (ts : List Token) : Step Line ts :=
  match ts with
  | .symbol '[' :: .symbol '[' :: rest =>
    (element? rest).widen (Nat.le_trans (Nat.le_succ _) (Nat.le_succ _))
  | .symbol '[' :: rest => (header? rest).widen (Nat.le_succ _)
  | ts => (pair? nestingLimit ts).map fun ((path, v), rest) => (.assignment path v, rest)

/-- **The lines of a document.** -/
def lines? (ts : List Token) : Option (List Line) :=
  have hfront := length_skipBlanks_le ts
  match hfirst : skipBlanks ts with
  | [] => some []
  | .newline :: rest =>
    have : rest.length < ts.length := by
      rw [hfirst] at hfront
      simp only [List.length_cons] at hfront
      omega
    lines? rest
  | front =>
    match line? front with
    | none => none
    | some (line, ⟨rest, hrest⟩) =>
      have hback := length_skipBlanks_le rest
      match hnext : skipBlanks rest with
      | [] => some [line]
      | .newline :: more =>
        have : more.length < ts.length := by
          rw [hfirst] at hfront
          rw [hnext] at hback
          simp only [List.length_cons] at hback
          omega
        (lines? more).map (line :: ·)
      | _ => none
termination_by ts.length

/-- What a line makes of a document in which the table at a path is open. -/
def Line.apply? (doc : Entries × List String) : Line → Option (Entries × List String)
  | .header path => (doc.1.begin? path).map (·, path)
  | .element path => (doc.1.append? path).map (·, path)
  | .assignment path v =>
    (doc.1.within? doc.2 fun es => Entries.assign? true es path v).map (·, doc.2)

/-- **The table that a document holds.** A byte order mark in front is skipped. -/
def read? (s : String) : Option Toml := do
  let cs := match s.toList with
    | '\uFEFF' :: cs => cs
    | cs => cs
  let ts ← tokens? .plain cs
  let ls ← lines? ts
  let (entries, _) ← ls.foldlM Line.apply? (([], []) : Entries × List String)
  return .table (entriesToToml entries)

end Storefront.Toml
