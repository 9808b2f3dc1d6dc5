import Storefront.Data.Value

/-!
# Writing JSON

Page data is written in two layouts: on one line without any space, or with
every item and every member on a line of its own, two spaces deeper than what
it is in. An empty array or object stays on its line in both.
-/

namespace Storefront.Json

/-- The last digit of a hexadecimal escape. -/
def hexDigit (n : Nat) : Char := Nat.digitChar (n % 16)

/-- A character as it stands in a text literal: quote, backslash and the control
characters are escaped, the latter with a letter of their own where they have one. -/
def escaped (c : Char) : List Char :=
  if c = '"' then ['\\', '"']
  else if c = '\\' then ['\\', '\\']
  else if c = '\x08' then ['\\', 'b']
  else if c = '\x0c' then ['\\', 'f']
  else if c = '\n' then ['\\', 'n']
  else if c = '\r' then ['\\', 'r']
  else if c = '\t' then ['\\', 't']
  else if c.toNat < 32 then
    ['\\', 'u', '0', '0', hexDigit (c.toNat / 16), hexDigit c.toNat]
  else [c]

/-- A text literal with its quotes. -/
def literal (s : String) : String :=
  "\"" ++ String.ofList (s.toList.flatMap escaped) ++ "\""

mutual

/-- A value on one line. -/
def compact : Value → String
  | .null => "null"
  | .bool b => if b then "true" else "false"
  | .num n => n.documentText
  | .str s => literal s
  | .arr items => "[" ++ compactItems items ++ "]"
  | .obj entries => "\x7b" ++ compactEntries entries ++ "\x7d"

/-- Items with commas between them. -/
def compactItems : List Value → String
  | [] => ""
  | [v] => compact v
  | v :: vs => compact v ++ "," ++ compactItems vs

/-- Entries with commas between them. -/
def compactEntries : List (String × Value) → String
  | [] => ""
  | [(k, v)] => literal k ++ ":" ++ compact v
  | (k, v) :: rest => literal k ++ ":" ++ compact v ++ "," ++ compactEntries rest

end

/-- The start of a line at some depth. -/
def newline (depth : Nat) : String := "\n" ++ String.ofList (List.replicate (2 * depth) ' ')

mutual

/-- A value over several lines, whose closing bracket stands at `depth`. -/
def pretty (depth : Nat) : Value → String
  | .null => "null"
  | .bool b => if b then "true" else "false"
  | .num n => n.documentText
  | .str s => literal s
  | .arr [] => "[]"
  | .arr (v :: vs) => "[" ++ prettyItems (depth + 1) (v :: vs) ++ newline depth ++ "]"
  | .obj [] => "\x7b\x7d"
  | .obj (e :: es) => "\x7b" ++ prettyEntries (depth + 1) (e :: es) ++ newline depth ++ "\x7d"

/-- Items, each on its line. -/
def prettyItems (depth : Nat) : List Value → String
  | [] => ""
  | [v] => newline depth ++ pretty depth v
  | v :: vs => newline depth ++ pretty depth v ++ "," ++ prettyItems depth vs

/-- Entries, each on its line. -/
def prettyEntries (depth : Nat) : List (String × Value) → String
  | [] => ""
  | [(k, v)] => newline depth ++ literal k ++ ": " ++ pretty depth v
  | (k, v) :: rest =>
    newline depth ++ literal k ++ ": " ++ pretty depth v ++ "," ++ prettyEntries depth rest

end

end Storefront.Json
