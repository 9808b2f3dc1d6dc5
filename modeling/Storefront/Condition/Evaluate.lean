import Storefront.Condition.Basic
import Storefront.Context.Scope
import Storefront.Data.Loose

/-!
# Evaluating conditions

Comparison is loose: values that both stand for numbers compare as numbers, so
`"5"` equals `5.0`; scalars otherwise compare by their text, lists and objects by
their structure, and null equals null alone. There is an order between two
numbers and between two texts, and none between anything else.
-/

namespace Storefront

namespace Value

/-- **Loose equality.** -/
def looselyEquals (left right : Value) : Bool :=
  if left.isNull || right.isNull then left.isNull && right.isNull
  else
    match left.number?, right.number? with
    | some x, some y => x.sameValue y
    | _, _ =>
      match left.scalarText?, right.scalarText? with
      | some s, some t => s == t
      | _, _ => left.same right

/-- **Loose order**: of two numbers by value, of two texts by their characters. -/
def looseOrder? (left right : Value) : Option Ordering :=
  match left.number?, right.number? with
  | some x, some y => x.compare? y
  | _, _ =>
    match left, right with
    | .str s, .str t => some (compareOfLessAndEq s t)
    | _, _ => none

/-- Whether two values compare as told. -/
def compares (left : Value) (op : Comparison) (right : Value) : Bool :=
  match op with
  | .equal => left.looselyEquals right
  | .notEqual => !left.looselyEquals right
  | .atLeast => (left.looseOrder? right).any (· != .lt)
  | .atMost => (left.looseOrder? right).any (· != .gt)
  | .greater => (left.looseOrder? right).any (· == .gt)
  | .less => (left.looseOrder? right).any (· == .lt)

end Value

namespace Condition

/-- The text in an operand that is written in quotes. -/
def quoted? : List Char → Option (List Char)
  | quote :: cs =>
    if (quote = '"' || quote = '\'') && cs.getLast? = some quote then some cs.dropLast else none
  | [] => none

/-- **The value of an operand**: a number, a text in quotes, `true`, `false` or `null` stand
for themselves, and everything else is a path. -/
def operand (token : String) (ctx : Context) : Value :=
  match Double.read? token with
  | some x => .ofDouble x
  | none =>
    match quoted? token.toList with
    | some s => .str (String.ofList s)
    | none =>
      if token = "true" then .bool true
      else if token = "false" then .bool false
      else if token = "null" then .null
      else (ctx.resolve token).getD .null

/-- **Whether a condition holds** in a context. -/
def eval (c : Condition) (ctx : Context) : Bool :=
  match c with
  | .hasText path literal => ((ctx.resolve path).bind Value.scalarText?).any (· == literal)
  | .exceeds path threshold =>
    match (ctx.resolve path).bind Value.number?, threshold with
    | some x, some limit => limit.less x
    | _, _ => false
  | .compares left op right => (operand left ctx).compares op (operand right ctx)
  | .holds path => (ctx.resolve path).any Value.truthy

end Condition

namespace Context

/-- Whether the condition that a text spells holds. -/
def satisfies (ctx : Context) (condition : String) : Bool := (Condition.ofText condition).eval ctx

end Context

end Storefront
