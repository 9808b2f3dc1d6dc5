import Storefront.Template.Lexer

/-!
# Template trees

A parsed template is a list of nodes. Loops and conditionals nest; everything
else is a leaf. A loop also keeps the text it was written as, which is shown
where loops are nested too deep to be expanded.
-/

namespace Storefront

/-- **A node of a template.** -/
inductive Node where
  /-- Literal text, with the directives in it that have no place. -/
  | text (content : String)
  /-- A value, shown as it is when `raw` and escaped otherwise. -/
  | variable (path : String) (raw : Bool)
  /-- A phrase of the user interface. -/
  | phrase (key : String)
  /-- A part repeated for each item of the list at `path`. -/
  | loop (path : String) (body : List Node) (source : String) (line : Nat)
  /-- A part shown when the condition holds, or when it does not if `negated`, and another part
  shown otherwise. -/
  | conditional (condition : String) (negated : Bool) (shown hidden : List Node) (line : Nat)

/-- **A directive without a place**, left as literal text. -/
structure Diagnostic where
  /-- The line of the directive. -/
  line : Nat
  /-- What is wrong with it. -/
  message : String
  deriving DecidableEq

namespace Node

/-- Whether a node is literal text. -/
def isText : Node → Bool
  | .text _ => true
  | _ => false

/-- A node put in front of others, joined with the first when both are text. -/
def prepend : Node → List Node → List Node
  | .text s, .text t :: rest => .text (s ++ t) :: rest
  | node, rest => node :: rest

mutual

/-- The paths of the variables in a node, in order, with repetitions. -/
def paths : Node → List String
  | .variable path _ => [path]
  | .loop _ body _ _ => pathsOf body
  | .conditional _ _ shown hidden _ => pathsOf shown ++ pathsOf hidden
  | .text _ => []
  | .phrase _ => []

/-- The paths of the variables in a list of nodes. -/
def pathsOf : List Node → List String
  | [] => []
  | node :: rest => paths node ++ pathsOf rest

end

end Node

/-- **A parsed template.** -/
structure Template where
  /-- Its nodes. -/
  nodes : List Node
  /-- The directives without a place. -/
  diagnostics : List Diagnostic

namespace Template

/-- Whether the template has no live directive. -/
def isStatic (t : Template) : Bool := t.nodes.all Node.isText

/-- Whether every directive has its place. -/
def isWellFormed (t : Template) : Bool := t.diagnostics.isEmpty

/-- The distinct paths of a template's variables, in order of appearance. -/
def variablePaths (t : Template) : List String := (Node.pathsOf t.nodes).eraseDups

end Template

end Storefront
