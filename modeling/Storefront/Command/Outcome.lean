import Storefront.Failure

/-!
# What a command leaves behind

The text a command prints, the lines it reports on the side, and its exit code:
0 when all went well, that of the failure when it failed, 2 when the arguments
were wrong.
-/

namespace Storefront

/-- **What a command leaves behind.** -/
structure Outcome where
  /-- The exit code. -/
  exitCode : Nat
  /-- The text printed. -/
  output : String
  /-- The lines reported on the side. -/
  reports : List String
  deriving DecidableEq

namespace Outcome

/-- A command that went well. -/
def success (output : String) (reports : List String) : Outcome := ⟨0, output, reports⟩

/-- A command that failed after printing some text. -/
def failed (output : String) (f : Failure) : Outcome := ⟨f.exitCode, output, [f.report]⟩

/-- Wrong arguments. -/
def refused : Outcome := ⟨2, "", []⟩

/-- The outcome of what may fail before anything is printed. -/
def ofExcept : Except Failure Outcome → Outcome
  | .ok o => o
  | .error f => failed "" f

end Outcome

/-- Lines of text, each with its end. -/
def Text.lines (ls : List String) : String := String.join (ls.map (· ++ "\n"))

end Storefront
