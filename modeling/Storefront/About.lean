/-!
# About the program

Its name and version, and the directives that templates may use.
-/

namespace Storefront.About

/-- The name of the program. -/
def name : String := "slotkit"

/-- Its version. -/
def version : String := "0.1.0"

/-- What it is. -/
def description : String := "Storefront slot template interpreter and page context builder"

/-- The directives that templates may use. -/
def directives : List String := ["variable", "raw-variable", "each", "if", "unless", "else", "t"]

/-- Whether templates may use a directive. -/
def supports (directive : String) : Bool := directives.contains directive

end Storefront.About
