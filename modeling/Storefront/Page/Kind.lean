import Storefront.Text.Blank
import Storefront.Text.Case

/-!
# Kinds of page

Four kinds of page have a shape that the builder knows. Four more are known by
name only: their data is passed through, as is the data of pages of any other
kind.
-/

namespace Storefront

/-- **The kind of a page.** -/
inductive PageKind where
  /-- The products of a category. -/
  | category
  /-- One product. -/
  | product
  /-- The cart. -/
  | cart
  /-- The header of every page. -/
  | header
  /-- The checkout. -/
  | checkout
  /-- The page after an order. -/
  | success
  /-- A customer's account. -/
  | account
  /-- The login. -/
  | login
  /-- Any other page, by its name in small letters. -/
  | other (name : String)
  deriving DecidableEq

namespace PageKind

/-- The name of a kind. -/
def name : PageKind → String
  | .category => "category"
  | .product => "product"
  | .cart => "cart"
  | .header => "header"
  | .checkout => "checkout"
  | .success => "success"
  | .account => "account"
  | .login => "login"
  | .other name => name

/-- Whether a page is known by name but has no shape of its own. -/
def isGeneric : PageKind → Bool
  | .checkout | .success | .account | .login => true
  | _ => false

/-- Whether a page is not known by name. -/
def isOther : PageKind → Bool
  | .other _ => true
  | _ => false

/-- **The kind with a name**, without regard to case and blanks around it. -/
def ofName (name : String) : PageKind :=
  match Text.asciiLower (Text.trimmed name) with
  | "category" => .category
  | "product" => .product
  | "cart" => .cart
  | "header" => .header
  | "checkout" => .checkout
  | "success" => .success
  | "account" => .account
  | "login" => .login
  | unknown => .other unknown

end PageKind

end Storefront
