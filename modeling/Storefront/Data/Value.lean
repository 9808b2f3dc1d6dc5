import Storefront.Numeric.Print

/-!
# Page data

Everything a storefront hands over (products, carts, categories, settings) is
loosely shaped data: null, booleans, numbers, texts, lists and objects. Two
decisions shape this type.

An object is the list of its entries in the order in which the keys first
appeared, since that order is printed. `Object.insert` overwrites in place and
adds a new key at the end, so an object that is only ever inserted into holds no
key twice.

A number remembers whether it was written as a whole number or as a decimal:
data that is passed through is printed back the way it came.
-/

namespace Storefront

/-- **A number in page data**: whole numbers of the signed or unsigned 64-bit range are
kept exactly, all others as doubles. -/
inductive Number where
  /-- A whole number, written without point and exponent. -/
  | int (n : Int)
  /-- Any other number. -/
  | float (x : Double)
  deriving DecidableEq

namespace Number

/-- The value of a number as a double. -/
def toDouble : Number → Double
  | .int n => .ofInt n
  | .float x => x

/-- A number as a document writes it. -/
def documentText : Number → String
  | .int n => intText n
  | .float x => x.documentText

/-- Equal in kind and in value. -/
def same : Number → Number → Bool
  | .int m, .int n => m == n
  | .float x, .float y => x.sameValue y
  | _, _ => false

end Number

/-- **A piece of page data.** -/
inductive Value where
  /-- Nothing. -/
  | null
  /-- A boolean. -/
  | bool (b : Bool)
  /-- A number. -/
  | num (n : Number)
  /-- A text. -/
  | str (s : String)
  /-- A list. -/
  | arr (items : List Value)
  /-- An object: its entries in order of appearance. -/
  | obj (entries : List (String × Value))

instance : Inhabited Value := ⟨.null⟩

/-- **The entries of an object**, in the order in which their keys first appeared. -/
abbrev Object := List (String × Value)

namespace Object

/-- The value under a key. -/
def get? (o : Object) (key : String) : Option Value :=
  match o with
  | [] => none
  | (k, v) :: rest => if k = key then some v else get? rest key

/-- Whether a key is present. -/
def has (o : Object) (key : String) : Bool := (o.get? key).isSome

/-- **The object with `key` set to `v`**: in place when the key is there, at the end otherwise. -/
def insert (o : Object) (key : String) (v : Value) : Object :=
  match o with
  | [] => [(key, v)]
  | (k, w) :: rest => if k = key then (key, v) :: rest else (k, w) :: insert rest key v

/-- All entries of `more` inserted in turn. -/
def extend (o more : Object) : Object := more.foldl (fun acc e => acc.insert e.1 e.2) o

@[simp] theorem get?_nil (key : String) : get? [] key = none := rfl

/-- **What an insertion shows**: the new value under its key, the old ones elsewhere. -/
theorem get?_insert (o : Object) (key : String) (v : Value) (k : String) :
    (o.insert key v).get? k = if k = key then some v else o.get? k := by
  induction o with
  | nil =>
    by_cases h : key = k
    · simp [insert, get?, h]
    · simp [insert, get?, h, Ne.symm h]
  | cons e rest ih =>
    obtain ⟨a, w⟩ := e
    by_cases ha : a = key
    · subst ha
      by_cases h : a = k
      · simp [insert, get?, h]
      · simp [insert, get?, h, Ne.symm h]
    · by_cases h : a = k
      · subst h
        simp [insert, get?, ha]
      · simp [insert, get?, ha, h, ih]

/-- The text entry under a key. -/
def getStr? (o : Object) (key : String) : Option String :=
  match o.get? key with
  | some (.str s) => some s
  | _ => none

/-- The object under a key. -/
def getObj? (o : Object) (key : String) : Option Object :=
  match o.get? key with
  | some (.obj entries) => some entries
  | _ => none

/-- The list under a key, empty when it is missing or no list. -/
def getList (o : Object) (key : String) : List Value :=
  match o.get? key with
  | some (.arr items) => items
  | _ => []

end Object

namespace Value

/-- A double in page data; the values that are not finite have no place there. -/
def ofDouble (x : Double) : Value := if x.isFinite then .num (.float x) else .null

/-- A natural number in page data. -/
def ofNat (n : Nat) : Value := .num (.int n)

/-- A whole number in page data. -/
def ofInt (n : Int) : Value := .num (.int n)

/-- A text or null. -/
def ofOption : Option String → Value
  | some s => .str s
  | none => .null

/-- Whether the value is null. -/
def isNull : Value → Bool
  | .null => true
  | _ => false

/-- The entries of an object. -/
def object? : Value → Option Object
  | .obj entries => some entries
  | _ => none

/-- The objects among the items of a list. -/
def objects (items : List Value) : List Object := items.filterMap object?

mutual

/-- **Structural equality**: numbers by kind and value, lists in order, objects by their
entries in any order. -/
def same : Value → Value → Bool
  | .null, .null => true
  | .bool a, .bool b => a == b
  | .num a, .num b => a.same b
  | .str a, .str b => a == b
  | .arr a, .arr b => sameItems a b
  | .obj a, .obj b => a.length == b.length && sameEntries a b
  | _, _ => false

/-- Two lists of the same length, equal item by item. -/
def sameItems : List Value → List Value → Bool
  | [], [] => true
  | v :: vs, w :: ws => same v w && sameItems vs ws
  | _, _ => false

/-- Every entry of the first object is in the second, with an equal value. -/
def sameEntries : List (String × Value) → Object → Bool
  | [], _ => true
  | (k, v) :: rest, o =>
    (match o.get? k with
      | some w => same v w
      | none => false) && sameEntries rest o

end

end Value

end Storefront
