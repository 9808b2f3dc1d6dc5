import Storefront.Failure
import Storefront.Text.Case

/-!
# Access to files

What commands need of a file system: reading and writing whole texts, telling
directories from files, and listing the files below a directory. Commands are
written against this record for any monad, so they run on the disk and on files
kept in memory alike.
-/

namespace Storefront

/-- **Access to files** in a monad. -/
structure FileAccess (m : Type → Type) where
  /-- The text of a file. -/
  read : String → m (Except FileFault String)
  /-- Gives a file a text, making it if it is missing. -/
  write : String → String → m (Except FileFault Unit)
  /-- Whether a name is that of a directory. -/
  isDirectory : String → m Bool
  /-- The names of the files in a directory, with those in the directories below it if asked. -/
  list : (directory : String) → (recursive : Bool) → m (List String)

namespace FileName

/-! ## Names that no system takes -/

/-- How many bytes the whole of a name may have. -/
def nameLimit : Nat := 4095

/-- How many bytes a part between slashes may have. -/
def partLimit : Nat := 255

/-- **Lets a name through** unless nothing can have it: it holds a NUL character, is too long, or is
empty. -/
def accept (name : String) : Except FileFault Unit :=
  if name.toList.contains '\x00' then .error .nulInName
  else if nameLimit < name.utf8ByteSize then .error .nameTooLong
  else if name = "" then .error .missing
  else .ok ()

/-! ## Parts of names -/

/-- The parts of a name between its slashes. -/
def parts (name : String) : List String := (name.toList.splitOn '/').map String.ofList

/-- The name of an entry of a directory. -/
def child (directory entry : String) : String :=
  if directory.toList.getLast? = some '/' then directory ++ entry else directory ++ "/" ++ entry

/-- The last part of a name. -/
def last (name : String) : List Char := ((parts name).getLast?.getD "").toList

/-- **How a name ends**: what follows the last point of its last part, unless nothing stands before
that point. -/
def extension? (name : String) : Option String :=
  match Text.cutAtLast? '.' (last name) with
  | some (_ :: _, extension) => some (String.ofList extension)
  | _ => none

/-- Whether a name ends in one of some extensions, whatever the case of its letters. -/
def endsIn (extensions : List String) (name : String) : Bool :=
  (extension? name).any fun extension => extensions.any fun wanted => Text.sameLetters wanted extension

end FileName

end Storefront
