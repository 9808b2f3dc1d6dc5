import Storefront.Command.Run

/-!
# The program

Runs a command line on the files of the disk. All decisions are made elsewhere:
here texts are read and written, directories are listed, and what a command
leaves behind is printed.
-/

namespace Storefront.Disk

/-- The system's number for an error, whose sign some calls turn. -/
def errorNumber (code : UInt32) : Nat := if code < 0x80000000 then code.toNat else (0 - code).toNat

/-- The fault with one of the system's numbers. -/
def numbered (code : UInt32) (details : String) : FileFault :=
  match errorNumber code with
  | 20 => .notDirectory
  | 21 => .isDirectory
  | 36 => .nameTooLong
  | n => .other details n

/-- Why the disk refused. -/
def fault : IO.Error → FileFault
  | .noFileOrDirectory .. => .missing
  | .permissionDenied .. => .denied
  | .inappropriateType _ code details => numbered code details
  | .invalidArgument _ code details => numbered code details
  | e => .other (toString e) 0

/-- An action on the disk, or why it was refused. -/
def guarded {α : Type} (act : IO α) : IO (Except FileFault α) := do
  try
    return .ok (← act)
  catch e =>
    return .error (fault e)

/-- An action on the file of a name that can be one, or why it was refused. -/
def named {α : Type} (name : String) (act : IO α) : IO (Except FileFault α) :=
  match FileName.accept name with
  | .error f => return .error f
  | .ok () => guarded act

/-- The text of a file. -/
def read (name : String) : IO (Except FileFault String) := do
  match ← named name (IO.FS.readBinFile name) with
  | .error f => return .error f
  | .ok bytes =>
    match String.fromUTF8? bytes with
    | some s => return .ok s
    | none => return .error .notText

/-- Whether a name is that of a directory. -/
def isDirectory (name : String) : IO Bool := do
  match FileName.accept name with
  | .error _ => return false
  | .ok () => ((← IO.currentDir) / name).isDir

/-- The names of the files in a directory, and of those in the directories below it. Links are not
followed. -/
partial def list (directory : String) (recursive : Bool) : IO (List String) := do
  let mut names := []
  for entry in ← ((← IO.currentDir) / directory).readDir do
    let name := FileName.child directory entry.fileName
    match (← entry.path.symlinkMetadata).type with
    | .file => names := names ++ [name]
    | .dir => if recursive then names := names ++ (← list name recursive)
    | _ => pure ()
  return names

/-- **Access to the files of the disk.** -/
def access : FileAccess IO where
  read := read
  write name text := named name (IO.FS.writeFile name text)
  isDirectory := isDirectory
  list := list

/-- Prints what a command leaves behind. -/
def print (o : Outcome) : IO Unit := do
  let output ← IO.getStdout
  output.putStr o.output
  output.flush
  for line in o.reports do
    IO.eprintln line

/-- When files were last changed. -/
def changes (names : List String) : IO (List IO.FS.SystemTime) := do
  let here ← IO.currentDir
  names.mapM fun (name : String) => return (← (here / name).metadata).modified

/-- Prints the outcome of a request again whenever one of the files has changed, until they can no
longer be seen. -/
partial def watch (r : Request) (names : List String) (seen : List IO.FS.SystemTime) : IO UInt32 := do
  match ← guarded (changes names) with
  | .error f =>
    print (.failed "" (.unwritable f))
    return 1
  | .ok times =>
    if times != seen then
      print (← r.run access)
    IO.sleep 200
    watch r names times

end Storefront.Disk

open Storefront in
/-- The program. -/
def main (args : List String) : IO UInt32 := do
  match Request.ofArguments? args with
  | some (.command config (some (.render template page output stats true))) =>
    Disk.watch (.command config (some (.render template page output stats false))) [template, page.data] []
  | _ =>
    let outcome ← runArguments Disk.access args
    Disk.print outcome
    return outcome.exitCode.toUInt32
