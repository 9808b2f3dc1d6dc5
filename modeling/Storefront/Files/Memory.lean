import Storefront.Files.Access

/-!
# Files in memory

Text files below a working directory, and around it the directories that every
system has, up to the root. A directory is there as long as something is in it, or
when it is kept as such. Names are resolved step by step, as a file system does: a
step through a file fails, a step up from the root stays there, and a name may lead
out of the working directory, where there is nothing to read but a sink.
-/

namespace Storefront

/-- **What may be kept at a path.** -/
inductive FileEntry where
  /-- A file with a text. -/
  | text (content : String)
  /-- A directory, with or without anything in it. -/
  | directory
  /-- A file that stays empty whatever is written to it. -/
  | sink

/-- **Files in memory**, by their paths from the root. -/
structure Files where
  /-- The working directory, from which names are meant that do not start with a slash. -/
  here : List String
  /-- What is kept, at most one entry for each path. -/
  entries : List (List String × FileEntry)

namespace Files

/-- What is kept at a path. -/
def entryAt? (fs : Files) (path : List String) : Option FileEntry :=
  (fs.entries.find? (·.1 == path)).map (·.2)

/-- What follows `lead` in a path that starts with it. -/
def below? : (lead : List String) → List String → Option (List String)
  | [], path => some path
  | _ :: _, [] => none
  | d :: lead, e :: path => if d = e then below? lead path else none

/-- Whether there is a directory at a path: the root, one that is kept, or one that something
is in. -/
def hasDirectory (fs : Files) (path : List String) : Bool :=
  path.isEmpty || fs.entries.any fun (other, entry) =>
    match below? path other, entry with
    | some [], .directory => true
    | some (_ :: _), _ => true
    | _, _ => false

/-! ## Names -/

/-- The directory from which steps may go on. -/
def enter (fs : Files) (path : List String) : Except FileFault (List String) :=
  if fs.hasDirectory path then .ok path
  else if (fs.entryAt? path).isSome then .error .notDirectory
  else .error .missing

/-- One step of a name from a path. -/
def step (fs : Files) (path : List String) (part : String) : Except FileFault (List String) := do
  let inside ← fs.enter path
  if part = "" ∨ part = "." then return inside
  else if part = ".." then return inside.dropLast
  else if FileName.partLimit < part.utf8ByteSize then throw .nameTooLong
  else return inside ++ [part]

/-- Where the steps of a name start. -/
def start (fs : Files) (name : String) : List String :=
  if name.toList.head? = some '/' then [] else fs.here

/-- **The path that a name means.** -/
def resolve (fs : Files) (name : String) : Except FileFault (List String) := do
  FileName.accept name
  (FileName.parts name).foldlM fs.step (fs.start name)

/-! ## Reading and writing -/

/-- The text under a name. -/
def read (fs : Files) (name : String) : Except FileFault String := do
  let path ← fs.resolve name
  match fs.entryAt? path with
  | some (.text content) => return content
  | some .sink => return ""
  | some .directory => throw .isDirectory
  | none => throw (if fs.hasDirectory path then .isDirectory else .missing)

/-- Whether a name is that of a directory. -/
def isDirectory (fs : Files) (name : String) : Bool :=
  match fs.resolve name with
  | .ok path => fs.hasDirectory path
  | .error _ => false

/-- Entries with a text put at a path, in the place of what was there. -/
def put (path : List String) (content : String) :
    List (List String × FileEntry) → List (List String × FileEntry)
  | [] => [(path, .text content)]
  | (other, .sink) :: rest =>
    if other = path then (other, .sink) :: rest else (other, .sink) :: put path content rest
  | (other, entry) :: rest =>
    if other = path then (path, .text content) :: rest else (other, entry) :: put path content rest

/-- A name without slashes at its end. -/
def withoutSlashes (name : String) : String :=
  String.ofList (name.toList.reverse.dropWhile (· == '/')).reverse

/-- The files with a text put under a name, in a directory that is there. A name that ends in a slash
is that of a directory, there or not, and takes no text. -/
def write (fs : Files) (name content : String) : Except FileFault Files := do
  FileName.accept name
  let plain := withoutSlashes name
  let parts := FileName.parts plain
  let directory ← fs.enter (← parts.dropLast.foldlM fs.step (fs.start name))
  if plain != name then throw .isDirectory
  let path ← fs.step directory (parts.getLast?.getD "")
  if fs.hasDirectory path then throw .isDirectory
  return { fs with entries := put path content fs.entries }

/-- The files in a directory, by their paths from there. -/
def listed (fs : Files) (path : List String) (recursive : Bool) : List (List String) :=
  fs.entries.filterMap fun (other, entry) =>
    match below? path other, entry with
    | some (first :: rest), .text _ => if recursive || rest.isEmpty then some (first :: rest) else none
    | _, _ => none

/-- The names of the files in a directory. -/
def list (fs : Files) (directory : String) (recursive : Bool) : List String :=
  match fs.resolve directory with
  | .ok path => (fs.listed path recursive).map fun rest => rest.foldl FileName.child directory
  | .error _ => []

/-! ## Files to start from -/

/-- What every system keeps outside of working directories. -/
def systemEntries : List (List String × FileEntry) :=
  (["dev", "null"], .sink) ::
    ["bin", "dev", "etc", "home", "lib", "opt", "proc", "root", "run", "sbin", "srv", "sys", "tmp", "usr",
      "var"].map fun name => ([name], .directory)

/-- An empty working directory in a system. -/
def empty : Files :=
  let here := ["tmp", "storefront"]
  ⟨here, (here, .directory) :: systemEntries⟩

/-- The path that a name means when all directories on its way are made as needed. -/
def place (fs : Files) (name : String) : List String :=
  (FileName.parts name).foldl (fun path part =>
    if part = "" ∨ part = "." then path
    else if part = ".." then path.dropLast
    else path ++ [part]) (fs.start name)

/-- Files with one text under each name, and the directories for them. -/
def ofList (texts : List (String × String)) : Files :=
  texts.foldl (fun fs (name, content) => { fs with entries := put (fs.place name) content fs.entries }) empty

/-- **Access to files in memory.** -/
def access : FileAccess (StateM Files) where
  read name := return (← get).read name
  write name content := do
    match (← get).write name content with
    | .ok fs => set fs; return .ok ()
    | .error fault => return .error fault
  isDirectory name := return (← get).isDirectory name
  list directory recursive := return (← get).list directory recursive

end Files

end Storefront
