import LoxSyntax.Command.Path
set_option autoImplicit false

/-! # Files

The command reads and writes whole files. `FileAccess` says how; a `FileTree` is a file system as a
value, which is what the behaviour of the command is stated about. -/

namespace LoxSyntax

/-- The bytes of a file. -/
abbrev Bytes := List UInt8

/-- Why a file could not be read or written. -/
inductive AccessFault
  | notFound
  | notDirectory
  | isDirectory
  | nameTooLong
  /-- The path holds the character that ends paths. -/
  | embeddedNul
  /-- Any other reason, by its number and in words. No `FileTree` gives one. -/
  | other (code : Nat) (reason : String)
  deriving DecidableEq

namespace AccessFault

/-- The number that the system gives to a fault. -/
def code : AccessFault → Nat
  | notFound => 2
  | notDirectory => 20
  | isDirectory => 21
  | nameTooLong => 36
  | embeddedNul => 22
  | other code _ => code

/-- A fault in words. -/
def reason : AccessFault → String
  | notFound => "No such file or directory"
  | notDirectory => "Not a directory"
  | isDirectory => "Is a directory"
  | nameTooLong => "File name too long"
  | embeddedNul => "embedded null byte"
  | other _ reason => reason

end AccessFault

/-- Reading and writing files by their paths, none of which holds a zero character. -/
class FileAccess (m : Type → Type) where
  read : Path → m (Except AccessFault Bytes)
  write : Path → Bytes → m (Except AccessFault Unit)

/-- What a name in a directory stands for. -/
inductive FileNode
  | file (content : Bytes)
  | directory
  deriving DecidableEq

/-- A location in a file system: the names from the root on. -/
abbrev Location := List String

/-- A file system with a working directory. The root is a directory and is not listed. All of it may
    be read and written: there are no permissions. -/
structure FileTree where
  entries : List (Location × FileNode) := []
  workingDirectory : Location := []
  deriving DecidableEq

namespace FileTree

/-- What is at a location. -/
def node? (t : FileTree) (location : Location) : Option FileNode :=
  if location.isEmpty then some .directory else t.entries.lookup location

/-- Puts something at a location. -/
def put (t : FileTree) (location : Location) (node : FileNode) : FileTree :=
  { t with entries := (location, node) :: t.entries.filter (·.1 ≠ location) }

/-- Makes a directory and those that it lies in. -/
def makeDirectory (t : FileTree) (location : Location) : FileTree :=
  (List.range location.length).foldl (fun t n => t.put (location.take (n + 1)) .directory) t

/-- Makes a file and the directories that it lies in. -/
def makeFile (t : FileTree) (location : Location) (content : Bytes) : FileTree :=
  (t.makeDirectory location.dropLast).put location (.file content)

/-- How many bytes a name may have. -/
def maxNameBytes : Nat := 255

/-- How many bytes a path may have. -/
def maxPathBytes : Nat := 4095

/-- The location that names lead to from another one. Whatever a name is looked up in has to be a
    directory; the last name need not stand for anything. -/
def walk (t : FileTree) : Location → List String → Except AccessFault Location
  | here, [] => .ok here
  | here, name :: names =>
    match t.node? here with
    | none => .error .notFound
    | some (.file _) => .error .notDirectory
    | some .directory =>
      if name = ".." then walk t here.dropLast names
      else if maxNameBytes < name.utf8ByteSize then .error .nameTooLong
      else walk t (here ++ [name]) names

/-- The location that a path leads to. -/
def locate (t : FileTree) (p : Path) : Except AccessFault Location :=
  if maxPathBytes < p.text.utf8ByteSize then .error .nameTooLong
  else t.walk (if p.anchor.isEmpty then t.workingDirectory else []) p.names

/-- The content of the file at a path. -/
def read (t : FileTree) (p : Path) : Except AccessFault Bytes := do
  match t.node? (← t.locate p) with
  | none => throw .notFound
  | some .directory => throw .isDirectory
  | some (.file content) => return content

/-- The file system after a file at a path was given new content. -/
def write (t : FileTree) (p : Path) (content : Bytes) : Except AccessFault FileTree := do
  let location ← t.locate p
  if t.node? location = some .directory then throw .isDirectory
  return t.put location (.file content)

/-- The files in the working directory and below it, by their names from there on. -/
def files (t : FileTree) : List (Location × Bytes) :=
  t.entries.filterMap fun (location, node) =>
    match node with
    | .file content =>
      if t.workingDirectory.isPrefixOf location then
        some (location.drop t.workingDirectory.length, content)
      else none
    | .directory => none

end FileTree

instance : FileAccess (StateM FileTree) where
  read p := return (← get).read p
  write p content := do
    match (← get).write p content with
    | .ok t => do
      set t
      return .ok ()
    | .error fault => return .error fault

end LoxSyntax
