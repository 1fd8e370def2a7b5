set_option autoImplicit false

/-! # Paths

A path is a row of names, from the working directory or from the root on. Repeated slashes and
single dots mean nothing and are dropped when a path is read; two dots are kept, since what they
mean depends on the files. A path that begins with exactly two slashes keeps them. -/

namespace LoxSyntax

/-- A path to a file or directory. -/
structure Path where
  /-- What stands in front of the names: nothing, or one or two slashes. -/
  anchor : String := ""
  names : List String
  deriving DecidableEq

namespace Path

/-- The parts of a text between slashes. -/
def splitSlashes : List Char → List (List Char)
  | [] => [[]]
  | c :: rest =>
    match splitSlashes rest with
    | [] => [[c]]
    | part :: parts => if c = '/' then [] :: part :: parts else (c :: part) :: parts

/-- The path that a text names. -/
def ofString (text : String) : Path where
  anchor :=
    match (text.toList.takeWhile (· = '/')).length with
    | 0 => ""
    | 2 => "//"
    | _ => "/"
  names := ((splitSlashes text.toList).filter fun part => part ≠ [] && part ≠ ['.']).map
    String.ofList

/-- The text of a path; a single dot where there is no name. -/
def text (p : Path) : String :=
  if p.anchor.isEmpty && p.names.isEmpty then "." else p.anchor ++ "/".intercalate p.names

/-- The directory that a path lies in. -/
def parent (p : Path) : Path := { p with names := p.names.dropLast }

/-- The path of a name in a directory. -/
def child (p : Path) (name : String) : Path := { p with names := p.names ++ [name] }

end Path

end LoxSyntax
