/-!
# Paths

A path is what stands before its first name — nothing, one slash or two — and
its names.  Empty names and `.` are left out when a path is read; `..` stays,
since what it means depends on the folders on disk.
-/

namespace SourceShelf.Files

/-- What stands before the first name of a path. -/
inductive Anchor where
  | relative
  | root
  | doubleRoot
deriving DecidableEq, Repr, Inhabited

/-- The text of an anchor. -/
def Anchor.text : Anchor → String
  | relative => ""
  | root => "/"
  | doubleRoot => "//"

/-- A path. -/
structure Path where
  anchor : Anchor := .relative
  names : List String := []
deriving DecidableEq, Repr, Inhabited

namespace Path

/-- The anchor of a text: two slashes are kept, more of them count as one. -/
def anchorOf (s : String) : Anchor :=
  match s.toList with
  | '/' :: '/' :: '/' :: _ => .root
  | '/' :: '/' :: _ => .doubleRoot
  | '/' :: _ => .root
  | _ => .relative

/-- The path that a text writes. -/
def ofString (s : String) : Path where
  anchor := anchorOf s
  names := (s.splitOn "/").filter fun n => n ≠ "" && n ≠ "."

/-- The text of a path. -/
def text (p : Path) : String :=
  if p.anchor = .relative && p.names.isEmpty then "." else p.anchor.text ++ "/".intercalate p.names

/-- A path read from a folder on; one with an anchor stays as it is. -/
def append (p q : Path) : Path :=
  if q.anchor = .relative then { p with names := p.names ++ q.names } else q

/-- A path with a name behind it. -/
def child (p : Path) (name : String) : Path := { p with names := p.names ++ [name] }

/-- A path without its last name. -/
def parent (p : Path) : Path := { p with names := p.names.dropLast }

/-- The last name of a path. -/
def name (p : Path) : String := p.names.getLastD ""

/-- The last dot of a name and what follows it, unless it is the first or the
last character. -/
def suffixOf (name : String) : String :=
  let tail := (name.toList.reverse.takeWhile (· ≠ '.')).reverse
  let front := name.length - tail.length
  if tail.isEmpty || front ≤ 1 then "" else String.ofList ('.' :: tail)

/-- The suffix of a path. -/
def suffix (p : Path) : String := suffixOf p.name

/-- What is left of a path below a folder. -/
def below? (p folder : Path) : Option Path :=
  if p.anchor = folder.anchor && folder.names.isPrefixOf p.names then
    some { anchor := .relative, names := p.names.drop folder.names.length }
  else none

end Path

end SourceShelf.Files
