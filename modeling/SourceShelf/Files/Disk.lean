import SourceShelf.Files.Path
import SourceShelf.Text.Quoted

/-!
# Disks

The folders, files and links on a disk, and what becomes of a path there.  A
file holds a content of type `α`.

`follow` follows a path name by name.  A link is replaced by its target, at
most forty times; `..` leads to the folder that holds the current one.  All
other operations work at the place that `follow` finds.

The limits are those of the operating system: on the bytes of a name and of a
path, and on links.  Everyone may look into every folder and at every file.
-/

namespace SourceShelf.Files

/-- What stands at a place on a disk. -/
inductive Node (α : Type) where
  | file (content : α)
  | folder (entries : List (String × Node α))
  | link (target : String)
deriving Repr, Inhabited

/-- Why a path leads nowhere or to the wrong thing. -/
inductive FileError where
  | notFound | exists | notFolder | isFolder | nameTooLong | tooManyLinks
deriving DecidableEq, Repr, Inhabited

namespace FileError

/-- The number of the error. -/
def number : FileError → Nat
  | notFound => 2
  | «exists» => 17
  | notFolder => 20
  | isFolder => 21
  | nameTooLong => 36
  | tooManyLinks => 40

/-- What the error is called. -/
def text : FileError → String
  | notFound => "No such file or directory"
  | «exists» => "File exists"
  | notFolder => "Not a directory"
  | isFolder => "Is a directory"
  | nameTooLong => "File name too long"
  | tooManyLinks => "Too many levels of symbolic links"

/-- The error with its number and the path. -/
def message (e : FileError) (path : String) : String :=
  "[Errno " ++ toString e.number ++ "] " ++ e.text ++ ": " ++ quoted path

end FileError

namespace Node

variable {α : Type}

/-- The entry of a folder. -/
def child? (n : Node α) (name : String) : Option (Node α) :=
  match n with
  | folder entries => entries.lookup name
  | _ => none

/-- What stands at a place, given by the names of the folders above it. -/
def at? (n : Node α) : List String → Option (Node α)
  | [] => some n
  | c :: cs => (n.child? c).bind (·.at? cs)

/-- Changes the entry of a folder; a new one comes last. -/
def alterEntries (entries : List (String × Node α)) (name : String)
    (f : Option (Node α) → Option (Node α)) : List (String × Node α) :=
  if entries.any (·.1 = name) then
    entries.filterMap fun e => if e.1 = name then (f (some e.2)).map (e.1, ·) else some e
  else
    match f none with
    | some n => entries ++ [(name, n)]
    | none => entries

/-- Changes what stands at a place.  The folders above it must be there. -/
def alter (f : Option (Node α) → Option (Node α)) (place : List String) (n : Node α) : Node α :=
  match place with
  | [] => (f (some n)).getD n
  | [c] =>
    match n with
    | folder entries => folder (alterEntries entries c f)
    | n => n
  | c :: cs =>
    match n with
    | folder entries => folder (alterEntries entries c fun m => m.map (alter f cs))
    | n => n

end Node

/-! ## Following paths -/

/-- Where a path leads: to a place where something stands, or to a new name in
a folder. -/
inductive Spot where
  | present (place : List String)
  | absent (folder : List String) (name : String)
deriving DecidableEq, Repr, Inhabited

/-- The most links that are followed on one path. -/
def maxLinks : Nat := 40

/-- The most bytes of a name. -/
def maxNameBytes : Nat := 255

/-- The most bytes of a text that is followed as a path. -/
def maxPathBytes : Nat := 4095

/-- The steps that a text asks for.  A slash at its end asks for a folder. -/
def stepsOf (s : String) : List String := s.splitOn "/"

/-- Follows steps from a folder on; `jump` follows what a link leads to. -/
def follow {α : Type} (jump : List String → List String → Except FileError Spot) (last : Bool)
    (root : Node α) : List String → List String → Except FileError Spot
  | place, [] => .ok (.present place)
  | place, step :: rest =>
    match root.at? place with
    | some (.folder _) =>
      if step = "" || step = "." then follow jump last root place rest
      else if step = ".." then follow jump last root place.dropLast rest
      else if maxNameBytes < step.utf8ByteSize then .error .nameTooLong
      else
        match root.at? (place ++ [step]) with
        | none => if rest.isEmpty then .ok (.absent place step) else .error .notFound
        | some (.link target) =>
          if rest.isEmpty && !last then .ok (.present (place ++ [step]))
          else if target = "" then .error .notFound
          else jump (if target.startsWith "/" then [] else place) (stepsOf target ++ rest)
        | some _ => follow jump last root (place ++ [step]) rest
    | _ => .error .notFolder

/-- Follows steps from a folder on, over at most `links` links.  With `last`, a
link at the end is followed as well. -/
def resolveSteps {α : Type} (last : Bool) (root : Node α) :
    Nat → List String → List String → Except FileError Spot
  | 0 => follow (fun _ _ => .error .tooManyLinks) last root
  | links + 1 => follow (resolveSteps last root links) last root

/-- A disk and the folder in which relative paths start. -/
structure Disk (α : Type) where
  root : Node α := .folder []
  cwd : List String := []
deriving Repr, Inhabited

namespace Disk

variable {α : Type}

/-- Where a text leads. -/
def spotOf (t : Disk α) (s : String) (last : Bool := true) : Except FileError Spot :=
  if s = "" then .error .notFound
  else if maxPathBytes < s.utf8ByteSize then .error .nameTooLong
  else resolveSteps last t.root maxLinks (if s.startsWith "/" then [] else t.cwd) (stepsOf s)

/-- What stands where a text leads. -/
def find (t : Disk α) (s : String) (last : Bool := true) : Except FileError (Node α) :=
  match t.spotOf s last with
  | .error e => .error e
  | .ok (.absent _ _) => .error .notFound
  | .ok (.present place) =>
    match t.root.at? place with
    | some n => .ok n
    | none => .error .notFound

/-- What stands where a path leads, if anything does.  Only a path or a name in
it that is too long is an error. -/
def look (t : Disk α) (p : Path) (last : Bool := true) : Except FileError (Option (Node α)) :=
  match t.find p.text last with
  | .ok n => .ok (some n)
  | .error .nameTooLong => .error .nameTooLong
  | .error _ => .ok none

/-- True where a path leads to a file. -/
def isFile (t : Disk α) (p : Path) : Except FileError Bool :=
  (t.look p).map fun n => match n with
    | some (.file _) => true
    | _ => false

/-- True where a path leads to a folder. -/
def isFolder (t : Disk α) (p : Path) : Bool :=
  match t.find p.text with
  | .ok (.folder _) => true
  | _ => false

/-- True where a path leads to anything. -/
def hasPath (t : Disk α) (p : Path) : Except FileError Bool := (t.look p).map Option.isSome

/-- The content of the file where a path leads. -/
def read (t : Disk α) (p : Path) : Except FileError α :=
  match t.find p.text with
  | .ok (.file content) => .ok content
  | .ok _ => .error .isFolder
  | .error e => .error e

/-- Puts something at a place. -/
def put (t : Disk α) (place : List String) (n : Node α) : Disk α :=
  { t with root := t.root.alter (fun _ => some n) place }

/-- A text without the slashes at its end. -/
def withoutSlashes (s : String) : String :=
  String.ofList (s.toList.reverse.dropWhile (· = '/')).reverse

/-- Writes a file where a text leads.  A slash at its end asks for a folder,
which cannot be written. -/
def write (t : Disk α) (s : String) (content : α) : Except FileError (Disk α) :=
  if s ≠ "" && s.endsWith "/" then
    let front := withoutSlashes s
    if maxPathBytes < s.utf8ByteSize then .error .nameTooLong
    else if front = "" then .error .isFolder
    else
      match t.spotOf front with
      | .error e => .error e
      | .ok _ => .error .isFolder
  else
    match t.spotOf s with
    | .error e => .error e
    | .ok (.absent folder name) => .ok (t.put (folder ++ [name]) (.file content))
    | .ok (.present place) =>
      match t.root.at? place with
      | some (.file _) => .ok (t.put place (.file content))
      | _ => .error .isFolder

/-- Makes a folder whose parent is there. -/
def makeFolder (t : Disk α) (p : Path) : Except FileError (Disk α) :=
  match t.spotOf p.text false with
  | .error e => .error e
  | .ok (.present _) => .error .exists
  | .ok (.absent folder name) => .ok (t.put (folder ++ [name]) (.folder []))

/-- Makes a folder and the missing ones above it.  A folder that is there is
kept.  The error comes with the path at which it arose. -/
def makeFoldersFrom (t : Disk α) (anchor : Anchor) : Nat → List String →
    Except (FileError × Path) (Disk α)
  | 0, _ => .ok t
  | fuel + 1, names =>
    let p : Path := ⟨anchor, names⟩
    match t.makeFolder p with
    | .ok t => .ok t
    | .error .notFound =>
      if names.isEmpty then .error (.notFound, p)
      else
        match t.makeFoldersFrom anchor fuel names.dropLast with
        | .error e => .error e
        | .ok t =>
          match t.makeFolder p with
          | .ok t => .ok t
          | .error e => if t.isFolder p then .ok t else .error (e, p)
    | .error e => if t.isFolder p then .ok t else .error (e, p)

/-- Makes the folder of a path and the missing ones above it. -/
def makeFolders (t : Disk α) (p : Path) : Except (FileError × Path) (Disk α) :=
  t.makeFoldersFrom p.anchor (p.names.length + 1) p.names

/-- Removes what stands where a path leads.  A link is removed itself. -/
def remove (t : Disk α) (p : Path) : Disk α :=
  match t.spotOf p.text false with
  | .ok (.present place) => { t with root := t.root.alter (fun _ => none) place }
  | _ => t

/-! ## Places of paths -/

/-- A step of a path, or the end of the target of a link. -/
inductive RealStep where
  | name (step : String)
  | behind (link : List String)
deriving DecidableEq, Repr, Inhabited

/-- The names among some steps. -/
def RealStep.names (steps : List RealStep) : List String :=
  steps.filterMap fun
    | name step => if step = "" || step = "." then none else some step
    | behind _ => none

/-- The place where steps lead if no more of them is known than is on disk:
behind a name that is missing, names are added and `..` takes the last one
off.  A link whose target leads back to it is not followed again, and neither
is anything behind it; `opened` holds the links whose targets are being
followed.  A link at a path that is too long is not seen. -/
def realSteps (root : Node α) : Nat → List (List String) → List String → List RealStep → List String
  | _, _, place, [] => place
  | 0, _, place, steps => place ++ RealStep.names steps
  | fuel + 1, opened, place, .behind link :: rest =>
    realSteps root fuel (opened.erase link) place rest
  | fuel + 1, opened, place, .name step :: rest =>
    if step = "" || step = "." then realSteps root fuel opened place rest
    else if step = ".." then realSteps root fuel opened place.dropLast rest
    else
      let next := place ++ [step]
      match (root.at? next).filter fun _ =>
        (Path.mk .root next).text.utf8ByteSize ≤ maxPathBytes with
      | some (.link target) =>
        if opened.contains next then next ++ RealStep.names rest
        else
          realSteps root fuel (next :: opened) (if target.startsWith "/" then [] else place)
            ((stepsOf target).map .name ++ .behind next :: rest)
      | _ => realSteps root fuel opened next rest

/-- The place where a path leads, with all links followed.  Links that lead in
a circle are an error, which comes with the path at which they do. -/
def realPath (t : Disk α) (p : Path) : Except Path Path :=
  let start := if p.anchor = .relative then t.cwd else []
  let real : Path := ⟨.root, realSteps t.root (4096 + p.names.length) [] start (p.names.map .name)⟩
  match t.find real.text with
  | .error .tooManyLinks => .error real
  | _ => .ok real

end Disk

end SourceShelf.Files
