import SourceShelf.Action
import SourceShelf.Decimal.Fixed
import SourceShelf.Ignore.Rules
import SourceShelf.Log
import SourceShelf.Settings.Loading
import SourceShelf.Source.Loading
import SourceShelf.Text.Lowercase

/-!
# Candidate files

`filesBelow` walks through the folders below a folder and leaves out those that
the ignore rules cover.  `judge` decides about each file that is met; those
that are kept, sorted by their paths, are the candidates (`candidateFiles`).
-/

namespace SourceShelf

open Files

/-- Why a folder cannot be scanned: a rule is no pattern, the limit on sizes is
no number of bytes, or a path is too long. -/
inductive ScanError where
  | glob (e : Ignore.GlobError)
  | limit (e : LimitError)
deriving DecidableEq, Repr, Inhabited

/-- The path that some names make below a folder. -/
def joined (names : List String) : String := "/".intercalate names

/-! ## Walking -/

/-- How a walk goes: where it starts, whether a path leads to a folder, which
folders are passed over, and whether links to folders are followed. -/
structure Walk where
  isFolder : List String → Bool
  isPruned : List String → Bool
  followsLinks : Bool

namespace Walk

variable {α : Type}

/-- True for an entry that counts as a folder. -/
def countsAsFolder (w : Walk) (here : List String) (entry : String × Node α) : Bool :=
  match entry.2 with
  | .folder _ => true
  | .link _ => w.isFolder (here ++ [entry.1])
  | .file _ => false

mutual

/-- The files in a folder and in the folders below it; `jump` lists the files
below a link. -/
def filesIn (w : Walk) (jump : List String → List (List String)) (here : List String) :
    Node α → List (List String)
  | .folder entries =>
    ((entries.filter fun e => !w.countsAsFolder here e).map fun e => here ++ [e.1]) ++
      filesInEach w jump here entries
  | .file _ => []
  | .link _ => []

/-- The files in the folders among some entries. -/
def filesInEach (w : Walk) (jump : List String → List (List String)) (here : List String) :
    List (String × Node α) → List (List String)
  | [] => []
  | (name, n) :: rest =>
    let place := here ++ [name]
    let below :=
      if !w.countsAsFolder here (name, n) || w.isPruned place then []
      else
        match n with
        | .link _ => if w.followsLinks then jump place else []
        | .file content => filesIn w jump place (.file content)
        | .folder entries =>
          if w.isFolder place then filesIn w jump place (.folder entries) else []
    below ++ filesInEach w jump here rest

end

/-- The files below a place, over at most `links` links. -/
def filesAt (w : Walk) (nodeAt : List String → Option (Node α)) :
    Nat → List String → List (List String)
  | 0, _ => []
  | links + 1, place =>
    match nodeAt place with
    | some n => filesIn w (filesAt w nodeAt links) place n
    | none => []

end Walk

/-- The path of some names below a folder. -/
def below (folder : Path) (names : List String) : Path :=
  { folder with names := folder.names ++ names }

/-- The files below a folder, but not those in folders that the rules cover. -/
def filesBelow {α : Type} (t : Disk α) (folder : Path) (rules : Ignore.Rules)
    (followsLinks : Bool) :
    List (List String) :=
  let nodeAt names := (t.find (below folder names).text).toOption
  let w : Walk :=
    { isFolder := fun names => t.isFolder (below folder names)
      isPruned := fun names => rules.ignores (joined names ++ "/")
      followsLinks }
  w.filesAt nodeAt (maxLinks + 1) []

/-! ## Judging -/

/-- The suffixes of the files that are looked for. -/
def IndexOptions.suffixes (o : IndexOptions) : List String :=
  o.includeExt.map fun e =>
    "." ++ String.ofList ((lowercase e).toList.dropWhile (· = '.'))

/-- True for a path that leads to a link. -/
def isLink {α : Type} (t : Disk α) (p : Path) : Except FileError Bool :=
  (t.look p false).map fun n => match n with
    | some (.link _) => true
    | _ => false

/-- The number of bytes of what a path leads to. -/
def fileSize {α : Type} (bytesOf : α → ByteArray) (t : Disk α) (p : Path) : Except FileError Int :=
  (t.find p.text).map fun n =>
    match n with
    | .file content => ((bytesOf content).size : Int)
    | _ => 0

/-- What becomes of a file: it is kept or not, and something may be reported. -/
structure Verdict where
  kept : Bool
  log : List LogRecord := []
deriving DecidableEq, Repr, Inhabited

/-- What becomes of a file below a folder. -/
def judge {α : Type} (bytesOf : α → ByteArray) (t : Disk α) (folder : Path) (rules : Ignore.Rules)
    (o : IndexOptions) (names : List String) : Except LimitError Verdict :=
  let p := below folder names
  if !o.suffixes.contains (lowercase p.suffix) || rules.ignores (joined names) then
    .ok { kept := false }
  else
    match isLink t p with
    | .error _ => .error (.longPath p.text)
    | .ok link =>
      if link && !o.followSymlinks then .ok { kept := false }
      else
        match fileSize bytesOf t p with
        | .error e =>
          .ok { kept := false
                log := [.warning ("Skipping " ++ p.text ++ ": " ++ e.message p.text)] }
        | .ok size =>
          o.maxFileBytes.map fun limit =>
            if limit < size then
              { kept := false
                log := [.info ("Skipping " ++ p.text ++ ": larger than " ++
                  Decimal.fixed 1 o.maxFileMb ++ " MB")] }
            else { kept := true }

/-- The files that are kept, and what is reported about the others. -/
def keptFiles (judge : List String → Except LimitError Verdict) :
    List (List String) → Action (List LogRecord) ScanError (List (List String))
  | [] => return []
  | names :: rest => do
    let v ← Action.ofExcept ((judge names).mapError .limit)
    modify (· ++ v.log)
    let kept ← keptFiles judge rest
    return if v.kept then names :: kept else kept

/-- The ignore file of a folder. -/
def ignorePath (folder : Path) : Path := folder.child ".gitignore"

/-- The lines of the ignore file of a folder. -/
def ignoreLines {α : Type} (bytesOf : α → ByteArray) (t : Disk α) (folder : Path) : List String :=
  match t.find (ignorePath folder).text with
  | .ok (.file content) =>
    splitLines (String.ofList (unifyLineEnds (decodeValidUtf8 (bytesOf content)).toList))
  | _ => []

/-- The ignore rules of a folder: the patterns given, then those of its ignore
file. -/
def ignoreRules {α : Type} (bytesOf : α → ByteArray) (t : Disk α) (folder : Path)
    (globs : List String) (useFile : Bool := true) : Except Ignore.GlobError Ignore.Rules :=
  Ignore.Rules.ofLines (globs ++ if useFile then ignoreLines bytesOf t folder else [])

/-- The rules of a scan.  An ignore file that is asked for must have a path that
can be looked at. -/
def scanRules {α : Type} (bytesOf : α → ByteArray) (t : Disk α) (folder : Path)
    (o : IndexOptions) : Except ScanError Ignore.Rules :=
  match if o.useGitignore then t.contentAt (ignorePath folder) else .ok none with
  | .error e => .error (.limit e)
  | .ok _ => (ignoreRules bytesOf t folder o.excludeGlobs o.useGitignore).mapError .glob

/-- The files below a folder that are to be indexed, sorted by their paths. -/
def candidateFiles {α : Type} (bytesOf : α → ByteArray) (t : Disk α) (folder : Path)
    (o : IndexOptions) : Action (List LogRecord) ScanError (List (List String)) := do
  let rules ← Action.ofExcept (scanRules bytesOf t folder o)
  let kept ← keptFiles (judge bytesOf t folder rules o) (filesBelow t folder rules o.followSymlinks)
  return kept.mergeSort fun a b => !(joined b < joined a)

end SourceShelf
