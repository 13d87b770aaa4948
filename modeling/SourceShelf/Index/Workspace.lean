import SourceShelf.Digest.Sha1
import SourceShelf.Files.Disk
import SourceShelf.Settings.Options

/-!
# Workspaces

A workspace is what a path asks for: a folder, or a file together with the
folder that it stands in.  The folder has an index, either below itself or
below the user's home.
-/

namespace SourceShelf

open Files

/-- Why a path asks for nothing. -/
inductive WorkspaceError where
  | noHome
  | linkLoop (path : Path)
  | file (e : FileError) (path : Path)
deriving DecidableEq, Repr, Inhabited

/-- The text of the error. -/
def WorkspaceError.message : WorkspaceError → String
  | noHome => "Could not determine home directory."
  | linkLoop p => "Symlink loop from " ++ quoted p.text
  | file e p => e.message p.text

/-- A folder to index, or a file of one. -/
structure Workspace where
  root : Path
  target : Path
  name : Option String := none
  isSingleFile : Bool := false
deriving DecidableEq, Repr, Inhabited

/-- A path in which `~` at the front stands for the user's home.  The homes of
other users are not known. -/
def Files.Path.expandHome (p home : Path) : Except WorkspaceError Path :=
  match p.anchor, p.names with
  | .relative, n :: rest =>
    if n = "~" then .ok (home.append { names := rest })
    else if n.startsWith "~" then .error .noHome
    else .ok p
  | _, _ => .ok p

namespace Workspace

/-- The workspace that a path asks for. -/
def ofPath {α : Type} (t : Disk α) (home : Path) (path : String) (name : Option String := none) :
    Except WorkspaceError Workspace :=
  match (Path.ofString path).expandHome home with
  | .error e => .error e
  | .ok p =>
    match t.realPath p with
    | .error q => .error (.linkLoop q)
    | .ok target =>
      match t.isFile target with
      | .error e => .error (.file e target)
      | .ok isSingleFile =>
        .ok { root := if isSingleFile then target.parent else target, target, name, isSingleFile }

/-- The name of the index of a workspace: the start of the digest of its
folder's path. -/
def id (w : Workspace) : String :=
  String.ofList ((Digest.sha1 w.root.text.toUTF8).toList.take 16)

end Workspace

/-- Where the index of a workspace is. -/
structure IndexLocation where
  baseDir : Path
  workspace : Workspace
deriving DecidableEq, Repr, Inhabited

namespace IndexLocation

/-- The location below the folder itself or below the user's home. -/
def ofWorkspace (home : Path) (w : Workspace) (isLocal : Bool) : IndexLocation :=
  ⟨(if isLocal then w.root else home).child storeFolderName, w⟩

/-- The folder of the index. -/
def path (l : IndexLocation) : Path := (l.baseDir.child "workspaces").child l.workspace.id

/-- The file of the manifest. -/
def manifestPath (l : IndexLocation) : Path := l.path.child "manifest.json"

end IndexLocation

end SourceShelf
