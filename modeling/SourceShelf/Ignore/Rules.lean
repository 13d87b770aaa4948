import SourceShelf.Files.Path
import SourceShelf.Ignore.Glob

/-!
# Ignore rules

Rules come one a line: a pattern, or one behind `!`, which takes paths back.
Of all rules that cover a path the last one decides (`Rules.ignores`).
-/

namespace SourceShelf.Ignore

/-- A pattern, and whether it ignores what it covers or takes it back. -/
structure Rule where
  ignores : Bool
  glob : Glob
deriving DecidableEq, Repr, Inhabited

/-- Rules, in order. -/
abbrev Rules := List Rule

/-- The rule that a line writes.  Empty lines and comments write none. -/
def Rule.ofLine? (line : String) : Except GlobError (Option Rule) :=
  let pattern := trimPattern line
  if pattern = "" || pattern = "/" || pattern.startsWith "#" then .ok none
  else
    match pattern.toList with
    | '!' :: cs => (globOf line (String.ofList cs)).map fun g => g.map (⟨false, ·⟩)
    | _ => (globOf line pattern).map fun g => g.map (⟨true, ·⟩)

/-- The rules that some lines write. -/
def Rules.ofLines : List String → Except GlobError Rules
  | [] => .ok []
  | l :: ls =>
    match Rule.ofLine? l with
    | .error e => .error e
    | .ok r => (Rules.ofLines ls).map (r.toList ++ ·)

/-- A path as the rules see it: without one `./` or `/` in front. -/
def normalized (path : String) : List Char :=
  match path.toList with
  | '/' :: cs => cs
  | '.' :: '/' :: cs => cs
  | cs => cs

/-- True when the last rule that covers a path ignores it. -/
def Rules.ignores (rules : Rules) (path : String) : Bool :=
  let cs := normalized path
  ((rules.reverse.find? fun r => r.glob.covers cs).map Rule.ignores).getD false

/-- Why a path cannot be looked at: it does not lie below the folder. -/
structure OutsideFolder where
  path : Files.Path
  folder : Files.Path
deriving DecidableEq, Repr, Inhabited

/-- The text of the error. -/
def OutsideFolder.message (e : OutsideFolder) : String :=
  quoted e.path.text ++ " is not in the subpath of " ++ quoted e.folder.text ++
    " OR one path is relative and the other is absolute."

/-- True when rules ignore a path below a folder. -/
def Rules.ignoresPath (rules : Rules) (folder path : Files.Path) : Except OutsideFolder Bool :=
  match path.below? folder with
  | some p => .ok (rules.ignores p.text)
  | none => .error ⟨path, folder⟩

end SourceShelf.Ignore
