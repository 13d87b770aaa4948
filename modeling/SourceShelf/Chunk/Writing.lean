import SourceShelf.Chunk.Basic
import SourceShelf.Java.Unit

/-!
# Writing chunks

Each type of a unit gives a header chunk, then a chunk for each of its methods
and a chunk for each of its constructors.  A header repeats the package, the
imports and the state of the type and leaves the members out; a member stands
in a bare `class` with the qualified name of its type.

`CompilationUnit.chunks` lists the chunks of a unit up to the first type whose
name has no answer.
-/

namespace SourceShelf.Java

/-- The package declaration and a blank line. -/
def CompilationUnit.packageBlock (u : CompilationUnit) : String :=
  if u.package.isEmpty then "" else "package " ++ u.package ++ ";\n\n"

/-- The imports as written, one on each line, and a blank line. -/
def CompilationUnit.importBlock (u : CompilationUnit) : String :=
  if u.imports.isEmpty then "" else String.join (u.imports.map (·.text ++ "\n")) ++ "\n"

/-- Items with commas between. -/
def listed (items : List String) : String := ", ".intercalate items

/-- The declaration of a type up to its body. -/
def TypeDeclaration.declarationLine (t : TypeDeclaration) : String :=
  String.join (t.modifiers.map (· ++ " ")) ++ t.kind.keyword ++ " " ++ t.name ++
    (if t.typeParameters.isEmpty then "" else "<" ++ listed t.typeParameters ++ ">") ++
    t.recordComponents.getD "" ++
    (if t.supertypes.isEmpty then "" else " extends " ++ listed t.supertypes) ++
    (if t.interfaces.isEmpty then "" else " implements " ++ listed t.interfaces)

/-- A comment on lines of its own.  An empty one is left out. -/
def docBlock (doc : Option String) : String :=
  match doc with
  | some d => if d.isEmpty then "" else d ++ "\n"
  | none => ""

/-- The header chunk of a type with the given qualified name. -/
def headerText (u : CompilationUnit) (t : TypeDeclaration) (name : String) : String :=
  u.packageBlock ++ u.importBlock ++ docBlock t.doc ++
    "// enclosing: " ++ name ++ "\n" ++
    t.declarationLine ++ " \x7b\n\n" ++
    (if t.kind = .enumType then listed t.enumConstants ++ ";\n" else "") ++
    String.join (t.fields.map (· ++ "\n")) ++
    String.join (t.initializers.map (· ++ "\n")) ++
    "\x7d\n"

/-- The chunk of a member of a type with the given qualified name. -/
def memberText (o : ChunkOptions) (u : CompilationUnit) (name : String) (m : MemberDeclaration) :
    String :=
  u.packageBlock ++ (if o.memberImports then u.importBlock else "") ++
    "class " ++ name ++ " \x7b\n\n" ++
    (if o.memberDocs then docBlock m.doc else "") ++
    m.text ++ "\n" ++ "\x7d\n"

/-- The header chunk of a type. -/
def headerChunk (u : CompilationUnit) (t : TypeDeclaration) (name : String) : Chunk where
  text := headerText u t name
  kind := .typeHeader
  startLine := t.startLine
  endLine := t.endLine
  symbol := some name

/-- The chunk of a member. -/
def memberChunk (o : ChunkOptions) (u : CompilationUnit) (name : String) (kind : ChunkKind)
    (m : MemberDeclaration) : Chunk where
  text := memberText o u name m
  kind := kind
  startLine := m.startLine
  endLine := m.endLine
  symbol := some (name ++ "#" ++ m.name)

/-- The chunks of a type: its header, its methods, its constructors. -/
def typeChunks (o : ChunkOptions) (u : CompilationUnit) (t : TypeDeclaration) :
    Except LookupError (List Chunk) :=
  (u.qualifiedName t).map fun name =>
    headerChunk u t name ::
      (t.methods.map (memberChunk o u name .method) ++
        t.constructors.map (memberChunk o u name .constructor))

/-- Chunks, and why there are no more of them. -/
structure ChunkStream where
  chunks : List Chunk
  stopped : Option LookupError := none
deriving DecidableEq, Repr, Inhabited

namespace ChunkStream

/-- The chunks of some types, up to the first without a name. -/
def ofTypes (o : ChunkOptions) (u : CompilationUnit) : List TypeDeclaration → ChunkStream
  | [] => { chunks := [] }
  | t :: ts =>
    match typeChunks o u t with
    | .error e => { chunks := [], stopped := some e }
    | .ok cs =>
      let rest := ofTypes o u ts
      { rest with chunks := cs ++ rest.chunks }

/-- The chunks, if there are no more of them. -/
def toExcept (s : ChunkStream) : Except LookupError (List Chunk) :=
  match s.stopped with
  | some e => .error e
  | none => .ok s.chunks

end ChunkStream

/-- The chunks of a unit, in the order of its types. -/
def CompilationUnit.chunks (u : CompilationUnit) (o : ChunkOptions := {}) : ChunkStream :=
  .ofTypes o u u.types

end SourceShelf.Java
