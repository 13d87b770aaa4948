/-!
# Chunks

A chunk is a piece of a source text that can be read on its own: the header of
a type, a method or a constructor.
-/

namespace SourceShelf

/-- What a chunk was cut from. -/
inductive ChunkKind where
  | typeHeader | method | constructor
deriving DecidableEq, Repr, Inhabited

namespace ChunkKind

/-- The name of a kind of chunk. -/
def name : ChunkKind → String
  | typeHeader => "type-header"
  | method => "method"
  | constructor => "constructor"

/-- The kind of chunk with a given name. -/
def ofName? : String → Option ChunkKind
  | "type-header" => some typeHeader
  | "method" => some method
  | "constructor" => some constructor
  | _ => none

theorem ofName?_name (k : ChunkKind) : ofName? k.name = some k := by
  cases k <;> rfl

end ChunkKind

/-- A piece of a source text.  The lines are those of the declaration it was
cut from, counted from `1`; the symbol is the qualified name of its type, with
`#` and the member's name behind it for a member. -/
structure Chunk where
  text : String
  kind : ChunkKind
  startLine : Int
  endLine : Int
  symbol : Option String := none
deriving DecidableEq, Repr, Inhabited

/-- How chunks are written. -/
structure ChunkOptions where
  /-- Members get the imports of their file. -/
  memberImports : Bool := false
  /-- Members get the comment that documents them. -/
  memberDocs : Bool := true
  /-- Types inside method bodies and anonymous classes are chunked too. -/
  includeLocalTypes : Bool := true
deriving DecidableEq, Repr, Inhabited

end SourceShelf
