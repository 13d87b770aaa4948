/-!
# Compilation units

What a Java text declares, without its method bodies: the package, the imports
and every type.  The types of a unit stand in one list in the order of the
text; a type refers to the type around it by its position there.  Such a
position may be counted from the end with a negative number
(`CompilationUnit.type?`).

The qualified name of a type is the names of the types around it, outermost
first, and its own (`CompilationUnit.qualifiedName`).
-/

namespace SourceShelf.Java

/-- An import.  `path` is the imported name without blanks, `text` the import
as written. -/
structure ImportDeclaration where
  path : String
  text : String
  isStatic : Bool := false
  isWildcard : Bool := false
deriving DecidableEq, Repr, Inhabited

/-- What a member is. -/
inductive MemberKind where
  | method | constructor
deriving DecidableEq, Repr, Inhabited

/-- A method or a constructor, with its text as written and the comment that
documents it.  `owner` is the position of its type. -/
structure MemberDeclaration where
  name : String
  kind : MemberKind
  text : String
  owner : Nat
  doc : Option String := none
  startLine : Int := 0
  endLine : Int := 0
deriving DecidableEq, Repr, Inhabited

/-- What a type is. -/
inductive TypeKind where
  | classType | interfaceType | enumType | recordType | annotationType
  | other (name : String)
deriving DecidableEq, Repr, Inhabited

namespace TypeKind

/-- The name of a kind of type. -/
def name : TypeKind → String
  | classType => "class"
  | interfaceType => "interface"
  | enumType => "enum"
  | recordType => "record"
  | annotationType => "annotation"
  | other n => n

/-- The kind of type with a given name. -/
def ofName : String → TypeKind
  | "class" => classType
  | "interface" => interfaceType
  | "enum" => enumType
  | "record" => recordType
  | "annotation" => annotationType
  | n => other n

/-- The word with which a declaration of the kind starts. -/
def keyword : TypeKind → String
  | interfaceType => "interface"
  | enumType => "enum"
  | recordType => "record"
  | annotationType => "@interface"
  | _ => "class"

end TypeKind

/-- A type.  `parent` is the position of the type in whose body it stands. -/
structure TypeDeclaration where
  index : Nat
  parent : Option Int
  name : String
  kind : TypeKind
  modifiers : List String := []
  annotations : List String := []
  typeParameters : List String := []
  supertypes : List String := []
  interfaces : List String := []
  recordComponents : Option String := none
  enumConstants : List String := []
  doc : Option String := none
  fields : List String := []
  initializers : List String := []
  methods : List MemberDeclaration := []
  constructors : List MemberDeclaration := []
  nested : List Nat := []
  startLine : Int := 0
  endLine : Int := 0
deriving DecidableEq, Repr, Inhabited

/-- True of an interface that is no annotation. -/
def TypeDeclaration.isInterface (t : TypeDeclaration) : Bool := t.kind = .interfaceType

/-- What a text declares. -/
structure CompilationUnit where
  package : String := ""
  imports : List ImportDeclaration := []
  types : List TypeDeclaration := []
  topLevel : List Nat := []
  path : Option String := none
deriving DecidableEq, Repr, Inhabited

/-- Why a name has no answer: a position names no type, or the types around a
type go round in a circle. -/
inductive LookupError where
  | outOfRange
  | circular
deriving DecidableEq, Repr, Inhabited

/-- The text of the error. -/
def LookupError.message : LookupError → String
  | outOfRange => "tuple index out of range"
  | circular => "circular nesting"

namespace CompilationUnit

/-- The type at a position; `-1` is the last one. -/
def type? (u : CompilationUnit) (i : Int) : Except LookupError TypeDeclaration :=
  let position := if i < 0 then i + u.types.length else i
  if position < 0 then .error .outOfRange
  else
    match u.types[position.toNat]? with
    | some t => .ok t
    | none => .error .outOfRange

/-- The type around a type. -/
def parentOf (u : CompilationUnit) (t : TypeDeclaration) :
    Except LookupError (Option TypeDeclaration) :=
  match t.parent with
  | none => .ok none
  | some i => (u.type? i).map some

/-- The names of the types around a type, outermost first, and its own.  There
are at most as many as there are types, unless they go round in a circle. -/
def names (u : CompilationUnit) : Nat → TypeDeclaration → Except LookupError (List String)
  | 0, _ => .error .circular
  | fuel + 1, t =>
    match u.parentOf t with
    | .error e => .error e
    | .ok none => .ok [t.name]
    | .ok (some p) => (u.names fuel p).map (· ++ [t.name])

/-- The names of the types around a type and its own, with dots between. -/
def qualifiedName (u : CompilationUnit) (t : TypeDeclaration) : Except LookupError String :=
  (u.names (u.types.length + 1) t).map (".".intercalate ·)

end CompilationUnit

end SourceShelf.Java
