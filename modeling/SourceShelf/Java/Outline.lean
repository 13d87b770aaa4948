import SourceShelf.Failure
import SourceShelf.Java.SyntaxTree
import SourceShelf.Java.Unit
import SourceShelf.Text.Blank
import SourceShelf.Text.Quoted

/-!
# From trees to units

`Outline.sites` finds every type of a tree in the order of the text and tells
in whose body each one stands.  A type belongs to the type around it only
through bodies of types; one that stands in a method, in an anonymous class or
in the body of an enum constant belongs to none.  `Outline.unit` puts the unit
together, and `parse` does so for a text that follows the grammar, by its tree
(`SyntaxTree.read`).
-/

namespace SourceShelf.Java

namespace Outline

/-- The characters of a text from one place up to another. -/
def slice (chars : List Char) (start stop : Nat) : String :=
  String.ofList ((chars.drop start).take (stop - start))

/-- The text of a tree. -/
def textOf (chars : List Char) (t : Tree) : String := slice chars t.start t.stop

/-- The line of a place, counted from `1`. -/
def lineOf (chars : List Char) (place : Nat) : Nat := 1 + (chars.take place).count '\n'

/-- The column of a place, counted from `1`. -/
def columnOf (chars : List Char) (place : Nat) : Nat :=
  1 + ((chars.take place).reverse.takeWhile (· != '\n')).length

/-! ## Kinds of phrases -/

/-- The kind of type that a phrase declares. -/
def typeKind? : Phrase → Option TypeKind
  | .classDeclaration => some .classType
  | .interfaceDeclaration => some .interfaceType
  | .enumDeclaration => some .enumType
  | .recordDeclaration => some .recordType
  | .annotationTypeDeclaration => some .annotationType
  | _ => none

/-- Bodies of types, and the part of an enum's body behind its constants. -/
def isBody : Phrase → Bool
  | .classBody | .interfaceBody | .enumBody | .enumBodyDeclarations | .annotationTypeBody => true
  | _ => false

/-- Declarations of fields. -/
def isField : Phrase → Bool
  | .fieldDeclaration | .constantDeclaration | .annotationTypeElementDeclaration => true
  | _ => false

/-- Initializers. -/
def isInitializer : Phrase → Bool
  | .block | .staticInitializer => true
  | _ => false

/-- Constructors. -/
def isConstructor : Phrase → Bool
  | .constructorDeclaration | .compactConstructorDeclaration => true
  | _ => false

/-! ## Parts and what stands before them -/

/-- Each part with the named one before it. -/
def withBefore (before : Option Tree) : List Tree → List (Option Tree × Tree)
  | [] => []
  | t :: ts => (before, t) :: withBefore (if t.isNamed then some t else before) ts

/-- The first part that is a phrase of a given kind. -/
def part? (p : Phrase) (t : Tree) : Option Tree := t.parts.find? (·.isPhrase p)

/-- The named parts that are no comments. -/
def namedParts (t : Tree) : List Tree := t.parts.filter fun p => p.isNamed && !p.isComment

/-- The identifier that names a declaration. -/
def identifier? (t : Tree) : Option Tree := t.parts.find? (·.isWord .identifier)

/-- A name, with dots or without. -/
def dottedName? (t : Tree) : Option Tree :=
  t.parts.find? fun p => p.isWord .identifier || p.isPhrase .scopedIdentifier

/-- True of a comment that starts with `/**`. -/
def isDoc (chars : List Char) (t : Tree) : Bool :=
  t.isComment && "/**".toList.isPrefixOf (chars.drop t.start)

/-- The comment right before a declaration, if it is a doc comment. -/
def docBefore (chars : List Char) (before : Option Tree) : Option String :=
  (before.filter (isDoc chars)).map (textOf chars)

/-- The parts of a declaration before its name, modifiers taken apart. -/
def beforeName (t : Tree) : List Tree :=
  (t.parts.takeWhile (!·.isWord .identifier)).flatMap fun p =>
    if p.isPhrase .modifiers then p.parts else [p]

/-- The doc comment of a type: the comment right before it, or else the last
doc comment before its name. -/
def typeDoc (chars : List Char) (before : Option Tree) (t : Tree) : Option String :=
  (docBefore chars before).or
    (((beforeName t).filter (isDoc chars)).getLast?.map (textOf chars))

/-! ## Types -/

/-- What a phrase stands in: the file itself, the body of a type, or something
else. -/
inductive Around where
  | file
  | body (index : Nat)
  | elsewhere
deriving DecidableEq, Repr, Inhabited

namespace Around

/-- The type in whose body the phrase stands. -/
def parent : Around → Option Nat
  | body i => some i
  | _ => none

/-- What the parts of a body stand in. -/
def inBody : Around → Around
  | body i => body i
  | _ => elsewhere

end Around

/-- A type in a tree, the named part before it, and what it stands in. -/
structure Site where
  tree : Tree
  kind : TypeKind
  before : Option Tree
  around : Around
deriving Repr, Inhabited

mutual

/-- The types of a tree in the order of the text; `next` is the position of
the first of them. -/
def sites (locals : Bool) (around : Around) (before : Option Tree) (next : Nat) :
    Tree → List Site
  | .node p parts =>
    match typeKind? p with
    | some kind =>
      if around = .elsewhere && !locals then []
      else
        { tree := .node p parts, kind, before, around } ::
          sitesOf locals (fun q => if isBody q then .body next else .elsewhere) none (next + 1)
            parts
    | none =>
      sitesOf locals (fun _ => if isBody p then around.inBody else .elsewhere) none next parts
  | .error parts => sitesOf locals (fun _ => .elsewhere) none next parts
  | _ => []

/-- The types of a list of trees in the order of the text. -/
def sitesOf (locals : Bool) (around : Phrase → Around) (before : Option Tree) (next : Nat) :
    List Tree → List Site
  | [] => []
  | t :: ts =>
    let here := match t with
      | .node p _ => around p
      | _ => .elsewhere
    let found := sites locals here before next t
    found ++ sitesOf locals around (if t.isNamed then some t else before) (next + found.length) ts

end

/-- The types of a file. -/
def fileSites (locals : Bool) (parts : List Tree) : List Site :=
  sitesOf locals (fun _ => .file) none 0 parts

/-! ## Declarations -/

/-- An import. -/
def importOf (chars : List Char) (t : Tree) : ImportDeclaration where
  path := (dottedName? t).elim "" fun n => removeBlanks (textOf chars n)
  text := textOf chars t
  isStatic := t.parts.any (·.isWord .staticWord)
  isWildcard := t.parts.any (·.isPhrase .asterisk)

/-- The package of a file: that of the last package declaration with a name. -/
def packageOf (chars : List Char) (parts : List Tree) : String :=
  let names := (parts.filter (·.isPhrase .packageDeclaration)).filterMap dottedName?
  names.getLast?.elim "" fun n => removeBlanks (textOf chars n)

/-- A method or a constructor. -/
def memberOf (chars : List Char) (kind : MemberKind) (owner : Nat) (before : Option Tree)
    (t : Tree) : MemberDeclaration where
  name := (identifier? t).elim "" (textOf chars)
  kind := kind
  text := textOf chars t
  owner := owner
  doc := docBefore chars before
  startLine := lineOf chars t.start
  endLine := lineOf chars t.stop

/-- A constant of an enum without its body. -/
def enumConstantOf (chars : List Char) (t : Tree) : String :=
  (identifier? t).elim "" (textOf chars) ++ (part? .argumentList t).elim "" (textOf chars)

/-- The types that a clause lists. -/
def listedTypes (chars : List Char) (clause : Option Tree) : List String :=
  match clause with
  | none => []
  | some c => (namedParts ((part? .typeList c).getD c)).map (textOf chars)

/-- A field with the comment that documents it. -/
def fieldOf (chars : List Char) (before : Option Tree) (t : Tree) : String :=
  match docBefore chars before with
  | some d => d ++ "\n" ++ textOf chars t
  | none => textOf chars t

/-- The named parts of a body, each with the one before it; those behind the
constants of an enum are among them. -/
def bodyParts (body : Tree) : List (Option Tree × Tree) :=
  (withBefore none body.parts).flatMap fun (before, t) =>
    if t.isPhrase .enumBodyDeclarations then (withBefore none t.parts).filter (·.2.isNamed)
    else if t.isNamed then [(before, t)]
    else []

/-- The parts of a body that satisfy a test on their kind of phrase. -/
def select (test : Phrase → Bool) (members : List (Option Tree × Tree)) :
    List (Option Tree × Tree) :=
  members.filter (·.2.phrase?.any test)

/-- The type at a position. -/
def typeOf (chars : List Char) (index : Nat) (nested : List Nat) (s : Site) : TypeDeclaration :=
  let t := s.tree
  let modifiers := ((part? .modifiers t).map Tree.parts).getD []
  let isMark (p : Tree) : Bool := p.isPhrase .annotationCall || p.isPhrase .annotationMarker
  let members := ((t.parts.find? (·.phrase?.any isBody)).map bodyParts).getD []
  let supers := if s.kind = .interfaceType then Phrase.extendsInterfaces else .superclass
  { index
    parent := s.around.parent.map Int.ofNat
    name := (identifier? t).elim "" (textOf chars)
    kind := s.kind
    modifiers := (modifiers.filter (!·.isNamed)).map (textOf chars)
    annotations := (modifiers.filter isMark).map (textOf chars)
    typeParameters :=
      (((part? .typeParameters t).map Tree.parts).getD []).filter (·.isPhrase .typeParameter)
        |>.map (textOf chars)
    supertypes := listedTypes chars (part? supers t)
    interfaces := listedTypes chars (part? .superInterfaces t)
    recordComponents :=
      if s.kind = .recordType then
        some ((part? .formalParameters t).elim "()" (textOf chars))
      else none
    enumConstants := (select (· = .enumConstant) members).map fun m => enumConstantOf chars m.2
    doc := typeDoc chars s.before t
    fields := (select isField members).map fun m => fieldOf chars m.1 m.2
    initializers := (select isInitializer members).map fun m => textOf chars m.2
    methods := (select (· = .methodDeclaration) members).map fun m =>
      memberOf chars .method index m.1 m.2
    constructors := (select isConstructor members).map fun m =>
      memberOf chars .constructor index m.1 m.2
    nested
    startLine := lineOf chars t.start
    endLine := lineOf chars t.stop }

/-- The unit that the parts of a file make. -/
def unit (locals : Bool) (text : String) (path : Option String) (parts : List Tree) :
    CompilationUnit :=
  let chars := text.toList
  let found := (fileSites locals parts).zipIdx
  { package := packageOf chars parts
    imports := (parts.filter (·.isPhrase .importDeclaration)).map (importOf chars)
    types := found.map fun (s, i) =>
      let nested := (found.filter fun (n, _) => n.around.parent = some i).map Prod.snd
      typeOf chars i nested s
    topLevel := (found.filter fun (s, _) => s.around = .file).map Prod.snd
    path }

end Outline

/-- What is wrong at the first place where a text does not follow the
grammar. -/
inductive SyntaxProblem where
  | missing (word : Token)
  | unexpected (text : String)
deriving DecidableEq, Repr, Inhabited

namespace SyntaxProblem

/-- The most characters of a text that a message shows. -/
def shownLength : Nat := 40

/-- The problem that a fault of a tree shows. -/
def ofFault (chars : List Char) : Tree → SyntaxProblem
  | .missing w _ => missing w
  | t =>
    let line := (splitLines (Outline.textOf chars t)).headD ""
    unexpected (String.ofList (line.toList.take shownLength))

/-- The text of the problem. -/
def message : SyntaxProblem → String
  | missing w => "Java syntax error: missing " ++ quoted w.name
  | unexpected t => "Java syntax error near " ++ quoted t

end SyntaxProblem

/-- The unit of a text with the given tree. -/
def SyntaxTree.read {text : String} (tree : SyntaxTree text) (path : Option String := none)
    (locals : Bool := true) : Except Failure CompilationUnit :=
  match tree.firstFault? with
  | some fault =>
    let chars := text.toList
    .error (.parse (SyntaxProblem.ofFault chars fault).message path
      (some (Outline.lineOf chars fault.start)) (some (Outline.columnOf chars fault.start)))
  | none => .ok (Outline.unit locals text path tree.parts)

/-- The unit of a text. -/
def parse (text : String) (path : Option String := none) (locals : Bool := true) :
    Except Failure CompilationUnit :=
  (SyntaxTree.ofText text).read path locals

end SourceShelf.Java
