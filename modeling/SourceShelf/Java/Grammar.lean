import SourceShelf.Java.Token
import SourceShelf.Java.Phrase

/-!
# The grammar of Java

`Phrase.rule` gives the ways to write each kind of phrase.  A `Rule` is a list
of alternatives and an alternative is a list of steps; a step may be optional.
Rules are put together with `word`, `phrase`, `seq`, `alt`, `opt` and
`repeated`, which keep that shape.

Three marks settle texts that could be read in two ways.  The precedence and
the associativity of an alternative decide between ending it and going on
(`a - b - c`, `a + b * c`, a dangling `else`); the preference weighs complete
readings against each other (`a < b > c` as a declaration of `c`).
-/

namespace SourceShelf.Java

/-- A word or a phrase. -/
inductive Symbol where
  | token (t : Token)
  | phrase (p : Phrase)
deriving DecidableEq, Repr, Inhabited

namespace Symbol

/-- Words come first, then phrases. -/
def index : Symbol → Nat
  | token t => t.ctorIdx
  | phrase p => Token.count + p.ctorIdx

/-- The number of symbols. -/
def count : Nat := Token.count + Phrase.count

end Symbol

/-- One step of an alternative.  `shownAs` is the kind of word that a tree
shows in place of the word that stands there. -/
structure Step where
  symbol : Symbol
  optional : Bool := false
  shownAs : Option Token := none
deriving DecidableEq, Repr, Inhabited

/-- How an alternative goes on when its end could also be its start. -/
inductive Assoc where
  | none | left | right
deriving DecidableEq, Repr, Inhabited

/-- One way to write a phrase. -/
structure Alternative where
  steps : List Step
  precedence : Int := 0
  assoc : Assoc := .none
  preference : Int := 0
deriving DecidableEq, Repr, Inhabited

/-- The ways to write a phrase. -/
abbrev Rule := List Alternative

namespace Rule

/-- A word. -/
def word (t : Token) : Rule := [{ steps := [{ symbol := .token t }] }]

/-- A word that a tree shows as another kind. -/
def wordAs (t shown : Token) : Rule :=
  [{ steps := [{ symbol := .token t, shownAs := some shown }] }]

/-- A phrase. -/
def phrase (p : Phrase) : Rule := [{ steps := [{ symbol := .phrase p }] }]

/-- One rule after another. -/
def seq : List Rule → Rule
  | [] => [{ steps := [] }]
  | r :: rs =>
    let tails := seq rs
    r.flatMap fun a => tails.map fun b => { a with steps := a.steps ++ b.steps }

/-- One of several rules. -/
def alt (rs : List Rule) : Rule := rs.flatten

/-- A rule or nothing. -/
def opt (r : Rule) : Rule :=
  match r with
  | [{ steps := [s], .. }] => [{ steps := [{ s with optional := true }] }]
  | _ => { steps := [] } :: r

/-- A rule once or more often; `self` is the phrase that is being defined. -/
def repeated (self : Phrase) (r : Rule) : Rule := alt [r, seq [phrase self, r]]

/-- A precedence for every alternative that has none. -/
def prec (n : Int) (r : Rule) : Rule := r.map ({ · with precedence := n })

/-- A precedence, grouping to the left. -/
def left (n : Int) (r : Rule) : Rule := r.map ({ · with precedence := n, assoc := .left })

/-- A precedence, grouping to the right. -/
def right (n : Int) (r : Rule) : Rule := r.map ({ · with precedence := n, assoc := .right })

/-- A preference among complete readings. -/
def prefer (n : Int) (r : Rule) : Rule := r.map ({ · with preference := n })

end Rule

open Rule Token

/-- An identifier, or one of the keywords that may serve as one. -/
def anyIdentifier : Rule := alt [word identifier, phrase .reservedIdentifier]

/-- An identifier that names a type. -/
def typeName : Rule := wordAs identifier typeIdentifier

/-- A name, with dots or without. -/
def name : Rule := alt [anyIdentifier, phrase .scopedIdentifier]

/-- What a declaration may give a variable for a start. -/
def initialValue : Rule := alt [phrase .expression, phrase .arrayInitializer]

/-- What may stand between the angle brackets behind a generic type. -/
def typeArgument : Rule := alt [phrase .anyType, phrase .wildcard]

/-- What may stand between the parentheses of a method. -/
def parameter : Rule := alt [phrase .formalParameter, phrase .spreadParameter]

/-- What may stand between the parentheses of a record pattern. -/
def component : Rule := alt [phrase .recordPatternComponent, phrase .recordPattern]

/-- A comma and one more of something. -/
def more (self : Phrase) (r : Rule) : Rule := repeated self (seq [word comma, r])

/-- Something, then more of it behind commas. -/
def commaSeparated (r : Rule) (tail : Phrase) : Rule := seq [r, opt (phrase tail)]

/-- A binary operation. -/
def binary (level : Int) (ops : List Token) : Rule :=
  left level (alt (ops.map fun o => seq [phrase .expression, word o, phrase .expression]))

/-- What may stand in the body of a class, an enum or a record. -/
def member : Rule :=
  alt [phrase .fieldDeclaration, phrase .recordDeclaration, phrase .methodDeclaration,
    phrase .compactConstructorDeclaration, phrase .classDeclaration,
    phrase .interfaceDeclaration, phrase .annotationTypeDeclaration, phrase .enumDeclaration,
    phrase .block, phrase .staticInitializer, phrase .constructorDeclaration, word semicolon]

namespace Phrase

/-- The ways to write a phrase of each kind. -/
def rule : Phrase → Rule
  | file => phrase program
  | program => opt (phrase topLevelStatements)
  | topLevelStatements => repeated topLevelStatements (phrase topLevelStatement)
  | topLevelStatement => alt [phrase statement, phrase methodDeclaration]
  -- literals
  | literal =>
    alt [word decimalInteger, word hexInteger, word octalInteger, word binaryInteger,
      word decimalFloat, word hexFloat, word trueWord, word falseWord, word character,
      phrase stringLiteral, word nullWord]
  | stringLiteral => alt [phrase lineString, phrase blockString]
  | lineString => seq [word quote, opt (phrase lineStringParts), word quote]
  | lineStringParts =>
    repeated lineStringParts (alt [word fragment, word escape, phrase interpolation])
  | blockString => seq [word tripleQuote, opt (phrase blockStringParts), word tripleQuote]
  | blockStringParts =>
    repeated blockStringParts (alt [word blockFragment, word blockQuote, word blockEscape,
      word escape, phrase interpolation])
  | interpolation => seq [word holeOpen, phrase expression, word braceClose]
  -- expressions
  | expression =>
    alt [phrase assignmentExpression, phrase binaryExpression, phrase instanceofExpression,
      phrase lambdaExpression, phrase ternaryExpression, phrase updateExpression,
      phrase primaryExpression, phrase unaryExpression, phrase castExpression,
      phrase switchExpression]
  | castExpression =>
    prec 14 (alt [
      seq [word parenOpen, phrase anyType, word parenClose, phrase expression],
      seq [word parenOpen, phrase anyType, opt (phrase boundTail), word parenClose,
        alt [phrase primaryExpression, phrase lambdaExpression]]])
  | boundTail => repeated boundTail (seq [word amp, phrase anyType])
  | assignmentExpression =>
    right 1 (seq [
      alt [anyIdentifier, phrase fieldAccess, phrase arrayAccess],
      alt ([assign, plusAssign, minusAssign, starAssign, slashAssign, ampAssign, barAssign,
        caretAssign, percentAssign, shiftLeftAssign, shiftRightAssign, unsignedShiftAssign].map
          word),
      phrase expression])
  | binaryExpression =>
    alt [binary 10 [greater, less, greaterEqual, lessEqual], binary 9 [equal, notEqual],
      binary 5 [andAnd], binary 4 [orOr], binary 12 [plus, minus], binary 13 [star, slash],
      binary 8 [amp], binary 6 [bar], binary 7 [caret], binary 13 [percent],
      binary 11 [shiftLeft, shiftRight, unsignedShift]]
  | instanceofExpression =>
    prec 10 (seq [phrase expression, word instanceofWord, opt (word finalWord),
      alt [seq [phrase anyType, opt anyIdentifier], phrase recordPattern]])
  | lambdaExpression =>
    seq [alt [word identifier, phrase formalParameters, phrase inferredParameters,
        phrase reservedIdentifier],
      word arrow, alt [phrase expression, phrase block]]
  | inferredParameters =>
    seq [word parenOpen, commaSeparated anyIdentifier inferredTail, word parenClose]
  | inferredTail => more inferredTail anyIdentifier
  | ternaryExpression =>
    right 3 (seq [phrase expression, word question, phrase expression, word colon,
      phrase expression])
  | unaryExpression =>
    left 15 (alt ([plus, minus, bang, tilde].map fun o => seq [word o, phrase expression]))
  | updateExpression =>
    left 15 (alt [
      seq [phrase expression, word increment], seq [phrase expression, word decrement],
      seq [word increment, phrase expression], seq [word decrement, phrase expression]])
  | primaryExpression =>
    alt [phrase literal, phrase classLiteral, word thisWord, anyIdentifier,
      phrase parenthesizedExpression, phrase objectCreationExpression, phrase fieldAccess,
      phrase arrayAccess, phrase methodInvocation, phrase methodReference,
      phrase arrayCreationExpression, phrase templateExpression]
  | arrayCreationExpression =>
    right 0 (seq [word newWord, opt (phrase annotations), phrase simpleType,
      alt [seq [phrase dimensionSizes, opt (phrase dimensions)],
        seq [phrase dimensions, phrase arrayInitializer]]])
  | dimensionSizes => repeated dimensionSizes (phrase dimensionSize)
  | dimensionSize =>
    seq [opt (phrase annotations), word bracketOpen, phrase expression, word bracketClose]
  | parenthesizedExpression => seq [word parenOpen, phrase expression, word parenClose]
  | classLiteral => prefer 17 (seq [phrase unannotatedType, word dot, word classWord])
  | objectCreationExpression =>
    alt [phrase plainObjectCreation,
      seq [phrase primaryExpression, word dot, phrase plainObjectCreation]]
  | plainObjectCreation =>
    right 0 (seq [word newWord,
      alt [seq [opt (phrase annotations), phrase typeArguments, opt (phrase annotations)],
        opt (phrase annotations)],
      phrase simpleType, phrase argumentList, opt (phrase classBody)])
  | annotations => repeated annotations (phrase annotationUse)
  | fieldAccess =>
    seq [alt [phrase primaryExpression, word superWord], opt (seq [word dot, word superWord]),
      word dot, alt [anyIdentifier, word thisWord]]
  | templateExpression => seq [phrase primaryExpression, word dot, phrase stringLiteral]
  | arrayAccess =>
    seq [phrase primaryExpression, word bracketOpen, phrase expression, word bracketClose]
  | methodInvocation =>
    seq [alt [anyIdentifier,
        seq [alt [phrase primaryExpression, word superWord], word dot,
          opt (seq [word superWord, word dot]), opt (phrase typeArguments), anyIdentifier]],
      phrase argumentList]
  | argumentList =>
    seq [word parenOpen, opt (commaSeparated (phrase expression) expressionTail),
      word parenClose]
  | expressionTail => more expressionTail (phrase expression)
  | methodReference =>
    seq [alt [phrase anyType, phrase primaryExpression, word superWord], word doubleColon,
      opt (phrase typeArguments), alt [word newWord, word identifier]]
  | typeArguments =>
    seq [word less, opt (commaSeparated typeArgument typeArgumentTail), word greater]
  | typeArgumentTail => more typeArgumentTail typeArgument
  | wildcard => seq [opt (phrase annotations), word question, opt (phrase wildcardBounds)]
  | wildcardBounds =>
    alt [seq [word extendsWord, phrase anyType], seq [word superWord, phrase anyType]]
  | dimensions => right 0 (phrase dimensionPairs)
  | dimensionPairs =>
    repeated dimensionPairs (seq [opt (phrase annotations), word bracketOpen, word bracketClose])
  | switchExpression =>
    seq [word switchWord, phrase parenthesizedExpression, phrase switchBlock]
  | switchBlock =>
    seq [word braceOpen,
      alt [seq [], phrase switchGroups, phrase switchRules], word braceClose]
  | switchGroups => repeated switchGroups (phrase switchGroup)
  | switchGroup => left 0 (seq [phrase switchGroupLabels, opt (phrase statements)])
  | switchGroupLabels => repeated switchGroupLabels (seq [phrase switchLabel, word colon])
  | switchRules => repeated switchRules (phrase switchRule)
  | switchRule =>
    seq [phrase switchLabel, word arrow,
      alt [phrase expressionStatement, phrase throwStatement, phrase block]]
  | switchLabel =>
    alt [seq [word caseWord,
        alt [phrase pattern, commaSeparated (phrase expression) expressionTail],
        opt (phrase guard)],
      word defaultWord]
  | pattern => alt [phrase typePattern, phrase recordPattern]
  | typePattern => seq [phrase unannotatedType, anyIdentifier]
  | recordPattern => seq [alt [anyIdentifier, phrase genericType], phrase recordPatternBody]
  | recordPatternBody =>
    seq [word parenOpen, opt (commaSeparated component recordPatternTail), word parenClose]
  | recordPatternTail => more recordPatternTail component
  | recordPatternComponent =>
    alt [word underscore, seq [phrase unannotatedType, anyIdentifier]]
  | guard => seq [word whenWord, phrase expression]
  -- statements
  | statement =>
    alt [phrase declaration, phrase expressionStatement, phrase labeledStatement,
      phrase ifStatement, phrase whileStatement, phrase forStatement,
      phrase enhancedForStatement, phrase block, word semicolon, phrase assertStatement,
      phrase doStatement, phrase breakStatement, phrase continueStatement,
      phrase returnStatement, phrase yieldStatement, phrase switchExpression,
      phrase synchronizedStatement, phrase localVariableDeclaration, phrase throwStatement,
      phrase tryStatement, phrase tryWithResourcesStatement]
  | statements => repeated statements (phrase statement)
  | block => seq [word braceOpen, opt (phrase statements), word braceClose]
  | expressionStatement => seq [phrase expression, word semicolon]
  | labeledStatement => seq [word identifier, word colon, phrase statement]
  | assertStatement =>
    alt [seq [word assertWord, phrase expression, word semicolon],
      seq [word assertWord, phrase expression, word colon, phrase expression, word semicolon]]
  | doStatement =>
    seq [word doWord, phrase statement, word whileWord, phrase parenthesizedExpression,
      word semicolon]
  | breakStatement => seq [word breakWord, opt (word identifier), word semicolon]
  | continueStatement => seq [word continueWord, opt (word identifier), word semicolon]
  | returnStatement => seq [word returnWord, opt (phrase expression), word semicolon]
  | yieldStatement => seq [word yieldWord, phrase expression, word semicolon]
  | synchronizedStatement =>
    seq [word synchronizedWord, phrase parenthesizedExpression, phrase block]
  | throwStatement => seq [word throwWord, phrase expression, word semicolon]
  | tryStatement =>
    seq [word tryWord, phrase block,
      alt [phrase catchClauses, seq [opt (phrase catchClauses), phrase finallyClause]]]
  | catchClauses => repeated catchClauses (phrase catchClause)
  | catchClause =>
    seq [word catchWord, word parenOpen, phrase catchFormalParameter, word parenClose,
      phrase block]
  | catchFormalParameter =>
    seq [opt (phrase modifiers), phrase catchType, phrase variableDeclaratorId]
  | catchType => seq [phrase unannotatedType, opt (phrase catchTypeTail)]
  | catchTypeTail => repeated catchTypeTail (seq [word bar, phrase unannotatedType])
  | finallyClause => seq [word finallyWord, phrase block]
  | tryWithResourcesStatement =>
    seq [word tryWord, phrase resourceSpecification, phrase block, opt (phrase catchClauses),
      opt (phrase finallyClause)]
  | resourceSpecification =>
    seq [word parenOpen, phrase resource, opt (phrase resourceTail), opt (word semicolon),
      word parenClose]
  | resourceTail => repeated resourceTail (seq [word semicolon, phrase resource])
  | resource =>
    alt [seq [opt (phrase modifiers), phrase unannotatedType, phrase variableDeclaratorId,
        word assign, phrase expression],
      word identifier, phrase fieldAccess]
  | ifStatement =>
    right 0 (seq [word ifWord, phrase parenthesizedExpression, phrase statement,
      opt (seq [word elseWord, phrase statement])])
  | whileStatement => seq [word whileWord, phrase parenthesizedExpression, phrase statement]
  | forStatement =>
    let list := opt (commaSeparated (phrase expression) expressionTail)
    seq [word forWord, word parenOpen,
      alt [phrase localVariableDeclaration, seq [list, word semicolon]],
      opt (phrase expression), word semicolon, list, word parenClose, phrase statement]
  | enhancedForStatement =>
    seq [word forWord, word parenOpen, opt (phrase modifiers), phrase unannotatedType,
      phrase variableDeclaratorId, word colon, phrase expression, word parenClose,
      phrase statement]
  -- annotations
  | annotationUse => alt [phrase annotationMarker, phrase annotationCall]
  | annotationMarker => seq [word .at, name]
  | annotationCall => seq [word .at, name, phrase annotationArgumentList]
  | annotationArgumentList =>
    seq [word parenOpen,
      alt [phrase elementValue,
        opt (commaSeparated (phrase elementValuePair) elementValuePairTail)],
      word parenClose]
  | elementValuePair => seq [anyIdentifier, word assign, phrase elementValue]
  | elementValuePairTail => more elementValuePairTail (phrase elementValuePair)
  | elementValue =>
    prec 2 (alt [phrase expression, phrase elementValueArrayInitializer, phrase annotationUse])
  | elementValueArrayInitializer =>
    seq [word braceOpen, opt (commaSeparated (phrase elementValue) elementValueTail),
      opt (word comma), word braceClose]
  | elementValueTail => more elementValueTail (phrase elementValue)
  -- declarations
  | declaration =>
    prec 2 (alt [phrase moduleDeclaration, phrase packageDeclaration, phrase importDeclaration,
      phrase classDeclaration, phrase recordDeclaration, phrase interfaceDeclaration,
      phrase annotationTypeDeclaration, phrase enumDeclaration])
  | moduleDeclaration =>
    seq [opt (phrase annotations), opt (word openWord), word moduleWord, name,
      phrase moduleBody]
  | moduleBody => seq [word braceOpen, opt (phrase moduleDirectives), word braceClose]
  | moduleDirectives => repeated moduleDirectives (phrase moduleDirective)
  | moduleDirective =>
    alt [phrase requiresDirective, phrase exportsDirective, phrase opensDirective,
      phrase usesDirective, phrase providesDirective]
  | requiresDirective =>
    seq [word requiresWord, opt (phrase requiresModifiers), name, word semicolon]
  | requiresModifiers => repeated requiresModifiers (phrase requiresModifier)
  | requiresModifier => alt [word transitiveWord, word staticWord]
  | exportsDirective =>
    seq [word exportsWord, name, opt (seq [word toWord, name, opt (phrase nameTail)]),
      word semicolon]
  | opensDirective =>
    seq [word opensWord, name, opt (seq [word toWord, name, opt (phrase nameTail)]),
      word semicolon]
  | usesDirective => seq [word usesWord, name, word semicolon]
  | providesDirective =>
    seq [word providesWord, name, word withWord, name, opt (phrase nameTail), word semicolon]
  | nameTail => more nameTail name
  | packageDeclaration =>
    seq [opt (phrase annotations), word packageWord, name, word semicolon]
  | importDeclaration =>
    seq [word importWord, opt (word staticWord), name, opt (seq [word dot, phrase asterisk]),
      word semicolon]
  | asterisk => word star
  | enumDeclaration =>
    seq [opt (phrase modifiers), word enumWord, word identifier, opt (phrase superInterfaces),
      phrase enumBody]
  | enumBody =>
    seq [word braceOpen, opt (commaSeparated (phrase enumConstant) enumConstantTail),
      opt (word comma), opt (phrase enumBodyDeclarations), word braceClose]
  | enumConstantTail => more enumConstantTail (phrase enumConstant)
  | enumBodyDeclarations => seq [word semicolon, opt (phrase members)]
  | enumConstant =>
    seq [opt (phrase modifiers), word identifier, opt (phrase argumentList),
      opt (phrase classBody)]
  | classDeclaration =>
    seq [opt (phrase modifiers), word classWord, word identifier, opt (phrase typeParameters),
      opt (phrase superclass), opt (phrase superInterfaces), opt (phrase permits),
      phrase classBody]
  | modifiers => phrase modifierList
  | modifierList =>
    repeated modifierList (alt (phrase annotationUse ::
      [publicWord, protectedWord, privateWord, abstractWord, staticWord, finalWord, strictfpWord,
        defaultWord, synchronizedWord, nativeWord, transientWord, volatileWord, sealedWord,
        nonSealed].map word))
  | typeParameters =>
    seq [word less, commaSeparated (phrase typeParameter) typeParameterTail, word greater]
  | typeParameterTail => more typeParameterTail (phrase typeParameter)
  | typeParameter => seq [opt (phrase annotations), typeName, opt (phrase typeBound)]
  | typeBound => seq [word extendsWord, phrase anyType, opt (phrase boundTail)]
  | superclass => seq [word extendsWord, phrase anyType]
  | superInterfaces => seq [word implementsWord, phrase typeList]
  | typeList => commaSeparated (phrase anyType) typeTail
  | typeTail => more typeTail (phrase anyType)
  | permits => seq [word permitsWord, phrase typeList]
  | classBody => seq [word braceOpen, opt (phrase members), word braceClose]
  | members => repeated members member
  | staticInitializer => seq [word staticWord, phrase block]
  | constructorDeclaration =>
    seq [opt (phrase modifiers), phrase constructorDeclarator, opt (phrase throws),
      phrase constructorBody]
  | constructorDeclarator =>
    seq [opt (phrase typeParameters), word identifier, phrase formalParameters]
  | constructorBody =>
    seq [word braceOpen, opt (phrase explicitConstructorInvocation), opt (phrase statements),
      word braceClose]
  | explicitConstructorInvocation =>
    seq [alt [seq [opt (phrase typeArguments), alt [word thisWord, word superWord]],
        seq [phrase primaryExpression, word dot, opt (phrase typeArguments), word superWord]],
      phrase argumentList, word semicolon]
  | scopedIdentifier => seq [name, word dot, anyIdentifier]
  | fieldDeclaration =>
    seq [opt (phrase modifiers), phrase unannotatedType, phrase declaratorList, word semicolon]
  | recordDeclaration =>
    seq [opt (phrase modifiers), word recordWord, word identifier, opt (phrase typeParameters),
      phrase formalParameters, opt (phrase superInterfaces), phrase classBody]
  | annotationTypeDeclaration =>
    seq [opt (phrase modifiers), word atInterface, word identifier, phrase annotationTypeBody]
  | annotationTypeBody =>
    seq [word braceOpen, opt (phrase annotationTypeMembers), word braceClose]
  | annotationTypeMembers =>
    repeated annotationTypeMembers
      (alt [phrase annotationTypeElementDeclaration, phrase constantDeclaration,
        phrase classDeclaration, phrase interfaceDeclaration, phrase enumDeclaration,
        phrase annotationTypeDeclaration, word semicolon])
  | annotationTypeElementDeclaration =>
    seq [opt (phrase modifiers), phrase unannotatedType, anyIdentifier, word parenOpen,
      word parenClose, opt (phrase dimensions), opt (phrase defaultValue), word semicolon]
  | defaultValue => seq [word defaultWord, phrase elementValue]
  | interfaceDeclaration =>
    seq [opt (phrase modifiers), word interfaceWord, word identifier,
      opt (phrase typeParameters), opt (phrase extendsInterfaces), opt (phrase permits),
      phrase interfaceBody]
  | extendsInterfaces => seq [word extendsWord, phrase typeList]
  | interfaceBody => seq [word braceOpen, opt (phrase interfaceMembers), word braceClose]
  | interfaceMembers =>
    repeated interfaceMembers
      (alt [phrase constantDeclaration, phrase enumDeclaration, phrase methodDeclaration,
        phrase classDeclaration, phrase interfaceDeclaration, phrase recordDeclaration,
        phrase annotationTypeDeclaration, word semicolon])
  | constantDeclaration =>
    seq [opt (phrase modifiers), phrase unannotatedType, phrase declaratorList, word semicolon]
  | declaratorList => commaSeparated (phrase variableDeclarator) declaratorTail
  | declaratorTail => more declaratorTail (phrase variableDeclarator)
  | variableDeclarator => seq [phrase variableDeclaratorId, opt (seq [word assign, initialValue])]
  | variableDeclaratorId =>
    seq [alt [anyIdentifier, word underscore], opt (phrase dimensions)]
  | arrayInitializer =>
    seq [word braceOpen, opt (commaSeparated initialValue initializerTail), opt (word comma),
      word braceClose]
  | initializerTail => more initializerTail initialValue
  -- types and methods
  | anyType => alt [phrase unannotatedType, phrase annotatedType]
  | unannotatedType => alt [phrase simpleType, phrase arrayType]
  | simpleType =>
    alt [word voidWord, phrase integralType, phrase floatingPointType, word booleanWord,
      typeName, phrase scopedTypeIdentifier, phrase genericType]
  | annotatedType => seq [phrase annotations, phrase unannotatedType]
  | scopedTypeIdentifier =>
    seq [alt [typeName, phrase scopedTypeIdentifier, phrase genericType], word dot,
      opt (phrase annotations), typeName]
  | genericType =>
    prefer 10 (seq [alt [typeName, phrase scopedTypeIdentifier], phrase typeArguments])
  | arrayType => seq [phrase unannotatedType, phrase dimensions]
  | integralType => alt ([byteWord, shortWord, intWord, longWord, charWord].map word)
  | floatingPointType => alt [word floatWord, word doubleWord]
  | methodHeader =>
    seq [opt (seq [phrase typeParameters, opt (phrase annotations)]), phrase unannotatedType,
      phrase methodDeclarator, opt (phrase throws)]
  | methodDeclarator => seq [anyIdentifier, phrase formalParameters, opt (phrase dimensions)]
  | formalParameters =>
    seq [word parenOpen,
      alt [phrase receiverParameter,
        seq [opt (seq [phrase receiverParameter, word comma]),
          opt (commaSeparated parameter formalParameterTail)]],
      word parenClose]
  | formalParameterTail => more formalParameterTail parameter
  | formalParameter =>
    seq [opt (phrase modifiers), phrase unannotatedType, phrase variableDeclaratorId]
  | receiverParameter =>
    seq [opt (phrase annotations), phrase unannotatedType, opt (phrase receiverPath),
      word thisWord]
  | receiverPath => repeated receiverPath (seq [word identifier, word dot])
  | spreadParameter =>
    seq [opt (phrase modifiers), phrase unannotatedType, word ellipsis,
      opt (phrase annotations), phrase variableDeclarator]
  | throws => seq [word throwsWord, commaSeparated (phrase anyType) typeTail]
  | localVariableDeclaration =>
    seq [opt (phrase modifiers), phrase unannotatedType, phrase declaratorList, word semicolon]
  | methodDeclaration =>
    seq [opt (phrase modifiers), phrase methodHeader, alt [phrase block, word semicolon]]
  | compactConstructorDeclaration =>
    seq [opt (phrase modifiers), word identifier, phrase block]
  | reservedIdentifier =>
    prec (-3) (alt ([openWord, moduleWord, recordWord, withWord, sealedWord].map
      (wordAs · identifier)))

/-- Every kind of phrase. -/
def all : List Phrase := (List.range count).map ofNat

end Phrase

end SourceShelf.Java
