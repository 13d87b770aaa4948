/-!
# The phrases of Java

`Phrase` lists the kinds of phrases of the grammar in `Java.Grammar`.  Some of
them only group others: they leave no node of their own in a tree, and their
parts become parts of the phrase around them (`Phrase.isHidden`).
-/

namespace SourceShelf.Java

/-- A kind of phrase. -/
inductive Phrase where
  -- the whole text
  | file | program | topLevelStatements | topLevelStatement
  -- literals
  | literal | stringLiteral | lineString | lineStringParts | blockString | blockStringParts
  | interpolation
  -- expressions
  | expression | castExpression | boundTail | assignmentExpression | binaryExpression
  | instanceofExpression | lambdaExpression | inferredParameters | inferredTail
  | ternaryExpression | unaryExpression | updateExpression | primaryExpression
  | arrayCreationExpression | dimensionSizes | dimensionSize | parenthesizedExpression
  | classLiteral | objectCreationExpression | plainObjectCreation | annotations | fieldAccess
  | templateExpression | arrayAccess | methodInvocation | argumentList | expressionTail
  | methodReference | typeArguments | typeArgumentTail | wildcard | wildcardBounds
  | dimensions | dimensionPairs | switchExpression | switchBlock | switchGroups | switchGroup
  | switchGroupLabels | switchRules | switchRule | switchLabel | pattern | typePattern
  | recordPattern | recordPatternBody | recordPatternTail | recordPatternComponent | guard
  -- statements
  | statement | statements | block | expressionStatement | labeledStatement | assertStatement
  | doStatement | breakStatement | continueStatement | returnStatement | yieldStatement
  | synchronizedStatement | throwStatement | tryStatement | catchClauses | catchClause
  | catchFormalParameter | catchType | catchTypeTail | finallyClause | tryWithResourcesStatement
  | resourceSpecification | resourceTail | resource | ifStatement | whileStatement | forStatement
  | enhancedForStatement
  -- annotations
  | annotationUse | annotationMarker | annotationCall | annotationArgumentList | elementValuePair
  | elementValuePairTail | elementValue | elementValueArrayInitializer | elementValueTail
  -- declarations
  | declaration | moduleDeclaration | moduleBody | moduleDirectives | moduleDirective
  | requiresDirective | requiresModifiers | requiresModifier | exportsDirective | opensDirective
  | usesDirective | providesDirective | nameTail | packageDeclaration | importDeclaration
  | asterisk | enumDeclaration | enumBody | enumConstantTail | enumBodyDeclarations
  | enumConstant | classDeclaration | modifiers | modifierList | typeParameters
  | typeParameterTail | typeParameter | typeBound | superclass | superInterfaces | typeList
  | typeTail | permits | classBody | members | staticInitializer | constructorDeclaration
  | constructorDeclarator | constructorBody | explicitConstructorInvocation | scopedIdentifier
  | fieldDeclaration | recordDeclaration | annotationTypeDeclaration | annotationTypeBody
  | annotationTypeMembers | annotationTypeElementDeclaration | defaultValue
  | interfaceDeclaration | extendsInterfaces | interfaceBody | interfaceMembers
  | constantDeclaration | declaratorList | declaratorTail | variableDeclarator
  | variableDeclaratorId | arrayInitializer | initializerTail
  -- types and methods
  | anyType | unannotatedType | simpleType | annotatedType | scopedTypeIdentifier | genericType
  | arrayType | integralType | floatingPointType | methodHeader | methodDeclarator
  | formalParameters | formalParameterTail | formalParameter
  | receiverParameter | receiverPath | spreadParameter | throws | localVariableDeclaration
  | methodDeclaration | compactConstructorDeclaration | reservedIdentifier
deriving DecidableEq, Repr, Inhabited

namespace Phrase

/-- The number of kinds of phrases. -/
def count : Nat := reservedIdentifier.ctorIdx + 1

/-- Phrases that only group others. -/
def isHidden : Phrase → Bool
  | .file | .topLevelStatements | .topLevelStatement | .literal | .lineString | .lineStringParts
  | .blockString | .blockStringParts | .expression | .boundTail | .inferredTail
  | .primaryExpression | .dimensionSizes | .plainObjectCreation | .annotations | .expressionTail
  | .typeArgumentTail | .wildcardBounds | .dimensionPairs | .switchGroups
  | .switchGroupLabels | .switchRules | .recordPatternTail | .statement | .statements
  | .catchClauses | .catchTypeTail | .resourceTail | .annotationUse | .elementValuePairTail
  | .elementValue | .elementValueTail | .declaration | .moduleDirectives | .moduleDirective
  | .requiresModifiers | .nameTail | .enumConstantTail | .modifierList | .typeParameterTail
  | .typeTail | .members | .constructorDeclarator | .annotationTypeMembers | .defaultValue
  | .interfaceMembers | .declaratorList | .declaratorTail | .variableDeclaratorId
  | .initializerTail | .anyType | .unannotatedType | .simpleType | .methodHeader
  | .methodDeclarator | .formalParameterTail | .receiverPath
  | .reservedIdentifier => true
  | _ => false

end Phrase

end SourceShelf.Java
