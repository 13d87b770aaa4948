/-!
# The words of Java

`Token` lists every kind of word that the grammar speaks about.  Their order
is the order in which a repair tries them (`Reader.mend`), so it is part of
the behaviour: when two missing words would both mend a text, the earlier one
is reported.

`Token.name` is the name under which a word appears in messages.
-/

namespace SourceShelf.Java

/-- A kind of word. -/
inductive Token where
  | endOfFile
  | identifier
  | decimalInteger
  | hexInteger
  | octalInteger
  | binaryInteger
  | decimalFloat
  | hexFloat
  | trueWord
  | falseWord
  | character
  | quote
  | tripleQuote
  | fragment
  | blockFragment
  | blockQuote
  | holeOpen
  | braceClose
  | blockEscape
  | escape
  | nullWord
  | parenOpen
  | parenClose
  | amp
  | assign
  | plusAssign
  | minusAssign
  | starAssign
  | slashAssign
  | ampAssign
  | barAssign
  | caretAssign
  | percentAssign
  | shiftLeftAssign
  | shiftRightAssign
  | unsignedShiftAssign
  | greater
  | less
  | greaterEqual
  | lessEqual
  | equal
  | notEqual
  | andAnd
  | orOr
  | plus
  | minus
  | star
  | slash
  | bar
  | caret
  | percent
  | shiftLeft
  | shiftRight
  | unsignedShift
  | instanceofWord
  | finalWord
  | arrow
  | comma
  | question
  | colon
  | bang
  | tilde
  | increment
  | decrement
  | newWord
  | bracketOpen
  | bracketClose
  | dot
  | classWord
  | doubleColon
  | extendsWord
  | switchWord
  | braceOpen
  | caseWord
  | defaultWord
  | underscore
  | whenWord
  | semicolon
  | assertWord
  | doWord
  | whileWord
  | breakWord
  | continueWord
  | returnWord
  | yieldWord
  | synchronizedWord
  | throwWord
  | tryWord
  | catchWord
  | finallyWord
  | ifWord
  | elseWord
  | forWord
  | at
  | openWord
  | moduleWord
  | requiresWord
  | transitiveWord
  | staticWord
  | exportsWord
  | toWord
  | opensWord
  | usesWord
  | providesWord
  | withWord
  | packageWord
  | importWord
  | enumWord
  | publicWord
  | protectedWord
  | privateWord
  | abstractWord
  | strictfpWord
  | nativeWord
  | transientWord
  | volatileWord
  | sealedWord
  | nonSealed
  | implementsWord
  | permitsWord
  | recordWord
  | atInterface
  | interfaceWord
  | byteWord
  | shortWord
  | intWord
  | longWord
  | charWord
  | floatWord
  | doubleWord
  | booleanWord
  | voidWord
  | ellipsis
  | throwsWord
  | thisWord
  | superWord
  | lineComment
  | blockComment
  | typeIdentifier
deriving DecidableEq, Repr, Inhabited

namespace Token

/-- The number of kinds of words that a text can hold. -/
def count : Nat := typeIdentifier.ctorIdx

/-- The name of a word: its spelling, or the name of its class. -/
def name : Token → String
  | .endOfFile => "end"
  | .identifier => "identifier"
  | .decimalInteger => "decimal_integer_literal"
  | .hexInteger => "hex_integer_literal"
  | .octalInteger => "octal_integer_literal"
  | .binaryInteger => "binary_integer_literal"
  | .decimalFloat => "decimal_floating_point_literal"
  | .hexFloat => "hex_floating_point_literal"
  | .trueWord => "true"
  | .falseWord => "false"
  | .character => "character_literal"
  | .quote => "\""
  | .tripleQuote => "\"\"\""
  | .fragment => "string_fragment"
  | .blockFragment => "multiline_string_fragment"
  | .blockQuote => "multiline_string_fragment"
  | .holeOpen => "\\\x7b"
  | .braceClose => "\x7d"
  | .blockEscape => "escape_sequence"
  | .escape => "escape_sequence"
  | .nullWord => "null_literal"
  | .parenOpen => "("
  | .parenClose => ")"
  | .amp => "&"
  | .assign => "="
  | .plusAssign => "+="
  | .minusAssign => "-="
  | .starAssign => "*="
  | .slashAssign => "/="
  | .ampAssign => "&="
  | .barAssign => "|="
  | .caretAssign => "^="
  | .percentAssign => "%="
  | .shiftLeftAssign => "<<="
  | .shiftRightAssign => ">>="
  | .unsignedShiftAssign => ">>>="
  | .greater => ">"
  | .less => "<"
  | .greaterEqual => ">="
  | .lessEqual => "<="
  | .equal => "=="
  | .notEqual => "!="
  | .andAnd => "&&"
  | .orOr => "||"
  | .plus => "+"
  | .minus => "-"
  | .star => "*"
  | .slash => "/"
  | .bar => "|"
  | .caret => "^"
  | .percent => "%"
  | .shiftLeft => "<<"
  | .shiftRight => ">>"
  | .unsignedShift => ">>>"
  | .instanceofWord => "instanceof"
  | .finalWord => "final"
  | .arrow => "->"
  | .comma => ","
  | .question => "?"
  | .colon => ":"
  | .bang => "!"
  | .tilde => "~"
  | .increment => "++"
  | .decrement => "--"
  | .newWord => "new"
  | .bracketOpen => "["
  | .bracketClose => "]"
  | .dot => "."
  | .classWord => "class"
  | .doubleColon => "::"
  | .extendsWord => "extends"
  | .switchWord => "switch"
  | .braceOpen => "\x7b"
  | .caseWord => "case"
  | .defaultWord => "default"
  | .underscore => "underscore_pattern"
  | .whenWord => "when"
  | .semicolon => ";"
  | .assertWord => "assert"
  | .doWord => "do"
  | .whileWord => "while"
  | .breakWord => "break"
  | .continueWord => "continue"
  | .returnWord => "return"
  | .yieldWord => "yield"
  | .synchronizedWord => "synchronized"
  | .throwWord => "throw"
  | .tryWord => "try"
  | .catchWord => "catch"
  | .finallyWord => "finally"
  | .ifWord => "if"
  | .elseWord => "else"
  | .forWord => "for"
  | .at => "@"
  | .openWord => "open"
  | .moduleWord => "module"
  | .requiresWord => "requires"
  | .transitiveWord => "transitive"
  | .staticWord => "static"
  | .exportsWord => "exports"
  | .toWord => "to"
  | .opensWord => "opens"
  | .usesWord => "uses"
  | .providesWord => "provides"
  | .withWord => "with"
  | .packageWord => "package"
  | .importWord => "import"
  | .enumWord => "enum"
  | .publicWord => "public"
  | .protectedWord => "protected"
  | .privateWord => "private"
  | .abstractWord => "abstract"
  | .strictfpWord => "strictfp"
  | .nativeWord => "native"
  | .transientWord => "transient"
  | .volatileWord => "volatile"
  | .sealedWord => "sealed"
  | .nonSealed => "non-sealed"
  | .implementsWord => "implements"
  | .permitsWord => "permits"
  | .recordWord => "record"
  | .atInterface => "@interface"
  | .interfaceWord => "interface"
  | .byteWord => "byte"
  | .shortWord => "short"
  | .intWord => "int"
  | .longWord => "long"
  | .charWord => "char"
  | .floatWord => "float"
  | .doubleWord => "double"
  | .booleanWord => "boolean_type"
  | .voidWord => "void_type"
  | .ellipsis => "..."
  | .throwsWord => "throws"
  | .thisWord => "this"
  | .superWord => "super"
  | .lineComment => "line_comment"
  | .blockComment => "block_comment"
  | .typeIdentifier => "type_identifier"

/-- The spelling of a word that is always spelled alike. -/
def spelling? : Token → Option String
  | .nullWord => some "null"
  | .underscore => some "_"
  | .booleanWord => some "boolean"
  | .voidWord => some "void"
  | .endOfFile | .identifier | .decimalInteger | .hexInteger | .octalInteger |
  .binaryInteger | .decimalFloat | .hexFloat | .character | .fragment | .blockFragment |
  .blockQuote | .blockEscape | .escape | .lineComment | .blockComment | .typeIdentifier =>
  none
  | t => some t.name

/-- The words that are spelled like identifiers. -/
def keywords : List Token :=
  [.trueWord, .falseWord, .nullWord, .instanceofWord, .finalWord, .newWord, .classWord,
   .extendsWord, .switchWord, .caseWord, .defaultWord, .underscore, .whenWord,
   .assertWord, .doWord, .whileWord, .breakWord, .continueWord, .returnWord, .yieldWord,
   .synchronizedWord, .throwWord, .tryWord, .catchWord, .finallyWord, .ifWord, .elseWord,
   .forWord, .openWord, .moduleWord, .requiresWord, .transitiveWord, .staticWord,
   .exportsWord, .toWord, .opensWord, .usesWord, .providesWord, .withWord, .packageWord,
   .importWord, .enumWord, .publicWord, .protectedWord, .privateWord, .abstractWord,
   .strictfpWord, .nativeWord, .transientWord, .volatileWord, .sealedWord,
   .implementsWord, .permitsWord, .recordWord, .interfaceWord, .byteWord, .shortWord,
   .intWord, .longWord, .charWord, .floatWord, .doubleWord, .booleanWord, .voidWord,
   .throwsWord, .thisWord, .superWord]

/-- The words that are spelled with signs, the two with a hyphen or an at
sign in front of letters included. -/
def signs : List Token :=
  [.quote, .tripleQuote, .holeOpen, .braceClose, .parenOpen, .parenClose, .amp, .assign,
   .plusAssign, .minusAssign, .starAssign, .slashAssign, .ampAssign, .barAssign,
   .caretAssign, .percentAssign, .shiftLeftAssign, .shiftRightAssign,
   .unsignedShiftAssign, .greater, .less, .greaterEqual, .lessEqual, .equal, .notEqual,
   .andAnd, .orOr, .plus, .minus, .star, .slash, .bar, .caret, .percent, .shiftLeft,
   .shiftRight, .unsignedShift, .arrow, .comma, .question, .colon, .bang, .tilde,
   .increment, .decrement, .bracketOpen, .bracketClose, .dot, .doubleColon, .braceOpen,
   .semicolon, .at, .nonSealed, .atInterface, .ellipsis]

/-- A comment may stand between any two words. -/
def isComment : Token → Bool
  | .lineComment | .blockComment => true
  | _ => false

/-- Words that carry a name of their own in the tree.  All others are the
fixed signs and keywords of the grammar. -/
def isNamed : Token → Bool
  | .identifier | .decimalInteger | .hexInteger | .octalInteger | .binaryInteger
  | .decimalFloat | .hexFloat | .trueWord | .falseWord | .character | .fragment
  | .blockFragment | .blockQuote | .blockEscape | .escape | .nullWord | .underscore
  | .booleanWord | .voidWord | .thisWord | .superWord | .lineComment | .blockComment
  | .typeIdentifier => true
  | _ => false

end Token

end SourceShelf.Java
