import SourceShelf.Java.TokenSet
import SourceShelf.Text.Letters
import SourceShelf.Text.Place

/-!
# Finding the next word

Which word stands at a place depends on what the reader expects there: `>>` is
one sign between two numbers and two signs behind type arguments, and `record`
is a keyword only where a record may be declared.  `Lexer.next` therefore takes
the set of words that the reader's state allows.  Of these the longest wins; a
keyword wins against an identifier of the same spelling.  When none of them
fits, the longest of all words is taken, so that the reader learns what stands
in its way, and characters that fit no word at all are taken as junk.

Each `…Length` function gives the length of a word at the start of a list of
characters, `0` when there is none.
-/

namespace SourceShelf.Java

namespace Lexer

/-- The characters between words. -/
def isBlank (c : Char) : Bool :=
  c == ' ' || c == '\t' || c == '\n' || c == '\r' || c == '\x0b' || c == '\x0c'

/-- Characters that may start an identifier. -/
def isIdentifierStart (c : Char) : Bool := c == '_' || c == '$' || Letters.isStart c

/-- Characters that may go on an identifier. -/
def isIdentifierPart (c : Char) : Bool :=
  c == '_' || c == '$' || c == '¢' || Letters.isContinue c

/-- The number of characters at the start that satisfy a test. -/
def runLength (test : Char → Bool) (cs : List Char) : Nat := (cs.takeWhile test).length

/-- An identifier or a keyword. -/
def identifierLength : List Char → Nat
  | [] => 0
  | c :: cs => if isIdentifierStart c then 1 + runLength isIdentifierPart cs else 0

/-! ## Numbers -/

/-- `0` to `7`. -/
def isOctal (c : Char) : Bool := '0' ≤ c && c ≤ '7'

/-- Decimal and hexadecimal digits. -/
def isHex (c : Char) : Bool := c.isDigit || ('a' ≤ c && c ≤ 'f') || ('A' ≤ c && c ≤ 'F')

/-- Groups of digits with one underscore between two groups. -/
def groupsLength (digit : Char → Bool) (cs : List Char) : Nat := go cs.length cs
where
  go : Nat → List Char → Nat
    | 0, _ => 0
    | fuel + 1, cs =>
      let n := runLength digit cs
      if n = 0 then 0
      else
        match cs.drop n with
        | '_' :: rest =>
          match go fuel rest with
          | 0 => n
          | m => n + 1 + m
        | _ => n

/-- Groups of digits with underscores between them. -/
def looseGroupsLength (cs : List Char) : Nat := go cs.length cs
where
  go : Nat → List Char → Nat
    | 0, _ => 0
    | fuel + 1, cs =>
      let n := runLength Char.isDigit cs
      if n = 0 then 0
      else
        let gap := runLength (· == '_') (cs.drop n)
        if gap = 0 then n
        else
          match go fuel (cs.drop (n + gap)) with
          | 0 => n
          | m => n + gap + m

/-- A decimal number without sign, not starting with `0` unless it is `0`. -/
def decimalLength : List Char → Nat
  | '0' :: _ => 1
  | c :: cs =>
    if c.isDigit then
      match cs with
      | '_' :: rest =>
        match looseGroupsLength rest with
        | 0 => 1
        | n => 2 + n
      | _ => 1 + looseGroupsLength cs
    else 0
  | [] => 0

/-- A word followed by one of some characters, or alone. -/
def withSuffix (suffix : List Char) (length : List Char → Nat) (cs : List Char) : Nat :=
  match length cs with
  | 0 => 0
  | n =>
    match cs.drop n with
    | c :: _ => if suffix.contains c then n + 1 else n
    | [] => n

/-- Digits behind `0x`, `0b` or `0o`. -/
def prefixedLength (mark : List Char) (digit : Char → Bool) : List Char → Nat
  | '0' :: c :: cs =>
    if mark.contains c then
      match groupsLength digit cs with
      | 0 => 0
      | n => 2 + n
    else 0
  | _ => 0

/-- An octal number: `0` or `0o` and octal digits. -/
def octalLength (cs : List Char) : Nat :=
  match prefixedLength ['o', 'O'] isOctal cs with
  | 0 =>
    match cs with
    | '0' :: rest =>
      match groupsLength isOctal rest with
      | 0 => 0
      | n => 1 + n
    | _ => 0
  | n => n

/-- An exponent: a mark, a sign or none, and digits. -/
def exponentLength (marks : List Char) : List Char → Nat
  | c :: cs =>
    if marks.contains c then
      match cs with
      | s :: rest =>
        if s == '+' || s == '-' then
          match groupsLength Char.isDigit rest with
          | 0 => 0
          | n => 2 + n
        else
          match groupsLength Char.isDigit cs with
          | 0 => 0
          | n => 1 + n
      | [] => 0
    else 0
  | [] => 0

/-- The marks of floating point numbers. -/
def floatSuffix : List Char := ['f', 'F', 'd', 'D']

/-- The length with a suffix and an exponent behind the first `n` characters. -/
def withExponent (marks : List Char) (n : Nat) (cs : List Char) : Nat :=
  n + exponentLength marks (cs.drop n)

/-- A decimal floating point number. -/
def floatLength (cs : List Char) : Nat :=
  let pointed : List Char → Nat := fun cs =>
    match groupsLength Char.isDigit cs with
    | 0 =>
      match cs with
      | '.' :: rest =>
        match groupsLength Char.isDigit rest with
        | 0 => 0
        | n => withExponent ['e', 'E'] (1 + n) cs
      | _ => 0
    | n =>
      match cs.drop n with
      | '.' :: rest => withExponent ['e', 'E'] (n + 1 + groupsLength Char.isDigit rest) cs
      | _ => 0
  let whole := decimalLength cs
  let powered : List Char → Nat := fun cs =>
    if whole = 0 then 0
    else
      match exponentLength ['e', 'E', 'p', 'P'] (cs.drop whole) with
      | 0 => 0
      | m => whole + m
  let marked :=
    if whole = 0 then 0
    else
      let n := withExponent ['e', 'E'] whole cs
      match cs.drop n with
      | c :: _ => if floatSuffix.contains c then n + 1 else 0
      | [] => 0
  max marked (max (withSuffix floatSuffix pointed cs) (withSuffix floatSuffix powered cs))

/-- A hexadecimal floating point number. -/
def hexFloatLength : List Char → Nat
  | '0' :: c :: cs =>
    if c == 'x' || c == 'X' then
      let n := groupsLength isHex cs
      let digits :=
        match cs.drop n with
        | '.' :: rest =>
          match groupsLength isHex rest with
          | 0 => if n = 0 then 0 else n + 1
          | m => n + 1 + m
        | _ => n
      if digits = 0 then 0
      else
        match exponentLength ['p', 'P'] (cs.drop digits) with
        | 0 => 2 + digits
        | m =>
          match cs.drop (digits + m) with
          | s :: _ => if floatSuffix.contains s then 2 + digits + m + 1 else 2 + digits + m
          | [] => 2 + digits + m
    else 0
  | _ => 0

/-! ## Characters, strings and comments -/

/-- The characters of a character literal behind its first quote, and whether
the closing quote follows. -/
def characterBody : List Char → Nat × Bool
  | [] => (0, false)
  | '\'' :: _ => (0, true)
  | '\n' :: _ => (0, false)
  | '\\' :: _ :: cs => let (n, closed) := characterBody cs; (n + 2, closed)
  | ['\\'] => (1, false)
  | _ :: cs => let (n, closed) := characterBody cs; (n + 1, closed)

/-- A character literal. -/
def characterLength : List Char → Nat
  | '\'' :: cs =>
    match characterBody cs with
    | (0, _) => 0
    | (n, true) => n + 2
    | (_, false) => 0
  | _ => 0

/-- An escape in a string. -/
def escapeLength : List Char → Nat
  | '\\' :: 'x' :: a :: b :: _ => if isHex a && isHex b then 4 else 0
  | '\\' :: 'u' :: '{' :: rest =>
    match runLength isHex rest with
    | 0 => 0
    | n => if (rest.drop n).head? = some '}' then n + 4 else 0
  | '\\' :: 'u' :: a :: b :: c :: d :: _ =>
    if isHex a && isHex b && isHex c && isHex d then 6 else 0
  | '\\' :: c :: rest =>
    if isOctal c then 2 + min 2 (runLength isOctal rest)
    else if c == 'x' || c == 'u' then 0
    else 2
  | _ => 0

/-- A comment that goes to the end of the line. -/
def lineCommentLength : List Char → Nat
  | '/' :: '/' :: rest => 2 + runLength (· != '\n') rest
  | _ => 0

/-- The length up to and with the first `*/`. -/
def commentBodyLength : List Char → Nat
  | '*' :: '/' :: _ => 2
  | _ :: cs =>
    match commentBodyLength cs with
    | 0 => 0
    | n => n + 1
  | [] => 0

/-- A comment between `/*` and `*/`. -/
def blockCommentLength : List Char → Nat
  | '/' :: '*' :: rest =>
    match commentBodyLength rest with
    | 0 => 0
    | n => n + 2
  | _ => 0

/-- Text of a string: no quote and no backslash. -/
def isPlain (c : Char) : Bool := c != '"' && c != '\\'

/-- A run of text that starts with a quote. -/
def blockQuoteLength : List Char → Nat
  | '"' :: cs => 1 + runLength isPlain cs
  | _ => 0

/-! ## The choice -/

/-- The spellings of some words. -/
def spellings (ts : List Token) : List (Token × List Char) :=
  ts.filterMap fun t => t.spelling?.map fun s => (t, s.toList)

/-- The spellings of the keywords. -/
def keywordSpellings : List (Token × List Char) := spellings Token.keywords

/-- The spellings of the signs. -/
def signSpellings : List (Token × List Char) := spellings Token.signs

/-- The keyword with a given spelling. -/
def keyword? (cs : List Char) : Option Token :=
  (keywordSpellings.find? (·.2 = cs)).map Prod.fst

/-- The words of varying spelling, each with its length at the start of the
characters. -/
def classes (set : TokenSet) (cs : List Char) : List (Token × Nat) :=
  let long := ['l', 'L']
  [(.identifier, identifierLength cs),
   (.decimalInteger, withSuffix long decimalLength cs),
   (.hexInteger, withSuffix long (prefixedLength ['x', 'X'] isHex) cs),
   (.octalInteger, withSuffix long octalLength cs),
   (.binaryInteger, withSuffix long (prefixedLength ['b', 'B'] fun c => c == '0' || c == '1') cs),
   (.decimalFloat, floatLength cs),
   (.hexFloat, hexFloatLength cs),
   (.character, characterLength cs),
   (.escape, escapeLength cs),
   (.blockFragment, if set.contains .blockFragment then runLength isPlain cs else 0),
   (.blockQuote, blockQuoteLength cs),
   (.lineComment, lineCommentLength cs),
   (.blockComment, blockCommentLength cs)]

/-- The signs that stand at the start of the characters. -/
def signsAt (cs : List Char) : List (Token × Nat) :=
  (signSpellings.filter (·.2.isPrefixOf cs)).map fun s => (s.1, s.2.length)

/-- The longest of some words, the first one of those. -/
def longest (found : List (Token × Nat)) : Option (Token × Nat) :=
  found.foldl (fun best w =>
    match best with
    | none => if w.2 = 0 then none else some w
    | some b => if b.2 < w.2 then some w else best) none

/-- True when an identifier or a keyword is allowed. -/
def allowsIdentifier (set : TokenSet) : Bool :=
  set.contains .identifier || Token.keywords.any set.contains

/-- The longest allowed word at the start of the characters.  Identifiers and
keywords are not told apart yet. -/
def allowed (set : TokenSet) (cs : List Char) : Option (Token × Nat) :=
  longest ((classes set cs ++ signsAt cs).filter fun w =>
    if w.1 = .identifier then allowsIdentifier set else w.1.isComment || set.contains w.1)

/-- All words, but not the texts of strings, which would swallow everything. -/
def everyWord : TokenSet :=
  .ofList ([.identifier, .decimalInteger, .hexInteger, .octalInteger, .binaryInteger,
    .decimalFloat, .hexFloat, .character, .escape, .lineComment, .blockComment] ++
    Token.keywords ++ Token.signs)

/-- Text inside a string, where blanks and comments are text too. -/
def insideString (set : TokenSet) (cs : List Char) : Option (Token × Nat) :=
  if set.contains .fragment || set.contains .blockEscape then
    match cs with
    | '\\' :: '{' :: _ => some (.holeOpen, 2)
    | '\\' :: c :: _ =>
      match escapeLength cs with
      | 0 => if set.contains .blockEscape then some (.blockEscape, 2) else none
      | n =>
        if set.contains .blockEscape && !("bfnrts'\"\\".toList.contains c) && n = 2 then
          some (.blockEscape, 2)
        else some (.escape, n)
    | c :: _ =>
      if set.contains .fragment && isPlain c then some (.fragment, runLength isPlain cs) else none
    | [] => none
  else none

/-- How far a search for a word goes before it fails. -/
def failedLength : List Char → Nat
  | '\'' :: cs => 1 + (characterBody cs).1
  | '\\' :: _ => 1
  | _ => 0

end Lexer

/-- A word found in a text.  `word` is `none` for junk, and `keyword` tells
whether it is spelled like a keyword. -/
structure Lexeme where
  word : Option Token
  start : Cursor
  stop : Cursor
  keyword : Bool := false
deriving Inhabited

namespace Lexer

/-- Passes blanks, and a byte order mark at the start of the text. -/
def skipBlanks (c : Cursor) : Cursor :=
  match c.place.chars, c.rest with
  | 0, '\uFEFF' :: _ => (c.advance 1).advanceWhile isBlank
  | _, _ => c.advanceWhile isBlank

/-- Passes junk: characters up to the next place where some word stands. -/
def skipJunk : Nat → Cursor → Cursor
  | 0, c => c
  | fuel + 1, c =>
    let here := skipBlanks c
    if here.atEnd || (allowed everyWord here.rest).isSome then c
    else skipJunk fuel (here.advance (max 1 (failedLength here.rest)))

/-- Makes a lexeme of a word, telling keywords from identifiers. -/
def lexeme (set : TokenSet) (start : Cursor) (w : Token × Nat) : Lexeme :=
  let stop := start.advance w.2
  if w.1 = .identifier then
    match keyword? (start.rest.take w.2) with
    | some k =>
      { word := some (if set.contains k then k else .identifier), start, stop, keyword := true }
    | none => { word := some .identifier, start, stop }
  else { word := some w.1, start, stop }

/-- The next word, for a reader that allows the words of a set. -/
def next (set : TokenSet) (c : Cursor) : Lexeme :=
  match insideString set c.rest with
  | some w => lexeme set c w
  | none =>
    let here := skipBlanks c
    if here.atEnd then { word := some .endOfFile, start := here, stop := here }
    else
      match allowed set here.rest with
      | some w => lexeme set here w
      | none =>
        match allowed everyWord here.rest with
        | some w => lexeme set here w
        | none =>
          { word := none, start := here,
            stop := skipJunk here.rest.length (here.advance (max 1 (failedLength here.rest))) }

end Lexer

end SourceShelf.Java
