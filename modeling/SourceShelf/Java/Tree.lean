import SourceShelf.Java.Token
import SourceShelf.Java.Phrase

/-!
# Syntax trees

A `Tree` is a phrase with its parts, down to the words of the text.  Comments
are leaves like other words.  Where a text does not follow the grammar, the
tree shows how it was mended: a word that was put in is `Tree.missing`, and
words that were passed over stand in a `Tree.error`.
-/

namespace SourceShelf.Java

/-- A phrase with its parts.  A leaf tells where its word starts and ends, by
the number of characters before each place. -/
inductive Tree where
  | leaf (word : Token) (start stop : Nat)
  | missing (word : Token) (place : Nat)
  | junk (start stop : Nat)
  | node (phrase : Phrase) (parts : List Tree)
  | error (parts : List Tree)
deriving Repr, Inhabited

namespace Tree

mutual

/-- The leaves of a tree, each with its start and its end. -/
def leaves : Tree → List (Nat × Nat)
  | leaf _ a b => [(a, b)]
  | missing _ p => [(p, p)]
  | junk a b => [(a, b)]
  | node _ parts => leavesOf parts
  | error parts => leavesOf parts

/-- The leaves of a list of trees. -/
def leavesOf : List Tree → List (Nat × Nat)
  | [] => []
  | t :: ts => t.leaves ++ leavesOf ts

end

mutual

/-- The start of the first leaf. -/
def start? : Tree → Option Nat
  | leaf _ a _ => some a
  | missing _ p => some p
  | junk a _ => some a
  | node _ parts => startOf? parts
  | error parts => startOf? parts

/-- The start of the first leaf of a list of trees. -/
def startOf? : List Tree → Option Nat
  | [] => none
  | t :: ts => t.start?.or (startOf? ts)

end

mutual

/-- The end of the last leaf. -/
def stop? : Tree → Option Nat
  | leaf _ _ b => some b
  | missing _ p => some p
  | junk _ b => some b
  | node _ parts => stopOf? parts
  | error parts => stopOf? parts

/-- The end of the last leaf of a list of trees. -/
def stopOf? : List Tree → Option Nat
  | [] => none
  | t :: ts => (stopOf? ts).or t.stop?

end

/-- Where a tree starts. -/
def start (t : Tree) : Nat := t.start?.getD 0

/-- Where a tree ends. -/
def stop (t : Tree) : Nat := t.stop?.getD 0

/-- The parts of a phrase. -/
def parts : Tree → List Tree
  | node _ ps => ps
  | error ps => ps
  | _ => []

/-- The kind of phrase. -/
def phrase? : Tree → Option Phrase
  | node p _ => some p
  | _ => none

/-- The kind of word. -/
def word? : Tree → Option Token
  | leaf t _ _ => some t
  | missing t _ => some t
  | _ => none

/-- True of a phrase of the given kind. -/
def isPhrase (p : Phrase) (t : Tree) : Bool := t.phrase? = some p

/-- True of a word of the given kind. -/
def isWord (w : Token) (t : Tree) : Bool := t.word? = some w

/-- True of a comment. -/
def isComment (t : Tree) : Bool := t.word?.any Token.isComment

/-- True of everything but the fixed signs and keywords of the grammar. -/
def isNamed (t : Tree) : Bool := t.word?.all Token.isNamed

mutual

/-- True of a tree that shows a fault. -/
def isFaulty : Tree → Bool
  | leaf _ _ _ => false
  | missing _ _ => true
  | junk _ _ => true
  | node _ parts => anyFaulty parts
  | error _ => true

/-- True when a list of trees shows a fault. -/
def anyFaulty : List Tree → Bool
  | [] => false
  | t :: ts => t.isFaulty || anyFaulty ts

end

mutual

/-- The first fault of a tree, parts after the phrase they belong to. -/
def firstFault? : Tree → Option Tree
  | leaf _ _ _ => none
  | missing w p => some (missing w p)
  | junk a b => some (junk a b)
  | node _ parts => firstFaultOf? parts
  | error parts => some (error parts)

/-- The first fault of a list of trees. -/
def firstFaultOf? : List Tree → Option Tree
  | [] => none
  | t :: ts => t.firstFault?.or (firstFaultOf? ts)

end

end Tree

end SourceShelf.Java
