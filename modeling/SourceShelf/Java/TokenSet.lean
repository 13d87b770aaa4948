import SourceShelf.Java.Token

/-!
# Sets of words

A `TokenSet` holds kinds of words as the bits of a number.
-/

namespace SourceShelf.Java

/-- A set of kinds of words. -/
structure TokenSet where
  bits : Nat
deriving DecidableEq, Repr, Inhabited

namespace TokenSet

/-- The empty set. -/
def empty : TokenSet := ⟨0⟩

/-- The set of one kind of word. -/
def single (t : Token) : TokenSet := ⟨1 <<< t.ctorIdx⟩

/-- Both sets together. -/
def union (a b : TokenSet) : TokenSet := ⟨a.bits ||| b.bits⟩

/-- Membership. -/
def contains (s : TokenSet) (t : Token) : Bool := s.bits.testBit t.ctorIdx

/-- True of the empty set. -/
def isEmpty (s : TokenSet) : Bool := s.bits == 0

/-- The set of the kinds of words in a list. -/
def ofList (ts : List Token) : TokenSet := ts.foldl (fun s t => s.union (single t)) empty

end TokenSet

end SourceShelf.Java
