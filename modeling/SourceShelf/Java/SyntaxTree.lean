import SourceShelf.Java.Reader

/-!
# The syntax tree of a text

`SyntaxTree.ofText` gives every text a tree.  Its leaves stand in the order of
the text and inside it (`SyntaxTree.laidOut`); a text that the reader cannot
make anything of is one fault from end to end.
-/

namespace SourceShelf.Java

/-- True when leaves stand one behind the other, each between `low` and
`high`. -/
def laidOut (low high : Nat) : List (Nat × Nat) → Bool
  | [] => low ≤ high
  | (a, b) :: rest => low ≤ a && a ≤ b && laidOut b high rest

/-- The tree of a text. -/
structure SyntaxTree (text : String) where
  parts : List Tree
  laidOut : laidOut 0 text.length (Tree.leavesOf parts) = true

namespace SyntaxTree

/-- The tree of a text that is one fault from end to end. -/
def fault (text : String) : SyntaxTree text where
  parts := [.error [.junk 0 text.length]]
  laidOut := by simp [Tree.leavesOf, Tree.leaves, Java.laidOut]

/-- The tree of a text. -/
def ofText (text : String) : SyntaxTree text :=
  match Reader.read text with
  | none => fault text
  | some t =>
    let parts := match t with
      | .node .program parts => parts
      | t => [t]
    if h : Java.laidOut 0 text.length (Tree.leavesOf parts) = true then ⟨parts, h⟩ else fault text

/-- The first place where the text does not follow the grammar. -/
def firstFault? {text : String} (t : SyntaxTree text) : Option Tree := Tree.firstFaultOf? t.parts

end SyntaxTree

end SourceShelf.Java
