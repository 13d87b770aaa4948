import SourceShelf.Java.Grammar
import SourceShelf.Java.TokenSet

/-!
# Partly read alternatives

A `Form` is what is left of an alternative when some of its steps have been
read: the steps to come, and what ending it will make.  Two alternatives of
one phrase with the same steps to come have the same form, whatever was read
before, so that a reader which has come to the same place by two ways is in
the same state.

`Form.moves` lists the symbols that may come next, optional steps skipped, and
the form behind each.  `Forms` numbers all forms of the grammar and adds the
sets of words with which they can start.
-/

namespace SourceShelf.Java

/-- The rest of an alternative. -/
structure Form where
  head : Phrase
  precedence : Int
  assoc : Assoc
  preference : Int
  shown : List (Symbol × Token)
  steps : List Step
deriving DecidableEq, Repr, Inhabited

namespace Form

/-- An alternative before its first step. -/
def ofAlternative (head : Phrase) (a : Alternative) : Form :=
  { head, precedence := a.precedence, assoc := a.assoc, preference := a.preference,
    shown := a.steps.filterMap fun s => s.shownAs.map (s.symbol, ·),
    steps := a.steps }

/-- The alternatives of a phrase before their first step. -/
def starts (p : Phrase) : List Form := p.rule.map (ofAlternative p)

/-- The same form with other steps to come. -/
def withSteps (f : Form) (steps : List Step) : Form := { f with steps := steps }

/-- The symbols that may come next, each with the steps behind it. -/
def nextSteps : List Step → List (Symbol × List Step)
  | [] => []
  | s :: rest => (s.symbol, rest) :: if s.optional then nextSteps rest else []

/-- True when nothing more has to come. -/
def complete (f : Form) : Bool := f.steps.all (·.optional)

/-- The symbols that may come next, each with the form behind it. -/
def moves (f : Form) : List (Symbol × Form) :=
  (nextSteps f.steps).map fun m => (m.1, f.withSteps m.2)

/-- A form and all forms behind it. -/
def suffixes (f : Form) : List Form := go f.steps
where
  go : List Step → List Form
    | [] => [f.withSteps []]
    | s :: rest => f.withSteps (s :: rest) :: go rest

end Form

/-- A numbered form. -/
structure FormEntry where
  form : Form
  complete : Bool
  moves : Array (Symbol × Nat)
  first : TokenSet
deriving Inhabited

/-- A phrase that another one may start with.  `follow` holds words that can
come behind it, and `open` tells whether the words behind the whole phrase can
come there too. -/
structure Corner where
  phrase : Phrase
  follow : TokenSet
  isOpen : Bool
deriving Inhabited

/-- All forms of the grammar. -/
structure Forms where
  entries : Array FormEntry
  starts : Array (Array Nat)
  first : Array TokenSet
  corners : Array (Array Corner)
deriving Inhabited

namespace Forms

/-- The words with which a symbol can start. -/
def firstOf (first : Array TokenSet) : Symbol → TokenSet
  | .token t => .single t
  | .phrase p => first[p.ctorIdx]?.getD .empty

/-- The words with which a run of steps can start. -/
def firstOfSteps (first : Array TokenSet) : List Step → TokenSet
  | [] => .empty
  | s :: rest =>
    if s.optional then (firstOf first s.symbol).union (firstOfSteps first rest)
    else firstOf first s.symbol

/-- One round of collecting the words with which each phrase can start. -/
def firstRound (first : Array TokenSet) : Array TokenSet :=
  Phrase.all.foldl (fun acc p =>
    let set := p.rule.foldl (fun s a => s.union (firstOfSteps acc a.steps)) .empty
    acc.setIfInBounds p.ctorIdx set) first

/-- Rounds until nothing changes. -/
def firstRounds : Nat → Array TokenSet → Array TokenSet
  | 0, first => first
  | n + 1, first =>
    let next := firstRound first
    if next = first then first else firstRounds n next

/-- The words with which each phrase can start. -/
def firstSets : Array TokenSet :=
  firstRounds Phrase.count (Array.replicate Phrase.count .empty)

/-- The forms of one phrase, without repetition. -/
def ofPhrase (p : Phrase) : List Form :=
  ((Form.starts p).flatMap Form.suffixes).eraseDups

/-- The forms of the whole grammar. -/
def build : Forms :=
  let first := firstSets
  let groups := Phrase.all.map ofPhrase
  let bases := groups.foldl (fun (acc : Array Nat × Nat) g => (acc.1.push acc.2, acc.2 + g.length))
    (#[], 0) |>.1
  let number (p : Phrase) (group : List Form) (f : Form) : Nat :=
    bases[p.ctorIdx]?.getD 0 + group.idxOf f
  let entries := (Phrase.all.zip groups).flatMap fun (p, group) => group.map fun f =>
    { form := f, complete := f.complete
      moves := (f.moves.map fun m => (m.1, number p group m.2)).toArray
      first := firstOfSteps first f.steps }
  let starts := (Phrase.all.zip groups).map fun (p, group) =>
    ((Form.starts p).map (number p group)).eraseDups.toArray
  let entries := entries.toArray
  let corners := starts.map fun s =>
    s.flatMap fun f => (entries[f]?.getD default).moves.filterMap fun m =>
      match m.1 with
      | .token _ => none
      | .phrase q =>
        let behind := entries[m.2]?.getD default
        some { phrase := q, follow := behind.first, isOpen := behind.complete }
  { entries, first, starts := starts.toArray, corners := corners.toArray }

/-- The entry of a number. -/
def entry (fs : Forms) (n : Nat) : FormEntry := fs.entries[n]?.getD default

/-- The numbers of the alternatives of a phrase. -/
def startsOf (fs : Forms) (p : Phrase) : Array Nat := fs.starts[p.ctorIdx]?.getD #[]

/-- The phrases that a phrase may start with. -/
def cornersOf (fs : Forms) (p : Phrase) : Array Corner := fs.corners[p.ctorIdx]?.getD #[]

end Forms

/-- The forms of Java. -/
def forms : Forms := Forms.build

end SourceShelf.Java
