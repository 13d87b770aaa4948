import SourceShelf.Java.Automaton
import SourceShelf.Java.Lexer
import SourceShelf.Java.Tree

/-!
# The stack of a reader

While it reads, a reader keeps the parts it has found on a stack, each above
the state it was in before.  Where a text can be read in two ways that come to
the same state, the two stacks share their top: a `Node` may have several
links down, each with the part that lies between.

Every part carries its `cost`, which is `0` for a part that follows the
grammar, so that readings of a faulty text can be compared.
-/

namespace SourceShelf.Java

/-- What a part stands for. -/
inductive PartKind where
  | symbol (s : Symbol)
  /-- A stretch that was passed over. -/
  | error
  /-- Words that are being passed over. -/
  | skipped
deriving DecidableEq, Repr, Inhabited

/-- A part of a text on the stack of a reader: the trees it adds to the phrase
around it, where it stands, and what it costs. -/
structure Part where
  kind : PartKind
  trees : List Tree
  start : Place
  stop : Cursor
  width : Nat
  cost : Nat
  preference : Int
  size : Nat
  extra : Bool
deriving Inhabited

namespace Part

/-- What a place in the text costs that has to be mended at all. -/
def repairCost : Nat := 500

/-- What a missing word costs besides. -/
def missingCost : Nat := 110

/-- What a word or phrase costs that is passed over. -/
def skippedTreeCost : Nat := 100

/-- What a line costs that is passed over. -/
def skippedLineCost : Nat := 30

/-- The part of one word. -/
def ofLexeme (l : Lexeme) (extra : Bool) : Part :=
  let start := l.start.place
  let stop := l.stop.place
  match l.word with
  | some .endOfFile =>
    { kind := .symbol (.token .endOfFile), trees := [], start, stop := l.stop,
      width := 0, cost := 0, preference := 0, size := 0, extra := true }
  | some w =>
    { kind := .symbol (.token w), trees := [.leaf w start.chars stop.chars], start, stop := l.stop,
      width := 0, cost := 0, preference := 0, size := 1, extra }
  | none =>
    { kind := .error, trees := [.junk start.chars stop.chars], start, stop := l.stop,
      width := 0, cost := 0, preference := 0, size := 1, extra }

/-- The part of a word that is put in. -/
def ofMissing (w : Token) (at_ : Cursor) : Part :=
  { kind := .symbol (.token w), trees := [.missing w at_.place.chars],
    start := at_.place, stop := at_,
    width := 0, cost := missingCost + repairCost, preference := 0, size := 1, extra := false }

/-- The kind of word that a tree shows for a word of the grammar. -/
def shownAs (shown : List (Symbol × Token)) (p : Part) : List Tree :=
  match p.kind with
  | .symbol s =>
    match shown.lookup s with
    | some w => p.trees.map fun
      | .leaf _ a b => .leaf w a b
      | .missing _ place => .missing w place
      | t => t
    | none => p.trees
  | _ => p.trees

/-- True of parts that only record that something was passed over. -/
def isFault : PartKind → Bool
  | .symbol _ => false
  | _ => true

/-- What a part costs as a piece of a stretch that is passed over. -/
def skipCost (p : Part) : Nat :=
  if p.extra || (p.kind == .error && p.width == 0) then 0
  else skippedTreeCost * p.trees.length

/-- Joins parts to a larger one. -/
def join (kind : PartKind) (shown : List (Symbol × Token)) (preference : Int) (at_ : Cursor)
    (parts : List Part) : Part :=
  let start := parts.head?.elim at_.place Part.start
  let stop := parts.getLast?.elim at_ Part.stop
  let trees := parts.flatMap (shownAs shown)
  let inner := (parts.filter (·.kind != .skipped)).foldl (fun n p => n + p.cost) 0
  let own :=
    if isFault kind then
      repairCost + (stop.place.bytes - start.bytes) +
        skippedLineCost * (stop.place.lines - start.lines) +
        parts.foldl (fun n p => n + p.skipCost) 0
    else 0
  let sizes := parts.foldl (fun n p => n + p.size) 0
  let (trees, size) :=
    match kind with
    | .symbol (.phrase p) => if p.isHidden then (trees, sizes) else ([.node p trees], sizes + 1)
    | .symbol (.token _) => (trees, sizes)
    | .error => ([.error trees], sizes + 1)
    | .skipped => (trees, sizes)
  { kind, trees, start, stop, width := parts.length, cost := own + inner,
    preference := parts.foldl (fun n p => n + p.preference) preference, size, extra := false }

/-- What the bytes and lines of a stretch cost that is passed over. -/
def lengthCost (p : Part) : Nat :=
  (p.stop.place.bytes - p.start.bytes) + skippedLineCost * (p.stop.place.lines - p.start.lines)

/-- A stretch that was passed over, and more parts behind it that are passed
over too. -/
def extend (e more : Part) : Part :=
  let trees := match e.trees, more.trees with
    | [.error ts], [.error us] => [Tree.error (ts ++ us)]
    | ts, us => ts ++ us
  let whole := { more with start := e.start, trees, width := e.width + more.width }
  { whole with
    cost := (e.cost - e.lengthCost) + (more.cost - repairCost - more.lengthCost) + whole.lengthCost
    size := e.size + more.size - 1
    preference := e.preference + more.preference }

/-- What a part adds to the size of a stack. -/
def weight (p : Part) : Nat := if p.kind == .skipped then p.size + 1 else p.size

/-- True when only one of two parts need be kept: both are faulty, or both are
alike. -/
def sameAs (a b : Part) : Bool :=
  a.kind == b.kind &&
    ((a.cost > 0 && b.cost > 0) ||
      (a.start.bytes == b.start.bytes && a.stop.place.bytes == b.stop.place.bytes &&
        a.width == b.width && a.extra == b.extra))

/-- True when the second of two readings is to be taken. -/
def secondWins (a b : Part) : Bool :=
  if b.cost < a.cost then true
  else if a.cost < b.cost then false
  else if a.preference < b.preference then true
  else if b.preference < a.preference then false
  else a.cost > 0

end Part

/-- What a stack records at one height. -/
structure Mark where
  id : Nat
  state : Nat
  cursor : Cursor
  cost : Nat
  size : Nat
  preference : Int
deriving Inhabited

/-- A stack.  A link without a part marks the place where the reader lost its
way. -/
inductive Node where
  | mk (mark : Mark) (links : List (Option Part × Node))
deriving Inhabited

namespace Node

/-- What the stack records at its top. -/
def mark : Node → Mark
  | mk m _ => m

/-- What lies below the top. -/
def links : Node → List (Option Part × Node)
  | mk _ ls => ls

/-- The empty stack in the state at the start of a text. -/
def base (c : Cursor) : Node :=
  mk { id := 0, state := 1, cursor := c, cost := 0, size := 0, preference := 0 } []

/-- A stack with a part on top. -/
def push (id : Nat) (state : Nat) (part : Option Part) (below : Node) : Node :=
  let m := below.mark
  match part with
  | some p =>
    mk { id, state, cursor := p.stop, cost := m.cost + p.cost, size := m.size + p.weight,
         preference := m.preference + p.preference } [(some p, below)]
  | none => mk { m with id := id, state := state } [(none, below)]

/-- True when two stacks may share their top. -/
def mergeable (a b : Node) : Bool :=
  a.mark.state == b.mark.state &&
    a.mark.cursor.place.bytes == b.mark.cursor.place.bytes && a.mark.cost == b.mark.cost

/-- The most links a stack may have below one top. -/
def maxLinks : Nat := 8

/-- True when two links carry the same part. -/
def sameLink : Option Part → Option Part → Bool
  | none, none => true
  | some p, some q => p.sameAs q
  | _, _ => false

/-- Adds a way down to a stack. -/
def addLink : Nat → Node → Option Part × Node → Node
  | 0, n, _ => n
  | fuel + 1, mk m links, (part, below) =>
    let weigh := part.elim (0 : Int) Part.preference
    let rec place : List (Option Part × Node) → Option (List (Option Part × Node) × Int)
      | [] => none
      | (p, b) :: rest =>
        if sameLink p part then
          if b.mark.id == below.mark.id then
            if p.elim (0 : Int) Part.preference < weigh then
              some ((part, b) :: rest, below.mark.preference + weigh)
            else some ((p, b) :: rest, m.preference)
          else if b.mergeable below then
            some ((p, below.links.foldl (addLink fuel) b) :: rest,
              max m.preference (below.mark.preference + weigh))
          else (place rest).map fun (ls, n) => ((p, b) :: ls, n)
        else (place rest).map fun (ls, n) => ((p, b) :: ls, n)
    match place links with
    | some (links, preference) => mk { m with preference := preference } links
    | none =>
      if links.length ≥ maxLinks then mk m links
      else
        mk { m with
             size := max m.size (below.mark.size + part.elim 0 Part.weight)
             preference := max m.preference (below.mark.preference + weigh) }
          (links ++ [(part, below)])

/-- How deep `addLink` looks for stacks to share. -/
def mergeDepth : Nat := 1000

/-- One stack with the ways down of both. -/
def merge (a b : Node) : Node := b.links.foldl (addLink mergeDepth) a

/-! ## Taking parts off -/

/-- A way down that is being followed: the parts passed so far, the topmost
last, and how many of them count. -/
structure Walk where
  node : Node
  parts : List Part
  count : Nat
deriving Inhabited

/-- The most ways that are followed at once. -/
def maxWalks : Nat := 64

/-- Goes down one link. -/
def Walk.down (w : Walk) (link : Option Part × Node) : Walk :=
  match link.1 with
  | some p =>
    { node := link.2, parts := p :: w.parts, count := if p.extra then w.count else w.count + 1 }
  | none => { node := link.2, parts := w.parts, count := w.count + 1 }

/-- Follows all ways down in step.  `stop` tells where a way ends; `visit` sees
every stack that is passed. -/
def follow {α : Type} (stop : Walk → Bool) (visit : α → Walk → α) (found : α → Walk → α) :
    Nat → List Walk → α → α
  | 0, _, acc => acc
  | _, [], acc => acc
  | fuel + 1, walks, acc =>
    let round := walks.foldl (fun (st : α × List Walk × List Walk × Nat) w =>
      let (acc, kept, added, count) := st
      let acc := visit acc w
      if stop w then (found acc w, kept, added, count - 1)
      else
        match w.node.links with
        | [] => (acc, kept, added, count - 1)
        | l :: more =>
          let room := more.take (maxWalks - count)
          (acc, w.down l :: kept, added ++ room.map w.down, count + room.length))
      (acc, [], [], walks.length)
    follow stop visit found fuel (round.2.1.reverse ++ round.2.2.1) round.1

/-- Ways down, those to one stack together. -/
abbrev Slices := List (Node × List (List Part))

/-- Adds a way down behind those to the same stack. -/
def addSlice (slices : Slices) (w : Walk) : Slices :=
  if slices.any (·.1.mark.id == w.node.mark.id) then
    slices.map fun s => if s.1.mark.id == w.node.mark.id then (s.1, s.2 ++ [w.parts]) else s
  else slices ++ [(w.node, [w.parts])]

/-- More steps down than any stack over a text can have. -/
def depthBound (n : Node) : Nat := 64 * (n.mark.size + n.mark.cursor.place.chars + 64)

/-- Takes a number of parts off, comments not counted. -/
def pop (n : Node) (count : Nat) : Slices :=
  follow (·.count == count) (fun acc _ => acc) addSlice n.depthBound
    [{ node := n, parts := [], count := 0 }] []

/-- Takes all parts off. -/
def popAll (n : Node) : Slices :=
  follow (·.node.links.isEmpty) (fun acc _ => acc) addSlice n.depthBound
    [{ node := n, parts := [], count := 0 }] []

/-- A state that the reader has passed, how deep it lies, and where it was. -/
structure Landmark where
  state : Nat
  depth : Nat
  place : Place
deriving Repr, Inhabited

/-- How deep a lost reader looks back. -/
def lookBack : Nat := 16

/-- The states that a lost reader may go back to, the nearest first. -/
def landmarks (n : Node) : List Landmark :=
  (follow (fun w => w.count > lookBack)
    (fun (acc : List Landmark) w =>
      if w.count > lookBack || acc.any (fun l => l.depth == w.count && l.state == w.node.mark.state)
      then acc
      else
        { state := w.node.mark.state, depth := w.count, place := w.node.mark.cursor.place } :: acc)
    (fun acc _ => acc) n.depthBound [{ node := n, parts := [], count := 0 }] []).reverse

end Node

end SourceShelf.Java
