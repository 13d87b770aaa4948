import SourceShelf.Java.Item

/-!
# Reader states

A reader that has come to some place in a text is in a `State`: the partly
read alternatives (`Item`) that fit what stands before, each with the words
that may come behind it, and the phrases that could start here.  What to do
at the next word is a list of `Action`s.  A state in which the next word both
goes on and ends a phrase is settled by precedence and associativity where the
grammar says so; otherwise the reader tries both.

States are made when they are first needed (`Automaton.goto`) and numbered.
State `0` is the state of a reader that has lost its way, state `1` that of a
reader at the start of a text.
-/

namespace SourceShelf.Java

/-- A partly read alternative: the number of its form, how many symbols have
been read, and the words that may come behind it. -/
structure Item where
  form : Nat
  taken : Nat
  follow : TokenSet
deriving DecidableEq, Repr, Inhabited

namespace Item

/-- A fixed order of items. -/
def before (a b : Item) : Bool :=
  a.form < b.form || (a.form == b.form && a.taken < b.taken)

/-- Adds an item to a sorted list, joining it with one that differs only in
the words behind. -/
def insert (i : Item) : List Item → List Item
  | [] => [i]
  | j :: rest =>
    if i.form = j.form ∧ i.taken = j.taken then
      { j with follow := j.follow.union i.follow } :: rest
    else if i.before j then i :: j :: rest
    else j :: insert i rest

end Item

/-- The end of a phrase: how many symbols it takes and what they make. -/
structure Reduction where
  head : Phrase
  taken : Nat
  preference : Int
  shown : List (Symbol × Token)
deriving DecidableEq, Repr, Inhabited

/-- What a reader may do at a word. -/
inductive Action where
  | reduce (r : Reduction)
  | shift
  | accept
deriving DecidableEq, Repr, Inhabited

/-- A state of the reader. -/
structure State where
  kernel : List Item
  complete : List Item
  moves : Array (List Item)
  words : TokenSet
deriving Inhabited

namespace State

/-- Gives a phrase that another one may start with the words that may come
behind it, and puts it on the list if one of them is new. -/
def spreadTo (own : TokenSet) :
    List Phrase × Array TokenSet × Array Bool → Corner → List Phrase × Array TokenSet × Array Bool
  | (work, sets, seen), c =>
    let old := sets[c.phrase.ctorIdx]?.getD .empty
    let new := old.union (if c.isOpen then c.follow.union own else c.follow)
    if new = old && seen[c.phrase.ctorIdx]?.getD false then (work, sets, seen)
    else (c.phrase :: work, sets.setIfInBounds c.phrase.ctorIdx new,
      seen.setIfInBounds c.phrase.ctorIdx true)

/-- Spreads the words that may come behind a phrase to the phrases it may
start with, until nothing changes. -/
def spread : Nat → List Phrase → Array TokenSet → Array Bool → Array TokenSet × Array Bool
  | 0, _, sets, seen => (sets, seen)
  | _, [], sets, seen => (sets, seen)
  | n + 1, p :: work, sets, seen =>
    let own := sets[p.ctorIdx]?.getD .empty
    let (work, sets, seen) := (forms.cornersOf p).foldl (spreadTo own) (work, sets, seen)
    spread n work sets seen

/-- More steps than `spread` can need: a phrase is put on the list again only
when a word is new to it. -/
def spreadBound : Nat := Phrase.count * (Token.count + 1) * 4

/-- Lets a phrase start that an item goes on with, with the words that may come
behind it. -/
def startAt (i : Item) :
    List Phrase × Array TokenSet × Array Bool → Symbol × Nat →
      List Phrase × Array TokenSet × Array Bool
  | found, (.token _, _) => found
  | (work, sets, seen), (.phrase p, n) =>
    let behind := forms.entry n
    let follow := if behind.complete then behind.first.union i.follow else behind.first
    let old := sets[p.ctorIdx]?.getD .empty
    (p :: work, sets.setIfInBounds p.ctorIdx (old.union follow),
      seen.setIfInBounds p.ctorIdx true)

/-- The phrases that may start in a state with the given items, each with the
words that may come behind it. -/
def predict (kernel : List Item) : List (Phrase × TokenSet) :=
  let start := kernel.foldl (fun found i => (forms.entry i.form).moves.foldl (startAt i) found)
    ([], Array.replicate Phrase.count .empty, Array.replicate Phrase.count false)
  let found := spread spreadBound start.1 start.2.1 start.2.2
  Phrase.all.filterMap fun p =>
    if found.2[p.ctorIdx]?.getD false then some (p, found.1[p.ctorIdx]?.getD .empty) else none

/-- The state with the given items. -/
def ofKernel (kernel : List Item) : State :=
  let predicted := (predict kernel).flatMap fun (p, follow) =>
    (forms.startsOf p).toList.map fun f => { form := f, taken := 0, follow : Item }
  let items := kernel ++ predicted
  let complete := items.filter fun i => (forms.entry i.form).complete
  let moves := items.foldl (fun moves i =>
    (forms.entry i.form).moves.foldl (fun moves m =>
      moves.modify m.1.index
        (Item.insert { form := m.2, taken := i.taken + 1, follow := i.follow }))
      moves) (Array.replicate Symbol.count [])
  let words := complete.foldl (fun s i => s.union i.follow) .empty
  let words := (List.range Token.count).foldl (fun s n =>
    if (moves[n]?.getD []).isEmpty then s else s.union ⟨1 <<< n⟩) words
  { kernel, complete, moves, words }

/-- The items behind a symbol. -/
def behind (s : State) (x : Symbol) : List Item := s.moves[x.index]?.getD []

/-- The items of the state that end at a word, of these only the ones with the
highest precedence. -/
def ending (s : State) (t : Token) : List Item :=
  let all := s.complete.filter fun i => i.follow.contains t
  let level (i : Item) : Int := if i.taken = 0 then 0 else (forms.entry i.form).form.precedence
  match all.map level with
  | [] => []
  | n :: ns =>
    let top := ns.foldl max n
    all.filter fun i => level i = top

/-- True when the items that go on with a word stand above the ones that end
there, or below, or neither. -/
def goOn (s : State) (t : Token) (ends : List Item) : Bool × Bool :=
  let level := match ends with
    | i :: _ => if i.taken = 0 then 0 else (forms.entry i.form).form.precedence
    | [] => 0
  let going := s.kernel.filter fun i => i.taken > 0 && (forms.entry i.form).first.contains t
  let levels := going.map fun i => (forms.entry i.form).form.precedence
  (levels.any (· > level), levels.any (· < level))

/-- The end of a phrase at an item. -/
def reductionOf (i : Item) : Reduction :=
  let f := (forms.entry i.form).form
  { head := f.head, taken := i.taken, preference := f.preference, shown := f.shown }

/-- What a reader may do at a word. -/
def actions (s : State) (t : Token) : List Action :=
  let ends := s.ending t
  let reduces := (ends.map reductionOf).eraseDups.map fun r =>
    if r.head = .file then Action.accept else .reduce r
  if (s.behind (.token t)).isEmpty then reduces
  else if ends.isEmpty then [.shift]
  else
    match s.goOn t ends with
    | (true, false) => [.shift]
    | (false, true) => reduces
    | (true, true) => reduces ++ [.shift]
    | (false, false) =>
      let assocs := ends.map fun i => if i.taken = 0 then .none else (forms.entry i.form).form.assoc
      if assocs.all (· = .left) then reduces
      else if assocs.all (· = .right) then [.shift]
      else reduces ++ [.shift]

end State

/-- The states made so far, and where they lead. -/
structure Automaton where
  states : Array State
  links : Array (Array (Option Nat))
deriving Inhabited

namespace Automaton

/-- The items at the start of a text. -/
def startKernel : List Item :=
  (forms.startsOf .file).toList.map fun f =>
    { form := f, taken := 0, follow := .single .endOfFile }

/-- The automaton with its first two states. -/
def initial : Automaton :=
  let lost : State := { kernel := [], complete := [], moves := #[], words := .empty }
  { states := #[lost, State.ofKernel startKernel]
    links := Array.replicate 2 (Array.replicate Symbol.count none) }

/-- A state by its number. -/
def state (a : Automaton) (n : Nat) : State := a.states[n]?.getD default

/-- The number of the state with the given items, made if need be. -/
def intern (a : Automaton) (kernel : List Item) : Automaton × Nat :=
  match a.states.findIdx? (·.kernel = kernel) with
  | some n => (a, n)
  | none =>
    ({ states := a.states.push (State.ofKernel kernel)
       links := a.links.push (Array.replicate Symbol.count none) }, a.states.size)

/-- The state behind a symbol, if the symbol can stand here. -/
def goto (a : Automaton) (n : Nat) (x : Symbol) : Automaton × Option Nat :=
  match (a.links[n]?.bind (·[x.index]?)).join with
  | some m => (a, some m)
  | none =>
    match (a.state n).behind x with
    | [] => (a, none)
    | kernel =>
      let (a, m) := a.intern kernel
      ({ a with links := a.links.modify n (·.setIfInBounds x.index (some m)) }, some m)

end Automaton

end SourceShelf.Java
